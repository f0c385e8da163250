import Pdcm.Core.ServiceCore
import Pdcm.Ipc.Frame

/-!
# The messages of the local protocol

The messages of `pdcm.local.v1` as the generated classes hold them, and the translations of
the daemon's own enumerations into them. Proto3 enumerations are open: a field may hold a
number that names no enumerator. How messages become bytes is left to protobuf and enters
as a parameter.
-/

namespace Pdcm.Ipc

/-- The field of an open enumeration. -/
inductive OpenEnum (α : Type) where
  | known (enumerator : α)
  | unrecognized (value : ℤ)
  deriving DecidableEq, Repr

def OpenEnum.isValid {α : Type} : OpenEnum α → Bool
  | known _ => true
  | unrecognized _ => false

namespace LocalV1

inductive CoreState where
  | unspecified
  | created
  | starting
  | ready
  | degraded
  | failed
  | stopping
  | stopped
  deriving DecidableEq, Repr

inductive ProviderState where
  | unspecified
  | uninitialized
  | ready
  | unavailable
  | shutdown
  deriving DecidableEq, Repr

inductive ProviderFailurePhase where
  | none
  | load
  | entry
  | abi
  | nativeInitialize
  | discovery
  deriving DecidableEq, Repr

inductive EntityKind where
  | unspecified
  | device
  | node
  deriving DecidableEq, Repr

inductive EntityState where
  | unspecified
  | ready
  | error
  deriving DecidableEq, Repr

inductive ObservationStatus where
  | unspecified
  | valid
  | stale
  | notAvailable
  | unsupported
  | error
  deriving DecidableEq, Repr

inductive CapabilityKind where
  | unspecified
  | metricsCatalog
  | metric
  | health
  deriving DecidableEq, Repr

inductive CapabilityReason where
  | unspecified
  | supported
  | catalogBlockedExternal
  | providerUnsupported
  | dependencyMissing
  | temporarilyUnavailable
  | permissionHidden
  | postP0Disabled
  | topologyUnsupported
  deriving DecidableEq, Repr

inductive HealthState where
  | unspecified
  | healthy
  | unknown
  | warning
  | error
  deriving DecidableEq, Repr

structure ResourceLimits where
  maxOutstandingRequests : ℕ := 0
  maxWatches : ℕ := 0
  maxSubscriptions : ℕ := 0
  maxFrameBytes : ℕ := 0
  deriving DecidableEq, Repr

structure HelloRequest where
  protocolMajor : ℕ := 0
  protocolMinor : ℕ := 0
  clientLibraryVersion : String := ""
  processId : ℕ := 0
  nonce : List UInt8 := []
  requestedFeatures : List String := []
  deriving DecidableEq, Repr

structure HelloResponse where
  protocolMajor : ℕ := 0
  protocolMinor : ℕ := 0
  sessionId : ℕ := 0
  daemonVersion : String := ""
  coreState : OpenEnum CoreState := .known .unspecified
  providerState : OpenEnum ProviderState := .known .unspecified
  providerFailurePhase : OpenEnum ProviderFailurePhase := .known .none
  catalogGeneration : ℕ := 0
  detectedDeviceCount : ℕ := 0
  detailStatus : ℤ := 0
  limits : Option ResourceLimits := none
  deriving DecidableEq, Repr

structure ErrorResponse where
  status : ℤ := 0
  stableReason : String := ""
  supportedProtocolMajor : ℕ := 0
  supportedProtocolMinor : ℕ := 0
  deriving DecidableEq, Repr

structure EntityRef where
  kind : OpenEnum EntityKind := .known .unspecified
  pdcmId : ℕ := 0
  generation : ℕ := 0
  deriving DecidableEq, Repr

structure EntityListRequest where
  kind : OpenEnum EntityKind := .known .unspecified
  deriving DecidableEq, Repr

structure EntityInfo where
  entity : Option EntityRef := none
  state : OpenEnum EntityState := .known .unspecified
  itemStatus : ℤ := 0
  nativeIdStatus : OpenEnum ObservationStatus := .known .unspecified
  pciBdfStatus : OpenEnum ObservationStatus := .known .unspecified
  pdrvVersionStatus : OpenEnum ObservationStatus := .known .unspecified
  nativeId : String := ""
  pciBdf : String := ""
  pdrvVersion : String := ""
  deriving DecidableEq, Repr

structure EntityListResponse where
  status : ℤ := 0
  detectedDeviceCount : ℕ := 0
  catalogGeneration : ℕ := 0
  entities : List EntityInfo := []
  deriving DecidableEq, Repr

structure CapabilityQueryRequest where
  entity : Option EntityRef := none
  deriving DecidableEq, Repr

structure CapabilityItem where
  kind : OpenEnum CapabilityKind := .known .unspecified
  id : ℕ := 0
  supported : Bool := false
  reason : OpenEnum CapabilityReason := .known .unspecified
  semanticVersion : ℕ := 0
  catalogGeneration : ℕ := 0
  deriving DecidableEq, Repr

structure CapabilityQueryResponse where
  status : ℤ := 0
  entity : Option EntityRef := none
  catalogGeneration : ℕ := 0
  items : List CapabilityItem := []
  deriving DecidableEq, Repr

structure HealthQueryRequest where
  entity : Option EntityRef := none
  subsystemId : ℕ := 0
  catalogGeneration : ℕ := 0
  maxAgeNs : ℕ := 0
  deriving DecidableEq, Repr

structure HealthQueryResponse where
  status : ℤ := 0
  entity : Option EntityRef := none
  subsystemId : ℕ := 0
  state : OpenEnum HealthState := .known .unspecified
  itemStatus : OpenEnum ObservationStatus := .known .unspecified
  code : ℕ := 0
  catalogGeneration : ℕ := 0
  evaluatedMonotonicTimeNs : ℤ := 0
  evidenceAgeNs : ℤ := 0
  evidenceId : ℕ := 0
  sequenceOrToken : ℕ := 0
  source : String := ""
  limitations : List String := []
  deriving DecidableEq, Repr

end LocalV1

/-! ### The byte encoding -/

/-- `ParseFromArray` and `SerializeAsString` of one message class. -/
structure Codec (α : Type) where
  parse : List UInt8 → Option α
  serialize : α → List UInt8

/-- A codec for the messages of a list, each of which is sent as its place there. -/
def Codec.table {α : Type} [DecidableEq α] (messages : List α) : Codec α where
  parse
    | [place] => messages[place.toNat]?
    | _ => none
  serialize message := [UInt8.ofNat (messages.idxOf message)]

theorem Codec.parse_table {α : Type} [DecidableEq α] {messages : List α} {message : α}
    (hle : messages.length ≤ 256) (hmem : message ∈ messages) :
    (table messages).parse ((table messages).serialize message) = some message := by
  have hlt := List.idxOf_lt_length_of_mem hmem
  simp [table, Nat.mod_eq_of_lt (hlt.trans_le hle), List.getElem?_idxOf hmem]

/-- What protobuf does with the messages of the protocol. -/
structure Protobuf where
  helloRequest : Codec LocalV1.HelloRequest
  helloResponse : Codec LocalV1.HelloResponse
  errorResponse : Codec LocalV1.ErrorResponse
  entityListRequest : Codec LocalV1.EntityListRequest
  entityListResponse : Codec LocalV1.EntityListResponse
  capabilityQueryRequest : Codec LocalV1.CapabilityQueryRequest
  capabilityQueryResponse : Codec LocalV1.CapabilityQueryResponse
  healthQueryRequest : Codec LocalV1.HealthQueryRequest
  healthQueryResponse : Codec LocalV1.HealthQueryResponse

/-! ### Translations -/

/-- The values of `pdcm_status_t`. -/
def statusValue : StatusCode → ℤ
  | .success => 0
  | .partialResult => 1
  | .invalidArgument => 2
  | .unsupported => 3
  | .notInitialized => 4
  | .unavailable => 5
  | .permissionDenied => 6
  | .timeout => 7
  | .resourceExhausted => 8
  | .bufferTooSmall => 9
  | .notFound => 10
  | .staleGeneration => 11
  | .internal => 12
  | .protocolIncompatible => 13

def healthCodeValue : StableHealthCode → ℕ
  | .heartbeatOk => 0
  | .heartbeatWarning => 1
  | .heartbeatFault => 2
  | .heartbeatMissing => 3
  | .heartbeatStale => 4
  | .heartbeatTimeout => 5
  | .heartbeatReadError => 6
  | .heartbeatUnsupported => 7
  | .providerUnavailable => 8
  | .processorError => 9

def toProtocolCoreState : CoreState → LocalV1.CoreState
  | .created => .created
  | .starting => .starting
  | .ready => .ready
  | .degraded => .degraded
  | .failed => .failed
  | .stopping => .stopping
  | .stopped => .stopped

def toProtocolProviderState : ProviderState → LocalV1.ProviderState
  | .uninitialized => .uninitialized
  | .ready => .ready
  | .unavailable => .unavailable
  | .shutdown => .shutdown

def toFailurePhase : CoreDegradedReason → LocalV1.ProviderFailurePhase
  | .providerUnavailable => .nativeInitialize
  | .discoveryFailed => .discovery
  | .topologyUnsupported => .discovery
  | .none => .none

def toProtocolKind : EntityKind → LocalV1.EntityKind
  | .device => .device
  | .node => .node
  | .unknown => .unspecified

def fromProtocolKind : OpenEnum LocalV1.EntityKind → EntityKind
  | .known .device => .device
  | .known .node => .node
  | _ => .unknown

def toProtocolEntityState : EntityState → LocalV1.EntityState
  | .ready => .ready
  | .error => .error
  | .unknown => .unspecified

def toProtocolStatus : ObservationStatus → LocalV1.ObservationStatus
  | .valid => .valid
  | .stale => .stale
  | .notAvailable => .notAvailable
  | .unsupported => .unsupported
  | .error => .error

def toProtocolHealthState : HealthState → LocalV1.HealthState
  | .healthy => .healthy
  | .unknown => .unknown
  | .warning => .warning
  | .error => .error

def toProtocolCapabilityKind : CapabilityKind → LocalV1.CapabilityKind
  | .metricsCatalog => .metricsCatalog
  | .metric => .metric
  | .health => .health

def toProtocolReason : CapabilityReason → LocalV1.CapabilityReason
  | .supported => .supported
  | .catalogBlockedExternal => .catalogBlockedExternal
  | .providerUnsupported => .providerUnsupported
  | .dependencyMissing => .dependencyMissing
  | .temporarilyUnavailable => .temporarilyUnavailable
  | .permissionHidden => .permissionHidden
  | .postP0Disabled => .postP0Disabled
  | .topologyUnsupported => .topologyUnsupported

def fillEntityRef (source : EntityRef) : LocalV1.EntityRef where
  kind := .known (toProtocolKind source.kind)
  pdcmId := source.id
  generation := source.generation

/-- `errorFrame` of the handshake handler and of the request router. -/
def errorFrame (protobuf : Protobuf) (requestId : UInt64) (status : StatusCode)
    (stableReason : String) : Frame where
  messageType := .errorResponse
  requestId := requestId
  payload := protobuf.errorResponse.serialize
    { status := statusValue status
      stableReason := stableReason
      supportedProtocolMajor := protocolMajor.toNat
      supportedProtocolMinor := protocolMinor.toNat }

end Pdcm.Ipc
