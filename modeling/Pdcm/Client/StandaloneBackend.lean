import Pdcm.Client.Api
import Pdcm.Ipc.Handlers

/-!
# The standalone backend

`client/standalone_backend.cpp`, the requests: the client sends a frame to the daemon, checks
the envelope of the response and then the message in it. A response that fails a check is
rejected: the reply is an `error` with the result that the client returns instead.
-/

namespace Pdcm.Client

open Ipc

/-! ### Checks and conversions of a response -/

def validProtocolStatus (status : ℤ) : Bool :=
  decide (statusValue .success ≤ status ∧ status ≤ statusValue .protocolIncompatible)

/-- The cast of a number in the range of `pdcm_status_t`. -/
def statusOfValue : ℤ → StatusCode
  | 0 => .success
  | 1 => .partialResult
  | 2 => .invalidArgument
  | 3 => .unsupported
  | 4 => .notInitialized
  | 5 => .unavailable
  | 6 => .permissionDenied
  | 7 => .timeout
  | 8 => .resourceExhausted
  | 9 => .bufferTooSmall
  | 10 => .notFound
  | 11 => .staleGeneration
  | 13 => .protocolIncompatible
  | _ => .internal

def protocolStatus (rawStatus : ℤ) (message : String) : Status :=
  if validProtocolStatus rawStatus then ⟨statusOfValue rawStatus, message⟩
  else ⟨.internal, "invalid status from local daemon"⟩

/-- The cast of a number in the range of `StableHealthCode`. -/
def healthCodeOfValue : ℕ → StableHealthCode
  | 0 => .heartbeatOk
  | 1 => .heartbeatWarning
  | 2 => .heartbeatFault
  | 3 => .heartbeatMissing
  | 4 => .heartbeatStale
  | 5 => .heartbeatTimeout
  | 6 => .heartbeatReadError
  | 7 => .heartbeatUnsupported
  | 8 => .providerUnavailable
  | _ => .processorError

def fromProtocolEntityState : OpenEnum LocalV1.EntityState → EntityState
  | .known .ready => .ready
  | .known .error => .error
  | _ => .unknown

def fromProtocolStatus : OpenEnum LocalV1.ObservationStatus → ObservationStatus
  | .known .valid => .valid
  | .known .stale => .stale
  | .known .notAvailable => .notAvailable
  | .known .unsupported => .unsupported
  | _ => .error

/-- The number in the field. -/
def observationValue : OpenEnum LocalV1.ObservationStatus → ℤ
  | .known .unspecified => 0
  | .known .valid => 1
  | .known .stale => 2
  | .known .notAvailable => 3
  | .known .unsupported => 4
  | .known .error => 5
  | .unrecognized value => value

def fromProtocolCapabilityKind : OpenEnum LocalV1.CapabilityKind → CapabilityKind
  | .known .metricsCatalog => .metricsCatalog
  | .known .health => .health
  | _ => .metric

def fromProtocolReason : OpenEnum LocalV1.CapabilityReason → CapabilityReason
  | .known .supported => .supported
  | .known .catalogBlockedExternal => .catalogBlockedExternal
  | .known .dependencyMissing => .dependencyMissing
  | .known .temporarilyUnavailable => .temporarilyUnavailable
  | .known .permissionHidden => .permissionHidden
  | .known .postP0Disabled => .postP0Disabled
  | .known .topologyUnsupported => .topologyUnsupported
  | _ => .providerUnsupported

def fromProtocolHealthState : OpenEnum LocalV1.HealthState → HealthState
  | .known .healthy => .healthy
  | .known .warning => .warning
  | .known .error => .error
  | _ => .unknown

def fromProtocolEntity (entity : LocalV1.EntityRef) : EntityRef where
  kind := fromProtocolKind entity.kind
  id := entity.pdcmId
  generation := entity.generation

def validEntityRef (entity : LocalV1.EntityRef) : Bool :=
  entity.kind.isValid && decide (entity.kind = .known .device ∧ entity.generation ≠ 0)

/-- `has_entity` and the check of the entity. -/
def validPresentEntity (entity : Option LocalV1.EntityRef) : Bool := entity.any validEntityRef

def validObservation (status : OpenEnum LocalV1.ObservationStatus) : Bool :=
  status.isValid && decide (status ≠ .known .unspecified)

def validEntityInfo (entity : LocalV1.EntityInfo) : Bool :=
  validPresentEntity entity.entity && entity.state.isValid &&
    validObservation entity.nativeIdStatus && validObservation entity.pciBdfStatus &&
    validObservation entity.pdrvVersionStatus && validProtocolStatus entity.itemStatus &&
    decide (entity.nativeId.utf8ByteSize < 64 ∧ entity.pciBdf.utf8ByteSize < 32 ∧
      entity.pdrvVersion.utf8ByteSize < 64)

def validCapabilityItem (item : LocalV1.CapabilityItem) : Bool :=
  item.kind.isValid && decide (item.kind ≠ .known .unspecified) &&
    item.reason.isValid && decide (item.reason ≠ .known .unspecified) &&
    decide (item.semanticVersion ≠ 0 ∧ item.catalogGeneration ≠ 0)

/-- The item status is checked as if it were a call status. -/
def validHealthResponse (response : LocalV1.HealthQueryResponse) : Bool :=
  validPresentEntity response.entity && decide (response.subsystemId ≠ 0) &&
    response.state.isValid && decide (response.state ≠ .known .unspecified) &&
    validProtocolStatus (observationValue response.itemStatus) &&
    decide (response.code ≤ healthCodeValue .processorError) &&
    decide (response.catalogGeneration ≠ 0) &&
    decide (response.source.utf8ByteSize < healthSourceCapacity) &&
    response.limitations.all fun item => decide (item.utf8ByteSize < healthLimitationCapacity)

/-! ### Messages to results -/

def entityRecord (input : LocalV1.EntityInfo) : EntityRecord where
  ref := fromProtocolEntity (input.entity.getD {})
  state := fromProtocolEntityState input.state
  itemStatus := statusOfValue input.itemStatus
  nativeId := ⟨fromProtocolStatus input.nativeIdStatus, input.nativeId⟩
  pciBdf := ⟨fromProtocolStatus input.pciBdfStatus, input.pciBdf⟩
  pdrvVersion := ⟨fromProtocolStatus input.pdrvVersionStatus, input.pdrvVersion⟩

def decodeEntities (response : LocalV1.EntityListResponse) :
    Except EntityListResult EntityListResult :=
  if ¬validProtocolStatus response.status then
    .error { status := ⟨.internal, "local daemon returned malformed entities"⟩ }
  else
    let result : EntityListResult :=
      { status := protocolStatus response.status "entity list result"
        detectedDeviceCount := response.detectedDeviceCount
        catalogGeneration := response.catalogGeneration }
    if result.status.code ≠ .success ∧ result.status.code ≠ .partialResult then
      if response.entities ≠ [] then
        .error { result with status := ⟨.internal, "failed entity response contains records"⟩ }
      else .ok result
    else if response.entities.all validEntityInfo then
      .ok { result with entities := response.entities.map entityRecord }
    else .error { result with status := ⟨.internal, "local daemon returned invalid entity"⟩ }

def capabilityItem (input : LocalV1.CapabilityItem) : CapabilityItem where
  kind := fromProtocolCapabilityKind input.kind
  id := input.id
  supported := input.supported
  reason := fromProtocolReason input.reason
  semanticVersion := input.semanticVersion
  catalogGeneration := input.catalogGeneration

def decodeCapabilities (response : LocalV1.CapabilityQueryResponse) :
    Except CapabilityQueryResult CapabilityQueryResult :=
  let internal (message : String) : Except CapabilityQueryResult CapabilityQueryResult :=
    .error { status := ⟨.internal, message⟩ }
  if ¬validProtocolStatus response.status then
    internal "local daemon returned malformed capabilities"
  else
    let resultStatus := protocolStatus response.status "capability query result"
    if ¬resultStatus.ok then
      if response.entity ≠ none ∨ response.items ≠ [] ∨ response.catalogGeneration ≠ 0 then
        internal "failed capability response contains a result"
      else .ok { status := resultStatus }
    else if ¬validPresentEntity response.entity ∨ response.catalogGeneration = 0 then
      internal "capability response identity is invalid"
    else if response.items.all fun input =>
        validCapabilityItem input &&
          decide (input.catalogGeneration = response.catalogGeneration) then
      .ok
        { status := .success
          capabilities := some
            { entity := fromProtocolEntity (response.entity.getD {})
              catalogGeneration := response.catalogGeneration
              items := response.items.map capabilityItem } }
    else internal "local daemon returned invalid capability item"

/-- A zero evidence id stands for no evidence. -/
def healthEvidence (response : LocalV1.HealthQueryResponse) : List EvidenceRef :=
  if response.evidenceId = 0 then []
  else
    [{ evidenceId := response.evidenceId
       sequenceOrToken := response.sequenceOrToken
       observedMonotonicTimeNs := response.evaluatedMonotonicTimeNs - response.evidenceAgeNs
       source := { provider := response.source } }]

def healthResult (response : LocalV1.HealthQueryResponse) : HealthResult where
  entity := fromProtocolEntity (response.entity.getD {})
  subsystemId := response.subsystemId
  state := fromProtocolHealthState response.state
  itemStatus := fromProtocolStatus response.itemStatus
  code := healthCodeOfValue response.code
  catalogGeneration := response.catalogGeneration
  evaluatedMonotonicTimeNs := response.evaluatedMonotonicTimeNs
  evidenceAgeNs := response.evidenceAgeNs
  evidence := healthEvidence response
  limitations := response.limitations.map fun detail => ⟨.evidenceMissing, detail⟩

def decodeHealth (response : LocalV1.HealthQueryResponse) :
    Except HealthQueryResult HealthQueryResult :=
  let internal (message : String) : Except HealthQueryResult HealthQueryResult :=
    .error { status := ⟨.internal, message⟩ }
  if ¬validProtocolStatus response.status then internal "local daemon returned malformed health"
  else
    let resultStatus := protocolStatus response.status "health query result"
    if resultStatus.code ≠ .success ∧ resultStatus.code ≠ .partialResult then
      if response.entity ≠ none then internal "failed health response contains a result"
      else .ok { status := resultStatus }
    else if ¬validHealthResponse response then
      internal "local daemon returned invalid health result"
    else .ok { status := resultStatus, item := some (healthResult response) }

/-! ### Exchanges -/

/-- What comes back for a frame that is written to the socket, or the status of the socket
call that failed. -/
abbrev Transport := Frame → Except Status Frame

structure StandaloneBackend where
  started : Bool := false
  closed : Bool := false
  connected : Bool := false
  /-- Zero after the last id was used. -/
  nextRequestId : UInt64 := 2
  /-- The negotiated protocol. -/
  protocolMajor : UInt16 := 0
  protocolMinor : UInt16 := 0
  maxFrameBytes : ℕ
  deriving DecidableEq, Repr

namespace StandaloneBackend

variable (protobuf : Protobuf) (transport : Transport) (b : StandaloneBackend)
  {expected : MessageType} {frame : Frame}

/-- The checks of a response frame. -/
def checkEnvelope (requestId : UInt64) (expected : MessageType) (response : Frame) :
    Except Status Frame :=
  if response.requestId ≠ requestId ∨ response.protocolMajor ≠ b.protocolMajor ∨
      response.protocolMinor ≠ b.protocolMinor then
    .error ⟨.internal, "local daemon response envelope mismatch"⟩
  else if response.messageType = .errorResponse then
    if intMax < response.payload.length then
      .error ⟨.internal, "local daemon error payload is too large"⟩
    else
      match protobuf.errorResponse.parse response.payload with
      | none => .error ⟨.internal, "local daemon returned malformed error"⟩
      | some error =>
        let errorStatus := protocolStatus error.status error.stableReason
        if errorStatus.ok then
          .error ⟨.internal, "local daemon returned a success error response"⟩
        else .error errorStatus
  else if response.messageType ≠ expected then
    .error ⟨.internal, "local daemon returned unexpected response type"⟩
  else .ok response

/-- The request frame that is sent next. -/
def requestFrame (type : MessageType) (payload : List UInt8) : Frame where
  protocolMajor := b.protocolMajor
  protocolMinor := b.protocolMinor
  messageType := type
  requestId := b.nextRequestId
  payload := payload

def exchangeLocked (type : MessageType) (payload : List UInt8) (expected : MessageType) :
    StandaloneBackend × Except Status Frame :=
  if ¬b.started ∨ b.closed ∨ ¬b.connected then
    (b, .error ⟨.unavailable, "standalone backend is disconnected"⟩)
  else if b.nextRequestId = 0 then
    (b, .error ⟨.resourceExhausted, "standalone request ID space is exhausted"⟩)
  else
    let request := b.requestFrame type payload
    let sent := { b with nextRequestId := b.nextRequestId + 1 }
    match encodeFrame request b.maxFrameBytes with
    | .error status => (sent, .error status)
    | .ok _ =>
      match transport request with
      | .error status => (sent, .error status)
      | .ok response => (sent, b.checkEnvelope protobuf request.requestId expected response)

/-- From the exchange to the reply of a query, which all three queries do alike. -/
def reply {M R : Type} (codec : Codec M) (failed : Status → R) (tooLarge malformed : String)
    (decode : M → Except R R) (exchanged : Except Status Frame) : Except R R :=
  match exchanged with
  | .error status => .error (failed status)
  | .ok frame =>
    if intMax < frame.payload.length then .error (failed ⟨.internal, tooLarge⟩)
    else
      match codec.parse frame.payload with
      | none => .error (failed ⟨.internal, malformed⟩)
      | some message => decode message

def entityListRequest (kind : EntityKind) : LocalV1.EntityListRequest where
  kind := .known (toProtocolKind kind)

def entitiesReply (kind : EntityKind) : Except EntityListResult EntityListResult :=
  reply protobuf.entityListResponse (fun status => { status := status })
    "entity response payload is too large" "local daemon returned malformed entities"
    decodeEntities
    (b.exchangeLocked protobuf transport .entityListRequest
      (protobuf.entityListRequest.serialize (entityListRequest kind)) .entityListResponse).2

def capabilityQueryRequest (entity : EntityRef) : LocalV1.CapabilityQueryRequest where
  entity := some (Ipc.fillEntityRef entity)

def capabilitiesReply (entity : EntityRef) : Except CapabilityQueryResult CapabilityQueryResult :=
  reply protobuf.capabilityQueryResponse (fun status => { status := status })
    "capability response payload is too large" "local daemon returned malformed capabilities"
    decodeCapabilities
    (b.exchangeLocked protobuf transport .capabilityQueryRequest
      (protobuf.capabilityQueryRequest.serialize (capabilityQueryRequest entity))
      .capabilityQueryResponse).2

def healthQueryRequest (request : HealthRequest) : LocalV1.HealthQueryRequest where
  entity := some (Ipc.fillEntityRef request.entity)
  subsystemId := request.subsystemId
  catalogGeneration := request.catalogGeneration
  maxAgeNs := request.maxAgeNs

def healthReply (request : HealthRequest) : Except HealthQueryResult HealthQueryResult :=
  reply protobuf.healthQueryResponse (fun status => { status := status })
    "health response payload is too large" "local daemon returned malformed health"
    decodeHealth
    (b.exchangeLocked protobuf transport .healthQueryRequest
      (protobuf.healthQueryRequest.serialize (healthQueryRequest request))
      .healthQueryResponse).2

/-- The client returns the reply, rejected or not. -/
def result {R : Type} : Except R R → R
  | .error r => r
  | .ok r => r

def client : ClientBackend where
  entities kind := result (b.entitiesReply protobuf transport kind)
  capabilities entity := result (b.capabilitiesReply protobuf transport entity)
  health request := result (b.healthReply protobuf transport request)

/-! ### What an accepted reply went through -/

variable {protobuf transport b}

theorem checkEnvelope_ok {requestId : UInt64} {resp : Frame}
    (h : b.checkEnvelope protobuf requestId expected resp = .ok frame) :
    resp = frame ∧ frame.messageType = expected ∧ frame.requestId = requestId := by
  unfold checkEnvelope at h
  split_ifs at h with hen her hla hty
  · split at h
    · cases h
    · dsimp only at h
      split_ifs at h
  · cases h
    exact ⟨rfl, not_not.mp hty, not_not.mp fun hid => hen (.inl hid)⟩

end StandaloneBackend
end Pdcm.Client
