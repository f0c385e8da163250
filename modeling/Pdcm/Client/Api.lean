import Pdcm.Core.SessionManager
import Pdcm.Ipc.Messages

/-!
# The C interface

`client/pdcm_api.cpp`: the public structures, the functions that fill them, and the three
queries over whatever backend a handle holds. A pointer is an `Option`, an output parameter
is returned with the contents it has after the call, and a character array is the list of
its bytes.
-/

namespace Pdcm.Client

/-! ### Public structures -/

structure StructHeader where
  structSize : ℕ := 0
  version : ℕ := 0
  deriving DecidableEq, Repr

def structVersion1 : ℕ := 1

def nativeIdCapacity : ℕ := 64
def pciBdfCapacity : ℕ := 32
def versionStringCapacity : ℕ := 64
def healthSourceCapacity : ℕ := 64
def healthLimitationCapacity : ℕ := 160

/-- `pdcm_entity_ref_t`. -/
structure PublicEntityRef where
  header : StructHeader := {}
  kind : ℕ := 0
  reserved : ℕ := 0
  pdcmId : ℕ := 0
  generation : ℕ := 0
  deriving DecidableEq, Repr

/-- `pdcm_entity_filter_t`. -/
structure PublicEntityFilter where
  header : StructHeader := {}
  kind : ℕ := 0
  reserved : ℕ := 0
  deriving DecidableEq, Repr

/-- `pdcm_entity_info_t`. -/
structure PublicEntityInfo where
  header : StructHeader := {}
  entity : PublicEntityRef := {}
  state : ℕ := 0
  itemStatus : ℤ := 0
  nativeIdStatus : ℕ := 0
  pciBdfStatus : ℕ := 0
  pdrvVersionStatus : ℕ := 0
  reserved : ℕ := 0
  nativeId : List UInt8 := List.replicate nativeIdCapacity 0
  pciBdf : List UInt8 := List.replicate pciBdfCapacity 0
  pdrvVersion : List UInt8 := List.replicate versionStringCapacity 0
  deriving DecidableEq, Repr

/-- `pdcm_capability_item_t`. -/
structure PublicCapabilityItem where
  header : StructHeader := {}
  kind : ℕ := 0
  id : ℕ := 0
  supported : ℕ := 0
  reason : ℕ := 0
  semanticVersion : ℕ := 0
  reserved : ℕ := 0
  catalogGeneration : ℕ := 0
  deriving DecidableEq, Repr

/-- `pdcm_capability_set_t`. -/
structure PublicCapabilitySet where
  header : StructHeader := {}
  entity : PublicEntityRef := {}
  items : Option (List PublicCapabilityItem) := none
  itemCapacity : ℕ := 0
  itemCount : ℕ := 0
  catalogGeneration : ℕ := 0
  deriving DecidableEq, Repr

/-- `pdcm_health_request_t`. -/
structure PublicHealthRequest where
  header : StructHeader := {}
  entity : PublicEntityRef := {}
  subsystemId : ℕ := 0
  reserved : ℕ := 0
  catalogGeneration : ℕ := 0
  maxAgeNs : ℕ := 0
  deriving DecidableEq, Repr

/-- `pdcm_health_result_t`. -/
structure PublicHealthResult where
  header : StructHeader := {}
  entity : PublicEntityRef := {}
  subsystemId : ℕ := 0
  state : ℕ := 0
  itemStatus : ℕ := 0
  code : ℕ := 0
  catalogGeneration : ℕ := 0
  evaluatedMonotonicTimeNs : ℤ := 0
  evidenceAgeNs : ℤ := 0
  evidenceId : ℕ := 0
  sequenceOrToken : ℕ := 0
  source : List UInt8 := List.replicate healthSourceCapacity 0
  limitation : List UInt8 := List.replicate healthLimitationCapacity 0
  deriving DecidableEq, Repr

/-! The sizes of the structures where a pointer takes 8 bytes. -/

def sizeofEntityRef : ℕ := 32
def sizeofEntityFilter : ℕ := 16
def sizeofEntityInfo : ℕ := 224
def sizeofCapabilityItem : ℕ := 40
def sizeofCapabilitySet : ℕ := 72
def sizeofHealthRequest : ℕ := 64
def sizeofHealthResult : ℕ := 320

/-! ### Conversions -/

def validateOutputHeader (header : StructHeader) (requiredSize : ℕ) : StatusCode :=
  if header.version ≠ structVersion1 ∨ header.structSize < requiredSize then .invalidArgument
  else .success

def toInternalEntityKind : ℕ → EntityKind
  | 1 => .device
  | 2 => .node
  | _ => .unknown

def validPublicEntityKind (kind : ℕ) : Bool := decide (kind = 0 ∨ kind = 1 ∨ kind = 2)

def toInternalEntityRef (source : PublicEntityRef) : Except StatusCode EntityRef :=
  if validateOutputHeader source.header sizeofEntityRef ≠ .success ∨ source.reserved ≠ 0 ∨
      source.kind ≠ EntityKind.device.value ∨ source.generation = 0 then
    .error .invalidArgument
  else .ok { kind := .device, id := source.pdcmId, generation := source.generation }

def toPublicEntityState : EntityState → ℕ
  | .ready => 1
  | .error => 2
  | .unknown => 0

def toPublicObservationStatus : ObservationStatus → ℕ
  | .valid => 0
  | .stale => 1
  | .notAvailable => 2
  | .unsupported => 3
  | .error => 4

def toPublicCapabilityKind : CapabilityKind → ℕ
  | .metricsCatalog => 1
  | .metric => 2
  | .health => 3

def toPublicCapabilityReason : CapabilityReason → ℕ
  | .supported => 0
  | .catalogBlockedExternal => 1
  | .providerUnsupported => 2
  | .dependencyMissing => 3
  | .temporarilyUnavailable => 4
  | .permissionHidden => 5
  | .postP0Disabled => 6
  | .topologyUnsupported => 7

def toPublicHealthState : HealthState → ℕ
  | .healthy => 1
  | .unknown => 0
  | .warning => 2
  | .error => 3

/-- The bytes of the text that fit, and a terminating zero. -/
def copyVersionString (source : String) (destination : List UInt8) : List UInt8 :=
  let capacity := destination.length
  if capacity = 0 then destination
  else
    let count := min source.utf8ByteSize (capacity - 1)
    (Ipc.copyAt destination 0 (source.toUTF8.toList.take count)).set count 0

def fillEntityRef (source : EntityRef) : PublicEntityRef where
  header := { structSize := sizeofEntityRef, version := structVersion1 }
  kind := source.kind.value
  pdcmId := source.id
  generation := source.generation

def fillEntityInfo (source : EntityRecord) : PublicEntityInfo :=
  let cleared : PublicEntityInfo := {}
  { header := { structSize := sizeofEntityInfo, version := structVersion1 }
    entity := fillEntityRef source.ref
    state := toPublicEntityState source.state
    itemStatus := Ipc.statusValue source.itemStatus
    nativeIdStatus := toPublicObservationStatus source.nativeId.status
    pciBdfStatus := toPublicObservationStatus source.pciBdf.status
    pdrvVersionStatus := toPublicObservationStatus source.pdrvVersion.status
    nativeId := copyVersionString source.nativeId.value cleared.nativeId
    pciBdf := copyVersionString source.pciBdf.value cleared.pciBdf
    pdrvVersion := copyVersionString source.pdrvVersion.value cleared.pdrvVersion }

def fillCapabilityItem (source : CapabilityItem) : PublicCapabilityItem where
  header := { structSize := sizeofCapabilityItem, version := structVersion1 }
  kind := toPublicCapabilityKind source.kind
  id := source.id
  supported := if source.supported then 1 else 0
  reason := toPublicCapabilityReason source.reason
  semanticVersion := source.semanticVersion
  catalogGeneration := source.catalogGeneration

def fillHealthResult (source : HealthResult) : PublicHealthResult :=
  let cleared : PublicHealthResult := {}
  { header := { structSize := sizeofHealthResult, version := structVersion1 }
    entity := fillEntityRef source.entity
    subsystemId := source.subsystemId
    state := toPublicHealthState source.state
    itemStatus := toPublicObservationStatus source.itemStatus
    code := Ipc.healthCodeValue source.code
    catalogGeneration := source.catalogGeneration
    evaluatedMonotonicTimeNs := source.evaluatedMonotonicTimeNs
    evidenceAgeNs := source.evidenceAgeNs
    evidenceId := (source.evidence.head?.map EvidenceRef.evidenceId).getD 0
    sequenceOrToken := (source.evidence.head?.map EvidenceRef.sequenceOrToken).getD 0
    source :=
      match source.evidence.head? with
      | none => cleared.source
      | some evidence => copyVersionString evidence.source.provider cleared.source
    limitation :=
      match source.limitations.head? with
      | none => cleared.limitation
      | some limitation => copyVersionString limitation.detail cleared.limitation }

/-! ### Handles -/

/-- What a backend answers to the next call. -/
structure ClientBackend where
  entities : EntityKind → EntityListResult
  capabilities : EntityRef → CapabilityQueryResult
  health : HealthRequest → HealthQueryResult

inductive HandleState where
  | opened
  | closing
  | closed
  deriving DecidableEq, Repr

def handleMagic : ℕ := 0x5044434D48444C31
def handleType : ℕ := 1
def handleAbiVersion : ℕ := 1

structure Handle where
  magic : ℕ := handleMagic
  type : ℕ := handleType
  abiVersion : ℕ := handleAbiVersion
  state : HandleState := .opened
  backend : Option ClientBackend := none

/-- `ActiveCall::acquire`. -/
def acquire (handle : Option Handle) : Except StatusCode ClientBackend :=
  match handle with
  | none => .error .invalidArgument
  | some handle =>
    match handle.backend with
    | none => .error .invalidArgument
    | some backend =>
      if handle.magic ≠ handleMagic ∨ handle.type ≠ handleType ∨
          handle.abiVersion ≠ handleAbiVersion ∨ handle.state ≠ .opened then
        .error .invalidArgument
      else .ok backend

/-! ### Queries -/

structure EntityListOutput where
  status : StatusCode
  entities : Option (List PublicEntityInfo)
  inoutCount : Option ℕ
  deriving DecidableEq, Repr

/-- The rest of `pdcm_entity_list`, after the backend answered. -/
def outputEntities (result : EntityListResult) (entities : Option (List PublicEntityInfo))
    (capacity : ℕ) : EntityListOutput :=
  let status := result.status.code
  if status = .unsupported then ⟨status, entities, some result.detectedDeviceCount⟩
  else if status ≠ .success ∧ status ≠ .partialResult then ⟨status, entities, some 0⟩
  else
    let size := result.entities.length
    match entities with
    | none => ⟨status, none, some size⟩
    | some array =>
      if capacity < size then ⟨.bufferTooSmall, some array, some size⟩
      else if (array.take size).any fun info =>
          decide (validateOutputHeader info.header sizeofEntityInfo ≠ .success ∨
            info.reserved ≠ 0) then
        ⟨.invalidArgument, some array, some size⟩
      else ⟨status, some (result.entities.map fillEntityInfo ++ array.drop size), some size⟩

/-- `pdcm_entity_list`. -/
def entityList (handle : Option Handle) (filter : Option PublicEntityFilter)
    (entities : Option (List PublicEntityInfo)) (inoutCount : Option ℕ) : EntityListOutput :=
  match inoutCount with
  | none => ⟨.invalidArgument, entities, none⟩
  | some capacity =>
    let invalid := filter.any fun filter =>
      decide (validateOutputHeader filter.header sizeofEntityFilter ≠ .success ∨
        filter.reserved ≠ 0) || !validPublicEntityKind filter.kind
    if invalid then ⟨.invalidArgument, entities, some capacity⟩
    else
      let kind := filter.elim .unknown fun filter => toInternalEntityKind filter.kind
      match acquire handle with
      | .error status => ⟨status, entities, some capacity⟩
      | .ok backend => outputEntities (backend.entities kind) entities capacity

structure CapabilityOutput where
  status : StatusCode
  capabilities : Option PublicCapabilitySet
  deriving DecidableEq, Repr

/-- The rest of `pdcm_capability_query`, after the backend answered. -/
def outputCapabilities (result : CapabilityQueryResult) (out : PublicCapabilitySet) :
    CapabilityOutput :=
  match result.status.ok, result.capabilities with
  | true, some source =>
    let size := source.items.length
    let filled : PublicCapabilitySet :=
      { out with
        entity := fillEntityRef source.entity
        catalogGeneration := source.catalogGeneration
        itemCount := size }
    if out.itemCapacity < size ∨ (size ≠ 0 ∧ out.items = none) then
      ⟨.bufferTooSmall, some filled⟩
    else
      let array := out.items.getD []
      if (array.take size).any fun item =>
          decide (validateOutputHeader item.header sizeofCapabilityItem ≠ .success ∨
            item.reserved ≠ 0) then
        ⟨.invalidArgument, some filled⟩
      else
        ⟨.success, some
          { filled with
            items := out.items.map fun array =>
              source.items.map fillCapabilityItem ++ array.drop size }⟩
  | _, _ => ⟨result.status.code, some { out with itemCount := 0 }⟩

/-- `pdcm_capability_query`. -/
def capabilityQuery (handle : Option Handle) (entity : Option PublicEntityRef)
    (outCapabilities : Option PublicCapabilitySet) : CapabilityOutput :=
  match outCapabilities with
  | none => ⟨.invalidArgument, none⟩
  | some out =>
    if validateOutputHeader out.header sizeofCapabilitySet ≠ .success ∨
        (out.items = none ∧ out.itemCapacity ≠ 0) then
      ⟨.invalidArgument, some out⟩
    else
      match entity.elim (.error .invalidArgument) toInternalEntityRef with
      | .error status => ⟨status, some out⟩
      | .ok entity =>
        match acquire handle with
        | .error status => ⟨status, some out⟩
        | .ok backend => outputCapabilities (backend.capabilities entity) out

structure HealthOutput where
  status : StatusCode
  result : Option PublicHealthResult
  deriving DecidableEq, Repr

/-- The rest of `pdcm_health_query`, after the backend answered. -/
def outputHealth (result : HealthQueryResult) (out : PublicHealthResult) : HealthOutput :=
  if result.status.code ≠ .success ∧ result.status.code ≠ .partialResult then
    ⟨result.status.code, some out⟩
  else
    match result.item with
    | none => ⟨.internal, some out⟩
    | some item => ⟨result.status.code, some (fillHealthResult item)⟩

/-- `pdcm_health_query`. -/
def healthQuery (handle : Option Handle) (request : Option PublicHealthRequest)
    (outResult : Option PublicHealthResult) : HealthOutput :=
  match request, outResult with
  | some request, some out =>
    if validateOutputHeader request.header sizeofHealthRequest ≠ .success ∨
        validateOutputHeader out.header sizeofHealthResult ≠ .success ∨
        request.reserved ≠ 0 ∨ request.subsystemId = 0 then
      ⟨.invalidArgument, some out⟩
    else
      match toInternalEntityRef request.entity with
      | .error status => ⟨status, some out⟩
      | .ok entity =>
        match acquire handle with
        | .error status => ⟨status, some out⟩
        | .ok backend =>
          outputHealth
            (backend.health
              { entity := entity, subsystemId := request.subsystemId
                catalogGeneration := request.catalogGeneration, maxAgeNs := request.maxAgeNs })
            out
  | _, _ => ⟨.invalidArgument, outResult⟩

/-! ### The embedded backend -/

/-- `EmbeddedBackend`, with what its core answers. -/
structure EmbeddedBackend where
  started : Bool := false
  closed : Bool := false
  core : ServiceCore

namespace EmbeddedBackend

def inactive : Status := ⟨.notInitialized, "embedded backend is not active"⟩

/-- Before `start` and after `close` every query fails. -/
def client (b : EmbeddedBackend) : ClientBackend where
  entities kind :=
    if ¬b.started ∨ b.closed then { status := inactive } else b.core.entities kind
  capabilities entity :=
    if ¬b.started ∨ b.closed then { status := inactive } else b.core.capabilities entity
  health request :=
    if ¬b.started ∨ b.closed then { status := inactive } else b.core.health request

end EmbeddedBackend

/-! ### Opening a handle -/

def sizeofOpenOptions : ℕ := 48

/-- `pdcm_open_options_t`. The endpoint is what stands before its terminating zero. -/
structure OpenOptions where
  header : StructHeader := { structSize := sizeofOpenOptions, version := structVersion1 }
  mode : ℕ := 1
  flags : ℕ := 0
  endpoint : Option (List UInt8) := none
  deadlineNs : ℕ := 0
  requiredProtocolMajor : ℕ := 1
  requiredProtocolMinor : ℕ := 0
  target : ℕ := 0
  reserved : ℕ := 0
  deriving DecidableEq, Repr

inductive OpenMode where
  | standalone
  | embedded
  | auto
  deriving DecidableEq, Repr

def toOpenMode : ℕ → Option OpenMode
  | 1 => some .standalone
  | 2 => some .embedded
  | 3 => some .auto
  | _ => none

def toTarget : ℕ → Option TargetKind
  | 0 => some .unknown
  | 1 => some .fpga
  | 2 => some .emu
  | _ => none

/-- The deadline is in milliseconds. -/
structure EffectiveOptions where
  mode : OpenMode := .standalone
  flags : ℕ := 0
  endpoint : List UInt8 := "/run/pdcm/pdcm.sock".toUTF8.toList
  deadline : ℤ := 1000
  target : TargetKind := .unknown
  deriving DecidableEq, Repr

def maxEndpointBytes : ℕ := 107

/-- An embedded runtime has no endpoint; another one is an absolute path that fits. -/
def endpointRefused (mode : OpenMode) (endpoint : List UInt8) : Bool :=
  decide (mode = .embedded ∨ endpoint = [] ∨ maxEndpointBytes < endpoint.length ∨
    endpoint.head? ≠ some 47)

/-- A deadline below a millisecond is rounded up to one. -/
def parseDeadline (deadlineNs : ℕ) : ℤ :=
  if deadlineNs = 0 then ({} : EffectiveOptions).deadline else max 1 (deadlineNs / 1000000 : ℕ)

def parseOptions : Option OpenOptions → Except StatusCode EffectiveOptions
  | none => .ok {}
  | some options =>
    if validateOutputHeader options.header sizeofOpenOptions ≠ .success then
      .error .invalidArgument
    -- the lowest flag is the only one
    else if 2 ≤ options.flags ∨ options.reserved ≠ 0 then .error .invalidArgument
    else if options.requiredProtocolMajor ≠ 1 ∨ 0 < options.requiredProtocolMinor then
      .error .protocolIncompatible
    else
      match toOpenMode options.mode, toTarget options.target with
      | some mode, some target =>
        if int64Max < options.deadlineNs then .error .invalidArgument
        else if options.endpoint.any (endpointRefused mode) then .error .invalidArgument
        else
          .ok
            { mode := mode, flags := options.flags
              endpoint := options.endpoint.getD ({} : EffectiveOptions).endpoint
              deadline := parseDeadline options.deadlineNs, target := target }
      | _, _ => .error .invalidArgument

/-- The configuration `openEmbedded` gives to its core. -/
def embeddedConfig (options : EffectiveOptions) : RuntimeConfig :=
  { target := options.target, providerCallTimeout := options.deadline }

/-- The deadline of a call that starts when the clock shows `now`, as `deadlineAfter` and
`PdcmServiceCore::start` compute it from a timeout in milliseconds. -/
def deadlineAfter (timeout now : ℤ) : ℤ := now + timeout * 1000000

/-- The time in nanoseconds that whole milliseconds of `deadline_ns` give, at least one; a
second if there is none. -/
def wholeMilliseconds (deadlineNs : ℕ) : ℤ :=
  if deadlineNs = 0 then 1000000000 else max 1 (deadlineNs / 1000000 : ℕ) * 1000000

/-- Both backends get a deadline that is not before now and does not overflow exactly if the
whole milliseconds of `deadline_ns` fit between now and the end of the clock. -/
theorem deadline_not_past {options : Option OpenOptions} {effective : EffectiveOptions}
    (hparsed : parseOptions options = .ok effective) (now : ℤ) :
    (∀ timeout ∈ [effective.deadline, (embeddedConfig effective).providerCallTimeout],
      now ≤ deadlineAfter timeout now ∧ deadlineAfter timeout now ≤ int64Max) ↔
    now + wholeMilliseconds (options.elim 0 OpenOptions.deadlineNs) ≤ int64Max := by
  have hboth : ∀ P : ℤ → Prop, (∀ timeout ∈ [effective.deadline,
      (embeddedConfig effective).providerCallTimeout], P timeout) ↔ P effective.deadline := by
    simp [embeddedConfig]
  rw [hboth]
  have hdeadline : effective.deadline = parseDeadline (options.elim 0 OpenOptions.deadlineNs) := by
    unfold parseOptions at hparsed
    cases options with
    | none => cases hparsed; rfl
    | some o =>
      dsimp only at hparsed
      generalize toOpenMode o.mode = mode, toTarget o.target = target at hparsed
      cases mode <;> cases target <;> dsimp only at hparsed <;> split_ifs at hparsed
      cases hparsed
      rfl
  rw [hdeadline]
  unfold deadlineAfter parseDeadline wholeMilliseconds
  split_ifs
  · have hdefault : ({} : EffectiveOptions).deadline = 1000 := rfl
    omega
  · omega

/-- With its last microseconds the longest wait that fits would not. -/
theorem deadline_not_past_truncated :
    ∃ effective, parseOptions (some { deadlineNs := 4611686018427387905 }) = .ok effective ∧
      int64Max < int64Max / 2 + 4611686018427387905 ∧
      ∀ timeout ∈ [effective.deadline, (embeddedConfig effective).providerCallTimeout],
        int64Max / 2 ≤ deadlineAfter timeout (int64Max / 2) ∧
          deadlineAfter timeout (int64Max / 2) ≤ int64Max := by
  have hparsed : parseOptions (some { deadlineNs := 4611686018427387905 }) =
      .ok { deadline := 4611686018427 } := by
    decide +kernel
  exact ⟨_, hparsed, by decide, (deadline_not_past hparsed _).mpr (by decide)⟩

/-- The largest deadline that is accepted overflows at half of the clock's range. -/
theorem longest_deadline_overflows :
    ∃ effective, parseOptions (some { deadlineNs := 2 ^ 63 - 1 }) = .ok effective ∧
      int64Max < deadlineAfter effective.deadline (int64Max / 2) :=
  ⟨{ deadline := 9223372036854 }, by decide +kernel, by decide +kernel⟩

end Pdcm.Client
