import Pdcm.Common.Health

/-!
# Target catalogs and published catalog views

`semantic/catalog_types.hpp` and the read side of `semantic_catalog.cpp`: the
static description of a target (metrics and the firmware heartbeat entry) with
its validation, and the immutable view of discovered entities and capabilities.
-/

namespace Pdcm

inductive TargetKind where
  | unknown
  | fpga
  | emu
  deriving DecidableEq, Repr

inductive ProviderState where
  | uninitialized
  | ready
  | unavailable
  | shutdown
  deriving DecidableEq, Repr

inductive ProviderDataKind where
  | metric
  | heartbeatEvidence
  deriving DecidableEq, Repr

inductive EntityState where
  | unknown
  | ready
  | error
  deriving DecidableEq, Repr

structure StringAttribute where
  status : ObservationStatus := .notAvailable
  value : String := ""
  deriving DecidableEq, Repr

structure EntityRecord where
  ref : EntityRef
  state : EntityState := .unknown
  nativeId : StringAttribute := {}
  pciBdf : StringAttribute := {}
  pdrvVersion : StringAttribute := {}
  providerVersion : String := ""
  target : TargetKind := .unknown
  itemStatus : StatusCode := .success
  deriving DecidableEq, Repr

inductive MetricValueKind where
  | int64
  | uint64
  | double
  | bool
  | string
  | enum
  deriving DecidableEq, Repr

inductive MetricTemporality where
  | gauge
  | cumulativeCounter
  deriving DecidableEq, Repr

inductive MetricCollectionMode where
  | poll
  | event
  | derived
  deriving DecidableEq, Repr

inductive RequirementLevel where
  | required
  | conditional
  deriving DecidableEq, Repr

inductive MetricsCatalogStatus where
  | blockedExternal
  | ready
  deriving DecidableEq, Repr

structure MetricDescriptor where
  id : MetricId := 0
  name : String := ""
  valueType : MetricValueKind := .uint64
  unit : String := ""
  temporality : MetricTemporality := .gauge
  scope : EntityKind := .device
  collectionMode : MetricCollectionMode := .poll
  defaultPeriodNs : ℕ := 0
  minPeriodNs : ℕ := 0
  freshnessNs : ℕ := 0
  supportsFpga : Bool := false
  supportsEmu : Bool := false
  requirement : RequirementLevel := .conditional
  semanticVersion : ℕ := 0
  providerMappingApproved : Bool := false
  dependencies : List MetricId := []
  deriving DecidableEq, Repr

structure HealthCatalogEntry where
  subsystemId : ℕ := firmwareHeartbeatHealthId
  scope : EntityKind := .device
  requirement : RequirementLevel := .required
  evidenceContract : String := "firmware_heartbeat"
  providerDataId : Option ℕ := none
  freshnessNs : ℕ := 0
  semanticVersion : ℕ := 1
  limitation : String := "native mapping pending"
  deriving DecidableEq, Repr

structure TargetCatalog where
  catalogVersion : ℕ := 1
  target : TargetKind := .unknown
  metricsStatus : MetricsCatalogStatus := .blockedExternal
  metrics : List MetricDescriptor := []
  health : List HealthCatalogEntry := []
  deriving DecidableEq, Repr

/-- The descriptors by metric id; the first of several with one id stays. -/
def descriptorMap (metrics : List MetricDescriptor) :
    Library.OrderedMap MetricId MetricDescriptor :=
  metrics.foldl (fun m d => m.emplace d.id d) .empty

/-- A lower case letter, a digit or an underscore. -/
def metricNameChar (c : Char) : Bool := c.isLower || c.isDigit || c == '_'

def validMetricName (name : String) : Bool :=
  match name.toList with
  | [] => false
  | c :: rest => (c == '_' || c.isLower) && (c :: rest).all metricNameChar

namespace TargetCatalog

variable {c : TargetCatalog}

/-- The metric loop of `validate`, with the ids and names seen so far. -/
def validateMetrics (ids : List MetricId) (names : List String) :
    List MetricDescriptor → Status
  | [] => .success
  | m :: rest =>
    if m.id = 0 ∨ ¬validMetricName m.name ∨ m.unit = "" ∨ m.scope ≠ .device ∨
        m.semanticVersion = 0 ∨ m.minPeriodNs = 0 ∨ m.defaultPeriodNs < m.minPeriodNs ∨
        m.freshnessNs < m.defaultPeriodNs ∨ m.id ∈ ids ∨ m.name ∈ names then
      ⟨.invalidArgument, "metric descriptor is invalid"⟩
    else if m.requirement = .required ∧ m.collectionMode ≠ .derived ∧
        m.providerMappingApproved = false then
      ⟨.invalidArgument, "required raw metric lacks an approved mapping"⟩
    else validateMetrics (m.id :: ids) (m.name :: names) rest

def validateHealth : List HealthCatalogEntry → Status
  | [h] =>
    if h.subsystemId ≠ firmwareHeartbeatHealthId ∨ h.scope ≠ .device ∨
        h.requirement ≠ .required ∨ h.evidenceContract ≠ "firmware_heartbeat" ∨
        h.freshnessNs = 0 ∨ h.semanticVersion = 0 ∨ h.limitation = "" then
      ⟨.invalidArgument, "firmware heartbeat health catalog is invalid"⟩
    else .success
  | _ => ⟨.invalidArgument, "firmware heartbeat health catalog is invalid"⟩

def validate (c : TargetCatalog) : Status :=
  if c.catalogVersion = 0 ∨ (c.target ≠ .fpga ∧ c.target ≠ .emu) then
    ⟨.invalidArgument, "target catalog header is invalid"⟩
  else if c.metricsStatus = .blockedExternal ∧ c.metrics ≠ [] then
    ⟨.invalidArgument, "blocked metric catalog must not publish metrics"⟩
  else
    let metricStatus := validateMetrics [] [] c.metrics
    if metricStatus.ok then validateHealth c.health else metricStatus

/-- What the validation says of each descriptor on its own, as far as the data manager uses
it. -/
structure Usable (d : MetricDescriptor) : Prop where
  id : d.id ≠ 0
  semanticVersion : d.semanticVersion ≠ 0
  freshness : d.freshnessNs ≠ 0

theorem usable_of_validateMetrics {ids : List MetricId} {names : List String}
    {mids : List MetricDescriptor} (h : (validateMetrics ids names mids).ok = true) :
    ∀ m ∈ mids, Usable m := by
  induction mids generalizing ids names with
  | nil => simp
  | cons m rest ih =>
    unfold validateMetrics at h
    split_ifs at h with hbad hun
    · cases h
    · cases h
    · intro other hot
      rcases List.mem_cons.mp hot with rfl | hot
      · push Not at hbad
        exact ⟨hbad.1, hbad.2.2.2.2.1, by omega⟩
      · exact ih h other hot

theorem usable_of_validate (h : c.validate.ok = true) {mid : MetricId}
    {descriptor : MetricDescriptor}
    (hfi : (descriptorMap c.metrics).find? mid = some descriptor) :
    descriptor.id = mid ∧ Usable descriptor := by
  unfold validate at h
  dsimp only at h
  split_ifs at h with hhe hbl hme
  · cases h
  · cases h
  · rcases Library.OrderedMap.mem_of_find?_foldl_emplace hfi with hno | ⟨m, hm, hid, rfl⟩
    · simp at hno
    · exact ⟨hid, usable_of_validateMetrics hme m hm⟩
  · exact absurd h hme

/-- A valid catalog has exactly one health entry, so `health.front()` is defined. -/
theorem health_of_validate (h : c.validate.ok = true) : ∃ entry, c.health = [entry] := by
  unfold validate at h
  split_ifs at h with h1 h2
  · simp at h
  · simp at h
  · dsimp only at h
    split_ifs at h with h3
    · cases hh : c.health with
      | nil => simp [hh, validateHealth] at h
      | cons entry rest =>
        cases rest with
        | nil => exact ⟨entry, rfl⟩
        | cons b bs => simp [hh, validateHealth] at h
    · exact absurd h h3

theorem versions_of_validate {target : TargetCatalog} (h : target.validate.ok = true) :
    target.catalogVersion ≠ 0 ∧ (∀ mid ∈ target.metrics, mid.semanticVersion ≠ 0) ∧
      (target.health.head?.getD {}).semanticVersion ≠ 0 ∧
      (target.health.head?.getD {}).limitation ≠ "" := by
  obtain ⟨entry, hen⟩ := health_of_validate h
  unfold validate at h
  dsimp only at h
  split_ifs at h with hhe hbl hme
  · cases h
  · cases h
  · refine ⟨fun hze => hhe (.inl hze), ?_, ?_⟩
    · intro mid hmet
      exact (usable_of_validateMetrics hme mid hmet).semanticVersion
    · rw [hen, validateHealth] at h
      split_ifs at h with hbad
      · cases h
      · push Not at hbad
        rw [hen]
        exact hbad.2.2.2.2.2
  · exact absurd h hme

end TargetCatalog

inductive CapabilityKind where
  | metricsCatalog
  | metric
  | health
  deriving DecidableEq, Repr

inductive CapabilityReason where
  | supported
  | catalogBlockedExternal
  | providerUnsupported
  | dependencyMissing
  | temporarilyUnavailable
  | permissionHidden
  | postP0Disabled
  | topologyUnsupported
  deriving DecidableEq, Repr

structure CapabilityItem where
  kind : CapabilityKind := .metric
  id : ℕ := 0
  supported : Bool := false
  reason : CapabilityReason := .providerUnsupported
  semanticVersion : ℕ := 0
  catalogGeneration : ℕ := 0
  deriving DecidableEq, Repr

structure CapabilitySet where
  entity : EntityRef
  catalogGeneration : ℕ := 0
  items : List CapabilityItem := []
  deriving DecidableEq, Repr

structure CatalogView where
  generation : ℕ := 0
  detectedDeviceCount : ℕ := 0
  topologyUnsupported : Bool := false
  entities : List EntityRecord := []
  capabilitySets : List CapabilitySet := []
  deriving DecidableEq, Repr

structure EntityListResult where
  status : Status := {}
  detectedDeviceCount : ℕ := 0
  catalogGeneration : ℕ := 0
  entities : List EntityRecord := []
  deriving DecidableEq, Repr

structure CapabilityQueryResult where
  status : Status := {}
  capabilities : Option CapabilitySet := none
  deriving DecidableEq, Repr

def sameLogicalEntity (lhs rhs : EntityRef) : Bool :=
  decide (lhs.kind = rhs.kind ∧ lhs.id = rhs.id)

namespace CatalogView

variable {v : CatalogView} {entity : EntityRef}

def list (v : CatalogView) (kind : EntityKind) : EntityListResult :=
  let result : EntityListResult :=
    { detectedDeviceCount := v.detectedDeviceCount, catalogGeneration := v.generation }
  if kind ≠ .unknown ∧ kind ≠ .device then
    { result with status := ⟨.unsupported, "entity kind is not public in P0"⟩ }
  else if v.topologyUnsupported then
    { result with
      status := ⟨.unsupported, "multiple manageable devices are unsupported in P0"⟩ }
  else
    { result with
      entities := v.entities
      status :=
        if v.entities.any fun entity => decide (entity.itemStatus ≠ .success) then
          ⟨.partialResult, "entity inventory contains partial attributes"⟩
        else .success }

def resolve (v : CatalogView) (entity : EntityRef) : Except Status EntityRecord :=
  if entity.kind ≠ .device then
    .error ⟨.invalidArgument, "only device entities are public in P0"⟩
  else
    match v.entities.find? fun record => sameLogicalEntity record.ref entity with
    | none => .error ⟨.notFound, "entity is not present"⟩
    | some record =>
      if record.ref.generation ≠ entity.generation then
        .error ⟨.staleGeneration, "entity generation is stale"⟩
      else .ok record

/-- An error carries the status of the source's result; success carries the set. -/
def capabilities (v : CatalogView) (entity : EntityRef) : Except Status CapabilitySet :=
  match v.resolve entity with
  | .error status => .error status
  | .ok _ =>
    match v.capabilitySets.find? fun set => decide (set.entity = entity) with
    | none => .error ⟨.notFound, "entity capability set is not present"⟩
    | some set => .ok set

theorem capabilities_error {st : Status} (h : v.capabilities entity = .error st) :
    st.ok = false := by
  unfold capabilities resolve at h
  split at h
  next hres =>
    cases h
    split_ifs at hres
    · cases hres
      rfl
    · split at hres
      · cases hres
        rfl
      · split_ifs at hres
        cases hres
        rfl
  next =>
    split at h
    · cases h
      rfl
    · cases h

theorem capabilities_ok {set : CapabilitySet} (h : v.capabilities entity = .ok set) :
    set ∈ v.capabilitySets ∧ set.entity = entity := by
  unfold capabilities at h
  split at h
  · cases h
  · split at h
    next => cases h
    next found hfi =>
      cases h
      have hen := List.find?_some hfi
      exact ⟨List.mem_of_find?_eq_some hfi, of_decide_eq_true hen⟩

/-- The search for the firmware heartbeat capability that the consumers of a view
repeat: the first matching item decides. -/
def heartbeatSupported (set : CapabilitySet) : Bool :=
  match set.items.find? fun item =>
      decide (item.kind = .health ∧ item.id = firmwareHeartbeatHealthId) with
  | some item => item.supported
  | none => false

end CatalogView
end Pdcm
