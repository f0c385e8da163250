import Mathlib.Data.String.Basic
import Pdcm.Semantic.Catalog

/-!
# Committing provider descriptors

`SemanticCatalog::commit` with the identity history behind it: a device is known by a key
made of the target, its PCI address and its native id; the history remembers the entity id
and generation of every key that was ever published, and whether the last published view
contained it.
-/

namespace Pdcm

open Library

inductive ProviderEntityState where
  | unknown
  | ready
  | lost
  | error
  deriving DecidableEq, Repr

structure ProviderEntity where
  stableNativeId : String := ""
  pciBdf : String := ""
  pdrvVersion : String := ""
  incarnation : String := ""
  state : ProviderEntityState := .unknown
  manageable : Bool := false
  deriving DecidableEq, Repr

structure ProviderCapability where
  kind : ProviderDataKind := .metric
  dataId : ℕ := 0
  supported : Bool := false
  deriving DecidableEq, Repr

structure ProviderDescriptor where
  providerVersion : String := ""
  target : TargetKind := .unknown
  state : ProviderState := .uninitialized
  entities : List ProviderEntity := []
  capabilities : List ProviderCapability := []
  errors : List Status := []
  detectedDeviceCount : ℕ := 0
  deriving DecidableEq, Repr

def ProviderDescriptor.manageable (d : ProviderDescriptor) : List ProviderEntity :=
  d.entities.filter (·.manageable)

structure CatalogDiff where
  oldGeneration : ℕ := 0
  newGeneration : ℕ := 0
  addedEntities : ℕ := 0
  removedEntities : ℕ := 0
  changedEntities : ℕ := 0
  capabilitiesChanged : Bool := false
  topologyChanged : Bool := false
  deriving DecidableEq, Repr

structure CatalogCommitResult where
  status : Status := {}
  detectedDeviceCount : ℕ := 0
  catalogGeneration : ℕ := 0
  committed : Bool := false
  diff : CatalogDiff := {}
  deriving DecidableEq, Repr

structure IdentityHistory where
  id : EntityId := 0
  generation : ℕ := 0
  incarnation : String := ""
  present : Bool := false
  deriving DecidableEq, Repr

def entityState : ProviderEntityState → EntityState
  | .ready => .ready
  | .error => .error
  | .unknown => .unknown
  | .lost => .unknown

/-! ### Differences between views -/

def sameCapabilityItem (lhs rhs : CapabilityItem) : Bool :=
  decide (lhs.kind = rhs.kind ∧ lhs.id = rhs.id ∧ lhs.supported = rhs.supported ∧
    lhs.reason = rhs.reason ∧ lhs.semanticVersion = rhs.semanticVersion)

def sameCapabilitySemantics (lhs rhs : CapabilitySet) : Bool :=
  decide (lhs.entity = rhs.entity ∧ lhs.items.length = rhs.items.length) &&
    (lhs.items.zip rhs.items).all fun pair => sameCapabilityItem pair.1 pair.2

def CatalogView.find (v : CatalogView) (entity : EntityRecord) : Option EntityRecord :=
  v.entities.find? fun candidate => sameLogicalEntity candidate.ref entity.ref

def difference (old new : CatalogView) : CatalogDiff where
  oldGeneration := old.generation
  newGeneration := new.generation
  addedEntities := new.entities.countP fun entity => (old.find entity).isNone
  changedEntities := new.entities.countP fun entity =>
    match old.find entity with
    | none => false
    | some record => decide (record ≠ entity)
  removedEntities := old.entities.countP fun entity => (new.find entity).isNone
  capabilitiesChanged :=
    decide (old.capabilitySets.length ≠ new.capabilitySets.length) ||
      (old.capabilitySets.zip new.capabilitySets).any fun pair =>
        !sameCapabilitySemantics pair.1 pair.2
  topologyChanged :=
    decide (old.topologyUnsupported ≠ new.topologyUnsupported ∨
      old.detectedDeviceCount ≠ new.detectedDeviceCount)

/-! ### The catalog -/

def TargetKind.value : TargetKind → ℕ
  | .unknown => 0
  | .fpga => 1
  | .emu => 2

/-- The constructor refuses a target catalog that is not valid. -/
structure SemanticCatalog where
  targetCatalog : TargetCatalog
  valid : targetCatalog.validate.ok = true
  snapshot : CatalogView := {}
  identityHistory : OrderedMap String IdentityHistory := .empty
  nextEntityId : ℕ := 0

namespace SemanticCatalog

variable {c : SemanticCatalog} {d : ProviderDescriptor}

/-- Empty when the device has no stable identity. -/
def identityKey (target : TargetKind) (entity : ProviderEntity) : String :=
  if entity.stableNativeId.isEmpty ∨ entity.pciBdf.isEmpty then ""
  else toString target.value ++ "|" ++ entity.pciBdf ++ "|" ++ entity.stableNativeId

/-- Whether the provider reports a datum as supported; the first report counts. -/
def providerSupports (d : ProviderDescriptor) (kind : ProviderDataKind) (dataId : ℕ) : Bool :=
  match d.capabilities.find? fun candidate =>
      decide (candidate.kind = kind ∧ candidate.dataId = dataId) with
  | none => false
  | some capability => capability.supported

def supportReason (supported : Bool) : CapabilityReason :=
  if supported then .supported else .providerUnsupported

def metricsCapability (target : TargetCatalog) (catalogGeneration : ℕ) : CapabilityItem where
  kind := .metricsCatalog
  reason :=
    if target.metricsStatus = .blockedExternal then .catalogBlockedExternal else .supported
  supported := decide (target.metricsStatus = .ready)
  semanticVersion := target.catalogVersion
  catalogGeneration := catalogGeneration

def metricCapability (d : ProviderDescriptor) (catalogGeneration : ℕ)
    (metric : MetricDescriptor) : CapabilityItem where
  kind := .metric
  id := metric.id
  supported := providerSupports d .metric metric.id
  reason := supportReason (providerSupports d .metric metric.id)
  semanticVersion := metric.semanticVersion
  catalogGeneration := catalogGeneration

def healthCapability (d : ProviderDescriptor) (catalogGeneration : ℕ)
    (entry : HealthCatalogEntry) : CapabilityItem :=
  let item : CapabilityItem :=
    { kind := .health
      id := entry.subsystemId
      semanticVersion := entry.semanticVersion
      catalogGeneration := catalogGeneration }
  match entry.providerDataId with
  | none => { item with reason := .dependencyMissing }
  | some dataId =>
    { item with
      supported := providerSupports d .heartbeatEvidence dataId
      reason := supportReason (providerSupports d .heartbeatEvidence dataId) }

def buildCapabilities (target : TargetCatalog) (entity : EntityRecord) (d : ProviderDescriptor)
    (catalogGeneration : ℕ) : CapabilitySet where
  entity := entity.ref
  catalogGeneration := catalogGeneration
  items :=
    metricsCapability target catalogGeneration ::
      (target.metrics.map (metricCapability d catalogGeneration) ++
        [healthCapability d catalogGeneration (target.health.head?.getD {})])

def validAttribute (value : String) : StringAttribute := ⟨.valid, value⟩

def unavailableAttribute : StringAttribute := ⟨.notAvailable, ""⟩

/-- The record of the only device. -/
def entityRecord (d : ProviderDescriptor) (entity : ProviderEntity) (ref : EntityRef) :
    EntityRecord where
  ref := ref
  state := entityState entity.state
  nativeId := validAttribute entity.stableNativeId
  pciBdf := validAttribute entity.pciBdf
  pdrvVersion :=
    if entity.pdrvVersion.isEmpty then unavailableAttribute
    else validAttribute entity.pdrvVersion
  providerVersion := d.providerVersion
  target := d.target
  itemStatus :=
    if entity.state ≠ .ready ∨ entity.pdrvVersion.isEmpty ∨ d.errors ≠ [] then .partialResult
    else .success

/-- What the history becomes when a device is published. -/
structure Tracked where
  identityHistory : OrderedMap String IdentityHistory
  nextEntityId : ℕ
  entry : IdentityHistory

/-- The history of a view without any of the devices in it. -/
def absentHistory (c : SemanticCatalog) : OrderedMap String IdentityHistory :=
  c.identityHistory.mapValues fun _ history => { history with present := false }

def trackIdentity (c : SemanticCatalog) (key incarnation : String) : Except Status Tracked :=
  match c.identityHistory.find? key with
  | none =>
    if c.nextEntityId = uint64Max then .error ⟨.internal, "entity ID overflow"⟩
    else
      let created : IdentityHistory :=
        { id := c.nextEntityId, generation := 1, incarnation := incarnation, present := true }
      .ok ⟨c.absentHistory.emplace key created, c.nextEntityId + 1, created⟩
  | some history =>
    if history.present = false ∨ history.incarnation ≠ incarnation then
      if history.generation = uint64Max then .error ⟨.internal, "entity generation overflow"⟩
      else
        let next : IdentityHistory :=
          { history with
            generation := history.generation + 1, incarnation := incarnation, present := true }
        .ok ⟨c.absentHistory.insert key next, c.nextEntityId, next⟩
    else
      let next : IdentityHistory := { history with incarnation := incarnation, present := true }
      .ok ⟨c.absentHistory.insert key next, c.nextEntityId, next⟩

def commitMessage : StatusCode → String
  | .unsupported => "multiple manageable devices are unsupported in P0"
  | .partialResult => "discovery completed with partial attributes"
  | _ => ""

def refused (c : SemanticCatalog) (d : ProviderDescriptor) (status : Status) :
    SemanticCatalog × CatalogCommitResult :=
  (c, { status := status
        detectedDeviceCount := d.detectedDeviceCount
        catalogGeneration := c.snapshot.generation })

/-- The end of a commit: the new view and history are published. -/
def publish (c : SemanticCatalog) (d : ProviderDescriptor) (records : List EntityRecord)
    (code : StatusCode) (history : OrderedMap String IdentityHistory) (nextEntityId : ℕ) :
    SemanticCatalog × CatalogCommitResult :=
  let generation := c.snapshot.generation + 1
  let next : CatalogView :=
    { generation := generation
      detectedDeviceCount := d.detectedDeviceCount
      topologyUnsupported := decide (1 < d.detectedDeviceCount)
      entities := records
      capabilitySets := records.map fun record =>
        buildCapabilities c.targetCatalog record d generation }
  ({ c with snapshot := next, identityHistory := history, nextEntityId := nextEntityId },
    { status := ⟨code, commitMessage code⟩
      detectedDeviceCount := d.detectedDeviceCount
      catalogGeneration := generation
      committed := true
      diff := difference c.snapshot next })

def generationOverflow : Status := ⟨.internal, "catalog generation overflow"⟩

/-- The part of a commit for exactly one manageable device. -/
def commitDevice (c : SemanticCatalog) (d : ProviderDescriptor) (device : ProviderEntity) :
    SemanticCatalog × CatalogCommitResult :=
  let key := identityKey c.targetCatalog.target device
  if key.isEmpty then
    c.refused d ⟨.invalidArgument, "single device lacks a stable identity key"⟩
  else if c.snapshot.generation = uint64Max then c.refused d generationOverflow
  else
    match c.trackIdentity key device.incarnation with
    | .error status => c.refused d status
    | .ok tracked =>
      let record := entityRecord d device ⟨.device, tracked.entry.id, tracked.entry.generation⟩
      c.publish d [record] record.itemStatus tracked.identityHistory tracked.nextEntityId

/-- The part of a commit for no or several manageable devices, which are not published. -/
def commitOther (c : SemanticCatalog) (d : ProviderDescriptor) :
    SemanticCatalog × CatalogCommitResult :=
  if c.snapshot.generation = uint64Max then c.refused d generationOverflow
  else
    c.publish d [] (if 1 < d.detectedDeviceCount then .unsupported else .success)
      c.absentHistory c.nextEntityId

def commit (c : SemanticCatalog) (d : ProviderDescriptor) : SemanticCatalog × CatalogCommitResult :=
  if d.target ≠ c.targetCatalog.target ∨ d.state ≠ .ready then
    c.refused d ⟨.invalidArgument, "provider descriptor target or state is invalid"⟩
  else if d.manageable.length ≠ d.detectedDeviceCount then
    c.refused d ⟨.invalidArgument, "detected device count does not match provider entities"⟩
  else
    match d.manageable with
    | [device] => c.commitDevice d device
    | _ => c.commitOther d

/-! ### What a commit does -/

/-- Everything a commit can do: refuse and change nothing, publish the only manageable device
under its tracked identity, or publish a view without devices. -/
inductive Commits (c : SemanticCatalog) (d : ProviderDescriptor) :
    SemanticCatalog × CatalogCommitResult → Prop
  | refused (status : Status) : Commits c d (c.refused d status)
  | device {device : ProviderEntity} {tracked : Tracked} {record : EntityRecord}
      (hdevice : d.manageable = [device])
      (hkey : identityKey c.targetCatalog.target device ≠ "")
      (htracked : c.trackIdentity (identityKey c.targetCatalog.target device)
        device.incarnation = .ok tracked)
      (hrecord : record =
        entityRecord d device ⟨.device, tracked.entry.id, tracked.entry.generation⟩) :
      Commits c d
        (c.publish d [record] record.itemStatus tracked.identityHistory tracked.nextEntityId)
  | other (hnone : ∀ device, d.manageable ≠ [device]) (code : StatusCode) :
      Commits c d (c.publish d [] code c.absentHistory c.nextEntityId)

theorem commitDevice_commits {dev : ProviderEntity} (hde : d.manageable = [dev]) :
    Commits c d (c.commitDevice d dev) := by
  unfold commitDevice
  dsimp only
  split_ifs with hkey hgen
  · exact .refused _
  · exact .refused _
  · cases htr : c.trackIdentity (identityKey c.targetCatalog.target dev) dev.incarnation with
    | error st => exact .refused st
    | ok tr =>
      refine .device hde ?_ htr rfl
      intro hem
      exact hkey (by rw [hem]; rfl)

theorem commitOther_commits (hno : ∀ dev, d.manageable ≠ [dev]) :
    Commits c d (c.commitOther d) := by
  unfold commitOther
  split_ifs with hgen hma
  · exact .refused _
  · exact .other hno _
  · exact .other hno _

theorem commit_commits (c : SemanticCatalog) (d : ProviderDescriptor) :
    Commits c d (c.commit d) := by
  unfold commit
  split_ifs with hta hco
  · exact .refused _
  · exact .refused _
  · cases hma : d.manageable with
    | nil => exact commitOther_commits (by simp [hma])
    | cons dev rest =>
      cases rest with
      | nil => exact commitDevice_commits hma
      | cons second rest => exact commitOther_commits (by simp [hma])

/-- The entry a device gets, seen from what the history had for its key. -/
theorem trackIdentity_ok {key inc : String} {tr : Tracked} (h : c.trackIdentity key inc = .ok tr) :
    tr.entry.incarnation = inc ∧ tr.entry.present = true ∧
      (∀ j, tr.identityHistory.find? j =
        if j = key then some tr.entry else c.absentHistory.find? j) ∧
      match c.identityHistory.find? key with
      | none => tr.entry.id = c.nextEntityId ∧ tr.entry.generation = 1 ∧
          tr.nextEntityId = c.nextEntityId + 1
      | some hist => tr.entry.id = hist.id ∧ tr.nextEntityId = c.nextEntityId ∧
          tr.entry.generation =
            if hist.present = false ∨ hist.incarnation ≠ inc then
              hist.generation + 1
            else hist.generation := by
  unfold trackIdentity at h
  cases hfi : c.identityHistory.find? key with
  | none =>
    have hab : c.absentHistory.find? key = none := by
      rw [absentHistory, OrderedMap.find?_mapValues, hfi, Option.map_none]
    simp only [hfi] at h
    split_ifs at h with hfu
    cases h
    refine ⟨rfl, rfl, ?_, rfl, rfl, rfl⟩
    intro j
    rw [OrderedMap.find?_emplace, hab, Option.getD_none]
  | some hist =>
    simp only [hfi] at h
    split_ifs at h with hbu hfu
    · cases h
      refine ⟨rfl, rfl, ?_, rfl, rfl, (if_pos hbu).symm⟩
      intro j
      exact OrderedMap.find?_insert _ _ _ _
    · cases h
      refine ⟨rfl, rfl, ?_, rfl, rfl, (if_neg hbu).symm⟩
      intro j
      exact OrderedMap.find?_insert _ _ _ _

end SemanticCatalog
end Pdcm
