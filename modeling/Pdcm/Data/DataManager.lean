import Pdcm.Library.ShardedMap
import Pdcm.Data.EventStore

/-!
# State of the data manager

`data/data_manager.hpp`: limits, stored entries, the active catalog and the whole
state guarded by the manager's mutexes, together with `activateCatalog` and the
read side of the store. Limits are fixed at construction, where invalid ones
throw; `Limits` carries the fact that validation passed, so every shard index is
in range.
-/

namespace Pdcm

open Library

structure DataStoreLimits where
  shardCount : ℕ := 8
  maxKeys : ℕ := 4096
  maxHistorySamplesPerKey : ℕ := 64
  maxHistoryDurationNs : ℤ := 60000000000
  maxTotalBytes : ℕ := 16 * 1024 * 1024
  maxValueBytes : ℕ := 4096
  maxQueryItems : ℕ := 4096
  maxTombstones : ℕ := 1024
  maxEvents : ℕ := 4096
  maxEventBytes : ℕ := 4 * 1024 * 1024
  maxEvidenceItems : ℕ := 1024
  maxEvidenceBytes : ℕ := 1024 * 1024
  evidenceTtlNs : ℤ := 60000000000
  maxHealthEntries : ℕ := 8
  maxHealthEvidenceRefs : ℕ := 8
  maxHealthResultBytes : ℕ := 16384
  maxHealthBytes : ℕ := 128 * 1024
  deriving DecidableEq, Repr

def DataStoreLimits.validate (l : DataStoreLimits) : Status :=
  if l.shardCount = 0 ∨ 256 < l.shardCount ∨ l.maxKeys = 0 ∨ l.maxHistorySamplesPerKey = 0 ∨
      l.maxHistoryDurationNs ≤ 0 ∨ l.maxTotalBytes = 0 ∨ l.maxValueBytes = 0 ∨
      l.maxQueryItems = 0 ∨ l.maxTombstones = 0 ∨ l.maxEvents = 0 ∨ l.maxEventBytes = 0 ∨
      l.maxEvidenceItems = 0 ∨ l.maxEvidenceBytes = 0 ∨ l.evidenceTtlNs ≤ 0 ∨
      l.maxHealthEntries = 0 ∨ l.maxHealthEvidenceRefs = 0 ∨ l.maxHealthResultBytes = 0 ∨
      l.maxHealthBytes = 0 ∨ l.maxTotalBytes < l.maxValueBytes then
    ⟨.invalidArgument, "data store limits must be positive and bounded"⟩
  else .success

theorem DataStoreLimits.validate_default : ({} : DataStoreLimits).validate = .success := by
  decide

/-- Limits the constructor accepts. -/
structure Limits extends DataStoreLimits where
  valid : toDataStoreLimits.validate = .success

namespace Limits

variable (L : Limits)

theorem not_invalid : ¬(L.shardCount = 0 ∨ 256 < L.shardCount ∨ L.maxKeys = 0 ∨
    L.maxHistorySamplesPerKey = 0 ∨ L.maxHistoryDurationNs ≤ 0 ∨ L.maxTotalBytes = 0 ∨
    L.maxValueBytes = 0 ∨ L.maxQueryItems = 0 ∨ L.maxTombstones = 0 ∨ L.maxEvents = 0 ∨
    L.maxEventBytes = 0 ∨ L.maxEvidenceItems = 0 ∨ L.maxEvidenceBytes = 0 ∨
    L.evidenceTtlNs ≤ 0 ∨ L.maxHealthEntries = 0 ∨ L.maxHealthEvidenceRefs = 0 ∨
    L.maxHealthResultBytes = 0 ∨ L.maxHealthBytes = 0 ∨ L.maxTotalBytes < L.maxValueBytes) := by
  intro h
  have hv := L.valid
  rw [DataStoreLimits.validate, if_pos h] at hv
  exact absurd (congrArg Status.code hv) (by decide)

theorem shardCount_pos : 0 < L.shardCount := by
  have h := L.not_invalid
  omega

end Limits

structure Entry where
  latest : Option Observation := none
  lastValid : Option Observation := none
  history : List Observation := []
  deriving DecidableEq, Repr

structure EntityTombstone where
  entity : EntityRef
  retiredCatalogGeneration : ℕ := 0
  deriving DecidableEq, Repr

structure CatalogState where
  generation : ℕ := 0
  topologyUnsupported : Bool := false
  entities : List EntityRef := []
  metrics : OrderedMap MetricId MetricDescriptor := .empty
  heartbeat : Option HealthCatalogEntry := none
  heartbeatSupported : Bool := false

/-- The state `activateCatalog` builds from a view and its target catalog. -/
def CatalogState.ofView (view : CatalogView) (target : TargetCatalog) : CatalogState where
  generation := view.generation
  topologyUnsupported := view.topologyUnsupported
  entities := view.entities.map EntityRecord.ref
  metrics := descriptorMap target.metrics
  heartbeat := target.health.head?
  heartbeatSupported :=
    match view.entities with
    | [record] =>
      match view.capabilities record.ref with
      | .ok set => CatalogView.heartbeatSupported set
      | .error _ => false
    | _ => false

abbrev Shards (L : Limits) := ShardedMap DataKey Entry L.shardCount

/-- Everything the manager's locks guard, and its event store. -/
structure DataManager (L : Limits) where
  eventStore : EventStore
  shards : Shards L
  catalog : CatalogState
  commitEpoch : ℕ
  tombstones : List EntityTombstone
  heartbeatEvidence : List FirmwareHeartbeatEvidence
  latestHeartbeat : OrderedMap EntityRef ℕ
  health : OrderedMap EntityRef HealthResult
  nextEvidenceId : ℕ

/-- The mixing step wraps at 64 bits before the reduction by the shard count. -/
def shardIndex (L : Limits) (key : DataKey) : Fin L.shardCount :=
  let mixed := key.entity.id ^^^ ((key.entity.generation + 0x9E3779B97F4A7C15) % 2 ^ 64) ^^^
    key.metric
  ⟨mixed % L.shardCount, Nat.mod_lt _ L.shardCount_pos⟩

def valueMatches (descriptor : MetricDescriptor) (value : MetricValue) : Bool :=
  match descriptor.valueType, value with
  | .int64, .int64 _ => true
  | .uint64, .uint64 _ => true
  | .enum, .uint64 _ => true
  | .double, .double _ => true
  | .bool, .bool _ => true
  | .string, .string _ => true
  | _, _ => false

def sizeofEntry : ℕ := 944

def observationBytes (o : Observation) : ℕ :=
  sizeofObservation + (o.value.elim 0 valueBytes) + o.source.provider.utf8ByteSize +
    o.source.nativeSource.utf8ByteSize + o.error.status.message.utf8ByteSize +
    o.derivation.processorId.utf8ByteSize + o.derivation.inputSequences.length * 8 +
    (o.latestFailure.elim 0 fun failure => failure.status.message.utf8ByteSize)

def entryBytes (e : Entry) : ℕ :=
  sizeofEntry + (e.latest.elim 0 observationBytes) + (e.lastValid.elim 0 observationBytes) +
    (e.history.map observationBytes).sum

namespace DataManager

variable {L : Limits} (s : DataManager L) (ds : List EventDraft)

/-- A freshly constructed manager. -/
def initial (L : Limits) : DataManager L where
  eventStore := { limits := { maxEvents := L.maxEvents, maxBytes := L.maxEventBytes } }
  shards := .empty
  catalog := {}
  commitEpoch := 0
  tombstones := []
  heartbeatEvidence := []
  latestHeartbeat := .empty
  health := .empty
  nextEvidenceId := 1

/-- The stored entry of a key. -/
def stored? (s : DataManager L) (key : DataKey) : Option Entry :=
  s.shards.find? (shardIndex L key) key

def publishEvent (s : DataManager L) (draft : EventDraft) : DataManager L × EventPublishResult :=
  let published := s.eventStore.publish draft
  ({ s with eventStore := published.1 }, published.2)

/-- The publish calls an operation makes after it released the store locks. -/
def publishAll (s : DataManager L) (drafts : List EventDraft) : DataManager L :=
  drafts.foldl (fun s d => (s.publishEvent d).1) s

theorem publishAll_eq (drafts : List EventDraft) :
    s.publishAll drafts = { s with eventStore := (s.publishAll drafts).eventStore } := by
  induction drafts generalizing s with
  | nil => rfl
  | cons d ds ih =>
    change (s.publishEvent d).1.publishAll ds = _
    rw [ih]
    rfl

@[simp] theorem publishAll_shards : (s.publishAll ds).shards = s.shards := by rw [publishAll_eq]
@[simp] theorem publishAll_catalog : (s.publishAll ds).catalog = s.catalog := by rw [publishAll_eq]
@[simp] theorem publishAll_commitEpoch :
    (s.publishAll ds).commitEpoch = s.commitEpoch := by rw [publishAll_eq]
@[simp] theorem publishAll_heartbeatEvidence :
    (s.publishAll ds).heartbeatEvidence = s.heartbeatEvidence := by rw [publishAll_eq]
@[simp] theorem publishAll_latestHeartbeat :
    (s.publishAll ds).latestHeartbeat = s.latestHeartbeat := by rw [publishAll_eq]
@[simp] theorem publishAll_health : (s.publishAll ds).health = s.health := by rw [publishAll_eq]
@[simp] theorem publishAll_nextEvidenceId :
    (s.publishAll ds).nextEvidenceId = s.nextEvidenceId := by rw [publishAll_eq]

/-! ### Catalog activation -/

/-- Retire the entities that the new view no longer lists, keeping the newest
tombstones. -/
def retire (L : Limits) (view : CatalogView) (tombstones : List EntityTombstone)
    (old : EntityRef) : List EntityTombstone :=
  if view.entities.any fun candidate => decide (candidate.ref = old) then tombstones
  else
    let grown := tombstones ++ [⟨old, view.generation⟩]
    grown.drop (grown.length - L.maxTombstones)

/-- The empty store under the new catalog. -/
@[simp] abbrev underCatalog (s : DataManager L) (view : CatalogView) (target : TargetCatalog) :
    DataManager L :=
  { s with
    tombstones := s.catalog.entities.foldl (retire L view) s.tombstones
    shards := .empty
    heartbeatEvidence := []
    latestHeartbeat := .empty
    health := .empty
    catalog := .ofView view target }

/-- The part of `activateCatalog` up to the unlock, with the drafts it publishes
afterwards. -/
def activateCatalogLocked (s : DataManager L) (catalog : Option CatalogView)
    (target : TargetCatalog) : DataManager L × Status × List EventDraft :=
  match catalog with
  | none => (s, ⟨.invalidArgument, "data catalog snapshot is invalid"⟩, [])
  | some view =>
    if view.generation = 0 then
      (s, ⟨.invalidArgument, "data catalog snapshot is invalid"⟩, [])
    else if ¬target.validate.ok then (s, target.validate, [])
    else if view.entities.any fun record =>
        decide (record.target ≠ target.target ∨ record.ref.kind ≠ .device ∨
          record.ref.generation = 0) then
      (s, ⟨.invalidArgument, "data catalog entity is invalid"⟩, [])
    else if s.catalog.generation ≠ 0 ∧ view.generation < s.catalog.generation then
      (s, ⟨.staleGeneration, "data catalog generation moved backward"⟩, [])
    else if view.generation = s.catalog.generation then (s, .success, [])
    else
      (s.underCatalog view target, .success,
        [{ type := .catalogChanged, catalogGeneration := view.generation }])

def activateCatalog (s : DataManager L) (catalog : Option CatalogView) (target : TargetCatalog) :
    DataManager L × Status :=
  let locked := s.activateCatalogLocked catalog target
  (locked.1.publishAll locked.2.2, locked.2.1)

/-- The states an activation can leave behind: the old one, or an empty store under
a strictly newer generation. -/
theorem activateCatalogLocked_cases (catalog : Option CatalogView) (target : TargetCatalog) :
    (s.activateCatalogLocked catalog target).1 = s ∨
    ∃ view, catalog = some view ∧ target.validate.ok = true ∧
      s.catalog.generation < view.generation ∧
      (s.activateCatalogLocked catalog target).2.1 = .success ∧
      (s.activateCatalogLocked catalog target).1 = s.underCatalog view target := by
  unfold activateCatalogLocked
  cases catalog with
  | none => exact .inl rfl
  | some view =>
    dsimp only
    split_ifs with h1 h2 h3 h4 h5
    · exact .inl rfl
    · exact .inl rfl
    · exact .inl rfl
    · exact .inl rfl
    · refine .inr ⟨view, rfl, h2, ?_, rfl, rfl⟩
      omega
    · exact .inl rfl

/-! ### Reads -/

def catalogGeneration (s : DataManager L) : ℕ := s.catalog.generation

def metricDescriptor (s : DataManager L) (metric : MetricId) : Option MetricDescriptor :=
  s.catalog.metrics.find? metric

structure HeartbeatCatalogState where
  descriptor : HealthCatalogEntry
  supported : Bool := false

def heartbeatCatalog (s : DataManager L) : Option HeartbeatCatalogState :=
  s.catalog.heartbeat.map fun entry => ⟨entry, s.catalog.heartbeatSupported⟩

structure DataReadResult where
  status : Status := {}
  catalogGeneration : ℕ := 0
  observedCommitEpoch : ℕ := 0
  items : List Observation := []
  deriving DecidableEq, Repr

structure DataHistoryResult where
  status : Status := {}
  samples : List Observation := []
  deriving DecidableEq, Repr

/-- The synthesized item of a key without a usable sample. -/
def unavailable (key : DataKey) (descriptor : MetricDescriptor) (catalogGeneration : ℕ)
    (commitEpoch : ℕ) (nowMonotonicNs : ℤ) (status : StatusCode)
    (observationStatus : ObservationStatus) (message : String) : Observation where
  entity := key.entity
  metric := key.metric
  status := observationStatus
  metricSemanticVersion :=
    if descriptor.semanticVersion = 0 then 1 else descriptor.semanticVersion
  observedMonotonicTimeNs := nowMonotonicNs
  catalogGeneration := catalogGeneration
  commitEpoch := commitEpoch
  source := { provider := "pdcm-data" }
  error := { status := ⟨status, message⟩ }

/-- The last valid sample, presented as stale behind a failed latest one. -/
def staleItem (latest lastValid : Observation) (nowMonotonicNs : ℤ) : Observation :=
  { lastValid with
    status := .stale
    commitEpoch := latest.commitEpoch
    staleAgeNs := some (nowMonotonicNs - lastValid.observedMonotonicTimeNs)
    latestFailure := some latest.error
    error := latest.error }

/-- The loop body of `readLatest`: the item of one key, or the status that ends the
query. -/
def readItem (s : DataManager L) (allowStale : Bool) (nowMonotonicNs : ℤ) (key : DataKey) :
    Except Status Observation :=
  match s.catalog.entities.find? fun candidate => sameLogicalEntity candidate key.entity with
  | none => .error ⟨.notFound, "query entity is not present"⟩
  | some current =>
    if current ≠ key.entity then
      .error ⟨.staleGeneration, "query entity generation is stale"⟩
    else
      match s.catalog.metrics.find? key.metric with
      | none =>
        .ok (unavailable key {} s.catalog.generation s.commitEpoch nowMonotonicNs .unsupported
          .unsupported "metric is not in active catalog")
      | some descriptor =>
        match (s.stored? key).bind fun stored =>
      stored.latest.map fun latest => (stored, latest) with
        | none =>
          .ok (unavailable key descriptor s.catalog.generation s.commitEpoch nowMonotonicNs
            .unavailable .notAvailable "metric has not been sampled")
        | some (stored, latest) =>
          if latest.status ≠ .valid ∧ allowStale = true then
            match stored.lastValid with
            | none => .ok latest
            | some lastValid =>
              if nowMonotonicNs < lastValid.observedMonotonicTimeNs then
                .error ⟨.invalidArgument, "query time moved backward"⟩
              else .ok (staleItem latest lastValid nowMonotonicNs)
          else .ok latest

def readLatest (s : DataManager L) (keys : List DataKey) (allowStale : Bool)
    (nowMonotonicNs : ℤ) (requiredCatalogGeneration : ℕ := 0) : DataReadResult :=
  if keys = [] ∨ L.maxQueryItems < keys.length ∨ nowMonotonicNs < 0 then
    { status := ⟨.invalidArgument, "data query arguments are invalid"⟩ }
  else
    let keys := keys.insertionSort (· ≤ ·)
    if ¬keys.Nodup then
      { status := ⟨.invalidArgument, "data query contains duplicates"⟩ }
    else
      let result : DataReadResult :=
        { catalogGeneration := s.catalog.generation, observedCommitEpoch := s.commitEpoch }
      if s.catalog.generation = 0 then
        { result with status := ⟨.notInitialized, "data catalog is not active"⟩ }
      else if requiredCatalogGeneration ≠ 0 ∧
          requiredCatalogGeneration ≠ s.catalog.generation then
        { result with status := ⟨.staleGeneration, "query catalog generation is stale"⟩ }
      else if s.catalog.topologyUnsupported then
        { result with status := ⟨.unsupported, "data query rejects multi-device P0"⟩ }
      else
        match keys.mapM (s.readItem allowStale nowMonotonicNs) with
        | .error status => { result with status := status }
        | .ok items =>
          { result with
            items := items
            status :=
              if items.any fun item => decide (item.status ≠ .valid) then
                ⟨.partialResult, "data query contains non-valid items"⟩
              else .success }

def history (s : DataManager L) (key : DataKey) : DataHistoryResult :=
  if s.catalog.generation = 0 then
    { status := ⟨.notInitialized, "data catalog is not active"⟩ }
  else
    match s.stored? key with
    | none => { status := ⟨.notFound, "data history is not present"⟩ }
    | some stored => { status := .success, samples := stored.history }

def keyCount (s : DataManager L) : ℕ := s.shards.size

end DataManager
end Pdcm
