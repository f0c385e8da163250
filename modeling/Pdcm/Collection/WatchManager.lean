import Pdcm.Collection.Plan

/-!
# The watch manager

`collection/watch_manager.cpp`: logical watches of their owners, merged into one effective
watch per metric. Every change publishes a new snapshot.
-/

namespace Pdcm

open Library OrderedMap

/-- `static_cast<std::int64_t>` of an unsigned 64-bit value. -/
def toInt64 (n : ℕ) : ℤ := if n < 2 ^ 63 then n else n - 2 ^ 64

inductive WatchOwnerKind where
  | session
  | firmwareHeartbeat
  | systemBaseline
  deriving DecidableEq, Repr

structure WatchOwner where
  kind : WatchOwnerKind := .session
  id : ℕ := 0
  deriving DecidableEq, Repr

structure WatchRequirement where
  catalogGeneration : ℕ := 0
  entity : EntityRef
  metrics : List MetricId := []
  period : ℤ := 0
  freshness : ℤ := 0
  retention : ℤ := 0
  sampleLimit : ℕ := 0
  priority : WatchPriority := .normal
  allowPartial : Bool := false
  deriving DecidableEq, Repr

structure LogicalWatch where
  id : WatchId := 0
  owner : WatchOwner := {}
  requirement : WatchRequirement
  deriving DecidableEq, Repr

structure EffectiveWatch where
  key : EffectiveWatchKey
  period : ℤ := 0
  freshness : ℤ := 0
  retention : ℤ := 0
  priority : WatchPriority := .low
  logicalWatches : List WatchId := []
  deriving DecidableEq, Repr

structure WatchSnapshot where
  version : ℕ := 0
  catalogGeneration : ℕ := 0
  logicalWatches : List LogicalWatch := []
  effectiveWatches : List EffectiveWatch := []
  deriving DecidableEq, Repr

structure WatchLimits where
  maxLogicalWatches : ℕ := 4096
  maxEffectiveWatches : ℕ := 4096
  maxMetricsPerWatch : ℕ := 256
  deriving DecidableEq, Repr

def WatchLimits.validate (l : WatchLimits) : Status :=
  if l.maxLogicalWatches = 0 ∨ l.maxEffectiveWatches = 0 ∨ l.maxMetricsPerWatch = 0 then
    ⟨.invalidArgument, "watch limits must be non-zero"⟩
  else .success

theorem WatchLimits.validate_default : ({} : WatchLimits).validate.ok = true := by
  decide

structure WatchCreateResult where
  status : Status := {}
  watchId : WatchId := 0
  unsupportedMetrics : List MetricId := []
  deriving DecidableEq, Repr

/-- `WatchManager::CatalogState`. -/
structure WatchCatalog where
  view : Option CatalogView := none
  descriptors : OrderedMap MetricId MetricDescriptor := .empty
  supported : OrderedMap MetricId Bool := .empty
  heartbeat : Option HealthCatalogEntry := none
  heartbeatSupported : Bool := false
  providerId : String := ""
  entity : Option EntityRef := none
  topologyUnsupported : Bool := false

/-- The constructor refuses limits that do not validate. -/
structure WatchManager where
  limits : WatchLimits := {}
  valid : limits.validate.ok = true
  catalog : WatchCatalog := {}
  logical : OrderedMap WatchId LogicalWatch := .empty
  snapshot : WatchSnapshot := {}
  sampleCounts : OrderedMap WatchId ℕ := .empty
  lastSampleTimes : OrderedMap WatchId ℤ := .empty
  heartbeatBaseline : Option EffectiveWatch := none
  nextWatchId : WatchId := 1

namespace WatchManager

/-! ### Snapshots -/

def watchKey (providerId : String) (r : WatchRequirement) (metric : MetricId) :
    EffectiveWatchKey where
  providerId := providerId
  entity := r.entity
  kind := .metric
  dataId := metric

/-- One step of the merge: a logical watch joins the effective watch of a metric. -/
def mergeWatch (providerId : String) (id : WatchId) (r : WatchRequirement)
    (effective : OrderedMap EffectiveWatchKey EffectiveWatch) (metric : MetricId) :
    OrderedMap EffectiveWatchKey EffectiveWatch :=
  let key := watchKey providerId r metric
  let merged := (effective.find? key).getD { key := key }
  let updated : EffectiveWatch :=
    if merged.logicalWatches = [] then
      { key := key, period := r.period, freshness := r.freshness, retention := r.retention
        priority := r.priority }
    else
      { merged with
        period := min merged.period r.period
        freshness := min merged.freshness r.freshness
        retention := max merged.retention r.retention
        priority := max merged.priority r.priority }
  effective.insert key { updated with logicalWatches := merged.logicalWatches ++ [id] }

variable (m : WatchManager)

def effectiveWatches (logical : OrderedMap WatchId LogicalWatch) :
    OrderedMap EffectiveWatchKey EffectiveWatch :=
  let baseline := m.heartbeatBaseline.elim .empty fun b => OrderedMap.empty.emplace b.key b
  logical.entries.foldl (fun effective entry =>
    entry.2.requirement.metrics.foldl
      (mergeWatch m.catalog.providerId entry.1 entry.2.requirement) effective) baseline

def buildSnapshot (logical : OrderedMap WatchId LogicalWatch) (version : ℕ) : WatchSnapshot where
  version := version
  catalogGeneration := m.catalog.view.elim 0 CatalogView.generation
  logicalWatches := logical.entries.map Prod.snd
  effectiveWatches := (m.effectiveWatches logical).entries.map Prod.snd

/-- The manager after a publication. -/
def published (next : OrderedMap WatchId LogicalWatch) : WatchManager :=
  { m with
    logical := next
    sampleCounts := m.sampleCounts.filter fun id _ => next.contains id
    lastSampleTimes := m.lastSampleTimes.filter fun id _ => next.contains id
    snapshot := m.buildSnapshot next (m.snapshot.version + 1) }

def publish (next : OrderedMap WatchId LogicalWatch) : WatchManager × Status :=
  if m.limits.maxLogicalWatches < next.size then
    (m, ⟨.resourceExhausted, "logical watch limit exceeded"⟩)
  else if m.snapshot.version = uint64Max then
    (m, ⟨.internal, "watch snapshot version overflow"⟩)
  else
    let nextSnapshot := m.buildSnapshot next (m.snapshot.version + 1)
    if m.limits.maxEffectiveWatches < nextSnapshot.effectiveWatches.length then
      (m, ⟨.resourceExhausted, "effective watch limit exceeded"⟩)
    else (m.published next, .success)

end WatchManager

/-! ### Limits -/

namespace WatchManager

variable {providerId : String} {effective : OrderedMap EffectiveWatchKey EffectiveWatch}
  {key : EffectiveWatchKey} {m : WatchManager} {next : OrderedMap WatchId LogicalWatch}
  {r : WatchRequirement} {logical : OrderedMap WatchId LogicalWatch}

theorem mem_keys_effectiveWatches :
    key ∈ (m.effectiveWatches logical).keys ↔
      (∃ entry ∈ logical.entries, ∃ mid ∈ entry.2.requirement.metrics,
        key = watchKey m.catalog.providerId entry.2.requirement mid) ∨
      ∃ b, m.heartbeatBaseline = some b ∧ key = b.key := by
  have hme (effective : OrderedMap EffectiveWatchKey EffectiveWatch)
      (entry : WatchId × LogicalWatch) :
      key ∈ (entry.2.requirement.metrics.foldl
          (mergeWatch m.catalog.providerId entry.1 entry.2.requirement) effective).keys ↔
        (∃ mid ∈ entry.2.requirement.metrics,
          key = watchKey m.catalog.providerId entry.2.requirement mid) ∨ key ∈ effective.keys :=
    mem_keys_foldl fun _ _ => by rw [mergeWatch, mem_keys_insert]
  rw [effectiveWatches, mem_keys_foldl hme]
  cases m.heartbeatBaseline with
  | none => simp
  | some b => simp [mem_keys_emplace]

/-- What `publish` checks of the watches it publishes. -/
structure WithinLimits (m : WatchManager) : Prop where
  logical_le : m.logical.size ≤ m.limits.maxLogicalWatches
  effective_le : (m.effectiveWatches m.logical).size ≤ m.limits.maxEffectiveWatches

theorem length_effectiveWatches (m : WatchManager) (next : OrderedMap WatchId LogicalWatch)
    (ver : ℕ) : (m.buildSnapshot next ver).effectiveWatches.length =
      (m.effectiveWatches next).size := by
  simp [buildSnapshot, size]

/-- What `publish` asks of the watches it is given. -/
structure Publishable (m : WatchManager) (next : OrderedMap WatchId LogicalWatch) : Prop where
  logical_le : next.size ≤ m.limits.maxLogicalWatches
  version_ne : m.snapshot.version ≠ uint64Max
  effective_le : (m.effectiveWatches next).size ≤ m.limits.maxEffectiveWatches

theorem publish_of_publishable (h : m.Publishable next) :
    m.publish next = (m.published next, .success) := by
  rw [publish, if_neg (not_lt.mpr h.logical_le), if_neg h.version_ne]
  dsimp only
  rw [length_effectiveWatches, if_neg (not_lt.mpr h.effective_le)]

theorem publish_eq (m : WatchManager) (next : OrderedMap WatchId LogicalWatch) :
    m.Publishable next ∧ m.publish next = (m.published next, .success) ∨
      ¬m.Publishable next ∧ (m.publish next).1 = m ∧ (m.publish next).2.ok = false := by
  by_cases h : m.Publishable next
  · exact .inl ⟨h, publish_of_publishable h⟩
  · refine .inr ⟨h, ?_⟩
    unfold publish
    split_ifs with hlog hver
    · exact ⟨rfl, rfl⟩
    · exact ⟨rfl, rfl⟩
    · dsimp only
      rw [length_effectiveWatches]
      split_ifs with hef
      · exact ⟨rfl, rfl⟩
      · exact absurd ⟨not_lt.mp hlog, hver, not_lt.mp hef⟩ h

theorem publish_withinLimits (h : m.WithinLimits) (next : OrderedMap WatchId LogicalWatch) :
    (m.publish next).1.WithinLimits := by
  obtain ⟨hpub, heq⟩ | ⟨-, hsa, -⟩ := m.publish_eq next
  · rw [heq]
    exact ⟨hpub.logical_le, hpub.effective_le⟩
  · rwa [hsa]

/-- Watches can always be removed, as long as there are snapshot versions. -/
theorem publishable_of_sublist (hli : m.WithinLimits)
    (hver : m.snapshot.version ≠ uint64Max) (hne : next.entries.Sublist m.logical.entries) :
    m.Publishable next := by
  refine ⟨hne.length_le.trans hli.logical_le, hver, .trans ?_ hli.effective_le⟩
  apply size_le_of_keys_subset
  intro key hkey
  rw [mem_keys_effectiveWatches] at hkey ⊢
  rcases hkey with ⟨entry, hen, hme⟩ | hba
  · exact .inl ⟨entry, hne.subset hen, hme⟩
  · exact .inr hba

end WatchManager

/-! ### The catalog and the heartbeat baseline -/

/-- One capability item of the active device: the last item of an id decides. -/
def WatchCatalog.addCapability (c : WatchCatalog) (item : CapabilityItem) : WatchCatalog :=
  if item.kind = .metric then { c with supported := c.supported.insert item.id item.supported }
  else if item.kind = .health ∧ item.id = firmwareHeartbeatHealthId then
    { c with heartbeatSupported := item.supported }
  else c

/-- The state `activateCatalog` builds from a view and its target catalog. -/
def WatchCatalog.ofView (view : CatalogView) (target : TargetCatalog) : WatchCatalog :=
  let base : WatchCatalog :=
    { view := some view
      topologyUnsupported := view.topologyUnsupported
      descriptors := descriptorMap target.metrics
      heartbeat := target.health.head? }
  match view.topologyUnsupported, view.entities with
  | false, [record] =>
    let routed := { base with entity := some record.ref, providerId := record.providerVersion }
    match view.capabilities record.ref with
    | .ok set => set.items.foldl addCapability routed
    | .error _ => routed
  | _, _ => base

namespace WatchManager

variable (m : WatchManager)

def activateCatalog (catalog : Option CatalogView) (target : TargetCatalog) :
    WatchManager × Status :=
  match catalog with
  | none => (m, ⟨.invalidArgument, "watch catalog snapshot is invalid"⟩)
  | some view =>
    if view.generation = 0 then (m, ⟨.invalidArgument, "watch catalog snapshot is invalid"⟩)
    else if ¬target.validate.ok then (m, target.validate)
    else
      let current := m.catalog.view.map CatalogView.generation
      if current.any fun generation => decide (view.generation < generation) then
        (m, ⟨.staleGeneration, "watch catalog generation moved backward"⟩)
      else if current = some view.generation then (m, .success)
      else
        let next := WatchCatalog.ofView view target
        -- the new catalog stays when the publication of the retained watches fails
        { m with catalog := next, heartbeatBaseline := none }.publish
          (m.logical.filter fun _ watch =>
            decide (watch.requirement.catalogGeneration = view.generation ∧
              next.entity = some watch.requirement.entity))

def setFirmwareHeartbeatBaseline (period retention : ℤ) :
    WatchManager × Status :=
  if m.catalog.view = none then (m, ⟨.notInitialized, "watch catalog is not active"⟩)
  else
    let unsupported : Status := ⟨.unsupported, "firmware heartbeat baseline is not supported"⟩
    match m.catalog.entity, m.catalog.heartbeat with
    | some entity, some heartbeat =>
      match heartbeat.providerDataId with
      | none => (m, unsupported)
      | some dataId =>
        if m.catalog.topologyUnsupported ∨ m.catalog.heartbeatSupported = false then
          (m, unsupported)
        else if int64Max < heartbeat.freshnessNs ∨ period ≤ 0 ∨
            (heartbeat.freshnessNs : ℤ) < period ∨ retention < heartbeat.freshnessNs then
          (m, ⟨.invalidArgument, "firmware heartbeat baseline timing is invalid"⟩)
        else
          let baseline : EffectiveWatch :=
            { key :=
                { providerId := m.catalog.providerId, entity := entity
                  kind := .heartbeatEvidence, dataId := dataId }
              period := period
              freshness := heartbeat.freshnessNs
              retention := retention
              priority := .heartbeat }
          let published := { m with heartbeatBaseline := some baseline }.publish m.logical
          if published.2.ok then published else (m, published.2)
    | _, _ => (m, unsupported)

def clearFirmwareHeartbeatBaseline : WatchManager × Status :=
  if m.heartbeatBaseline = none then (m, .success)
  else
    let published := { m with heartbeatBaseline := none }.publish m.logical
    if published.2.ok then published else (m, published.2)

/-! ### Logical watches -/

/-- A polled metric of the catalog that the device supports. -/
def supportedDescriptor (c : WatchCatalog) (metric : MetricId) : Option MetricDescriptor :=
  (c.descriptors.find? metric).filter fun descriptor =>
    decide (descriptor.collectionMode = .poll ∧ c.supported.find? metric = some true)

/-- The metric loop of `validateRequirement`, with the metrics seen so far. The lists of
supported and unsupported metrics are the source's two output vectors. -/
def validateMetrics (c : WatchCatalog) (period : ℤ) (supported unsupported : List MetricId) :
    List MetricId → List MetricId → Status × List MetricId × List MetricId
  | _, [] => (.success, supported, unsupported)
  | seen, metric :: rest =>
    if metric = 0 ∨ metric ∈ seen then
      (⟨.invalidArgument, "watch metrics contain invalid or duplicate IDs"⟩, supported, unsupported)
    else
      match supportedDescriptor c metric with
      | none => validateMetrics c period supported (unsupported ++ [metric]) (metric :: seen) rest
      | some descriptor =>
        if period < toInt64 descriptor.minPeriodNs then
          (⟨.invalidArgument, "watch period is below metric minimum"⟩, supported, unsupported)
        else
          validateMetrics c period (supported ++ [metric]) unsupported (metric :: seen) rest

def validateRequirement (r : WatchRequirement) :
    Status × List MetricId × List MetricId :=
  match m.catalog.view with
  | none => (⟨.notInitialized, "watch catalog is not active"⟩, [], [])
  | some view =>
    if m.catalog.topologyUnsupported ∨ m.catalog.entity = none then
      (⟨.unsupported, "watch requires exactly one active device"⟩, [], [])
    else if r.catalogGeneration ≠ view.generation ∨ m.catalog.entity ≠ some r.entity then
      (⟨.staleGeneration, "watch catalog or entity generation is stale"⟩, [], [])
    else if r.metrics = [] ∨ m.limits.maxMetricsPerWatch < r.metrics.length ∨ r.period ≤ 0 ∨
        r.freshness < r.period ∨ r.retention < r.freshness then
      (⟨.invalidArgument, "watch timing or selection is invalid"⟩, [], [])
    else validateMetrics m.catalog r.period [] [] [] r.metrics

def create (owner : WatchOwner) (r : WatchRequirement) :
    WatchManager × WatchCreateResult :=
  if owner.kind = .session ∧ owner.id = 0 then
    (m, { status := ⟨.invalidArgument, "watch owner or ID is invalid"⟩ })
  else if m.nextWatchId = uint64Max then
    (m, { status := ⟨.resourceExhausted, "watch ID space is exhausted"⟩ })
  else
    let (status, supported, unsupported) := m.validateRequirement r
    if ¬status.ok then (m, { status := status, unsupportedMetrics := unsupported })
    else if unsupported ≠ [] ∧ r.allowPartial = false then
      (m, { status := ⟨.unsupported, "watch contains unsupported metrics"⟩
            unsupportedMetrics := unsupported })
    else if supported = [] then
      (m, { status := ⟨.unsupported, "watch has no supported metrics"⟩
            unsupportedMetrics := unsupported })
    else
      let id := m.nextWatchId
      let watch : LogicalWatch :=
        { id := id, owner := owner
          requirement := { r with metrics := supported.insertionSort (· ≤ ·) } }
      let published := m.publish (m.logical.emplace id watch)
      if ¬published.2.ok then (m, { status := published.2, unsupportedMetrics := unsupported })
      else
        ({ published.1 with nextWatchId := id + 1 },
          { status :=
              if unsupported = [] then .success
              else ⟨.partialResult, "watch omitted unsupported metrics"⟩
            watchId := id
            unsupportedMetrics := unsupported })

def destroy (owner : WatchOwner) (watchId : WatchId) : WatchManager × Status :=
  match m.logical.find? watchId with
  | none => (m, ⟨.notFound, "watch does not exist"⟩)
  | some watch =>
    if watch.owner ≠ owner then (m, ⟨.permissionDenied, "watch belongs to another owner"⟩)
    else m.publish (m.logical.erase watchId)

def removeOwner (owner : WatchOwner) : WatchManager × Status :=
  let next := m.logical.filter fun _ watch => decide (watch.owner ≠ owner)
  if next.size = m.logical.size then
    (m, ⟨.notFound, "watch owner has no requirements"⟩)
  else m.publish next

end WatchManager
end Pdcm
