import Pdcm.Collection.WatchManager

/-!
# Compilation of a watch snapshot

The part of `CollectionCoordinator::applyWatchSnapshot` before the plan is published:
effective watches are grouped by provider, period, data kind and isolation class, and each
group is cut into jobs of at most `maxBatchItems` items in key order.
-/

namespace Pdcm

open Library List

variable {limits : CollectionLimits} {watches : WatchSnapshot} {now : ℤ} {plan : CollectionPlan}

structure GroupKey where
  providerId : String := ""
  period : ℤ := 0
  kind : ProviderDataKind := .metric
  isolationClass : ℕ := 0
  deriving DecidableEq, Repr

def GroupKey.tie (g : GroupKey) : String ×ₗ ℤ ×ₗ ℕ ×ₗ ℕ :=
  toLex (g.providerId, toLex (g.period, toLex (g.kind.value, g.isolationClass)))

theorem GroupKey.tie_injective : Function.Injective tie := by
  rintro ⟨p, t, k, i⟩ ⟨p', t', k', i'⟩ h
  simp only [tie, EmbeddingLike.apply_eq_iff_eq, Prod.mk.injEq] at h
  obtain ⟨rfl, rfl, hk, rfl⟩ := h
  rw [ProviderDataKind.value_injective hk]

instance : LinearOrder GroupKey := orderBy GroupKey.tie GroupKey.tie_injective

abbrev Groups := OrderedMap GroupKey (List CollectionPlanItem)

variable {L : Limits}

def knownData (data : DataManager L) (key : EffectiveWatchKey) : Bool :=
  match key.kind with
  | .metric => (data.metricDescriptor key.dataId).isSome
  | .heartbeatEvidence =>
    data.heartbeatCatalog.any fun heartbeat =>
      heartbeat.supported && decide (heartbeat.descriptor.providerDataId = some key.dataId)

def EffectiveWatch.group (watch : EffectiveWatch) : GroupKey :=
  ⟨watch.key.providerId, watch.period, watch.key.kind, watch.key.isolationClass⟩

def EffectiveWatch.planItem (watch : EffectiveWatch) : CollectionPlanItem :=
  ⟨watch.key, watch.period, watch.freshness, watch.priority, watch.logicalWatches⟩

/-- What the grouping loop refuses, beside a key it has seen. -/
def EffectiveWatch.refused (data : DataManager L) (watch : EffectiveWatch) : Prop :=
  watch.key.providerId = "" ∨ watch.key.dataId = 0 ∨ watch.period ≤ 0 ∨
    watch.freshness < watch.period ∨ ¬knownData data watch.key

instance (data : DataManager L) (watch : EffectiveWatch) : Decidable (watch.refused data) :=
  inferInstanceAs (Decidable (_ ∨ _))

/-- The grouping loop; `none` when an effective watch cannot be compiled. -/
def groupWatches (data : DataManager L) (groups : Groups) (seen : List EffectiveWatchKey) :
    List EffectiveWatch → Option Groups
  | [] => some groups
  | watch :: rest =>
    if watch.refused data ∨ watch.key ∈ seen then none
    else
      let items := (groups.find? watch.group).getD []
      groupWatches data (groups.insert watch.group (items ++ [watch.planItem]))
        (watch.key :: seen) rest

/-- The slices of at most `size` items, in order. The number of items bounds the number
of slices, since `size` is positive. -/
def slices {α : Type*} (size : ℕ) : ℕ → List α → List (List α)
  | 0, _ => []
  | _ + 1, [] => []
  | fuel + 1, a :: rest =>
    (a :: rest).take size :: slices size fuel ((a :: rest).drop size)

def groupJobs (maxBatchItems : ℕ) (group : GroupKey × List CollectionPlanItem) :
    List CollectionJob :=
  let items := group.2.insertionSort fun a b => a.key ≤ b.key
  (slices maxBatchItems items.length items).map fun batch =>
    { providerId := group.1.providerId
      kind := group.1.kind
      isolationClass := group.1.isolationClass
      period := group.1.period
      priority := batch.foldl (fun p item => max p item.priority) .low
      items := batch }

/-- The jobs in group order, numbered from 1. -/
def numberJobs (jobs : List CollectionJob) : List CollectionJob :=
  jobs.mapIdx fun i job => { job with id := i + 1 }

/-- The plan of a snapshot, without its version. -/
def compilePlan (limits : CollectionLimits) (data : DataManager L) (watches : WatchSnapshot)
    (now : ℤ) : Except Status CollectionPlan :=
  if watches.catalogGeneration = 0 ∨ watches.catalogGeneration ≠ data.catalogGeneration then
    .error ⟨.staleGeneration, "watch snapshot does not match the active data catalog"⟩
  else
    match groupWatches data .empty [] watches.effectiveWatches with
    | none => .error ⟨.invalidArgument, "effective watch cannot be compiled"⟩
    | some groups =>
      let jobs := groups.entries.flatMap (groupJobs limits.maxBatchItems)
      -- refused before job number `maxPlanJobs + 1` or the last id is given out
      if limits.maxPlanJobs < jobs.length ∨ uint64Max ≤ jobs.length then
        .error ⟨.resourceExhausted, "collection plan job limit exceeded"⟩
      else
        .ok
          { watchSnapshotVersion := watches.version
            catalogGeneration := watches.catalogGeneration
            createdAt := now
            jobs := numberJobs jobs }

variable {data : DataManager L}

theorem compilePlan_error {st : Status}
    (h : compilePlan limits data watches now = .error st) : st.ok = false := by
  unfold compilePlan at h
  split_ifs at h with hst
  · cases h
    rfl
  · cases hg : groupWatches data .empty [] watches.effectiveWatches with
    | none =>
      rw [hg] at h
      cases h
      rfl
    | some groups =>
      simp only [hg] at h
      split_ifs at h
      cases h
      rfl

/-- A plan that compiled: the watches of the active catalog were grouped, and the jobs of the
groups are within the limit. -/
theorem compilePlan_ok (h : compilePlan limits data watches now = .ok plan) :
    watches.catalogGeneration = data.catalogGeneration ∧
      ∃ groups, groupWatches data .empty [] watches.effectiveWatches = some groups ∧
        (groups.entries.flatMap (groupJobs limits.maxBatchItems)).length ≤ limits.maxPlanJobs ∧
        plan =
          { watchSnapshotVersion := watches.version
            catalogGeneration := watches.catalogGeneration
            createdAt := now
            jobs := numberJobs (groups.entries.flatMap (groupJobs limits.maxBatchItems)) } := by
  unfold compilePlan at h
  split_ifs at h with hst
  rw [not_or, not_not] at hst
  cases hg : groupWatches data .empty [] watches.effectiveWatches with
  | none => simp [hg] at h
  | some groups =>
    simp only [hg] at h
    split_ifs at h with hfu
    cases h
    rw [not_or, not_lt] at hfu
    exact ⟨hst.2, groups, rfl, hfu.1, rfl⟩

/-! ### Well-formed plans -/

/-- What the scheduler relies on: jobs have distinct positive ids and positive periods. -/
structure CollectionPlan.WellFormed (plan : CollectionPlan) : Prop where
  ids_nodup : (plan.jobs.map CollectionJob.id).Nodup
  ids_pos : ∀ job ∈ plan.jobs, 0 < job.id
  period_pos : ∀ job ∈ plan.jobs, 0 < job.period

theorem numberJobs_ids (jobs : List CollectionJob) :
    (numberJobs jobs).map CollectionJob.id = range' 1 jobs.length := by
  apply ext_getElem
  · simp [numberJobs]
  · intro i h1 h2
    simp [numberJobs, add_comm]

theorem groupWatches_period_pos {groups res : Groups} {seen : List EffectiveWatchKey}
    {watches : List EffectiveWatch}
    (hgr : ∀ g items, groups.find? g = some items → 0 < g.period)
    (h : groupWatches data groups seen watches = some res) :
    ∀ g items, res.find? g = some items → 0 < g.period := by
  induction watches generalizing groups seen with
  | nil =>
    cases h
    exact hgr
  | cons watch rest ih =>
    rw [groupWatches] at h
    split_ifs at h with hre
    refine ih (fun g items hg => ?_) h
    rw [OrderedMap.find?_insert] at hg
    split_ifs at hg with hgro
    · subst hgro
      simp only [EffectiveWatch.refused, not_or, not_le] at hre
      exact hre.1.2.2.1
    · exact hgr g items hg

theorem compilePlan_wellFormed (h : compilePlan limits data watches now = .ok plan) :
    plan.WellFormed ∧ plan.createdAt = now := by
  obtain ⟨-, groups, hg, -, rfl⟩ := compilePlan_ok h
  refine ⟨⟨?_, ?_, ?_⟩, rfl⟩
  · rw [numberJobs_ids]
    exact nodup_range'
  · intro job hjob
    have hid := mem_map_of_mem (f := CollectionJob.id) hjob
    rw [numberJobs_ids, mem_range'_1] at hid
    exact hid.1
  · intro job hjob
    obtain ⟨i, hi, rfl⟩ := mem_mapIdx.mp hjob
    obtain ⟨group, hgr, hmem⟩ := mem_flatMap.mp (getElem_mem hi)
    have hfi := OrderedMap.mem_entries_iff.mp hgr
    have hpos := groupWatches_period_pos (by simp) hg group.1 group.2 hfi
    obtain ⟨batch, -, hba⟩ := mem_map.mp hmem
    change 0 < _
    rwa [← hba]

end Pdcm
