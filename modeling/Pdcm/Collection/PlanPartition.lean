import Pdcm.Library.Grouping
import Pdcm.Collection.CoordinatorRuns
import Pdcm.Collection.WatchSnapshots

/-!
# Plans partition the effective watches

`applyWatchSnapshot` groups, sorts and slices the effective watches of a snapshot. Nothing
is lost or duplicated on the way, and since the keys are distinct the jobs do not depend on
the order in which the snapshot lists its watches.
-/

namespace Pdcm

open Library List OrderedMap CollectionPlanItem CollectionJob CollectionLimits

variable {L : Limits} {seen : List EffectiveWatchKey} {groups : Groups}
  {watches order : List EffectiveWatch} {maxBatchItems : ℕ} {jobs : List CollectionJob}

/-! ### Groups -/

def CollectionPlanItem.group (item : CollectionPlanItem) : GroupKey :=
  ⟨item.key.providerId, item.period, item.key.kind, item.key.isolationClass⟩

/-- What the grouping loop asks of the watches that are left. -/
structure Compilable (data : DataManager L) (seen : List EffectiveWatchKey)
    (watches : List EffectiveWatch) : Prop where
  accepted : ∀ watch ∈ watches, ¬watch.refused data
  unseen : ∀ watch ∈ watches, watch.key ∉ seen
  keys_nodup : (watches.map EffectiveWatch.key).Nodup

theorem compilable_cons {data : DataManager L} {watch : EffectiveWatch}
    {rest : List EffectiveWatch} :
    Compilable data seen (watch :: rest) ↔
      ¬(watch.refused data ∨ watch.key ∈ seen) ∧ Compilable data (watch.key :: seen) rest := by
  constructor
  · rintro ⟨hacc, hun, hno⟩
    obtain ⟨hac, hacc⟩ := forall_mem_cons.mp hacc
    obtain ⟨hnew, hun⟩ := forall_mem_cons.mp hun
    rw [map_cons, nodup_cons] at hno
    refine ⟨not_or.mpr ⟨hac, hnew⟩, hacc, ?_, hno.2⟩
    intro other hot
    rw [mem_cons, not_or]
    refine ⟨?_, hun other hot⟩
    intro heq
    exact hno.1 (heq ▸ mem_map_of_mem hot)
  · rintro ⟨hwa, hacc, hun, hno⟩
    obtain ⟨hac, hnew⟩ := not_or.mp hwa
    refine ⟨forall_mem_cons.mpr ⟨hac, hacc⟩, forall_mem_cons.mpr ⟨hnew, ?_⟩, ?_⟩
    · exact fun other hot hse => hun other hot (mem_cons_of_mem _ hse)
    · rw [map_cons, nodup_cons]
      refine ⟨fun hmem => ?_, hno⟩
      obtain ⟨other, hot, heq⟩ := mem_map.mp hmem
      exact hun other hot (heq ▸ mem_cons_self)

/-- The grouping loop groups the plan items, if it accepts every watch. -/
theorem groupWatches_eq_some_iff {data : DataManager L} {result : Groups} :
    groupWatches data groups seen watches = some result ↔
      Compilable data seen watches ∧
        (watches.map EffectiveWatch.planItem).foldl (addTo CollectionPlanItem.group)
          groups = result := by
  induction watches generalizing groups seen with
  | nil =>
    have hnil : Compilable data seen [] := ⟨by simp, by simp, by simp⟩
    simp [groupWatches, hnil]
  | cons watch rest ih =>
    rw [groupWatches, compilable_cons]
    split_ifs with hre
    · simp [hre]
    · simp only [ih, hre, not_false_eq_true, true_and]
      rfl

theorem groupWatches_empty {data : DataManager L}
    (h : groupWatches data .empty [] watches = some groups) :
    Compilable data [] watches ∧
      groups = grouped CollectionPlanItem.group
        (watches.map EffectiveWatch.planItem) := by
  obtain ⟨hco, heq⟩ := groupWatches_eq_some_iff.mp h
  exact ⟨hco, heq.symm⟩

theorem Compilable.perm {data : DataManager L} (h : Compilable data seen watches)
    (hpe : order.Perm watches) : Compilable data seen order where
  accepted watch hwatch := h.accepted watch (hpe.mem_iff.mp hwatch)
  unseen watch hwatch := h.unseen watch (hpe.mem_iff.mp hwatch)
  keys_nodup := (hpe.map EffectiveWatch.key).nodup_iff.mpr h.keys_nodup

theorem Compilable.itemKeys_nodup {data : DataManager L} (h : Compilable data [] watches) :
    ((watches.map EffectiveWatch.planItem).map key).Nodup := by
  rw [map_map]
  exact h.keys_nodup

/-! ### Slices -/

theorem flatten_slices {α : Type*} {size : ℕ} (hsi : 0 < size) {fuel : ℕ} {l : List α}
    (hfu : l.length ≤ fuel) : (slices size fuel l).flatten = l := by
  induction fuel generalizing l with
  | zero =>
    rw [length_eq_zero_iff.mp (Nat.le_zero.mp hfu)]
    rfl
  | succ fuel ih =>
    cases l with
    | nil => rfl
    | cons a rest =>
      rw [slices, flatten_cons, ih, take_append_drop]
      rw [length_drop]
      omega

theorem mem_slices {α : Type*} {size : ℕ} (hsi : 0 < size) {fuel : ℕ} {l batch : List α}
    (h : batch ∈ slices size fuel l) : 1 ≤ batch.length ∧ batch.length ≤ size := by
  induction fuel generalizing l with
  | zero => cases h
  | succ fuel ih =>
    cases l with
    | nil => cases h
    | cons a rest =>
      rw [slices, mem_cons] at h
      rcases h with rfl | h
      · rw [length_take, length_cons]
        omega
      · exact ih h

/-! ### Jobs -/

/-- What a job says about its items. -/
structure CollectionJob.Uniform (job : CollectionJob) (maxBatchItems : ℕ) : Prop where
  shared : ∀ item ∈ job.items, item.key.providerId = job.providerId ∧ item.period = job.period ∧
    item.key.kind = job.kind ∧ item.key.isolationClass = job.isolationClass
  size : 1 ≤ job.items.length ∧ job.items.length ≤ maxBatchItems
  priority : (job.items.map CollectionPlanItem.priority).max? = some job.priority

theorem groupJobs_items (hsi : 0 < maxBatchItems) (group : GroupKey × List CollectionPlanItem) :
    (groupJobs maxBatchItems group).flatMap items =
      sortById key group.2 := by
  rw [groupJobs, flatMap_map, flatMap_id']
  exact flatten_slices hsi le_rfl

theorem groupJobs_uniform (hsi : 0 < maxBatchItems) {group : GroupKey × List CollectionPlanItem}
    (hgr : ∀ item ∈ group.2, item.group = group.1) {job : CollectionJob}
    (hjob : job ∈ groupJobs maxBatchItems group) : job.Uniform maxBatchItems := by
  have hite : ∀ item ∈ job.items, item ∈ group.2 := by
    intro item hit
    have hmem : item ∈ (groupJobs maxBatchItems group).flatMap items :=
      mem_flatMap.mpr ⟨job, hjob, hit⟩
    rw [groupJobs_items hsi] at hmem
    exact (sortById_perm _ _).mem_iff.mp hmem
  obtain ⟨batch, hba, rfl⟩ := mem_map.mp hjob
  have hle := mem_slices hsi hba
  refine ⟨fun item hit => ?_, hle, ?_⟩
  · have hkey := hgr item (hite item hit)
    rw [← hkey]
    exact ⟨rfl, rfl, rfl, rfl⟩
  · cases batch with
    | nil => simp at hle
    | cons item rest =>
      have hlow : max .low item.priority = item.priority :=
        max_eq_right (Nat.zero_le item.priority.value)
      change ((item :: rest).map CollectionPlanItem.priority).max? = some (foldl _ _ _)
      rw [map_cons, List.max?_cons', foldl_cons, hlow, foldl_map]

/-! ### Numbered jobs -/

theorem numberJobs_items (jobs : List CollectionJob) :
    (numberJobs jobs).flatMap items = jobs.flatMap items := by
  have hmap : (numberJobs jobs).map items = jobs.map items := by
    apply ext_getElem
    · simp [numberJobs]
    · intro i _ _
      simp [numberJobs]
  rw [flatMap_def, hmap, flatMap_def]

theorem numberJobs_uniform (h : ∀ job ∈ jobs, job.Uniform maxBatchItems) :
    ∀ job ∈ numberJobs jobs, job.Uniform maxBatchItems := by
  intro job hjob
  obtain ⟨i, hi, rfl⟩ := mem_mapIdx.mp hjob
  obtain ⟨hsh, hsi, hpr⟩ := h _ (getElem_mem hi)
  exact ⟨hsh, hsi, hpr⟩

/-! ### Plans -/

/-- The jobs of the plan hold each effective watch once, and nothing else. -/
structure CollectionPlan.Partitions (plan : CollectionPlan) (limits : CollectionLimits)
    (watches : List EffectiveWatch) : Prop where
  items : (plan.jobs.flatMap items).Perm (watches.map EffectiveWatch.planItem)
  keys_nodup : (watches.map EffectiveWatch.key).Nodup
  once : ∀ watch ∈ watches, ∃! job, job ∈ plan.jobs ∧ watch.planItem ∈ job.items
  uniform : ∀ job ∈ plan.jobs, job.Uniform limits.maxBatchItems
  ids : plan.jobs.map CollectionJob.id = List.range' 1 plan.jobs.length
  count : plan.jobs.length ≤ limits.maxPlanJobs

/-- An item of a list without repetitions is in one job only. -/
theorem existsUnique_job (hite : (jobs.flatMap items).Nodup)
    {item : CollectionPlanItem} (h : item ∈ jobs.flatMap items) :
    ∃! job, job ∈ jobs ∧ item ∈ job.items := by
  have : Std.Symm (Function.onFun List.Disjoint items) := ⟨fun _ _ hd => hd.symm⟩
  obtain ⟨job, hjob, hit⟩ := mem_flatMap.mp h
  refine ⟨job, ⟨hjob, hit⟩, ?_⟩
  rintro other ⟨hot, hmem⟩
  by_contra hne
  have hdi := (nodup_flatMap.mp hite).2.forall hot hjob hne
  exact hdi hmem hit

theorem CollectionLimits.maxBatchItems_pos {limits : CollectionLimits}
    (valid : limits.validate.ok = true) : 0 < limits.maxBatchItems := by
  rw [validate] at valid
  split_ifs at valid with hli
  · cases valid
  · omega

theorem compilePlan_partitions {limits : CollectionLimits} (valid : limits.validate.ok = true)
    {data : DataManager L} {watches : WatchSnapshot} {now : ℤ} {plan : CollectionPlan}
    (h : compilePlan limits data watches now = .ok plan) :
    plan.Partitions limits watches.effectiveWatches := by
  have hsi := maxBatchItems_pos valid
  obtain ⟨-, groups, hg, hfu, rfl⟩ := compilePlan_ok h
  obtain ⟨hco, rfl⟩ := groupWatches_empty hg
  have hit : ((numberJobs ((grouped CollectionPlanItem.group
      (watches.effectiveWatches.map EffectiveWatch.planItem)).entries.flatMap
        (groupJobs limits.maxBatchItems))).flatMap items).Perm
      (watches.effectiveWatches.map EffectiveWatch.planItem) := by
    rw [numberJobs_items, flatMap_assoc]
    simp only [groupJobs_items hsi]
    exact (List.Perm.flatMap_left _ fun group _ => sortById_perm _ group.2).trans
      (flatMap_grouped_perm _ _)
  refine ⟨hit, hco.keys_nodup, ?_, ?_, ?_, ?_⟩
  · intro watch hwa
    apply existsUnique_job
    · exact hit.nodup_iff.mpr (.of_map _ hco.itemKeys_nodup)
    · exact hit.mem_iff.mpr (mem_map_of_mem hwa)
  · apply numberJobs_uniform
    intro job hjob
    obtain ⟨group, hgr, hmem⟩ := mem_flatMap.mp hjob
    apply groupJobs_uniform hsi _ hmem
    intro item hite
    have hfi := mem_entries_iff.mp hgr
    rw [find?_grouped] at hfi
    split_ifs at hfi
    rw [← Option.some.inj hfi] at hite
    exact of_decide_eq_true (mem_filter.mp hite).2
  · rw [numberJobs_ids]
    simp [numberJobs]
  · simpa [numberJobs] using hfu

theorem flatMap_groupJobs (maxBatchItems : ℕ) (groups : Groups) :
    (groups.mapValues fun _ => sortById key).entries.flatMap
        (groupJobs maxBatchItems) =
      groups.entries.flatMap (groupJobs maxBatchItems) := by
  rw [mapValues, flatMap_map]
  congr 1
  funext group
  have hso : sortById key
      (sortById key group.2) =
        sortById key group.2 :=
    (sortById_pairwise key group.2).insertionSort_eq
  simp only [sortById] at hso
  simp only [groupJobs, sortById, hso]

theorem groupWatches_perm {data : DataManager L} (hpe : order.Perm watches)
    (h : groupWatches data .empty [] watches = some groups) (maxBatchItems : ℕ) :
    ∃ reordered, groupWatches data .empty [] order = some reordered ∧
      reordered.entries.flatMap (groupJobs maxBatchItems) =
        groups.entries.flatMap (groupJobs maxBatchItems) := by
  obtain ⟨hco, rfl⟩ := groupWatches_empty h
  have hor := hco.perm hpe
  refine ⟨_, groupWatches_eq_some_iff.mpr ⟨hor, rfl⟩, ?_⟩
  rw [← flatMap_groupJobs, ← flatMap_groupJobs maxBatchItems (.grouped _ _)]
  congr 2
  exact sorted_grouped_eq_of_perm _ (hpe.map EffectiveWatch.planItem) hor.itemKeys_nodup

theorem compilePlan_perm (limits : CollectionLimits) (data : DataManager L)
    (watches : WatchSnapshot) (now : ℤ) (hpe : order.Perm watches.effectiveWatches) :
    compilePlan limits data { watches with effectiveWatches := order } now =
      compilePlan limits data watches now := by
  simp only [compilePlan]
  cases hwa : groupWatches data .empty [] watches.effectiveWatches with
  | some groups =>
    obtain ⟨reordered, hre, hjo⟩ :=
      groupWatches_perm hpe hwa limits.maxBatchItems
    simp only [hre, hjo]
  | none =>
    cases hor : groupWatches data .empty [] order with
    | none => rfl
    | some groups =>
      obtain ⟨reordered, hre, -⟩ :=
        groupWatches_perm hpe.symm hor limits.maxBatchItems
      rw [hwa] at hre
      cases hre

namespace Coordinator

/-- A snapshot that is accepted is partitioned into jobs, whatever the order of its watches;
one that is refused changes neither the plan nor a due time. -/
theorem applyWatchSnapshot_partitions (c : Coordinator L) (watches : WatchSnapshot) (now : ℤ) :
    ((c.applyWatchSnapshot watches now).2.ok = true →
      (c.applyWatchSnapshot watches now).1.plan.Partitions c.limits watches.effectiveWatches) ∧
    (∀ order : List EffectiveWatch, order.Perm watches.effectiveWatches →
      c.applyWatchSnapshot { watches with effectiveWatches := order } now =
        c.applyWatchSnapshot watches now) ∧
    ((c.applyWatchSnapshot watches now).2.ok = false →
      (c.applyWatchSnapshot watches now).1.plan = c.plan ∧
        (c.applyWatchSnapshot watches now).1.nextDue = c.nextDue) := by
  have horder : ∀ order, order.Perm watches.effectiveWatches →
      c.applyWatchSnapshot { watches with effectiveWatches := order } now =
        c.applyWatchSnapshot watches now := by
    intro order hperm
    simp only [applyWatchSnapshot, compilePlan_perm c.limits c.data watches now hperm]
  obtain ⟨hsame, hfailed⟩ | ⟨plan, hplan, heq⟩ := c.applyWatchSnapshot_cases watches now
  · rw [hfailed, hsame]
    exact ⟨fun hok => absurd hok Bool.false_ne_true, hsame ▸ horder, fun _ => ⟨rfl, rfl⟩⟩
  · refine ⟨fun _ => ?_, horder, fun hfailed => ?_⟩
    · rw [heq]
      obtain ⟨hitems, hkeys, honce, huniform, hids, hcount⟩ :=
        compilePlan_partitions c.valid hplan
      exact ⟨hitems, hkeys, honce, huniform, hids, hcount⟩
    · rw [heq] at hfailed
      cases hfailed

end Coordinator

namespace SharedDevice

open WatchManager

def storeLimits : Limits := { valid := DataStoreLimits.validate_default }

/-- A coordinator of the device, whose catalog is active. -/
def coordinator (watchManager : WatchManager) : Coordinator storeLimits :=
  { valid := validate_default, watchManager := some watchManager
    data := ((DataManager.initial storeLimits).activateCatalog (some (view 1)) target).1 }

/-- The three effective watches have different periods. -/
theorem opened_partitioned :
    ∃ m c, runFrom WatchManager.apply (initial {} rfl) opened = m ∧
      ((coordinator m).applyWatchSnapshot m.snapshot 0).2.ok = true ∧
      ((coordinator m).applyWatchSnapshot m.snapshot 0).1 = c ∧
      c.plan.Partitions {} m.snapshot.effectiveWatches ∧
      c.plan.jobs.map (fun job => (job.id, job.kind, job.period)) =
        [(1, .heartbeatEvidence, 5), (2, .metric, 10), (3, .metric, 20)] := by
  have hok : ((coordinator (runFrom .apply (initial {} rfl) opened)).applyWatchSnapshot
      (runFrom .apply (initial {} rfl) opened).snapshot 0).2.ok = true := by
    decide +kernel
  exact ⟨_, _, rfl, hok, rfl, (Coordinator.applyWatchSnapshot_partitions _ _ 0).1 hok,
    by decide +kernel⟩

end SharedDevice
end Pdcm
