import Pdcm.Collection.OwnerIsolation
import Pdcm.Collection.PromptAccount

/-!
# Samples of a watch beside those of others

The jobs of a plan read each metric once for all watches that require it, with the shortest
of their periods, and every result counts for all of them. A watch that shares no metric with
one of a shorter period is counted at its own due times, as if it were alone: the count and
the removal at the limit do not depend on the other watches. A watch that shares a metric
with one of a shorter period is counted at the due times of that one.
-/

namespace Pdcm

open Library List CollectionPlan

namespace WatchManager

variable {watch : LogicalWatch} {m : WatchManager}

/-- No live watch that shares a metric with the requirement has a shorter period. -/
def NoShorter (m : WatchManager) (requirement : WatchRequirement) : Prop :=
  ∀ metric ∈ requirement.metrics, ∀ entry ∈ m.requiring metric,
    requirement.period ≤ entry.2.requirement.period

instance (m : WatchManager) (requirement : WatchRequirement) :
    Decidable (m.NoShorter requirement) :=
  inferInstanceAs (Decidable (∀ _ ∈ _, _))

theorem mem_requiring {mid : MetricId} {id : WatchId} :
    (id, watch) ∈ m.requiring mid ↔
      m.logical.find? id = some watch ∧ mid ∈ watch.requirement.metrics := by
  rw [requiring, mem_filter, OrderedMap.mem_entries_iff, decide_eq_true_eq]

theorem noShorter_of_only {w : WatchId} (hwa : m.logical.find? w = some watch)
    (hon : ∀ id ∈ m.logical.keys, id = w) : m.NoShorter watch.requirement := by
  rintro mid - ⟨id, other⟩ hen
  obtain ⟨hot, -⟩ := mem_requiring.mp hen
  obtain rfl := hon id (OrderedMap.mem_keys.mpr ⟨other, hot⟩)
  rw [Option.some.inj (hwa.symm.trans hot)]

/-- The merge of watches of which none has a shorter period than one of them. -/
theorem period_of_mergeOf {e : EffectiveWatch} {ws : List (WatchId × LogicalWatch)}
    (h : e.MergeOf ws) {w : WatchId} (hwa : (w, watch) ∈ ws)
    (hsh : ∀ entry ∈ ws, watch.requirement.period ≤ entry.2.requirement.period) :
    e.period = watch.requirement.period := by
  obtain ⟨hmem, hle⟩ := List.min?_eq_some_iff.mp h.period
  apply le_antisymm
  · exact hle _ (mem_map.mpr ⟨(w, watch), hwa, rfl⟩)
  · obtain ⟨entry, hen, hpe⟩ := mem_map.mp hmem
    rw [← hpe]
    exact hsh entry hen

section Plans

variable {w : WatchId} {plan : CollectionPlan}
  {limits : CollectionLimits}

theorem Coherent.job_period (h : m.Coherent) (hfo : m.Formed)
    (hwa : m.logical.find? w = some watch) (hsh : m.NoShorter watch.requirement)
    (hpl : plan.Partitions limits m.snapshot.effectiveWatches) {job : CollectionJob}
    (hjob : job ∈ plan.jobs) (hli : w ∈ job.watchIds) :
    job.period = watch.requirement.period := by
  obtain ⟨item, hit, hw⟩ := CollectionJob.mem_watchIds.mp hli
  rw [← ((hpl.uniform job hjob).shared item hit).2.1]
  obtain ⟨e, he, rfl⟩ :=
    mem_map.mp (hpl.items.mem_iff.mp (mem_flatMap.mpr ⟨job, hjob, hit⟩))
  change w ∈ e.logicalWatches at hw
  obtain ⟨-, hba | ⟨-, -, mid, -, hme⟩⟩ := h.effective (h.mem_effectiveWatches.mp he)
  · rw [hfo.unowned e hba] at hw
    cases hw
  · rw [hme.logicalWatches] at hw
    obtain ⟨⟨id, other⟩, hen, rfl⟩ := mem_map.mp hw
    obtain ⟨hot, hmet⟩ := mem_requiring.mp hen
    obtain rfl : watch = other := Option.some.inj (hwa.symm.trans hot)
    exact period_of_mergeOf hme hen (hsh mid hmet)

end Plans
end WatchManager

namespace Coordinator

variable {L : Limits}

/-- The coordinator has just compiled the snapshot of its watch manager, in which a watch with
the requirement is live, and nothing that counts for the watch is left from before. -/
structure Applied (before c : Coordinator L) (m : WatchManager) (w : WatchId)
    (requirement : WatchRequirement) (now : ℤ) : Prop where
  reachable : ∃ limits valid ops,
    runFrom WatchManager.apply (WatchManager.initial limits valid) ops = m
  manager : before.watchManager = some m
  installed : before.applyWatchSnapshot m.snapshot now = (c, .success)
  live : (m.logical.find? w).map LogicalWatch.requirement = some requirement
  version : m.snapshot.version ≠ uint64Max
  last : ∀ time ∈ m.lastSampleTimes.find? w, time ≤ now
  now_nonneg : 0 ≤ now
  settled : ∀ r ∈ c.owed, w ∉ r.job.watchIds
  running : c.shutdown = false

/-- The due times of the watch that `runDue` calls have passed are those up to a time. -/
def RanUpTo (c : Coordinator L) (w : WatchId) (time : ℤ) (steps : List (CoordinatorStep L)) :
    Prop :=
  ∀ job ∈ c.plan.jobs, w ∈ job.watchIds →
    dueCount c.plan job steps = c.plan.dueIndex job time

instance (c : Coordinator L) (w : WatchId) (time : ℤ) (steps : List (CoordinatorStep L)) :
    Decidable (c.RanUpTo w time steps) :=
  inferInstanceAs (Decidable (∀ _ ∈ _, _))

section Applied

variable {before c : Coordinator L} {m : WatchManager} {w : WatchId}
  {requirement : WatchRequirement} {now : ℤ} (h : Applied before c m w requirement now)

include h

theorem Applied.coherent : m.Coherent ∧ m.Formed := by
  obtain ⟨limits, valid, ops, rfl⟩ := h.reachable
  exact ⟨(WatchManager.run_settled limits valid ops).resolve_right h.version,
    invariant_run (fun _ op h => h.apply op) (WatchManager.initial_formed limits valid) ops⟩

theorem Applied.plan :
    c.plan.Partitions before.limits m.snapshot.effectiveWatches ∧ Installed before c now := by
  have hin : (before.applyWatchSnapshot m.snapshot now).2.ok = true := by
    rw [h.installed]
    rfl
  have hpa := (before.applyWatchSnapshot_partitions m.snapshot now).1 hin
  have hnew := applyWatchSnapshot_installed hin
  rw [h.installed] at hpa hnew
  exact ⟨hpa, hnew⟩

theorem Applied.planned (hsh : m.NoShorter requirement) :
    ∃ t : PlannedWatch, t.plan = c.plan ∧ t.id = w ∧ t.start = m.sampleCount w ∧
      t.limit = requirement.sampleLimit ∧ t.job.period = requirement.period ∧
      t.plan.createdAt = now ∧ t.Account c 0 := by
  obtain ⟨watch, hwa, rfl⟩ := Option.map_eq_some_iff.mp h.live
  obtain ⟨hcoh, hfo⟩ := h.coherent
  obtain ⟨hpl, hnew⟩ := h.plan
  obtain ⟨job, hjob, hlis⟩ : ∃ job ∈ c.plan.jobs, w ∈ job.watchIds := by
    obtain ⟨metric, hme⟩ := exists_mem_of_ne_nil _ (hfo.metrics w watch hwa)
    have hen : (w, watch) ∈ m.requiring metric := WatchManager.mem_requiring.mpr ⟨hwa, hme⟩
    obtain ⟨-, -, e, he, -, hmer⟩ := hcoh.metric (ne_nil_of_mem hen)
    obtain ⟨job, ⟨hjob, hit⟩, -⟩ := hpl.once e he
    refine ⟨job, hjob, CollectionJob.mem_watchIds.mpr ⟨e.planItem, hit, ?_⟩⟩
    change w ∈ e.logicalWatches
    rw [hmer.logicalWatches]
    exact mem_map_of_mem hen
  have hpe : ∀ other ∈ c.plan.jobs, w ∈ other.watchIds →
      other.period = watch.requirement.period := fun other hot hli =>
    hcoh.job_period hfo hwa hsh hpl hot hli
  have hal : ∀ other ∈ c.plan.jobs, w ∈ other.watchIds → other.period = job.period :=
    fun other hot hli => (hpe other hot hli).trans (hpe job hjob hlis).symm
  have hno : owedFor w c.owed = [] := owedFor_eq_nil h.settled
  refine ⟨⟨c.plan, job, w, m.sampleCount w, watch.requirement.sampleLimit, hnew.wellFormed,
    hnew.createdAt ▸ h.now_nonneg, hjob, hlis, hal⟩, rfl, rfl, rfl, rfl,
    hpe job hjob hlis, hnew.createdAt, rfl, hnew.version_eq, h.running, ?_, by simp,
    by simp [hno], m, hnew.watchManager_eq.trans h.manager, .inl ?_⟩
  · intro other hot hli
    rw [hnew.firstDue hot, dueTime, hal other hot hli]
    rfl
  · refine ⟨⟨watch, hwa, rfl⟩, rfl, fun hexh => lt_irrefl 0 hexh.1, ?_, by simp, hcoh.within⟩
    intro time hti
    have hla := h.last time hti
    rw [← hnew.createdAt] at hla
    simpa [PlannedWatch.dueTime, dueTime] using hla

/-- How many periods have passed since the plan was created settles whether the watch is live
and what is counted for it. -/
theorem Applied.run {time : ℤ} {steps : List (CoordinatorStep L)}
    (hsh : m.NoShorter requirement) (hpr : Along step (fun c a => c.Live w → Prompt w c a) c steps)
    (hran : c.RanUpTo w time steps)
    (hse : ∀ r ∈ (runFrom step c steps).owed, w ∉ r.job.watchIds) :
    let passed := ((time - now) / requirement.period).toNat
    ∃ t : PlannedWatch, t.start = m.sampleCount w ∧ t.limit = requirement.sampleLimit ∧
      ((runFrom step c steps).Live w ↔ ¬t.Exhausted passed) ∧
      ((runFrom step c steps).Live w →
        (runFrom step c steps).sampleCount w = t.countAfter passed) := by
  obtain ⟨t, hpl, rfl, hst, hlim, hpe, hcr, hac⟩ := h.planned hsh
  have hpa : dueCount t.plan t.job steps = ((time - now) / requirement.period).toNat := by
    rw [hpl, hran t.job (hpl ▸ t.job_mem) t.listed, ← hpl, dueIndex, hcr, hpe]
  have hrun := PlannedWatch.Account.run (.inl hac) hpr
  obtain ⟨hli, hco⟩ := PlannedWatch.Account.settled hrun hse
  rw [← dueCount, hpa] at hli hco
  exact ⟨t, hst, hlim, hli, hco⟩

end Applied

/-- The samples counted for a watch, and whether it is live, are the same beside other watches
as they are in a run with the watch alone, if none of those that share a metric with it has a
shorter period: at every time at which what was due up to then has been recorded, in all runs
that are prompt as long as the watch is live. -/
theorem run_sampleCount_eq_alone {L' : Limits} {before c : Coordinator L}
    {before' alone : Coordinator L'} {m m' : WatchManager} {w w' : WatchId}
    {requirement : WatchRequirement} {now time : ℤ} {steps : List (CoordinatorStep L)}
    {steps' : List (CoordinatorStep L')} (happlied : Applied before c m w requirement now)
    (halone : Applied before' alone m' w' requirement now)
    (honly : ∀ id ∈ m'.logical.keys, id = w') (hstart : m.sampleCount w = m'.sampleCount w')
    (hshorter : m.NoShorter requirement)
    (hprompt : Along step (fun c a => c.Live w → Prompt w c a) c steps)
    (hprompt' : Along step (fun c a => c.Live w' → Prompt w' c a) alone steps')
    (hran : c.RanUpTo w time steps) (hran' : alone.RanUpTo w' time steps')
    (hsettled : ∀ r ∈ (runFrom step c steps).owed, w ∉ r.job.watchIds)
    (hsettled' : ∀ r ∈ (runFrom step alone steps').owed, w' ∉ r.job.watchIds) :
    ((runFrom step c steps).Live w ↔ (runFrom step alone steps').Live w') ∧
      ((runFrom step c steps).Live w →
        (runFrom step c steps).sampleCount w = (runFrom step alone steps').sampleCount w') := by
  have hshorter' : m'.NoShorter requirement := by
    obtain ⟨watch, hwatch, rfl⟩ := Option.map_eq_some_iff.mp halone.live
    exact WatchManager.noShorter_of_only hwatch honly
  obtain ⟨t, htstart, htlimit, hlive, hcount⟩ := happlied.run hshorter hprompt hran hsettled
  obtain ⟨t', htstart', htlimit', hlive', hcount'⟩ :=
    halone.run hshorter' hprompt' hran' hsettled'
  have hsame : t.start = t'.start := by rw [htstart, hstart, htstart']
  have hiff : (runFrom step c steps).Live w ↔ (runFrom step alone steps').Live w' := by
    rw [hlive, hlive', PlannedWatch.Exhausted, PlannedWatch.Exhausted, htlimit, htlimit',
      PlannedWatch.countAfter_congr hsame]
  refine ⟨hiff, fun hw => ?_⟩
  rw [hcount hw, hcount' (hiff.mp hw), PlannedWatch.countAfter_congr hsame]

end Coordinator

/-! ### A watch of two jobs -/

namespace SharedDevice

open WatchManager Coordinator

/-- One client watches both metrics every 20 ns, for two samples; another may watch metric 7. -/
def neighbours (others : List WatchRequirement) : WatchManager :=
  runFrom WatchManager.apply (initial {} WatchLimits.validate_default)
    (.activateCatalog (some (view 1)) target :: .create (client 1) (requirement [7, 8] 20 2) ::
      others.map (.create (client 2)))

/-- Each job reads one metric. -/
def singly (m : WatchManager) : Coordinator storeLimits :=
  { coordinator m with limits := { maxBatchItems := 1 }, valid := rfl }

def compiled (others : List WatchRequirement) : Coordinator storeLimits × Status :=
  (singly (neighbours others)).applyWatchSnapshot (neighbours others).snapshot 0

/-- What is due at each of the times is run and recorded. -/
def served (times : List ℤ) : List (CoordinatorStep storeLimits) :=
  times.flatMap fun time => .runDue time ::
    (List.replicate 2 [.workerTake, .workerNote, .workerRelease, .workerComplete .success]).flatten

def slower : List WatchRequirement := [requirement [7] 30 0]

def faster : List WatchRequirement := [requirement [7] 10 0]

theorem compiled_applied {rest : List WatchRequirement} (h : rest ∈ [[], slower, faster]) :
    Applied (singly (neighbours rest)) (compiled rest).1 (neighbours rest) 1
      (requirement [7, 8] 20 2) 0 := by
  have hst : ∀ rest ∈ [[], slower, faster], (compiled rest).2 = .success := by
    decide +kernel
  have hwa : ∀ rest ∈ [[], slower, faster],
      ((neighbours rest).logical.find? 1).map LogicalWatch.requirement =
        some (requirement [7, 8] 20 2) ∧
      (neighbours rest).snapshot.version ≠ uint64Max ∧
      (neighbours rest).lastSampleTimes.find? 1 = none := by
    decide +kernel
  have hid : ∀ rest ∈ [[], slower, faster],
      (compiled rest).1.owed = [] ∧ (compiled rest).1.shutdown = false := by
    decide +kernel
  obtain ⟨hli, hver, hla⟩ := hwa rest h
  obtain ⟨how, hru⟩ := hid rest h
  exact ⟨⟨_, _, _, rfl⟩, rfl, Prod.ext rfl (hst rest h), hli, hver,
    fun time hti => by simp [hla] at hti, le_rfl, by simp [how], hru⟩

/-- The watch is served promptly up to the time, and nothing is left to record for it. -/
def ServedUpTo (time : ℤ) (times : List ℤ) (others : List WatchRequirement) : Prop :=
  Along step (fun c a => c.Live 1 → Prompt 1 c a) (compiled others).1 (served times) ∧
    (compiled others).1.RanUpTo 1 time (served times) ∧
    ∀ r ∈ (runFrom step (compiled others).1 (served times)).owed, 1 ∉ r.job.watchIds

instance (time : ℤ) (times : List ℤ) (others : List WatchRequirement) :
    Decidable (ServedUpTo time times others) :=
  inferInstanceAs (Decidable (_ ∧ _ ∧ _))

/-- The slower neighbour shares a job of the watch and changes nothing: the watch is removed by
the second due time of its two jobs. -/
theorem slower_neighbour :
    ((runFrom step (compiled slower).1 (served [20])).Live 1 ∧
      (runFrom step (compiled slower).1 (served [20])).sampleCount 1 =
        (runFrom step (compiled []).1 (served [20])).sampleCount 1) ∧
    ¬(runFrom step (compiled slower).1 (served [20, 40])).Live 1 := by
  have happlied : Applied _ (compiled slower).1 _ _ _ 0 := compiled_applied (by simp)
  have halone : Applied _ (compiled []).1 _ _ _ 0 := compiled_applied (by simp)
  have honly : ∀ id ∈ (neighbours []).logical.keys, id = 1 := by decide +kernel
  have hstart : (neighbours slower).sampleCount 1 = (neighbours []).sampleCount 1 := by
    decide +kernel
  have hshorter : (neighbours slower).NoShorter (requirement [7, 8] 20 2) := by decide +kernel
  have hserved : ∀ others ∈ [[], slower],
      ServedUpTo 20 [20] others ∧ ServedUpTo 40 [20, 40] others := by
    decide +kernel
  obtain ⟨⟨halone20, haloneRan20, haloneOwed20⟩, halone40, haloneRan40, haloneOwed40⟩ :=
    hserved [] (by simp)
  obtain ⟨⟨hprompt20, hran20, howed20⟩, hprompt40, hran40, howed40⟩ := hserved slower (by simp)
  constructor
  · have hlive : (runFrom step (compiled slower).1 (served [20])).Live 1 := by decide +kernel
    exact ⟨hlive, (run_sampleCount_eq_alone happlied halone honly hstart hshorter hprompt20
      halone20 hran20 haloneRan20 howed20 haloneOwed20).2 hlive⟩
  · have hgone : ¬(runFrom step (compiled []).1 (served [20, 40])).Live 1 := by decide +kernel
    exact mt (run_sampleCount_eq_alone happlied halone honly hstart hshorter hprompt40 halone40
      hran40 haloneRan40 howed40 haloneOwed40).1.mp hgone

/-- The faster neighbour doubles the samples of the watch: it is removed at 20, at a time when
alone it has one sample. -/
theorem faster_neighbour :
    Applied (singly (neighbours faster)) (compiled faster).1 (neighbours faster) 1
        (requirement [7, 8] 20 2) 0 ∧
      Applied (singly (neighbours [])) (compiled []).1 (neighbours []) 1
        (requirement [7, 8] 20 2) 0 ∧
      (∀ id ∈ (neighbours []).logical.keys, id = 1) ∧
      (neighbours faster).sampleCount 1 = (neighbours []).sampleCount 1 ∧
      Along step (fun c a => c.Live 1 → Prompt 1 c a) (compiled faster).1 (served [10, 20]) ∧
      Along step (fun c a => c.Live 1 → Prompt 1 c a) (compiled []).1 (served [10, 20]) ∧
      (compiled faster).1.RanUpTo 1 20 (served [10, 20]) ∧
      (compiled []).1.RanUpTo 1 20 (served [10, 20]) ∧
      (runFrom step (compiled faster).1 (served [10, 20])).owed = [] ∧
      (runFrom step (compiled []).1 (served [10, 20])).owed = [] ∧
      ¬(runFrom step (compiled faster).1 (served [10, 20])).Live 1 ∧
      (runFrom step (compiled []).1 (served [10, 20])).Live 1 ∧
      (runFrom step (compiled []).1 (served [10, 20])).sampleCount 1 = 1 :=
  ⟨compiled_applied (by simp), compiled_applied (by simp), by decide +kernel⟩

end SharedDevice
end Pdcm
