import Pdcm.Library.BlockLedger
import Pdcm.Collection.CoordinatorRuns

/-!
# The account of a watch

Due times of a job are numbered from the creation of the plan. The account of a watch says
that each of the first ones is counted for the watch or owed by the coordinator, and not
both. Due jobs extend it and recordings settle it; it does not depend on where the owed
results are kept.
-/

namespace Pdcm

open Library List WatchManager CollectionPlan CollectionTask

variable {w : WatchId} {r : LogicalResult}

/-! ### Due times -/

namespace CollectionPlan

variable {k n : ℕ}

/-- The `k`-th due time of a job. -/
def dueTime (plan : CollectionPlan) (job : CollectionJob) (k : ℕ) : ℤ :=
  plan.createdAt + job.period * k

/-- The number of due times of a job up to `t`. -/
def dueIndex (plan : CollectionPlan) (job : CollectionJob) (t : ℤ) : ℕ :=
  ((t - plan.createdAt) / job.period).toNat

variable {plan : CollectionPlan} {job : CollectionJob}

theorem lt_dueIndex_iff (hpe : 0 < job.period) {t : ℤ} :
    k < plan.dueIndex job t ↔ plan.dueTime job (k + 1) ≤ t := by
  rw [dueIndex, Int.lt_toNat, ← Int.add_one_le_iff, Int.le_ediv_iff_mul_le hpe, dueTime]
  push_cast
  constructor <;> intro h <;> linarith

theorem dueIndex_dueTime (hpe : 0 < job.period) (k : ℕ) :
    plan.dueIndex job (plan.dueTime job k) = k := by
  simp [dueIndex, dueTime, Int.mul_ediv_cancel_left _ hpe.ne']

theorem dueTime_add (plan : CollectionPlan) (job : CollectionJob) (k n : ℕ) :
    plan.dueTime job (k + n) = plan.dueTime job k + job.period * n := by
  simp only [dueTime, Nat.cast_add]
  ring

theorem dueTime_le_dueTime (hpe : 0 < job.period) :
    plan.dueTime job k ≤ plan.dueTime job n ↔ k ≤ n := by
  rw [dueTime, dueTime, add_le_add_iff_left, mul_le_mul_iff_of_pos_left hpe, Nat.cast_le]

/-- The due times passed since the next one was `n + 1` bring the number to that of `now`. -/
theorem add_dueSteps (hpe : 0 < job.period) {now : ℤ} (h : plan.dueTime job (n + 1) ≤ now) :
    n + Coordinator.dueSteps (plan.dueTime job (n + 1)) job.period now = plan.dueIndex job now := by
  have hdiv : (now - plan.createdAt) / job.period =
      (now - plan.dueTime job (n + 1)) / job.period + (n + 1 : ℕ) := by
    rw [← Int.add_mul_ediv_right _ _ hpe.ne', dueTime]
    congr 1
    ring
  have hno : 0 ≤ (now - plan.dueTime job (n + 1)) / job.period :=
    Int.ediv_nonneg (by linarith) hpe.le
  rw [dueIndex, Coordinator.dueSteps]
  omega

end CollectionPlan

/-! ### The account of a watch -/

/-- The due times of a result as numbers. -/
def LogicalResult.block (plan : CollectionPlan) (job : CollectionJob) (r : LogicalResult) : Block :=
  ⟨plan.dueIndex job r.firstScheduledTime, r.sampleCount⟩

/-- The owed results that count for a watch. -/
def owedFor (w : WatchId) (owed : List LogicalResult) : List LogicalResult :=
  owed.filter fun r => decide (w ∈ r.job.watchIds)

/-- The watch is live and unlimited; `settled` due times up to number `mark` were counted
for it, on top of `start`. -/
structure Counted (plan : CollectionPlan) (job : CollectionJob) (w : WatchId) (start : ℕ)
    (m : WatchManager) (mark settled : ℕ) : Prop where
  live : ∃ watch, m.logical.find? w = some watch ∧ watch.requirement.sampleLimit = 0
  last : ∀ t, m.lastSampleTimes.find? w = some t → t ≤ plan.dueTime job mark
  count_eq : m.sampleCount w = min uint64Max (start + settled)
  within : m.WithinLimits

theorem Counted.of_tally {plan : CollectionPlan} {job : CollectionJob} {start : ℕ}
    {m m' : WatchManager} {mark settled : ℕ} (h : Counted plan job w start m mark settled)
    (hta : m'.tally w = m.tally w) (hwi : m'.WithinLimits) :
    Counted plan job w start m' mark settled := by
  simp only [tally, Prod.mk.injEq] at hta
  obtain ⟨hlog, hco, hti⟩ := hta
  refine ⟨hlog ▸ h.live, hti ▸ h.last, ?_, hwi⟩
  rw [sampleCount, hco]
  exact h.count_eq

/-- Of the first `n` due times of the job, each is counted for the watch or owed, not both. -/
structure SampleAccount {L : Limits} (plan : CollectionPlan) (job : CollectionJob) (w : WatchId)
    (start : ℕ) (c : Coordinator L) (owed : List LogicalResult) (n : ℕ) : Prop where
  plan_eq : c.plan = plan
  version_eq : c.scheduledPlanVersion = plan.version
  running : c.shutdown = false
  due : c.nextDue.find? job.id = some (plan.dueTime job (n + 1))
  in_range : ∀ k < n, plan.dueTime job (k + 1) ≤ int64Max
  owed_job : ∀ r ∈ owedFor w owed, r.job = job ∧
    r.firstScheduledTime = plan.dueTime job (r.block plan job).start
  counted : ∃ m mark settled, c.watchManager = some m ∧ Counted plan job w start m mark settled ∧
    Ledger n mark settled ((owedFor w owed).map (LogicalResult.block plan job))

/-- The job of the plan that alone lists the watch. -/
structure ListedOnly (plan : CollectionPlan) (job : CollectionJob) (w : WatchId) : Prop where
  wellFormed : plan.WellFormed
  created_nonneg : 0 ≤ plan.createdAt
  job_mem : job ∈ plan.jobs
  listed : w ∈ job.watchIds
  only : ∀ other ∈ plan.jobs, w ∈ other.watchIds → other = job

theorem mem_owedFor {owed : List LogicalResult} :
    r ∈ owedFor w owed ↔ r ∈ owed ∧ w ∈ r.job.watchIds := by
  simp [owedFor]

theorem owedFor_append (w : WatchId) (owed owed' : List LogicalResult) :
    owedFor w (owed ++ owed') = owedFor w owed ++ owedFor w owed' := by
  simp [owedFor]

theorem owedFor_cons_of_mem (h : w ∈ r.job.watchIds) (owed : List LogicalResult) :
    owedFor w (r :: owed) = r :: owedFor w owed := by
  simp [owedFor, h]

theorem owedFor_cons_of_notMem (h : w ∉ r.job.watchIds) (owed : List LogicalResult) :
    owedFor w (r :: owed) = owedFor w owed := by
  simp [owedFor, h]

theorem owedFor_congr {owed owed' : List LogicalResult} (w : WatchId) (h : owed.Perm owed') :
    (owedFor w owed).Perm (owedFor w owed') :=
  h.filter _

theorem owedFor_eq_nil {owed : List LogicalResult} (h : ∀ r ∈ owed, w ∉ r.job.watchIds) :
    owedFor w owed = [] := by
  simpa [owedFor] using h

namespace SampleAccount

open Coordinator

variable {L : Limits} {plan : CollectionPlan} {job : CollectionJob} {start n : ℕ}
  {c : Coordinator L} {owed owed' : List LogicalResult} {mark settled : ℕ} {now : ℤ} {d : DueRun L}
  {current : CollectionPlan} {evicted : List CollectionTask}
  {issued : List LogicalResult} {d' : DueRun L} {m : WatchManager}

theorem congr {c' : Coordinator L} (h : SampleAccount plan job w start c owed n)
    (hsa : SameSchedule c c') (hpe : (owedFor w owed').Perm (owedFor w owed)) :
    SampleAccount plan job w start c' owed' n := by
  obtain ⟨m, mark, settled, hm, hco, hle⟩ := h.counted
  refine ⟨hsa.plan_eq.trans h.plan_eq, hsa.version_eq.trans h.version_eq,
    hsa.shutdown_eq.trans h.running, ?_, h.in_range, ?_, ?_⟩
  · rw [hsa.nextDue_eq]
    exact h.due
  · intro r hr
    exact h.owed_job r (hpe.mem_iff.mp hr)
  · refine ⟨m, mark, settled, hsa.watchManager_eq.trans hm, hco, ?_⟩
    exact hle.perm (hpe.symm.map _)

/-! ### Due jobs -/

/-- What is owed for the watch after work for it was issued and no task of it evicted. -/
theorem owedFor_perm (hpe : (evicted.map result ++ owed').Perm (issued ++ owed))
    (hev : ∀ t ∈ evicted, w ∉ t.job.watchIds) :
    (owedFor w owed').Perm (owedFor w issued ++ owedFor w owed) := by
  have hno : owedFor w (evicted.map result) = [] := by
    apply owedFor_eq_nil
    intro r hr
    obtain ⟨t, ht, rfl⟩ := mem_map.mp hr
    exact hev t ht
  have hfor := owedFor_congr w hpe
  rwa [owedFor_append, owedFor_append, hno] at hfor

theorem owedFor_perm_of_fresh {fresh : List LogicalResult}
    (hfr : ∀ r ∈ fresh, r.job.watchIds = [])
    (hpe : (evicted.map result ++ owed').Perm (fresh ++ owed))
    (hev : ∀ t ∈ evicted, w ∉ t.job.watchIds) : (owedFor w owed').Perm (owedFor w owed) := by
  have hno : owedFor w fresh = [] := owedFor_eq_nil fun r hr => by simp [hfr r hr]
  have hnew := owedFor_perm hpe hev
  rwa [hno] at hnew

/-- The results issued for the job carry on where the account ends. -/
theorem ledger_issued {steps : ℕ} {blocks : List Block} (hpe : 0 < job.period)
    (h : Ledger n mark settled blocks) (hst : 0 < steps)
    (his : Issued job (plan.dueTime job (n + 1)) steps issued) :
    Ledger (n + steps) mark settled (issued.map (LogicalResult.block plan job) ++ blocks) ∧
      ∀ r ∈ issued, r.job = job ∧
        r.firstScheduledTime = plan.dueTime job (r.block plan job).start := by
  have hfi := plan.dueIndex_dueTime hpe (n + 1)
  obtain rfl | ⟨hma, rfl⟩ := his
  · constructor
    · simpa [LogicalResult.block, hfi] using h.issue hst
    · simp [LogicalResult.block, hfi]
  · have hla : plan.dueTime job (n + 1) + job.period * (steps - 1 : ℕ) =
        plan.dueTime job (n + steps) := by
      rw [← plan.dueTime_add]
      congr 1
      omega
    have hin := plan.dueIndex_dueTime hpe (n + steps)
    constructor
    · have hle := (h.issue (Nat.sub_pos_of_lt hma)).issue Nat.one_pos
      have hn : n + (steps - 1) + 1 = n + steps := by omega
      rw [hn] at hle
      simpa [LogicalResult.block, hfi, hla, hin] using hle
    · simp [LogicalResult.block, hfi, hla, hin]

section RanJob

variable {firstDue : ℤ} {other : CollectionJob}
  (h : SampleAccount plan job w start d.coordinator (d.coordinator.owed ++ d.logicalResults) n)
  (hev : ∀ t ∈ d'.evicted, w ∉ t.job.watchIds)
include h hev

theorem ranJob (hpe : 0 < job.period) (hw : w ∈ job.watchIds) (hra : now ≤ int64Max)
    (hran : RanJob now d d' job firstDue) :
    SampleAccount plan job w start d'.coordinator (d'.coordinator.owed ++ d'.logicalResults)
      (plan.dueIndex job now) := by
  obtain ⟨evicted, issued, hgr, his, hper⟩ := hran.owed_perm
  obtain ⟨m, mark, settled, hm, hco, hle⟩ := h.counted
  obtain rfl : plan.dueTime job (n + 1) = firstDue :=
    Option.some.inj (h.due.symm.trans hran.due)
  have hin := add_dueSteps hpe hran.passed
  have hnew := owedFor_perm hper fun t ht => hev t (by simp [hgr, ht])
  obtain ⟨hle', hjob⟩ := ledger_issued hpe hle (Nat.succ_pos _) his
  have hall : owedFor w issued = issued := by
    refine filter_eq_self.mpr fun r hr => ?_
    rw [(hjob r hr).1]
    exact decide_eq_true hw
  rw [hall] at hnew
  refine ⟨hran.same.plan_eq.trans h.plan_eq, hran.same.version_eq.trans h.version_eq,
    hran.same.shutdown_eq.trans h.running, ?_, ?_, ?_, ?_⟩
  · rw [hran.same.nextDue_eq, moveDue, OrderedMap.find?_insert_self, ← plan.dueTime_add]
    congr 2
    omega
  · intro k hk
    exact ((lt_dueIndex_iff hpe).mp hk).trans hra
  · intro r hr
    rcases mem_append.mp (hnew.mem_iff.mp hr) with hr | hr
    · exact hjob r hr
    · exact h.owed_job r hr
  · refine ⟨m, mark, settled, hran.same.watchManager_eq.trans hm, hco, ?_⟩
    rw [← hin]
    refine hle'.perm ?_
    rw [← map_append]
    exact hnew.symm.map _

theorem ranOther (hid : job.id ≠ other.id) (hw : w ∉ other.watchIds)
    (hran : RanJob now d d' other firstDue) :
    SampleAccount plan job w start d'.coordinator (d'.coordinator.owed ++ d'.logicalResults) n := by
  obtain ⟨evicted, issued, hgr, his, hpe⟩ := hran.owed_perm
  obtain ⟨m, mark, settled, hm, hco, hle⟩ := h.counted
  have hnew := owedFor_perm hpe fun t ht => hev t (by simp [hgr, ht])
  have hno : owedFor w issued = [] := by
    apply owedFor_eq_nil
    obtain rfl | ⟨-, rfl⟩ := his <;> simp [hw]
  rw [hno] at hnew
  refine ⟨hran.same.plan_eq.trans h.plan_eq, hran.same.version_eq.trans h.version_eq,
    hran.same.shutdown_eq.trans h.running, ?_, h.in_range, ?_, ?_⟩
  · rw [hran.same.nextDue_eq, moveDue, OrderedMap.find?_insert_of_ne _ hid]
    exact h.due
  · intro r hr
    exact h.owed_job r (hnew.mem_iff.mp hr)
  · exact ⟨m, mark, settled, hran.same.watchManager_eq.trans hm, hco, hle.perm (hnew.symm.map _)⟩

end RanJob

theorem evicted_of_foldl_runJob (jobs : List CollectionJob) {t : CollectionTask}
    (h : t ∈ d.evicted) :
    t ∈ (jobs.foldl (runJob current now) d).evicted := by
  induction jobs generalizing d with
  | nil => exact h
  | cons other rest ih =>
    apply ih
    obtain ⟨heq, -⟩ | ⟨due, hran⟩ := runJob_cases current now d other
    · rwa [heq]
    · obtain ⟨evicted, -, hgr, -⟩ := hran.owed_perm
      simp [hgr, h]

theorem foldl_runJob_others {jobs : List CollectionJob}
    (hot : ∀ other ∈ jobs, job.id ≠ other.id ∧ w ∉ other.watchIds)
    (h : SampleAccount plan job w start d.coordinator (d.coordinator.owed ++ d.logicalResults) n)
    (hev : ∀ t ∈ (jobs.foldl (runJob current now) d).evicted, w ∉ t.job.watchIds) :
    let d' := jobs.foldl (runJob current now) d
    SampleAccount plan job w start d'.coordinator (d'.coordinator.owed ++ d'.logicalResults) n := by
  induction jobs generalizing d with
  | nil => exact h
  | cons other rest ih =>
    refine ih (fun o ho => hot o (mem_cons_of_mem _ ho)) ?_ hev
    obtain ⟨hid, hw⟩ := hot other mem_cons_self
    obtain ⟨heq, -⟩ | ⟨due, hran⟩ := runJob_cases current now d other
    · rwa [heq]
    · exact h.ranOther (fun t ht => hev t (evicted_of_foldl_runJob rest ht)) hid hw hran

theorem runJob_self (hli : ListedOnly plan job w) (hra : now ≤ int64Max)
    (h : SampleAccount plan job w start d.coordinator (d.coordinator.owed ++ d.logicalResults) n)
    (hev : ∀ t ∈ (runJob current now d job).evicted, w ∉ t.job.watchIds) :
    let d' := runJob current now d job
    SampleAccount plan job w start d'.coordinator (d'.coordinator.owed ++ d'.logicalResults)
      (max n (plan.dueIndex job now)) := by
  have hpe := hli.wellFormed.period_pos job hli.job_mem
  have hlt : n < plan.dueIndex job now ↔ plan.dueTime job (n + 1) ≤ now :=
    lt_dueIndex_iff hpe
  obtain ⟨heq, hea⟩ | ⟨firstDue, hran⟩ := runJob_cases current now d job
  · have hnow := hea _ h.due
    rw [max_eq_left (not_lt.mp (mt hlt.mp (not_le.mpr hnow)))]
    rwa [heq]
  · have hpa := hran.passed
    rw [← Option.some.inj (h.due.symm.trans hran.due)] at hpa
    rw [max_eq_right (hlt.mpr hpa).le]
    exact h.ranJob hev hpe hli.listed hra hran

theorem dueLoop (hli : ListedOnly plan job w) (hra : now ≤ int64Max)
    (h : SampleAccount plan job w start c c.owed n)
    (hev : ∀ t ∈ (c.dueLoop plan now).evicted, w ∉ t.job.watchIds) :
    let d := c.dueLoop plan now
    SampleAccount plan job w start d.coordinator (d.coordinator.owed ++ d.logicalResults)
      (max n (plan.dueIndex job now)) := by
  obtain ⟨b, after, hsp⟩ := append_of_mem hli.job_mem
  have hids := hli.wellFormed.ids_nodup
  rw [hsp, map_append, map_cons, nodup_middle, ← map_append] at hids
  have hot : ∀ other ∈ b ++ after, job.id ≠ other.id ∧ w ∉ other.watchIds := by
    intro other hoth
    have hne : job.id ≠ other.id := fun heq =>
      (nodup_cons.mp hids).1 (heq ▸ mem_map_of_mem hoth)
    have hmem : other ∈ plan.jobs := by
      rw [hsp]
      exact perm_middle.mem_iff.mpr (mem_cons_of_mem _ hoth)
    exact ⟨hne, fun hw => hne (hli.only other hmem hw ▸ rfl)⟩
  have hsy : c.synchronizePlan plan = c := by
    rw [synchronizePlan, if_pos h.version_eq]
  rw [Coordinator.dueLoop, hsy, hsp, foldl_append, foldl_cons] at hev ⊢
  -- the jobs after it, the job itself, the jobs before it
  refine foldl_runJob_others (fun o ho => hot o (mem_append_right _ ho)) ?_ hev
  refine runJob_self hli hra ?_ fun t ht => hev t (evicted_of_foldl_runJob after ht)
  refine foldl_runJob_others (fun o ho => hot o (mem_append_left _ ho)) ?_
    fun t ht => hev t (evicted_of_foldl_runJob (job :: after) ht)
  simpa using h

theorem runDue (hli : ListedOnly plan job w) (h : SampleAccount plan job w start c c.owed n)
    (hnow : 0 ≤ now) (hra : now ≤ int64Max)
    (hev : ∀ t ∈ c.evictedBy (.runDue now), w ∉ t.job.watchIds) :
    SampleAccount plan job w start (c.step (.runDue now)) (c.step (.runDue now)).owed
      (max n (plan.dueIndex job now)) := by
  obtain ⟨summary, heq⟩ := runDueLocked_eq c.plan hnow h.running
  rw [evictedBy, heq, h.plan_eq] at hev
  rw [step, heq, h.plan_eq, owed_unlock]
  have hlo := dueLoop hli hra h hev
  exact ⟨hlo.plan_eq, hlo.version_eq, hlo.running, hlo.due, hlo.in_range, hlo.owed_job, hlo.counted⟩

/-! ### Recordings -/

theorem counted_recordSamples (hpe : 0 < job.period)
    (h : Counted plan job w start m mark settled) (hw : w ∈ r.job.watchIds) (hjob : r.job = job)
    (hfi : r.firstScheduledTime = plan.dueTime job (r.block plan job).start)
    (hab : mark < (r.block plan job).start) (hpos : 0 < r.sampleCount)
    (hok : (m.recordSamples r.job.watchIds r.firstScheduledTime r.job.period
      r.sampleCount).2.ok = true) :
    Counted plan job w start
      (m.recordSamples r.job.watchIds r.firstScheduledTime r.job.period r.sampleCount).1
      ((r.block plan job).start + r.sampleCount - 1) (settled + r.sampleCount) := by
  obtain ⟨watch, hliv, hli⟩ := h.live
  have hnew : ∀ t, m.lastSampleTimes.find? w = some t → t < r.firstScheduledTime := by
    intro t ht
    rw [hfi]
    exact (h.last t ht).trans_lt (lt_of_not_ge ((dueTime_le_dueTime hpe).not.mpr hab.not_ge))
  have hta := recordSamples_tally_of_mem hok hw
  rw [tally, tally, hliv, recordTally_new hpos hnew,
    if_neg (by simp [hli])] at hta
  simp only [Prod.mk.injEq] at hta
  obtain ⟨hlog, hcou, hti⟩ := hta
  refine ⟨⟨watch, hlog, hli⟩, ?_, ?_, recordSamples_withinLimits h.within _ _ _ _⟩
  · intro t ht
    have hla := Option.some.inj (ht.symm.trans hti)
    rw [hla, hfi, hjob, ← plan.dueTime_add, dueTime_le_dueTime hpe]
    omega
  · have hco := h.count_eq
    rw [sampleCount] at hco ⊢
    rw [hcou, Option.getD_some]
    omega

theorem recordSamples_accepted (hli : ListedOnly plan job w)
    (h : SampleAccount plan job w start c owed n) (hco : Counted plan job w start m mark settled)
    (hle : Ledger n mark settled ((owedFor w owed).map (LogicalResult.block plan job)))
    (hr : r ∈ owedFor w owed) (hver : m.snapshot.version ≠ uint64Max) :
    (m.recordSamples r.job.watchIds r.firstScheduledTime r.job.period r.sampleCount).2 =
      .success := by
  have hpe := hli.wellFormed.period_pos job hli.job_mem
  obtain ⟨hjob, hgr⟩ := h.owed_job r hr
  have hw := (mem_owedFor.mp hr).2
  have hbl := mem_map_of_mem hr (f := LogicalResult.block plan job)
  have hab := hle.above _ hbl
  have hbe := hle.below _ hbl
  have hpos : 0 < r.sampleCount := hle.count_pos _ hbl
  have hfi : 0 ≤ r.firstScheduledTime := by
    rw [hgr]
    exact add_nonneg hli.created_nonneg (mul_nonneg hpe.le (Nat.cast_nonneg _))
  have hla : r.firstScheduledTime + r.job.period * (r.sampleCount - 1 : ℕ) ≤ int64Max := by
    have hin : (r.block plan job).start + (r.sampleCount - 1) =
        (r.block plan job).start + r.sampleCount - 2 + 1 := by omega
    rw [hgr, hjob, ← plan.dueTime_add, hin]
    apply h.in_range
    change (r.block plan job).start + r.sampleCount ≤ n + 1 at hbe
    omega
  have hch := checkToken_of_range (ne_nil_of_mem hw) r.job.watchIds_nodup
    hfi (hjob ▸ hpe) hpos hla
  obtain ⟨watch, hliv, -⟩ := hco.live
  exact recordSamples_success hch hco.within hver hw (by simp [hliv])

theorem record_self (hli : ListedOnly plan job w) (h : SampleAccount plan job w start c owed n)
    (hper : owed.Perm (r :: owed')) (hw : w ∈ r.job.watchIds)
    (hfi : ∀ r' ∈ owed, w ∈ r'.job.watchIds → r.firstScheduledTime ≤ r'.firstScheduledTime)
    (hver : ∀ m ∈ c.watchManager, m.snapshot.version ≠ uint64Max) :
    SampleAccount plan job w start (c.noteLogicalResults r).1 owed' n := by
  have hpe := hli.wellFormed.period_pos job hli.job_mem
  obtain ⟨m, mark, settled, hm, hco, hled⟩ := h.counted
  have hfor : (owedFor w owed).Perm (r :: owedFor w owed') := by
    rw [← owedFor_cons_of_mem hw]
    exact owedFor_congr w hper
  have hr : r ∈ owedFor w owed := hfor.mem_iff.mpr mem_cons_self
  have how : ∀ r' ∈ owedFor w owed', r' ∈ owedFor w owed := fun r' hr' =>
    hfor.mem_iff.mpr (mem_cons_of_mem _ hr')
  obtain ⟨hjob, hgr⟩ := h.owed_job r hr
  have hacc := h.recordSamples_accepted hli hco hled hr (hver m hm)
  have hle' := hled.perm (hfor.map (LogicalResult.block plan job))
  have hab := hle'.above _ mem_cons_self
  have hpos := hle'.count_pos _ mem_cons_self
  have hlo : ∀ b ∈ (owedFor w owed').map (LogicalResult.block plan job),
      (r.block plan job).start ≤ b.start := by
    intro b hb
    obtain ⟨r', hr', rfl⟩ := mem_map.mp hb
    have hmem := mem_owedFor.mp (how r' hr')
    have hle := hfi r' hmem.1 hmem.2
    rwa [hgr, (h.owed_job r' (how r' hr')).2, dueTime_le_dueTime hpe] at hle
  rw [noteLogicalResults_eq]
  refine ⟨h.plan_eq, h.version_eq, h.running, h.due, h.in_range,
    fun r' hr' => h.owed_job r' (how r' hr'), _, _, _, noteLogicalResults_recordSamples hm r, ?_,
    hle'.settle hlo⟩
  exact counted_recordSamples hpe hco hw hjob hgr hab hpos (by simp [hacc])

theorem record_other (h : SampleAccount plan job w start c owed n) (hpe : owed.Perm (r :: owed'))
    (hw : w ∉ r.job.watchIds) :
    SampleAccount plan job w start (c.noteLogicalResults r).1 owed' n := by
  obtain ⟨m, mark, settled, hm, hco, hle⟩ := h.counted
  have hfor : (owedFor w owed).Perm (owedFor w owed') := by
    rw [← owedFor_cons_of_notMem hw owed']
    exact owedFor_congr w hpe
  rw [noteLogicalResults_eq]
  refine ⟨h.plan_eq, h.version_eq, h.running, h.due, h.in_range,
    fun r' hr' => h.owed_job r' (hfor.mem_iff.mpr hr'), _, mark, settled,
    noteLogicalResults_recordSamples hm r, ?_, hle.perm (hfor.map _)⟩
  exact hco.of_tally (recordSamples_tally_of_notMem hw)
    (recordSamples_withinLimits hco.within _ _ _ _)

end SampleAccount
end Pdcm
