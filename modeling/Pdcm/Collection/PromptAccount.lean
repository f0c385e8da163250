import Pdcm.Collection.DueGaps

/-!
# The account of a watch of several jobs

A watch whose metrics are read by several jobs is named by a result of each of them. The
results of one due time are told apart from those of the one before only by the time last
counted. If all these jobs have the same period and what is owed for the watch is recorded
before its next due time, each due time is counted once, by the first of its results to be
recorded, and the watch is removed at the due time that reaches its limit.
-/

namespace Pdcm

open Library List WatchManager

/-! ### Jobs that are due once -/

/-- The results for the watch of jobs that are due once. -/
def dueResults (w : WatchId) (due now : ℤ) (jobs : List CollectionJob) : List LogicalResult :=
  if now < due then []
  else (jobs.filter fun job => decide (w ∈ job.watchIds)).map fun job => ⟨job, due, 1⟩

theorem dueResults_cons (w : WatchId) (due now : ℤ) (job : CollectionJob)
    (jobs : List CollectionJob) :
    dueResults w due now (job :: jobs) =
      dueResults w due now [job] ++ dueResults w due now jobs := by
  unfold dueResults
  split_ifs
  · rfl
  · rw [← map_append, ← filter_append, singleton_append]

theorem mem_dueResults {w : WatchId} {due now : ℤ} {jobs : List CollectionJob} {r : LogicalResult} :
    r ∈ dueResults w due now jobs ↔
      due ≤ now ∧ ∃ job ∈ jobs, w ∈ job.watchIds ∧ r = ⟨job, due, 1⟩ := by
  unfold dueResults
  split_ifs with hnow
  · simp [not_le.mpr hnow]
  · simp only [mem_map, mem_filter, decide_eq_true_eq, not_lt.mp hnow, true_and]
    constructor
    · rintro ⟨job, ⟨hjob, hw⟩, rfl⟩
      exact ⟨job, hjob, hw, rfl⟩
    · rintro ⟨job, hjob, hw, rfl⟩
      exact ⟨job, ⟨hjob, hw⟩, rfl⟩

namespace Coordinator

variable {L : Limits} {due now : ℤ} {job : CollectionJob}

theorem dueSteps_eq_one {per : ℤ} (hdue : due ≤ now) (hso : now < due + per) :
    dueSteps due per now = 1 := by
  rw [dueSteps, Int.ediv_eq_zero_of_lt (by linarith) (by linarith)]
  rfl

theorem Issued.eq_of_one {issued : List LogicalResult} (h : Issued job due 1 issued) :
    issued = [⟨job, due, 1⟩] := by
  obtain h | ⟨hma, -⟩ := h
  · exact h
  · exact absurd hma (lt_irrefl 1)

theorem runJob_owedFor (cur : CollectionPlan) {w : WatchId} {d : DueRun L}
    (hdue : w ∈ job.watchIds → d.coordinator.nextDue.find? job.id = some due)
    (hso : w ∈ job.watchIds → now < due + job.period)
    (hev : ∀ t ∈ (runJob cur now d job).evicted, w ∉ t.job.watchIds) :
    let d' := runJob cur now d job
    (owedFor w (d'.coordinator.owed ++ d'.logicalResults)).Perm
      (dueResults w due now [job] ++ owedFor w (d.coordinator.owed ++ d.logicalResults)) := by
  obtain ⟨heq, hea⟩ | ⟨firstDue, hran⟩ := runJob_cases cur now d job
  · have hno : dueResults w due now [job] = [] := by
      rw [eq_nil_iff_forall_not_mem]
      intro r hr
      obtain ⟨hpa, other, hot, hw, -⟩ := mem_dueResults.mp hr
      obtain rfl := mem_singleton.mp hot
      exact absurd (hea due (hdue hw)) (not_lt.mpr hpa)
    rw [hno, heq]
    exact .refl _
  · obtain ⟨evicted, issued, hgr, his, hpe⟩ := hran.owed_perm
    have hnew := SampleAccount.owedFor_perm hpe fun t ht => hev t (by simp [hgr, ht])
    by_cases hw : w ∈ job.watchIds
    · obtain rfl : due = firstDue := Option.some.inj ((hdue hw).symm.trans hran.due)
      rw [dueSteps_eq_one hran.passed (hso hw)] at his
      rw [his.eq_of_one] at hnew
      simpa [dueResults, owedFor, hw, not_lt.mpr hran.passed] using hnew
    · have hno : owedFor w issued = [] := by
        apply owedFor_eq_nil
        obtain rfl | ⟨-, rfl⟩ := his <;> simp [hw]
      rw [hno] at hnew
      simpa [dueResults, hw] using hnew

/-- The loop issues one result for the watch for each job that lists it, if these are due. -/
theorem foldl_runJob_owedFor {cur : CollectionPlan} {w : WatchId} {jobs : List CollectionJob}
    (hids : (jobs.map CollectionJob.id).Nodup) {d : DueRun L}
    (hdue : ∀ job ∈ jobs, w ∈ job.watchIds → d.coordinator.nextDue.find? job.id = some due)
    (hsoon : ∀ job ∈ jobs, w ∈ job.watchIds → now < due + job.period)
    (hev : ∀ t ∈ (jobs.foldl (runJob cur now) d).evicted, w ∉ t.job.watchIds) :
    let d' := jobs.foldl (runJob cur now) d
    (owedFor w (d'.coordinator.owed ++ d'.logicalResults)).Perm
      (dueResults w due now jobs ++ owedFor w (d.coordinator.owed ++ d.logicalResults)) := by
  induction jobs generalizing d with
  | nil =>
    have hno : dueResults w due now [] = [] := by
      unfold dueResults
      split_ifs <;> rfl
    rw [hno]
    exact .refl _
  | cons job rest ih =>
    rw [map_cons, nodup_cons] at hids
    obtain ⟨hsoo, hso⟩ := forall_mem_cons.mp hsoon
    obtain ⟨hdueJ, hdu⟩ := forall_mem_cons.mp hdue
    -- the due times of the other jobs are as they were
    have hre : ∀ other ∈ rest, w ∈ other.watchIds →
        (runJob cur now d job).coordinator.nextDue.find? other.id = some due := by
      intro other hot hw
      have hne : other.id ≠ job.id := fun heq => hids.1 (heq ▸ mem_map_of_mem hot)
      rw [runJob_nextDue, if_neg hne]
      exact hdu other hot hw
    have hfi := runJob_owedFor cur hdueJ hsoo fun t ht =>
      hev t (SampleAccount.evicted_of_foldl_runJob rest ht)
    rw [dueResults_cons]
    refine (ih hids.2 hre hso hev).trans ?_
    refine (hfi.append_left _).trans ?_
    rw [append_assoc]
    exact perm_append_comm_assoc _ _ _

end Coordinator

/-! ### Watches of a plan -/

/-- A watch of a plan, with its limit, the samples counted for it before, and one of its
jobs. All its jobs have the same period. -/
structure PlannedWatch where
  plan : CollectionPlan
  job : CollectionJob
  id : WatchId
  start : ℕ
  limit : ℕ
  wellFormed : plan.WellFormed
  created_nonneg : 0 ≤ plan.createdAt
  job_mem : job ∈ plan.jobs
  listed : id ∈ job.watchIds
  alike : ∀ other ∈ plan.jobs, id ∈ other.watchIds → other.period = job.period

namespace PlannedWatch

variable {t : PlannedWatch} {n : ℕ} {m : WatchManager} {t' : PlannedWatch}

def dueTime (t : PlannedWatch) (k : ℕ) : ℤ := t.plan.dueTime t.job k

/-- The count when the first `n` due times have been counted; it does not overflow. -/
def countAfter (t : PlannedWatch) (n : ℕ) : ℕ :=
  if n = 0 then t.start else min uint64Max (t.start + n)

/-- The limit is reached by one of the first `n` due times. -/
def Exhausted (t : PlannedWatch) (n : ℕ) : Prop :=
  0 < n ∧ t.limit ≠ 0 ∧ t.limit ≤ t.countAfter n

theorem period_pos (t : PlannedWatch) : 0 < t.job.period :=
  t.wellFormed.period_pos t.job t.job_mem

theorem dueTime_succ (t : PlannedWatch) (k : ℕ) :
    t.dueTime (k + 1) = t.dueTime k + t.job.period := by
  simp [dueTime, t.plan.dueTime_add]

theorem dueTime_nonneg (t : PlannedWatch) (k : ℕ) : 0 ≤ t.dueTime k :=
  add_nonneg t.created_nonneg (mul_nonneg t.period_pos.le (Nat.cast_nonneg _))

theorem countAfter_succ (t : PlannedWatch) (n : ℕ) :
    t.countAfter (n + 1) = min uint64Max (t.countAfter n + 1) := by
  cases n with
  | zero => rfl
  | succ n =>
    simp only [countAfter, Nat.succ_ne_zero, if_false]
    omega

theorem countAfter_congr (h : t.start = t'.start) (n : ℕ) : t.countAfter n = t'.countAfter n := by
  rw [countAfter, countAfter, h]

theorem Exhausted.mono {k : ℕ} (h : t.Exhausted k) (hkn : k ≤ n) : t.Exhausted n := by
  obtain ⟨hpos, hli, hre⟩ := h
  refine ⟨hpos.trans_le hkn, hli, hre.trans ?_⟩
  rw [countAfter, countAfter, if_neg hpos.ne', if_neg (hpos.trans_le hkn).ne']
  exact min_le_min_left _ (by omega)

/-- The watch is live, and exactly the first `n` due times have been counted for it. -/
structure Tallied (t : PlannedWatch) (m : WatchManager) (n : ℕ) : Prop where
  live : ∃ watch, m.logical.find? t.id = some watch ∧ watch.requirement.sampleLimit = t.limit
  count_eq : m.sampleCount t.id = t.countAfter n
  below : ¬t.Exhausted n
  last : ∀ time ∈ m.lastSampleTimes.find? t.id, time ≤ t.dueTime n
  reached : 0 < n → m.lastSampleTimes.find? t.id = some (t.dueTime n)
  within : m.WithinLimits

theorem Tallied.of_tally {m' : WatchManager} (h : t.Tallied m n)
    (hta : m'.tally t.id = m.tally t.id) (hwi : m'.WithinLimits) : t.Tallied m' n := by
  simp only [tally, Prod.mk.injEq] at hta
  obtain ⟨hlog, hco, hti⟩ := hta
  refine ⟨hlog ▸ h.live, ?_, h.below, hti ▸ h.last, hti ▸ h.reached, hwi⟩
  rw [sampleCount, hco]
  exact h.count_eq

/-- The due times counted, when `n` have passed: all of them, or all but the last, which is
then owed. -/
def Counted (t : PlannedWatch) (m : WatchManager) (owed : List LogicalResult) (n : ℕ) : Prop :=
  t.Tallied m n ∨ ∃ k, n = k + 1 ∧ t.Tallied m k ∧ owedFor t.id owed ≠ []

theorem Counted.within {owed : List LogicalResult} (h : t.Counted m owed n) : m.WithinLimits := by
  obtain h | ⟨_, -, h, -⟩ := h
  · exact h.within
  · exact h.within

theorem Counted.live {owed : List LogicalResult} (h : t.Counted m owed n) :
    (m.logical.find? t.id).isSome = true := by
  obtain h | ⟨_, -, h, -⟩ := h
  all_goals
    obtain ⟨watch, hfi, -⟩ := h.live
    rw [hfi]
    rfl

/-- `n` due times of the watch have passed while the plan was installed. -/
structure Account {L : Limits} (t : PlannedWatch) (c : Coordinator L) (n : ℕ) : Prop where
  plan_eq : c.plan = t.plan
  version_eq : c.scheduledPlanVersion = t.plan.version
  running : c.shutdown = false
  due : ∀ job ∈ t.plan.jobs, t.id ∈ job.watchIds →
    c.nextDue.find? job.id = some (t.dueTime (n + 1))
  in_range : 0 < n → t.dueTime n ≤ int64Max
  owed_due : ∀ r ∈ owedFor t.id c.owed, 0 < n ∧ r.job ∈ t.plan.jobs ∧
    r.firstScheduledTime = t.dueTime n ∧ r.sampleCount = 1
  counted : ∃ m, c.watchManager = some m ∧ t.Counted m c.owed n

/-- The watch has been removed at its limit. -/
structure Gone {L : Limits} (t : PlannedWatch) (c : Coordinator L) (n : ℕ) : Prop where
  removed : ∃ m, c.watchManager = some m ∧ m.logical.find? t.id = none
  exhausted : t.Exhausted n

section Steps

open Coordinator

variable {L : Limits} {c c' : Coordinator L} {now : ℤ}
  {r : LogicalResult} {ids : List WatchId}

theorem Account.recount (h : t.Account c n) (hta : SameTable c c')
    (how : ∀ r ∈ owedFor t.id c'.owed, r ∈ owedFor t.id c.owed) (hm : c'.watchManager = some m)
    (hco : t.Counted m c'.owed n) : t.Account c' n where
  plan_eq := hta.plan_eq.trans h.plan_eq
  version_eq := hta.version_eq.trans h.version_eq
  running := hta.shutdown_eq.trans h.running
  due job hjob hlisted := hta.nextDue_eq ▸ h.due job hjob hlisted
  in_range := h.in_range
  owed_due r hr := h.owed_due r (how r hr)
  counted := ⟨m, hm, hco⟩

theorem Account.congr (h : t.Account c n) (hsa : SameSchedule c c')
    (hpe : (owedFor t.id c'.owed).Perm (owedFor t.id c.owed)) : t.Account c' n := by
  obtain ⟨m, hm, hco⟩ := h.counted
  apply h.recount hsa.internal.table (fun r hr => hpe.mem_iff.mp hr) (hsa.watchManager_eq.trans hm)
  obtain hta | ⟨k, hk, hta, how⟩ := hco
  · exact .inl hta
  · exact .inr ⟨k, hk, hta, fun hnil => how (hnil ▸ hpe).nil_eq.symm⟩

/-! ### Due jobs -/

theorem lt_dueIndex_iff {k : ℕ} : k < t.plan.dueIndex t.job now ↔ t.dueTime (k + 1) ≤ now :=
  CollectionPlan.lt_dueIndex_iff t.period_pos

section

variable (h : t.Account c n) (hnow : 0 ≤ now)

include h hnow

theorem Account.nextDue_runDue :
    SamePlan c (c.step (.runDue now)) ∧ ∀ job ∈ t.plan.jobs, t.id ∈ job.watchIds →
      (c.step (.runDue now)).nextDue.find? job.id =
        some (advance t.job.period now (t.dueTime (n + 1))) := by
  have hver : c.scheduledPlanVersion = c.plan.version := by
    rw [h.plan_eq]
    exact h.version_eq
  obtain ⟨hsa, hta⟩ := step_runDue_table (h.plan_eq ▸ t.wellFormed) hver now
  have hre : ¬(now < 0 ∨ c.shutdown = true) := by simp [not_lt.mpr hnow, h.running]
  refine ⟨hsa, fun job hjob hli => ?_⟩
  rw [hta job (h.plan_eq ▸ hjob), if_neg hre, h.due job hjob hli, Option.map_some,
    t.alike job hjob hli]

theorem Account.runDue_passed (hra : now ≤ int64Max)
    (hpa : t.dueTime (n + 1) ≤ now) (hso : now < t.dueTime (n + 2))
    (hm : c.watchManager = some m) (hta : t.Tallied m n)
    (hpe : (owedFor t.id (c.step (.runDue now)).owed).Perm
      (dueResults t.id (t.dueTime (n + 1)) now t.plan.jobs)) :
    t.Account (c.step (.runDue now)) (n + 1) := by
  obtain ⟨hsa, had⟩ := h.nextDue_runDue hnow
  refine ⟨hsa.plan_eq.trans h.plan_eq, hsa.version_eq.trans h.version_eq,
    hsa.shutdown_eq.trans h.running, ?_, fun _ => hpa.trans hra, ?_,
    m, hsa.watchManager_eq.trans hm, .inr ⟨n, rfl, hta, ?_⟩⟩
  · intro job hjob hli
    rw [t.dueTime_succ] at hso
    rw [had job hjob hli, advance, if_neg (not_lt.mpr hpa),
      dueSteps_eq_one hpa hso, t.dueTime_succ (n + 1), Nat.cast_one, mul_one]
  · intro r hr
    obtain ⟨-, job, hjob, -, rfl⟩ := mem_dueResults.mp (hpe.mem_iff.mp hr)
    exact ⟨Nat.succ_pos n, hjob, rfl, rfl⟩
  · have hown : ⟨t.job, t.dueTime (n + 1), 1⟩ ∈
        dueResults t.id (t.dueTime (n + 1)) now t.plan.jobs :=
      mem_dueResults.mpr ⟨hpa, t.job, t.job_mem, t.listed, rfl⟩
    exact ne_nil_of_mem (hpe.mem_iff.mpr hown)

theorem Account.runDue (hra : now ≤ int64Max)
    (hse : owedFor t.id c.owed = []) (hso : now < t.dueTime (n + 2))
    (hev : ∀ task ∈ c.evictedBy (.runDue now), t.id ∉ task.job.watchIds) :
    t.Account (c.step (.runDue now)) (max n (t.plan.dueIndex t.job now)) := by
  have hpe : (owedFor t.id (c.step (.runDue now)).owed).Perm
      (dueResults t.id (t.dueTime (n + 1)) now t.plan.jobs) := by
    obtain ⟨summary, heq⟩ := runDueLocked_eq c.plan hnow h.running
    have hsy : c.synchronizePlan t.plan = c := by
      rw [synchronizePlan, if_pos h.version_eq]
    rw [evictedBy, heq, h.plan_eq, dueLoop, hsy] at hev
    rw [step, heq, h.plan_eq, dueLoop, hsy]
    have hlo := foldl_runJob_owedFor t.wellFormed.ids_nodup h.due
      (fun job hjob hli => by rwa [t.alike job hjob hli, ← t.dueTime_succ]) hev
    simpa [hse] using hlo
  obtain ⟨m, hm, hco⟩ := h.counted
  have hta : t.Tallied m n := by
    refine hco.resolve_right ?_
    rintro ⟨-, -, -, how⟩
    exact how hse
  by_cases hpa : t.dueTime (n + 1) ≤ now
  · have hlow : n < t.plan.dueIndex t.job now := t.lt_dueIndex_iff.mpr hpa
    have hhi : ¬n + 1 < t.plan.dueIndex t.job now := mt t.lt_dueIndex_iff.mp (not_le.mpr hso)
    have hin : max n (t.plan.dueIndex t.job now) = n + 1 := by omega
    rw [hin]
    exact h.runDue_passed hnow hra hpa hso hm hta hpe
  · rw [max_eq_left (not_lt.mp (mt t.lt_dueIndex_iff.mp hpa))]
    obtain ⟨hsa, had⟩ := h.nextDue_runDue hnow
    refine ⟨hsa.plan_eq.trans h.plan_eq, hsa.version_eq.trans h.version_eq,
      hsa.shutdown_eq.trans h.running, ?_, h.in_range, ?_,
      m, hsa.watchManager_eq.trans hm, .inl hta⟩
    · intro job hjob hli
      rw [had job hjob hli, advance, if_pos (not_le.mp hpa)]
    · intro r hr
      exact absurd (mem_dueResults.mp (hpe.mem_iff.mp hr)).1 hpa

end

/-! ### Recordings -/

/-- A result for the due time counted last counts nothing more. -/
theorem Tallied.recordAgain (h : t.Tallied m n) (hpos : 0 < n) {per : ℤ} (hw : t.id ∈ ids)
    (hok : (m.recordSamples ids (t.dueTime n) per 1).2 = .success) :
    t.Tallied (m.recordSamples ids (t.dueTime n) per 1).1 n := by
  obtain ⟨watch, hli, -⟩ := h.live
  refine h.of_tally ?_ (recordSamples_withinLimits h.within _ _ _ _)
  have hsk : 1 ≤ skippedSamples (some (t.dueTime n)) (t.dueTime n) per := by simp [skippedSamples]
  rw [recordSamples_tally_of_mem (by rw [hok]; rfl) hw, tally, hli, h.reached hpos]
  simp only [recordTally, if_pos hsk]

/-- A result for the next due time is counted, and takes the watch away at its limit. -/
theorem Tallied.recordNext (h : t.Tallied m n) {per : ℤ} (hw : t.id ∈ ids)
    (hok : (m.recordSamples ids (t.dueTime (n + 1)) per 1).2 = .success) :
    t.Tallied (m.recordSamples ids (t.dueTime (n + 1)) per 1).1 (n + 1) ∨
      t.Exhausted (n + 1) ∧
        (m.recordSamples ids (t.dueTime (n + 1)) per 1).1.logical.find? t.id = none := by
  obtain ⟨watch, hliv, hli⟩ := h.live
  have hnew : ∀ time ∈ m.lastSampleTimes.find? t.id, time < t.dueTime (n + 1) := by
    intro time htim
    rw [t.dueTime_succ]
    have hla := h.last time htim
    have hpe := t.period_pos
    linarith
  have hcou : (m.sampleCounts.find? t.id).getD 0 = t.countAfter n := h.count_eq
  have hta := recordSamples_tally_of_mem (by rw [hok]; rfl) hw
  rw [tally, tally, hliv,
    recordTally_new Nat.one_pos hnew, hcou, ← t.countAfter_succ, hli] at hta
  split_ifs at hta with hre
  · simp only [Prod.mk.injEq] at hta
    exact .inr ⟨⟨Nat.succ_pos n, hre⟩, hta.1⟩
  · simp only [Prod.mk.injEq] at hta
    obtain ⟨hlog, hco, hti⟩ := hta
    have hla : t.dueTime (n + 1) + per * ((1 - 1 : ℕ) : ℤ) = t.dueTime (n + 1) := by simp
    rw [hla] at hti
    refine .inl ⟨⟨watch, hlog, hli⟩, ?_, fun hexh => hre hexh.2, ?_,
      fun _ => hti, recordSamples_withinLimits h.within _ _ _ _⟩
    · rw [WatchManager.sampleCount, hco, Option.getD_some]
    · intro time htim
      exact (Option.some.inj (hti.symm.trans htim)).ge

section

variable (h : t.Account c n)

include h

/-- The watch manager accepts what is owed for the watch. -/
theorem Account.recordSamples_success (hm : c.watchManager = some m)
    (hr : r ∈ owedFor t.id c.owed) (hver : m.snapshot.version ≠ uint64Max) :
    (m.recordSamples r.job.watchIds (t.dueTime n) r.job.period 1).2 = .success := by
  obtain ⟨hpos, hjob, -, -⟩ := h.owed_due r hr
  have hw := (mem_owedFor.mp hr).2
  obtain ⟨m', hm', hco⟩ := h.counted
  obtain rfl : m = m' := Option.some.inj (hm.symm.trans hm')
  have hch : checkToken r.job.watchIds (t.dueTime n) r.job.period 1 = none := by
    refine checkToken_of_range (ne_nil_of_mem hw) r.job.watchIds_nodup
      (t.dueTime_nonneg n) (t.wellFormed.period_pos r.job hjob) Nat.one_pos ?_
    simpa using h.in_range hpos
  exact WatchManager.recordSamples_success hch hco.within hver hw hco.live

theorem Account.record_self (hsa : SameSchedule (c.noteLogicalResults r).1 c')
    (hpe : c.owed.Perm (r :: c'.owed)) (hw : t.id ∈ r.job.watchIds)
    (hver : ∀ m ∈ c.watchManager, m.snapshot.version ≠ uint64Max) :
    t.Account c' n ∨ t.Gone c' n := by
  have hfor : (owedFor t.id c.owed).Perm (r :: owedFor t.id c'.owed) := by
    rw [← owedFor_cons_of_mem hw]
    exact owedFor_congr t.id hpe
  have hr : r ∈ owedFor t.id c.owed := hfor.mem_iff.mpr mem_cons_self
  have how : ∀ r' ∈ owedFor t.id c'.owed, r' ∈ owedFor t.id c.owed := fun r' hr' =>
    hfor.mem_iff.mpr (mem_cons_of_mem _ hr')
  obtain ⟨hpos, -, hfi, hcou⟩ := h.owed_due r hr
  obtain ⟨m, hm, hco⟩ := h.counted
  have hacc := h.recordSamples_success hm hr (hver m hm)
  have hm' := hsa.watchManager_eq.trans (noteLogicalResults_recordSamples hm r)
  rw [hfi, hcou] at hm'
  have htab := hsa.internal_note.table
  obtain hta | ⟨k, rfl, hta, -⟩ := hco
  · exact .inl (h.recount htab how hm' (.inl (hta.recordAgain hpos hw hacc)))
  · obtain hne | ⟨hexh, hgo⟩ := hta.recordNext hw hacc
    · exact .inl (h.recount htab how hm' (.inl hne))
    · exact .inr ⟨⟨_, hm', hgo⟩, hexh⟩

theorem Account.record_other
    (hsa : SameSchedule (c.noteLogicalResults r).1 c') (hpe : c.owed.Perm (r :: c'.owed))
    (hw : t.id ∉ r.job.watchIds) : t.Account c' n := by
  have hfor : (owedFor t.id c.owed).Perm (owedFor t.id c'.owed) := by
    rw [← owedFor_cons_of_notMem hw c'.owed]
    exact owedFor_congr t.id hpe
  obtain ⟨m, hm, hco⟩ := h.counted
  apply h.recount hsa.internal_note.table (fun r' hr' => hfor.mem_iff.mpr hr')
    (hsa.watchManager_eq.trans (noteLogicalResults_recordSamples hm r))
  have htal : (m.recordSamples r.job.watchIds r.firstScheduledTime r.job.period
      r.sampleCount).1.tally t.id = m.tally t.id :=
    recordSamples_tally_of_notMem hw
  have hwi := recordSamples_withinLimits hco.within r.job.watchIds
    r.firstScheduledTime r.job.period r.sampleCount
  obtain hta | ⟨k, hk, hta, how⟩ := hco
  · exact .inl (hta.of_tally htal hwi)
  · exact .inr ⟨k, hk, hta.of_tally htal hwi, fun hnil => how (hnil ▸ hfor).eq_nil⟩

theorem Account.drop (hid : r.job.id = 0) (hsa : SameSchedule c c')
    (hpe : c.owed.Perm (r :: c'.owed)) : t.Account c' n := by
  have hw : t.id ∉ r.job.watchIds := by
    intro hw
    have hr : r ∈ owedFor t.id c.owed :=
      mem_owedFor.mpr ⟨hpe.mem_iff.mpr mem_cons_self, hw⟩
    exact (t.wellFormed.ids_pos r.job (h.owed_due r hr).2.1).ne' hid
  refine h.congr hsa ?_
  rw [← owedFor_cons_of_notMem hw]
  exact (owedFor_congr t.id hpe).symm

end

theorem Gone.step (h : t.Gone c n) {k : ℕ} (hn : n ≤ k) (a : CoordinatorStep L) :
    t.Gone (c.step a) k := by
  obtain ⟨m, hm, hno⟩ := h.removed
  have hout := c.step_outcome a
  generalize c.step a = next at hout ⊢
  refine ⟨?_, h.exhausted.mono hn⟩
  cases hout with
  | ranDue now => exact ⟨m, (c.runDueLocked_watchManager c.plan now).trans hm, hno⟩
  | installed plan => exact ⟨m, hm, hno⟩
  | recorded _ r _ hsa =>
    exact ⟨_, hsa.watchManager_eq.trans (noteLogicalResults_recordSamples hm r),
      recordSamples_find?_none hno _ _ _ _⟩
  | dropped _ _ _ hsa => exact ⟨m, hsa.watchManager_eq.trans hm, hno⟩
  | quiet _ hsa => exact ⟨m, hsa.watchManager_eq.trans hm, hno⟩

end Steps
end PlannedWatch

/-! ### Prompt runs -/

namespace Coordinator

variable {L : Limits}

def Live (c : Coordinator L) (w : WatchId) : Prop :=
  ∃ m ∈ c.watchManager, (m.logical.find? w).isSome = true

instance (c : Coordinator L) (w : WatchId) : Decidable (c.Live w) :=
  inferInstanceAs (Decidable (∃ m ∈ c.watchManager, _))

/-- Due jobs are run when everything for the watch has been recorded, and before a second
due time of the watch has passed. -/
def RunsInTime (w : WatchId) (c : Coordinator L) : CoordinatorStep L → Prop
  | .runDue now => (∀ r ∈ c.owed, w ∉ r.job.watchIds) ∧ ∀ job ∈ c.plan.jobs, w ∈ job.watchIds →
      ∀ due ∈ c.nextDue.find? job.id, now < due + job.period
  | _ => True

instance (w : WatchId) (c : Coordinator L) : ∀ a : CoordinatorStep L, Decidable (RunsInTime w c a)
  | .runDue _ => inferInstanceAs (Decidable (_ ∧ _))
  | .note _ | .freshRead .. | .freshReturn | .workerTake | .workerNote | .workerRelease
  | .workerComplete _ | .applyWatchSnapshot .. | .activateCatalog _ | .dataChanged _ =>
    inferInstanceAs (Decidable True)

/-- A step that keeps the plan, evicts no task of the watch, records results for it only
while versions of watch snapshots are left, and runs due jobs in time. -/
structure Prompt (w : WatchId) (c : Coordinator L) (a : CoordinatorStep L) : Prop where
  inRange : a.InRange
  plan_eq : (c.step a).plan = c.plan
  kept : ∀ t ∈ c.evictedBy a, w ∉ t.job.watchIds
  version : ∀ r ∈ c.recordedBy a, w ∈ r.job.watchIds →
    ∀ m ∈ c.watchManager, m.snapshot.version ≠ uint64Max
  inTime : RunsInTime w c a

instance (w : WatchId) (c : Coordinator L) (a : CoordinatorStep L) : Decidable (Prompt w c a) :=
  decidable_of_iff (a.InRange ∧ (c.step a).plan = c.plan ∧
      (∀ t ∈ c.evictedBy a, w ∉ t.job.watchIds) ∧
      (∀ r ∈ c.recordedBy a, w ∈ r.job.watchIds →
        ∀ m ∈ c.watchManager, m.snapshot.version ≠ uint64Max) ∧ RunsInTime w c a)
    ⟨fun ⟨hrange, hplan, hkept, hversion, htime⟩ => ⟨hrange, hplan, hkept, hversion, htime⟩,
      fun ⟨hrange, hplan, hkept, hversion, htime⟩ => ⟨hrange, hplan, hkept, hversion, htime⟩⟩

end Coordinator

namespace PlannedWatch

section Runs

open Coordinator

variable {L : Limits} {t : PlannedWatch} {c : Coordinator L} {n : ℕ}

theorem le_dueAfter (plan : CollectionPlan) (job : CollectionJob) (n : ℕ) (a : CoordinatorStep L) :
    n ≤ dueAfter plan job n a := by
  cases a with
  | runDue now =>
    rw [dueAfter]
    split_ifs
    · exact le_rfl
    · exact le_max_left _ _
  | _ => exact le_rfl

theorem Account.live (h : t.Account c n) : c.Live t.id := by
  obtain ⟨m, hm, hco⟩ := h.counted
  exact ⟨m, hm, hco.live⟩

theorem Account.step (h : t.Account c n) {a : CoordinatorStep L} (hpr : Prompt t.id c a) :
    t.Account (c.step a) (dueAfter t.plan t.job n a) ∨
      t.Gone (c.step a) (dueAfter t.plan t.job n a) := by
  obtain ⟨hra, hpl, hev, hver, hin⟩ := hpr
  have hout := c.step_outcome a
  generalize hc' : c.step a = c' at hout hpl ⊢
  cases hout with
  | ranDue now =>
    rw [dueAfter]
    split_ifs with hnow
    · obtain ⟨summary, hre⟩ := runDueLocked_refused c.plan (.inl hnow)
      rw [hre]
      exact .inl (h.congr ⟨rfl, rfl, rfl, rfl, rfl⟩ (by simp))
    · obtain ⟨hse, hso⟩ := hin
      have hne := hso t.job (h.plan_eq ▸ t.job_mem) t.listed _ (h.due t.job t.job_mem t.listed)
      rw [← t.dueTime_succ] at hne
      exact .inl (h.runDue (not_lt.mp hnow) hra (owedFor_eq_nil hse) hne hev)
  | installed next hco =>
    have hsa := congrArg CollectionPlan.version hpl
    simp [installPlan] at hsa
  | recorded hst r hrec hsa hpe =>
    rw [dueAfter_of_ne hst]
    by_cases hw : t.id ∈ r.job.watchIds
    · exact h.record_self hsa hpe hw (hver r hrec hw)
    · exact .inl (h.record_other hsa hpe hw)
  | dropped hst r hid hsa hpe =>
    rw [dueAfter_of_ne hst]
    exact .inl (h.drop hid hsa hpe)
  | quiet hst hsa fresh hfr hpe =>
    rw [dueAfter_of_ne hst]
    exact .inl (h.congr hsa (SampleAccount.owedFor_perm_of_fresh hfr hpe hev))

theorem Account.run {steps : List (CoordinatorStep L)} (h : t.Account c n ∨ t.Gone c n)
    (hpr : Along Coordinator.step (fun c a => c.Live t.id → Prompt t.id c a) c steps) :
    t.Account (runFrom Coordinator.step c steps) (steps.foldl (dueAfter t.plan t.job) n) ∨
      t.Gone (runFrom Coordinator.step c steps) (steps.foldl (dueAfter t.plan t.job) n) := by
  induction steps generalizing c n with
  | nil => exact h
  | cons a rest ih =>
    refine ih ?_ hpr.2
    obtain hac | hgone := h
    · exact hac.step (hpr.1 hac.live)
    · exact .inr (hgone.step (le_dueAfter _ _ _ _) a)

/-- The watch and its count when nothing is owed for it. -/
theorem Account.settled (h : t.Account c n ∨ t.Gone c n)
    (hse : ∀ r ∈ c.owed, t.id ∉ r.job.watchIds) :
    (c.Live t.id ↔ ¬t.Exhausted n) ∧ (c.Live t.id → c.sampleCount t.id = t.countAfter n) := by
  obtain hac | ⟨⟨m, hm, hno⟩, hexh⟩ := h
  · obtain ⟨m, hm, hta | ⟨-, -, -, how⟩⟩ := hac.counted
    · refine ⟨iff_of_true hac.live hta.below, fun _ => ?_⟩
      rw [Coordinator.sampleCount, hm]
      exact hta.count_eq
    · exact absurd (owedFor_eq_nil hse) how
  · have hgo : ¬c.Live t.id := by
      rintro ⟨m', hm', hli⟩
      obtain rfl : m = m' := Option.some.inj (hm.symm.trans hm')
      simp [hno] at hli
    exact ⟨iff_of_false hgo (not_not.mpr hexh), fun hli => absurd hli hgo⟩

end Runs
end PlannedWatch
end Pdcm
