import Pdcm.Collection.DueGaps
import Pdcm.Collection.QueueRuns

/-!
# The grid of due times

While a plan stays installed, the next due time of a job is a function of the latest time
`runDue` was called with: the first time after it on the grid of the job. What the calls count
telescopes up to the wrapping of the missed periods, and no time of the grid is attempted twice.
-/

namespace Pdcm

open Library List CollectionPlan

namespace CollectionPlan

variable {plan : CollectionPlan} {job : CollectionJob} {n : ℕ} {now : ℤ} {times : List ℤ}

/-- The number of due times of a job that calls at these times find passed. -/
def reached (plan : CollectionPlan) (job : CollectionJob) (times : List ℤ) : ℕ :=
  (times.map (plan.dueIndex job)).foldl max 0

theorem reached_append (plan : CollectionPlan) (job : CollectionJob) (times : List ℤ) (now : ℤ) :
    plan.reached job (times ++ [now]) = max (plan.reached job times) (plan.dueIndex job now) := by
  simp [reached]

theorem reached_le_iff {b : ℕ} :
    plan.reached job times ≤ b ↔ ∀ t ∈ times, plan.dueIndex job t ≤ b := by
  induction times using reverseRecOn with
  | nil => simp [reached]
  | append_singleton times now ih =>
    rw [reached_append, max_le_iff, ih, forall_mem_append, forall_mem_singleton]

theorem lt_dueTime_reached (hpe : 0 < job.period) {t : ℤ} (ht : t ∈ times) :
    t < plan.dueTime job (plan.reached job times + 1) := by
  rw [← not_le, ← lt_dueIndex_iff hpe, not_lt]
  exact reached_le_iff.mp le_rfl t ht

end CollectionPlan

/-- What a call has counted. -/
def SchedulerRunSummary.total (s : SchedulerRunSummary) : ℕ :=
  s.enqueuedJobs + s.busyJobs + s.queueRejections + s.missedPeriods

/-- The count `n` of `m` things has lost nothing, or multiples of 2 ^ 64. -/
def Wraps (n m : ℕ) : Prop := n ≤ m ∧ n % 2 ^ 64 = m % 2 ^ 64

namespace Coordinator

variable {L : Limits} {plan current : CollectionPlan} {job : CollectionJob} {n : ℕ} {now : ℤ}
  {jobs : List CollectionJob}

/-- The number of due times that a call at `now` finds passed. -/
def passedSteps (period now due : ℤ) : ℕ := if now < due then 0 else dueSteps due period now

/-- The next due time moves to the first one after `now`, past as many as are counted. -/
theorem advance_dueTime (hpe : 0 < job.period) :
    advance job.period now (plan.dueTime job (n + 1)) =
        plan.dueTime job (max n (plan.dueIndex job now) + 1) ∧
      n + passedSteps job.period now (plan.dueTime job (n + 1)) =
        max n (plan.dueIndex job now) := by
  unfold advance passedSteps
  split_ifs with hnow
  · have hle : plan.dueIndex job now ≤ n := by
      rw [← not_lt, lt_dueIndex_iff hpe]
      exact not_le.mpr hnow
    rw [max_eq_left hle]
    exact ⟨rfl, rfl⟩
  · have hle := not_lt.mp hnow
    have hst := add_dueSteps hpe hle
    have hlt := (lt_dueIndex_iff hpe).mpr hle
    rw [max_eq_right hlt.le, ← dueTime_add, ← hst]
    exact ⟨by congr 1; omega, rfl⟩

theorem runJob_total (d : DueRun L) (job : CollectionJob) :
    Wraps (runJob current now d job).summary.total (d.summary.total +
      (d.coordinator.nextDue.find? job.id).elim 0 (passedSteps job.period now)) := by
  unfold runJob Wraps
  cases d.coordinator.nextDue.find? job.id with
  | none => exact ⟨le_rfl, rfl⟩
  | some due =>
    dsimp only [Option.elim_some]
    unfold passedSteps
    split_ifs with hnow hid
    · exact ⟨le_rfl, rfl⟩
    · simp only [SchedulerRunSummary.total, dueSteps]
      omega
    · generalize (enqueueLocked _ _).result = res
      cases res <;> simp only [SchedulerRunSummary.total, countEnqueue, dueSteps] <;> omega

theorem foldl_runJob_total (hids : (jobs.map CollectionJob.id).Nodup) (d : DueRun L) :
    Wraps (jobs.foldl (runJob current now) d).summary.total (d.summary.total + (jobs.map fun job =>
        (d.coordinator.nextDue.find? job.id).elim 0 (passedSteps job.period now)).sum) := by
  induction jobs generalizing d with
  | nil => exact ⟨le_rfl, rfl⟩
  | cons first rest ih =>
    rw [map_cons, nodup_cons] at hids
    have hre : ∀ job ∈ rest, ((runJob current now d first).coordinator.nextDue.find? job.id) =
        d.coordinator.nextDue.find? job.id := by
      intro job hjob
      have hne : job.id ≠ first.id := fun heq => hids.1 (heq ▸ mem_map_of_mem hjob)
      rw [runJob_nextDue, if_neg hne]
    have hla := ih hids.2 (runJob current now d first)
    have hfi : Wraps (runJob current now d first).summary.total _ := runJob_total d first
    rw [map_congr_left fun job hjob => by rw [hre job hjob]] at hla
    rw [foldl_cons, map_cons, sum_cons]
    unfold Wraps at hla hfi ⊢
    omega

theorem dueTime_dueSteps (hpe : 0 < job.period) (h : plan.dueTime job (n + 1) ≤ now) :
    plan.dueTime job (n + 1) +
        job.period * (dueSteps (plan.dueTime job (n + 1)) job.period now - 1 : ℕ) =
      plan.dueTime job (plan.dueIndex job now) := by
  rw [← dueTime_add, ← add_dueSteps hpe h, dueSteps]
  congr 1
  omega

/-- The task that a due job attempts. -/
structure Attempt (d : DueRun L) (now : ℤ) (job : CollectionJob) (task : CollectionTask) (due : ℤ) :
    Prop where
  job_eq : task.job = job
  due_eq : d.coordinator.nextDue.find? job.id = some due
  passed : due ≤ now
  scheduled : task.request.scheduledTime = due + job.period * (dueSteps due job.period now - 1 : ℕ)

/-- It is scheduled for the last due time that has passed. -/
theorem Attempt.dueTime {d : DueRun L} {task : CollectionTask} (hpe : 0 < job.period)
    (h : Attempt d now job task (plan.dueTime job (n + 1))) :
    n < plan.dueIndex job now ∧
      task.request.scheduledTime = plan.dueTime job (plan.dueIndex job now) := by
  refine ⟨(lt_dueIndex_iff hpe).mpr h.passed, ?_⟩
  rw [h.scheduled, dueTime_dueSteps hpe h.passed]

theorem jobOffer_attempt {d : DueRun L} {o : QueueOffer L}
    (h : jobOffer current now d job = some o) : ∃ due, Attempt d now job o.task due := by
  obtain ⟨due, id, hdue, hnow, rfl⟩ := jobOffer_eq_some current h
  exact ⟨due, rfl, hdue, hnow, rfl⟩

theorem dueOffers_attempt (hids : (jobs.map CollectionJob.id).Nodup) {d : DueRun L}
    {o : QueueOffer L} (ho : o ∈ dueOffers current now jobs d) :
    ∃ job ∈ jobs, ∃ due, Attempt d now job o.task due := by
  induction jobs generalizing d with
  | nil => cases ho
  | cons first rest ih =>
    rw [map_cons, nodup_cons] at hids
    rcases mem_append.mp ho with ho | ho
    · exact ⟨first, mem_cons_self .., jobOffer_attempt (Option.mem_toList.mp ho)⟩
    · obtain ⟨job, hjob, due, hat⟩ := ih hids.2 ho
      have hne : job.id ≠ first.id := fun heq => hids.1 (heq ▸ mem_map_of_mem hjob)
      have hdue := hat.due_eq
      rw [runJob_nextDue, if_neg hne] at hdue
      exact ⟨job, mem_cons_of_mem _ hjob, due, { hat with due_eq := hdue }⟩

theorem dueOffers_ids (d : DueRun L) :
    ((dueOffers current now jobs d).map fun o => o.task.job.id).Sublist
      (jobs.map CollectionJob.id) := by
  induction jobs generalizing d with
  | nil => exact .refl _
  | cons first rest ih =>
    rw [dueOffers, map_cons]
    cases ho : jobOffer current now d first with
    | none => exact (ih _).cons _
    | some o =>
      obtain ⟨due, hat⟩ := jobOffer_attempt ho
      simpa [hat.job_eq] using ih (runJob current now d first)

end Coordinator

/-- A coordinator with the times `runDue` was called with, the tasks it attempted and what it
counted. -/
structure GridLog (L : Limits) where
  coordinator : Coordinator L
  times : List ℤ := []
  attempts : List CollectionTask := []
  counted : ℕ := 0

namespace GridLog

open Coordinator

variable {L : Limits} {plan : CollectionPlan} {s : GridLog L}

def step (s : GridLog L) : CoordinatorStep L → GridLog L
  | .runDue now =>
    { coordinator := s.coordinator.step (.runDue now)
      times := s.times ++ [now]
      attempts := s.attempts ++
        (s.coordinator.runDueOffers s.coordinator.plan now).map QueueOffer.task
      counted := s.counted + (s.coordinator.runDueLocked s.coordinator.plan now).summary.total }
  | a => { s with coordinator := s.coordinator.step a }

/-- Every due time up to the number reached is accounted for. -/
structure Invariant (plan : CollectionPlan) (s : GridLog L) : Prop where
  plan_eq : s.coordinator.plan = plan
  version_eq : s.coordinator.scheduledPlanVersion = plan.version
  running : s.coordinator.shutdown = false
  due : ∀ job ∈ plan.jobs,
    s.coordinator.nextDue.find? job.id = some (plan.dueTime job (plan.reached job s.times + 1))
  attempted : ∀ task ∈ s.attempts, task.job ∈ plan.jobs ∧ ∃ k, 1 ≤ k ∧
    k ≤ plan.reached task.job s.times ∧ task.request.scheduledTime = plan.dueTime task.job k
  distinct : (s.attempts.map fun task => (task.job.id, task.request.scheduledTime)).Nodup
  counted : Wraps s.counted (plan.jobs.map fun job => plan.reached job s.times).sum

theorem Invariant.internal (h : s.Invariant plan) {a : CoordinatorStep L} (ha : a.internal = true) :
    (s.step a).Invariant plan := by
  have hta := (s.coordinator.step_internal ha).table
  have hst : s.step a = { s with coordinator := s.coordinator.step a } := by
    cases a <;> first | rfl | cases ha
  rw [hst]
  exact ⟨hta.plan_eq.trans h.plan_eq, hta.version_eq.trans h.version_eq,
    hta.shutdown_eq.trans h.running, fun job hjob => hta.nextDue_eq ▸ h.due job hjob,
    h.attempted, h.distinct, h.counted⟩

section

variable (hwf : plan.WellFormed) (h : s.Invariant plan)

include hwf h

theorem Invariant.attempts {now : ℤ} {task : CollectionTask}
    (hta : task ∈ (dueOffers plan now plan.jobs { coordinator := s.coordinator }).map
      QueueOffer.task) :
    task.job ∈ plan.jobs ∧ plan.reached task.job s.times < plan.dueIndex task.job now ∧
      task.request.scheduledTime = plan.dueTime task.job (plan.dueIndex task.job now) := by
  obtain ⟨o, ho, rfl⟩ := mem_map.mp hta
  obtain ⟨job, hjob, due, hat⟩ := dueOffers_attempt hwf.ids_nodup ho
  obtain rfl : plan.dueTime job (plan.reached job s.times + 1) = due :=
    Option.some.inj ((h.due job hjob).symm.trans hat.due_eq)
  rw [hat.job_eq]
  exact ⟨hjob, hat.dueTime (hwf.period_pos job hjob)⟩

theorem Invariant.total {now : ℤ} (hnow : 0 ≤ now) :
    Wraps ((s.coordinator.runDueLocked plan now).summary.total +
        (plan.jobs.map fun job => plan.reached job s.times).sum)
      (plan.jobs.map fun job => plan.reached job (s.times ++ [now])).sum := by
  have hsy : s.coordinator.synchronizePlan plan = s.coordinator := by
    rw [synchronizePlan, if_pos h.version_eq]
  have hlo : (s.coordinator.runDueLocked plan now).summary.total =
      (s.coordinator.dueLoop plan now).summary.total := by
    rw [runDueLocked, if_neg (not_lt.mpr hnow), if_neg (by simp [h.running])]
    rfl
  have hsum : (plan.jobs.map fun job => plan.reached job (s.times ++ [now])).sum =
      (plan.jobs.map fun job => plan.reached job s.times).sum + (plan.jobs.map fun job =>
        (s.coordinator.nextDue.find? job.id).elim 0 (passedSteps job.period now)).sum := by
    rw [← sum_map_add]
    congr 1
    refine map_congr_left fun job hjob => ?_
    rw [h.due job hjob, reached_append]
    exact (advance_dueTime (hwf.period_pos job hjob)).2.symm
  have hto : Wraps (plan.jobs.foldl (runJob plan now) _).summary.total _ :=
    foldl_runJob_total hwf.ids_nodup { coordinator := s.coordinator }
  have hze : ({ coordinator := s.coordinator } : DueRun L).summary.total = 0 := rfl
  rw [hze, zero_add] at hto
  rw [hlo, dueLoop, hsy, hsum]
  unfold Wraps at hto ⊢
  dsimp only at hto
  omega

theorem Invariant.runDue {now : ℤ} (hnow : 0 ≤ now) :
    (s.step (.runDue now)).Invariant plan := by
  obtain ⟨coordinator, times, attempts, counted⟩ := s
  obtain rfl := h.plan_eq
  have hver : coordinator.scheduledPlanVersion = coordinator.plan.version := h.version_eq
  have hrun : coordinator.shutdown = false := h.running
  have hnew : coordinator.runDueOffers coordinator.plan now =
      dueOffers coordinator.plan now coordinator.plan.jobs { coordinator := coordinator } := by
    rw [runDueOffers, if_neg (not_lt.mpr hnow), if_neg (by simp [hrun]),
    synchronizePlan, if_pos hver]
  obtain ⟨hsa, hta⟩ := step_runDue_table hwf hver now
  simp only [step]
  rw [hnew]
  refine ⟨hsa.plan_eq, hsa.version_eq.trans hver, hsa.shutdown_eq.trans hrun, ?_, ?_, ?_, ?_⟩
  · intro job hjob
    have hdue : coordinator.nextDue.find? job.id = _ := h.due job hjob
    rw [hta job hjob, if_neg (by simp [hnow, hrun]), hdue, reached_append]
    exact congrArg some (advance_dueTime (hwf.period_pos job hjob)).1
  · intro task htask
    rw [reached_append]
    rcases mem_append.mp htask with hold | hne
    · obtain ⟨hjob, k, hk, hle, hsc⟩ := h.attempted task hold
      exact ⟨hjob, k, hk, le_max_of_le_left hle, hsc⟩
    · obtain ⟨hjob, hlt, hsc⟩ := h.attempts hwf hne
      exact ⟨hjob, _, Nat.one_le_of_lt hlt, le_max_right _ _, hsc⟩
  · rw [map_append, nodup_append]
    refine ⟨h.distinct, ?_, ?_⟩
    · refine .of_map Prod.fst ?_
      rw [map_map, map_map]
      exact hwf.ids_nodup.sublist (dueOffers_ids _)
    · -- an attempt of the call lies beyond everything reached before it
      intro old hold new hne heq
      obtain ⟨a, ha, rfl⟩ := mem_map.mp hold
      obtain ⟨b, hb, rfl⟩ := mem_map.mp hne
      obtain ⟨hajob, k, -, hle, hasc⟩ := h.attempted a ha
      obtain ⟨hbjob, hlt, hbsc⟩ := h.attempts hwf hb
      rw [Prod.mk.injEq] at heq
      have hjob := inj_on_of_nodup_map hwf.ids_nodup hajob hbjob heq.1
      rw [hasc, hbsc, hjob] at heq
      rw [hjob] at hle
      have hpos := hwf.period_pos b.job hbjob
      have := (dueTime_le_dueTime hpos).mp heq.2.ge
      exact absurd (hlt.trans_le this) (not_lt.mpr hle)
  · have hto := h.total hwf hnow
    have hco := h.counted
    unfold Wraps at hto hco ⊢
    dsimp only at hto hco ⊢
    omega

end

/-- The next due times lie on the grid behind every call, the attempted times lie on it and
are attempted once, and every due time up to the latest call is counted once, modulo 2 ^ 64 if
there are that many. -/
structure OnGrid (plan : CollectionPlan) (s : GridLog L) : Prop where
  due : ∀ job ∈ plan.jobs, ∃ k : ℕ, 1 ≤ k ∧
    s.coordinator.nextDue.find? job.id = some (plan.createdAt + job.period * k) ∧
    ∀ t ∈ s.times, t < plan.createdAt + job.period * k
  attempted : ∀ task ∈ s.attempts, task.job ∈ plan.jobs ∧ ∃ k : ℕ, 1 ≤ k ∧
    task.request.scheduledTime = plan.createdAt + task.job.period * k
  distinct : (s.attempts.map fun task => (task.job.id, task.request.scheduledTime)).Nodup
  idle : s.times = [] → s.counted = 0
  counted : ∀ last ∈ s.times, (∀ t ∈ s.times, t ≤ last) →
    let passed := (plan.jobs.map fun job => ((last - plan.createdAt) / job.period).toNat).sum
    s.counted % 2 ^ 64 = passed % 2 ^ 64 ∧ (passed < 2 ^ 64 → s.counted = passed)

theorem Invariant.onGrid (hwf : plan.WellFormed) (h : s.Invariant plan) : s.OnGrid plan := by
  refine ⟨?_, ?_, h.distinct, ?_, ?_⟩
  · intro job hjob
    refine ⟨_, Nat.le_add_left 1 _, h.due job hjob, ?_⟩
    exact fun t ht => lt_dueTime_reached (hwf.period_pos job hjob) ht
  · intro task hta
    obtain ⟨hjob, k, hk, -, hsc⟩ := h.attempted task hta
    exact ⟨hjob, k, hk, hsc⟩
  · intro hti
    have hco := h.counted.1
    rw [hti, sum_eq_zero (by simp [reached])] at hco
    exact Nat.le_zero.mp hco
  · intro last hla hmax
    have hre : (plan.jobs.map fun job => plan.reached job s.times).sum =
        (plan.jobs.map fun job => ((last - plan.createdAt) / job.period).toNat).sum := by
      congr 1
      refine map_congr_left fun job hjob => le_antisymm ?_ ?_
      · refine reached_le_iff.mpr fun t ht => ?_
        have hpe := hwf.period_pos job hjob
        exact Int.toNat_le_toNat (Int.ediv_le_ediv hpe (by linarith [hmax t ht]))
      · exact reached_le_iff.mp le_rfl last hla
    have hco := h.counted
    rw [hre] at hco
    unfold Wraps at hco
    dsimp only
    omega

/-- Calls of `runDue` at times that are not negative, with what else a coordinator does that
brings no plan. -/
def Scheduling (steps : List (CoordinatorStep L)) : Prop :=
  ∀ a ∈ steps, a.internal = true ∨ ∃ now, 0 ≤ now ∧ a = .runDue now

theorem run_invariant {b : Coordinator L} {ws : WatchSnapshot} {created : ℤ}
    (hok : (b.applyWatchSnapshot ws created).2.ok = true)
    (hru : b.shutdown = false) {steps : List (CoordinatorStep L)} (hst : Scheduling steps) :
    (runFrom step { coordinator := (b.applyWatchSnapshot ws created).1 } steps).Invariant
      (b.applyWatchSnapshot ws created).1.plan := by
  have hin := applyWatchSnapshot_installed hok
  have hsh : (b.applyWatchSnapshot ws created).1.shutdown = false := by
    obtain ⟨heq, -⟩ | ⟨plan, -, heq⟩ := b.applyWatchSnapshot_cases ws created <;>
      rw [heq] <;> exact hru
  generalize (b.applyWatchSnapshot ws created).1 = c at hin hsh ⊢
  refine invariant_along ?_
    (⟨rfl, hin.version_eq, hsh, fun job hjob => hin.firstDue hjob, by simp, by simp, ?_⟩ :
      Invariant c.plan { coordinator := c }) (along_of_forall hst _)
  · rintro s a hs (ha | ⟨now, hnow, rfl⟩)
    · exact hs.internal ha
    · exact hs.runDue hin.wellFormed hnow
  · rw [sum_eq_zero (by simp [reached])]
    exact ⟨le_rfl, rfl⟩

/-- While a plan stays installed, whatever the order of the times and whatever the worker and
the fresh reads do in between. -/
theorem scheduler_onGrid {b : Coordinator L} {ws : WatchSnapshot} {created : ℤ}
    (hok : (b.applyWatchSnapshot ws created).2.ok = true)
    (hrunning : b.shutdown = false) {steps : List (CoordinatorStep L)}
    (hsteps : Scheduling steps) :
    (runFrom step { coordinator := (b.applyWatchSnapshot ws created).1 } steps).OnGrid
      (b.applyWatchSnapshot ws created).1.plan :=
  (run_invariant hok hrunning hsteps).onGrid (applyWatchSnapshot_installed hok).wellFormed

end GridLog

namespace SharedDevice

open GridLog WatchManager

/-- The plan of what the operations leave, created at a time. -/
def planned (ops : List WatchOperation) (created : ℤ) : Coordinator storeLimits × Status :=
  let m := runFrom apply (initial {} WatchLimits.validate_default) ops
  (coordinator m).applyWatchSnapshot m.snapshot created

/-- Periods 10, 20 and 5. The call at 7 comes late, and the one at 25 twice. -/
theorem opened_onGrid :
    (runFrom step { coordinator := (planned opened 0).1 }
        [.runDue 25, .runDue 7, .workerTake, .runDue 25]).OnGrid (planned opened 0).1.plan ∧
      (runFrom step { coordinator := (planned opened 0).1 }
        [.runDue 25, .runDue 7, .workerTake, .runDue 25]).counted = 2 + 1 + 5 := by
  refine ⟨scheduler_onGrid (by decide +kernel) rfl ?_, by decide +kernel⟩
  simp [Scheduling, CoordinatorStep.internal]

/-- A plan with two jobs for every nanosecond and one for every second one, which no watch
manager follows. -/
def crowded : Coordinator storeLimits × Status :=
  let m := runFrom apply (initial {} WatchLimits.validate_default)
    [.activateCatalog (some (view 1)) target, .create (client 1) (requirement [7] 1 0),
      .create (client 2) (requirement [8] 2 0), .setFirmwareHeartbeatBaseline 1 10]
  { coordinator m with watchManager := none }.applyWatchSnapshot m.snapshot 0

/-- The first call comes so late that the missed periods wrap around. -/
theorem crowded_wraps :
    crowded.2 = .success ∧ crowded.1.plan.jobs.map CollectionJob.period = [1, 1, 2] ∧
      (runFrom step { coordinator := crowded.1 } [.runDue (int64Max - 12)]).counted ≠
        (crowded.1.plan.jobs.map fun job =>
          ((int64Max - 12 - crowded.1.plan.createdAt) / job.period).toNat).sum := by
  decide +kernel

end SharedDevice

/-! ### Arithmetic -/

def FitsInt64 (v : ℤ) : Prop := -2 ^ 63 ≤ v ∧ v ≤ int64Max

namespace Coordinator

variable {L : Limits} {job : CollectionJob} {now : ℤ}

/-- What `runDue` computes for a job that is due since `due`: the time elapsed, the way to the
scheduled time and that time, the way to the next due time and that time, the deadline. -/
def dueArithmetic (job : CollectionJob) (now due : ℤ) : List ℤ :=
  let steps := dueSteps due job.period now
  [now - due, job.period * (steps - 1 : ℕ), due + job.period * (steps - 1 : ℕ),
    job.period * steps, due + job.period * steps,
    due + job.period * (steps - 1 : ℕ) + deadlineWindow job]

theorem le_foldl_min {low window : ℤ} {items : List CollectionPlanItem} (hw : low ≤ window)
    (h : ∀ item ∈ items, low ≤ item.freshness) :
    low ≤ items.foldl (fun window item => min window item.freshness) window := by
  induction items generalizing window with
  | nil => exact hw
  | cons item rest ih =>
    obtain ⟨hit, hre⟩ := forall_mem_cons.mp h
    exact ih (le_min hw hit) hre

/-- A job that is due in the first half of the range has all its values in the range, if only
the deadline is. -/
theorem dueArithmetic_fits (hpe : 0 < job.period) {due : ℤ} (hfi : job.period ≤ due)
    (hdue : due ≤ now) (hnow : now ≤ int64Max / 2) (hwi : 0 ≤ deadlineWindow job)
    (hdl : due + job.period * (dueSteps due job.period now - 1 : ℕ) + deadlineWindow job ≤
      int64Max) :
    ∀ v ∈ dueArithmetic job now due, FitsInt64 v := by
  have hel : 0 ≤ (now - due) / job.period := Int.ediv_nonneg (by linarith) hpe.le
  have hway : ((dueSteps due job.period now - 1 : ℕ) : ℤ) = (now - due) / job.period := by
    simp [dueSteps, hel]
  have hst : (dueSteps due job.period now : ℤ) = (now - due) / job.period + 1 := by
    simp [dueSteps, hel]
  have hle : job.period * ((now - due) / job.period) ≤ now - due := Int.mul_ediv_self_le hpe.ne'
  have hno : 0 ≤ job.period * ((now - due) / job.period) := mul_nonneg hpe.le hel
  simp only [dueArithmetic, hway, hst, mul_add, forall_mem_cons, not_mem_nil,
    FitsInt64, int64Max, IsEmpty.forall_iff, implies_true, and_true] at *
  omega

/-- No item of a compiled plan has a negative freshness. -/
theorem compilePlan_window {limits : CollectionLimits} (valid : limits.validate.ok = true)
    {data : DataManager L} {ws : WatchSnapshot} {created : ℤ} {plan : CollectionPlan}
    (h : compilePlan limits data ws created = .ok plan) (hjob : job ∈ plan.jobs) :
    0 ≤ deadlineWindow job := by
  have hpa := compilePlan_partitions valid h
  obtain ⟨-, groups, hg, -⟩ := compilePlan_ok h
  have hac := (groupWatches_empty hg).1.accepted
  have hfr : ∀ item ∈ job.items, 0 ≤ item.freshness := by
    intro item hitem
    obtain ⟨watch, hwa, rfl⟩ := mem_map.mp
      (hpa.items.mem_iff.mp (mem_flatMap.mpr ⟨job, hjob, hitem⟩))
    have := hac watch hwa
    simp only [EffectiveWatch.refused, not_or, not_le, not_lt] at this
    exact this.2.2.1.le.trans this.2.2.2.1
  unfold deadlineWindow
  cases hit : job.items with
  | nil => exact absurd hit (ne_nil_of_length_pos (hpa.uniform job hjob).size.1)
  | cons item rest =>
    rw [hit] at hfr
    exact le_foldl_min (hfr item mem_cons_self) hfr

end Coordinator

namespace GridLog

open Coordinator

variable {L : Limits}

/-- The first due time fits, and so does the deadline for the last due time in the first half
of the range, if there is one. -/
def ScheduleFits (plan : CollectionPlan) (job : CollectionJob) : Prop :=
  plan.createdAt + job.period ≤ int64Max ∧
    (plan.createdAt + job.period ≤ int64Max / 2 →
      plan.dueTime job (plan.dueIndex job (int64Max / 2)) + deadlineWindow job ≤ int64Max)

instance (plan : CollectionPlan) (job : CollectionJob) : Decidable (ScheduleFits plan job) :=
  inferInstanceAs (Decidable (_ ∧ (_ → _)))

/-- No deadline precedes the time it is for, and nothing that the calls compute for a job
overflows exactly if its schedule fits. -/
theorem scheduling_fits {b : Coordinator L} {ws : WatchSnapshot} {created : ℤ}
    (hok : (b.applyWatchSnapshot ws created).2.ok = true)
    (hrunning : b.shutdown = false) (hcreated : 0 ≤ created) :
    ∀ job ∈ (b.applyWatchSnapshot ws created).1.plan.jobs, 0 ≤ deadlineWindow job ∧
      ((FitsInt64 (created + job.period) ∧
          ∀ steps, Scheduling steps → ∀ now due, now ≤ int64Max / 2 →
            (runFrom step { coordinator := (b.applyWatchSnapshot ws created).1 }
              steps).coordinator.nextDue.find? job.id = some due → due ≤ now →
            ∀ v ∈ dueArithmetic job now due, FitsInt64 v) ↔
        ScheduleFits (b.applyWatchSnapshot ws created).1.plan job) := by
  intro job hjob
  have hinv := fun steps (hsteps : Scheduling steps) => run_invariant hok hrunning hsteps
  have hin := applyWatchSnapshot_installed hok
  obtain ⟨-, hfailed⟩ | ⟨plan, hplan, heq⟩ := b.applyWatchSnapshot_cases ws created
  · simp [hfailed] at hok
  have hwindow : 0 ≤ deadlineWindow job := by
    rw [heq] at hjob
    exact compilePlan_window b.valid hplan hjob
  generalize (b.applyWatchSnapshot ws created).1 = c at hjob hinv hin ⊢
  have hpos := hin.wellFormed.period_pos job hjob
  have hfirst : c.plan.dueTime job 1 = c.plan.createdAt + job.period := by
    simp [dueTime]
  rw [← hin.createdAt] at hcreated ⊢
  refine ⟨hwindow, ?_, ?_⟩
  · rintro ⟨hfits, hruns⟩
    refine ⟨hfits.2, fun hhalf => ?_⟩
    -- a call at the middle of the range, before any other
    have hdue : c.nextDue.find? job.id = some (c.plan.dueTime job 1) :=
      (hinv [] (by simp [Scheduling])).due job hjob
    rw [← hfirst] at hhalf
    rw [← dueTime_dueSteps (n := 0) hpos hhalf]
    exact (hruns [] (by simp [Scheduling]) _ _ le_rfl hdue hhalf _ (by simp [dueArithmetic])).2
  · rintro ⟨hfits, hlast⟩
    have hpositive : 0 ≤ c.plan.createdAt + job.period := by linarith
    refine ⟨⟨(by decide : -int64Max - 1 ≤ 0).trans hpositive, hfits⟩, ?_⟩
    intro steps hsteps now due hnow hdue hpassed
    obtain rfl := Option.some.inj (((hinv steps hsteps).due job hjob).symm.trans hdue)
    have hlow : c.plan.dueTime job 1 ≤ _ := (dueTime_le_dueTime hpos).mpr
      (Nat.le_add_left 1 (c.plan.reached job (runFrom step { coordinator := c } steps).times))
    rw [hfirst] at hlow
    refine dueArithmetic_fits hpos (by linarith) hpassed hnow hwindow ?_
    rw [dueTime_dueSteps hpos hpassed]
    refine le_trans ?_ (hlast (hlow.trans (hpassed.trans hnow)))
    have hmono : c.plan.dueIndex job now ≤ c.plan.dueIndex job (int64Max / 2) :=
      Int.toNat_le_toNat (Int.ediv_le_ediv hpos (by linarith))
    have hle : c.plan.dueTime job _ ≤ _ := (dueTime_le_dueTime hpos).mpr hmono
    linarith

end GridLog

namespace SharedDevice

open GridLog WatchManager

/-- After the calls at 25 and 7 a call at 30 finds two of the three jobs due. -/
theorem opened_fits :
    ((planned opened 0).1.plan.jobs.filter fun job =>
        ((runFrom step { coordinator := (planned opened 0).1 }
          [.runDue 25, .runDue 7]).coordinator.nextDue.find? job.id).any (· ≤ 30)).length = 2 ∧
      ∀ job ∈ (planned opened 0).1.plan.jobs, FitsInt64 (0 + job.period) ∧
        ∀ due, (runFrom step { coordinator := (planned opened 0).1 }
            [.runDue 25, .runDue 7]).coordinator.nextDue.find? job.id = some due → due ≤ 30 →
          ∀ v ∈ Coordinator.dueArithmetic job 30 due, FitsInt64 v := by
  refine ⟨by decide +kernel, fun job hjob => ?_⟩
  have hsteps : Scheduling ([.runDue 25, .runDue 7] : List (CoordinatorStep storeLimits)) := by
    simp [Scheduling]
  have hfit : ∀ job ∈ (planned opened 0).1.plan.jobs,
      ScheduleFits (planned opened 0).1.plan job := by
    decide +kernel
  obtain ⟨-, hiff⟩ := scheduling_fits (by decide +kernel) rfl le_rfl job hjob
  obtain ⟨hfirst, hruns⟩ := hiff.mpr (hfit job hjob)
  exact ⟨hfirst, fun due => hruns _ hsteps 30 due (by decide)⟩

/-- The longest period there is. -/
def endless : List WatchOperation :=
  [.activateCatalog (some (view 1)) target, .create (client 1) (requirement [7] int64Max 0)]

/-- The watch is accepted and its plan compiled, and its first due time does not fit. -/
theorem endless_overflows :
    (runFrom apply (initial {} WatchLimits.validate_default) endless).logical.keys = [1] ∧
      (planned endless 1).2 = .success ∧
      ∃ job ∈ (planned endless 1).1.plan.jobs, ¬FitsInt64 (1 + job.period) := by
  refine ⟨by decide +kernel, by decide +kernel, ?_⟩
  have hjobs : (planned endless 1).1.plan.jobs.map CollectionJob.period = [int64Max] := by
    decide +kernel
  obtain ⟨job, hjob, hperiod⟩ := mem_map.mp (hjobs ▸ mem_singleton_self int64Max)
  refine ⟨job, hjob, fun hfits => absurd hfits.2 ?_⟩
  rw [hperiod]
  decide

end SharedDevice
end Pdcm
