import Pdcm.Collection.PlanPartition
import Pdcm.Collection.SampleAccounting

/-!
# Due times across plans

A `runDue` call moves the due time of a job on by whole periods. A new plan forgets the due
times there were: every job is first due one period after the plan was created, whatever was
due before. The due times of a key are at most a period apart as long as no plan is created
after the last of them.
-/

namespace Pdcm

open Library List Coordinator Option

namespace Coordinator

variable {L : Limits} {c c' : Coordinator L}

/-! ### The due table -/

/-- The parts of the state the scheduler works from. -/
structure SameTable (c c' : Coordinator L) : Prop where
  plan_eq : c'.plan = c.plan
  version_eq : c'.scheduledPlanVersion = c.scheduledPlanVersion
  nextDue_eq : c'.nextDue = c.nextDue
  shutdown_eq : c'.shutdown = c.shutdown

/-- The watch manager is the same or has done one operation. -/
def ManagerStep (before after : Option WatchManager) : Prop :=
  after = before ∨ ∃ m op, before = some m ∧ after = some (m.apply op)

/-- What a step may do that neither runs due jobs nor brings a new plan. -/
structure Internal (c c' : Coordinator L) : Prop where
  table : SameTable c c'
  manager : ManagerStep c.watchManager c'.watchManager

theorem SameSchedule.internal (h : SameSchedule c c') : Internal c c' :=
  ⟨⟨h.plan_eq, h.version_eq, h.nextDue_eq, h.shutdown_eq⟩, Or.inl h.watchManager_eq⟩

theorem SameSchedule.internal_note {r : LogicalResult}
    (h : SameSchedule (c.noteLogicalResults r).1 c') : Internal c c' := by
  have hmgr : ManagerStep c.watchManager (c.noteLogicalResults r).1.watchManager := by
    cases hm : c.watchManager with
    | none =>
      rw [noteLogicalResults, hm]
      exact .inl hm
    | some m =>
      exact .inr ⟨m, .recordSamples r.job.watchIds r.firstScheduledTime r.job.period r.sampleCount,
        rfl, noteLogicalResults_recordSamples hm r⟩
  rw [← h.watchManager_eq] at hmgr
  rw [noteLogicalResults_eq] at h
  exact ⟨⟨h.plan_eq, h.version_eq, h.nextDue_eq, h.shutdown_eq⟩, hmgr⟩

end Coordinator

/-- Neither due jobs nor a new plan nor a change of the data. -/
def CoordinatorStep.internal {L : Limits} : CoordinatorStep L → Bool
  | .runDue _ | .applyWatchSnapshot _ _ | .dataChanged _ => false
  | _ => true

namespace Coordinator

variable {L : Limits} (c : Coordinator L) (current : CollectionPlan) {jobs : List CollectionJob}
  (now : ℤ)

theorem step_internal {a : CoordinatorStep L} (h : a.internal = true) : Internal c (c.step a) := by
  have hout := c.step_outcome a
  generalize c.step a = c' at hout ⊢
  cases hout with
  | ranDue => cases h
  | installed => cases h
  | recorded _ r _ hsa => exact hsa.internal_note
  | dropped _ _ _ hsa => exact hsa.internal
  | quiet _ hsa => exact hsa.internal

/-- The due time of a job after a call at `now`. -/
def advance (period now due : ℤ) : ℤ :=
  if now < due then due else due + period * dueSteps due period now

theorem runJob_nextDue (d : DueRun L) (job : CollectionJob) (id : ℕ) :
    (runJob current now d job).coordinator.nextDue.find? id =
      if id = job.id then (d.coordinator.nextDue.find? id).map (advance job.period now)
      else d.coordinator.nextDue.find? id := by
  obtain ⟨heq, hea⟩ | ⟨firstDue, hran⟩ := runJob_cases current now d job
  · rw [heq]
    split_ifs with hid
    · subst hid
      cases hdue : d.coordinator.nextDue.find? job.id with
      | none => rfl
      | some firstDue => simp [advance, hea firstDue hdue]
    · rfl
  · rw [hran.same.nextDue_eq, moveDue, OrderedMap.find?_insert]
    split_ifs with hid
    · rw [hid, hran.due, map_some, advance, if_neg (not_lt.mpr hran.passed)]
    · rfl

theorem foldl_runJob_nextDue_of_notMem {current : CollectionPlan} {now : ℤ} {id : ℕ}
    (h : id ∉ jobs.map CollectionJob.id) (d : DueRun L) :
    (jobs.foldl (runJob current now) d).coordinator.nextDue.find? id =
      d.coordinator.nextDue.find? id := by
  induction jobs generalizing d with
  | nil => rfl
  | cons job rest ih =>
    rw [map_cons, mem_cons, not_or] at h
    rw [foldl_cons, ih h.2, runJob_nextDue, if_neg h.1]

theorem foldl_runJob_nextDue {current : CollectionPlan} {now : ℤ}
    (hids : (jobs.map CollectionJob.id).Nodup) {job : CollectionJob} (hjob : job ∈ jobs)
    (d : DueRun L) :
    (jobs.foldl (runJob current now) d).coordinator.nextDue.find? job.id =
      (d.coordinator.nextDue.find? job.id).map (advance job.period now) := by
  induction jobs generalizing d with
  | nil => cases hjob
  | cons first rest ih =>
    rw [map_cons, nodup_cons] at hids
    rw [foldl_cons]
    rcases mem_cons.mp hjob with rfl | hre
    · rw [foldl_runJob_nextDue_of_notMem hids.1, runJob_nextDue, if_pos rfl]
    · have hne : job.id ≠ first.id := fun heq => hids.1 (heq ▸ mem_map_of_mem hre)
      rw [ih hids.2 hre, runJob_nextDue, if_neg hne]

/-- What the loop of `runDue` leaves alone. -/
structure SamePlan (c c' : Coordinator L) : Prop where
  plan_eq : c'.plan = c.plan
  version_eq : c'.scheduledPlanVersion = c.scheduledPlanVersion
  watchManager_eq : c'.watchManager = c.watchManager
  shutdown_eq : c'.shutdown = c.shutdown

theorem SamePlan.refl : SamePlan c c := ⟨rfl, rfl, rfl, rfl⟩

theorem SamePlan.trans {a b c : Coordinator L} (h : SamePlan a b) (h' : SamePlan b c) :
    SamePlan a c :=
  ⟨h'.plan_eq.trans h.plan_eq, h'.version_eq.trans h.version_eq,
    h'.watchManager_eq.trans h.watchManager_eq, h'.shutdown_eq.trans h.shutdown_eq⟩

theorem runJob_samePlan (d : DueRun L) (job : CollectionJob) :
    SamePlan d.coordinator (runJob current now d job).coordinator := by
  obtain ⟨heq, -⟩ | ⟨due, hran⟩ := runJob_cases current now d job
  · rw [heq]
    exact .refl _
  · exact ⟨hran.same.plan_eq, hran.same.version_eq, hran.same.watchManager_eq,
      hran.same.shutdown_eq⟩

theorem foldl_runJob_samePlan (jobs : List CollectionJob) (d : DueRun L) :
    SamePlan d.coordinator (jobs.foldl (runJob current now) d).coordinator := by
  induction jobs generalizing d with
  | nil => exact .refl _
  | cons job rest ih => exact (runJob_samePlan current now d job).trans (ih _)

theorem runDueLocked_watchManager :
    (c.runDueLocked current now).coordinator.watchManager = c.watchManager := by
  by_cases hre : now < 0 ∨ c.shutdown = true
  · obtain ⟨summary, heq⟩ := runDueLocked_refused current hre
    rw [heq]
  · obtain ⟨hnow, hru⟩ := not_or.mp hre
    obtain ⟨summary, heq⟩ := runDueLocked_eq current (not_lt.mp hnow) (Bool.eq_false_iff.mpr hru)
    rw [heq, dueLoop, (foldl_runJob_samePlan _ _ _ _).watchManager_eq]
    unfold synchronizePlan
    split_ifs <;> rfl

theorem step_runDue_table {c : Coordinator L} (hpl : c.plan.WellFormed)
    (hver : c.scheduledPlanVersion = c.plan.version) (now : ℤ) :
    SamePlan c (c.step (.runDue now)) ∧ ∀ job ∈ c.plan.jobs,
      (c.step (.runDue now)).nextDue.find? job.id =
        if now < 0 ∨ c.shutdown = true then c.nextDue.find? job.id
        else (c.nextDue.find? job.id).map (advance job.period now) := by
  rw [step]
  by_cases hre : now < 0 ∨ c.shutdown = true
  · obtain ⟨summary, heq⟩ := runDueLocked_refused c.plan hre
    rw [heq]
    exact ⟨⟨rfl, rfl, rfl, rfl⟩, fun _ _ => (if_pos hre).symm⟩
  · obtain ⟨hnow, hru⟩ := not_or.mp hre
    obtain ⟨summary, heq⟩ := runDueLocked_eq c.plan (not_lt.mp hnow) (Bool.eq_false_iff.mpr hru)
    have hsy : c.synchronizePlan c.plan = c := by
      rw [synchronizePlan, if_pos hver]
    rw [heq, dueLoop, hsy]
    obtain ⟨hsam, hsa, hmgr, hsh⟩ :=
      foldl_runJob_samePlan c.plan now c.plan.jobs { coordinator := c }
    refine ⟨⟨hsam, hsa, hmgr, hsh⟩, fun job hjob => ?_⟩
    rw [if_neg hre]
    exact foldl_runJob_nextDue hpl.ids_nodup hjob { coordinator := c }

end Coordinator

/-! ### The due times of a key -/

/-- The job that reads a key. -/
def CollectionPlan.jobOf (plan : CollectionPlan) (key : EffectiveWatchKey) : Option CollectionJob :=
  plan.jobs.find? fun job => decide (key ∈ job.items.map CollectionPlanItem.key)

/-- A watch of the snapshot is read by one job, with the period of the watch. -/
theorem CollectionPlan.Partitions.jobOf {plan : CollectionPlan} {limits : CollectionLimits}
    {ws : List EffectiveWatch} (h : plan.Partitions limits ws) {watch : EffectiveWatch}
    (hwa : watch ∈ ws) :
    ∃ job ∈ plan.jobs, plan.jobOf watch.key = some job ∧ job.period = watch.period := by
  obtain ⟨job, ⟨hjob, hit⟩, -⟩ := h.once watch hwa
  have hfo : (plan.jobOf watch.key).isSome = true := by
    rw [CollectionPlan.jobOf, List.find?_isSome]
    exact ⟨job, hjob, decide_eq_true (mem_map_of_mem hit)⟩
  obtain ⟨found, hfi⟩ := isSome_iff_exists.mp hfo
  have hmem := mem_of_find?_eq_some hfi
  have hre : watch.key ∈ found.items.map CollectionPlanItem.key := by
    simpa using List.find?_some hfi
  obtain ⟨item, hit, hkey⟩ := mem_map.mp hre
  refine ⟨found, hmem, hfi, ?_⟩
  -- the item of the found job is the one of the watch, since their keys are the same
  obtain ⟨other, hot, rfl⟩ :=
    mem_map.mp (h.items.mem_iff.mp (mem_flatMap.mpr ⟨found, hmem, hit⟩))
  have hsa := inj_on_of_nodup_map h.keys_nodup hot hwa hkey
  rw [← ((h.uniform found hmem).shared _ hit).2.1, hsa]
  rfl

/-- The due times up to `now`, from a first one on. -/
def dueUpTo (period now due : ℤ) : List ℤ :=
  if now < due then []
  else (List.range (dueSteps due period now)).map fun k : ℕ => due + period * k

/-- The later of two due times is at most a period after the earlier one. -/
def WithinPeriod (period a b : ℤ) : Prop := a ≤ b ∧ b ≤ a + period

theorem arithmetic_isChain {period : ℤ} (hpe : 0 < period) (due : ℤ) (n : ℕ) :
    ((range n).map (fun k : ℕ => due + period * k) ++ [due + period * n]).IsChain
      (WithinPeriod period) := by
  induction n with
  | zero => simp
  | succ n ih =>
    rw [range_succ, map_append, map_singleton, isChain_append]
    refine ⟨ih, by simp, ?_⟩
    simp only [getLast?_append, getLast?_singleton, some_or, mem_def,
      some.injEq, head?_cons]
    rintro _ rfl _ rfl
    constructor <;> push_cast <;> linarith

/-- The due times of a call and the one it leaves carry on where the earlier ones ended. -/
theorem isChain_append_dueUpTo {period now due : ℤ} (hpe : 0 < period) {log : List ℤ}
    (h : (log ++ [due]).IsChain (WithinPeriod period)) :
    (log ++ dueUpTo period now due ++ [advance period now due]).IsChain
      (WithinPeriod period) := by
  rw [dueUpTo, advance]
  split_ifs with hnow
  · simpa using h
  · obtain ⟨hlog, -, hla⟩ := isChain_append.mp h
    rw [append_assoc, isChain_append]
    refine ⟨hlog, arithmetic_isChain hpe due _, ?_⟩
    intro last hmem first hfi
    apply hla last hmem
    simpa [dueSteps, range_succ_eq_map] using hfi

namespace Coordinator

variable {L : Limits} {key : EffectiveWatchKey} {period : ℤ} {c : Coordinator L} {log : List ℤ}

/-- The due times of the key that a step finds passed. -/
def duesOf (key : EffectiveWatchKey) (c : Coordinator L) : CoordinatorStep L → List ℤ
  | .runDue now =>
    if now < 0 ∨ c.shutdown = true then []
    else
      ((c.plan.jobOf key).bind fun job =>
        ((c.synchronizePlan c.plan).nextDue.find? job.id).map (dueUpTo job.period now)).getD []
  | _ => []

/-- A step together with the due times of the key so far. -/
def recordDue (key : EffectiveWatchKey) (s : Coordinator L × List ℤ) (a : CoordinatorStep L) :
    Coordinator L × List ℤ :=
  (s.1.step a, s.2 ++ s.1.duesOf key a)

/-- The next due time of the key. -/
def pendingDue (c : Coordinator L) (key : EffectiveWatchKey) : Option ℤ :=
  (c.plan.jobOf key).bind fun job => c.nextDue.find? job.id

/-- Every snapshot that is applied has the key, with this period. -/
def KeepsPeriod (key : EffectiveWatchKey) (period : ℤ) (s : Coordinator L × List ℤ) :
    CoordinatorStep L → Prop
  | .applyWatchSnapshot watches now => (s.1.applyWatchSnapshot watches now).2.ok = true →
      ∃ watch ∈ watches.effectiveWatches, watch.key = key ∧ watch.period = period
  | _ => True

/-- A new plan is not created after the last due time of the key, and not more than a
period before it. -/
def CreatedInTime (period : ℤ) (s : Coordinator L × List ℤ) : CoordinatorStep L → Prop
  | .applyWatchSnapshot watches now => (s.1.applyWatchSnapshot watches now).2.ok = true →
      ∀ last ∈ s.2.getLast?, last - period ≤ now ∧ now ≤ last
  | _ => True

/-- The due times so far and the next one are at most a period apart. -/
structure DueLog (key : EffectiveWatchKey) (period : ℤ) (s : Coordinator L × List ℤ) : Prop where
  version_eq : s.1.scheduledPlanVersion = s.1.plan.version
  wellFormed : s.1.plan.WellFormed
  pending : s.1.plan.version = 0 ∧ s.1.plan.jobs = [] ∧ s.2 = [] ∨
    ∃ job ∈ s.1.plan.jobs, ∃ due, s.1.plan.jobOf key = some job ∧ job.period = period ∧
      s.1.nextDue.find? job.id = some due ∧ (s.2 ++ [due]).IsChain (WithinPeriod period)

section

variable (h : DueLog key period (c, log))

include h

theorem DueLog.table {c' : Coordinator L} (hsam : SameTable c c') :
    DueLog key period (c', log) := by
  obtain ⟨hver, hwf, hpe⟩ := h
  obtain ⟨hpl, hsa, hdue, -⟩ := hsam
  refine ⟨?_, ?_, ?_⟩
  · rw [hpl, hsa]
    exact hver
  · rw [hpl]
    exact hwf
  · rw [hpl, hdue]
    exact hpe

theorem DueLog.runDue (now : ℤ) :
    DueLog key period (recordDue key (c, log) (.runDue now)) := by
  obtain ⟨hver, hwf, hpe⟩ := h
  obtain ⟨⟨hpl, hsa, -, -⟩, hdue⟩ := step_runDue_table hwf hver now
  refine ⟨?_, ?_, ?_⟩
  · rw [recordDue, hpl, hsa]
    exact hver
  · rw [recordDue, hpl]
    exact hwf
  · have hsy : c.synchronizePlan c.plan = c := by
      rw [synchronizePlan, if_pos hver]
    simp only [recordDue, duesOf, hpl, hsy]
    obtain ⟨hze, hno, rfl⟩ | ⟨job, hjob, due, hof, rfl, hfi, hch⟩ := hpe
    · refine .inl ⟨hze, hno, ?_⟩
      have hjo : c.plan.jobs = [] := hno
      simp [CollectionPlan.jobOf, hjo]
    · refine .inr ⟨job, hjob, ?_⟩
      rw [hdue job hjob]
      simp only [hof, hfi, bind_some]
      split_ifs with hre
      · exact ⟨due, trivial, trivial, rfl, by simpa using hch⟩
      · exact ⟨_, trivial, trivial, rfl, isChain_append_dueUpTo (hwf.period_pos job hjob) hch⟩

theorem DueLog.applyWatchSnapshot {ws : WatchSnapshot}
    {now : ℤ} (hke : KeepsPeriod key period (c, log) (.applyWatchSnapshot ws now))
    (hcr : CreatedInTime period (c, log) (.applyWatchSnapshot ws now)) :
    DueLog key period (recordDue key (c, log) (.applyWatchSnapshot ws now)) := by
  obtain ⟨hpa, -, -⟩ := c.applyWatchSnapshot_partitions ws now
  have hre : recordDue key (c, log) (.applyWatchSnapshot ws now) =
      ((c.applyWatchSnapshot ws now).1, log) := by
    simp [recordDue, step, duesOf]
  rw [hre]
  obtain ⟨hsa, -⟩ | ⟨plan, -, heq⟩ := c.applyWatchSnapshot_cases ws now
  · rwa [hsa]
  · have hok : (c.applyWatchSnapshot ws now).2.ok = true := by
      rw [heq]
      rfl
    obtain ⟨watch, hwa, rfl, rfl⟩ := hke hok
    obtain ⟨job, hjob, hof, hpe⟩ := (hpa hok).jobOf hwa
    have hin := applyWatchSnapshot_installed hok
    have hdue := hin.firstDue hjob
    have hfi : (c.applyWatchSnapshot ws now).1.plan.dueTime job 1 = now + watch.period := by
      simp [CollectionPlan.dueTime, hin.createdAt, hpe]
    rw [hfi] at hdue
    refine ⟨hin.version_eq, hin.wellFormed, .inr ⟨job, hjob, _, hof, hpe, hdue, ?_⟩⟩
    have hlog : log.IsChain (WithinPeriod watch.period) := by
      obtain ⟨-, -, rfl⟩ | ⟨-, -, due, -, -, -, hch⟩ := h.pending
      · simp
      · exact (isChain_append.mp hch).1
    rw [isChain_append]
    refine ⟨hlog, by simp, ?_⟩
    intro last hla first hfir
    obtain rfl : now + watch.period = first := by simpa using hfir
    obtain ⟨hlow, hhi⟩ := hcr hok last hla
    constructor <;> linarith

end

theorem DueLog.step {s : Coordinator L × List ℤ} (h : DueLog key period s) {a : CoordinatorStep L}
    (hke : KeepsPeriod key period s a) (hcr : CreatedInTime period s a) :
    DueLog key period (recordDue key s a) := by
  obtain ⟨c, log⟩ := s
  cases a with
  | runDue now => exact h.runDue now
  | applyWatchSnapshot ws now => exact h.applyWatchSnapshot hke hcr
  | dataChanged data =>
    have hsa : SameTable c (c.step (.dataChanged data)) := ⟨rfl, rfl, rfl, rfl⟩
    simpa [recordDue, duesOf] using h.table hsa
  | _ => simpa [recordDue, duesOf] using h.table (c.step_internal rfl).table

/-- A coordinator as its constructor leaves it. -/
def initial (limits : CollectionLimits) (valid : limits.validate.ok = true)
    (watchManager : Option WatchManager) (data : DataManager L) : Coordinator L :=
  { limits := limits, valid := valid, watchManager := watchManager, data := data }

/-- The due times of a key that every applied snapshot has with the same period are at most
this period apart, and so is the next one, if no plan is created after the last due time. -/
theorem run_dueTimes {limits : CollectionLimits} {valid : limits.validate.ok = true}
    {watchManager : Option WatchManager} {data : DataManager L} {key : EffectiveWatchKey}
    {period : ℤ} {steps : List (CoordinatorStep L)}
    (h : Along (recordDue key) (fun s a => KeepsPeriod key period s a ∧ CreatedInTime period s a)
      (initial limits valid watchManager data, []) steps)
    {c : Coordinator L} {dues : List ℤ}
    (hrun : runFrom (recordDue key) (initial limits valid watchManager data, []) steps =
      (c, dues)) :
    dues.IsChain (WithinPeriod period) ∧
      (c.plan.version ≠ 0 → ∃ due, c.pendingDue key = some due ∧
        (dues ++ [due]).IsChain (WithinPeriod period)) := by
  have hstart : DueLog key period (initial limits valid watchManager data, []) :=
    ⟨rfl, ⟨nodup_nil, by simp [initial], by simp [initial]⟩, .inl ⟨rfl, rfl, rfl⟩⟩
  have hlog : DueLog key period (c, dues) := by
    rw [← hrun]
    exact invariant_along (fun _ _ hs hcond => hs.step hcond.1 hcond.2) hstart h
  obtain ⟨hzero, -, rfl⟩ | ⟨job, -, due, hof, -, hfind, hchain⟩ := hlog.pending
  · exact ⟨by simp, fun hne => absurd hzero hne⟩
  · refine ⟨(isChain_append.mp hchain).1, fun _ => ⟨due, ?_, hchain⟩⟩
    rw [pendingDue, hof]
    exact hfind

instance (key : EffectiveWatchKey) (period : ℤ) (s : Coordinator L × List ℤ) :
    ∀ a : CoordinatorStep L, Decidable (KeepsPeriod key period s a)
  | .applyWatchSnapshot watches now => inferInstanceAs
      (Decidable ((s.1.applyWatchSnapshot watches now).2.ok = true → _))
  | .runDue _ | .note _ | .freshRead .. | .freshReturn | .workerTake | .workerNote
  | .workerRelease | .workerComplete _ | .activateCatalog _ | .dataChanged _ =>
    inferInstanceAs (Decidable True)

instance (period : ℤ) (s : Coordinator L × List ℤ) :
    ∀ a : CoordinatorStep L, Decidable (CreatedInTime period s a)
  | .applyWatchSnapshot watches now => inferInstanceAs
      (Decidable ((s.1.applyWatchSnapshot watches now).2.ok = true → _))
  | .runDue _ | .note _ | .freshRead .. | .freshReturn | .workerTake | .workerNote
  | .workerRelease | .workerComplete _ | .activateCatalog _ | .dataChanged _ =>
    inferInstanceAs (Decidable True)

end Coordinator

namespace SharedDevice

open WatchManager Coordinator

/-- One client watches metric 7 every 10 ns; then another one watches metric 8. -/
def clients (number : ℕ) : WatchManager :=
  runFrom apply (initial {} WatchLimits.validate_default) ([.activateCatalog (some (view 1)) target,
    .create (client 1) (requirement [7] 10 0), .create (client 2) (requirement [8] 20 0)].take
      (number + 1))

def inletKey : EffectiveWatchKey := { providerId := "provider", entity := device, dataId := 7 }

def idle : Coordinator storeLimits :=
  initial {} CollectionLimits.validate_default (some (clients 2))
    ((DataManager.initial storeLimits).activateCatalog (some (view 1)) target).1

/-- The snapshot with the second client is applied at the given time. -/
def joining (time : ℤ) : List (CoordinatorStep storeLimits) :=
  [.applyWatchSnapshot (clients 1).snapshot 0, .runDue 10,
    .applyWatchSnapshot (clients 2).snapshot time, .runDue 20, .runDue 29]

/-- The second client joins at the very time metric 7 was due. -/
theorem joining_in_time :
    ∃ c dues due, runFrom (recordDue inletKey) (idle, []) (joining 10) = (c, dues) ∧
      c.pendingDue inletKey = some due ∧ (dues ++ [due]).IsChain (WithinPeriod 10) ∧
      dues = [10, 20] ∧ due = 30 := by
  have hcond : Along (recordDue inletKey)
      (fun s a => KeepsPeriod inletKey 10 s a ∧ CreatedInTime 10 s a) (idle, []) (joining 10) := by
    decide +kernel
  have hversion : (runFrom (recordDue inletKey) (idle, []) (joining 10)).1.plan.version ≠ 0 := by
    decide +kernel
  obtain ⟨-, hpending⟩ := run_dueTimes hcond rfl
  obtain ⟨due, hdue, hchain⟩ := hpending hversion
  have hdue30 : (runFrom (recordDue inletKey) (idle, []) (joining 10)).1.pendingDue inletKey =
      some 30 := by
    decide +kernel
  refine ⟨_, _, due, rfl, hdue, hchain, by decide +kernel, ?_⟩
  exact some.inj (hdue.symm.trans hdue30)

/-- The second client joins at 19, just before metric 7 is due again: nothing is due at 20,
and the next due time is 29. -/
theorem joining_delays :
    Along (recordDue inletKey) (KeepsPeriod inletKey 10) (idle, []) (joining 19) ∧
      (runFrom (recordDue inletKey) (idle, []) (joining 19)).2 = [10, 29] ∧
      ¬[10, 29].IsChain (WithinPeriod 10) := by
  refine ⟨by decide +kernel, by decide +kernel, ?_⟩
  intro hchain
  have hgap : WithinPeriod 10 10 29 := by simpa using hchain
  exact absurd hgap.2 (by decide)

end SharedDevice
end Pdcm
