import Pdcm.Library.Runs
import Pdcm.Collection.Coordinator

/-!
# Runs of the coordinator

The steps that the scheduler's callers, the worker and the clients take in any order, and
the results that the coordinator owes to the watch manager: those of queued tasks, of the
task being read and of `runDue` calls that have not recorded everything yet. A result that
is owed stays owed until it is recorded or its task is evicted.
-/

namespace Pdcm

open Library List CollectionTask

inductive CoordinatorStep (L : Limits) where
  | runDue (now : ℤ)
  /-- The next recording of the `runDue` call with this index. -/
  | note (call : ℕ)
  | freshRead (keys : List DataKey) (catalogGeneration : ℕ) (deadline now scheduled : ℤ)
  /-- A `freshRead` call that stops waiting. -/
  | freshReturn
  | workerTake
  | workerNote
  | workerRelease
  | workerComplete (status : Status)
  | applyWatchSnapshot (watches : WatchSnapshot) (now : ℤ)
  | activateCatalog (catalog : Option CatalogView)
  /-- What commits and catalog activations make of the data manager. -/
  | dataChanged (data : DataManager L)

namespace Coordinator

variable {L : Limits} (c : Coordinator L) (task : CollectionTask) (keys : List DataKey)
  {f : FreshRead L} {c' : Coordinator L} (current : CollectionPlan)

/-- The results of a `runDue` call wait to be recorded. -/
def DueRun.unlock (d : DueRun L) : Coordinator L :=
  { d.coordinator with noting := d.coordinator.noting ++ [d.logicalResults] }

def step (c : Coordinator L) : CoordinatorStep L → Coordinator L
  | .runDue now => (c.runDueLocked c.plan now).unlock
  | .note call =>
    match c.noting[call]? with
    | some (r :: rest) => { (c.noteLogicalResults r).1 with noting := c.noting.set call rest }
    | _ => c
  | .freshRead keys catalogGeneration deadline now scheduled =>
    (c.freshReadLocked keys catalogGeneration deadline now scheduled).coordinator
  | .freshReturn => { c with freshWaiters := c.freshWaiters - 1 }
  | .workerTake => c.workerTake
  | .workerNote => c.workerNote
  | .workerRelease => c.workerRelease
  | .workerComplete status => c.workerComplete status
  | .applyWatchSnapshot watches now => (c.applyWatchSnapshot watches now).1
  | .activateCatalog catalog => (c.activateCatalog catalog).1
  | .dataChanged data => { c with data := data }

/-- The tasks a step takes out of the queue without running them. -/
def evictedBy (c : Coordinator L) : CoordinatorStep L → List CollectionTask
  | .runDue now => (c.runDueLocked c.plan now).evicted
  | .freshRead keys catalogGeneration deadline now scheduled =>
    (c.freshReadLocked keys catalogGeneration deadline now scheduled).evicted.toList
  | _ => []

/-- The result a step hands to `recordSamples`. -/
def recordedBy (c : Coordinator L) : CoordinatorStep L → List LogicalResult
  | .note call =>
    match c.noting[call]? with
    | some (r :: _) => [r]
    | _ => []
  | .workerNote =>
    match c.worker with
    | some ⟨task, .reading⟩ => [task.result]
    | _ => []
  | _ => []

/-! ### Owed results -/

/-- The result of the task the worker has not recorded yet. -/
def reading (c : Coordinator L) : List LogicalResult :=
  match c.worker with
  | some ⟨task, .reading⟩ => [task.result]
  | _ => []

def owed (c : Coordinator L) : List LogicalResult :=
  c.queue.map result ++ c.reading ++ c.noting.flatten

@[simp] theorem owed_unlock (d : DueRun L) :
    d.unlock.owed = d.coordinator.owed ++ d.logicalResults := by
  simp [owed, reading, DueRun.unlock]

/-- The parts of the state that queueing and the worker leave alone. -/
structure SameSchedule (c c' : Coordinator L) : Prop where
  plan_eq : c'.plan = c.plan
  version_eq : c'.scheduledPlanVersion = c.scheduledPlanVersion
  nextDue_eq : c'.nextDue = c.nextDue
  watchManager_eq : c'.watchManager = c.watchManager
  shutdown_eq : c'.shutdown = c.shutdown

theorem SameSchedule.refl : SameSchedule c c := ⟨rfl, rfl, rfl, rfl, rfl⟩

theorem SameSchedule.trans {a b c : Coordinator L} (h : SameSchedule a b)
    (h' : SameSchedule b c) : SameSchedule a c :=
  ⟨h'.plan_eq.trans h.plan_eq, h'.version_eq.trans h.version_eq,
    h'.nextDue_eq.trans h.nextDue_eq, h'.watchManager_eq.trans h.watchManager_eq,
    h'.shutdown_eq.trans h.shutdown_eq⟩

theorem insertByPriority_perm (queue : List CollectionTask) (task : CollectionTask) :
    (insertByPriority queue task).Perm (task :: queue) := by
  refine perm_middle.trans ?_
  rw [takeWhile_append_dropWhile]

theorem setCompletion_eq (c : Coordinator L) (task : CollectionTask) (status : Status) :
    c.setCompletion task status =
      { c with
        completions :=
          if task.freshSignature.isSome then c.completions.insert task.request.requestId status
          else c.completions } := by
  unfold setCompletion
  split_ifs
  · rfl
  · rfl

theorem setCompletion_owed (st : Status) :
    SameSchedule c (c.setCompletion task st) ∧ (c.setCompletion task st).owed = c.owed := by
  rw [setCompletion_eq]
  exact ⟨⟨rfl, rfl, rfl, rfl, rfl⟩, rfl⟩

theorem enterQueue_owed :
    SameSchedule c (c.enterQueue task) ∧ (c.enterQueue task).owed.Perm (task.result :: c.owed) := by
  refine ⟨⟨rfl, rfl, rfl, rfl, rfl⟩, ?_⟩
  have hqu := (insertByPriority_perm c.queue task).map result
  exact (hqu.append_right c.reading).append_right c.noting.flatten

theorem evict_owed {c : Coordinator L} {last : CollectionTask} (h : c.queue.getLast? = some last) :
    SameSchedule c (c.evict last) ∧ (last.result :: (c.evict last).owed).Perm c.owed := by
  obtain ⟨hsa, how⟩ := setCompletion_owed
    ({ c with queue := c.queue.dropLast }.releaseTaskLocked last) last
    ⟨.resourceExhausted, "provider queue evicted a lower-priority request"⟩
  have hre : SameSchedule c ({ c with queue := c.queue.dropLast }.releaseTaskLocked last) :=
    ⟨rfl, rfl, rfl, rfl, rfl⟩
  refine ⟨hre.trans hsa, ?_⟩
  have hqu : c.queue = c.queue.dropLast ++ [last] :=
    (dropLast_append_getLast? last h).symm
  have hpe : (last :: c.queue.dropLast).Perm c.queue := by
    conv_rhs => rw [hqu]
    exact (perm_append_singleton _ _).symm
  rw [evict, how]
  exact ((hpe.map result).append_right c.reading).append_right c.noting.flatten

/-- A task is refused, enters a queue with room for it, or takes the place of the last one. -/
theorem enqueueLocked_eq :
    (∃ refusal, refusal ≠ .accepted ∧
      c.enqueueLocked task = { coordinator := c, result := refusal }) ∨
    c.enqueueLocked task = { coordinator := c.enterQueue task, result := .accepted } ∨
    ∃ last, c.queue.getLast? = some last ∧ last.priority < task.priority ∧
      c.enqueueLocked task =
        { coordinator := (c.evict last).enterQueue task, result := .accepted,
          evicted := last } := by
  unfold enqueueLocked
  split_ifs with hst hbu hfu
  · exact .inl ⟨.stopped, by decide, rfl⟩
  · exact .inl ⟨.busy, by decide, rfl⟩
  · cases hla : c.queue.getLast? with
    | none => exact .inl ⟨.full, by decide, rfl⟩
    | some last =>
      dsimp only
      split_ifs with hpr
      · exact .inl ⟨.full, by decide, rfl⟩
      · exact .inr (.inr ⟨last, rfl, not_le.mp hpr, rfl⟩)
  · exact .inr (.inl rfl)

/-- A refused task changes nothing; an accepted one is owed, and an evicted one no more. -/
theorem enqueueLocked_cases :
    ((c.enqueueLocked task).coordinator = c ∧ (c.enqueueLocked task).result ≠ .accepted ∧
      (c.enqueueLocked task).evicted = none) ∨
    ((c.enqueueLocked task).result = .accepted ∧
      SameSchedule c (c.enqueueLocked task).coordinator ∧
      ((c.enqueueLocked task).evicted.toList.map result ++
        (c.enqueueLocked task).coordinator.owed).Perm (task.result :: c.owed)) := by
  obtain ⟨refusal, hre, heq⟩ | heq | ⟨last, hla, -, heq⟩ := c.enqueueLocked_eq task
  · rw [heq]
    exact .inl ⟨rfl, hre, rfl⟩
  · rw [heq]
    obtain ⟨hsa, hen⟩ := enterQueue_owed c task
    exact .inr ⟨rfl, hsa, hen⟩
  · rw [heq]
    obtain ⟨hevi, hev⟩ := evict_owed hla
    obtain ⟨hsa, hen⟩ := enterQueue_owed (c.evict last) task
    refine .inr ⟨rfl, hevi.trans hsa, ?_⟩
    -- the new task and the evicted one change places
    exact ((hen.cons last.result).trans (.swap _ _ _)).trans (hev.cons task.result)

theorem allocateRequestId_owed :
    SameSchedule c c.allocateRequestId.1 ∧ c.allocateRequestId.1.owed = c.owed := by
  unfold allocateRequestId
  split_ifs
  · exact ⟨.refl c, rfl⟩
  · exact ⟨⟨rfl, rfl, rfl, rfl, rfl⟩, rfl⟩

/-! ### Fresh reads and the worker -/

theorem freshTask_watchIds (gen rid : ℕ) (dl sch : ℤ) :
    (c.freshTask keys gen rid dl sch).job.watchIds = [] := by
  have hwa : ∀ item ∈
      (c.freshTask keys gen rid dl sch).job.items,
      item.logicalWatches = [] := by
    intro item hit
    obtain ⟨key, -, hkey⟩ := mem_filterMap.mp hit
    obtain ⟨desc, -, rfl⟩ := Option.map_eq_some_iff.mp hkey
    rfl
  rw [CollectionJob.watchIds, flatMap_eq_nil_iff.mpr hwa]
  rfl

/-- What a fresh read may do to the schedule and to the owed results. -/
def FreshRead.Harmless (c : Coordinator L) (f : FreshRead L) : Prop :=
  SameSchedule c f.coordinator ∧
    ∃ fresh : List LogicalResult, (∀ r ∈ fresh, r.job.watchIds = []) ∧
      (f.evicted.toList.map result ++ f.coordinator.owed).Perm (fresh ++ c.owed)

theorem FreshRead.harmless_of_eq {c : Coordinator L} (hsa : SameSchedule c f.coordinator)
    (how : f.coordinator.owed = c.owed) (hev : f.evicted = none) : f.Harmless c :=
  ⟨hsa, [], by simp, by simp [hev, how]⟩

open FreshRead

theorem FreshRead.ofEnqueued_harmless {c : Coordinator L} {task : CollectionTask}
    (hwa : task.job.watchIds = []) (rid : ℕ) :
    (ofEnqueued rid (c.enqueueLocked task)).Harmless c := by
  have hca := c.enqueueLocked_cases task
  generalize c.enqueueLocked task = queued at hca ⊢
  obtain ⟨coordinator, res, evicted⟩ := queued
  obtain ⟨hc, hre, hev⟩ | ⟨hacc, hsa, hpe⟩ := hca
  · subst hc hev
    cases res with
    | accepted => exact absurd rfl hre
    | busy => exact harmless_of_eq (.refl _) rfl rfl
    | full => exact harmless_of_eq (.refl _) rfl rfl
    | stopped => exact harmless_of_eq (.refl _) rfl rfl
  · subst hacc
    refine ⟨⟨hsa.plan_eq, hsa.version_eq, hsa.nextDue_eq, hsa.watchManager_eq,
      hsa.shutdown_eq⟩, [task.result], ?_, hpe⟩
    simpa [result] using hwa

theorem FreshRead.Harmless.of_same {c : Coordinator L} (h : f.Harmless c')
    (hsa : SameSchedule c c') (how : c'.owed = c.owed) : f.Harmless c :=
  ⟨hsa.trans h.1, how ▸ h.2⟩

theorem enqueueFresh_harmless (gen : ℕ) (dl sch : ℤ) :
    (c.enqueueFresh keys gen dl sch).Harmless c := by
  obtain ⟨hsa, how⟩ := c.allocateRequestId_owed
  unfold enqueueFresh
  dsimp only
  split_ifs with hid
  · exact harmless_of_eq hsa how rfl
  · exact (ofEnqueued_harmless (freshTask_watchIds _ _ _ _ _ _) _).of_same hsa how

theorem joinFresh_harmless (gen : ℕ) (dl sch : ℤ) : (c.joinFresh keys gen dl sch).Harmless c := by
  unfold joinFresh
  dsimp only
  cases c.freshTasks.find? ⟨gen, keys⟩ with
  | none => exact c.enqueueFresh_harmless keys gen dl sch
  | some rid =>
    dsimp only
    cases c.liveTask? rid with
    | none => exact (enqueueFresh_harmless _ _ _ _ _).of_same ⟨rfl, rfl, rfl, rfl, rfl⟩ rfl
    | some task =>
      dsimp only
      split_ifs
      · exact harmless_of_eq ⟨rfl, rfl, rfl, rfl, rfl⟩ rfl rfl
      · exact harmless_of_eq (.refl c) rfl rfl

/-- A fresh read fails one of its checks and changes nothing, or it asks for at least one key
while the waiters have room, and waits for a task. -/
theorem freshReadLocked_cases (req : List DataKey) (gen : ℕ) (dl now scheduled : ℤ) :
    (∃ st : Status, (st.code ≠ .success ∧ st.code ≠ .partialResult) ∧
      c.freshReadLocked req gen dl now scheduled = ⟨c, .error st, none⟩) ∨
    req ≠ [] ∧ c.freshWaiters ≠ c.limits.maxFreshWaiters ∧
      c.freshReadLocked req gen dl now scheduled =
        c.joinFresh (req.insertionSort (· ≤ ·)) gen dl scheduled := by
  unfold freshReadLocked
  by_cases hem : req = [] ∨ gen = 0
  · exact .inl ⟨_, by decide, if_pos hem⟩
  rw [if_neg hem]
  -- one check after the other
  iterate 6
    refine (ite_eq_or_eq _ _ _).elim (fun h => .inl ⟨_, by decide, h⟩) fun h => ?_
    rw [h]
  by_cases hfu : c.freshWaiters = c.limits.maxFreshWaiters
  · exact .inl ⟨_, by decide, if_pos hfu⟩
  rw [if_neg hfu]
  exact .inr ⟨fun h => hem (.inl h), hfu, rfl⟩

theorem freshReadLocked_harmless (gen : ℕ) (dl now sch : ℤ) :
    (c.freshReadLocked keys gen dl now sch).Harmless c := by
  obtain ⟨st, -, heq⟩ | ⟨-, -, heq⟩ :=
    c.freshReadLocked_cases keys gen dl now sch
  · rw [heq]
    exact harmless_of_eq (.refl c) rfl rfl
  · rw [heq]
    exact c.joinFresh_harmless _ _ _ _

theorem workerTake_owed : SameSchedule c c.workerTake ∧ c.workerTake.owed.Perm c.owed := by
  unfold workerTake
  split
  next task rest hwo hqu =>
    refine ⟨⟨rfl, rfl, rfl, rfl, rfl⟩, ?_⟩
    simp only [owed, reading, hwo, hqu, append_nil]
    exact .append_right _ (perm_append_singleton _ _)
  next => exact ⟨.refl c, .refl _⟩

theorem workerRelease_owed : SameSchedule c c.workerRelease ∧ c.workerRelease.owed = c.owed := by
  unfold workerRelease
  split
  next task hwo =>
    exact ⟨⟨rfl, rfl, rfl, rfl, rfl⟩, by simp [owed, reading, hwo, releaseTaskLocked]⟩
  next => exact ⟨.refl c, rfl⟩

theorem workerComplete_owed (st : Status) :
    SameSchedule c (c.workerComplete st) ∧ (c.workerComplete st).owed = c.owed := by
  unfold workerComplete
  split
  next task hwo =>
    rw [setCompletion_eq]
    exact ⟨⟨rfl, rfl, rfl, rfl, rfl⟩, by simp [owed, reading, hwo]⟩
  next => exact ⟨.refl c, rfl⟩

/-! ### Recordings and plans -/

theorem noteLogicalResults_eq (r : LogicalResult) :
    (c.noteLogicalResults r).1 =
      { c with watchManager := (c.noteLogicalResults r).1.watchManager } := by
  unfold noteLogicalResults
  cases c.watchManager with
  | none => rfl
  | some m =>
    split_ifs <;> rfl

theorem workerNote_eq (c : Coordinator L) :
    c.workerNote = c ∨ ∃ task m, c.worker = some ⟨task, .reading⟩ ∧
      c.workerNote = { c with watchManager := m, worker := some ⟨task, .recorded⟩ } := by
  unfold workerNote
  split
  next task hwo =>
    right
    split_ifs
    · exact ⟨task, c.watchManager, hwo, rfl⟩
    · rw [noteLogicalResults_eq]
      exact ⟨task, _, hwo, rfl⟩
  next => exact .inl rfl

/-- A token without watches is refused, so it need not be told apart. -/
theorem noteLogicalResults_recordSamples {c : Coordinator L} {m : WatchManager}
    (hm : c.watchManager = some m) (r : LogicalResult) :
    (c.noteLogicalResults r).1.watchManager =
      some (m.recordSamples r.job.watchIds r.firstScheduledTime r.job.period r.sampleCount).1 := by
  unfold noteLogicalResults
  rw [hm]
  split_ifs with hids
  · simp [hm, hids, WatchManager.recordSamples, WatchManager.checkToken]
  · rfl

theorem flatten_set_perm {α : Type*} {l : List (List α)} {i : ℕ} {a : α} {rest : List α}
    (h : l[i]? = some (a :: rest)) : l.flatten.Perm (a :: (l.set i rest).flatten) := by
  induction l generalizing i with
  | nil => simp at h
  | cons head tail ih =>
    cases i with
    | zero =>
      obtain rfl : head = a :: rest := by simpa using h
      exact .refl _
    | succ i =>
      have hta := ih (by simpa using h)
      exact (hta.append_left head).trans perm_middle

theorem applyWatchSnapshot_cases (ws : WatchSnapshot) (now : ℤ) :
    ((c.applyWatchSnapshot ws now).1 = c ∧ (c.applyWatchSnapshot ws now).2.ok = false) ∨
    ∃ plan, compilePlan c.limits c.data ws now = .ok plan ∧
      c.applyWatchSnapshot ws now =
        ({ c with plan := { plan with version := c.plan.version + 1 } }.installPlan
          { plan with version := c.plan.version + 1 }, .success) := by
  unfold applyWatchSnapshot
  cases hco : compilePlan c.limits c.data ws now with
  | error st => exact .inl ⟨rfl, compilePlan_error hco⟩
  | ok plan =>
    split_ifs
    · exact .inl ⟨rfl, rfl⟩
    · exact .inr ⟨plan, rfl, rfl⟩

/-- Only the route changes. -/
theorem activateCatalog_eq (cat : Option CatalogView) :
    ∃ gen provider entity metrics, (c.activateCatalog cat).1 =
      { c with
        routeGeneration := gen, routeProviderId := provider, routeEntity := entity
        routeMetrics := metrics } := by
  unfold activateCatalog
  cases cat with
  | none => exact ⟨_, _, _, _, rfl⟩
  | some view =>
    dsimp only
    split_ifs
    · exact ⟨_, _, _, _, rfl⟩
    · split
      next rec _ _ =>
        cases view.capabilities rec.ref with
        | error _ => exact ⟨_, _, _, _, rfl⟩
        | ok set =>
          split_ifs
          · exact ⟨_, _, _, _, rfl⟩
          · exact ⟨_, _, _, _, rfl⟩
      next => exact ⟨_, _, _, _, rfl⟩

theorem activateCatalog_owed (cat : Option CatalogView) :
    SameSchedule c (c.activateCatalog cat).1 ∧ (c.activateCatalog cat).1.owed = c.owed := by
  obtain ⟨_, _, _, _, heq⟩ := c.activateCatalog_eq cat
  rw [heq]
  exact ⟨⟨rfl, rfl, rfl, rfl, rfl⟩, rfl⟩

/-! ### What a step can do -/

/-- Every way a step can end: due jobs are run, a plan is installed, a result is recorded, or
the schedule and the watches stay as they are. A task without a job is not recorded; tasks
that enter the queue otherwise count for no watch. -/
inductive StepOutcome (c : Coordinator L) : CoordinatorStep L → Coordinator L → Prop
  | ranDue (now : ℤ) : StepOutcome c (.runDue now) (c.runDueLocked c.plan now).unlock
  | installed {watches : WatchSnapshot} {now : ℤ} (plan : CollectionPlan)
      (hcompile : compilePlan c.limits c.data watches now = .ok plan) :
      StepOutcome c (.applyWatchSnapshot watches now)
        ({ c with plan := { plan with version := c.plan.version + 1 } }.installPlan
          { plan with version := c.plan.version + 1 })
  | recorded {a : CoordinatorStep L} {c' : Coordinator L} (hstep : ∀ now, a ≠ .runDue now)
      (r : LogicalResult) (hrecorded : r ∈ c.recordedBy a)
      (hsame : SameSchedule (c.noteLogicalResults r).1 c') (howed : c.owed.Perm (r :: c'.owed)) :
      StepOutcome c a c'
  | dropped {a : CoordinatorStep L} {c' : Coordinator L} (hstep : ∀ now, a ≠ .runDue now)
      (r : LogicalResult) (hid : r.job.id = 0) (hsame : SameSchedule c c')
      (howed : c.owed.Perm (r :: c'.owed)) : StepOutcome c a c'
  | quiet {a : CoordinatorStep L} {c' : Coordinator L} (hstep : ∀ now, a ≠ .runDue now)
      (hsame : SameSchedule c c') (fresh : List LogicalResult)
      (hfresh : ∀ r ∈ fresh, r.job.watchIds = [])
      (howed : ((c.evictedBy a).map result ++ c'.owed).Perm (fresh ++ c.owed)) :
      StepOutcome c a c'

theorem StepOutcome.of_same {c : Coordinator L} {a : CoordinatorStep L}
    (hst : ∀ now, a ≠ .runDue now) (hev : c.evictedBy a = []) (hsa : SameSchedule c c')
    (how : c'.owed.Perm c.owed) : StepOutcome c a c' :=
  .quiet hst hsa [] (by simp) (by simpa [hev] using how)

theorem note_outcome (call : ℕ) : StepOutcome c (.note call) (c.step (.note call)) := by
  rw [step]
  split
  next r rest hca =>
    refine .recorded nofun r (by simp [recordedBy, hca]) ⟨rfl, rfl, rfl, rfl, rfl⟩ ?_
    rw [noteLogicalResults_eq]
    exact ((flatten_set_perm hca).append_left _).trans perm_middle
  next => exact .of_same nofun rfl (.refl c) (.refl _)

theorem workerNote_outcome : StepOutcome c .workerNote (c.step .workerNote) := by
  rw [step, workerNote]
  split
  next task hwo =>
    have hpe : c.owed.Perm (task.result :: (c.queue.map result ++
        c.noting.flatten)) := by
      simp only [owed, reading, hwo, append_assoc]
      exact perm_middle
    split_ifs with hid
    · refine .dropped nofun task.result hid ⟨rfl, rfl, rfl, rfl, rfl⟩ ?_
      simpa [owed, reading] using hpe
    · refine .recorded nofun task.result (by simp [recordedBy, hwo]) ⟨rfl, rfl, rfl, rfl, rfl⟩ ?_
      rw [noteLogicalResults_eq]
      simpa [owed, reading] using hpe
  next => exact .of_same nofun rfl (.refl c) (.refl _)

theorem step_outcome (a : CoordinatorStep L) : StepOutcome c a (c.step a) := by
  cases a with
  | runDue now => exact .ranDue now
  | note call => exact c.note_outcome call
  | freshRead keys gen dl now sch =>
    obtain ⟨hsa, fresh, hfr, hpe⟩ :=
      c.freshReadLocked_harmless keys gen dl now sch
    exact .quiet nofun hsa fresh hfr hpe
  | freshReturn => exact .of_same nofun rfl ⟨rfl, rfl, rfl, rfl, rfl⟩ (.refl _)
  | workerTake =>
    obtain ⟨hsa, hpe⟩ := c.workerTake_owed
    exact .of_same nofun rfl hsa hpe
  | workerNote => exact c.workerNote_outcome
  | workerRelease =>
    obtain ⟨hsa, how⟩ := c.workerRelease_owed
    exact .of_same nofun rfl hsa (.of_eq how)
  | workerComplete st =>
    obtain ⟨hsa, how⟩ := c.workerComplete_owed st
    exact .of_same nofun rfl hsa (.of_eq how)
  | applyWatchSnapshot ws now =>
    rw [step]
    obtain ⟨heq, -⟩ | ⟨plan, hco, heq⟩ := c.applyWatchSnapshot_cases ws now
    · rw [heq]
      exact .of_same nofun rfl (.refl c) (.refl _)
    · rw [heq]
      exact .installed plan hco
  | activateCatalog cat =>
    obtain ⟨hsa, how⟩ := c.activateCatalog_owed cat
    exact .of_same nofun rfl hsa (.of_eq how)
  | dataChanged data => exact .of_same nofun rfl ⟨rfl, rfl, rfl, rfl, rfl⟩ (.refl _)

/-! ### Due jobs -/

/-- How the due times of a job are split: as one result, or, when the job was queued for
the last of several, as the result of its task and one for the times before. -/
def Issued (job : CollectionJob) (firstDue : ℤ) (steps : ℕ) (issued : List LogicalResult) : Prop :=
  issued = [⟨job, firstDue, steps⟩] ∨
    1 < steps ∧
      issued = [⟨job, firstDue + job.period * (steps - 1 : ℕ), 1⟩, ⟨job, firstDue, steps - 1⟩]

/-- A due job moves its due time on and issues the results of the times that passed. -/
structure RanJob (now : ℤ) (d d' : DueRun L) (job : CollectionJob) (firstDue : ℤ) : Prop where
  due : d.coordinator.nextDue.find? job.id = some firstDue
  passed : firstDue ≤ now
  same : SameSchedule (d.coordinator.moveDue job firstDue now) d'.coordinator
  owed_perm : ∃ evicted issued, d'.evicted = d.evicted ++ evicted ∧
    Issued job firstDue (dueSteps firstDue job.period now) issued ∧
    (evicted.map result ++ (d'.coordinator.owed ++ d'.logicalResults)).Perm
      (issued ++ (d.coordinator.owed ++ d.logicalResults))

theorem issued_of_enqueued {task : CollectionTask} {job : CollectionJob} {due : ℤ} {steps : ℕ}
    (hst : 0 < steps) (hta : task.result = ⟨job, due + job.period * (steps - 1 : ℕ), 1⟩) :
    SameSchedule c (c.enqueueLocked task).coordinator ∧
      ∃ issued, Issued job due steps issued ∧
        ((c.enqueueLocked task).evicted.toList.map result ++
          ((c.enqueueLocked task).coordinator.owed ++
            unqueuedResults job due steps (c.enqueueLocked task).result)).Perm
          (issued ++ c.owed) := by
  have hca := c.enqueueLocked_cases task
  generalize c.enqueueLocked task = queued at hca ⊢
  obtain ⟨hc, hre, hev⟩ | ⟨hacc, hsa, hpe⟩ := hca
  · have hres : unqueuedResults job due steps queued.result = [⟨job, due, steps⟩] := by
      unfold unqueuedResults
      split
      next h => exact absurd h hre
      next => rfl
    refine ⟨hc ▸ .refl c, _, .inl rfl, ?_⟩
    rw [hres, hc, hev]
    exact perm_append_singleton _ c.owed
  · refine ⟨hsa, ?_⟩
    rw [hacc, unqueuedResults]
    rw [hta] at hpe
    split_ifs with hma
    · refine ⟨_, .inr ⟨hma, rfl⟩, ?_⟩
      rw [← append_assoc]
      exact (hpe.append_right _).trans ((perm_append_singleton _ c.owed).cons _)
    · obtain rfl : steps = 1 := by omega
      refine ⟨_, .inl rfl, ?_⟩
      simpa using hpe

theorem runJob_cases (now : ℤ) (d : DueRun L) (job : CollectionJob) :
    (runJob current now d job = d ∧
      ∀ firstDue, d.coordinator.nextDue.find? job.id = some firstDue → now < firstDue) ∨
    ∃ firstDue, RanJob now d (runJob current now d job) job firstDue := by
  unfold runJob
  cases hdue : d.coordinator.nextDue.find? job.id with
  | none => exact .inl ⟨rfl, by simp⟩
  | some firstDue =>
    dsimp only
    obtain ⟨hal, how⟩ :=
      (d.coordinator.moveDue job firstDue now).allocateRequestId_owed
    have hmo : (d.coordinator.moveDue job firstDue now).owed = d.coordinator.owed := rfl
    split_ifs with hnow hid
    · exact .inl ⟨rfl, fun _ h => Option.some.inj h ▸ hnow⟩
    · refine .inr ⟨firstDue, hdue, not_lt.mp hnow, hal, [], _, by simp, .inl rfl, ?_⟩
      simp only [how, ← append_assoc]
      exact perm_append_comm
    · have hpos : 0 < dueSteps firstDue job.period now := Nat.succ_pos _
      obtain ⟨hqu, issued, his, hpe⟩ := issued_of_enqueued
        (d.coordinator.moveDue job firstDue now).allocateRequestId.1 hpos
        (rfl : (dueTask current job
          (firstDue + job.period * (dueSteps firstDue job.period now - 1 : ℕ)) _).result = _)
      refine .inr ⟨firstDue, hdue, not_lt.mp hnow, hal.trans hqu, _, issued, rfl, his, ?_⟩
      -- what was not queued goes to the end of the results
      rw [how] at hpe
      have hpe' := hpe.append_right d.logicalResults
      simp only [append_assoc] at hpe' ⊢
      refine .trans ?_ hpe'
      exact (perm_append_comm.append_left _).append_left _

theorem runDueLocked_refused {c : Coordinator L} {now : ℤ} (h : now < 0 ∨ c.shutdown = true) :
    ∃ summary, c.runDueLocked current now = { coordinator := c, summary := summary } := by
  unfold runDueLocked
  split_ifs with hnow hsh
  · exact ⟨_, rfl⟩
  · exact ⟨_, rfl⟩
  · exact absurd h (not_or.mpr ⟨hnow, hsh⟩)

theorem runDueLocked_eq {c : Coordinator L} {now : ℤ} (hnow : 0 ≤ now) (hru : c.shutdown = false) :
    ∃ summary, c.runDueLocked current now = { c.dueLoop current now with summary := summary } := by
  rw [runDueLocked, if_neg (not_lt.mpr hnow), if_neg (by simp [hru])]
  exact ⟨_, rfl⟩

end Coordinator
end Pdcm
