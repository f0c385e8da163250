import Pdcm.Collection.ProviderQueue

/-!
# Runs of the provider queue

The runtime of the coordinator with its callers: `runDue` and `freshRead` offer tasks to the
queue, the worker runs them, `shutdownAll` cancels what is queued, and every caller of
`freshRead` that got a task waits for its completion until its own deadline. Two ghost
records go along, the calls of `enqueueLocked` and those of `setCompletion`.
-/

namespace Pdcm

open Library List QueueOffer Coordinator FreshRead

/-- How far a caller of `freshRead` that waits for a task has got. `leaving` is after the
wait and before `fresh_waiters` is decremented. -/
inductive FreshStage where
  | waiting
  | leaving (status : Status) (timedOut : Bool)
  | returned (status : Status) (timedOut : Bool)
  deriving DecidableEq, Repr

structure FreshCaller where
  requestId : ℕ
  signature : FreshSignature
  deadline : ℤ
  stage : FreshStage := .waiting
  deriving DecidableEq, Repr

namespace FreshCaller

variable (caller : FreshCaller)

/-- The wait for the completion, looked at when the clock shows `now`. -/
def await (completion : Option Status) (now : ℤ) : FreshCaller :=
  match caller.stage, completion with
  | .waiting, some status => { caller with stage := .leaving status false }
  | .waiting, none =>
    if caller.deadline ≤ now then
      { caller with stage := .leaving ⟨.timeout, "fresh read waiter timed out"⟩ true }
    else caller
  | _, _ => caller

def leave : FreshCaller :=
  match caller.stage with
  | .leaving status timedOut => { caller with stage := .returned status timedOut }
  | _ => caller

/-- `fresh_waiters` counts the caller. -/
def counted : Bool :=
  match caller.stage with
  | .returned _ _ => false
  | _ => true

/-- The status the caller returns, if it did not reach its deadline. -/
def answer? : Option Status :=
  match caller.stage with
  | .leaving status false => some status
  | .returned status false => some status
  | _ => none

end FreshCaller

/-- `publishPlan` and `installPlan` are the two halves of `applyWatchSnapshot`; `current` is
the plan that `runDue` loaded before it took the lock. -/
inductive RuntimeStep (L : Limits) where
  | runDue (current : CollectionPlan) (now : ℤ)
  | note (call : ℕ)
  | freshRead (keys : List DataKey) (catalogGeneration : ℕ) (deadline now scheduled : ℤ)
  | await (caller : ℕ) (now : ℤ)
  | leave (caller : ℕ)
  | workerTake
  | workerNote
  | workerRelease
  | workerComplete (status : Status)
  | shutdown
  /-- `shutdownAll` completes the next task it cancelled. -/
  | finishCancelled
  | publishPlan (next : CollectionPlan)
  | installPlan (next : CollectionPlan)
  | activateCatalog (catalog : Option CatalogView)
  | dataChanged (data : DataManager L)

structure FreshRuntime (L : Limits) where
  coordinator : Coordinator L
  /-- What `shutdownAll` released and has not completed yet. -/
  cancelled : List CollectionTask := []
  callers : List FreshCaller := []
  offers : List (QueueOffer L) := []
  finished : List (CollectionTask × Status) := []

namespace QueueOffer

variable {L : Limits}

/-- The call of `setCompletion` for an evicted task. -/
def dropped (o : QueueOffer L) : List (CollectionTask × Status) :=
  o.evicted.map fun last => (last, evictedStatus)

end QueueOffer

namespace Coordinator

variable {L : Limits} {c c' : Coordinator L} (current : CollectionPlan)

/-! ### The offers of a call -/

/-- The offer that `runDue` makes for one job. -/
def jobOffer (current : CollectionPlan) (now : ℤ) (d : DueRun L) (job : CollectionJob) :
    Option (QueueOffer L) :=
  match d.coordinator.nextDue.find? job.id with
  | none => none
  | some firstDue =>
    if now < firstDue then none
    else
      let allocated := (d.coordinator.moveDue job firstDue now).allocateRequestId
      if allocated.2 = 0 then none
      else
        some ⟨allocated.1, dueTask current job
          (firstDue + job.period * (dueSteps firstDue job.period now - 1 : ℕ)) allocated.2⟩

/-- The offers of the loop of `runDue`, in order. -/
def dueOffers (current : CollectionPlan) (now : ℤ) :
    List CollectionJob → DueRun L → List (QueueOffer L)
  | [], _ => []
  | job :: rest, d =>
    (jobOffer current now d job).toList ++ dueOffers current now rest (runJob current now d job)

def runDueOffers (c : Coordinator L) (current : CollectionPlan) (now : ℤ) : List (QueueOffer L) :=
  if now < 0 then []
  else if c.shutdown then []
  else dueOffers current now current.jobs { coordinator := c.synchronizePlan current }

/-- The offer of a fresh read. It takes a request id, and nothing else in `freshRead` does. -/
def freshOffers (c : Coordinator L) (requested : List DataKey) (catalogGeneration : ℕ)
    (deadline now scheduled : ℤ) : List (QueueOffer L) :=
  let read := c.freshReadLocked requested catalogGeneration deadline now scheduled
  if read.coordinator.nextRequestId = c.nextRequestId then []
  else
    [⟨c.issue, c.issue.freshTask (requested.insertionSort (· ≤ ·)) catalogGeneration
      c.nextRequestId deadline scheduled⟩]

theorem allocateRequestId_zero {id : ℕ} (h : c.allocateRequestId = (c', id)) :
    (id = 0 ∧ c' = c) ∨ (id ≠ 0 ∧ id = c.nextRequestId ∧ c' = c.issue) := by
  unfold allocateRequestId at h
  split_ifs at h with hus
  · cases h
    exact .inl ⟨rfl, rfl⟩
  · cases h
    exact .inr ⟨fun hze => hus (.inl hze), rfl, rfl⟩

theorem enqueueLocked_nextRequestId (c : Coordinator L) (task : CollectionTask) :
    (c.enqueueLocked task).coordinator.nextRequestId = c.nextRequestId := by
  obtain ⟨_, -, heq⟩ | heq | ⟨last, -, -, heq⟩ := c.enqueueLocked_eq task
  · rw [heq]
  · rw [heq]
    rfl
  · rw [heq, evict, setCompletion_eq]
    rfl

/-- The parts of the state that the callers of `freshRead` change. -/
structure SameWaiters (c c' : Coordinator L) : Prop where
  limits_eq : c'.limits = c.limits
  freshWaiters_eq : c'.freshWaiters = c.freshWaiters

theorem SameWaiters.refl (c : Coordinator L) : SameWaiters c c := ⟨rfl, rfl⟩

theorem SameWaiters.trans {a b : Coordinator L} (h : SameWaiters a b) (h' : SameWaiters b c) :
    SameWaiters a c :=
  ⟨h'.limits_eq.trans h.limits_eq, h'.freshWaiters_eq.trans h.freshWaiters_eq⟩

/-- A job makes no offer and leaves the queue alone, or it offers a task with the next id. -/
inductive JobOffers (d d' : DueRun L) : Option (QueueOffer L) → Prop
  | none (hsame : SameQueue d.coordinator d'.coordinator)
      (hwaiters : SameWaiters d.coordinator d'.coordinator) : JobOffers d d' none
  | offered {c : Coordinator L} {task : CollectionTask} (hsame : SameQueue d.coordinator c)
      (hwaiters : SameWaiters d.coordinator c)
      (hid : task.id = d.coordinator.nextRequestId)
      (hnext : c.nextRequestId = d.coordinator.nextRequestId + 1)
      (hfresh : task.freshSignature = none)
      (hqueued : d'.coordinator = (c.enqueueLocked task).coordinator) :
      JobOffers d d' (some ⟨c, task⟩)

theorem runJob_offers (now : ℤ) (d : DueRun L) (job : CollectionJob) :
    JobOffers d (runJob current now d job) (jobOffer current now d job) := by
  have hre : SameQueue d.coordinator d.coordinator := ⟨rfl, rfl, rfl, rfl, rfl, rfl, le_rfl⟩
  unfold runJob jobOffer
  cases d.coordinator.nextDue.find? job.id with
  | none => exact .none hre (.refl _)
  | some due =>
    dsimp only
    by_cases hnow : now < due
    · rw [if_pos hnow, if_pos hnow]
      exact .none hre (.refl _)
    · rw [if_neg hnow, if_neg hnow]
      generalize hal : (d.coordinator.moveDue job due now).allocateRequestId = allocated
      obtain ⟨c, id⟩ := allocated
      rcases allocateRequestId_zero hal with ⟨rfl, rfl⟩ | ⟨hze, rfl, rfl⟩
      · exact .none ⟨rfl, rfl, rfl, rfl, rfl, rfl, le_rfl⟩ ⟨rfl, rfl⟩
      · rw [if_neg hze, if_neg hze]
        exact .offered ⟨rfl, rfl, rfl, rfl, rfl, rfl, Nat.le_succ _⟩ ⟨rfl, rfl⟩ rfl rfl rfl rfl

theorem jobOffer_eq_some {now : ℤ} {d : DueRun L} {job : CollectionJob} {o : QueueOffer L}
    (h : jobOffer current now d job = some o) :
    ∃ due id, d.coordinator.nextDue.find? job.id = some due ∧ due ≤ now ∧
      o = ⟨(d.coordinator.moveDue job due now).allocateRequestId.1, dueTask current job
        (due + job.period * (dueSteps due job.period now - 1 : ℕ)) id⟩ := by
  unfold jobOffer at h
  cases hdue : d.coordinator.nextDue.find? job.id with
  | none => simp [hdue] at h
  | some due =>
    simp only [hdue] at h
    split_ifs at h with hnow hid
    exact ⟨due, _, rfl, not_lt.mp hnow, (Option.some.inj h).symm⟩

/-- Everything `freshRead` can do before it waits: fail, join the registered task, or offer a
task of its own. -/
inductive FreshAdmission (c : Coordinator L) (signature : FreshSignature) :
    FreshRead L → List (QueueOffer L) → Prop
  | failed (status : Status) : FreshAdmission c signature ⟨c, .error status, none⟩ []
  | joined {task : CollectionTask} (hroom : c.freshWaiters ≠ c.limits.maxFreshWaiters)
      (hfind : c.freshTasks.find? signature = some task.id) (htask : task ∈ c.tasks) :
      FreshAdmission c signature
        ⟨{ c with freshWaiters := c.freshWaiters + 1 }, .ok task.id, none⟩ []
  | offered {task : CollectionTask} (hroom : c.freshWaiters ≠ c.limits.maxFreshWaiters)
      (hid : task.id = c.nextRequestId) (hsignature : task.freshSignature = some signature)
      (hkeys : task.keys = signature.keys) (hnonempty : signature.keys ≠ []) :
      FreshAdmission c signature
        (ofEnqueued c.nextRequestId (c.issue.enqueueLocked task)) [⟨c.issue, task⟩]

/-- A registered task is alive, so a caller fails, joins it, or offers a task of its own. -/
theorem joinFresh_cases (h : c.KeysHeld) (keys : List DataKey) (gen : ℕ) (dl sch : ℤ) :
    (∃ st, c.joinFresh keys gen dl sch = ⟨c, .error st, none⟩) ∨
    (∃ task ∈ c.tasks, c.freshTasks.find? ⟨gen, keys⟩ = some task.id ∧
      c.joinFresh keys gen dl sch =
        ⟨{ c with freshWaiters := c.freshWaiters + 1 }, .ok task.id, none⟩) ∨
    c.joinFresh keys gen dl sch =
      ofEnqueued c.nextRequestId (c.issue.enqueueLocked
        (c.issue.freshTask keys gen c.nextRequestId dl sch)) := by
  unfold joinFresh
  dsimp only
  cases hfi : c.freshTasks.find? ⟨gen, keys⟩ with
  | none =>
    unfold enqueueFresh
    generalize hal : c.allocateRequestId = allocated
    obtain ⟨issued, id⟩ := allocated
    rcases allocateRequestId_zero hal with ⟨rfl, rfl⟩ | ⟨hze, rfl, rfl⟩
    · exact .inl ⟨_, rfl⟩
    · rw [if_neg hze]
      exact .inr (.inr rfl)
  | some id =>
    dsimp only
    cases hli : c.liveTask? id with
    | none =>
      have hso := h.liveTask?_isSome hfi
      simp [hli] at hso
    | some task =>
      dsimp only
      split_ifs
      · have hfo := List.find?_some hli
        obtain rfl : task.id = id := of_decide_eq_true hfo
        exact .inr (.inl ⟨task, mem_of_find?_eq_some hli, rfl, rfl⟩)
      · exact .inl ⟨_, rfl⟩

theorem freshReadLocked_admission (h : c.KeysHeld) (req : List DataKey) (gen : ℕ) (dl now sch : ℤ) :
    FreshAdmission c ⟨gen, req.insertionSort (· ≤ ·)⟩
      (c.freshReadLocked req gen dl now sch)
      (c.freshOffers req gen dl now sch) := by
  unfold freshOffers
  obtain ⟨st, -, heq⟩ | ⟨hreq, hro, heq⟩ :=
    c.freshReadLocked_cases req gen dl now sch
  · rw [heq, if_pos rfl]
    exact .failed st
  · rw [heq]
    have hne : req.insertionSort (· ≤ ·) ≠ [] := by
      intro hnil
      have hle := (perm_insertionSort (· ≤ ·) req).length_eq
      rw [hnil] at hle
      exact hreq (length_eq_zero_iff.mp hle.symm)
    generalize req.insertionSort (· ≤ ·) = keys at hne
    obtain ⟨st, hjoin⟩ | ⟨task, hta, hfi, hjoin⟩ | hjoin :=
      joinFresh_cases h keys gen dl sch
    · rw [hjoin, if_pos rfl]
      exact .failed st
    · rw [hjoin, if_pos rfl]
      exact .joined hro hfi hta
    · have hnex : (ofEnqueued c.nextRequestId (c.issue.enqueueLocked
          (c.issue.freshTask keys gen c.nextRequestId dl
            sch))).coordinator.nextRequestId ≠ c.nextRequestId := by
        have hof : ∀ queued : Enqueued L, (ofEnqueued c.nextRequestId
            queued).coordinator.nextRequestId = queued.coordinator.nextRequestId := by
          intro queued
          unfold ofEnqueued
          split <;> rfl
        rw [hof, enqueueLocked_nextRequestId]
        exact Nat.succ_ne_self _
      rw [hjoin, if_neg hnex]
      exact .offered hro rfl rfl rfl hne

/-! ### The invariant along the offers -/

section Invariant

variable {cancelled entered : List CollectionTask} {finished : List (CollectionTask × Status)}

theorem QueueInvariant.offer (h : c.QueueInvariant cancelled entered finished)
    (hsa : SameQueue c c') {task : CollectionTask} (hid : task.id = c.nextRequestId)
    (hne : c'.nextRequestId = c.nextRequestId + 1)
    (hsi : ∀ sig, task.freshSignature = some sig →
      task.keys = sig.keys ∧ sig.keys ≠ []) :
    (c'.enqueueLocked task).coordinator.QueueInvariant cancelled
      (entered ++ (⟨c', task⟩ : QueueOffer L).accepted)
      (finished ++ (⟨c', task⟩ : QueueOffer L).dropped) := by
  refine (h.of_same hsa).enqueue ?_ ?_ hsi
  · rw [hid, hne]
    exact Nat.lt_succ_self _
  · intro other hot
    rw [hid]
    exact h.tasks.issued other hot

theorem QueueInvariant.runJob {d : DueRun L}
    (h : d.coordinator.QueueInvariant cancelled entered finished) (current : CollectionPlan)
    (now : ℤ) (job : CollectionJob) :
    (Coordinator.runJob current now d job).coordinator.QueueInvariant cancelled
      (entered ++ (jobOffer current now d job).toList.flatMap accepted)
      (finished ++ (jobOffer current now d job).toList.flatMap dropped) := by
  have hof := runJob_offers current now d job
  generalize jobOffer current now d job = offer at hof ⊢
  cases hof with
  | none hsa => simpa using h.of_same hsa
  | offered hsa _ hid hne hfr hqu =>
    rw [hqu, Option.toList_some, flatMap_singleton, flatMap_singleton]
    exact h.offer hsa hid hne fun sig hso => by simp [hfr] at hso

theorem QueueInvariant.dueLoop {d : DueRun L}
    (h : d.coordinator.QueueInvariant cancelled entered finished) (current : CollectionPlan)
    (now : ℤ) (jobs : List CollectionJob) :
    (jobs.foldl (Coordinator.runJob current now) d).coordinator.QueueInvariant cancelled
      (entered ++ (dueOffers current now jobs d).flatMap accepted)
      (finished ++ (dueOffers current now jobs d).flatMap dropped) := by
  induction jobs generalizing d entered finished with
  | nil => simpa [dueOffers] using h
  | cons job rest ih =>
    have hre := ih (h.runJob current now job)
    simpa only [dueOffers, foldl_cons, flatMap_append, append_assoc] using hre

theorem QueueInvariant.runDue (h : c.QueueInvariant cancelled entered finished)
    (current : CollectionPlan) (now : ℤ) :
    (c.runDueLocked current now).unlock.QueueInvariant cancelled
      (entered ++ (c.runDueOffers current now).flatMap accepted)
      (finished ++ (c.runDueOffers current now).flatMap dropped) := by
  unfold runDueLocked runDueOffers
  split_ifs
  · rw [flatMap_nil, flatMap_nil, append_nil, append_nil]
    exact h.of_same ⟨rfl, rfl, rfl, rfl, rfl, rfl, le_rfl⟩
  · rw [flatMap_nil, flatMap_nil, append_nil, append_nil]
    exact h.of_same ⟨rfl, rfl, rfl, rfl, rfl, rfl, le_rfl⟩
  · have hsy : SameQueue c (c.synchronizePlan current) := by
      unfold synchronizePlan
      split_ifs
      · exact ⟨rfl, rfl, rfl, rfl, rfl, rfl, le_rfl⟩
      · exact ⟨rfl, rfl, rfl, rfl, rfl, rfl, le_rfl⟩
    have hlo := dueLoop (d := { coordinator := c.synchronizePlan current })
      (h.of_same hsy) current now current.jobs
    exact hlo.of_same ⟨rfl, rfl, rfl, rfl, rfl, rfl, le_rfl⟩

theorem QueueInvariant.freshRead (h : c.QueueInvariant cancelled entered finished)
    (req : List DataKey) (gen : ℕ) (dl now sch : ℤ) :
    (c.freshReadLocked req gen dl now
        sch).coordinator.QueueInvariant cancelled
      (entered ++ (c.freshOffers req gen dl now sch).flatMap accepted)
      (finished ++ (c.freshOffers req gen dl now sch).flatMap dropped) := by
  have hadm := freshReadLocked_admission h.keys req gen dl now sch
  generalize c.freshOffers req gen dl now sch = offers at hadm ⊢
  generalize c.freshReadLocked req gen dl now sch = read at hadm ⊢
  cases hadm with
  | failed st => simpa using h
  | joined hro hfi hta =>
    have hsa : SameQueue c { c with freshWaiters := c.freshWaiters + 1 } :=
      ⟨rfl, rfl, rfl, rfl, rfl, rfl, le_rfl⟩
    simpa using h.of_same hsa
  | @offered task hro hid hsig hke hne =>
    have his : SameQueue c c.issue := ⟨rfl, rfl, rfl, rfl, rfl, rfl, Nat.le_succ _⟩
    have hof := h.offer his hid rfl fun sig hso => by
        rw [hsig, Option.some.injEq] at hso
        exact hso ▸ ⟨hke, hne⟩
    rw [flatMap_singleton, flatMap_singleton]
    refine hof.of_same ?_
    unfold ofEnqueued
    split <;> exact ⟨rfl, rfl, rfl, rfl, rfl, rfl, le_rfl⟩

end Invariant

/-! ### Waiters -/

theorem setCompletion_sameWaiters (c : Coordinator L) (task : CollectionTask) (st : Status) :
    SameWaiters c (c.setCompletion task st) := by
  rw [setCompletion_eq]
  exact ⟨rfl, rfl⟩

theorem enqueueLocked_sameWaiters (c : Coordinator L) (task : CollectionTask) :
    SameWaiters c (c.enqueueLocked task).coordinator := by
  obtain ⟨_, -, heq⟩ | heq | ⟨last, -, -, heq⟩ := c.enqueueLocked_eq task
  · rw [heq]
    exact .refl c
  · rw [heq]
    exact ⟨rfl, rfl⟩
  · rw [heq, evict, setCompletion_eq]
    exact ⟨rfl, rfl⟩

theorem runJob_sameWaiters (now : ℤ) (d : DueRun L) (job : CollectionJob) :
    SameWaiters d.coordinator (runJob current now d job).coordinator := by
  have hof := runJob_offers current now d job
  generalize jobOffer current now d job = offer at hof
  cases hof with
  | none _ hwa => exact hwa
  | offered _ hwa _ _ _ hqu =>
    rw [hqu]
    exact hwa.trans (enqueueLocked_sameWaiters _ _)

theorem runDue_sameWaiters (c : Coordinator L) (current : CollectionPlan) (now : ℤ) :
    SameWaiters c (c.runDueLocked current now).unlock := by
  unfold runDueLocked
  split_ifs
  · exact ⟨rfl, rfl⟩
  · exact ⟨rfl, rfl⟩
  · have hsy : SameWaiters c (c.synchronizePlan current) := by
      unfold synchronizePlan
      split_ifs
      · exact ⟨rfl, rfl⟩
      · exact ⟨rfl, rfl⟩
    have hlo := relation_run (R := fun d e : DueRun L => SameWaiters d.coordinator e.coordinator)
      (fun _ => .refl _) (fun _ _ _ => .trans) (runJob_sameWaiters current now)
      { coordinator := c.synchronizePlan current } current.jobs
    exact hsy.trans ⟨hlo.limits_eq, hlo.freshWaiters_eq⟩

theorem workerNote_sameWaiters (c : Coordinator L) : SameWaiters c c.workerNote := by
  obtain heq | ⟨_, _, -, heq⟩ := c.workerNote_eq
  · rw [heq]
    exact .refl c
  · rw [heq]
    exact ⟨rfl, rfl⟩

theorem workerTake_sameWaiters (c : Coordinator L) : SameWaiters c c.workerTake := by
  unfold workerTake
  split
  · exact ⟨rfl, rfl⟩
  · exact .refl c

theorem workerRelease_sameWaiters (c : Coordinator L) : SameWaiters c c.workerRelease := by
  unfold workerRelease
  split
  · exact ⟨rfl, rfl⟩
  · exact .refl c

theorem workerComplete_sameWaiters (c : Coordinator L) (st : Status) :
    SameWaiters c (c.workerComplete st) := by
  unfold workerComplete
  split
  next task _ =>
    have hset := setCompletion_sameWaiters c task st
    exact ⟨hset.limits_eq, hset.freshWaiters_eq⟩
  next => exact .refl c

theorem cancelQueue_sameWaiters (tasks : List CollectionTask) (c : Coordinator L) :
    SameWaiters c (cancelQueue tasks c) := by
  induction tasks generalizing c with
  | nil => exact .refl c
  | cons task rest ih =>
    have hre := ih { c.releaseTaskLocked task with queue := rest }
    exact ⟨hre.limits_eq, hre.freshWaiters_eq⟩

theorem activateCatalog_same (c : Coordinator L) (cat : Option CatalogView) :
    SameQueue c (c.activateCatalog cat).1 ∧ SameWaiters c (c.activateCatalog cat).1 := by
  obtain ⟨_, _, _, _, heq⟩ := c.activateCatalog_eq cat
  rw [heq]
  exact ⟨⟨rfl, rfl, rfl, rfl, rfl, rfl, le_rfl⟩, rfl, rfl⟩

theorem note_same (c : Coordinator L) (call : ℕ) :
    SameQueue c (c.step (.note call)) ∧ SameWaiters c (c.step (.note call)) := by
  rw [step]
  split
  · rw [noteLogicalResults_eq]
    exact ⟨⟨rfl, rfl, rfl, rfl, rfl, rfl, le_rfl⟩, rfl, rfl⟩
  · exact ⟨⟨rfl, rfl, rfl, rfl, rfl, rfl, le_rfl⟩, .refl c⟩

end Coordinator

/-! ### The runtime -/

namespace FreshRuntime

variable {L : Limits} {t : FreshRuntime L}

/-- The tasks that entered the queue, in order. -/
def entered (t : FreshRuntime L) : List CollectionTask := t.offers.flatMap accepted

/-- The tasks that some thread or the queue still holds. -/
def live (t : FreshRuntime L) : List CollectionTask := t.coordinator.tasks ++ t.cancelled

def record (t : FreshRuntime L) (offers : List (QueueOffer L)) : FreshRuntime L :=
  { t with
    offers := t.offers ++ offers
    finished := t.finished ++ offers.flatMap dropped }

/-- The caller that goes on to wait. -/
def joining (signature : FreshSignature) (deadline : ℤ) : Except Status ℕ → List FreshCaller
  | .ok requestId => [⟨requestId, signature, deadline, .waiting⟩]
  | .error _ => []

def step (t : FreshRuntime L) : RuntimeStep L → FreshRuntime L
  | .runDue current now =>
    { t.record (t.coordinator.runDueOffers current now) with
      coordinator := (t.coordinator.runDueLocked current now).unlock }
  | .note call => { t with coordinator := t.coordinator.step (.note call) }
  | .freshRead keys catalogGeneration deadline now scheduled =>
    let read := t.coordinator.freshReadLocked keys catalogGeneration deadline now scheduled
    { t.record (t.coordinator.freshOffers keys catalogGeneration deadline now scheduled) with
      coordinator := read.coordinator
      callers := t.callers ++
        joining ⟨catalogGeneration, keys.insertionSort (· ≤ ·)⟩ deadline read.outcome }
  | .await i now =>
    { t with
      callers := t.callers.modify i fun caller =>
        caller.await (t.coordinator.completions.find? caller.requestId) now }
  | .leave i =>
    match t.callers[i]? with
    | some ⟨_, _, _, .leaving _ _⟩ =>
      { t with
        coordinator := { t.coordinator with freshWaiters := t.coordinator.freshWaiters - 1 }
        callers := t.callers.modify i FreshCaller.leave }
    | _ => t
  | .workerTake => { t with coordinator := t.coordinator.workerTake }
  | .workerNote => { t with coordinator := t.coordinator.workerNote }
  | .workerRelease => { t with coordinator := t.coordinator.workerRelease }
  | .workerComplete status =>
    { t with
      coordinator := t.coordinator.workerComplete status
      finished := t.finished ++ t.coordinator.completing.map fun task => (task, status) }
  | .shutdown =>
    { t with
      coordinator := t.coordinator.shutdownLocked
      cancelled := t.cancelled ++ t.coordinator.queue }
  | .finishCancelled =>
    match t.cancelled with
    | [] => t
    | task :: rest =>
      { t with
        coordinator := t.coordinator.setCompletion task stoppedStatus
        cancelled := rest
        finished := t.finished ++ [(task, stoppedStatus)] }
  | .publishPlan next => { t with coordinator := { t.coordinator with plan := next } }
  | .installPlan next => { t with coordinator := t.coordinator.installPlan next }
  | .activateCatalog catalog => { t with coordinator := (t.coordinator.activateCatalog catalog).1 }
  | .dataChanged data => { t with coordinator := { t.coordinator with data := data } }

variable (limits : CollectionLimits) (valid : limits.validate.ok = true)
  (watchManager : Option WatchManager) (data : DataManager L)

/-- A new coordinator. -/
def start : FreshRuntime L where
  coordinator := { limits := limits, valid := valid, watchManager := watchManager, data := data }

def run (steps : List (RuntimeStep L)) : FreshRuntime L :=
  runFrom step (start limits valid watchManager data) steps

def Invariant (t : FreshRuntime L) : Prop :=
  t.coordinator.QueueInvariant t.cancelled t.entered t.finished

theorem entered_record (t : FreshRuntime L) (offers : List (QueueOffer L)) :
    (t.record offers).entered = t.entered ++ offers.flatMap accepted :=
  flatMap_append ..

theorem step_invariant (t : FreshRuntime L) (s : RuntimeStep L) (h : t.Invariant) :
    (t.step s).Invariant := by
  unfold Invariant at h ⊢
  cases s with
  | runDue current now =>
    have hrun := h.runDue current now
    rwa [← entered_record] at hrun
  | note call => exact h.of_same (t.coordinator.note_same call).1
  | freshRead keys gen dl now sch =>
    have hre := h.freshRead keys gen dl now sch
    rwa [← entered_record] at hre
  | await i now => exact h
  | leave i =>
    rw [step]
    split
    · exact h.of_same ⟨rfl, rfl, rfl, rfl, rfl, rfl, le_rfl⟩
    · exact h
  | workerTake => exact h.workerTake
  | workerNote => exact h.workerNote
  | workerRelease => exact h.workerRelease
  | workerComplete st => exact h.workerComplete st
  | shutdown => exact h.shutdown
  | finishCancelled =>
    rw [step]
    cases hca : t.cancelled with
    | nil =>
      rw [hca]
      rwa [hca] at h
    | cons task rest =>
      rw [hca] at h
      exact h.finishCancelled stoppedStatus
  | publishPlan next => exact h.of_same ⟨rfl, rfl, rfl, rfl, rfl, rfl, le_rfl⟩
  | installPlan next => exact h.of_same ⟨rfl, rfl, rfl, rfl, rfl, rfl, le_rfl⟩
  | activateCatalog cat => exact h.of_same (t.coordinator.activateCatalog_same cat).1
  | dataChanged data => exact h.of_same ⟨rfl, rfl, rfl, rfl, rfl, rfl, le_rfl⟩

theorem start_invariant : (start limits valid watchManager data).Invariant := by
  refine ⟨⟨Nat.zero_le _, .nil, fun p => .refl _⟩, ⟨.nil, ?_⟩, ?_⟩
  · intro sig id hid
    cases hid
  · refine ⟨.refl _, nodup_nil, ?_, ?_, ?_⟩
    · intro task hta
      cases hta
    · intro task hta
      cases hta
    · intro id st
      simp [start]

end FreshRuntime
end Pdcm
