import Pdcm.Library.TaskQueue
import Pdcm.Collection.FreshTasks

/-!
# The provider queue

What happens to a task of the coordinator: an offer may put it into the queue, a later offer
may evict it, the worker takes it and releases it, and `shutdownAll` cancels what is still
queued. Three invariants carry the rest: the order of the queue, the division of the busy
keys among the tasks that are queued or in flight, and the ledger of the tasks that ever
entered the queue.
-/

namespace Pdcm

open Library List Coordinator CollectionTask

/-- A call of `enqueueLocked` and the coordinator it is made on. -/
structure QueueOffer (L : Limits) where
  coordinator : Coordinator L
  task : CollectionTask

namespace QueueOffer

variable {L : Limits}

def result (o : QueueOffer L) : Coordinator.Enqueued L := o.coordinator.enqueueLocked o.task

/-- The task, if the queue accepts it. -/
def accepted (o : QueueOffer L) : List CollectionTask :=
  if o.result.result = .accepted then [o.task] else []

def evicted (o : QueueOffer L) : List CollectionTask := o.result.evicted.toList

end QueueOffer

namespace Coordinator

variable {L : Limits} {c c' : Coordinator L} {task : CollectionTask} {signature : FreshSignature}

def evictedStatus : Status :=
  ⟨.resourceExhausted, "provider queue evicted a lower-priority request"⟩

def stoppedStatus : Status := ⟨.notInitialized, "collection runtime stopped"⟩

/-- The task that `provider_in_flight` counts. -/
def inFlight (c : Coordinator L) : List CollectionTask :=
  match c.worker with
  | some ⟨task, .reading⟩ => [task]
  | some ⟨task, .recorded⟩ => [task]
  | _ => []

/-- The tasks that are queued or in flight. -/
def held (c : Coordinator L) : List CollectionTask := c.queue ++ c.inFlight

/-- The loop of `shutdownAll` over the queue. -/
def cancelQueue : List CollectionTask → Coordinator L → Coordinator L
  | [], c => c
  | task :: rest, c => cancelQueue rest { c.releaseTaskLocked task with queue := rest }

/-- The locked section of `shutdownAll`. -/
def shutdownLocked (c : Coordinator L) : Coordinator L :=
  cancelQueue c.queue { c with shutdown := true }

theorem inFlight_sublist_worker (c : Coordinator L) :
    c.inFlight.Sublist (c.worker.toList.map Worker.task) := by
  unfold inFlight
  split
  next h => simp [h]
  next h => simp [h]
  next => exact nil_sublist _

theorem held_sublist_tasks (c : Coordinator L) : c.held.Sublist c.tasks :=
  (List.Sublist.refl c.queue).append c.inFlight_sublist_worker

/-! ### The order of the queue -/

/-- The queue within its limit, by priority, and by arrival within a priority. -/
structure QueueOrder (c : Coordinator L) (entered : List CollectionTask) : Prop where
  length_le : c.queue.length ≤ c.limits.maxProviderQueue
  ordered : OrderedBy priority c.queue
  arrival : ∀ p, (ofPriority priority p c.queue).Sublist
    (ofPriority priority p entered)

theorem QueueOrder.sublist {entered : List CollectionTask} (h : c.QueueOrder entered)
    (hli : c'.limits = c.limits) (hqu : c'.queue.Sublist c.queue) :
    c'.QueueOrder entered := by
  constructor
  · rw [hli]
    exact hqu.length_le.trans h.length_le
  · exact h.ordered.sublist hqu
  · intro p
    exact (hqu.filter _).trans (h.arrival p)

theorem QueueOrder.enter {entered : List CollectionTask} (h : c.QueueOrder entered)
    (hro : c.queue.length < c.limits.maxProviderQueue) :
    (c.enterQueue task).QueueOrder (entered ++ [task]) := by
  constructor
  · have hle : (c.enterQueue task).queue.length = c.queue.length + 1 :=
      (insertByPriority_perm c.queue task).length_eq
    rw [hle]
    exact hro
  · exact h.ordered.insertStable task
  · intro p
    have hnew := h.ordered.ofPriority_insertStable task p
    change ofPriority _ p (insertByPriority c.queue task) = _ at hnew
    have hlog : ofPriority priority p (entered ++ [task]) =
        ofPriority priority p entered ++
          ofPriority priority p [task] := filter_append ..
    rw [hlog]
    change (ofPriority priority p (insertByPriority c.queue task)).Sublist _
    rw [hnew]
    exact (h.arrival p).append (.refl _)

/-! ### Busy keys and registrations -/

/-- The busy keys are divided among the tasks that are queued or in flight, and every
registration leads to one of them. -/
structure KeysHeld (c : Coordinator L) : Prop where
  owned : Owned c.busyKeys (c.held.map fun task => task.keys.toFinset)
  registered : ∀ signature id, c.freshTasks.find? signature = some id →
    ∃ task ∈ c.held, task.id = id ∧ task.freshSignature = some signature

theorem KeysHeld.of_perm (h : c.KeysHeld) (hhe : c'.held.Perm c.held)
    (hbu : c'.busyKeys = c.busyKeys) (hfr : c'.freshTasks = c.freshTasks) :
    c'.KeysHeld := by
  constructor
  · rw [hbu]
    exact h.owned.perm (hhe.map _)
  · intro signature id hid
    obtain ⟨task, hta, hown⟩ := h.registered signature id (hfr ▸ hid)
    exact ⟨task, hhe.mem_iff.mpr hta, hown⟩

theorem KeysHeld.enter (h : c.KeysHeld) (hfr : ∀ key ∈ task.keys, key ∉ c.busyKeys) :
    (c.enterQueue task).KeysHeld := by
  have hhe : (c.enterQueue task).held.Perm (task :: c.held) :=
    (insertByPriority_perm c.queue task).append_right _
  constructor
  · refine (h.owned.acquire ?_).perm (hhe.map _)
    refine Finset.disjoint_left.mpr fun key hbu hkey => ?_
    exact hfr key (mem_toFinset.mp hkey) hbu
  · intro signature id hid
    have hold : c.freshTasks.find? signature = some id → ∃ other ∈ (c.enterQueue task).held,
        other.id = id ∧ other.freshSignature = some signature := by
      intro hfi
      obtain ⟨other, hot, hown⟩ := h.registered signature id hfi
      exact ⟨other, hhe.mem_iff.mpr (mem_cons_of_mem _ hot), hown⟩
    unfold enterQueue at hid
    cases hown : task.freshSignature with
    | none => exact hold (by simpa [hown] using hid)
    | some own =>
      simp only [hown, Option.elim_some, OrderedMap.find?_insert] at hid
      split_ifs at hid with heq
      · refine ⟨task, hhe.mem_iff.mpr (mem_cons_self ..), Option.some.inj hid, ?_⟩
        rw [hown, heq]
      · exact hold hid

theorem find?_releaseTaskLocked {id : ℕ}
    (h : (c.releaseTaskLocked task).freshTasks.find? signature = some id) :
    c.freshTasks.find? signature = some id ∧
      ¬(task.freshSignature = some signature ∧ task.id = id) := by
  refine ⟨releaseTaskLocked_unregisters c task signature id h, ?_⟩
  rintro ⟨hown, rfl⟩
  have hfi := releaseTaskLocked_unregisters c task signature task.id h
  unfold releaseTaskLocked at h
  have hsa : task.id = task.request.requestId := rfl
  simp only [hown, hfi] at h
  rw [if_pos (.inl hsa), OrderedMap.find?_erase, if_pos rfl] at h
  cases h

theorem KeysHeld.release (h : c.KeysHeld) (hhe : c.held.Perm (task :: c'.held))
    (hbu : c'.busyKeys = c.busyKeys \ task.keys.toFinset)
    (hfr : ∀ signature id, c'.freshTasks.find? signature = some id →
      c.freshTasks.find? signature = some id ∧
        ¬(task.freshSignature = some signature ∧ task.id = id)) : c'.KeysHeld := by
  constructor
  · rw [hbu]
    exact (h.owned.perm (hhe.symm.map _)).release
  · intro signature id hid
    obtain ⟨hfi, hot⟩ := hfr signature id hid
    obtain ⟨other, hmem, hid', hown⟩ := h.registered signature id hfi
    rcases mem_cons.mp (hhe.mem_iff.mp hmem) with rfl | hmem
    · exact absurd ⟨hown, hid'⟩ hot
    · exact ⟨other, hmem, hid', hown⟩

theorem KeysHeld.liveTask?_isSome (h : c.KeysHeld) {id : ℕ}
    (hid : c.freshTasks.find? signature = some id) : (c.liveTask? id).isSome = true := by
  obtain ⟨task, hmem, rfl, -⟩ := h.registered signature id hid
  exact List.find?_isSome.mpr ⟨task, c.held_sublist_tasks.subset hmem, decide_eq_true rfl⟩

/-! ### The ledger of tasks -/

/-- Every task that entered the queue is held, cancelled or finished, and only once; the
completions are those of the finished fresh tasks. -/
structure TaskLedger (c : Coordinator L) (cancelled entered : List CollectionTask)
    (finished : List (CollectionTask × Status)) : Prop where
  ledger : (c.tasks ++ cancelled ++ finished.map Prod.fst).Perm entered
  distinct : (entered.map CollectionTask.id).Nodup
  issued : ∀ task ∈ entered, task.id < c.nextRequestId
  signed : ∀ task ∈ entered, ∀ signature, task.freshSignature = some signature →
    task.keys = signature.keys ∧ signature.keys ≠ []
  completions : ∀ id status, c.completions.find? id = some status ↔
    ∃ task, (task, status) ∈ finished ∧ task.id = id ∧ task.freshSignature.isSome = true

section Ledger

variable {cancelled cancelled' entered : List CollectionTask}
  {finished : List (CollectionTask × Status)} (h : c.TaskLedger cancelled entered finished)

include h

theorem TaskLedger.of_perm (hta : (c'.tasks ++ cancelled').Perm (c.tasks ++ cancelled))
    (hne : c.nextRequestId ≤ c'.nextRequestId) (hco : c'.completions = c.completions) :
    c'.TaskLedger cancelled' entered finished := by
  constructor
  · exact (hta.append_right _).trans h.ledger
  · exact h.distinct
  · intro task htas
    exact (h.issued task htas).trans_le hne
  · exact h.signed
  · rw [hco]
    exact h.completions

theorem TaskLedger.enter
    (his : task.id < c.nextRequestId) (hnew : ∀ other ∈ entered, other.id < task.id)
    (hsi : ∀ signature, task.freshSignature = some signature →
      task.keys = signature.keys ∧ signature.keys ≠ []) :
    (c.enterQueue task).TaskLedger cancelled (entered ++ [task]) finished := by
  constructor
  · have hta := ((enterQueue_tasks c task).append_right cancelled).append_right
      (finished.map Prod.fst)
    exact (hta.trans (h.ledger.cons task)).trans (perm_append_singleton task entered).symm
  · rw [map_append]
    refine nodup_append.mpr ⟨h.distinct, nodup_singleton _, ?_⟩
    intro id hid other hot
    obtain ⟨old, hea, rfl⟩ := mem_map.mp hid
    rw [mem_singleton.mp hot]
    exact (hnew old hea).ne
  · intro other hot
    rcases mem_append.mp hot with hot | hot
    · exact h.issued other hot
    · rw [mem_singleton.mp hot]
      exact his
  · intro other hot
    rcases mem_append.mp hot with hot | hot
    · exact h.signed other hot
    · rw [mem_singleton.mp hot]
      exact hsi
  · exact h.completions

theorem TaskLedger.eq_of_id {a b : CollectionTask}
    (ha : a ∈ entered) (hb : b ∈ entered) (hid : a.id = b.id) : a = b :=
  inj_on_of_nodup_map h.distinct ha hb hid

theorem TaskLedger.mem_entered (hta : task ∈ c.tasks) : task ∈ entered :=
  h.ledger.mem_iff.mp (mem_append_left _ (mem_append_left _ hta))

theorem TaskLedger.nodup :
    (c.tasks ++ cancelled ++ finished.map Prod.fst).Nodup :=
  h.ledger.nodup_iff.mpr (List.Nodup.of_map _ h.distinct)

theorem TaskLedger.finish {st : Status}
    (hta : (c.tasks ++ cancelled).Perm (task :: (c'.tasks ++ cancelled')))
    (hne : c'.nextRequestId = c.nextRequestId) (hco : c'.completions =
      if task.freshSignature.isSome then c.completions.insert task.id st
      else c.completions) : c'.TaskLedger cancelled' entered (finished ++ [(task, st)]) := by
  have hle : (c'.tasks ++ cancelled' ++ (finished ++ [(task, st)]).map Prod.fst).Perm
      entered := by
    refine .trans ?_ ((hta.symm.append_right (finished.map Prod.fst)).trans h.ledger)
    rw [map_append, ← append_assoc]
    exact perm_append_singleton _ _
  refine ⟨hle, h.distinct, fun other hot => hne ▸ h.issued other hot, h.signed, ?_⟩
  -- no other finished task has the id
  have hnew : ∀ other status', (other, status') ∈ finished → other.id ≠ task.id := by
    intro other status' hot hid
    have hmem : task ∈ c.tasks ++ cancelled := hta.mem_iff.mpr (mem_cons_self ..)
    have hfin : other ∈ finished.map Prod.fst := mem_map.mpr ⟨_, hot, rfl⟩
    have heq := h.eq_of_id (h.ledger.mem_iff.mp (mem_append_right _ hfin))
      (h.ledger.mem_iff.mp (mem_append_left _ hmem)) hid
    exact (nodup_append.mp h.nodup).2.2 task hmem other hfin heq.symm
  intro id status'
  have hsp : (∃ other, (other, status') ∈ finished ++ [(task, st)] ∧ other.id = id ∧
      other.freshSignature.isSome = true) ↔
      (∃ other, (other, status') ∈ finished ∧ other.id = id ∧
        other.freshSignature.isSome = true) ∨
      (status' = st ∧ task.id = id ∧ task.freshSignature.isSome = true) := by
    constructor
    · rintro ⟨other, hot, hid, hfr⟩
      rcases mem_append.mp hot with hot | hot
      · exact .inl ⟨other, hot, hid, hfr⟩
      · cases mem_singleton.mp hot
        exact .inr ⟨rfl, hid, hfr⟩
    · rintro (⟨other, hot, hown⟩ | ⟨rfl, hown⟩)
      · exact ⟨other, mem_append_left _ hot, hown⟩
      · exact ⟨task, mem_append_right _ (mem_singleton.mpr rfl), hown⟩
  rw [hsp, ← h.completions, hco]
  split_ifs with hfr
  · rw [OrderedMap.find?_insert]
    split_ifs with heq
    · subst heq
      have hno : c.completions.find? task.id ≠ some status' := by
        intro hfi
        obtain ⟨other, hot, hid, -⟩ := (h.completions _ _).mp hfi
        exact hnew other status' hot hid
      simp [hno, hfr, eq_comm]
    · simp [Ne.symm heq]
  · simp [hfr]

end Ledger

/-! ### Offers -/

/-- Everything `enqueueLocked` can do with a queue within its limit. -/
inductive Enqueues (c : Coordinator L) (task : CollectionTask) : Enqueued L → Prop
  | refused {result : EnqueueResult} (hresult : result ≠ .accepted) :
      Enqueues c task { coordinator := c, result := result }
  | entered (hfree : ∀ key ∈ task.keys, key ∉ c.busyKeys)
      (hroom : c.queue.length < c.limits.maxProviderQueue) :
      Enqueues c task { coordinator := c.enterQueue task, result := .accepted }
  | replaced {last : CollectionTask} (hfree : ∀ key ∈ task.keys, key ∉ c.busyKeys)
      (hlast : c.queue.getLast? = some last) (hpriority : last.priority < task.priority) :
      Enqueues c task
        { coordinator := (c.evict last).enterQueue task, result := .accepted, evicted := last }

theorem enqueueLocked_enqueues (hle : c.queue.length ≤ c.limits.maxProviderQueue)
    (task : CollectionTask) : c.Enqueues task (c.enqueueLocked task) := by
  unfold enqueueLocked
  split_ifs with hst hbu hfu
  · exact .refused (by decide)
  · exact .refused (by decide)
  · have hfr : ∀ key ∈ task.keys, key ∉ c.busyKeys := by simpa using hbu
    cases hla : c.queue.getLast? with
    | none => exact .refused (by decide)
    | some last =>
      dsimp only
      split_ifs with hpr
      · exact .refused (by decide)
      · exact .replaced hfr hla (not_le.mp hpr)
  · have hfr : ∀ key ∈ task.keys, key ∉ c.busyKeys := by simpa using hbu
    exact .entered hfr (lt_of_le_of_ne hle hfu)

/-- An evicted task was the last of the queue, and of a lower priority. -/
theorem evicted_of_enqueueLocked (c : Coordinator L) {last : CollectionTask}
    (h : (c.enqueueLocked task).evicted = some last) :
    c.queue.getLast? = some last ∧ last.priority < task.priority := by
  obtain ⟨_, -, heq⟩ | heq | ⟨back, hla, hpr, heq⟩ := c.enqueueLocked_eq task
  · simp [heq] at h
  · simp [heq] at h
  · rw [heq] at h
    obtain rfl := Option.some.inj h
    exact ⟨hla, hpr⟩

/-- The three invariants of the queue, with the records they are about. -/
structure QueueInvariant (c : Coordinator L) (cancelled entered : List CollectionTask)
    (finished : List (CollectionTask × Status)) : Prop where
  order : c.QueueOrder entered
  keys : c.KeysHeld
  tasks : c.TaskLedger cancelled entered finished

section Invariant

variable {cancelled entered : List CollectionTask} {finished : List (CollectionTask × Status)}
  {last : CollectionTask}

/-- The parts of the state that the invariants look at, apart from the id counter. -/
structure SameQueue (c c' : Coordinator L) : Prop where
  limits_eq : c'.limits = c.limits
  queue_eq : c'.queue = c.queue
  worker_eq : c'.worker = c.worker
  busyKeys_eq : c'.busyKeys = c.busyKeys
  freshTasks_eq : c'.freshTasks = c.freshTasks
  completions_eq : c'.completions = c.completions
  issued : c.nextRequestId ≤ c'.nextRequestId

theorem QueueInvariant.of_same (h : c.QueueInvariant cancelled entered finished)
    (hsa : SameQueue c c') : c'.QueueInvariant cancelled entered finished := by
  have hhe : c'.held = c.held := by
    rw [held, held, inFlight, inFlight, hsa.queue_eq, hsa.worker_eq]
  have hta : c'.tasks = c.tasks := by
    rw [Coordinator.tasks, Coordinator.tasks, hsa.queue_eq, hsa.worker_eq]
  constructor
  · exact h.order.sublist hsa.limits_eq (by rw [hsa.queue_eq])
  · exact h.keys.of_perm (by rw [hhe]) hsa.busyKeys_eq hsa.freshTasks_eq
  · exact h.tasks.of_perm (by rw [hta]) hsa.issued hsa.completions_eq

theorem evict_eq (c : Coordinator L) (last : CollectionTask) :
    c.evict last =
      { ({ c with queue := c.queue.dropLast } : Coordinator L).releaseTaskLocked last with
        completions :=
          if last.freshSignature.isSome then c.completions.insert last.id evictedStatus
          else c.completions } := by
  rw [evict, setCompletion_eq]
  rfl

theorem QueueInvariant.evict (h : c.QueueInvariant cancelled entered finished)
    (hla : c.queue.getLast? = some last) :
    (c.evict last).QueueInvariant cancelled entered (finished ++ [(last, evictedStatus)]) := by
  rw [evict_eq]
  constructor
  · exact h.order.sublist rfl (dropLast_sublist _)
  · refine h.keys.release ((perm_cons_dropLast hla).append_right _) rfl ?_
    intro signature id hid
    exact find?_releaseTaskLocked (c := { c with queue := c.queue.dropLast }) hid
  · refine h.tasks.finish ?_ rfl rfl
    exact ((perm_cons_dropLast hla).append_right _).append_right _

section Enqueue

variable (h : c.QueueInvariant cancelled entered finished) (his : task.id < c.nextRequestId)
  (hnew : ∀ other ∈ entered, other.id < task.id) (hsi : ∀ signature,
    task.freshSignature = some signature → task.keys = signature.keys ∧ signature.keys ≠ [])
include h his hnew hsi

theorem QueueInvariant.enter (hfr : ∀ key ∈ task.keys, key ∉ c.busyKeys)
    (hro : c.queue.length < c.limits.maxProviderQueue) :
    (c.enterQueue task).QueueInvariant cancelled (entered ++ [task]) finished :=
  ⟨h.order.enter hro, h.keys.enter hfr, h.tasks.enter his hnew hsi⟩

theorem QueueInvariant.enqueue :
    (c.enqueueLocked task).coordinator.QueueInvariant cancelled
      (entered ++ (⟨c, task⟩ : QueueOffer L).accepted)
      (finished ++ (⟨c, task⟩ : QueueOffer L).evicted.map fun last => (last, evictedStatus)) := by
  have hen := enqueueLocked_enqueues h.order.length_le task
  unfold QueueOffer.accepted QueueOffer.evicted QueueOffer.result
  generalize c.enqueueLocked task = queued at hen ⊢
  cases hen with
  | refused hre => simpa [hre] using h
  | entered hfr hro => simpa using h.enter his hnew hsi hfr hro
  | @replaced last hfr hla hpr =>
    have hev := h.evict hla
    have hro : c.queue.dropLast.length < c.limits.maxProviderQueue := by
      have hpe := (perm_cons_dropLast hla).length_eq
      rw [length_cons] at hpe
      have hle := h.order.length_le
      omega
    have hfr' : ∀ key ∈ task.keys, key ∉ c.busyKeys \ last.keys.toFinset :=
      fun key hkey hbu => hfr key hkey (Finset.mem_sdiff.mp hbu).1
    rw [evict_eq] at hev ⊢
    exact hev.enter his hnew hsi hfr' hro

end Enqueue

/-! ### The worker and the shutdown -/

section

variable (h : c.QueueInvariant cancelled entered finished)

include h

theorem QueueInvariant.workerTake :
    c.workerTake.QueueInvariant cancelled entered finished := by
  unfold Coordinator.workerTake
  split
  next task rest hwo hqu =>
    have hhe : (rest ++ [task]).Perm c.held := by
      simp only [held, inFlight, hwo, hqu, append_nil]
      exact perm_append_singleton task rest
    have hta : (rest ++ [task]).Perm c.tasks := by
      simp only [Coordinator.tasks, hwo, hqu, Option.toList_none, map_nil, append_nil]
      exact perm_append_singleton task rest
    constructor
    · exact h.order.sublist rfl (by rw [hqu]; exact sublist_cons_self task rest)
    · exact h.keys.of_perm hhe rfl rfl
    · exact h.tasks.of_perm (hta.append_right _) le_rfl rfl
  next => exact h

theorem QueueInvariant.workerNote :
    c.workerNote.QueueInvariant cancelled entered finished := by
  obtain heq | ⟨task, m, hwo, heq⟩ := c.workerNote_eq
  · rwa [heq]
  · rw [heq]
    constructor
    · exact h.order.sublist rfl (.refl _)
    · refine h.keys.of_perm ?_ rfl rfl
      simp [held, inFlight, hwo]
    · refine h.tasks.of_perm ?_ le_rfl rfl
      simp [Coordinator.tasks, hwo]

theorem QueueInvariant.workerRelease :
    c.workerRelease.QueueInvariant cancelled entered finished := by
  unfold Coordinator.workerRelease
  split
  next task hwo =>
    constructor
    · exact h.order.sublist rfl (.refl _)
    · refine h.keys.release ?_ rfl fun signature id hid => find?_releaseTaskLocked hid
      simp only [held, inFlight, hwo, append_nil]
      exact perm_append_singleton task c.queue
    · refine h.tasks.of_perm ?_ le_rfl rfl
      simp [Coordinator.tasks, hwo, releaseTaskLocked]
  next => exact h

end

/-- The task the worker completes, if it has got so far. -/
def completing (c : Coordinator L) : List CollectionTask :=
  match c.worker with
  | some ⟨task, .released⟩ => [task]
  | _ => []

section

variable (h : c.QueueInvariant cancelled entered finished)

include h

theorem QueueInvariant.workerComplete (st : Status) :
    (c.workerComplete st).QueueInvariant cancelled entered
      (finished ++ c.completing.map fun task => (task, st)) := by
  unfold completing
  split
  next task hwo =>
    obtain ⟨hta, -, hcom, hne⟩ := workerComplete_drops hwo st
    have hco : c.workerComplete st = { c.setCompletion task st with worker := none } := by
      simp only [Coordinator.workerComplete, hwo]
    constructor
    · refine h.order.sublist ?_ ?_
      · rw [hco, setCompletion_eq]
      · rw [hco, setCompletion_eq]
    · rw [hco, setCompletion_eq]
      refine h.keys.of_perm ?_ rfl rfl
      simp [held, inFlight, hwo]
    · exact h.tasks.finish (hta.append_right _) hne hcom
  next hot =>
    have hsa : c.workerComplete st = c := by
      unfold Coordinator.workerComplete
      split
      next task hwo => exact absurd hwo (hot task)
      next => rfl
    rw [hsa, map_nil, append_nil]
    exact h

/-- The loop of `shutdownAll`: whatever is still queued becomes cancelled. -/
theorem QueueInvariant.cancelQueue :
    (cancelQueue c.queue c).QueueInvariant (cancelled ++ c.queue) entered
      finished := by
  generalize hqu : c.queue = queue
  induction queue generalizing c cancelled with
  | nil => simpa [cancelQueue] using h
  | cons task rest ih =>
    have hst : ({ c.releaseTaskLocked task with queue := rest } :
        Coordinator L).QueueInvariant (cancelled ++ [task]) entered finished := by
      constructor
      · refine h.order.sublist rfl ?_
        rw [hqu]
        exact sublist_cons_self task rest
      · refine h.keys.release ?_ rfl fun signature id hid => find?_releaseTaskLocked hid
        simp [held, inFlight, hqu, releaseTaskLocked]
      · refine h.tasks.of_perm ?_ le_rfl rfl
        simp only [Coordinator.tasks, hqu, ← append_assoc]
        exact perm_append_singleton _ _
    have hre := ih hst rfl
    rwa [append_assoc] at hre

theorem QueueInvariant.shutdown :
    c.shutdownLocked.QueueInvariant (cancelled ++ c.queue) entered finished :=
  cancelQueue (c := { c with shutdown := true })
    (h.of_same ⟨rfl, rfl, rfl, rfl, rfl, rfl, le_rfl⟩)

end

theorem QueueInvariant.finishCancelled (h : c.QueueInvariant (task :: cancelled) entered finished)
    (st : Status) :
    (c.setCompletion task st).QueueInvariant cancelled entered (finished ++ [(task, st)]) := by
  rw [setCompletion_eq]
  constructor
  · exact h.order.sublist rfl (.refl _)
  · exact h.keys.of_perm (.refl _) rfl rfl
  · exact h.tasks.finish perm_middle rfl rfl

end Invariant

end Coordinator
end Pdcm
