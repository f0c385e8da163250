import Pdcm.Collection.CoordinatorRuns
import Pdcm.Data.QueryEngine

/-!
# The tasks of the coordinator

A task has its own request id; a registered signature leads to the task it was registered
for; a completed id belongs to no task any more. Every step of the coordinator is a chain
of three kinds of moves, so the caller of `freshRead` keeps track of the task it waits for:
the task is queued, at the worker, or completed.
-/

namespace Pdcm

open Library List OrderedMap

def CollectionTask.id (t : CollectionTask) : ℕ := t.request.requestId

/-- The task reads exactly the keys of the signature, under its generation. -/
structure CollectionTask.Answers (t : CollectionTask) (signature : FreshSignature) : Prop where
  items : t.request.items = signature.keys.map fun key => ⟨key.entity, .metric, key.metric⟩
  kind : t.job.kind = .metric
  plan : t.plan.catalogGeneration = signature.catalogGeneration
  request : t.request.catalogGeneration = signature.catalogGeneration

namespace Coordinator

variable {L : Limits} {c c' : Coordinator L} {task : CollectionTask} {status : Status}
  {done : Status → Prop} {signature : FreshSignature} {last : CollectionTask}
  {evicted : Option CollectionTask}

structure Registered (c : Coordinator L) : Prop where
  distinct : (c.tasks.map CollectionTask.id).Nodup
  issued : ∀ task ∈ c.tasks, task.id < c.nextRequestId
  signed : ∀ task ∈ c.tasks, ∀ signature, task.freshSignature = some signature →
    task.Answers signature
  registered : ∀ signature id, c.freshTasks.find? signature = some id →
    id < c.nextRequestId ∧ ∀ task ∈ c.tasks, task.id = id → task.freshSignature = some signature
  completed : ∀ id status, c.completions.find? id = some status →
    id < c.nextRequestId ∧ ∀ task ∈ c.tasks, task.id ≠ id

/-- No registration is new. -/
def Unregisters (c c' : Coordinator L) : Prop :=
  ∀ signature id, c'.freshTasks.find? signature = some id → c.freshTasks.find? signature = some id

/-- A worker that has a task still has it. -/
def WorkerKeeps (c c' : Coordinator L) : Prop :=
  ∀ task phase, c.worker = some ⟨task, phase⟩ → ∃ phase', c'.worker = some ⟨task, phase'⟩

theorem WorkerKeeps.of_eq (h : c'.worker = c.worker) : WorkerKeeps c c' :=
  fun _ phase hwo => ⟨phase, h.trans hwo⟩

/-- The task leaves, with a completion if a fresh read waits for it. -/
structure Drops (task : CollectionTask) (status : Status) (c c' : Coordinator L) : Prop where
  tasks : c.tasks.Perm (task :: c'.tasks)
  fresh : Unregisters c c'
  completions : c'.completions =
    if task.freshSignature.isSome then c.completions.insert task.id status else c.completions
  next : c'.nextRequestId = c.nextRequestId

/-- A task joins whose id is not in use. -/
structure Enters (task : CollectionTask) (c c' : Coordinator L) : Prop where
  tasks : c'.tasks.Perm (task :: c.tasks)
  fresh : ∀ signature id, c'.freshTasks.find? signature = some id →
    c.freshTasks.find? signature = some id ∨ task.freshSignature = some signature ∧ id = task.id
  signed : ∀ signature, task.freshSignature = some signature → task.Answers signature
  new : ∀ other ∈ c.tasks, other.id ≠ task.id
  unregistered : ∀ signature, c.freshTasks.find? signature ≠ some task.id
  uncompleted : c.completions.find? task.id = none
  completions : c'.completions = c.completions
  issued : task.id < c.nextRequestId
  next : c'.nextRequestId = c.nextRequestId

/-- What happens to the tasks. A task that is dropped with a completion gets a status that
no reader takes for data. -/
inductive TaskMove (c c' : Coordinator L) : Prop
  | same (htasks : c'.tasks.Perm c.tasks) (hfresh : Unregisters c c')
      (hcompletions : c'.completions = c.completions)
      (hnext : c.nextRequestId ≤ c'.nextRequestId) (hworker : WorkerKeeps c c')
  | dropped {task : CollectionTask} {status : Status} (hdrops : Drops task status c c')
      (hstatus : isReadableStatus status = false) (hworker : WorkerKeeps c c')
  | entered {task : CollectionTask} (henters : Enters task c c') (hworker : WorkerKeeps c c')

theorem TaskMove.workerKeeps (hmo : TaskMove c c') : WorkerKeeps c c' := by
  cases hmo with
  | same _ _ _ _ hwo => exact hwo
  | dropped _ _ hwo => exact hwo
  | entered _ hwo => exact hwo

theorem Drops.registered (hd : Drops task status c c') (h : c.Registered) : c'.Registered := by
  obtain ⟨hta, hfr, hco, hne⟩ := hd
  have hsub : ∀ other ∈ c'.tasks, other ∈ c.tasks := fun other hot =>
    hta.mem_iff.mpr (mem_cons_of_mem _ hot)
  have hdi := (hta.map CollectionTask.id).nodup_iff.mp h.distinct
  rw [map_cons, nodup_cons] at hdi
  constructor
  · exact hdi.2
  · intro other hot
    rw [hne]
    exact h.issued other (hsub other hot)
  · intro other hot
    exact h.signed other (hsub other hot)
  · intro signature id hid
    obtain ⟨hlt, hown⟩ := h.registered signature id (hfr signature id hid)
    exact ⟨hne ▸ hlt, fun other hot => hown other (hsub other hot)⟩
  · intro id st' hid
    rw [hne]
    have hold : c.completions.find? id = some st' →
        id < c.nextRequestId ∧ ∀ other ∈ c'.tasks, other.id ≠ id := by
      intro hfi
      obtain ⟨hlt, hno⟩ := h.completed id st' hfi
      exact ⟨hlt, fun other hot => hno other (hsub other hot)⟩
    rw [hco] at hid
    split_ifs at hid with hso
    · rw [find?_insert] at hid
      split_ifs at hid with heq
      · subst heq
        refine ⟨h.issued task (hta.mem_iff.mpr (mem_cons_self ..)), ?_⟩
        intro other hot hsa
        exact hdi.1 (mem_map.mpr ⟨other, hot, hsa⟩)
      · exact hold hid
    · exact hold hid

theorem Enters.registered (he : Enters task c c') (h : c.Registered) : c'.Registered := by
  obtain ⟨hta, hfr, hsi, hnew, hunr, hun, hco, his, hne⟩ := he
  have hcases : ∀ other ∈ c'.tasks, other = task ∨ other ∈ c.tasks :=
    fun _ hot => mem_cons.mp (hta.mem_iff.mp hot)
  constructor
  · apply (hta.map CollectionTask.id).nodup_iff.mpr
    rw [map_cons, nodup_cons]
    refine ⟨?_, h.distinct⟩
    intro hmem
    obtain ⟨other, hot, hsa⟩ := mem_map.mp hmem
    exact hnew other hot hsa
  · intro other hot
    rw [hne]
    rcases hcases other hot with rfl | hot
    · exact his
    · exact h.issued other hot
  · intro other hot
    rcases hcases other hot with rfl | hot
    · exact hsi
    · exact h.signed other hot
  · intro signature id hid
    rcases hfr signature id hid with hid | ⟨hsig, rfl⟩
    · obtain ⟨hlt, hown⟩ := h.registered signature id hid
      refine ⟨hne ▸ hlt, ?_⟩
      intro other hot hsa
      rcases hcases other hot with rfl | hot
      · exact absurd (hsa ▸ hid) (hunr signature)
      · exact hown other hot hsa
    · refine ⟨hne ▸ his, ?_⟩
      intro other hot hsa
      rcases hcases other hot with rfl | hot
      · exact hsig
      · exact absurd hsa (hnew other hot)
  · intro id status hid
    rw [hco] at hid
    obtain ⟨hlt, hno⟩ := h.completed id status hid
    refine ⟨hne ▸ hlt, ?_⟩
    intro other hot hsa
    rcases hcases other hot with rfl | hot
    · rw [hsa, hid] at hun
      cases hun
    · exact hno other hot hsa

theorem TaskMove.registered (hmo : TaskMove c c') (h : c.Registered) : c'.Registered := by
  cases hmo with
  | same hta hfr hco hne =>
    constructor
    · exact ((hta.map CollectionTask.id).nodup_iff).mpr h.distinct
    · intro task htas
      exact (h.issued task (hta.mem_iff.mp htas)).trans_le hne
    · intro task htas
      exact h.signed task (hta.mem_iff.mp htas)
    · intro signature id hid
      obtain ⟨hlt, hown⟩ := h.registered signature id (hfr signature id hid)
      exact ⟨hlt.trans_le hne, fun task htas => hown task (hta.mem_iff.mp htas)⟩
    · intro id status hid
      obtain ⟨hlt, hno⟩ := h.completed id status (hco ▸ hid)
      exact ⟨hlt.trans_le hne, fun task htas => hno task (hta.mem_iff.mp htas)⟩
  | dropped hd => exact hd.registered h
  | entered he => exact he.registered h

def Moves (c c' : Coordinator L) : Prop := Relation.ReflTransGen TaskMove c c'

theorem Moves.registered (hmo : Moves c c') (h : c.Registered) : c'.Registered := by
  induction hmo with
  | refl => exact h
  | tail _ hmov ih => exact hmov.registered ih

theorem Moves.workerKeeps (hmo : Moves c c') : WorkerKeeps c c' := by
  induction hmo with
  | refl => exact .of_eq rfl
  | tail _ hmov ih =>
    intro task phase hwo
    obtain ⟨phase', hmi⟩ := ih task phase hwo
    exact hmov.workerKeeps task phase' hmi

/-! ### Waiting for a task -/

/-- The task of the id, which has the signature, is held by the queue or the worker, or it
was completed with a status that satisfies `done`. -/
def Awaits (done : Status → Prop) (id : ℕ) (signature : FreshSignature) (c : Coordinator L) :
    Prop :=
  (∃ task ∈ c.tasks, task.id = id ∧ task.freshSignature = some signature) ∨
    ∃ status, c.completions.find? id = some status ∧
      (isReadableStatus status = true → done status)

theorem Awaits.mono {done' : Status → Prop} {id : ℕ} (h : Awaits done id signature c)
    (himp : ∀ status, done status → done' status) : Awaits done' id signature c :=
  h.imp_right fun ⟨status, hfi, hdo⟩ =>
    ⟨status, hfi, fun hre => himp status (hdo hre)⟩

theorem Drops.awaits {id : ℕ} (hd : Drops task status c c') (hc : c.Registered)
    (h : Awaits done id signature c) (hdo : task.id = id → task.freshSignature = some signature →
      isReadableStatus status = true → done status) : Awaits done id signature c' := by
  obtain ⟨hta, -, hco, -⟩ := hd
  have hmem : task ∈ c.tasks := hta.mem_iff.mpr (mem_cons_self ..)
  rcases h with ⟨other, hot, rfl, hsig⟩ | ⟨st', hfi, hdo'⟩
  · rcases mem_cons.mp (hta.mem_iff.mp hot) with rfl | hot
    · apply Or.inr
      refine ⟨status, ?_, hdo rfl hsig⟩
      rw [hco, hsig, Option.isSome_some]
      exact find?_insert_self ..
    · exact .inl ⟨other, hot, rfl, hsig⟩
  · apply Or.inr
    refine ⟨st', ?_, hdo'⟩
    have hne : id ≠ task.id := ((hc.completed id st' hfi).2 task hmem).symm
    rw [hco]
    split_ifs
    · rw [find?_insert_of_ne _ hne, hfi]
    · exact hfi

theorem TaskMove.awaits {id : ℕ} (hmo : TaskMove c c') (hc : c.Registered)
    (h : Awaits done id signature c) : Awaits done id signature c' := by
  cases hmo with
  | same hta _ hco =>
    rcases h with ⟨task, htas, hid⟩ | hdo
    · exact .inl ⟨task, hta.mem_iff.mpr htas, hid⟩
    · exact .inr (hco ▸ hdo)
  | dropped hd hst =>
    apply hd.awaits hc h
    intro _ _ hre
    rw [hst] at hre
    cases hre
  | entered he =>
    rcases h with ⟨task, htas, hid⟩ | hdo
    · exact .inl ⟨task, he.tasks.mem_iff.mpr (mem_cons_of_mem _ htas), hid⟩
    · exact .inr (he.completions ▸ hdo)

theorem Moves.awaits {id : ℕ} (hmo : Moves c c') (hc : c.Registered)
    (h : Awaits done id signature c) : Awaits done id signature c' := by
  induction hmo with
  | refl => exact h
  | tail hbe hmov ih => exact hmov.awaits (registered hbe hc) ih

/-! ### Steps as moves -/

theorem TaskMove.of_eq (hqu : c'.queue = c.queue) (hwo : c'.worker = c.worker)
    (hfr : c'.freshTasks = c.freshTasks) (hco : c'.completions = c.completions)
    (hne : c.nextRequestId ≤ c'.nextRequestId) : TaskMove c c' := by
  apply same
  · rw [tasks, tasks, hqu, hwo]
  · intro signature id hid
    rwa [← hfr]
  · exact hco
  · exact hne
  · exact .of_eq hwo

theorem releaseTaskLocked_unregisters (c : Coordinator L) (task : CollectionTask) :
    Unregisters c (c.releaseTaskLocked task) := by
  intro signature id hid
  unfold releaseTaskLocked at hid
  cases hown : task.freshSignature with
  | none => simpa [hown] using hid
  | some own =>
    cases hfi : c.freshTasks.find? own with
    | none => simpa [hown, hfi] using hid
    | some reg =>
      simp only [hown, hfi] at hid
      split_ifs at hid
      · rw [find?_erase] at hid
        split_ifs at hid
        exact hid
      · exact hid

theorem perm_cons_dropLast (h : c.queue.getLast? = some last) :
    c.queue.Perm (last :: c.queue.dropLast) := by
  conv_lhs => rw [← dropLast_append_getLast? last h]
  exact perm_append_singleton _ _

theorem evict_move (h : c.queue.getLast? = some last) : TaskMove c (c.evict last) := by
  rw [evict, setCompletion_eq]
  exact .dropped ⟨(perm_cons_dropLast h).append_right _,
    releaseTaskLocked_unregisters { c with queue := c.queue.dropLast } last, rfl, rfl⟩ rfl
    (.of_eq rfl)

/-- All ids that are in use are below `n`. -/
structure Below (n : ℕ) (c : Coordinator L) : Prop where
  tasks : ∀ task ∈ c.tasks, task.id < n
  registered : ∀ signature id, c.freshTasks.find? signature = some id → id < n
  completed : ∀ id status, c.completions.find? id = some status → id < n

theorem Registered.below (h : c.Registered) : Below c.nextRequestId c :=
  ⟨h.issued, fun signature id hid => (h.registered signature id hid).1,
    fun id status hid => (h.completed id status hid).1⟩

theorem enterQueue_tasks (c : Coordinator L) (task : CollectionTask) :
    (c.enterQueue task).tasks.Perm (task :: c.tasks) :=
  (insertByPriority_perm c.queue task).append_right _

theorem enterQueue_move (hbe : Below task.id c) (his : task.id < c.nextRequestId)
    (hsi : ∀ signature, task.freshSignature = some signature → task.Answers signature) :
    TaskMove c (c.enterQueue task) := by
  refine .entered ⟨enterQueue_tasks c task, ?_, hsi, ?_, ?_, ?_, rfl, his, rfl⟩ (.of_eq rfl)
  · intro signature id hid
    unfold enterQueue at hid
    cases hown : task.freshSignature with
    | none => exact .inl (by simpa [hown] using hid)
    | some own =>
      simp only [hown, Option.elim_some] at hid
      rw [find?_insert] at hid
      split_ifs at hid with heq
      · exact .inr ⟨by rw [heq], (Option.some.inj hid).symm⟩
      · exact .inl hid
  · intro other hot
    exact (hbe.tasks other hot).ne
  · intro signature hid
    exact (hbe.registered signature _ hid).false
  · cases hfi : c.completions.find? task.id with
    | none => rfl
    | some status => exact absurd (hbe.completed _ _ hfi) (lt_irrefl _)

/-- The state after a request id was given out. -/
def issue (c : Coordinator L) : Coordinator L := { c with nextRequestId := c.nextRequestId + 1 }

theorem issue_move (c : Coordinator L) : TaskMove c c.issue :=
  .of_eq rfl rfl rfl rfl (Nat.le_succ _)

theorem allocateRequestId_cases (c : Coordinator L) :
    c.allocateRequestId = (c, 0) ∨ c.allocateRequestId = (c.issue, c.nextRequestId) := by
  unfold allocateRequestId
  split_ifs
  · exact .inl rfl
  · exact .inr rfl

theorem evict_below {n : ℕ} (h : Below n c) (hla : c.queue.getLast? = some last) :
    Below n (c.evict last) := by
  have hmem : last ∈ c.tasks := mem_append_left _ (mem_of_getLast? hla)
  rw [evict, setCompletion_eq]
  constructor
  · intro task hta
    apply h.tasks
    rcases mem_append.mp hta with hta | hta
    · exact mem_append_left _ (mem_of_mem_dropLast hta)
    · exact mem_append_right _ hta
  · intro signature id hid
    exact h.registered signature id
      (releaseTaskLocked_unregisters { c with queue := c.queue.dropLast } last signature id hid)
  · intro id status hid
    split_ifs at hid
    · rw [find?_insert] at hid
      split_ifs at hid with heq
      · subst heq
        exact h.tasks last hmem
      · exact h.completed id status hid
    · exact h.completed id status hid

theorem enqueueLocked_moves (h : c.Registered) (hid : task.id = c.nextRequestId)
    (hsi : ∀ signature, task.freshSignature = some signature → task.Answers signature) :
    Moves c (c.issue.enqueueLocked task).coordinator ∧
      ((c.issue.enqueueLocked task).result = .accepted →
        task ∈ (c.issue.enqueueLocked task).coordinator.tasks) := by
  have hbe : Below task.id c.issue := by
    rw [hid]
    exact ⟨h.below.tasks, h.below.registered, h.below.completed⟩
  have hiss : task.id < c.issue.nextRequestId := by
    rw [hid]
    exact Nat.lt_succ_self _
  have hmem : ∀ d : Coordinator L, task ∈ (d.enterQueue task).tasks := fun d =>
    (enterQueue_tasks d task).mem_iff.mpr (mem_cons_self ..)
  have his : Moves c c.issue := .single (issue_move c)
  obtain ⟨refusal, hre, heq⟩ | heq | ⟨last, hla, -, heq⟩ := c.issue.enqueueLocked_eq task
  · rw [heq]
    exact ⟨his, fun hac => absurd hac hre⟩
  · rw [heq]
    exact ⟨his.tail (enterQueue_move hbe hiss hsi), fun _ => hmem _⟩
  · rw [heq]
    refine ⟨?_, fun _ => hmem _⟩
    apply Relation.ReflTransGen.tail (his.tail (evict_move hla))
    apply enterQueue_move (evict_below hbe hla) _ hsi
    rw [evict, setCompletion_eq]
    exact hiss

/-! ### Fresh reads -/

/-- A call of `freshRead` that got a task waits for one with its signature; the error of
another one is not a status that comes with data. -/
structure FreshRead.Waits (c : Coordinator L) (signature : FreshSignature) (f : FreshRead L) :
    Prop where
  moves : Moves c f.coordinator
  task : ∀ id, f.outcome = .ok id →
    ∃ task ∈ f.coordinator.tasks, task.id = id ∧ task.freshSignature = some signature
  error : ∀ status, f.outcome = .error status → isReadableStatus status = false

theorem FreshRead.waits_of_error (hmo : Moves c c') (hst : isReadableStatus status = false) :
    FreshRead.Waits c signature ⟨c', .error status, evicted⟩ := by
  constructor
  · exact hmo
  · intro id hok
    cases hok
  · intro st' her
    cases her
    exact hst

theorem FreshRead.waits_of_task {id : ℕ} (hmo : Moves c c') (hmem : task ∈ c'.tasks)
    (hid : task.id = id) (hsig : task.freshSignature = some signature) :
    FreshRead.Waits c signature ⟨c', .ok id, evicted⟩ := by
  constructor
  · exact hmo
  · intro id' hok
    cases hok
    exact ⟨task, hmem, hid, hsig⟩
  · intro status her
    cases her

open FreshRead

theorem enqueueFresh_waits (h : c.Registered) (keys : List DataKey) (gen : ℕ) (dl sch : ℤ) :
    (c.enqueueFresh keys gen dl sch).Waits c ⟨gen, keys⟩ := by
  unfold enqueueFresh
  rcases c.allocateRequestId_cases with hal | hal
  · rw [hal]
    exact waits_of_error .refl rfl
  · rw [hal]
    dsimp only
    split_ifs with hze
    · exact waits_of_error (.single (issue_move c)) rfl
    · have hans : (c.issue.freshTask keys gen c.nextRequestId dl sch).Answers ⟨gen, keys⟩ := by
        refine ⟨rfl, rfl, ?_, rfl⟩
        unfold freshTask
        split_ifs with hpl
        · exact hpl
        · rfl
      have hsig : (c.issue.freshTask keys gen c.nextRequestId dl
          sch).freshSignature = some ⟨gen, keys⟩ := rfl
      have hid : (c.issue.freshTask keys gen c.nextRequestId dl sch).id = c.nextRequestId := rfl
      generalize c.issue.freshTask keys gen c.nextRequestId dl sch = task at hans hsig hid ⊢
      obtain ⟨hmo, hmem⟩ := enqueueLocked_moves h hid fun signature hso => by
        rw [hsig, Option.some.injEq] at hso
        exact hso ▸ hans
      generalize c.issue.enqueueLocked task = queued at hmo hmem ⊢
      obtain ⟨coordinator, res, evicted⟩ := queued
      cases res with
      | accepted =>
        exact waits_of_task (hmo.tail (.of_eq rfl rfl rfl rfl le_rfl)) (hmem rfl) hid hsig
      | busy => exact waits_of_error hmo rfl
      | full => exact waits_of_error hmo rfl
      | stopped => exact waits_of_error hmo rfl

theorem joinFresh_waits (h : c.Registered) (keys : List DataKey) (gen : ℕ) (dl sch : ℤ) :
    (c.joinFresh keys gen dl sch).Waits c ⟨gen, keys⟩ := by
  unfold joinFresh
  dsimp only
  cases hfi : c.freshTasks.find? ⟨gen, keys⟩ with
  | none => exact enqueueFresh_waits h keys gen dl sch
  | some id =>
    dsimp only
    cases hli : c.liveTask? id with
    | some task =>
      dsimp only
      split_ifs
      · have hmem : task ∈ c.tasks := mem_of_find?_eq_some hli
        have hid : task.id = id := by
          have hfo := List.find?_some hli
          exact of_decide_eq_true hfo
        exact waits_of_task (.single (.of_eq rfl rfl rfl rfl le_rfl)) hmem hid
          ((h.registered _ id hfi).2 task hmem hid)
      · exact waits_of_error .refl rfl
    | none =>
      have hmo : TaskMove c { c with freshTasks := c.freshTasks.erase ⟨gen, keys⟩ } := by
        apply TaskMove.same
        · exact .refl c.tasks
        · intro signature id' hid
          rw [find?_erase] at hid
          split_ifs at hid
          exact hid
        · rfl
        · exact le_rfl
        · exact .of_eq rfl
      have hwa :=
        enqueueFresh_waits (hmo.registered h) keys gen dl sch
      exact ⟨.head hmo hwa.moves, hwa.task, hwa.error⟩

theorem freshReadLocked_waits (h : c.Registered) (req : List DataKey) (gen : ℕ) (dl now sch : ℤ) :
    (c.freshReadLocked req gen dl now sch).Waits c ⟨gen, req.insertionSort (· ≤ ·)⟩ := by
  obtain ⟨status, hfa, heq⟩ | ⟨-, -, heq⟩ :=
    c.freshReadLocked_cases req gen dl now sch
  · rw [heq]
    refine waits_of_error .refl (Bool.eq_false_iff.mpr fun hre => ?_)
    exact (isReadableStatus_iff.mp hre).elim hfa.1 hfa.2
  · rw [heq]
    exact joinFresh_waits h _ _ _ _

/-! ### Due jobs and the worker -/

theorem runJob_moves (cur : CollectionPlan) (now : ℤ) {d : DueRun L} (job : CollectionJob)
    (h : d.coordinator.Registered) :
    Moves d.coordinator (runJob cur now d job).coordinator := by
  unfold runJob
  cases d.coordinator.nextDue.find? job.id with
  | none => exact .refl
  | some due =>
    have hmo : TaskMove d.coordinator (d.coordinator.moveDue job due now) :=
      .of_eq rfl rfl rfl rfl le_rfl
    dsimp only
    split_ifs with hnow hze
    · exact .refl
    · rcases (d.coordinator.moveDue job due now).allocateRequestId_cases with hal | hal
      · rw [hal]
        exact .single hmo
      · rw [hal]
        exact .head hmo (.single (issue_move _))
    · rcases (d.coordinator.moveDue job due now).allocateRequestId_cases with hal | hal
      · rw [hal] at hze
        exact absurd rfl hze
      · rw [hal]
        apply Relation.ReflTransGen.head hmo
        exact (enqueueLocked_moves (hmo.registered h) rfl fun _ hso => by cases hso).1

/-- Every job of the loop starts from the coordinator the jobs before it left. -/
theorem foldl_runJob_moves (cur : CollectionPlan) (now : ℤ) (jobs : List CollectionJob)
    (d : DueRun L) (h : d.coordinator.Registered) :
    Moves d.coordinator (jobs.foldl (runJob cur now) d).coordinator := by
  induction jobs generalizing d with
  | nil => exact .refl
  | cons job rest ih =>
    have hjob := runJob_moves cur now job h
    exact hjob.trans (ih _ (Moves.registered hjob h))

theorem dueLoop_moves (h : c.Registered) (cur : CollectionPlan) (now : ℤ) :
    Moves c (c.dueLoop cur now).coordinator := by
  have hsy : TaskMove c (c.synchronizePlan cur) := by
    unfold synchronizePlan
    split_ifs
    · exact .of_eq rfl rfl rfl rfl le_rfl
    · exact .of_eq rfl rfl rfl rfl le_rfl
  have hjo := foldl_runJob_moves cur now cur.jobs { coordinator := c.synchronizePlan cur }
    (hsy.registered h)
  exact .head hsy hjo

theorem runDueLocked_moves (h : c.Registered) (cur : CollectionPlan) (now : ℤ) :
    Moves c (c.runDueLocked cur now).unlock := by
  unfold runDueLocked
  split_ifs
  · exact .single (.of_eq rfl rfl rfl rfl le_rfl)
  · exact .single (.of_eq rfl rfl rfl rfl le_rfl)
  · exact (dueLoop_moves h cur now).tail (.of_eq rfl rfl rfl rfl le_rfl)

theorem workerTake_move (c : Coordinator L) : TaskMove c c.workerTake := by
  unfold workerTake
  split
  next task rest hwo hqu =>
    apply TaskMove.same
    · simp only [tasks, hwo, hqu, Option.toList_none, map_nil, append_nil]
      exact perm_append_singleton _ _
    · exact fun _ _ h => h
    · rfl
    · exact le_rfl
    · intro _ _ hbu
      rw [hwo] at hbu
      cases hbu
  next => exact .of_eq rfl rfl rfl rfl le_rfl

theorem workerNote_move (c : Coordinator L) : TaskMove c c.workerNote := by
  obtain heq | ⟨task, m, hwo, heq⟩ := c.workerNote_eq
  · rw [heq]
    exact .of_eq rfl rfl rfl rfl le_rfl
  · rw [heq]
    refine .same ?_ (fun _ _ h => h) rfl le_rfl ?_
    · simp [tasks, hwo]
    · intro _ _ hbu
      rw [hwo] at hbu
      cases hbu
      exact ⟨.recorded, rfl⟩

theorem workerRelease_move (c : Coordinator L) : TaskMove c c.workerRelease := by
  unfold workerRelease
  split
  next task hwo =>
    apply TaskMove.same
    · simp [tasks, releaseTaskLocked, hwo]
    · exact releaseTaskLocked_unregisters c task
    · rfl
    · exact le_rfl
    · intro _ _ hbu
      rw [hwo] at hbu
      cases hbu
      exact ⟨.released, rfl⟩
  next => exact .of_eq rfl rfl rfl rfl le_rfl

theorem applyWatchSnapshot_move (c : Coordinator L) (ws : WatchSnapshot) (now : ℤ) :
    TaskMove c (c.applyWatchSnapshot ws now).1 := by
  rcases c.applyWatchSnapshot_cases ws now with ⟨hsa, -⟩ | ⟨plan, -, hap⟩
  · rw [hsa]
    exact .of_eq rfl rfl rfl rfl le_rfl
  · rw [hap]
    exact .of_eq rfl rfl rfl rfl le_rfl

theorem activateCatalog_move (c : Coordinator L) (cat : Option CatalogView) :
    TaskMove c (c.activateCatalog cat).1 := by
  obtain ⟨_, _, _, _, heq⟩ := c.activateCatalog_eq cat
  rw [heq]
  exact .of_eq rfl rfl rfl rfl le_rfl

/-- Every step but the completion of a task is a chain of moves. -/
theorem step_moves (h : c.Registered) (s : CoordinatorStep L)
    (hs : ∀ status, s ≠ .workerComplete status) : Moves c (c.step s) := by
  cases s with
  | runDue now => exact runDueLocked_moves h c.plan now
  | note call =>
    rw [step]
    split
    · rw [noteLogicalResults_eq]
      exact .single (.of_eq rfl rfl rfl rfl le_rfl)
    · exact .refl
  | freshRead keys gen dl now sch =>
    exact (freshReadLocked_waits h keys gen dl now sch).moves
  | freshReturn => exact .single (.of_eq rfl rfl rfl rfl le_rfl)
  | workerTake => exact .single (workerTake_move c)
  | workerNote => exact .single (workerNote_move c)
  | workerRelease => exact .single (workerRelease_move c)
  | workerComplete status => exact absurd rfl (hs status)
  | applyWatchSnapshot ws now => exact .single (applyWatchSnapshot_move c ws now)
  | activateCatalog cat => exact .single (activateCatalog_move c cat)
  | dataChanged data => exact .single (.of_eq rfl rfl rfl rfl le_rfl)

theorem workerComplete_drops (hwo : c.worker = some ⟨task, .released⟩) (status : Status) :
    Drops task status c (c.workerComplete status) := by
  have hco : c.workerComplete status = { c.setCompletion task status with worker := none } := by
    simp only [workerComplete, hwo]
  rw [hco, setCompletion_eq]
  refine ⟨?_, fun _ _ h => h, rfl, rfl⟩
  simp only [tasks, hwo, Option.toList_none, map_nil, append_nil]
  exact perm_append_singleton _ _

end Coordinator
end Pdcm
