import Pdcm.Collection.FreshTasks
import Pdcm.Collection.NormalizeRuns

/-!
# The collecting process

A data plane, the coordinator above it with its worker, a provider that may answer
anything, and clients whose queries use the coordinator as fresh reader. The worker's
`normalizeAndCommit` makes its calls one at a time between those of everybody else. Two
ghost records go along: the accepted batches with the request they came from, and the
runs the worker finished.
-/

namespace Pdcm

open Library DataManager List Coordinator DataPlane

/-- What the provider returns, with the clock readings made when it is committed. -/
structure ProviderAnswer where
  result : ProviderReadResult := {}
  observedTime : ℤ := 0
  wallTime : ℤ := 0
  evaluationTime : ℤ := 0

def CollectionTask.finished (task : CollectionTask) (answer : ProviderAnswer) : FinishedRead where
  plan := task.plan
  job := task.job
  request := task.request
  result := answer.result
  observedTime := answer.observedTime
  wallTime := answer.wallTime
  evaluationTime := answer.evaluationTime

/-- The worker between two calls of `normalizeAndCommit`. -/
structure Running (L : Limits) where
  task : CollectionTask
  answer : ProviderAnswer
  program : DataPlane.Plane L CollectionRunResult

structure TaskRun where
  task : CollectionTask
  answer : ProviderAnswer
  result : CollectionRunResult

def TaskRun.read (run : TaskRun) : FinishedRead := run.task.finished run.answer

/-- `runtime.data` is not looked at: the data manager is the one of the plane. -/
structure Collector (L : Limits) where
  runtime : Coordinator L
  plane : DataPlane L
  metricsAttached : Bool := true
  now : ℤ := 0
  running : Option (Running L) := none
  commits : List CommitRecord := []
  runs : List TaskRun := []

inductive CollectorInput (L : Limits) where
  | tick (nanoseconds : ℕ)
  /-- A call of a thread that is neither the worker nor the query. -/
  | call (c : PlaneCall)
  | coordinator (s : CoordinatorStep L)
  | providerAnswer (answer : ProviderAnswer)
  | workerCall
  | workerComplete

inductive FreshReadCall where
  | monotonicNow
  | offer (keys : List DataKey) (catalogGeneration : ℕ) (deadline now : ℤ)
  | await (requestId : ℕ) (deadline : ℤ)
  | leave

@[reducible] def FreshReadCall.Answer : FreshReadCall → Type
  | .monotonicNow => ℤ
  | .offer _ _ _ _ => Except Status ℕ
  | .await _ _ => Status
  | .leave => Unit

namespace Collector

variable {L : Limits} {τ : List (Event (interface L))} {task : CollectionTask}
  {answer : ProviderAnswer}

/-! ### Steps -/

def coordinator (w : Collector L) : Coordinator L := { w.runtime with data := w.plane.data }

def log (w : Collector L) : CommitLog L := ⟨w.plane.data, w.commits⟩

/-- The log after a call made for a request. -/
def commitsAfter (w : Collector L) (requestId : ℕ) : PlaneCall → List CommitRecord
  | .commit observations => (w.log.commit requestId observations).commits
  | _ => w.commits

def callPlane (w : Collector L) (requestId : ℕ) (c : PlaneCall) : Collector L :=
  { w with plane := (DataPlane.exec c w.plane).1, commits := w.commitsAfter requestId c }

/-- The worker records the samples of its task after `normalizeAndCommit` returned, and
completes it with the status it returned. -/
def permits (w : Collector L) : CoordinatorStep L → Bool
  | .workerNote => w.running.any fun r => match r.program with
    | .done _ => true
    | .call _ _ => false
  | .workerComplete _ => false
  | _ => true

def expired : ProviderReadResult :=
  { callStatus := ⟨.timeout, "collection task expired in the provider queue"⟩ }

/-- The provider is not asked for a task whose deadline has passed. -/
def answered (w : Collector L) (task : CollectionTask) (answer : ProviderAnswer) : ProviderAnswer :=
  if task.request.deadline < w.now then { answer with result := expired } else answer

/-- The process after the worker completed its task. -/
def completed (w : Collector L) (task : CollectionTask) (answer : ProviderAnswer)
    (result : CollectionRunResult) : Collector L :=
  { w with
    runtime := w.coordinator.workerComplete result.status
    running := none
    runs := w.runs ++ [⟨task, answer, result⟩] }

def step (w : Collector L) : CollectorInput L → Collector L
  | .tick nanoseconds => { w with now := w.now + nanoseconds }
  | .call c => w.callPlane 0 c
  | .coordinator s => if w.permits s then { w with runtime := w.coordinator.step s } else w
  | .providerAnswer answer =>
    match w.runtime.worker, w.running with
    | some ⟨task, .reading⟩, none =>
      { w with
        running := some ⟨task, w.answered task answer,
          (task.finished (w.answered task answer)).normalizeAndCommit w.runtime.limits
            w.metricsAttached⟩ }
    | _, _ => w
  | .workerCall =>
    match w.running with
    | some ⟨task, answer, .call c next⟩ =>
      { w.callPlane task.id c with
        running := some ⟨task, answer, next (DataPlane.exec c w.plane).2⟩ }
    | _ => w
  | .workerComplete =>
    match w.runtime.worker, w.running with
    | some ⟨_, .released⟩, some ⟨task, answer, .done result⟩ =>
      w.completed task answer result
    | _, _ => w

/-- The critical sections of `freshRead`. The second clock reading is made under the lock. -/
def exec : (c : FreshReadCall) → Collector L → Collector L × c.Answer
  | .monotonicNow, w => (w, w.now)
  | .offer keys catalogGeneration deadline now, w =>
    let offered := w.coordinator.freshReadLocked keys catalogGeneration deadline now w.now
    ({ w with runtime := offered.coordinator }, offered.outcome)
  | .await requestId _, w =>
    (w, (w.runtime.completions.find? requestId).getD ⟨.timeout, "fresh read waiter timed out"⟩)
  | .leave, w => ({ w with runtime := w.coordinator.step .freshReturn }, ())

def reader (L : Limits) : Interface (Collector L) where
  Call := FreshReadCall
  Answer := FreshReadCall.Answer
  exec := exec

def readerReady : FreshReadCall → Collector L → Bool
  | .await requestId deadline, w =>
    (w.runtime.completions.find? requestId).isSome || decide (deadline ≤ w.now)
  | _, _ => true

def readerCall (c : FreshReadCall) : Program (reader L) c.Answer :=
  Program.request (I := reader L) c

/-- `freshRead`. -/
def freshRead (keys : List DataKey) (catalogGeneration : ℕ) (deadline : ℤ) :
    Program (reader L) Status := do
  let now : ℤ ← readerCall .monotonicNow
  let outcome : Except Status ℕ ← readerCall (.offer keys catalogGeneration deadline now)
  match outcome with
  | .error status => return status
  | .ok requestId => do
    let status : Status ← readerCall (.await requestId deadline)
    readerCall .leave
    return status

/-! ### The log -/

theorem callPlane_evolves (w : Collector L) (rid : ℕ) (c : PlaneCall) :
    w.log.Evolves (w.callPlane rid c).log := by
  cases c with
  | activateCatalog cat target => exact .single (.activated cat target)
  | commit obs => exact .single (.committed rid obs)
  | commitHeartbeatEvidence ev => exact .single (.evidence ev)
  | commitHealth res => exact .single (.health res)
  | publishEvent draft => exact .single (.published draft)
  | replaceRuntime next =>
    simp only [callPlane, DataPlane.exec]
    split_ifs
    · exact .refl
    · exact .refl
  | _ => exact .refl

theorem step_later (w : Collector L) (i : CollectorInput L) :
    w.log.Evolves (w.step i).log ∧ w.now ≤ (w.step i).now := by
  have hsa : w.log.Evolves w.log ∧ w.now ≤ w.now := ⟨.refl, le_rfl⟩
  cases i with
  | tick nanoseconds =>
    refine ⟨.refl, ?_⟩
    change w.now ≤ w.now + nanoseconds
    omega
  | call c => exact ⟨w.callPlane_evolves 0 c, le_rfl⟩
  | coordinator s =>
    rw [step]
    split_ifs
    · exact hsa
    · exact hsa
  | providerAnswer answer =>
    rw [step]
    split
    · exact hsa
    · exact hsa
  | workerCall =>
    rw [step]
    split
    next task answer c next _ => exact ⟨w.callPlane_evolves task.id c, le_rfl⟩
    next => exact hsa
  | workerComplete =>
    rw [step]
    split
    · exact hsa
    · exact hsa

theorem exec_later (c : FreshReadCall) (w : Collector L) :
    w.log.Evolves (exec c w).1.log ∧ w.now ≤ (exec c w).1.now := by
  cases c <;> exact ⟨.refl, le_rfl⟩

@[reducible] def host (L : Limits) : QueryHost L where
  World := Collector L
  store := log
  now := now
  Input := CollectorInput L
  step := step
  reader := reader L
  readerReady := readerReady
  step_later := step_later
  reader_later := exec_later

/-! ### What the worker has done -/

/-- The calls of a run of the worker, made in this order and before now; what they
committed is in the log under the id of the task. -/
structure Traced (w : Collector L) (id : ℕ) (τ : List (Event (interface L))) :
    Prop where
  ordered : τ.Pairwise fun e e' => Later e.state.data e'.state.data
  past : ∀ e ∈ τ, Later e.state.data w.plane.data
  logged : ∀ p observations, (⟨.commit observations, p⟩ : Event (interface L)) ∈ τ →
    ¬Failure (p.data.commitLocked observations).2.1.status →
    ∃ record ∈ w.commits, record.requestId = id ∧ record.observations = observations

/-- `normalizeAndCommit` has got from its start to `program`. -/
def Tracked (w : Collector L) (task : CollectionTask) (answer : ProviderAnswer)
    (program : DataPlane.Plane L CollectionRunResult) : Prop :=
  ∃ limits metricsAttached τ,
    ((task.finished answer).normalizeAndCommit limits metricsAttached).Reaches τ program ∧
      w.Traced task.id τ

variable {w w' : Collector L}

theorem Traced.mono {id : ℕ} (h : w.Traced id τ) (hlog : w.log.Evolves w'.log) :
    w'.Traced id τ := by
  constructor
  · exact h.ordered
  · intro e he
    exact (h.past e he).trans hlog.later
  · intro p obs hco hacc
    obtain ⟨rec, hre, hof⟩ := h.logged p obs hco hacc
    exact ⟨rec, hlog.commits.subset hre, hof⟩

theorem Tracked.mono {program : DataPlane.Plane L CollectionRunResult}
    (h : w.Tracked task answer program) (hlog : w.log.Evolves w'.log) :
    w'.Tracked task answer program :=
  let ⟨limits, metricsAttached, τ, hre, htr⟩ := h
  ⟨limits, metricsAttached, τ, hre, htr.mono hlog⟩

theorem Traced.callPlane {id : ℕ} (h : w.Traced id τ) (c : PlaneCall) :
    (w.callPlane id c).Traced id (τ ++ [⟨c, w.plane⟩]) := by
  have hlog := w.callPlane_evolves id c
  have hold := h.mono hlog
  constructor
  · apply pairwise_append.mpr
    refine ⟨h.ordered, pairwise_singleton _ _, ?_⟩
    intro e he e' he'
    rw [mem_singleton.mp he']
    exact h.past e he
  · intro e he
    rcases mem_append.mp he with he | he
    · exact hold.past e he
    · rw [mem_singleton.mp he]
      exact hlog.later
  · intro p obs hco hacc
    rcases mem_append.mp hco with hco | hco
    · exact hold.logged p obs hco hacc
    · cases mem_singleton.mp hco
      refine ⟨⟨id, w.plane.data.commitEpoch + 1, obs⟩, ?_, rfl, rfl⟩
      have hcom : (w.callPlane id (.commit obs)).commits =
          w.commits ++ [⟨id, w.plane.data.commitEpoch + 1, obs⟩] := if_neg hacc
      rw [hcom]
      exact mem_append_right _ (mem_singleton_self _)

/-! ### The invariant -/

structure Consistent (w : Collector L) : Prop where
  store : w.log.Reachable
  registered : w.runtime.Registered
  held : ∀ r, w.running = some r → ∃ phase, w.runtime.worker = some ⟨r.task, phase⟩
  running : ∀ r, w.running = some r → w.Tracked r.task r.answer r.program
  finished : ∀ run ∈ w.runs, w.Tracked run.task run.answer (.done run.result)

/-- The worker finished a task with this id and signature, and this was its status. -/
def Completed (w : Collector L) (id : ℕ) (signature : FreshSignature) (status : Status) : Prop :=
  ∃ run ∈ w.runs, run.task.id = id ∧ run.task.Answers signature ∧ run.result.status = status

def Awaits (id : ℕ) (signature : FreshSignature) (w : Collector L) : Prop :=
  Coordinator.Awaits (w.Completed id signature) id signature w.runtime

/-- `w'` keeps the invariant, every wait and every finished run of `w`. -/
structure Keeps (w w' : Collector L) : Prop where
  consistent : w.Consistent → w'.Consistent
  awaits : w.Consistent → ∀ id signature, w.Awaits id signature → w'.Awaits id signature
  runs : w.runs <+: w'.runs

theorem Keeps.refl (w : Collector L) : w.Keeps w := ⟨id, fun _ _ _ => id, prefix_rfl⟩

theorem Keeps.trans {u v : Collector L} (h : u.Keeps v) (h' : v.Keeps w) : u.Keeps w := by
  constructor
  · exact fun hu => h'.consistent (h.consistent hu)
  · intro hu id sig haw
    exact h'.awaits (h.consistent hu) id sig (h.awaits hu id sig haw)
  · exact h.runs.trans h'.runs

theorem Keeps.of_running (hlog : w.log.Evolves w'.log)
    (hmo : w.runtime.Registered → Coordinator.Moves w.runtime w'.runtime)
    (hruns : w'.runs = w.runs)
    (hru : w.Consistent → ∀ r, w'.running = some r →
      (∃ phase, w'.runtime.worker = some ⟨r.task, phase⟩) ∧
        w'.Tracked r.task r.answer r.program) : w.Keeps w' := by
  constructor
  · intro h
    constructor
    · exact h.store.trans hlog
    · exact (hmo h.registered).registered h.registered
    · intro r hr
      exact (hru h r hr).1
    · intro r hr
      exact (hru h r hr).2
    · intro run hrun
      exact (h.finished run (hruns ▸ hrun)).mono hlog
  · intro h id signature haw
    have hco : w'.Completed id signature = w.Completed id signature := by
      funext status
      rw [Completed, Completed, hruns]
    rw [Awaits, hco]
    exact (hmo h.registered).awaits h.registered haw
  · rw [hruns]

theorem Keeps.of_moves (hlog : w.log.Evolves w'.log)
    (hmo : w.runtime.Registered → Coordinator.Moves w.runtime w'.runtime)
    (hru : w'.running = w.running) (hrun : w'.runs = w.runs) : w.Keeps w' := by
  apply of_running hlog hmo hrun
  intro h r hr
  rw [hru] at hr
  obtain ⟨phase, hwo⟩ := h.held r hr
  exact ⟨(hmo h.registered).workerKeeps _ _ hwo, (h.running r hr).mono hlog⟩

theorem runtime_moves (w : Collector L) : Coordinator.Moves w.runtime w.coordinator :=
  .single (.of_eq rfl rfl rfl rfl le_rfl)

theorem coordinator_moves (w : Collector L) (h : w.runtime.Registered) (s : CoordinatorStep L)
    (hs : ∀ st, s ≠ .workerComplete st) :
    Coordinator.Moves w.runtime (w.coordinator.step s) := by
  have hco : w.coordinator.Registered := w.runtime_moves.registered h
  exact w.runtime_moves.trans (step_moves hco s hs)

theorem completed_keeps {hol : CollectionTask} {res : CollectionRunResult}
    (hwo : w.runtime.worker = some ⟨hol, .released⟩)
    (hru : w.running = some ⟨task, answer, .done res⟩) :
    w.Keeps (w.completed task answer res) := by
  have hre : w.coordinator.worker = some ⟨hol, .released⟩ := hwo
  have hlog : w.log.Evolves (w.completed task answer res).log := .refl
  have hdr := workerComplete_drops hre res.status
  constructor
  · intro h
    have hco : w.coordinator.Registered := w.runtime_moves.registered h.registered
    constructor
    · exact h.store
    · exact hdr.registered hco
    · intro r hr
      cases hr
    · intro r hr
      cases hr
    · intro run hrun
      rcases mem_append.mp hrun with hrun | hrun
      · exact (h.finished run hrun).mono hlog
      · rw [mem_singleton.mp hrun]
        exact (h.running _ hru).mono hlog
  · intro h id sig haw
    have hco : w.coordinator.Registered := w.runtime_moves.registered h.registered
    -- the task that leaves is the one that was run
    obtain rfl : hol = task := by
      obtain ⟨phase, hhe⟩ := h.held _ hru
      rw [hwo] at hhe
      cases hhe
      rfl
    apply hdr.awaits hco
    · apply Coordinator.Awaits.mono haw
      rintro st ⟨run, hrun, hof⟩
      exact ⟨run, mem_append_left _ hrun, hof⟩
    · intro hid hsig _
      refine ⟨⟨hol, answer, res⟩, by simp [completed], hid, ?_, rfl⟩
      apply hco.signed hol _ sig hsig
      exact hdr.tasks.mem_iff.mpr (mem_cons_self ..)
  · exact prefix_append _ _

theorem step_keeps (w : Collector L) (i : CollectorInput L) : w.Keeps (w.step i) := by
  have hla := (w.step_later i).1
  cases i with
  | tick nanoseconds => exact .of_moves hla (fun _ => .refl) rfl rfl
  | call c => exact .of_moves hla (fun _ => .refl) rfl rfl
  | coordinator s =>
    rw [step] at hla ⊢
    split_ifs at hla ⊢ with hpe
    · apply Keeps.of_moves hla _ rfl rfl
      intro hreg
      apply w.coordinator_moves hreg s
      rintro st rfl
      cases hpe
    · exact .refl w
  | providerAnswer answer =>
    rw [step]
    split
    next task hwo hid =>
      apply Keeps.of_running
      · exact .refl
      · exact fun _ => .refl
      · rfl
      · rintro - r ⟨rfl⟩
        exact ⟨⟨.reading, hwo⟩, _, _, [], .refl _, .nil, by simp, by simp⟩
    next => exact .refl w
  | workerCall =>
    rw [step]
    split
    next task answer c next hbu =>
      apply Keeps.of_running
      · exact w.callPlane_evolves task.id c
      · exact fun _ => .refl
      · rfl
      · rintro h r ⟨rfl⟩
        obtain ⟨phase, hwo⟩ := h.held _ hbu
        obtain ⟨limits, att, τ, hre, htr⟩ := h.running _ hbu
        exact ⟨⟨phase, hwo⟩, limits, att, _, hre.next w.plane, (htr.callPlane c).mono .refl⟩
    next => exact .refl w
  | workerComplete =>
    rw [step]
    split
    next hwo hbu => exact completed_keeps hwo hbu
    next => exact .refl w

theorem exec_keeps (c : FreshReadCall) (w : Collector L) : w.Keeps (exec c w).1 := by
  have hla := (exec_later c w).1
  cases c with
  | monotonicNow => exact .refl w
  | await rid dl => exact .refl w
  | leave =>
    apply Keeps.of_moves hla _ rfl rfl
    intro hreg
    exact w.coordinator_moves hreg .freshReturn (by simp)
  | offer keys gen dl now =>
    apply Keeps.of_moves hla _ rfl rfl
    intro hreg
    have hco : w.coordinator.Registered := w.runtime_moves.registered hreg
    exact w.runtime_moves.trans (freshReadLocked_waits hco keys gen dl now w.now).moves

/-! ### Reachable processes -/

/-- A new process with the given configuration. -/
def start (limits : CollectionLimits) (valid : limits.validate.ok = true)
    (watchManager : Option WatchManager) (processors : List (Option MetricProcessor))
    (executor : ProcessorExecutor) (metricsAttached : Bool) : Collector L where
  runtime := { limits := limits, valid := valid, watchManager := watchManager, data := .initial L }
  plane := { metrics := { data := .initial L, processors := processors }, executor := executor }
  metricsAttached := metricsAttached

def Reachable (w : Collector L) : Prop :=
  ∃ limits valid watchManager processors executor metricsAttached inputs,
    w = runFrom step (start limits valid watchManager processors executor metricsAttached) inputs

theorem Reachable.consistent (h : w.Reachable) : w.Consistent := by
  obtain ⟨limits, valid, watchManager, ps, ex, att, inputs, rfl⟩ := h
  apply invariant_run
  · intro w i hw
    exact (step_keeps w i).consistent hw
  · exact {
      store := .refl
      registered := ⟨by simp [start, tasks], by simp [start, tasks],
        by simp [start, tasks], by simp [start], by simp [start]⟩
      held := by simp [start]
      running := by simp [start]
      finished := by simp [start] }

end Collector
end Pdcm
