import Pdcm.Library.RecentKeys
import Pdcm.Data.QueryRuns
import Pdcm.Metrics.DataPlane

/-!
# Runs of the processor executor

`ProcessorExecutor::runNext` cut into its steps, among `schedule` calls and calls that
change the store. A key is in the queued set until its task is taken and in the recent set
once the task is finished; in between it is in neither. As long as nobody schedules a key
just then, a key that was evaluated is evaluated again only after the recent set has
forgotten it, and that takes as many other keys as the set can hold.
-/

namespace Pdcm

open Library List DataPlane ProcessorExecutor ProcessorExecutorLimits Nat RecentKeys

/-- What a task is deduplicated by. -/
structure ProcessorInputs where
  processorId : String
  entity : EntityRef
  catalogGeneration : ℕ
  inputs : Multiset (MetricId ×ₗ ℕ)
  deriving DecidableEq

def ProcessorTask.inputs (task : ProcessorTask) : ProcessorInputs where
  processorId := task.processor.id
  entity := task.context.entity
  catalogGeneration := task.context.catalogGeneration
  inputs := task.snapshot.map fun o => toLex (o.metric, o.commitEpoch)

/-- The key as a function of what it stands for. -/
def ProcessorInputs.dedupKey (i : ProcessorInputs) : String :=
  i.processorId ++ ":" ++ toString i.entity.kind.value ++ ":" ++ toString i.entity.id ++
    ":" ++ toString i.entity.generation ++ ":" ++ toString i.catalogGeneration ++
    String.join ((i.inputs.sort (· ≤ ·)).map fun input =>
      ":" ++ toString (ofLex input).1 ++ "@" ++ toString (ofLex input).2)

/-- The order of the items in a snapshot does not matter for the key. -/
theorem ProcessorTask.dedupKey_inputs (task : ProcessorTask) :
    ProcessorExecutor.dedupKey task.processor task.context task.snapshot =
      task.inputs.dedupKey := by
  unfold ProcessorExecutor.dedupKey ProcessorInputs.dedupKey inputs
  rw [Multiset.coe_sort, mergeSort_eq_insertionSort]

namespace ProcessorExecutor

theorem takeWhile_field (l : List Char) {sep : Char} (hs : sep.isDigit = false) (n : ℕ) :
    (l ++ sep :: toDigits 10 n).reverse.takeWhile Char.isDigit =
      (toDigits 10 n).reverse := by
  rw [reverse_append, reverse_cons, append_assoc, takeWhile_append_of_pos]
  · simp [hs]
  · intro c hc
    exact isDigit_of_mem_toDigits (by decide) (by decide) (mem_reverse.mp hc)

/-- A text that ends with a separator and a number can be split there in one way. -/
theorem field_inj {a b : List Char} {sep other : Char} {m n : ℕ} (hs : sep.isDigit = false)
    (ho : other.isDigit = false)
    (h : a ++ sep :: toDigits 10 m = b ++ other :: toDigits 10 n) :
    a = b ∧ sep = other ∧ m = n := by
  have hdigits := takeWhile_field a hs m
  rw [h, takeWhile_field b ho, reverse_inj] at hdigits
  rw [hdigits] at h
  have hmn := congrArg (ofDigitChars 10 · 0) hdigits
  simp only [ofDigitChars_ten_toDigits] at hmn
  obtain ⟨rfl, hsep⟩ := append_inj' h rfl
  exact ⟨rfl, (cons.inj hsep).1, hmn.symm⟩

def inputText (input : ℕ ×ₗ ℕ) : List Char :=
  ':' :: toDigits 10 (ofLex input).1 ++ '@' :: toDigits 10 (ofLex input).2

/-- Inputs end with `@` and a number, what stands before them with `:` and a number. -/
theorem inputs_inj {a b : List Char} {m n : ℕ} {l r : List (ℕ ×ₗ ℕ)}
    (h : a ++ ':' :: toDigits 10 m ++ l.flatMap inputText =
      b ++ ':' :: toDigits 10 n ++ r.flatMap inputText) : l = r ∧ a = b ∧ m = n := by
  induction l using reverseRecOn generalizing r with
  | nil =>
    cases r using reverseRecOn with
    | nil =>
      simp only [flatMap_nil, append_nil] at h
      obtain ⟨hab, -, hmn⟩ := field_inj rfl rfl h
      exact ⟨rfl, hab, hmn⟩
    | append_singleton r y =>
      simp only [flatMap_nil, append_nil, flatMap_append, flatMap_singleton, inputText,
        ← append_assoc] at h
      cases (field_inj rfl rfl h).2.1
  | append_singleton l x ih =>
    cases r using reverseRecOn with
    | nil =>
      simp only [flatMap_nil, append_nil, flatMap_append, flatMap_singleton, inputText,
        ← append_assoc] at h
      cases (field_inj rfl rfl h).2.1
    | append_singleton r y =>
      simp only [flatMap_append, flatMap_singleton, inputText, ← append_assoc] at h
      obtain ⟨h, -, hepoch⟩ := field_inj rfl rfl h
      obtain ⟨h, -, hmetric⟩ := field_inj rfl rfl h
      obtain ⟨rfl, hab, hmn⟩ := ih h
      exact ⟨by rw [ofLex_inj.mp (Prod.ext hmetric hepoch)], hab, hmn⟩

theorem toList_dedupKey (i : ProcessorInputs) :
    i.dedupKey.toList = i.processorId.toList ++ ':' :: toDigits 10 i.entity.kind.value ++
      ':' :: toDigits 10 i.entity.id ++ ':' :: toDigits 10 i.entity.generation ++
      ':' :: toDigits 10 i.catalogGeneration ++ (i.inputs.sort (· ≤ ·)).flatMap inputText := by
  simp [ProcessorInputs.dedupKey, String.toList_join, flatMap_map]
  rfl

/-- Whatever the processors are called, two tasks have the same key exactly if they have the
same processor, entity, generation and inputs. -/
theorem dedupKey_eq_iff (task other : ProcessorTask) :
    dedupKey task.processor task.context task.snapshot =
        dedupKey other.processor other.context other.snapshot ↔ task.inputs = other.inputs := by
  rw [task.dedupKey_inputs, other.dedupKey_inputs]
  refine ⟨fun h => ?_, congrArg _⟩
  generalize task.inputs = i, other.inputs = j at h
  have htext := congrArg String.toList h
  rw [toList_dedupKey, toList_dedupKey] at htext
  obtain ⟨hinputs, htext, hcatalog⟩ := inputs_inj htext
  obtain ⟨htext, -, hgeneration⟩ := field_inj rfl rfl htext
  obtain ⟨htext, -, hid⟩ := field_inj rfl rfl htext
  obtain ⟨hprocessor, -, hkind⟩ := field_inj rfl rfl htext
  have hmultiset := congrArg Multiset.ofList hinputs
  rw [Multiset.sort_eq, Multiset.sort_eq] at hmultiset
  have hentity : i.entity = j.entity :=
    EntityRef.tie_injective (by simp [EntityRef.tie, hkind, hid, hgeneration])
  cases i
  cases j
  rw [ProcessorInputs.mk.injEq]
  exact ⟨String.toList_inj.mp hprocessor, hentity, hcatalog, hmultiset⟩

end ProcessorExecutor

/-! ### The steps of a run -/

/-- How far the call of `runNext` that holds the run lock has come. A finished task has the
result that the call returns once the key is remembered. -/
inductive RunStage where
  | idle
  | dequeued (task : ProcessorTask)
  | admitted (task : ProcessorTask)
  | evaluated (task : ProcessorTask) (outputs : List Observation)
  | confirmed (task : ProcessorTask) (outputs : List Observation)
  | finished (task : ProcessorTask) (result : DataPlane.ProcessorRunResult)

namespace RunStage

/-- The task that was taken from the queue and is not remembered yet. -/
def task? : RunStage → Option ProcessorTask
  | .idle => none
  | .dequeued task => some task
  | .admitted task => some task
  | .evaluated task _ => some task
  | .confirmed task _ => some task
  | .finished task _ => some task

/-- Evaluating the task is still to come. -/
def beforeEvaluation : RunStage → Bool
  | .dequeued _ => true
  | .admitted _ => true
  | _ => false

end RunStage

inductive RunEvent where
  | evaluated (inputs : ProcessorInputs)
  | remembered (key : String)
  deriving DecidableEq

/-- The shared objects, the running call, the results of the calls that returned and a
record of what was evaluated and remembered, both oldest first. -/
structure ProcessorRuns (L : Limits) where
  plane : DataPlane L
  stage : RunStage := .idle
  returned : List DataPlane.ProcessorRunResult := []
  journal : List RunEvent := []

inductive ProcessorOp where
  | schedule (processor : Option MetricProcessor) (context : ProcessorContext)
      (snapshot : List Observation)
  | data (op : DataOp)
  | runNext

namespace ProcessorRuns

variable {L : Limits} (plane : DataPlane L)

/-- What an evaluation leads to: a refusal, or outputs that meet the contract. -/
def judge (task : ProcessorTask) (evaluation : ProcessorEvaluation) : RunStage :=
  if ¬readableProcessorStatus evaluation.status then
    .finished task { status := evaluation.status, ran := true }
  else if evaluation.outputs.length ≠ task.processor.outputs.length then
    .finished task
      { status := ⟨.internal, "processor output count violates contract"⟩, ran := true }
  else if outputsViolate task [] evaluation.outputs then
    .finished task { status := ⟨.internal, "processor output violates contract"⟩, ran := true }
  else .evaluated task evaluation.outputs

/-- The next step of `runNext`: taking a task, the two comparisons of the generation, the
evaluation, the commit and the remembering of the key. -/
def advance (st : ProcessorRuns L) : ProcessorRuns L :=
  match st.stage with
  | .idle =>
    match st.plane.executor.queue with
    | [] => { st with returned := st.returned ++ [{ status := .success }] }
    | task :: _ =>
      { st with
        plane := { st.plane with executor := st.plane.executor.dequeue.1 }
        stage := .dequeued task }
  | .dequeued task =>
    if st.plane.data.catalogGeneration ≠ task.context.catalogGeneration then
      { st with
        stage := .finished task
          { status := ⟨.staleGeneration, "processor task catalog is stale"⟩, ran := true,
            discarded := true } }
    else { st with stage := .admitted task }
  | .admitted task =>
    { st with
      stage := judge task (task.processor.evaluate task.context task.snapshot)
      journal := st.journal ++ [.evaluated task.inputs] }
  | .evaluated task outputs =>
    if st.plane.data.catalogGeneration ≠ task.context.catalogGeneration then
      { st with
        stage := .finished task
          { status := ⟨.staleGeneration, "processor output catalog became stale"⟩, ran := true,
            discarded := true } }
    else { st with stage := .confirmed task outputs }
  | .confirmed task outputs =>
    let committed := st.plane.data.commit outputs
    { st with
      plane := st.plane.withData committed.1
      stage := .finished task
        { status := committed.2.status, ran := true, commit := committed.2 } }
  | .finished task result =>
    { st with
      plane := { st.plane with executor := st.plane.executor.remember task.dedupKey }
      stage := .idle
      returned := st.returned ++ [result]
      journal := st.journal ++ [.remembered task.dedupKey] }

def step (st : ProcessorRuns L) : ProcessorOp → ProcessorRuns L
  | .schedule processor context snapshot =>
    { st with
      plane := { st.plane with
        executor := (st.plane.executor.schedule processor context snapshot).1 } }
  | .data op => { st with plane := st.plane.withData (st.plane.data.apply op) }
  | .runNext => st.advance

variable (metrics : MetricsManager L) (limits : ProcessorExecutorLimits)
  (valid : limits.validate.ok = true)

/-- A new executor over a store in any state. -/
def initial : ProcessorRuns L where
  plane := { metrics := metrics, executor := { limits := limits, valid := valid } }

def run (ops : List ProcessorOp) : ProcessorRuns L :=
  runFrom step (initial metrics limits valid) ops

/-! ### A call alone -/

/-- Left alone, the running call returns the result and leaves the shared objects of `out`. -/
def Finishes (st : ProcessorRuns L) (out : DataPlane L × DataPlane.ProcessorRunResult) : Prop :=
  ∃ n, (runFrom step st (List.replicate n .runNext)).stage = .idle ∧
    (runFrom step st (List.replicate n .runNext)).plane = out.1 ∧
    (runFrom step st (List.replicate n .runNext)).returned = st.returned ++ [out.2]

variable {st next : ProcessorRuns L} {out : DataPlane L × DataPlane.ProcessorRunResult}
  {plane} {ret : List DataPlane.ProcessorRunResult} {journal : List RunEvent}

theorem Finishes.of_advance (hne : st.advance = next) (hret : next.returned = st.returned)
    (h : next.Finishes out) : st.Finishes out := by
  obtain ⟨n, hst, hpl, hre⟩ := h
  subst hne
  rw [hret] at hre
  exact ⟨n + 1, hst, hpl, hre⟩

/-- The plane once the key of a task is remembered. -/
def remembering (plane : DataPlane L) (task : ProcessorTask) : DataPlane L :=
  { plane with executor := plane.executor.remember task.dedupKey }

theorem finishes_finished (task : ProcessorTask) (res : DataPlane.ProcessorRunResult) :
    Finishes ⟨plane, .finished task res, ret, journal⟩ (remembering plane task, res) :=
  ⟨1, rfl, rfl, rfl⟩

/-- From a taken task on, the steps do what the rest of the program does. -/
theorem finishes_task (task : ProcessorTask) :
    Finishes ⟨plane, .dequeued task, ret, journal⟩ ((runTask task).run plane) := by
  by_cases hst : plane.data.catalogGeneration ≠ task.context.catalogGeneration
  · have hdr : advance ⟨plane, .dequeued task, ret, journal⟩ =
        ⟨plane, .finished task
          { status := ⟨.staleGeneration, "processor task catalog is stale"⟩, ran := true,
            discarded := true }, ret, journal⟩ := by
      simp only [advance]
      rw [if_pos hst]
    exact .of_advance hdr rfl ((run_pos hst ..).symm ▸ finishes_finished ..)
  · have had : advance ⟨plane, .dequeued task, ret, journal⟩ =
        ⟨plane, .admitted task, ret, journal⟩ := by
      simp only [advance]
      rw [if_neg hst]
    refine .of_advance had rfl ((run_neg hst ..).symm ▸ .of_advance rfl rfl ?_)
    simp only [advance, judge]
    split_ifs with hre hcou hvi
    · exact finishes_finished ..
    · exact finishes_finished ..
    · generalize (task.processor.evaluate task.context task.snapshot).outputs = outs
      have hco : advance ⟨plane, .evaluated task outs, ret, journal ++ [.evaluated task.inputs]⟩ =
          ⟨plane, .confirmed task outs, ret, journal ++ [.evaluated task.inputs]⟩ := by
        simp only [advance]
        rw [if_neg hst]
      refine (run_call_bind ..).symm ▸ (run_neg hst ..).symm ▸ ?_
      rw [Program.run_bind, run_commit]
      exact .of_advance hco rfl (.of_advance rfl rfl (finishes_finished ..))
    · exact finishes_finished ..

/-- The steps of a call that nobody interrupts compute what `runNext` does. -/
theorem finishes_runNext : Finishes ⟨plane, .idle, ret, journal⟩ (runNext.run plane) := by
  obtain ⟨metrics, executor⟩ := plane
  rw [runNext, run_call_bind]
  cases hqu : executor.queue with
  | nil =>
    have hno : executor.dequeue = (executor, none) := by
      simp only [ProcessorExecutor.dequeue, hqu]
    simp only [exec, hno]
    refine ⟨1, ?_⟩
    simp only [replicate_one, runFrom_cons, runFrom_nil, step, advance, hqu]
    exact ⟨trivial, rfl, rfl⟩
  | cons task rest =>
    have hso : executor.dequeue.2 = some task := by
      simp only [ProcessorExecutor.dequeue, hqu]
    have hta : advance ⟨⟨metrics, executor⟩, .idle, ret, journal⟩ =
        ⟨⟨metrics, executor.dequeue.1⟩, .dequeued task, ret, journal⟩ := by
      simp only [advance, hqu]
    simp only [exec, hso]
    exact .of_advance hta rfl (finishes_task ..)

end ProcessorRuns

/-! ### The key sets of the executor -/

namespace ProcessorExecutor

/-- The two key sets hold exactly the keys they are meant to hold. -/
structure Exact (ex : ProcessorExecutor) : Prop where
  queued : ex.queuedKeys.Perm (ex.queue.map ProcessorTask.dedupKey)
  distinct : (ex.queue.map ProcessorTask.dedupKey).Nodup
  keyed : ∀ task ∈ ex.queue, task.dedupKey = task.inputs.dedupKey
  recent : ex.recentKeys.Perm ex.recentOrder
  bounded : RecentKeys.Bounded ex.limits.maxRecentKeys ex.recentOrder

variable {ex : ProcessorExecutor}

theorem maxRecentKeys_pos (ex : ProcessorExecutor) : 0 < ex.limits.maxRecentKeys := by
  have hva := ex.valid
  unfold validate at hva
  split_ifs at hva with hze
  · cases hva
  · omega

theorem schedule_cases (ex : ProcessorExecutor) (processor : Option MetricProcessor)
    (context : ProcessorContext) (snap : List Observation) :
    (ex.schedule processor context snap).1 = ex ∨
      ∃ p, processor = some p ∧ ∃ task : ProcessorTask,
        task.dedupKey = dedupKey p context snap ∧ task.dedupKey = task.inputs.dedupKey ∧
        task.dedupKey ∉ ex.queuedKeys ∧ task.dedupKey ∉ ex.recentKeys ∧
        ex.queue.length < ex.limits.maxQueuedTasks ∧
        task.bytes ≤ ex.limits.maxQueueBytes - ex.queuedBytes ∧
        (ex.schedule processor context snap).1 =
          { ex with
            queuedBytes := ex.queuedBytes + task.bytes
            queuedKeys := task.dedupKey :: ex.queuedKeys
            queue := ex.queue ++ [task] } := by
  cases processor with
  | none => exact .inl rfl
  | some p =>
    unfold schedule
    dsimp only
    split_ifs with hmal hin hla hkn hfu
    · exact .inl rfl
    · exact .inl rfl
    · exact .inl rfl
    · exact .inl rfl
    · exact .inl rfl
    · push Not at hkn hfu
      let task : ProcessorTask :=
        ⟨p, context, snap, dedupKey p context snap, taskBytes p snap⟩
      exact .inr ⟨p, rfl, task, rfl, task.dedupKey_inputs, hkn.1, hkn.2, hfu.1, hfu.2, rfl⟩

theorem Exact.queue (h : ex.Exact) {task : ProcessorTask} {bytes : ℕ}
    (hkey : task.dedupKey = task.inputs.dedupKey) (hnew : task.dedupKey ∉ ex.queuedKeys) :
    Exact { ex with
      queuedBytes := bytes
      queuedKeys := task.dedupKey :: ex.queuedKeys
      queue := ex.queue ++ [task] } := by
  have hno : task.dedupKey ∉ ex.queue.map ProcessorTask.dedupKey := fun hmem =>
    hnew (h.queued.mem_iff.mpr hmem)
  refine { h with queued := ?_, distinct := ?_, keyed := ?_ }
  · rw [map_append]
    exact (h.queued.cons _).trans (perm_append_singleton _ _).symm
  · rw [map_append]
    exact h.distinct.append (nodup_singleton _) (by simpa using hno)
  · intro t ht
    rcases mem_append.mp ht with ht | ht
    · exact h.keyed t ht
    · rw [mem_singleton.mp ht]
      exact hkey

theorem Exact.dequeue (h : ex.Exact) : ex.dequeue.1.Exact := by
  unfold ProcessorExecutor.dequeue
  cases hque : ex.queue with
  | nil => exact h
  | cons task rest =>
    obtain ⟨hqu, hdi, hke, hre, hbo⟩ := h
    rw [hque, map_cons] at hqu hdi
    refine ⟨?_, (nodup_cons.mp hdi).2, ?_, hre, hbo⟩
    · have her := hqu.erase task.dedupKey
      rwa [erase_cons_head] at her
    · intro t ht
      exact hke t (hque ▸ mem_cons_of_mem _ ht)

theorem foldl_erase_take {order keys : List String} (h : keys.Perm order) (n : ℕ) :
    ((order.take n).foldl List.erase keys).Perm (order.drop n) := by
  induction order generalizing keys n with
  | nil => simpa using h
  | cons key rest ih =>
    cases n with
    | zero => exact h
    | succ n =>
      have her := h.erase key
      rw [erase_cons_head] at her
      exact ih her n

theorem remember_recentOrder (h : ex.Exact) (key : String) :
    (ex.remember key).recentOrder = push ex.limits.maxRecentKeys ex.recentOrder key := by
  unfold remember push
  by_cases hkn : key ∈ ex.recentKeys
  · rw [if_pos hkn, if_pos (h.recent.mem_iff.mp hkn)]
  · rw [if_neg hkn, if_neg fun hmem => hkn (h.recent.mem_iff.mpr hmem)]

theorem Exact.remember (h : ex.Exact) (key : String) : (ex.remember key).Exact := by
  have hbo := h.bounded.push key
  rw [← remember_recentOrder h key] at hbo
  unfold ProcessorExecutor.remember at hbo ⊢
  split_ifs at hbo ⊢ with hkn
  · exact h
  · refine { h with recent := ?_, bounded := hbo }
    exact foldl_erase_take ((h.recent.cons key).trans (perm_append_singleton _ _).symm) _

@[simp] theorem remember_limits (ex : ProcessorExecutor) (key : String) :
    (ex.remember key).limits = ex.limits := by
  unfold remember
  split_ifs <;> rfl

@[simp] theorem remember_queue (ex : ProcessorExecutor) (key : String) :
    (ex.remember key).queue = ex.queue := by
  unfold remember
  split_ifs <;> rfl

end ProcessorExecutor

/-! ### What was evaluated before -/

/-- The keys remembered in a part of the journal. -/
def RunEvent.rememberedKeys (events : List RunEvent) : List String :=
  events.filterMap fun
    | .remembered key => some key
    | .evaluated _ => none

/-- The different keys, other than that of `a`, remembered in a part of the journal. -/
def RunEvent.otherKeys (a : ProcessorInputs) (events : List RunEvent) : Finset String :=
  (rememberedKeys events).toFinset.erase a.dedupKey

namespace ProcessorRuns

open RunEvent

variable {L : Limits} {st : ProcessorRuns L}

/-- Nobody schedules the key that the running call has taken and not remembered yet. -/
def Apart (st : ProcessorRuns L) : ProcessorOp → Prop
  | .schedule (some processor) context snapshot => ∀ task ∈ st.stage.task?,
      task.dedupKey ≠ ProcessorExecutor.dedupKey processor context snapshot
  | _ => True

instance (st : ProcessorRuns L) : (op : ProcessorOp) → Decidable (st.Apart op)
  | .schedule (some _) _ _ =>
    inferInstanceAs (Decidable (∀ task ∈ st.stage.task?, task.dedupKey ≠ _))
  | .schedule none _ _ => inferInstanceAs (Decidable True)
  | .data _ => inferInstanceAs (Decidable True)
  | .runNext => inferInstanceAs (Decidable True)

/-- Whatever was evaluated is still being finished or held by the recent set, and was
evaluated a second time only after the set had forgotten it. -/
structure Remembers (limits : ProcessorExecutorLimits) (st : ProcessorRuns L) : Prop where
  limits_eq : st.plane.executor.limits = limits
  exact : st.plane.executor.Exact
  waiting : ∀ task ∈ st.plane.executor.queue, task.dedupKey ∉ st.plane.executor.recentOrder
  running : ∀ task ∈ st.stage.task?, task.dedupKey = task.inputs.dedupKey ∧
    task.dedupKey ∉ st.plane.executor.recentOrder ∧
    task.dedupKey ∉ st.plane.executor.queue.map ProcessorTask.dedupKey
  held : ∀ before a since, st.journal = before ++ .evaluated a :: since →
    (∃ task ∈ st.stage.task?, st.stage.beforeEvaluation = false ∧
        task.dedupKey = a.dedupKey) ∨
      RecentKeys.Held limits.maxRecentKeys a.dedupKey (rememberedKeys since)
        st.plane.executor.recentOrder
  again : ∀ before a middle after,
    st.journal = before ++ .evaluated a :: (middle ++ .evaluated a :: after) →
    limits.maxRecentKeys ≤ (otherKeys a middle).card

namespace Remembers

variable {limits : ProcessorExecutorLimits} {task : ProcessorTask} (h : st.Remembers limits)

include h

theorem stage (next : RunStage) (hta : next.task? = st.stage.task?)
    (hla : st.stage.beforeEvaluation = false → next.beforeEvaluation = false) :
    Remembers limits { st with stage := next } := by
  refine { h with running := ?_, held := ?_ }
  · intro task hmem
    exact h.running task (hta ▸ hmem)
  · intro b a since hsp
    rcases h.held b a since hsp with ⟨task, hmem, hdo, hkey⟩ | hhe
    · exact .inl ⟨task, hta.symm ▸ hmem, hla hdo, hkey⟩
    · exact .inr hhe

theorem schedule {processor : Option MetricProcessor}
    {context : ProcessorContext} {snap : List Observation}
    (hap : st.Apart (.schedule processor context snap)) :
    (st.step (.schedule processor context snap)).Remembers limits := by
  simp only [step]
  rcases st.plane.executor.schedule_cases processor context snap with
    hsame | ⟨p, rfl, task, hkey, hin, hno, hnotR, -, -, hqu⟩
  · rw [hsame]
    exact { h with }
  · rw [hqu]
    refine { h with exact := h.exact.queue hin hno, waiting := ?_, running := ?_ }
    · intro t ht
      rcases mem_append.mp ht with ht | ht
      · exact h.waiting t ht
      · rw [mem_singleton.mp ht]
        exact fun hmem => hnotR (h.exact.recent.mem_iff.mpr hmem)
    · intro t ht
      obtain ⟨hown, hnot, hot⟩ := h.running t ht
      refine ⟨hown, hnot, ?_⟩
      rw [map_append, mem_append, map_singleton, mem_singleton, hkey]
      exact fun hmem => hmem.elim hot (hap t ht)

theorem dequeue (hid : st.stage = .idle) {rest : List ProcessorTask}
    (hqu : st.plane.executor.queue = task :: rest) :
    Remembers limits { st with
      plane := { st.plane with executor := st.plane.executor.dequeue.1 }
      stage := .dequeued task } := by
  have hex := h.exact.dequeue
  have hdi := h.exact.distinct
  have hke := h.exact.keyed
  have hwa := h.waiting
  rw [hqu] at hdi hke hwa
  simp only [ProcessorExecutor.dequeue, hqu] at hex ⊢
  refine { h with exact := hex, waiting := ?_, running := ?_, held := ?_ }
  · intro t ht
    exact hwa t (mem_cons_of_mem _ ht)
  · rintro t ⟨⟩
    exact ⟨hke task mem_cons_self, hwa task mem_cons_self, (nodup_cons.mp hdi).1⟩
  · intro b a since hsp
    rcases h.held b a since hsp with ⟨t, ht, -⟩ | hhe
    · rw [hid] at ht
      cases ht
    · exact .inr hhe

/-- A key that is evaluated is not in the recent set. So if it was evaluated before, the set
has forgotten it since. -/
theorem evaluate (hst : st.stage = .admitted task) {next : RunStage}
    (hta : next.task? = some task) (hdo : next.beforeEvaluation = false) :
    Remembers limits { st with
      stage := next
      journal := st.journal ++ [.evaluated task.inputs] } := by
  obtain ⟨hkey, hno, hnot⟩ := h.running task (by rw [hst]; rfl)
  -- an earlier evaluation is not being finished, so it is held
  have hbe : ∀ b a since, st.journal = b ++ .evaluated a :: since →
      RecentKeys.Held limits.maxRecentKeys a.dedupKey (rememberedKeys since)
        st.plane.executor.recentOrder := by
    intro b a since hsp
    rcases h.held b a since hsp with ⟨_, _, hfa, _⟩ | hhe
    · rw [hst] at hfa
      cases hfa
    · exact hhe
  refine { h with running := ?_, held := ?_, again := ?_ }
  · intro t ht
    rw [hta] at ht
    cases ht
    exact ⟨hkey, hno, hnot⟩
  · intro b a since hsp
    rcases split_append_singleton hsp with ⟨-, ha, -⟩ | ⟨rest, rfl, hjo⟩
    · cases ha
      exact .inl ⟨task, hta, hdo, hkey⟩
    · right
      have hke : rememberedKeys (rest ++ [.evaluated task.inputs]) = rememberedKeys rest := by
        simp [rememberedKeys]
      rw [hke]
      exact hbe b a rest hjo
  · intro b a middle after hsp
    rw [← cons_append, ← append_assoc] at hsp
    rcases split_append_singleton hsp with ⟨hjo, ha, -⟩ | ⟨rest, -, hjo⟩
    · cases ha
      exact (hbe b _ middle hjo.symm).forgotten (hkey ▸ hno)
    · rw [append_assoc] at hjo
      exact h.again b a middle rest hjo

theorem remember {res : DataPlane.ProcessorRunResult}
    (hst : st.stage = .finished task res) (ret : List DataPlane.ProcessorRunResult) :
    Remembers limits
      ⟨remembering st.plane task, .idle, ret, st.journal ++ [.remembered task.dedupKey]⟩ := by
  obtain ⟨hkey, hnot, hno⟩ := h.running task (by rw [hst]; rfl)
  have hor := remember_recentOrder h.exact task.dedupKey
  have hbo := h.exact.bounded
  have hpos := st.plane.executor.maxRecentKeys_pos
  rw [h.limits_eq] at hor hbo hpos
  refine ⟨?_, h.exact.remember _, ?_, ?_, ?_, ?_⟩
  · exact (remember_limits _ _).trans h.limits_eq
  · intro t ht hmem
    simp only [remembering, remember_queue] at ht
    rw [remembering, hor] at hmem
    rcases mem_push hmem with hmem | hsa
    · exact h.waiting t ht hmem
    · exact hno (hsa ▸ mem_map_of_mem ht)
  · rintro t ⟨⟩
  · intro b a since hsp
    rcases split_append_singleton hsp with ⟨-, ha, -⟩ | ⟨rest, rfl, hjo⟩
    · cases ha
    · right
      have hke : rememberedKeys (rest ++ [.remembered task.dedupKey]) =
          rememberedKeys rest ++ [task.dedupKey] := by
        simp [rememberedKeys]
      rw [remembering, hor, hke]
      by_cases hsa : a.dedupKey = task.dedupKey
      · rw [hsa]
        exact held_push hbo hpos hnot _
      · rcases h.held b a rest hjo with ⟨t, ht, -, hown⟩ | hhe
        · rw [hst] at ht
          cases ht
          exact absurd hown.symm hsa
        · exact hhe.push hbo
  · intro b a middle after hsp
    rw [← cons_append, ← append_assoc] at hsp
    rcases split_append_singleton hsp with ⟨-, ha, -⟩ | ⟨rest, -, hjo⟩
    · cases ha
    · rw [append_assoc] at hjo
      exact h.again b a middle rest hjo

end Remembers

@[simp] theorem judge_task? (task : ProcessorTask) (eval : ProcessorEvaluation) :
    (judge task eval).task? = some task := by
  unfold judge
  split_ifs <;> rfl

@[simp] theorem judge_beforeEvaluation (task : ProcessorTask) (eval : ProcessorEvaluation) :
    (judge task eval).beforeEvaluation = false := by
  unfold judge
  split_ifs <;> rfl

theorem Remembers.advance {limits : ProcessorExecutorLimits} (h : st.Remembers limits) :
    st.advance.Remembers limits := by
  unfold ProcessorRuns.advance
  cases hst : st.stage with
  | idle =>
    cases hqu : st.plane.executor.queue with
    | nil =>
      have hid := h.stage .idle (by rw [hst]) fun _ => rfl
      exact { hid with }
    | cons task rest => exact h.dequeue hst hqu
  | dequeued task =>
    dsimp only
    split_ifs
    · exact h.stage _ (by rw [hst]; rfl) fun _ => rfl
    · exact h.stage _ (by rw [hst]; rfl) (by rw [hst]; exact id)
  | admitted task =>
    exact h.evaluate hst (judge_task? _ _) (judge_beforeEvaluation _ _)
  | evaluated task outs =>
    dsimp only
    split_ifs
    · exact h.stage _ (by rw [hst]; rfl) fun _ => rfl
    · exact h.stage _ (by rw [hst]; rfl) fun _ => rfl
  | confirmed task outs =>
    have hfin := h.stage (.finished task
      { status := (st.plane.data.commit outs).2.status, ran := true,
        commit := (st.plane.data.commit outs).2 }) (by rw [hst]; rfl) fun _ => rfl
    exact { hfin with }
  | finished task res => exact h.remember hst _

variable (metrics : MetricsManager L) (limits : ProcessorExecutorLimits)
  (valid : limits.validate.ok = true)

theorem initial_remembers : (initial metrics limits valid).Remembers limits where
  limits_eq := rfl
  exact := ⟨.nil, nodup_nil, by simp [initial], .nil, bounded_nil⟩
  waiting := by simp [initial]
  running := by rintro task ⟨⟩
  held before a since hsplit := by simp [initial] at hsplit
  again before a middle after hsplit := by simp [initial] at hsplit

/-- If nobody schedules a key between the dequeue and the remembering of its task, an input
set that is evaluated twice was pushed out of the recent set in between: at least
`maxRecentKeys` other keys were remembered after the first evaluation. -/
theorem evaluated_again (ops : List ProcessorOp)
    (hapart : Along step Apart (initial metrics limits valid) ops)
    {before middle after : List RunEvent} {a : ProcessorInputs}
    (htwice : (run metrics limits valid ops).journal =
      before ++ .evaluated a :: (middle ++ .evaluated a :: after)) :
    limits.maxRecentKeys ≤ (otherKeys a middle).card := by
  have hstep : ∀ (st : ProcessorRuns L) op, st.Remembers limits → st.Apart op →
      (st.step op).Remembers limits := by
    intro st op h hap
    cases op with
    | schedule p context snap => exact h.schedule hap
    | data op => exact { h with }
    | runNext => exact h.advance
  have hrun := invariant_along hstep (initial_remembers metrics limits valid) hapart
  exact hrun.again before a middle after htwice

end ProcessorRuns

/-! ### The executor in every state -/

namespace ProcessorExecutor

/-- The queue is within its limits, and its bytes are counted. -/
structure Accounts (limits : ProcessorExecutorLimits) (ex : ProcessorExecutor) : Prop where
  limits_eq : ex.limits = limits
  bytes : ex.queuedBytes = (ex.queue.map ProcessorTask.bytes).sum
  bytes_le : ex.queuedBytes ≤ limits.maxQueueBytes
  tasks_le : ex.queue.length ≤ limits.maxQueuedTasks

variable {ex : ProcessorExecutor} {limits : ProcessorExecutorLimits}

theorem Accounts.schedule (h : ex.Accounts limits ∧ ex.Exact) (processor : Option MetricProcessor)
    (context : ProcessorContext) (snap : List Observation) :
    (ex.schedule processor context snap).1.Accounts limits ∧
      (ex.schedule processor context snap).1.Exact := by
  obtain ⟨⟨rfl, hby, hle, hta⟩, hex⟩ := h
  rcases ex.schedule_cases processor context snap with
    hsame | ⟨p, -, task, -, hin, hno, -, hro, hfi, hqu⟩
  · rw [hsame]
    exact ⟨⟨rfl, hby, hle, hta⟩, hex⟩
  · rw [hqu]
    refine ⟨⟨rfl, by simp [hby], ?_, ?_⟩, hex.queue hin hno⟩
    · dsimp only
      omega
    · simpa using hro

theorem Accounts.dequeue (h : ex.Accounts limits) : ex.dequeue.1.Accounts limits := by
  unfold ProcessorExecutor.dequeue
  cases hqu : ex.queue with
  | nil => exact h
  | cons task rest =>
    have hby := h.bytes
    have hta := h.tasks_le
    rw [hqu, map_cons, sum_cons] at hby
    rw [hqu, length_cons] at hta
    exact ⟨h.limits_eq, by simp [hby], (sub_le _ _).trans h.bytes_le, by dsimp only; omega⟩

theorem Accounts.remember (h : ex.Accounts limits) (key : String) :
    (ex.remember key).Accounts limits := by
  unfold ProcessorExecutor.remember
  split_ifs
  · exact h
  · exact { h with }

theorem generation_of_outputsViolate {task : ProcessorTask} {outs : List Observation}
    {seen : List MetricId} (h : outputsViolate task seen outs = false) :
    ∀ o ∈ outs, o.catalogGeneration = task.context.catalogGeneration := by
  induction outs generalizing seen with
  | nil => simp
  | cons out rest ih =>
    unfold outputsViolate at h
    dsimp only at h
    split_ifs at h with hvi
    push Not at hvi
    exact forall_mem_cons.mpr ⟨hvi.2.2.2.1, ih h⟩

end ProcessorExecutor

namespace ProcessorRuns

variable {L : Limits} {st : ProcessorRuns L} {limits : ProcessorExecutorLimits}

/-- Outputs that passed the contract are of the generation of their task. -/
def OfTask : RunStage → Prop
  | .evaluated task outputs => ∀ o ∈ outputs, o.catalogGeneration = task.context.catalogGeneration
  | .confirmed task outputs => ∀ o ∈ outputs, o.catalogGeneration = task.context.catalogGeneration
  | _ => True

/-- A commit that finds another generation active than that of its task leaves the store alone. -/
def CommitsCurrent (st : ProcessorRuns L) : ProcessorOp → Prop
  | .runNext => ∀ task outputs, st.stage = .confirmed task outputs →
      st.plane.data.catalogGeneration ≠ task.context.catalogGeneration →
      st.advance.plane.data = st.plane.data
  | _ => True

/-- What holds in every state. -/
structure Sound (limits : ProcessorExecutorLimits) (st : ProcessorRuns L) : Prop where
  accounts : st.plane.executor.Accounts limits
  exact : st.plane.executor.Exact
  ofTask : OfTask st.stage

theorem judge_ofTask (task : ProcessorTask) (eval : ProcessorEvaluation) :
    OfTask (judge task eval) := by
  unfold judge
  split_ifs with hre hco hvi
  · trivial
  · trivial
  · exact generation_of_outputsViolate (Bool.eq_false_iff.mpr hvi)
  · trivial

theorem Sound.advance (h : st.Sound limits) : st.advance.Sound limits := by
  unfold ProcessorRuns.advance
  cases hst : st.stage with
  | idle =>
    cases hqu : st.plane.executor.queue with
    | nil => exact { h with ofTask := trivial }
    | cons task rest => exact ⟨h.accounts.dequeue, h.exact.dequeue, trivial⟩
  | dequeued task =>
    dsimp only
    split_ifs
    · exact { h with ofTask := trivial }
    · exact { h with ofTask := trivial }
  | admitted task => exact { h with ofTask := judge_ofTask task _ }
  | evaluated task outs =>
    have hof := h.ofTask
    rw [hst] at hof
    dsimp only
    split_ifs
    · exact { h with ofTask := trivial }
    · exact { h with ofTask := hof }
  | confirmed task outs => exact { h with ofTask := trivial }
  | finished task res => exact ⟨h.accounts.remember _, h.exact.remember _, trivial⟩

theorem Sound.step (h : st.Sound limits) (op : ProcessorOp) : (st.step op).Sound limits := by
  cases op with
  | schedule p context snap =>
    obtain ⟨hac, hex⟩ := ProcessorExecutor.Accounts.schedule ⟨h.accounts, h.exact⟩ p context snap
    exact ⟨hac, hex, h.ofTask⟩
  | data op => exact { h with }
  | runNext => exact h.advance

theorem Sound.commitsCurrent (h : st.Sound limits) (op : ProcessorOp) : st.CommitsCurrent op := by
  cases op with
  | runNext =>
    intro task outs hst hgen
    have hof := h.ofTask
    simp only [hst, OfTask] at hof
    simp only [ProcessorRuns.advance, hst]
    change (st.plane.data.commit outs).1 = _
    rcases st.plane.data.commitLocked_passes outs with ⟨status, hfa, hs⟩ | ⟨staged, hpa, -⟩
    · rw [DataManager.commit, hs]
      rfl
    · obtain ⟨out, hout⟩ := exists_mem_of_ne_nil _ (DataManager.refusal_eq_none.mp hpa.unrefused).1
      exact absurd ((hpa.committed.accepted out hout).generation.symm.trans (hof out hout)) hgen
  | _ => trivial

/-- However the calls of `schedule` and the steps of `runNext` interleave with each other and
with changes of the catalog, the queue keeps its account and its limits, both key sets are
exact, and no outputs of another generation than the active one are committed. -/
theorem run_executor (metrics : MetricsManager L) (limits : ProcessorExecutorLimits)
    (valid : limits.validate.ok = true) (ops : List ProcessorOp) :
    (run metrics limits valid ops).plane.executor.Accounts limits ∧
      (run metrics limits valid ops).plane.executor.Exact ∧
      Along step CommitsCurrent (initial metrics limits valid) ops := by
  have hstart : (initial metrics limits valid).Sound limits :=
    ⟨⟨rfl, rfl, zero_le _, zero_le _⟩,
      (initial_remembers metrics limits valid).exact, trivial⟩
  have hrun := invariant_run (I := Sound limits) (fun _ op h => h.step op) hstart ops
  refine ⟨hrun.accounts, hrun.exact, ?_⟩
  exact law_along (I := Sound limits) (fun _ op h _ => h.step op)
    (fun _ op h _ => h.commitsCurrent op) hstart (along_of_forall (fun _ _ => trivial) _)

end ProcessorRuns

/-! ### A metric derived from another one -/

namespace DerivedMetric

open ProcessorRuns

open TwoMetrics (limits device descriptor)

def target : TargetCatalog :=
  { TwoMetrics.target with
    metrics :=
      [descriptor 7 "inlet",
        { descriptor 8 "peak" with collectionMode := .derived, dependencies := [7] }] }

def view : CatalogView where
  generation := 1
  entities := [{ ref := device, target := .fpga }]

/-- A sample of metric 7 from the given commit. -/
def sample (epoch : ℕ) : Observation :=
  { TwoMetrics.sample 7 40 epoch with commitEpoch := epoch, source := { provider := "mock" } }

def context : ProcessorContext :=
  { entity := device, catalogGeneration := 1, evaluatedMonotonicTimeNs := 5, derivationDepth := 1 }

/-- Copies the value of its input. -/
def peak : MetricProcessor where
  id := "peak"
  version := 1
  inputs := [⟨7, 1⟩]
  outputs := [⟨8, 1⟩]
  evaluate := fun context snapshot =>
    { status := .success
      outputs := snapshot.map fun o =>
        { entity := context.entity
          metric := 8
          value := o.value
          status := .valid
          observedMonotonicTimeNs := context.evaluatedMonotonicTimeNs
          metricSemanticVersion := 1
          catalogGeneration := context.catalogGeneration
          source := { provider := "pdcm-metrics" }
          derivation :=
            { processorId := "peak", inputSequences := [o.commitEpoch], processorVersion := 1
              depth := context.derivationDepth } } }

def metrics : MetricsManager limits := { data := .initial limits, processors := [some peak] }

def activate : ProcessorOp := .data (.activateCatalog (some view) target)

def schedule (epoch : ℕ) : ProcessorOp := .schedule (some peak) context [sample epoch]

/-- A call of `runNext` from its dequeue to its return. -/
def runAll : List ProcessorOp := List.replicate 6 .runNext

def inputs (epoch : ℕ) : ProcessorInputs where
  processorId := "peak"
  entity := device
  catalogGeneration := 1
  inputs := [toLex (7, epoch)]

theorem one_recent_valid :
    ({ maxRecentKeys := 1 } : ProcessorExecutorLimits).validate.ok = true := by
  decide

/-- Two input sets in turn, each scheduled when the other is finished. -/
def inTurn : List ProcessorOp :=
  [activate, schedule 1] ++ runAll ++ [schedule 2] ++ runAll ++ [schedule 1] ++ runAll

/-- The second input set takes the only place of the recent set. -/
theorem evaluated_again_displaced :
    (run metrics { maxRecentKeys := 1 } one_recent_valid inTurn).journal =
      [.evaluated (inputs 1), .remembered "peak:1:1:1:1:7@1", .evaluated (inputs 2),
        .remembered "peak:1:1:1:1:7@2", .evaluated (inputs 1),
        .remembered "peak:1:1:1:1:7@1"] ∧
    1 ≤ (RunEvent.otherKeys (inputs 1)
      [.remembered "peak:1:1:1:1:7@1", .evaluated (inputs 2),
        .remembered "peak:1:1:1:1:7@2"]).card := by
  have hjournal : (run metrics { maxRecentKeys := 1 } one_recent_valid inTurn).journal =
      [] ++ .evaluated (inputs 1) ::
        ([.remembered "peak:1:1:1:1:7@1", .evaluated (inputs 2),
            .remembered "peak:1:1:1:1:7@2"] ++
          .evaluated (inputs 1) :: [.remembered "peak:1:1:1:1:7@1"]) := by
    decide +kernel
  exact ⟨hjournal, evaluated_again metrics _ one_recent_valid inTurn (by decide +kernel) hjournal⟩

/-- The input set is scheduled once more after its task was taken. -/
def inBetween : List ProcessorOp :=
  [activate, schedule 1, .runNext, schedule 1] ++ runAll ++ runAll

theorem run_executor_inBetween :
    let plane := (run metrics {} validate_default inBetween).plane
    plane.executor.Accounts {} ∧ plane.executor.Exact ∧
      Along step CommitsCurrent (initial metrics {} validate_default)
        inBetween :=
  run_executor metrics {} validate_default inBetween

/-- The second task is queued although the first one is running. Both are evaluated, and both
outputs are committed. -/
theorem evaluated_twice :
    ∃ before middle after a,
      (run metrics {} validate_default inBetween).journal =
        before ++ .evaluated a :: (middle ++ .evaluated a :: after) ∧
      (RunEvent.otherKeys a middle).card < ({} : ProcessorExecutorLimits).maxRecentKeys ∧
      (run metrics {} validate_default inBetween).plane.data.commitEpoch =
        2 := by
  refine ⟨[], [.remembered "peak:1:1:1:1:7@1"], [.remembered "peak:1:1:1:1:7@1"], inputs 1,
    by decide +kernel, ?_, by decide +kernel⟩
  exact Finset.card_erase_le.trans_lt (by decide)

end DerivedMetric
end Pdcm
