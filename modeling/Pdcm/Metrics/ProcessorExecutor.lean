import Pdcm.Metrics.ProcessorGraph

/-!
# The processor executor

`ProcessorExecutor` of `metrics/processor.cpp`: a bounded queue of derivation tasks.
A task whose key is queued or was finished recently is not scheduled again. The parts
of `runNext` that touch the executor alone are here; the calls into the data manager
between them are in the data plane.
-/

namespace Pdcm

structure ProcessorExecutorLimits where
  maxQueuedTasks : ℕ := 256
  maxQueueBytes : ℕ := 4 * 1024 * 1024
  maxRecentKeys : ℕ := 4096
  deriving DecidableEq, Repr

def ProcessorExecutorLimits.validate (l : ProcessorExecutorLimits) : Status :=
  if l.maxQueuedTasks = 0 ∨ l.maxQueueBytes = 0 ∨ l.maxRecentKeys = 0 then
    ⟨.invalidArgument, "processor executor limits must be non-zero"⟩
  else .success

theorem ProcessorExecutorLimits.validate_default :
    ({} : ProcessorExecutorLimits).validate.ok = true := by
  decide

structure ProcessorScheduleResult where
  status : Status := {}
  scheduled : Bool := false
  deriving DecidableEq, Repr

structure ProcessorTask where
  processor : MetricProcessor
  context : ProcessorContext
  snapshot : List Observation
  dedupKey : String
  bytes : ℕ

/-- The constructor refuses limits that do not validate. The two key sets are lists
without repetition. -/
structure ProcessorExecutor where
  limits : ProcessorExecutorLimits := {}
  valid : limits.validate.ok = true
  queue : List ProcessorTask := []
  queuedBytes : ℕ := 0
  queuedKeys : List String := []
  recentOrder : List String := []
  recentKeys : List String := []

def readableProcessorStatus (status : Status) : Bool :=
  decide (status.code = .success ∨ status.code = .partialResult)

namespace ProcessorExecutor

def sizeofTask : ℕ := 128

/-- The executor's own measure, which leaves out the latest failure. -/
def inputBytes (o : Observation) : ℕ :=
  sizeofObservation + o.source.provider.utf8ByteSize + o.source.nativeSource.utf8ByteSize +
    o.error.status.message.utf8ByteSize + o.derivation.processorId.utf8ByteSize +
    o.derivation.inputSequences.length * 8 + o.value.elim 0 valueBytes

/-- Saturates at the end of `size_t`. -/
def taskBytes (processor : MetricProcessor) (snapshot : List Observation) : ℕ :=
  min uint64Max (sizeofTask + processor.id.utf8ByteSize + (snapshot.map inputBytes).sum)

def dedupKey (processor : MetricProcessor) (context : ProcessorContext)
    (snapshot : List Observation) : String :=
  let inputs := (snapshot.map fun o => toLex (o.metric, o.commitEpoch)).insertionSort (· ≤ ·)
  processor.id ++ ":" ++ toString context.entity.kind.value ++ ":" ++ toString context.entity.id ++
    ":" ++ toString context.entity.generation ++ ":" ++ toString context.catalogGeneration ++
    String.join (inputs.map fun input =>
      ":" ++ toString (ofLex input).1 ++ "@" ++ toString (ofLex input).2)

def taskMalformed (processor : MetricProcessor) (context : ProcessorContext)
    (snapshot : List Observation) : Bool :=
  decide (processor.id = "" ∨ processor.version = 0 ∨ context.entity.kind ≠ .device ∨
    context.entity.generation = 0 ∨ context.catalogGeneration = 0 ∨
    context.evaluatedMonotonicTimeNs < 0 ∨ context.derivationDepth = 0 ∨
    4 < context.derivationDepth ∨ snapshot = [])

def inputInconsistent (context : ProcessorContext) (item : Observation) : Bool :=
  decide (item.entity ≠ context.entity ∨ item.catalogGeneration ≠ context.catalogGeneration ∨
    item.commitEpoch = 0 ∨ ¬(validateObservation item).ok)

variable (ex : ProcessorExecutor)

def schedule (processor : Option MetricProcessor)
    (context : ProcessorContext) (snapshot : List Observation) :
    ProcessorExecutor × ProcessorScheduleResult :=
  match processor with
  | none => (ex, { status := ⟨.invalidArgument, "processor task is malformed"⟩ })
  | some processor =>
    let bytes := taskBytes processor snapshot
    let key := dedupKey processor context snapshot
    if taskMalformed processor context snapshot then
      (ex, { status := ⟨.invalidArgument, "processor task is malformed"⟩ })
    else if snapshot.any (inputInconsistent context) then
      (ex, { status := ⟨.staleGeneration, "processor input snapshot is inconsistent"⟩ })
    else if ex.limits.maxQueueBytes < bytes then
      (ex, { status := ⟨.resourceExhausted, "processor task exceeds queue byte limit"⟩ })
    else if key ∈ ex.queuedKeys ∨ key ∈ ex.recentKeys then (ex, { status := .success })
    else if ex.limits.maxQueuedTasks ≤ ex.queue.length ∨
        ex.limits.maxQueueBytes - ex.queuedBytes < bytes then
      (ex, { status := ⟨.resourceExhausted, "processor queue limit exceeded"⟩ })
    else
      ({ ex with
          queuedBytes := ex.queuedBytes + bytes
          queuedKeys := key :: ex.queuedKeys
          queue := ex.queue ++ [⟨processor, context, snapshot, key, bytes⟩] },
        { status := .success, scheduled := true })

/-- The first locked section of `runNext`. -/
def dequeue : ProcessorExecutor × Option ProcessorTask :=
  match ex.queue with
  | [] => (ex, none)
  | task :: rest =>
    ({ ex with
        queue := rest
        queuedBytes := ex.queuedBytes - task.bytes
        queuedKeys := ex.queuedKeys.erase task.dedupKey },
      some task)

def remember (key : String) : ProcessorExecutor :=
  if key ∈ ex.recentKeys then ex
  else
    let order := ex.recentOrder ++ [key]
    let excess := order.length - ex.limits.maxRecentKeys
    { ex with
      recentOrder := order.drop excess
      recentKeys := (order.take excess).foldl List.erase (key :: ex.recentKeys) }

/-- The contract loop over the outputs of an evaluation. -/
def outputsViolate (task : ProcessorTask) (observedOutputs : List MetricId) :
    List Observation → Bool
  | [] => false
  | output :: rest =>
    let expected := task.processor.outputs.find? fun p => decide (p.metric = output.metric)
    if expected.map ProcessorMetric.semanticVersion ≠ some output.metricSemanticVersion ∨
        output.metric ∈ observedOutputs ∨ output.entity ≠ task.context.entity ∨
        output.catalogGeneration ≠ task.context.catalogGeneration ∨ output.commitEpoch ≠ 0 ∨
        output.derivation.processorId ≠ task.processor.id ∨
        output.derivation.processorVersion ≠ task.processor.version ∨
        output.derivation.depth ≠ task.context.derivationDepth ∨
        ¬(validateObservation output).ok then true
    else outputsViolate task (output.metric :: observedOutputs) rest

end ProcessorExecutor
end Pdcm
