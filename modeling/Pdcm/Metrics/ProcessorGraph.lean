import Mathlib.Data.String.Basic
import Pdcm.Semantic.Catalog

/-!
# Processors and the processor graph

`metrics/processor.hpp` and `ProcessorGraph::rebuild`: the checks that tie each
processor to the descriptors of a target catalog, and the topological order with
derivation depths. A processor's `evaluate` is a parameter of the model.
-/

namespace Pdcm

open Library

structure ProcessorMetric where
  metric : MetricId := 0
  semanticVersion : ℕ := 0
  deriving DecidableEq, Repr

structure ProcessorContext where
  entity : EntityRef
  catalogGeneration : ℕ := 0
  evaluatedMonotonicTimeNs : ℤ := 0
  derivationDepth : ℕ := 0
  deriving DecidableEq, Repr

structure ProcessorEvaluation where
  status : Status := {}
  outputs : List Observation := []
  deriving DecidableEq, Repr

structure MetricProcessor where
  id : String
  version : ℕ
  inputs : List ProcessorMetric
  outputs : List ProcessorMetric
  evaluate : ProcessorContext → List Observation → ProcessorEvaluation

structure ProcessorGraphNode where
  processor : MetricProcessor
  depth : ℕ := 0

structure ProcessorGraphSnapshot where
  catalogGeneration : ℕ := 0
  nodes : List ProcessorGraphNode := []

namespace ProcessorGraph

abbrev Descriptors := OrderedMap MetricId MetricDescriptor

/-- Metric id to the index of the processor that produces it. -/
abbrev Producers := OrderedMap MetricId ℕ

def checkInputs (descriptors : Descriptors) (inputIds : List MetricId) :
    List ProcessorMetric → Option Status
  | [] => none
  | input :: rest =>
    if input.metric = 0 ∨ input.semanticVersion = 0 ∨ input.metric ∈ inputIds ∨
        (descriptors.find? input.metric).map MetricDescriptor.semanticVersion ≠
          some input.semanticVersion then
      some ⟨.unsupported, "processor input descriptor or semantic version is missing"⟩
    else checkInputs descriptors (input.metric :: inputIds) rest

/-- The descriptor's dependencies and the processor's inputs, compared after sorting. -/
def dependenciesMatch (descriptor : MetricDescriptor) (inputs : List ProcessorMetric) : Bool :=
  decide (descriptor.dependencies.insertionSort (· ≤ ·) =
    (inputs.map ProcessorMetric.metric).insertionSort (· ≤ ·))

def checkOutputs (descriptors : Descriptors) (inputs : List ProcessorMetric) (index : ℕ)
    (outputIds : List MetricId) (producers : Producers) :
    List ProcessorMetric → Except Status Producers
  | [] => .ok producers
  | output :: rest =>
    match descriptors.find? output.metric with
    | none =>
      .error ⟨.unsupported, "processor output descriptor is missing or not derived"⟩
    | some descriptor =>
      if output.metric = 0 ∨ output.semanticVersion = 0 ∨ output.metric ∈ outputIds ∨
          descriptor.collectionMode ≠ .derived ∨
          descriptor.semanticVersion ≠ output.semanticVersion then
        .error ⟨.unsupported, "processor output descriptor is missing or not derived"⟩
      else if producers.contains output.metric then
        .error ⟨.invalidArgument, "derived metric has multiple authoritative processors"⟩
      else if dependenciesMatch descriptor inputs then
        checkOutputs descriptors inputs index (output.metric :: outputIds)
          (producers.insert output.metric index) rest
      else
        .error ⟨.unsupported, "derived descriptor dependencies do not match processor"⟩

/-- The loop over the processors. A missing one is a null pointer of the source. -/
def checkProcessors (descriptors : Descriptors) (index : ℕ) (ids : List String)
    (producers : Producers) :
    List (Option MetricProcessor) → Except Status (List MetricProcessor × Producers)
  | [] => .ok ([], producers)
  | none :: _ =>
    .error ⟨.invalidArgument, "processor identity is invalid or duplicated"⟩
  | some processor :: rest =>
    if processor.id = "" ∨ processor.version = 0 ∨ processor.id ∈ ids then
      .error ⟨.invalidArgument, "processor identity is invalid or duplicated"⟩
    else if processor.inputs = [] ∨ processor.outputs = [] then
      .error ⟨.invalidArgument, "processor inputs and outputs must be non-empty"⟩
    else
      match checkInputs descriptors [] processor.inputs with
      | some status => .error status
      | none =>
        match checkOutputs descriptors processor.inputs index [] producers processor.outputs with
        | .error status => .error status
        | .ok producers =>
          match checkProcessors descriptors (index + 1) (processor.id :: ids) producers rest with
          | .error status => .error status
          | .ok (processors, producers) => .ok (processor :: processors, producers)

/-! ### Topological order -/

/-- The indices of the processors that produce an input of `processor`, each once. -/
def predecessors (producers : Producers) (processor : MetricProcessor) : List ℕ :=
  (processor.inputs.filterMap fun input => producers.find? input.metric).dedup

/-- The consumers of processor `index`, in index order. -/
def edges (processors : List MetricProcessor) (producers : Producers) (index : ℕ) : List ℕ :=
  (List.range processors.length).filter fun consumer =>
    match processors[consumer]? with
    | some processor => decide (index ∈ predecessors producers processor)
    | none => false

structure SortState where
  ready : OrderedMap (String ×ₗ ℕ) Unit
  depth : ℕ → ℕ
  indegree : ℕ → ℕ
  nodes : List ProcessorGraphNode

def processorId (processors : List MetricProcessor) (index : ℕ) : String :=
  (processors[index]?.map MetricProcessor.id).getD ""

/-- Follow the edge from a processor of depth `depth` to `consumer`. -/
def relax (processors : List MetricProcessor) (depth : ℕ) (st : SortState) (consumer : ℕ) :
    SortState :=
  let indegree := st.indegree consumer - 1
  { st with
    depth := Function.update st.depth consumer (max (st.depth consumer) ((depth + 1) % 2 ^ 8))
    indegree := Function.update st.indegree consumer indegree
    ready :=
      if indegree = 0 then st.ready.insert (toLex (processorId processors consumer, consumer)) ()
      else st.ready }

/-- The `while (!ready.empty())` loop. Every processor becomes ready at most once, so
the number of processors bounds the rounds. -/
def sortLoop (processors : List MetricProcessor) (producers : Producers) :
    ℕ → SortState → Except Status SortState
  | 0, st => .ok st
  | fuel + 1, st =>
    match st.ready.entries with
    | [] => .ok st
    | (first, _) :: _ =>
      let index := (ofLex first).2
      let depth := st.depth index
      if 4 < depth then .error ⟨.unsupported, "processor derivation depth exceeds four"⟩
      else
        let visited : SortState :=
          { st with
            ready := st.ready.erase first
            nodes := st.nodes ++ (processors[index]?.map fun p => ⟨p, depth⟩).toList }
        sortLoop processors producers fuel
          ((edges processors producers index).foldl (relax processors depth) visited)

def initialSort (processors : List MetricProcessor) (producers : Producers) : SortState where
  ready := (List.range processors.length).foldl (fun ready index =>
    match processors[index]? with
    | some processor =>
      if predecessors producers processor = [] then
        ready.insert (toLex (processor.id, index)) ()
      else ready
    | none => ready) .empty
  depth := fun _ => 1
  indegree := fun index =>
    (processors[index]?.map fun p => (predecessors producers p).length).getD 0
  nodes := []

/-- The graph a catalog and its processors define, before it is published. -/
def build (catalog : TargetCatalog) (catalogGeneration : ℕ)
    (processors : List (Option MetricProcessor)) : Except Status ProcessorGraphSnapshot :=
  if ¬catalog.validate.ok ∨ catalogGeneration = 0 then
    .error ⟨.invalidArgument, "processor graph catalog is invalid"⟩
  else
    match checkProcessors (descriptorMap catalog.metrics) 0 [] .empty processors with
    | .error status => .error status
    | .ok (processors, producers) =>
      if catalog.metrics.any fun d =>
          decide (d.collectionMode = .derived) && !producers.contains d.id then
        .error ⟨.unsupported, "derived metric has no authoritative processor"⟩
      else
        match sortLoop processors producers processors.length
            (initialSort processors producers) with
        | .error status => .error status
        | .ok st =>
          if st.nodes.length ≠ processors.length then
            .error ⟨.unsupported, "processor dependency graph contains a cycle"⟩
          else .ok { catalogGeneration := catalogGeneration, nodes := st.nodes }

def rebuild (current : ProcessorGraphSnapshot) (catalog : TargetCatalog) (catalogGeneration : ℕ)
    (processors : List (Option MetricProcessor)) : ProcessorGraphSnapshot × Status :=
  match build catalog catalogGeneration processors with
  | .error status => (current, status)
  | .ok next =>
    if catalogGeneration < current.catalogGeneration then
      (current, ⟨.staleGeneration, "processor graph generation moved backward"⟩)
    else (next, .success)

theorem rebuild_failed {current : ProcessorGraphSnapshot} {cat : TargetCatalog}
    {gen : ℕ} {ps : List (Option MetricProcessor)}
    (h : (rebuild current cat gen ps).2.ok = false) :
    (rebuild current cat gen ps).1 = current := by
  unfold rebuild at h ⊢
  cases hb : build cat gen ps with
  | error st => rfl
  | ok next =>
    simp only [hb] at h ⊢
    split_ifs at h ⊢
    · rfl
    · cases h

end ProcessorGraph
end Pdcm
