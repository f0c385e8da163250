import Pdcm.Collection.DueGaps
import Pdcm.Collection.GenerationIsolation

/-!
# Overlapping calls of the coordinator

`applyWatchSnapshot` is given a snapshot that was read before, compiles it without a lock,
stores the plan under the plan writer's lock and, still holding it, installs the due times
under the runtime's lock. `runDue` loads the plan before it takes the runtime's lock. Here
each of these is a step of its own, and the calls of clients, of the scheduler and of the
worker overlap in any way. A call that nothing comes between is the one of the sequential
model.
-/

namespace Pdcm

open Library

/-- How far a call of `applyWatchSnapshot` is. `seen` is the version of the plan that was
published when its snapshot was read. -/
inductive ApplyCall where
  | holding (watches : WatchSnapshot) (seen : ℕ)
  | compiled (plan : CollectionPlan) (seen : ℕ)
  | published (plan : CollectionPlan)
  /-- With the version it published, 0 if it was refused. -/
  | returned (status : Status) (version : ℕ)
  deriving DecidableEq

inductive DueCall where
  | loaded (current : CollectionPlan) (now : ℤ)
  | unlocked
  deriving DecidableEq

/-- A coordinator with the data plane it works on and the calls in progress. -/
structure PlanSystem (L : Limits) where
  runtime : Coordinator L
  plane : DataPlane L
  applies : List ApplyCall := []
  dues : List DueCall := []
  /-- The call that holds `plan_writer_mutex_`. -/
  writer : Option ℕ := none

inductive PlanStep (L : Limits) where
  /-- A client changes its watches. -/
  | watch (op : WatchOperation)
  /-- A critical section of the data plane. -/
  | call (c : PlaneCall)
  | readSnapshot
  | compile (call : ℕ) (now : ℤ)
  | publish (call : ℕ)
  | install (call : ℕ)
  | loadPlan (now : ℤ)
  | runLocked (call : ℕ)
  /-- A recording, the worker, a fresh read or a new route. -/
  | coordinator (a : CoordinatorStep L)

namespace PlanSystem

variable {L : Limits} (s : PlanSystem L)

def coordinator (s : PlanSystem L) : Coordinator L := { s.runtime with data := s.plane.data }

def setApply (s : PlanSystem L) (call : ℕ) (next : ApplyCall) : PlanSystem L :=
  { s with applies := s.applies.set call next }

/-- `applyWatchSnapshot` up to the plan writer's lock. -/
def compile (s : PlanSystem L) (call : ℕ) (now : ℤ) : PlanSystem L :=
  match s.applies[call]? with
  | some (.holding watches seen) =>
    match compilePlan s.runtime.limits s.plane.data watches now with
    | .error status => s.setApply call (.returned status 0)
    | .ok plan => s.setApply call (.compiled plan seen)
  | _ => s

/-- The plan is stored once the lock is free. -/
def publish (s : PlanSystem L) (call : ℕ) : PlanSystem L :=
  match s.applies[call]?, s.writer with
  | some (.compiled plan _), none =>
    if s.runtime.plan.version = uint64Max then
      s.setApply call (.returned ⟨.internal, "collection plan version overflow"⟩ 0)
    else
      let next := { plan with version := s.runtime.plan.version + 1 }
      { s.setApply call (.published next) with
        runtime := { s.runtime with plan := next }
        writer := some call }
  | _, _ => s

def install (s : PlanSystem L) (call : ℕ) : PlanSystem L :=
  match s.applies[call]? with
  | some (.published plan) =>
    { s.setApply call (.returned .success plan.version) with
      runtime := s.runtime.installPlan plan
      writer := none }
  | _ => s

def runLocked (s : PlanSystem L) (call : ℕ) : PlanSystem L :=
  match s.dues[call]? with
  | some (.loaded current now) =>
    { s with
      runtime := (s.coordinator.runDueLocked current now).unlock
      dues := s.dues.set call .unlocked }
  | _ => s

def step (s : PlanSystem L) : PlanStep L → PlanSystem L
  | .watch op =>
    { s with
      runtime :=
        { s.runtime with watchManager := s.runtime.watchManager.map fun m => m.apply op } }
  | .call c => { s with plane := (DataPlane.exec c s.plane).1 }
  | .readSnapshot =>
    match s.runtime.watchManager with
    | some m => { s with applies := s.applies ++ [.holding m.snapshot s.runtime.plan.version] }
    | none => s
  | .compile call now => s.compile call now
  | .publish call => s.publish call
  | .install call => s.install call
  | .loadPlan now => { s with dues := s.dues ++ [.loaded s.runtime.plan now] }
  | .runLocked call => s.runLocked call
  | .coordinator a => if a.internal then { s with runtime := s.coordinator.step a } else s

/-- A new process. -/
def start (limits : CollectionLimits) (valid : limits.validate.ok = true)
    (watchManager : Option WatchManager) (processors : List (Option MetricProcessor))
    (executor : ProcessorExecutor) : PlanSystem L where
  runtime := .initial limits valid watchManager (.initial L)
  plane := { metrics := { data := .initial L, processors := processors }, executor := executor }

/-! ### Calls without interference -/

/-- A call of `applyWatchSnapshot` that nothing comes between. -/
theorem apply_alone {m : WatchManager} (hm : s.runtime.watchManager = some m)
    (hwr : s.writer = none) (now : ℤ) :
    (runFrom step s [.readSnapshot, .compile s.applies.length now, .publish s.applies.length,
      .install s.applies.length]).coordinator =
      (s.coordinator.applyWatchSnapshot m.snapshot now).1 := by
  simp only [runFrom_cons, step, hm, compile, List.getElem?_concat_length]
  change _ = (match compilePlan s.runtime.limits s.plane.data m.snapshot now with
    | .error st => (s.coordinator, st)
    | .ok plan => _).1
  cases compilePlan s.runtime.limits s.plane.data m.snapshot now with
  | error st => simp [setApply, publish, install, coordinator]
  | ok plan =>
    by_cases hver : s.runtime.plan.version = uint64Max
    · simp [setApply, publish, install, hwr, hver, coordinator]
    · simp [setApply, publish, install, hwr, hver, coordinator, Coordinator.installPlan]

/-- A `runDue` call that nothing comes between. -/
theorem runDue_alone (now : ℤ) :
    (runFrom step s [.loadPlan now, .runLocked s.dues.length]).runtime =
      s.coordinator.step (.runDue now) := by
  simp only [runFrom_cons, step, runLocked, List.getElem?_concat_length]
  rfl

/-! ### What a step can do -/

/-- Every way a step can end. -/
inductive Effect (s : PlanSystem L) : PlanStep L → PlanSystem L → Prop
  | unchanged {a : PlanStep L} : Effect s a s
  | managed {a : PlanStep L} (runtime : Coordinator L)
      (hinternal : s.coordinator.Internal runtime) :
      Effect s a { s with runtime := runtime }
  | called (c : PlaneCall) : Effect s (.call c) { s with plane := (DataPlane.exec c s.plane).1 }
  | read (m : WatchManager) (hm : s.runtime.watchManager = some m) :
      Effect s .readSnapshot
        { s with applies := s.applies ++ [.holding m.snapshot s.runtime.plan.version] }
  | refused {a : PlanStep L} (call : ℕ) (status : Status) :
      Effect s a (s.setApply call (.returned status 0))
  | compiled (call : ℕ) (now : ℤ) {watches : WatchSnapshot} {seen : ℕ} {plan : CollectionPlan}
      (hcall : s.applies[call]? = some (.holding watches seen))
      (hplan : compilePlan s.runtime.limits s.plane.data watches now = .ok plan) :
      Effect s (.compile call now) (s.setApply call (.compiled plan seen))
  | published (call : ℕ) {plan : CollectionPlan} {seen : ℕ}
      (hcall : s.applies[call]? = some (.compiled plan seen)) :
      Effect s (.publish call)
        { s.setApply call (.published { plan with version := s.runtime.plan.version + 1 }) with
          runtime := { s.runtime with plan := { plan with version := s.runtime.plan.version + 1 } }
          writer := some call }
  | installed (call : ℕ) {plan : CollectionPlan}
      (hcall : s.applies[call]? = some (.published plan)) :
      Effect s (.install call)
        { s.setApply call (.returned .success plan.version) with
          runtime := s.runtime.installPlan plan
          writer := none }
  | loaded (now : ℤ) :
      Effect s (.loadPlan now) { s with dues := s.dues ++ [.loaded s.runtime.plan now] }
  | ran (call : ℕ) {current : CollectionPlan} {now : ℤ}
      (hcall : s.dues[call]? = some (.loaded current now)) :
      Effect s (.runLocked call)
        { s with
          runtime := (s.coordinator.runDueLocked current now).unlock
          dues := s.dues.set call .unlocked }

theorem step_effect (a : PlanStep L) : s.Effect a (s.step a) := by
  cases a with
  | watch op =>
    refine .managed _ ⟨⟨rfl, rfl, rfl, rfl⟩, ?_⟩
    change Coordinator.ManagerStep s.runtime.watchManager (s.runtime.watchManager.map _)
    cases s.runtime.watchManager with
    | none => exact .inl rfl
    | some m => exact .inr ⟨m, op, rfl, rfl⟩
  | call c => exact .called c
  | readSnapshot =>
    rw [step]
    split
    next m hm => exact .read m hm
    next => exact .unchanged
  | compile call now =>
    rw [step, compile]
    split
    next ws seen hca =>
      split
      next => exact .refused call _
      next plan hpl => exact .compiled call now hca hpl
    next => exact .unchanged
  | publish call =>
    rw [step, publish]
    split
    next plan seen hca _ =>
      split_ifs
      · exact .refused call _
      · exact .published call hca
    next => exact .unchanged
  | install call =>
    rw [step, install]
    split
    next plan hca => exact .installed call hca
    next => exact .unchanged
  | loadPlan now => exact .loaded now
  | runLocked call =>
    rw [step, runLocked]
    split
    next cur now hca => exact .ran call hca
    next => exact .unchanged
  | coordinator a =>
    rw [step]
    split_ifs with ha
    · exact .managed _ (s.coordinator.step_internal ha)
    · exact .unchanged

end PlanSystem
end Pdcm
