import Pdcm.Library.Program
import Pdcm.Metrics.MetricsManager
import Pdcm.Metrics.ProcessorExecutor

/-!
# The data plane under concurrent callers

The data manager, the metrics manager and the processor executor are shared by all
threads. Each of their critical sections is one atomic call here. A source function
that leaves its lock between two critical sections, or that calls several locked
functions, is a program of these calls; run alone it computes what the sequential
model computes.
-/

namespace Pdcm

open Library MetricsManager

/-- What the threads share: the metrics manager with the data manager below it, and the
executor. -/
structure DataPlane (L : Limits) where
  metrics : MetricsManager L
  executor : ProcessorExecutor

/-- The critical sections. `activateCatalog`, `commit` and `commitHealth` are the parts of
these functions up to the unlock. -/
inductive PlaneCall where
  | activateCatalog (catalog : Option CatalogView) (target : TargetCatalog)
  | commit (observations : List Observation)
  | commitHeartbeatEvidence (evidence : FirmwareHeartbeatEvidence)
  | commitHealth (result : HealthResult)
  | publishEvent (draft : EventDraft)
  | catalogGeneration
  | metricDescriptor (metric : MetricId)
  | heartbeatEvidence (evidenceId : ℕ)
  | latestHeartbeatEvidence (entity : EntityRef) (requiredCatalogGeneration : ℕ)
  | readHealth (entity : EntityRef) (requiredCatalogGeneration : ℕ)
  | runtimeSnapshot
  | setRuntime (next : Runtime)
  | replaceRuntime (next : Runtime)
  | rebuildGraph (target : TargetCatalog) (catalogGeneration : ℕ)
  | schedule (processor : Option MetricProcessor) (context : ProcessorContext)
      (snapshot : List Observation)
  | dequeue
  | remember (key : String)

@[reducible] def PlaneCall.Answer : PlaneCall → Type
  | .activateCatalog _ _ => Status × List EventDraft
  | .commit _ => DataCommitResult × List EventDraft
  | .commitHeartbeatEvidence _ => EvidenceCommitResult
  | .commitHealth _ => HealthCommitResult × List EventDraft
  | .publishEvent _ => EventPublishResult
  | .catalogGeneration => ℕ
  | .metricDescriptor _ => Option MetricDescriptor
  | .heartbeatEvidence _ => EvidenceReadResult
  | .latestHeartbeatEvidence _ _ => EvidenceReadResult
  | .readHealth _ _ => HealthReadResult
  | .runtimeSnapshot => Runtime
  | .setRuntime _ => Unit
  | .replaceRuntime _ => Bool
  | .rebuildGraph _ _ => Status
  | .schedule _ _ _ => ProcessorScheduleResult
  | .dequeue => Option ProcessorTask
  | .remember _ => Unit

namespace DataPlane

variable {L : Limits} {α : Type}

def data (p : DataPlane L) : DataManager L := p.metrics.data

def withData (p : DataPlane L) (data : DataManager L) : DataPlane L :=
  { p with metrics := { p.metrics with data := data } }

def exec : (c : PlaneCall) → DataPlane L → DataPlane L × c.Answer
  | .activateCatalog catalog target, p =>
    (p.withData (p.data.activateCatalogLocked catalog target).1,
      (p.data.activateCatalogLocked catalog target).2)
  | .commit observations, p =>
    (p.withData (p.data.commitLocked observations).1, (p.data.commitLocked observations).2)
  | .commitHeartbeatEvidence evidence, p =>
    (p.withData (p.data.commitHeartbeatEvidence evidence).1,
      (p.data.commitHeartbeatEvidence evidence).2)
  | .commitHealth result, p =>
    (p.withData (p.data.commitHealthLocked result).1, (p.data.commitHealthLocked result).2)
  | .publishEvent draft, p =>
    (p.withData (p.data.publishEvent draft).1, (p.data.publishEvent draft).2)
  | .catalogGeneration, p => (p, p.data.catalogGeneration)
  | .metricDescriptor metric, p => (p, p.data.metricDescriptor metric)
  | .heartbeatEvidence evidenceId, p => (p, p.data.readHeartbeatEvidence evidenceId)
  | .latestHeartbeatEvidence entity required, p =>
    (p, p.data.latestHeartbeatEvidence entity required)
  | .readHealth entity required, p => (p, p.data.readHealth entity required)
  | .runtimeSnapshot, p => (p, p.metrics.runtime)
  | .setRuntime next, p => ({ p with metrics := { p.metrics with runtime := next } }, ())
  | .replaceRuntime next, p =>
    if next.catalogGeneration < p.metrics.runtime.catalogGeneration then (p, false)
    else ({ p with metrics := { p.metrics with runtime := next } }, true)
  | .rebuildGraph target generation, p =>
    let rebuilt := ProcessorGraph.rebuild p.metrics.graph target generation p.metrics.processors
    ({ p with metrics := { p.metrics with graph := rebuilt.1 } }, rebuilt.2)
  | .schedule processor context snapshot, p =>
    let scheduled := p.executor.schedule processor context snapshot
    ({ p with executor := scheduled.1 }, scheduled.2)
  | .dequeue, p => ({ p with executor := p.executor.dequeue.1 }, p.executor.dequeue.2)
  | .remember key, p => ({ p with executor := p.executor.remember key }, ())

def interface (L : Limits) : Interface (DataPlane L) where
  Call := PlaneCall
  Answer := PlaneCall.Answer
  exec := exec

/-- Programs over the data plane. -/
abbrev Plane (L : Limits) := Program (interface L)

def call (c : PlaneCall) : Plane L c.Answer := Program.request (I := interface L) c

theorem run_call_bind (c : PlaneCall) (next : c.Answer → Plane L α) (p : DataPlane L) :
    (call c >>= next).run p = (next (exec c p).2).run (exec c p).1 := rfl

theorem run_pos {c : Prop} [Decidable c] (h : c) (a b : Plane L α) (p : DataPlane L) :
    (if c then a else b).run p = a.run p := by rw [if_pos h]

theorem run_neg {c : Prop} [Decidable c] (h : ¬c) (a b : Plane L α) (p : DataPlane L) :
    (if c then a else b).run p = b.run p := by rw [if_neg h]

/-! ### Programs -/

def publishAll : List EventDraft → Plane L Unit
  | [] => pure ()
  | draft :: rest => do
    let _ ← call (.publishEvent draft)
    publishAll rest

/-- `DataManager::activateCatalog`. -/
def activateCatalog (catalog : Option CatalogView) (target : TargetCatalog) : Plane L Status := do
  let locked ← call (.activateCatalog catalog target)
  publishAll locked.2
  return locked.1

def commit (observations : List Observation) : Plane L DataCommitResult := do
  let locked ← call (.commit observations)
  publishAll locked.2
  return locked.1

def commitHealth (result : HealthResult) : Plane L Status := do
  let locked ← call (.commitHealth result)
  publishAll locked.2
  return locked.1.status

/-- The end of `MetricsManager::activateCatalog`: the runtime is replaced under the lock,
the initial health stored after it. -/
def installRuntime (next : Runtime) (now : ℤ) : Plane L Status := do
  let replaced : Bool ← call (.replaceRuntime next)
  if replaced = false then
    return ⟨.staleGeneration, "metrics catalog generation moved backward"⟩
  else
    match next.entity with
    | none => return .success
    | some entity => commitHealth (MetricsManager.initialHealth next entity now)

def activateRuntime (view : CatalogView) (target : TargetCatalog) (now : ℤ) : Plane L Status :=
  let next : Runtime :=
    { catalogGeneration := view.generation, heartbeat := target.health.head?.getD {} }
  if view.topologyUnsupported then do
    call (.setRuntime next)
    return ⟨.unsupported, "metrics health rejects multi-device P0"⟩
  else
    match view.entities with
    | [] => installRuntime next now
    | [record] =>
      match view.capabilities record.ref with
      | .error status => return status
      | .ok set =>
        installRuntime
          { next with
            entity := some record.ref
            heartbeatSupported := CatalogView.heartbeatSupported set } now
    | _ => return ⟨.unsupported, "metrics health accepts at most one device"⟩

/-- `MetricsManager::activateCatalog`. -/
def activateMetrics (catalog : Option CatalogView) (target : TargetCatalog) (now : ℤ) :
    Plane L Status :=
  match catalog with
  | none => return ⟨.invalidArgument, "metrics catalog is not active in DataManager"⟩
  | some view => do
    let generation : ℕ ← call .catalogGeneration
    if view.generation = 0 ∨ generation ≠ view.generation then
      return ⟨.invalidArgument, "metrics catalog is not active in DataManager"⟩
    else if ¬target.validate.ok then return target.validate
    else
      let status : Status ← call (.rebuildGraph target view.generation)
      if ¬status.ok then return status
      else activateRuntime view target now

/-- The runtime is a copy made at the start; the catalog may move on before the
evaluated result is committed. -/
def onHeartbeatEvidenceCommitted (evidenceId : ℕ) (now : ℤ) : Plane L Status := do
  let runtime : Runtime ← call .runtimeSnapshot
  match MetricsManager.activeEntity runtime with
  | none => return MetricsManager.notActive
  | some entity =>
    let read : EvidenceReadResult ← call (.heartbeatEvidence evidenceId)
    match read.evidence with
    | none => return read.status
    | some e =>
      if e.catalogGeneration ≠ runtime.catalogGeneration ∨ e.entity ≠ entity then
        return ⟨.staleGeneration, "heartbeat evidence does not match metrics catalog"⟩
      else if now < e.observedMonotonicTimeNs then
        return ⟨.invalidArgument, "heartbeat evaluation time moved backward"⟩
      else commitHealth (runtime.evaluate e now runtime.heartbeat.freshnessNs)

def onProviderStateChanged (state : ProviderState) (now : ℤ) : Plane L Status :=
  if state = .ready then return .success
  else do
    let runtime : Runtime ← call .runtimeSnapshot
    match MetricsManager.activeEntity runtime with
    | none => return MetricsManager.notActive
    | some entity =>
      let latest : EvidenceReadResult ←
        call (.latestHeartbeatEvidence entity runtime.catalogGeneration)
      commitHealth (runtime.providerLoss entity now latest.evidence)

def runFreshnessOnce (now : ℤ) : Plane L Status := do
  let runtime : Runtime ← call .runtimeSnapshot
  match MetricsManager.activeEntity runtime with
  | none => return MetricsManager.notActive
  | some entity =>
    if now < 0 then return ⟨.invalidArgument, "freshness evaluation time is invalid"⟩
    else
      let current : HealthReadResult ← call (.readHealth entity runtime.catalogGeneration)
      match current.result with
      | none => return current.status
      | some stored =>
        if isDeterminateHealth stored.state = false then return .success
        else
          let latest : EvidenceReadResult ←
            call (.latestHeartbeatEvidence entity runtime.catalogGeneration)
          match latest.evidence with
          | none => return latest.status
          | some e =>
            if now < e.observedMonotonicTimeNs then
              return ⟨.invalidArgument, "freshness evaluation time moved backward"⟩
            else if toUint64 (now - e.observedMonotonicTimeNs) ≤ runtime.heartbeat.freshnessNs then
              return .success
            else commitHealth (runtime.evaluate e now runtime.heartbeat.freshnessNs)

structure ProcessorRunResult where
  status : Status := {}
  ran : Bool := false
  discarded : Bool := false
  commit : DataCommitResult := {}
  deriving DecidableEq, Repr

/-- The ways out of `runNext` that commit nothing. -/
def dropTask (task : ProcessorTask) (status : Status) (discarded : Bool) :
    Plane L ProcessorRunResult := do
  call (.remember task.dedupKey)
  return { status := status, ran := true, discarded := discarded }

/-- `runNext` after the task was taken. The generation is compared twice outside the
store lock; the commit compares it once more under the lock. -/
def runTask (task : ProcessorTask) : Plane L ProcessorRunResult := do
  let generation : ℕ ← call .catalogGeneration
  let evaluation := task.processor.evaluate task.context task.snapshot
  if generation ≠ task.context.catalogGeneration then
    dropTask task ⟨.staleGeneration, "processor task catalog is stale"⟩ true
  else if ¬readableProcessorStatus evaluation.status then
    dropTask task evaluation.status false
  else if evaluation.outputs.length ≠ task.processor.outputs.length then
    dropTask task ⟨.internal, "processor output count violates contract"⟩ false
  else if ProcessorExecutor.outputsViolate task [] evaluation.outputs then
    dropTask task ⟨.internal, "processor output violates contract"⟩ false
  else
    let current : ℕ ← call .catalogGeneration
    if current ≠ task.context.catalogGeneration then
      dropTask task ⟨.staleGeneration, "processor output catalog became stale"⟩ true
    else
      let committed ← commit evaluation.outputs
      call (.remember task.dedupKey)
      return { status := committed.status, ran := true, commit := committed }

/-- Calls of `runNext` exclude each other in the source; here they may also overlap. -/
def runNext : Plane L ProcessorRunResult := do
  let next : Option ProcessorTask ← call .dequeue
  match next with
  | none => return { status := .success }
  | some task => runTask task

/-! ### Programs run alone -/

theorem run_publishAll (drafts : List EventDraft) (p : DataPlane L) :
    (publishAll drafts).run p = (p.withData (p.data.publishAll drafts), ()) := by
  induction drafts generalizing p with
  | nil => rfl
  | cons draft rest ih =>
    refine (run_call_bind _ _ _).trans ?_
    rw [ih]
    rfl

theorem run_commit (obs : List Observation) (p : DataPlane L) :
    (commit obs).run p = (p.withData (p.data.commit obs).1, (p.data.commit obs).2) := by
  refine (run_call_bind _ _ _).trans ?_
  rw [Program.run_bind, run_publishAll]
  rfl

/-- The plane after a call of the metrics manager alone. -/
def lift (p : DataPlane L) (called : MetricsManager L × Status) : DataPlane L × Status :=
  ({ p with metrics := called.1 }, called.2)

theorem run_commitHealth (res : HealthResult) (p : DataPlane L) :
    (commitHealth res).run p = p.lift (p.metrics.commitHealth res) := by
  refine (run_call_bind ..).trans ?_
  rw [Program.run_bind, run_publishAll]
  rfl

theorem run_installRuntime (next : Runtime) (now : ℤ) (p : DataPlane L) :
    (installRuntime next now).run p = p.lift (p.metrics.installRuntime next now) := by
  refine (run_call_bind ..).trans ?_
  simp only [MetricsManager.installRuntime, exec]
  by_cases hba : next.catalogGeneration < p.metrics.runtime.catalogGeneration
  · simp only [hba]
    rfl
  · simp only [hba]
    cases next.entity with
    | none => rfl
    | some ent => exact run_commitHealth ..

theorem run_activateRuntime (view : CatalogView) (target : TargetCatalog) (now : ℤ)
    (p : DataPlane L) :
    (activateRuntime view target now).run p =
      p.lift (p.metrics.activateRuntime view target now) := by
  simp only [activateRuntime, MetricsManager.activateRuntime]
  split_ifs
  · rfl
  · cases view.entities with
    | nil => exact run_installRuntime ..
    | cons rec rest =>
      cases rest with
      | nil =>
        dsimp only
        cases view.capabilities rec.ref with
        | error st => rfl
        | ok set => exact run_installRuntime ..
      | cons second rest => rfl

theorem run_activateMetrics (cat : Option CatalogView) (target : TargetCatalog) (now : ℤ)
    (p : DataPlane L) :
    (activateMetrics cat target now).run p = p.lift (p.metrics.activateCatalog cat target now) := by
  cases cat with
  | none => rfl
  | some view =>
    refine (run_call_bind ..).trans ?_
    simp only [MetricsManager.activateCatalog]
    by_cases hac : view.generation = 0 ∨ p.metrics.data.catalogGeneration ≠ view.generation
    · rw [if_pos hac]
      exact run_pos hac ..
    refine (run_neg hac ..).trans ?_
    split_ifs with hva hre
    · refine (run_call_bind ..).trans ?_
      exact (run_neg (not_not.mpr hre) ..).trans (run_activateRuntime ..)
    · refine (run_call_bind ..).trans ((run_pos hre ..).trans ?_)
      simp only [exec, ProcessorGraph.rebuild_failed (eq_false_of_ne_true hre)]
      rfl
    · rfl

theorem run_onHeartbeatEvidenceCommitted (eid : ℕ) (now : ℤ) (p : DataPlane L) :
    (onHeartbeatEvidenceCommitted eid now).run p =
      p.lift (p.metrics.onHeartbeatEvidenceCommitted eid now) := by
  refine (run_call_bind ..).trans ?_
  simp only [MetricsManager.onHeartbeatEvidenceCommitted, exec]
  cases activeEntity p.metrics.runtime with
  | none => rfl
  | some ent =>
    refine (run_call_bind ..).trans ?_
    simp only [exec, data]
    cases (p.metrics.data.readHeartbeatEvidence eid).evidence with
    | none => rfl
    | some e =>
      dsimp only
      by_cases hst : e.catalogGeneration ≠ p.metrics.runtime.catalogGeneration ∨
          e.entity ≠ ent
      · rw [if_pos hst]
        exact run_pos hst ..
      refine (run_neg hst ..).trans ?_
      split_ifs
      · rfl
      · exact run_commitHealth ..

theorem run_onProviderStateChanged (state : ProviderState) (now : ℤ) (p : DataPlane L) :
    (onProviderStateChanged state now).run p =
      p.lift (p.metrics.onProviderStateChanged state now) := by
  simp only [onProviderStateChanged, MetricsManager.onProviderStateChanged]
  split_ifs
  · rfl
  · refine (run_call_bind ..).trans ?_
    simp only [exec]
    cases activeEntity p.metrics.runtime with
    | none => rfl
    | some ent => exact run_commitHealth ..

theorem run_runFreshnessOnce (now : ℤ) (p : DataPlane L) :
    (runFreshnessOnce now).run p = p.lift (p.metrics.runFreshnessOnce now) := by
  refine (run_call_bind ..).trans ?_
  simp only [MetricsManager.runFreshnessOnce, exec]
  cases activeEntity p.metrics.runtime with
  | none => rfl
  | some ent =>
    split_ifs
    · rfl
    refine (run_call_bind ..).trans ?_
    simp only [exec, data]
    cases (p.metrics.data.readHealth ent p.metrics.runtime.catalogGeneration).result with
    | none => rfl
    | some stored =>
      dsimp only
      split_ifs
      · rfl
      refine (run_call_bind ..).trans ?_
      simp only [exec, data]
      cases (p.metrics.data.latestHeartbeatEvidence ent
        p.metrics.runtime.catalogGeneration).evidence with
      | none => rfl
      | some e =>
        dsimp only
        split_ifs with hba hfr
        · rfl
        · exact run_pos hfr ..
        · exact (run_neg hfr ..).trans (run_commitHealth ..)

end DataPlane
end Pdcm
