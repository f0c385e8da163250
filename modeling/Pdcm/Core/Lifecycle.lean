import Pdcm.Core.ServiceCore
import Pdcm.Core.SessionManager
import Pdcm.Semantic.CatalogHistory

/-!
# Starting and stopping a core

`PdcmServiceCore::start` and `stop`, one locked section or provider call at a time. `start`
leaves the state lock for the whole discovery and publishes its outcome at the end without
looking at the state again; a `stop` may have published Stopped by then.
-/

namespace Pdcm

open Library PdcmServiceCore

/-! ### The provider manager -/

structure ProviderDiscoveryResult where
  callStatus : Status := {}
  descriptor : ProviderDescriptor := {}
  deriving DecidableEq, Repr

/-- What the provider does in one call: the status and the descriptor it returns and the
state it is in afterwards. -/
structure ProviderReply where
  status : Status := {}
  descriptor : ProviderDescriptor := {}
  state : ProviderState := .uninitialized
  deriving DecidableEq, Repr

namespace ProviderManager

/-- `ProviderManager::initialize` on the state of the manager. The calls of the manager exclude
each other by its mutex. -/
def initializeProvider (state : ProviderState) (reply : ProviderReply) : ProviderState × Status :=
  if state = .shutdown then
    (state, ⟨.notInitialized, "provider manager is already shut down"⟩)
  else if reply.status.ok ∧ reply.state ≠ .ready then
    (.unavailable, ⟨.internal, "provider reported success without entering ready state"⟩)
  else (reply.state, reply.status)

def discover (state : ProviderState) (reply : ProviderReply) :
    ProviderState × ProviderDiscoveryResult :=
  if state ≠ .ready then
    (state,
      { callStatus := ⟨.unavailable, "provider manager is not ready"⟩
        descriptor := { state := state } })
  else (reply.state, { callStatus := reply.status, descriptor := reply.descriptor })

end ProviderManager

/-! ### The steps of the calls -/

/-- What `start` publishes, except for the provider state, and what it returns. -/
structure StartOutcome where
  state : CoreState
  reason : CoreDegradedReason
  detailStatus : StatusCode
  detectedDeviceCount : ℕ := 0
  catalogGeneration : ℕ := 0
  result : Status := .success
  deriving DecidableEq, Repr

/-- How far the call of `start` has come. In `settling` only the provider state is still to
be read, in `publishing` all arguments are there. -/
inductive StartStage where
  | notCalled
  | validating
  | initializing
  | discovering
  | committing (descriptor : ProviderDescriptor)
  | activatingData (committed : CatalogCommitResult)
  | activatingMetrics (committed : CatalogCommitResult) (view : CatalogView) (dataStatus : Status)
  | notifying (committed : CatalogCommitResult)
  | settling (outcome : StartOutcome)
  | publishing (snapshot : CoreSnapshot) (result : Status)
  | returned (result : Status)

/-- `start` took the core to Starting and has not published its outcome. -/
def StartStage.inProgress : StartStage → Bool
  | .notCalled => false
  | .returned _ => false
  | _ => true

inductive StopStage where
  | called
  | stopping
  | shutDown
  | returned
  deriving DecidableEq, Repr

/-- A core with its call of `start` and its calls of `stop`. -/
structure CoreRun (L : Limits) where
  config : RuntimeConfig
  snapshot : CoreSnapshot := {}
  providerState : ProviderState := .uninitialized
  catalog : SemanticCatalog
  metrics : MetricsManager L
  start : StartStage := .notCalled
  stops : List StopStage := []

/-- A step of the start call, with what the provider would reply and the clock at that
moment; a new call of `stop`; a step of one of the stop calls. -/
inductive CoreOp where
  | start (reply : ProviderReply) (now : ℤ)
  | stop
  | advanceStop (call : ℕ)

namespace CoreRun

variable {L : Limits} {c : CoreRun L}

/-- The members the queries are answered from. -/
def core (c : CoreRun L) : PdcmServiceCore L where
  snapshot := c.snapshot
  catalogSnapshot := c.catalog.snapshot
  metricsManager := c.metrics

/-- Where a committed discovery leads. -/
def afterCommit (descriptor : ProviderDescriptor) (committed : CatalogCommitResult) : StartStage :=
  if ¬committed.committed then
    .settling
      { state := .degraded, reason := .discoveryFailed, detailStatus := committed.status.code
        detectedDeviceCount := descriptor.detectedDeviceCount
        catalogGeneration := committed.catalogGeneration }
  else if committed.status.code = .unsupported then
    .settling
      { state := .degraded, reason := .topologyUnsupported, detailStatus := .unsupported
        detectedDeviceCount := committed.detectedDeviceCount
        catalogGeneration := committed.catalogGeneration }
  else .activatingData committed

/-- Where the activation of the data services leads. -/
def afterActivation (committed : CatalogCommitResult) (dataStatus metricsStatus : Status) :
    StartStage :=
  if ¬dataStatus.ok ∨ ¬metricsStatus.ok then
    let failure := if ¬dataStatus.ok then dataStatus.code else metricsStatus.code
    .settling
      { state := .failed, reason := .discoveryFailed, detailStatus := failure
        detectedDeviceCount := committed.detectedDeviceCount
        catalogGeneration := committed.catalogGeneration
        result := ⟨failure, "core data services activation failed"⟩ }
  else .notifying committed

/-- The next step of `PdcmServiceCore::start`. -/
def advanceStart (c : CoreRun L) (reply : ProviderReply) (now : ℤ) : CoreRun L :=
  match c.start with
  | .notCalled =>
    if c.snapshot.state ≠ .created then
      { c with start := .returned ⟨.notInitialized, "core can only be started once"⟩ }
    else { c with snapshot := { c.snapshot with state := .starting }, start := .validating }
  | .validating =>
    if ¬c.config.validate.ok then
      { c with
        start := .publishing { state := .failed, detailStatus := c.config.validate.code }
          c.config.validate }
    else { c with start := .initializing }
  | .initializing =>
    let initialized := ProviderManager.initializeProvider c.providerState reply
    { c with
      providerState := initialized.1
      start :=
        if ¬initialized.2.ok then
          .settling
            { state := .degraded, reason := .providerUnavailable
              detailStatus := initialized.2.code }
        else .discovering }
  | .discovering =>
    let discovery := ProviderManager.discover c.providerState reply
    { c with
      providerState := discovery.1
      start :=
        if ¬discovery.2.callStatus.ok then
          .settling
            { state := .degraded, reason := .discoveryFailed
              detailStatus := discovery.2.callStatus.code
              detectedDeviceCount := discovery.2.descriptor.detectedDeviceCount }
        else .committing discovery.2.descriptor }
  | .committing descriptor =>
    let committed := c.catalog.commit descriptor
    { c with catalog := committed.1, start := afterCommit descriptor committed.2 }
  | .activatingData committed =>
    let activated := c.metrics.data.activateCatalog (some c.catalog.snapshot)
      c.catalog.targetCatalog
    { c with
      metrics := { c.metrics with data := activated.1 }
      start := .activatingMetrics committed c.catalog.snapshot activated.2 }
  | .activatingMetrics committed view dataStatus =>
    let activated := c.metrics.activateCatalog (some view) c.catalog.targetCatalog now
    { c with
      metrics := activated.1
      start := afterActivation committed dataStatus activated.2 }
  | .notifying committed =>
    { c with
      metrics := (c.metrics.onProviderStateChanged c.providerState now).1
      start := .settling
        { state := .ready, reason := .none, detailStatus := committed.status.code
          detectedDeviceCount := committed.detectedDeviceCount
          catalogGeneration := committed.catalogGeneration } }
  | .settling outcome =>
    { c with
      start := .publishing
        { state := outcome.state, providerState := c.providerState
          degradedReason := outcome.reason, detailStatus := outcome.detailStatus
          detectedDeviceCount := outcome.detectedDeviceCount
          catalogGeneration := outcome.catalogGeneration }
        outcome.result }
  | .publishing snapshot result => { c with snapshot := snapshot, start := .returned result }
  | .returned _ => c

/-- The next step of a call of `PdcmServiceCore::stop`. -/
def advanceStop (c : CoreRun L) (call : ℕ) : CoreRun L :=
  match c.stops[call]? with
  | some .called =>
    if c.snapshot.state = .stopped then { c with stops := c.stops.set call .returned }
    else
      { c with
        snapshot := { c.snapshot with state := .stopping }
        stops := c.stops.set call .stopping }
  | some .stopping => { c with providerState := .shutdown, stops := c.stops.set call .shutDown }
  | some .shutDown =>
    { c with
      snapshot := { state := .stopped, providerState := .shutdown }
      stops := c.stops.set call .returned }
  | some .returned => c
  | none => c

def step (c : CoreRun L) : CoreOp → CoreRun L
  | .start reply now => c.advanceStart reply now
  | .stop => { c with stops := c.stops ++ [.called] }
  | .advanceStop call => c.advanceStop call

/-- A new core. -/
def initial (config : RuntimeConfig) (target : TargetCatalog) (valid : target.validate.ok = true)
    (metrics : MetricsManager L) : CoreRun L where
  config := config
  catalog := { targetCatalog := target, valid := valid }
  metrics := metrics

/-! ### Stopped is terminal -/

/-- No stop call publishes Stopped while `start` is in progress. -/
def Undisturbed (c : CoreRun L) : CoreOp → Prop
  | .advanceStop call => c.stops[call]? = some .shutDown → c.start.inProgress = false
  | _ => True

instance (c : CoreRun L) : (op : CoreOp) → Decidable (c.Undisturbed op)
  | .advanceStop call =>
    inferInstanceAs (Decidable (c.stops[call]? = some .shutDown → c.start.inProgress = false))
  | .start _ _ => inferInstanceAs (Decidable True)
  | .stop => inferInstanceAs (Decidable True)

def StaysStopped (c : CoreRun L) (op : CoreOp) : Prop :=
  c.snapshot.state = .stopped → (c.step op).snapshot.state = .stopped

/-- The three kinds of queries are refused. -/
structure Refuses (c : PdcmServiceCore L) : Prop where
  entities : ∀ kind,
    c.entities kind = { status := ⟨.notInitialized, "core is not serving discovery"⟩ }
  capabilities : ∀ entity,
    c.capabilities entity = { status := ⟨.notInitialized, "core is not serving capabilities"⟩ }
  health : ∀ request now,
    c.health request now = { status := ⟨.notInitialized, "core is not serving health"⟩ }

theorem refuses_of_not_serving {c : PdcmServiceCore L} (h : c.snapshot.state.serving = false) :
    Refuses c := by
  have hnot : ¬c.snapshot.state.serving = true := by simp [h]
  constructor
  · intro kind
    rw [entities, if_pos hnot]
  · intro ent
    rw [capabilities, if_pos hnot]
  · intro req now
    rw [health, if_pos hnot]

/-- While the core is Stopped no start is in progress, and a stop call that returned has left
the core Stopped. -/
structure Ended (c : CoreRun L) : Prop where
  idle : c.snapshot.state = .stopped → c.start.inProgress = false
  stopped : .returned ∈ c.stops → c.snapshot.state = .stopped

/-- What a step of `start` can do to the published state: nothing, the step to Starting from
Created, or the publication that ends the call. -/
theorem advanceStart_cases (c : CoreRun L) (reply : ProviderReply) (now : ℤ) :
    (c.advanceStart reply now).stops = c.stops ∧
      ((c.advanceStart reply now).snapshot = c.snapshot ∧
          ((c.advanceStart reply now).start.inProgress = true → c.start.inProgress = true) ∨
        c.snapshot.state = .created ∧ (c.advanceStart reply now).snapshot.state = .starting ∨
        c.start.inProgress = true ∧ (c.advanceStart reply now).start.inProgress = false) := by
  unfold advanceStart
  cases hst : c.start with
  | notCalled =>
    dsimp only
    split_ifs with hcr
    · exact ⟨rfl, .inl ⟨rfl, fun hpr => absurd hpr (by simp [StartStage.inProgress])⟩⟩
    · exact ⟨rfl, .inr (.inl ⟨not_not.mp hcr, rfl⟩)⟩
  | validating =>
    dsimp only
    split_ifs
    · exact ⟨rfl, .inl ⟨rfl, fun _ => rfl⟩⟩
    · exact ⟨rfl, .inl ⟨rfl, fun _ => rfl⟩⟩
  | publishing snap res => exact ⟨rfl, .inr (.inr ⟨rfl, rfl⟩)⟩
  | returned res => exact ⟨rfl, .inl ⟨rfl, by rw [hst]; exact id⟩⟩
  | _ => exact ⟨rfl, .inl ⟨rfl, fun _ => rfl⟩⟩

theorem Ended.advanceStart (h : c.Ended) (reply : ProviderReply) (now : ℤ) :
    (c.advanceStart reply now).Ended ∧
      (c.snapshot.state = .stopped →
        (c.advanceStart reply now).snapshot.state = .stopped) := by
  obtain ⟨hsto, hca⟩ := c.advanceStart_cases reply now
  rcases hca with ⟨hsa, hpr⟩ | ⟨hcr, hsta⟩ | ⟨hbu, hdo⟩
  · refine ⟨⟨?_, ?_⟩, ?_⟩
    · intro hst
      rw [hsa] at hst
      exact Bool.eq_false_iff.mpr fun hbu =>
        absurd (hpr hbu) (by simp [h.idle hst])
    · rw [hsto, hsa]
      exact h.stopped
    · rw [hsa]
      exact id
  · -- the core was Created, so no stop call has returned
    refine ⟨⟨?_, ?_⟩, ?_⟩
    · rw [hsta]
      intro hst
      cases hst
    · rw [hsto]
      intro hret
      rw [h.stopped hret] at hcr
      cases hcr
    · rw [hcr]
      intro hst
      cases hst
  · -- the call was in progress, so the core is not Stopped
    have hnot : c.snapshot.state ≠ .stopped := by
      intro hst
      rw [h.idle hst] at hbu
      cases hbu
    refine ⟨⟨fun _ => hdo, ?_⟩, fun hst => absurd hst hnot⟩
    rw [hsto]
    exact fun hret => absurd (h.stopped hret) hnot

/-- A stop call sees Stopped and returns, or takes the core to Stopping; at its end it
publishes Stopped. -/
theorem Ended.advanceStop (h : c.Ended) {call : ℕ} (hqu : c.Undisturbed (.advanceStop call)) :
    (c.advanceStop call).Ended ∧
      (c.snapshot.state = .stopped → (c.advanceStop call).snapshot.state = .stopped) := by
  unfold CoreRun.advanceStop
  cases hca : c.stops[call]? with
  | none => exact ⟨h, id⟩
  | some stage =>
    -- a call that goes on without returning does not make another one return
    have hot : ∀ next, next ≠ .returned → .returned ∈ c.stops.set call next →
        .returned ∈ c.stops := by
      intro next hne hmem
      exact (List.mem_or_eq_of_mem_set hmem).resolve_right fun heq => hne heq.symm
    cases stage with
    | called =>
      split_ifs with hsto
      · exact ⟨⟨h.idle, fun _ => hsto⟩, id⟩
      · refine ⟨⟨?_, ?_⟩, fun hst => absurd hst hsto⟩
        · intro hst
          cases hst
        · intro hmem
          exact absurd (h.stopped (hot _ (by simp) hmem)) hsto
    | stopping => exact ⟨⟨h.idle, fun hmem => h.stopped (hot _ (by simp) hmem)⟩, id⟩
    | shutDown => exact ⟨⟨fun _ => hqu hca, fun _ => rfl⟩, fun _ => rfl⟩
    | returned => exact ⟨h, id⟩

theorem Ended.step (h : c.Ended) {op : CoreOp} (hqu : c.Undisturbed op) :
    (c.step op).Ended ∧ c.StaysStopped op := by
  cases op with
  | start reply now => exact h.advanceStart reply now
  | stop =>
    refine ⟨⟨h.idle, ?_⟩, id⟩
    intro hmem
    rcases List.mem_append.mp hmem with hmem | hmem
    · exact h.stopped hmem
    · cases List.mem_singleton.mp hmem
  | advanceStop call => exact h.advanceStop hqu

/-- If no stop call publishes Stopped while `start` is in progress, the core stays Stopped from
the first time on, and refuses every query once a stop call has returned. -/
theorem stopped_terminal (config : RuntimeConfig) (target : TargetCatalog)
    (valid : target.validate.ok = true) (metrics : MetricsManager L) (ops : List CoreOp)
    (hundisturbed : Along step Undisturbed (initial config target valid metrics) ops) :
    Along step StaysStopped (initial config target valid metrics) ops ∧
      (.returned ∈ (runFrom step (initial config target valid metrics) ops).stops →
        Refuses (runFrom step (initial config target valid metrics) ops).core) := by
  have hstep : ∀ (c : CoreRun L) (op : CoreOp), c.Ended → c.Undisturbed op → (c.step op).Ended :=
    fun c op hc hop => (hc.step hop).1
  have hinitial : (initial config target valid metrics).Ended := ⟨nofun, nofun⟩
  constructor
  · exact law_along hstep (fun c op hc hop => (hc.step hop).2) hinitial hundisturbed
  · intro hreturned
    have hended := invariant_along hstep hinitial hundisturbed
    apply refuses_of_not_serving
    change (runFrom step _ ops).snapshot.state.serving = false
    rw [hended.stopped hreturned]
    rfl

end CoreRun

/-! ### One device, one stop -/

namespace OneStop

open CoreRun SemanticCatalog.OneSlot

/-- The data manager of a core has the default limits. -/
def limits : Limits := { valid := DataStoreLimits.validate_default }

def metrics : MetricsManager limits := { data := .initial limits, processors := [] }

def oneDevice : CoreRun limits :=
  initial { target := .fpga } targetCatalog targetCatalog_valid metrics

/-- A provider that becomes ready and finds one device. -/
def answering : CoreOp :=
  .start { status := .success, descriptor := found "a" "c" "i", state := .ready } 5

/-- `start` up to the moment before it publishes, and a whole stop call. -/
def startAlmost : List CoreOp := List.replicate 9 answering

def stopAll : List CoreOp := [.stop, .advanceStop 0, .advanceStop 0, .advanceStop 0]

theorem stopped_terminal_after_start :
    .returned ∈ (runFrom step oneDevice (startAlmost ++ [answering] ++ stopAll)).stops ∧
      Refuses (runFrom step oneDevice (startAlmost ++ [answering] ++ stopAll)).core := by
  have hreturned :
      .returned ∈ (runFrom step oneDevice (startAlmost ++ [answering] ++ stopAll)).stops := by
    decide +kernel
  have hterminal := stopped_terminal { target := .fpga } targetCatalog targetCatalog_valid
    metrics (startAlmost ++ [answering] ++ stopAll) (by decide +kernel)
  exact ⟨hreturned, hterminal.2 hreturned⟩

/-- The stop call comes between the discovery and the publication of its outcome. The core is
Stopped and the call has returned, and then the core is Ready and lists its device. -/
theorem serves_after_stop :
    (runFrom step oneDevice (startAlmost ++ stopAll)).snapshot.state = .stopped ∧
      (runFrom step oneDevice (startAlmost ++ stopAll)).stops = [.returned] ∧
      (runFrom step oneDevice (startAlmost ++ stopAll ++ [answering])).snapshot.state = .ready ∧
      ((runFrom step oneDevice (startAlmost ++ stopAll ++ [answering])).core.entities
        .device).entities.length = 1 := by
  decide +kernel

end OneStop
end Pdcm
