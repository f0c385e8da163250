import Pdcm.Metrics.ProcessorGraph
import Pdcm.Data.EvidenceInvariant

/-!
# The metrics manager

`metrics/metrics_manager.cpp`: stored health follows evidence, provider state and
freshness ticks through `commitHealth`, while a health query recomputes its answer
from the latest stored evidence. Every call takes the clock reading it makes as an
argument; the state pairs the manager's runtime with the data manager it works on.
-/

namespace Pdcm

open Library

structure HealthRequest where
  entity : EntityRef
  subsystemId : ℕ := firmwareHeartbeatHealthId
  catalogGeneration : ℕ := 0
  maxAgeNs : ℕ := 0
  deriving DecidableEq, Repr

structure HealthQueryResult where
  status : Status := {}
  item : Option HealthResult := none
  aggregate : Option HealthResult := none
  deriving DecidableEq, Repr

/-- `MetricsManager::Runtime`. -/
structure Runtime where
  catalogGeneration : ℕ := 0
  entity : Option EntityRef := none
  heartbeat : HealthCatalogEntry := {}
  heartbeatSupported : Bool := false
  deriving DecidableEq, Repr

structure MetricsManager (L : Limits) where
  data : DataManager L
  processors : List (Option MetricProcessor)
  runtime : Runtime := {}
  graph : ProcessorGraphSnapshot := {}

def evidenceReference (e : FirmwareHeartbeatEvidence) : EvidenceRef :=
  ⟨e.evidenceId, e.sequenceOrToken, e.sourceSampleTimeNs, e.observedMonotonicTimeNs, e.source⟩

/-- A requested maximal age can only tighten the catalog's freshness; zero asks for
nothing. -/
def effectiveFreshness (catalogFreshness requestedMaxAge : ℕ) : ℕ :=
  if requestedMaxAge = 0 then catalogFreshness else min catalogFreshness requestedMaxAge

namespace Runtime

variable (runtime : Runtime)

/-- Stable code and limitation for evidence that carries no usable value. -/
def failureOf (e : FirmwareHeartbeatEvidence) :
    StableHealthCode × HealthLimitation :=
  if e.status = .unsupported then
    (.heartbeatUnsupported, ⟨.nativeMappingPending, runtime.heartbeat.limitation⟩)
  else if e.status = .notAvailable then
    (.heartbeatMissing, ⟨.evidenceMissing, "firmware heartbeat evidence is unavailable"⟩)
  else if e.error.status.code = .timeout then
    (.heartbeatTimeout, ⟨.readFailure, "firmware heartbeat read timed out"⟩)
  else if e.error.status.code = .unavailable then
    (.providerUnavailable, ⟨.providerUnavailable, "provider is unavailable"⟩)
  else (.heartbeatReadError, ⟨.readFailure, "firmware heartbeat read failed"⟩)

/-- The state and code of a native class; an unknown class has none. -/
def determinate : HeartbeatNativeClass → Option (HealthState × StableHealthCode)
  | .normal => some (.healthy, .heartbeatOk)
  | .warning => some (.warning, .heartbeatWarning)
  | .fault => some (.error, .heartbeatFault)
  | .unknownNative => none

def evaluate (e : FirmwareHeartbeatEvidence) (nowMonotonicNs : ℤ)
    (freshnessNs : ℕ) : HealthResult :=
  let result : HealthResult :=
    { entity := e.entity
      subsystemId := firmwareHeartbeatHealthId
      catalogGeneration := runtime.catalogGeneration
      evaluatedMonotonicTimeNs := nowMonotonicNs
      evidenceAgeNs := nowMonotonicNs - e.observedMonotonicTimeNs
      evidence := [evidenceReference e] }
  let failure : HealthResult :=
    { result with
      state := .unknown
      itemStatus := e.status
      code := (runtime.failureOf e).1
      limitations := [(runtime.failureOf e).2] }
  if e.status = .valid then
    if freshnessNs < toUint64 result.evidenceAgeNs then
      { result with
        state := .unknown
        itemStatus := .stale
        code := .heartbeatStale
        limitations := [⟨.evidenceStale, "firmware heartbeat evidence exceeded freshness"⟩] }
    else
      match determinate e.nativeClass with
      | some (state, code) => { result with itemStatus := .valid, state := state, code := code }
      | none => failure
  else failure

def unknown (runtime : Runtime) (entity : EntityRef) (code : StableHealthCode)
    (itemStatus : ObservationStatus) (nowMonotonicNs : ℤ) (limitation : HealthLimitation) :
    HealthResult where
  entity := entity
  subsystemId := firmwareHeartbeatHealthId
  state := .unknown
  itemStatus := itemStatus
  catalogGeneration := runtime.catalogGeneration
  evaluatedMonotonicTimeNs := nowMonotonicNs
  limitations := [limitation]
  code := code

/-- The result stored when the provider is lost: it references the latest evidence
unless that lies in the future of the clock. -/
def providerLoss (entity : EntityRef) (now : ℤ)
    (latest : Option FirmwareHeartbeatEvidence) : HealthResult :=
  let result := runtime.unknown entity .providerUnavailable .error now
    ⟨.providerUnavailable, "provider is unavailable"⟩
  match latest with
  | none => result
  | some e =>
    if e.observedMonotonicTimeNs ≤ now then
      { result with
        evidence := [evidenceReference e]
        evidenceAgeNs := now - e.observedMonotonicTimeNs }
    else result

end Runtime

namespace MetricsManager

variable {L : Limits} (m : MetricsManager L)

/-- The runtime's entity, if a catalog is active. -/
def activeEntity (runtime : Runtime) : Option EntityRef :=
  if runtime.catalogGeneration = 0 then none else runtime.entity

def notActive : Status := ⟨.notInitialized, "metrics health catalog is not active"⟩

/-- The health result stored when a catalog becomes active. -/
def initialHealth (runtime : Runtime) (entity : EntityRef) (now : ℤ) : HealthResult :=
  if runtime.heartbeatSupported then
    runtime.unknown entity .heartbeatMissing .notAvailable now
      ⟨.evidenceMissing, "firmware heartbeat has not been sampled"⟩
  else
    runtime.unknown entity .heartbeatUnsupported .unsupported now
      ⟨.nativeMappingPending, runtime.heartbeat.limitation⟩

/-- Store a health result and report the status. -/
def commitHealth (m : MetricsManager L) (result : HealthResult) : MetricsManager L × Status :=
  ({ m with data := (m.data.commitHealth result).1 }, (m.data.commitHealth result).2.status)

/-- Install the runtime unless a newer one is there, and store the initial health of its
entity. -/
def installRuntime (next : Runtime) (now : ℤ) : MetricsManager L × Status :=
  if next.catalogGeneration < m.runtime.catalogGeneration then
    (m, ⟨.staleGeneration, "metrics catalog generation moved backward"⟩)
  else
    match next.entity with
    | none => ({ m with runtime := next }, .success)
    | some entity =>
      { m with runtime := next }.commitHealth (initialHealth next entity now)

/-- The part of `activateCatalog` after the processor graph was rebuilt. -/
def activateRuntime (view : CatalogView) (target : TargetCatalog)
    (now : ℤ) : MetricsManager L × Status :=
  let next : Runtime :=
    { catalogGeneration := view.generation, heartbeat := target.health.head?.getD {} }
  if view.topologyUnsupported then
    ({ m with runtime := next }, ⟨.unsupported, "metrics health rejects multi-device P0"⟩)
  else
    match view.entities with
    | [] => m.installRuntime next now
    | [record] =>
      match view.capabilities record.ref with
      | .error status => (m, status)
      | .ok set =>
        m.installRuntime
          { next with
            entity := some record.ref
            heartbeatSupported := CatalogView.heartbeatSupported set } now
    | _ => (m, ⟨.unsupported, "metrics health accepts at most one device"⟩)

def activateCatalog (catalog : Option CatalogView) (target : TargetCatalog)
    (now : ℤ) : MetricsManager L × Status :=
  match catalog with
  | none => (m, ⟨.invalidArgument, "metrics catalog is not active in DataManager"⟩)
  | some view =>
    if view.generation = 0 ∨ m.data.catalogGeneration ≠ view.generation then
      (m, ⟨.invalidArgument, "metrics catalog is not active in DataManager"⟩)
    else if ¬target.validate.ok then (m, target.validate)
    else
      let rebuilt := ProcessorGraph.rebuild m.graph target view.generation m.processors
      if ¬rebuilt.2.ok then (m, rebuilt.2)
      else { m with graph := rebuilt.1 }.activateRuntime view target now

def onHeartbeatEvidenceCommitted (evidenceId : ℕ) (now : ℤ) :
    MetricsManager L × Status :=
  match activeEntity m.runtime with
  | none => (m, notActive)
  | some entity =>
    let read := m.data.readHeartbeatEvidence evidenceId
    match read.evidence with
    | none => (m, read.status)
    | some e =>
      if e.catalogGeneration ≠ m.runtime.catalogGeneration ∨ e.entity ≠ entity then
        (m, ⟨.staleGeneration, "heartbeat evidence does not match metrics catalog"⟩)
      else if now < e.observedMonotonicTimeNs then
        (m, ⟨.invalidArgument, "heartbeat evaluation time moved backward"⟩)
      else m.commitHealth (m.runtime.evaluate e now m.runtime.heartbeat.freshnessNs)

def providerLoss (m : MetricsManager L) (entity : EntityRef) (now : ℤ) : HealthResult :=
  m.runtime.providerLoss entity now
    (m.data.latestHeartbeatEvidence entity m.runtime.catalogGeneration).evidence

def onProviderStateChanged (state : ProviderState) (now : ℤ) :
    MetricsManager L × Status :=
  if state = .ready then (m, .success)
  else
    match activeEntity m.runtime with
    | none => (m, notActive)
    | some entity => m.commitHealth (m.providerLoss entity now)

def runFreshnessOnce (now : ℤ) : MetricsManager L × Status :=
  match activeEntity m.runtime with
  | none => (m, notActive)
  | some entity =>
    if now < 0 then (m, ⟨.invalidArgument, "freshness evaluation time is invalid"⟩)
    else
      let current := m.data.readHealth entity m.runtime.catalogGeneration
      match current.result with
      | none => (m, current.status)
      | some stored =>
        if isDeterminateHealth stored.state = false then (m, .success)
        else
          let latest := m.data.latestHeartbeatEvidence entity m.runtime.catalogGeneration
          match latest.evidence with
          | none => (m, latest.status)
          | some e =>
            if now < e.observedMonotonicTimeNs then
              (m, ⟨.invalidArgument, "freshness evaluation time moved backward"⟩)
            else if toUint64 (now - e.observedMonotonicTimeNs) ≤
        m.runtime.heartbeat.freshnessNs then
              (m, .success)
            else m.commitHealth (m.runtime.evaluate e now m.runtime.heartbeat.freshnessNs)

/-! ### Health queries -/

def heartbeatAt (entity : EntityRef) (now : ℤ) (freshnessNs : ℕ) :
    HealthResult :=
  if m.runtime.heartbeatSupported = false then
    m.runtime.unknown entity .heartbeatUnsupported .unsupported now
      ⟨.nativeMappingPending, m.runtime.heartbeat.limitation⟩
  else
    match (m.data.latestHeartbeatEvidence entity m.runtime.catalogGeneration).evidence with
    | none =>
      m.runtime.unknown entity .heartbeatMissing .notAvailable now
        ⟨.evidenceMissing, "firmware heartbeat has not been sampled"⟩
    | some e =>
      if now < e.observedMonotonicTimeNs then
        m.runtime.unknown entity .heartbeatReadError .error now
          ⟨.readFailure, "health query time moved backward"⟩
      else m.runtime.evaluate e now freshnessNs

/-- The item of an accepted query. -/
def queryItem (entity : EntityRef) (request : HealthRequest) (now : ℤ) :
    HealthResult :=
  if request.subsystemId = firmwareHeartbeatHealthId then
    m.heartbeatAt entity now (effectiveFreshness m.runtime.heartbeat.freshnessNs request.maxAgeNs)
  else
    { m.runtime.unknown entity .heartbeatUnsupported .unsupported now
        ⟨.catalogGap, "health subsystem is not supported in P0"⟩ with
      subsystemId := request.subsystemId }

def queryStatus (request : HealthRequest) (item : HealthResult) : Status :=
  if request.subsystemId = firmwareHeartbeatHealthId ∧ isDeterminateHealth item.state then
    .success
  else ⟨.partialResult, "health query contains an unknown item"⟩

def queryHealth (request : HealthRequest) (now : ℤ) : HealthQueryResult :=
  match activeEntity m.runtime with
  | none => { status := notActive }
  | some entity =>
    if request.catalogGeneration ≠ 0 ∧
        request.catalogGeneration ≠ m.runtime.catalogGeneration then
      { status := ⟨.staleGeneration, "health request catalog is stale"⟩ }
    else if request.entity.kind ≠ entity.kind ∨ request.entity.id ≠ entity.id then
      { status := ⟨.notFound, "health request entity is not present"⟩ }
    else if request.entity ≠ entity then
      { status := ⟨.staleGeneration, "health request entity is stale"⟩ }
    else if now < 0 then
      { status := ⟨.invalidArgument, "health query time is invalid"⟩ }
    else
      let item := m.queryItem entity request now
      { status := queryStatus request item
        item := some item
        aggregate := some (m.heartbeatAt entity now
          (effectiveFreshness m.runtime.heartbeat.freshnessNs request.maxAgeNs)) }

end MetricsManager
end Pdcm
