import Pdcm.Metrics.MetricsManager

/-!
# The service core

The states a core publishes and what it answers to the local API.
-/

namespace Pdcm

inductive CoreState where
  | created
  | starting
  | ready
  | degraded
  | failed
  | stopping
  | stopped
  deriving DecidableEq, Repr

inductive CoreDegradedReason where
  | none
  | providerUnavailable
  | discoveryFailed
  | topologyUnsupported
  deriving DecidableEq, Repr

structure CoreSnapshot where
  state : CoreState := .created
  providerState : ProviderState := .uninitialized
  degradedReason : CoreDegradedReason := .none
  detailStatus : StatusCode := .success
  detectedDeviceCount : ℕ := 0
  catalogGeneration : ℕ := 0
  deriving DecidableEq, Repr

/-- What the core answers at one moment. -/
structure ServiceCore where
  snapshot : CoreSnapshot
  entities : EntityKind → EntityListResult
  capabilities : EntityRef → CapabilityQueryResult
  health : HealthRequest → HealthQueryResult

/-- The states in which the core answers queries. -/
def CoreState.serving : CoreState → Bool
  | .ready => true
  | .degraded => true
  | .created | .starting | .failed | .stopping | .stopped => false

/-- The members of the core that its answers come from. An answer reads them one after the
other, so they need not be of the same moment. -/
structure PdcmServiceCore (L : Limits) where
  snapshot : CoreSnapshot := {}
  catalogSnapshot : CatalogView := {}
  metricsManager : MetricsManager L

namespace PdcmServiceCore

variable {L : Limits} (c : PdcmServiceCore L)

def entities (kind : EntityKind) : EntityListResult :=
  if ¬c.snapshot.state.serving then
    { status := ⟨.notInitialized, "core is not serving discovery"⟩ }
  else if c.catalogSnapshot.generation = 0 then
    { status := ⟨.unavailable, "no discovery snapshot is available"⟩
      detectedDeviceCount := c.snapshot.detectedDeviceCount }
  else c.catalogSnapshot.list kind

def capabilities (entity : EntityRef) : CapabilityQueryResult :=
  if ¬c.snapshot.state.serving then
    { status := ⟨.notInitialized, "core is not serving capabilities"⟩ }
  else if c.catalogSnapshot.generation = 0 then
    { status := ⟨.unavailable, "no capability snapshot is available"⟩ }
  else
    match c.catalogSnapshot.capabilities entity with
    | .error status => { status := status }
    | .ok set => { status := .success, capabilities := some set }

/-- `now` is the clock reading of the query. -/
def health (request : HealthRequest) (now : ℤ) : HealthQueryResult :=
  if ¬c.snapshot.state.serving then { status := ⟨.notInitialized, "core is not serving health"⟩ }
  else if c.snapshot.catalogGeneration = 0 then
    { status := ⟨.unavailable, "health catalog is unavailable"⟩ }
  else c.metricsManager.queryHealth request now

def answers (now : ℤ) : ServiceCore where
  snapshot := c.snapshot
  entities := c.entities
  capabilities := c.capabilities
  health := fun request => c.health request now

end PdcmServiceCore
end Pdcm
