import Mathlib.Data.String.Basic
import Pdcm.Data.DataManager

/-!
# Provider reads and collection plans

The records of `provider/provider.hpp`, `collection/watch_manager.hpp` and
`collection/collection_coordinator.hpp` that describe what is read from a provider,
for which watches and when. Times and periods are nanosecond counts.
-/

namespace Pdcm

open Library

def ProviderDataKind.value : ProviderDataKind → ℕ
  | .metric => 0
  | .heartbeatEvidence => 1

theorem ProviderDataKind.value_injective : Function.Injective value := by
  intro a b h
  cases a <;> cases b <;> simp_all [value]

structure ProviderReadItem where
  entity : EntityRef
  kind : ProviderDataKind := .metric
  dataId : ℕ := 0
  deriving DecidableEq, Repr

structure ProviderReadRequest where
  requestId : ℕ := 0
  planGeneration : ℕ := 0
  catalogGeneration : ℕ := 0
  scheduledTime : ℤ := 0
  deadline : ℤ := 0
  items : List ProviderReadItem := []
  deriving DecidableEq, Repr

structure ProviderReadItemResult where
  item : ProviderReadItem
  status : ObservationStatus := .notAvailable
  value : Option MetricValue := none
  heartbeatClass : Option HeartbeatNativeClass := none
  sequenceOrToken : Option ℕ := none
  sourceSampleTimeNs : Option ℤ := none
  nativeSource : String := ""
  nativeCode : ℤ := 0
  retryable : Bool := false
  deriving DecidableEq, Repr

structure ProviderReadResult where
  callStatus : Status := {}
  items : List ProviderReadItemResult := []
  deriving DecidableEq, Repr

abbrev WatchId := ℕ

inductive WatchPriority where
  | low
  | normal
  | high
  | heartbeat
  deriving DecidableEq, Repr

/-- The numeric value of the enumerator. -/
def WatchPriority.value : WatchPriority → ℕ
  | .low => 0
  | .normal => 1
  | .high => 2
  | .heartbeat => 3

theorem WatchPriority.value_injective : Function.Injective value := by
  intro a b h
  cases a <;> cases b <;> simp_all [value]

instance : LinearOrder WatchPriority := orderBy WatchPriority.value WatchPriority.value_injective

structure EffectiveWatchKey where
  providerId : String := ""
  entity : EntityRef
  kind : ProviderDataKind := .metric
  dataId : ℕ := 0
  isolationClass : ℕ := 0
  deriving DecidableEq, Repr

/-- The order of the source compares the fields in this order. -/
def EffectiveWatchKey.tie (k : EffectiveWatchKey) : String ×ₗ EntityRef ×ₗ ℕ ×ₗ ℕ ×ₗ ℕ :=
  toLex (k.providerId, toLex (k.entity, toLex (k.kind.value, toLex (k.dataId, k.isolationClass))))

theorem EffectiveWatchKey.tie_injective : Function.Injective tie := by
  rintro ⟨p, e, k, d, i⟩ ⟨p', e', k', d', i'⟩ h
  simp only [tie, EmbeddingLike.apply_eq_iff_eq, Prod.mk.injEq] at h
  obtain ⟨rfl, rfl, hk, rfl, rfl⟩ := h
  rw [ProviderDataKind.value_injective hk]

instance : LinearOrder EffectiveWatchKey :=
  orderBy EffectiveWatchKey.tie EffectiveWatchKey.tie_injective

structure CollectionPlanItem where
  key : EffectiveWatchKey
  period : ℤ := 0
  freshness : ℤ := 0
  priority : WatchPriority := .low
  logicalWatches : List WatchId := []
  deriving DecidableEq, Repr

structure CollectionJob where
  id : ℕ := 0
  providerId : String := ""
  kind : ProviderDataKind := .metric
  isolationClass : ℕ := 0
  period : ℤ := 0
  priority : WatchPriority := .low
  items : List CollectionPlanItem := []
  deriving DecidableEq, Repr

structure CollectionPlan where
  version : ℕ := 0
  watchSnapshotVersion : ℕ := 0
  catalogGeneration : ℕ := 0
  createdAt : ℤ := 0
  jobs : List CollectionJob := []
  deriving DecidableEq, Repr

structure CollectionLimits where
  maxPlanJobs : ℕ := 4096
  maxBatchItems : ℕ := 64
  maxResultItems : ℕ := 4096
  maxResultBytes : ℕ := 1024 * 1024
  maxProviderQueue : ℕ := 256
  maxProviderInFlight : ℕ := 1
  maxFreshWaiters : ℕ := 1024
  schedulerMaxSleep : ℤ := 100000000
  deriving DecidableEq, Repr

def CollectionLimits.validate (l : CollectionLimits) : Status :=
  if l.maxPlanJobs = 0 ∨ l.maxBatchItems = 0 ∨ l.maxResultItems = 0 ∨ l.maxResultBytes = 0 ∨
      l.maxResultItems < l.maxBatchItems ∨ l.maxProviderQueue = 0 ∨ l.maxProviderInFlight ≠ 1 ∨
      l.maxFreshWaiters = 0 ∨ l.schedulerMaxSleep ≤ 0 then
    ⟨.invalidArgument, "collection limits must be positive and consistent"⟩
  else .success

theorem CollectionLimits.validate_default : ({} : CollectionLimits).validate.ok = true := by
  decide

/-- The read item of a plan item. -/
def CollectionPlanItem.readItem (item : CollectionPlanItem) : ProviderReadItem :=
  ⟨item.key.entity, item.key.kind, item.key.dataId⟩

end Pdcm
