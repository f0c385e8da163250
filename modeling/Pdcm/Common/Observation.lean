import Pdcm.Library.OrderedMap

/-!
# Statuses, entities and observations

The value types of `common/` that the data plane exchanges. Unsigned integers
are natural numbers and signed nanosecond times are integers: every place where
the source guards against the end of a machine range keeps its guard, and
`int64Max` and `uint64Max` name those ends. Strings are measured in bytes.
-/

namespace Pdcm

open Library

def uint64Max : ℕ := 2 ^ 64 - 1

def int64Max : ℤ := 2 ^ 63 - 1

/-- `static_cast<std::uint64_t>` of a signed 64-bit value. -/
def toUint64 (x : ℤ) : ℕ := if x < 0 then (x + 2 ^ 64).toNat else x.toNat

theorem toUint64_of_nonneg {x : ℤ} (h : 0 ≤ x) : (toUint64 x : ℤ) = x := by
  simp [toUint64, not_lt.mpr h, Int.toNat_of_nonneg h]

/-- `pdcm_status_t`. -/
inductive StatusCode where
  | success
  | partialResult
  | invalidArgument
  | unsupported
  | notInitialized
  | unavailable
  | permissionDenied
  | timeout
  | resourceExhausted
  | bufferTooSmall
  | notFound
  | staleGeneration
  | internal
  | protocolIncompatible
  deriving DecidableEq, Repr

structure Status where
  code : StatusCode := .success
  message : String := ""
  deriving DecidableEq, Repr

namespace Status

def success : Status := {}

def ok (s : Status) : Bool := decide (s.code = .success)

@[simp] theorem ok_iff (s : Status) : s.ok = true ↔ s.code = .success := by simp [ok]

@[simp] theorem success_code : success.code = .success := rfl

end Status

inductive EntityKind where
  | unknown
  | device
  | node
  deriving DecidableEq, Repr

/-- The numeric value of the enumerator, which is what comparisons use. -/
def EntityKind.value : EntityKind → ℕ
  | .unknown => 0
  | .device => 1
  | .node => 2

theorem EntityKind.value_injective : Function.Injective value := by
  intro a b h
  cases a <;> cases b <;> simp_all [value]

abbrev EntityId := ℕ

abbrev MetricId := ℕ

structure EntityRef where
  kind : EntityKind := .unknown
  id : EntityId := 0
  generation : ℕ := 0
  deriving DecidableEq, Repr

/-- `EntityRefLess` compares kind, id and generation in this order. -/
def EntityRef.tie (e : EntityRef) : ℕ ×ₗ ℕ ×ₗ ℕ :=
  toLex (e.kind.value, toLex (e.id, e.generation))

theorem EntityRef.tie_injective : Function.Injective tie := by
  rintro ⟨k, i, g⟩ ⟨k', i', g'⟩ h
  simp only [tie, EmbeddingLike.apply_eq_iff_eq, Prod.mk.injEq] at h
  obtain ⟨hk, rfl, rfl⟩ := h
  rw [EntityKind.value_injective hk]

instance : LinearOrder EntityRef := orderBy EntityRef.tie EntityRef.tie_injective

structure DataKey where
  entity : EntityRef
  metric : MetricId
  deriving DecidableEq, Repr

def DataKey.tie (k : DataKey) : ℕ ×ₗ ℕ ×ₗ ℕ ×ₗ ℕ :=
  toLex (k.entity.kind.value, toLex (k.entity.id, toLex (k.entity.generation, k.metric)))

theorem DataKey.tie_injective : Function.Injective tie := by
  rintro ⟨⟨k, i, g⟩, m⟩ ⟨⟨k', i', g'⟩, m'⟩ h
  simp only [tie, EmbeddingLike.apply_eq_iff_eq, Prod.mk.injEq] at h
  obtain ⟨hk, rfl, rfl, rfl⟩ := h
  rw [EntityKind.value_injective hk]

instance : LinearOrder DataKey := orderBy DataKey.tie DataKey.tie_injective

/-- The alternatives of the `MetricValue` variant. A double is only stored and
compared for its type here, so it is kept as its bit pattern. -/
inductive MetricValue where
  | int64 (value : ℤ)
  | uint64 (value : ℕ)
  | double (bits : ℕ)
  | bool (value : Bool)
  | string (value : String)
  deriving DecidableEq, Repr

inductive ObservationStatus where
  | valid
  | stale
  | notAvailable
  | unsupported
  | error
  deriving DecidableEq, Repr

structure SourceMetadata where
  provider : String := ""
  nativeSource : String := ""
  deriving DecidableEq, Repr

structure ErrorMetadata where
  status : Status := {}
  nativeCode : ℤ := 0
  retryable : Bool := false
  deriving DecidableEq, Repr

structure DerivationMetadata where
  processorId : String := ""
  inputSequences : List ℕ := []
  processorVersion : ℕ := 0
  depth : ℕ := 0
  deriving DecidableEq, Repr

structure Observation where
  entity : EntityRef
  metric : MetricId
  value : Option MetricValue := none
  status : ObservationStatus := .notAvailable
  scheduledMonotonicTimeNs : ℤ := 0
  sourceSampleTimeNs : Option ℤ := none
  observedMonotonicTimeNs : ℤ := 0
  metricSemanticVersion : ℕ := 0
  observedWallTimeNs : ℤ := 0
  catalogGeneration : ℕ := 0
  commitEpoch : ℕ := 0
  counterEpoch : ℕ := 0
  source : SourceMetadata := {}
  staleAgeNs : Option ℤ := none
  latestFailure : Option ErrorMetadata := none
  error : ErrorMetadata := {}
  derivation : DerivationMetadata := {}
  deriving DecidableEq, Repr

namespace Observation

variable (o : Observation)

/-- The key under which an observation is stored. -/
def key (o : Observation) : DataKey := ⟨o.entity, o.metric⟩

def stamped (o : Observation) (epoch : ℕ) : Observation := { o with commitEpoch := epoch }

@[simp] theorem stamped_key (n : ℕ) : (o.stamped n).key = o.key := rfl

end Observation

/-- The metadata test of `validateObservation` that depends on the item status. -/
def statusMetadataInvalid (o : Observation) : Option Status :=
  match o.status with
  | .valid =>
    if o.value.isNone ∨ ¬o.error.status.ok ∨ o.staleAgeNs.isSome ∨ o.latestFailure.isSome then
      some ⟨.invalidArgument, "valid observation metadata is inconsistent"⟩
    else none
  | .stale =>
    if o.value.isNone ∨ o.staleAgeNs.isNone ∨ (∃ age ∈ o.staleAgeNs, age < 0) ∨
        o.latestFailure.isNone ∨ (∃ failure ∈ o.latestFailure, failure.status.ok) then
      some ⟨.invalidArgument, "stale observation requires old value and latest failure"⟩
    else none
  | .notAvailable | .unsupported | .error =>
    if o.value.isSome ∨ o.error.status.ok ∨ o.staleAgeNs.isSome ∨ o.latestFailure.isSome then
      some ⟨.invalidArgument, "failed observation metadata is inconsistent"⟩
    else none

def validateObservation (o : Observation) : Status :=
  if o.entity.kind = .unknown ∨ o.entity.generation = 0 ∨ o.metric = 0 ∨
      o.metricSemanticVersion = 0 then
    ⟨.invalidArgument, "observation identity or semantic version is invalid"⟩
  else if o.scheduledMonotonicTimeNs < 0 ∨ o.observedMonotonicTimeNs < 0 ∨
      o.catalogGeneration = 0 ∨ (∃ time ∈ o.sourceSampleTimeNs, time < 0) then
    ⟨.invalidArgument, "observation time or catalog generation is invalid"⟩
  else match statusMetadataInvalid o with
  | some failure => failure
  | none =>
    if 4 < o.derivation.depth then
      ⟨.invalidArgument, "observation derivation depth exceeds limit"⟩
    else if o.derivation.processorId = "" then
      if o.derivation.depth ≠ 0 ∨ o.derivation.processorVersion ≠ 0 ∨
          o.derivation.inputSequences ≠ [] then
        ⟨.invalidArgument, "raw observation has derived provenance"⟩
      else .success
    else if o.derivation.depth = 0 ∨ o.derivation.processorVersion = 0 ∨
        o.derivation.inputSequences = [] then
      ⟨.invalidArgument, "derived observation provenance is incomplete"⟩
    else .success

variable {o : Observation}

theorem validateObservation_ok
    (hid : ¬(o.entity.kind = .unknown ∨ o.entity.generation = 0 ∨ o.metric = 0 ∨
      o.metricSemanticVersion = 0))
    (hti : ¬(o.scheduledMonotonicTimeNs < 0 ∨ o.observedMonotonicTimeNs < 0 ∨
      o.catalogGeneration = 0 ∨ ∃ time ∈ o.sourceSampleTimeNs, time < 0))
    (hme : statusMetadataInvalid o = none) (hraw : o.derivation = {}) :
    (validateObservation o).ok = true := by
  unfold validateObservation
  rw [if_neg hid, if_neg hti, hme, hraw]
  rfl

theorem validateObservation_metadata (h : (validateObservation o).ok = true) :
    statusMetadataInvalid o = none := by
  cases hme : statusMetadataInvalid o with
  | none => rfl
  | some failure =>
    have hfa : failure.ok = false := by
      unfold statusMetadataInvalid at hme
      split at hme <;> split_ifs at hme <;> cases hme <;> rfl
    simp only [validateObservation, hme] at h
    split_ifs at h
    · cases h
    · cases h
    · rw [hfa] at h
      cases h

/-- `sizeof` of the stored record types, for the LP64 build of the project. -/
def sizeofObservation : ℕ := 424
def sizeofEntityRef : ℕ := 24

/-- `std::visit` in `valueBytes`: the length of a string, the width of the other
alternatives. -/
def valueBytes : MetricValue → ℕ
  | .int64 _ => 8
  | .uint64 _ => 8
  | .double _ => 8
  | .bool _ => 1
  | .string s => s.utf8ByteSize

end Pdcm
