import Pdcm.Common.Observation

/-!
# Firmware heartbeat evidence and health results

`common/health.hpp` and `common/health.cpp`: the evidence a provider read leaves
behind, the health result computed from it, and the checks both must pass before
the data plane stores them.
-/

namespace Pdcm

inductive HeartbeatNativeClass where
  | normal
  | warning
  | fault
  | unknownNative
  deriving DecidableEq, Repr

inductive HealthState where
  | healthy
  | unknown
  | warning
  | error
  deriving DecidableEq, Repr

inductive StableHealthCode where
  | heartbeatOk
  | heartbeatWarning
  | heartbeatFault
  | heartbeatMissing
  | heartbeatStale
  | heartbeatTimeout
  | heartbeatReadError
  | heartbeatUnsupported
  | providerUnavailable
  | processorError
  deriving DecidableEq, Repr

inductive HealthLimitationCode where
  | catalogGap
  | nativeMappingPending
  | providerUnavailable
  | evidenceMissing
  | evidenceStale
  | readFailure
  | processorError
  deriving DecidableEq, Repr

structure HealthLimitation where
  code : HealthLimitationCode := .evidenceMissing
  detail : String := ""
  deriving DecidableEq, Repr

structure FirmwareHeartbeatEvidence where
  evidenceId : ℕ := 0
  entity : EntityRef
  providerDataId : ℕ := 0
  nativeClass : HeartbeatNativeClass := .unknownNative
  status : ObservationStatus := .notAvailable
  sequenceOrToken : ℕ := 0
  sourceSampleTimeNs : Option ℤ := none
  observedMonotonicTimeNs : ℤ := 0
  source : SourceMetadata := {}
  error : ErrorMetadata := {}
  catalogGeneration : ℕ := 0
  deriving DecidableEq, Repr

structure EvidenceRef where
  evidenceId : ℕ := 0
  sequenceOrToken : ℕ := 0
  sourceSampleTimeNs : Option ℤ := none
  observedMonotonicTimeNs : ℤ := 0
  source : SourceMetadata := {}
  deriving DecidableEq, Repr

structure HealthResult where
  entity : EntityRef
  subsystemId : ℕ := 0
  state : HealthState := .unknown
  itemStatus : ObservationStatus := .notAvailable
  catalogGeneration : ℕ := 0
  evaluatedMonotonicTimeNs : ℤ := 0
  evidenceAgeNs : ℤ := 0
  evidence : List EvidenceRef := []
  limitations : List HealthLimitation := []
  code : StableHealthCode := .heartbeatMissing
  deriving DecidableEq, Repr

def firmwareHeartbeatHealthId : ℕ := 1

def isDeterminateHealth (state : HealthState) : Bool :=
  decide (state = .healthy ∨ state = .warning ∨ state = .error)

@[simp] theorem isDeterminateHealth_iff (state : HealthState) :
    isDeterminateHealth state = true ↔ state ≠ .unknown := by
  cases state <;> decide

def evidenceRefValid (e : EvidenceRef) : Bool :=
  decide (e.evidenceId ≠ 0 ∧ 0 ≤ e.observedMonotonicTimeNs ∧
    (∀ time ∈ e.sourceSampleTimeNs, 0 ≤ time) ∧ e.source.provider ≠ "")

def codeMatchesState (state : HealthState) (code : StableHealthCode) : Bool :=
  match state with
  | .healthy => decide (code = .heartbeatOk)
  | .warning => decide (code = .heartbeatWarning)
  | .error => decide (code = .heartbeatFault)
  | .unknown => decide (code ≠ .heartbeatOk ∧ code ≠ .heartbeatWarning ∧ code ≠ .heartbeatFault)

def validateFirmwareHeartbeatEvidence (e : FirmwareHeartbeatEvidence) : Status :=
  if e.entity.kind ≠ .device ∨ e.entity.generation = 0 ∨ e.providerDataId = 0 ∨
      e.catalogGeneration = 0 ∨ e.observedMonotonicTimeNs < 0 ∨
      (∃ time ∈ e.sourceSampleTimeNs, time < 0) ∨ e.source.provider = "" then
    ⟨.invalidArgument, "heartbeat evidence identity or time is invalid"⟩
  else if e.status = .stale then
    ⟨.invalidArgument, "stale is not a physical heartbeat evidence status"⟩
  else if e.status = .valid then
    if e.nativeClass = .unknownNative ∨ e.sourceSampleTimeNs.isNone ∨ ¬e.error.status.ok then
      ⟨.invalidArgument, "valid heartbeat evidence is incomplete"⟩
    else .success
  else if e.nativeClass ≠ .unknownNative ∨ e.error.status.ok then
    ⟨.invalidArgument, "failed heartbeat evidence metadata is inconsistent"⟩
  else .success

def validateHealthResult (r : HealthResult) : Status :=
  if r.entity.kind ≠ .device ∨ r.entity.generation = 0 ∨
      r.subsystemId ≠ firmwareHeartbeatHealthId ∨ r.catalogGeneration = 0 ∨
      r.evaluatedMonotonicTimeNs < 0 ∨ r.evidenceAgeNs < 0 then
    ⟨.invalidArgument, "health result identity or time is invalid"⟩
  else if r.evidence.any fun e => !evidenceRefValid e then
    ⟨.invalidArgument, "health evidence reference is invalid"⟩
  else if r.limitations.any fun l => decide (l.detail = "") then
    ⟨.invalidArgument, "health limitation detail is empty"⟩
  else if ¬codeMatchesState r.state r.code then
    ⟨.invalidArgument, "health state and stable code disagree"⟩
  else if isDeterminateHealth r.state then
    if r.itemStatus ≠ .valid ∨ r.evidence = [] then
      ⟨.invalidArgument, "determinate health requires valid evidence"⟩
    else .success
  else if r.itemStatus = .valid then
    ⟨.invalidArgument, "unknown health cannot have a valid item status"⟩
  else .success

/-- What a stored evidence is known to satisfy: the part of the validation that
later steps rely on. -/
theorem validEvidence_of_ok {e : FirmwareHeartbeatEvidence}
    (h : (validateFirmwareHeartbeatEvidence e).ok = true) :
    0 ≤ e.observedMonotonicTimeNs ∧ e.catalogGeneration ≠ 0 ∧ e.status ≠ .stale ∧
      e.source.provider ≠ "" ∧
      (e.status = .valid → e.nativeClass ≠ .unknownNative ∧ e.sourceSampleTimeNs.isSome) ∧
      (e.status ≠ .valid → e.nativeClass = .unknownNative) := by
  unfold validateFirmwareHeartbeatEvidence at h
  split_ifs at h with h1 h2 h3 h4 h5
  · simp at h
  · simp at h
  · simp at h
  · simp only [not_or, not_lt] at h1 h4
    refine ⟨h1.2.2.2.2.1, h1.2.2.2.1, h2, h1.2.2.2.2.2.2, fun _ => ⟨h4.1, ?_⟩, fun h => absurd h3 h⟩
    cases hs : e.sourceSampleTimeNs <;> simp_all
  · simp at h
  · simp only [not_or, not_lt] at h1 h5
    exact ⟨h1.2.2.2.2.1, h1.2.2.2.1, h2, h1.2.2.2.2.2.2, fun h => absurd h h3,
      fun _ => not_not.mp h5.1⟩

theorem evidence_ne_nil_of_ok {r : HealthResult} (h : (validateHealthResult r).ok = true)
    (hd : r.state ≠ .unknown) : r.evidence ≠ [] := by
  unfold validateHealthResult at h
  split_ifs at h with h1 h2 h3 h4 h5 h6 h7
  · simp at h
  · simp at h
  · simp at h
  · simp at h
  · exact fun hn => h6 (.inr hn)
  · simp at h
  · exact absurd ((isDeterminateHealth_iff r.state).mpr hd) h5
  · simp at h

def sizeofFirmwareHeartbeatEvidence : ℕ := 200
def sizeofEvidenceRef : ℕ := 104
def sizeofHealthLimitation : ℕ := 40
def sizeofHealthResult : ℕ := 112

def heartbeatEvidenceBytes (e : FirmwareHeartbeatEvidence) : ℕ :=
  sizeofFirmwareHeartbeatEvidence + e.source.provider.utf8ByteSize +
    e.source.nativeSource.utf8ByteSize + e.error.status.message.utf8ByteSize

def healthResultBytes (r : HealthResult) : ℕ :=
  sizeofHealthResult +
    (r.evidence.map fun e => sizeofEvidenceRef + e.source.provider.utf8ByteSize +
      e.source.nativeSource.utf8ByteSize).sum +
    (r.limitations.map fun l => sizeofHealthLimitation + l.detail.utf8ByteSize).sum

/-- Equality of everything but the store-assigned id. -/
def sameHeartbeatEvidence (lhs rhs : FirmwareHeartbeatEvidence) : Bool :=
  decide (lhs.entity = rhs.entity ∧ lhs.providerDataId = rhs.providerDataId ∧
    lhs.nativeClass = rhs.nativeClass ∧ lhs.status = rhs.status ∧
    lhs.sequenceOrToken = rhs.sequenceOrToken ∧
    lhs.sourceSampleTimeNs = rhs.sourceSampleTimeNs ∧
    lhs.observedMonotonicTimeNs = rhs.observedMonotonicTimeNs ∧ lhs.source = rhs.source ∧
    lhs.error = rhs.error ∧ lhs.catalogGeneration = rhs.catalogGeneration)

def sameHealthState (lhs rhs : HealthResult) : Bool :=
  decide (lhs.state = rhs.state ∧ lhs.code = rhs.code ∧ lhs.limitations = rhs.limitations)

end Pdcm
