import Pdcm.Data.HeartbeatEvidence

/-!
# Stored health results

`DataManager::commitHealth` and `readHealth`. A result is stored only if every
evidence reference it carries matches evidence that is still stored, so that the
eviction of evidence, which spares referenced items, cannot orphan it.
-/

namespace Pdcm

open Library

structure HealthCommitResult where
  status : Status := {}
  commitEpoch : ℕ := 0
  stateChanged : Bool := false
  deriving DecidableEq, Repr

structure HealthReadResult where
  status : Status := {}
  observedCommitEpoch : ℕ := 0
  result : Option HealthResult := none
  deriving DecidableEq, Repr

def healthSeverity : HealthState → EventSeverity
  | .healthy => .info
  | .unknown => .warning
  | .warning => .warning
  | .error => .error

/-- The stored evidence a reference of a health result stands for. -/
def refersTo (result : HealthResult) (reference : EvidenceRef)
    (candidate : FirmwareHeartbeatEvidence) : Bool :=
  decide (candidate.evidenceId = reference.evidenceId ∧ candidate.entity = result.entity ∧
    candidate.catalogGeneration = result.catalogGeneration ∧
    candidate.sequenceOrToken = reference.sequenceOrToken ∧
    candidate.sourceSampleTimeNs = reference.sourceSampleTimeNs ∧
    candidate.observedMonotonicTimeNs = reference.observedMonotonicTimeNs ∧
    candidate.source = reference.source)

namespace DataManager

variable {L : Limits} {s : DataManager L} {r : HealthResult} {status : Status}
  {stored : List FirmwareHeartbeatEvidence} {result : HealthResult} {seen : List ℕ}
  {refs : List EvidenceRef}

/-- The reference loop, with the ids seen so far. -/
def checkReferences (stored : List FirmwareHeartbeatEvidence) (result : HealthResult)
    (referenced : List ℕ) : List EvidenceRef → Option Status
  | [] => none
  | reference :: rest =>
    if reference.evidenceId ∈ referenced then
      some ⟨.invalidArgument, "health result repeats evidence"⟩
    else if stored.any (refersTo result reference) then
      checkReferences stored result (reference.evidenceId :: referenced) rest
    else some ⟨.notFound, "health evidence reference is not stored"⟩

/-- The bytes of the health store with `result` in place. -/
def healthBytesWith (s : DataManager L) (result : HealthResult) : ℕ :=
  healthResultBytes result +
    ((s.health.entries.filter fun b => decide (b.1 ≠ result.entity)).map fun b =>
      healthResultBytes b.2).sum

/-- The bytes of all entries, evidence and health results. -/
def storedBytes (s : DataManager L) : ℕ :=
  s.shards.total entryBytes + evidenceBytes s.heartbeatEvidence +
    (s.health.entries.map fun b => sizeofEntityRef + healthResultBytes b.2).sum

def checkHealthRoom (s : DataManager L) (result : HealthResult) : Option Status :=
  if (s.health.find? result.entity).isNone ∧ L.maxHealthEntries ≤ s.health.size then
    some ⟨.resourceExhausted, "health entry limit exceeded"⟩
  else if L.maxHealthBytes < s.healthBytesWith result then
    some ⟨.resourceExhausted, "health store byte limit exceeded"⟩
  else if s.commitEpoch = uint64Max then
    some ⟨.internal, "health commit epoch overflow"⟩
  else none

/-- The checks of `commitHealth`, in source order. -/
def checkHealth (s : DataManager L) (result : HealthResult) : Option Status :=
  if ¬(validateHealthResult result).ok then some (validateHealthResult result)
  else if L.maxHealthEvidenceRefs < result.evidence.length ∨
      L.maxHealthResultBytes < healthResultBytes result then
    some ⟨.resourceExhausted, "health result exceeds configured limits"⟩
  else if s.catalog.generation = 0 then
    some ⟨.notInitialized, "data catalog is not active"⟩
  else if result.catalogGeneration ≠ s.catalog.generation ∨
      result.entity ∉ s.catalog.entities then
    some ⟨.staleGeneration, "health result entity or catalog is stale"⟩
  else if s.catalog.heartbeat.isNone then
    some ⟨.unsupported, "heartbeat health is not in the catalog"⟩
  else
    match checkReferences s.heartbeatEvidence result [] result.evidence with
    | some status => some status
    | none => s.checkHealthRoom result

/-- Whether storing `result` changes what the entity's health says. -/
def healthChanges (s : DataManager L) (result : HealthResult) : Bool :=
  match s.health.find? result.entity with
  | some current => !sameHealthState current result
  | none => isDeterminateHealth result.state

def healthChangeDraft (s : DataManager L) (result : HealthResult) : EventDraft where
  type := .firmwareHeartbeatHealthChanged
  severity := healthSeverity result.state
  entity := some result.entity
  healthSubsystem := some result.subsystemId
  occurrenceTimeNs := result.evaluatedMonotonicTimeNs
  catalogGeneration := result.catalogGeneration
  payload := .healthChange
    { previousState := ((s.health.find? result.entity).map HealthResult.state).getD .unknown
      state := result.state
      previousCode :=
        ((s.health.find? result.entity).map HealthResult.code).getD .heartbeatMissing
      code := result.code
      evidence := result.evidence
      evidenceAgeNs := result.evidenceAgeNs }

/-- The state after storing a health result. -/
def withHealth (s : DataManager L) (result : HealthResult) : DataManager L :=
  { s with commitEpoch := s.commitEpoch + 1, health := s.health.insert result.entity result }

def commitHealthLocked (s : DataManager L) (result : HealthResult) :
    DataManager L × HealthCommitResult × List EventDraft :=
  match s.checkHealth result with
  | some status => (s, { status := status }, [])
  | none =>
    (s.withHealth result,
      { status := .success, commitEpoch := s.commitEpoch + 1,
        stateChanged := s.healthChanges result },
      if s.healthChanges result then [s.healthChangeDraft result] else [])

def commitHealth (s : DataManager L) (result : HealthResult) : DataManager L × HealthCommitResult :=
  let locked := s.commitHealthLocked result
  (locked.1.publishAll locked.2.2, locked.2.1)

def readHealth (s : DataManager L) (entity : EntityRef) (requiredCatalogGeneration : ℕ := 0) :
    HealthReadResult :=
  match s.checkReadEntity "health" entity requiredCatalogGeneration with
  | some status => { status := status, observedCommitEpoch := s.commitEpoch }
  | none =>
    match s.health.find? entity with
    | none =>
      { status := ⟨.notFound, "health result is not present"⟩
        observedCommitEpoch := s.commitEpoch }
    | some stored =>
      { status := .success, observedCommitEpoch := s.commitEpoch, result := some stored }

theorem readHealth_result (s : DataManager L) (ent : EntityRef) (need : ℕ) :
    (s.readHealth ent need).result = none ∧
        (s.readHealth ent need).status.ok = false ∨
      ∃ stored, (s.readHealth ent need).result = some stored ∧
        s.health.find? ent = some stored := by
  unfold readHealth
  cases hc : s.checkReadEntity "health" ent need with
  | some status => exact .inl ⟨rfl, checkReadEntity_failed hc⟩
  | none =>
    cases hs : s.health.find? ent with
    | none => exact .inl ⟨rfl, rfl⟩
    | some stored => exact .inr ⟨stored, rfl, rfl⟩

/-! ### What a commit can do -/

theorem checkReferences_none (h : checkReferences stored result seen refs = none) :
    ∀ r ∈ refs, ∃ c ∈ stored, refersTo result r c = true := by
  induction refs generalizing seen with
  | nil => simp
  | cons reference rest ih =>
    rw [checkReferences] at h
    split_ifs at h with hse hst
    intro r hr
    rcases List.mem_cons.mp hr with rfl | hr
    · exact List.any_eq_true.mp hst
    · exact ih h r hr

/-- What a stored result satisfied when it was stored. -/
structure HealthAccepted (s : DataManager L) (r : HealthResult) : Prop where
  valid : (validateHealthResult r).ok = true
  active : s.catalog.generation ≠ 0
  generation : r.catalogGeneration = s.catalog.generation
  entity : r.entity ∈ s.catalog.entities
  references : ∀ ref ∈ r.evidence, ∃ c ∈ s.heartbeatEvidence, refersTo r ref c = true

theorem healthAccepted_of_check (h : s.checkHealth r = none) : s.HealthAccepted r := by
  unfold checkHealth at h
  split_ifs at h with h1 h2 h3 h4 h5
  cases href : checkReferences s.heartbeatEvidence r [] r.evidence with
  | some status => simp [href] at h
  | none =>
    push Not at h4
    exact ⟨h1, h3, h4.1, h4.2, checkReferences_none href⟩

theorem checkReferences_failed (h : checkReferences stored result seen refs = some status) :
    status.ok = false := by
  induction refs generalizing seen with
  | nil => simp [checkReferences] at h
  | cons reference rest ih =>
    rw [checkReferences] at h
    split_ifs at h
    · cases h; rfl
    · exact ih h
    · cases h; rfl

theorem checkHealth_failed (h : s.checkHealth r = some status) : status.ok = false := by
  unfold checkHealth at h
  split_ifs at h with hva
  · cases h; rfl
  · cases h; rfl
  · cases h; rfl
  · cases h; rfl
  · cases href : checkReferences s.heartbeatEvidence r [] r.evidence with
    | some failure =>
      simp only [href, Option.some.injEq] at h
      exact h ▸ checkReferences_failed href
    | none =>
      simp only [href] at h
      unfold checkHealthRoom at h
      split_ifs at h <;> (cases h; rfl)
  · cases h
    exact eq_false_of_ne_true hva

/-- The locked part either leaves the state alone and reports a failed check, or stores
the result. -/
theorem commitHealthLocked_cases (s : DataManager L) (r : HealthResult) :
    ((s.commitHealthLocked r).2.1.status.ok = false ∧ (s.commitHealthLocked r).1 = s ∧
      (s.commitHealthLocked r).2.2 = []) ∨
    (s.HealthAccepted r ∧ (s.commitHealthLocked r).2.1.status = .success ∧
      (s.commitHealthLocked r).1 = s.withHealth r) := by
  unfold commitHealthLocked
  cases h : s.checkHealth r with
  | some status => exact .inl ⟨checkHealth_failed h, rfl, rfl⟩
  | none => exact .inr ⟨healthAccepted_of_check h, rfl, rfl⟩

theorem commitHealth_cases (s : DataManager L) (r : HealthResult) :
    ((s.commitHealth r).2.status.ok = false ∧ (s.commitHealth r).1 = s) ∨
    (s.HealthAccepted r ∧ (s.commitHealth r).2.status = .success ∧
      ∃ drafts, (s.commitHealth r).1 = (s.withHealth r).publishAll drafts) := by
  unfold commitHealth
  dsimp only
  rcases s.commitHealthLocked_cases r with ⟨hfa, hs, hdr⟩ | ⟨hr, hok, hs⟩
  · refine .inl ⟨hfa, ?_⟩
    rw [hs, hdr]
    rfl
  · exact .inr ⟨hr, hok, (s.commitHealthLocked r).2.2, by rw [hs]⟩

end DataManager
end Pdcm
