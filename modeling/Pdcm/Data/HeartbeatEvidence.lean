import Pdcm.Data.Commit

/-!
# Heartbeat evidence

`DataManager::commitHeartbeatEvidence` and the evidence reads. New evidence must be
observed after the latest stored one of its entity, and VALID evidence must also be
newer than the last VALID one that is still stored. Old evidence then leaves by age
and by the item and byte limits, except what a stored health result references.
-/

namespace Pdcm

open Library List

structure EvidenceCommitResult where
  status : Status := {}
  evidenceId : ℕ := 0
  commitEpoch : ℕ := 0
  committed : Bool := false
  deriving DecidableEq, Repr

structure EvidenceReadResult where
  status : Status := {}
  observedCommitEpoch : ℕ := 0
  evidence : Option FirmwareHeartbeatEvidence := none
  deriving DecidableEq, Repr

def FirmwareHeartbeatEvidence.withId (e : FirmwareHeartbeatEvidence) (id : ℕ) :
    FirmwareHeartbeatEvidence :=
  { e with evidenceId := id }

/-- Some stored health result lists the evidence id. -/
def isReferenced (health : OrderedMap EntityRef HealthResult) (evidenceId : ℕ) : Bool :=
  health.entries.any fun b => b.2.evidence.any fun r => decide (r.evidenceId = evidenceId)

def evidenceBytes (es : List FirmwareHeartbeatEvidence) : ℕ :=
  (es.map heartbeatEvidenceBytes).sum

/-- The count and byte loop: the first evictable item leaves while a limit is
exceeded, and the commit is refused when none is left. Each round removes an item,
so the fuel is the number of staged items. -/
def evictEvidence (L : Limits) (evictable : FirmwareHeartbeatEvidence → Bool) :
    ℕ → List FirmwareHeartbeatEvidence → Option (List FirmwareHeartbeatEvidence)
  | 0, staged =>
    if L.maxEvidenceItems < staged.length ∨ L.maxEvidenceBytes < evidenceBytes staged then none
    else some staged
  | fuel + 1, staged =>
    if L.maxEvidenceItems < staged.length ∨ L.maxEvidenceBytes < evidenceBytes staged then
      if staged.any evictable then evictEvidence L evictable fuel (staged.eraseP evictable)
      else none
    else some staged

section EvictEvidence

variable {L : Limits} {evictable : FirmwareHeartbeatEvidence → Bool}
  {staged : List FirmwareHeartbeatEvidence}

/-- What the loop can end with. Only evictable items leave, and it gives up only if the
others exceed a limit. -/
inductive Evicted (L : Limits) (evictable : FirmwareHeartbeatEvidence → Bool)
    (staged : List FirmwareHeartbeatEvidence) : Option (List FirmwareHeartbeatEvidence) → Prop
  | kept {kept : List FirmwareHeartbeatEvidence} (hsublist : kept.Sublist staged)
      (hsame : kept.filter (fun c => !evictable c) = staged.filter fun c => !evictable c)
      (hwithin : kept.length ≤ L.maxEvidenceItems ∧ evidenceBytes kept ≤ L.maxEvidenceBytes) :
      Evicted L evictable staged (some kept)
  | exhausted (hlimit : L.maxEvidenceItems < (staged.filter fun c => !evictable c).length ∨
        L.maxEvidenceBytes < evidenceBytes (staged.filter fun c => !evictable c)) :
      Evicted L evictable staged none

theorem evictEvidence_evicted {fuel : ℕ} (hfu : staged.length ≤ fuel) :
    Evicted L evictable staged (evictEvidence L evictable fuel staged) := by
  induction fuel generalizing staged with
  | zero =>
    obtain rfl := length_eq_zero_iff.mp (Nat.le_zero.mp hfu)
    exact .kept (.refl _) rfl ⟨Nat.zero_le _, Nat.zero_le _⟩
  | succ fuel ih =>
    rw [evictEvidence]
    split_ifs with hex hany
    · obtain ⟨c, hc, hev⟩ := any_eq_true.mp hany
      obtain ⟨a, before, after, -, ha, hst, her⟩ := exists_of_eraseP hc hev
      have hsa : (staged.eraseP evictable).filter (fun c => !evictable c) =
          staged.filter fun c => !evictable c := by
        rw [her, hst]
        simp [ha]
      have hle := length_eraseP_of_mem hc hev
      have hre : Evicted L evictable (staged.eraseP evictable) _ := ih (by omega)
      generalize evictEvidence L evictable fuel (staged.eraseP evictable) = result at hre ⊢
      cases hre with
      | kept hsu hfi hwi => exact .kept (hsu.trans eraseP_sublist) (hfi.trans hsa) hwi
      | exhausted hli => exact .exhausted (hsa ▸ hli)
    · apply Evicted.exhausted
      rwa [filter_eq_self.mpr]
      intro c hc
      simpa using fun hev => hany (any_eq_true.mpr ⟨c, hc, hev⟩)
    · exact .kept (.refl _) rfl ⟨by omega, by omega⟩

end EvictEvidence

namespace DataManager

variable {L : Limits} {s : DataManager L} {e : FirmwareHeartbeatEvidence} {entity : EntityRef}
  {required : ℕ} {subject : String}

def evidenceById? (s : DataManager L) (evidenceId : ℕ) : Option FirmwareHeartbeatEvidence :=
  s.heartbeatEvidence.find? fun candidate => decide (candidate.evidenceId = evidenceId)

/-- The stored evidence that `latest_heartbeat_` names for an entity. -/
def latestEvidence? (s : DataManager L) (entity : EntityRef) : Option FirmwareHeartbeatEvidence :=
  (s.latestHeartbeat.find? entity).bind s.evidenceById?

/-- The newest stored VALID evidence of an entity, found by the reverse search. -/
def lastValidEvidence? (s : DataManager L) (entity : EntityRef) :
    Option FirmwareHeartbeatEvidence :=
  s.heartbeatEvidence.reverse.find? fun candidate =>
    decide (candidate.entity = entity ∧ candidate.status = .valid)

/-- The checks that do not look at stored evidence. -/
def checkEvidence (s : DataManager L) (evidence : FirmwareHeartbeatEvidence) : Option Status :=
  if evidence.evidenceId ≠ 0 then
    some ⟨.invalidArgument, "heartbeat evidence id is store-assigned"⟩
  else if ¬(validateFirmwareHeartbeatEvidence evidence).ok then
    some (validateFirmwareHeartbeatEvidence evidence)
  else if s.catalog.generation = 0 then
    some ⟨.notInitialized, "data catalog is not active"⟩
  else if s.catalog.topologyUnsupported then
    some ⟨.unsupported, "heartbeat evidence rejects multi-device P0"⟩
  else if evidence.catalogGeneration ≠ s.catalog.generation ∨
      evidence.entity ∉ s.catalog.entities then
    some ⟨.staleGeneration, "heartbeat evidence entity or catalog is stale"⟩
  else if s.catalog.heartbeat.bind HealthCatalogEntry.providerDataId ≠
        some evidence.providerDataId ∨ s.catalog.heartbeatSupported = false then
    some ⟨.unsupported, "heartbeat evidence mapping is unavailable"⟩
  else if s.commitEpoch = uint64Max ∨ s.nextEvidenceId = uint64Max then
    some ⟨.internal, "heartbeat evidence counter overflow"⟩
  else none

/-- VALID evidence that is not newer than the last stored VALID one, in token or in
sample time. Checked VALID evidence always has a sample time. -/
def notNewer (s : DataManager L) (evidence : FirmwareHeartbeatEvidence) : Prop :=
  evidence.status = .valid ∧ ∃ lastValid ∈ s.lastValidEvidence? evidence.entity,
    evidence.sequenceOrToken ≤ lastValid.sequenceOrToken ∨
      evidence.sourceSampleTimeNs.getD 0 ≤ lastValid.sourceSampleTimeNs.getD 0

instance (s : DataManager L) (evidence : FirmwareHeartbeatEvidence) :
    Decidable (s.notNewer evidence) :=
  inferInstanceAs (Decidable (_ ∧ _))

/-- The evidence expired by age when `evidence` arrives. -/
def expired (s : DataManager L) (evidence candidate : FirmwareHeartbeatEvidence) : Bool :=
  decide (candidate.evidenceId ≠ evidence.evidenceId ∧
    candidate.observedMonotonicTimeNs ≤ evidence.observedMonotonicTimeNs ∧
    L.evidenceTtlNs < evidence.observedMonotonicTimeNs - candidate.observedMonotonicTimeNs ∧
    isReferenced s.health candidate.evidenceId = false)

def evictable (s : DataManager L) (evidence candidate : FirmwareHeartbeatEvidence) : Bool :=
  decide (candidate.evidenceId ≠ evidence.evidenceId ∧
    isReferenced s.health candidate.evidenceId = false)

/-- The stored evidence after adding `evidence`, or nothing when the limits cannot
be met. -/
def stageEvidence (s : DataManager L) (evidence : FirmwareHeartbeatEvidence) :
    Option (List FirmwareHeartbeatEvidence) :=
  let staged := (s.heartbeatEvidence ++ [evidence]).filter fun c => !s.expired evidence c
  evictEvidence L (s.evictable evidence) staged.length staged

def storeEvidence (s : DataManager L) (evidence : FirmwareHeartbeatEvidence) :
    DataManager L × EvidenceCommitResult :=
  match s.stageEvidence (evidence.withId s.nextEvidenceId) with
  | none =>
    (s, { status := ⟨.resourceExhausted, "heartbeat evidence store limit exceeded"⟩ })
  | some staged =>
    ({ s with
        nextEvidenceId := s.nextEvidenceId + 1
        commitEpoch := s.commitEpoch + 1
        heartbeatEvidence := staged
        latestHeartbeat := s.latestHeartbeat.insert evidence.entity s.nextEvidenceId },
      { status := .success, evidenceId := s.nextEvidenceId, commitEpoch := s.commitEpoch + 1,
        committed := true })

def commitHeartbeatEvidence (s : DataManager L) (evidence : FirmwareHeartbeatEvidence) :
    DataManager L × EvidenceCommitResult :=
  match s.checkEvidence evidence with
  | some status => (s, { status := status })
  | none =>
    match s.latestEvidence? evidence.entity with
    | some latest =>
      if sameHeartbeatEvidence latest evidence then
        (s, { status := .success, evidenceId := latest.evidenceId, commitEpoch := s.commitEpoch })
      else if evidence.observedMonotonicTimeNs ≤ latest.observedMonotonicTimeNs then
        (s, { status := ⟨.staleGeneration, "heartbeat evidence is not newer"⟩ })
      else if s.notNewer evidence then
        (s, { status := ⟨.staleGeneration, "heartbeat token or sample time is not newer"⟩ })
      else s.storeEvidence evidence
    | none =>
      if s.notNewer evidence then
        (s, { status := ⟨.staleGeneration, "heartbeat token or sample time is not newer"⟩ })
      else s.storeEvidence evidence

/-! ### What a commit can do -/

/-- Everything known when new evidence is stored: the checks it passed and the
evidence `rest` that stays beside it. -/
structure EvidenceStored (s : DataManager L) (e : FirmwareHeartbeatEvidence)
    (rest : List FirmwareHeartbeatEvidence) : Prop where
  valid : (validateFirmwareHeartbeatEvidence e).ok = true
  generation : e.catalogGeneration = s.catalog.generation
  active : s.catalog.generation ≠ 0
  entity : e.entity ∈ s.catalog.entities
  supported : s.catalog.heartbeatSupported = true
  later : ∀ latest, s.latestEvidence? e.entity = some latest →
    latest.observedMonotonicTimeNs < e.observedMonotonicTimeNs
  newer : ¬s.notNewer e
  sublist : rest.Sublist s.heartbeatEvidence
  referenced : ∀ c ∈ s.heartbeatEvidence, isReferenced s.health c.evidenceId = true → c ∈ rest

/-- The state after storing new evidence. -/
def withEvidence (s : DataManager L) (e : FirmwareHeartbeatEvidence)
    (rest : List FirmwareHeartbeatEvidence) : DataManager L :=
  { s with
    nextEvidenceId := s.nextEvidenceId + 1
    commitEpoch := s.commitEpoch + 1
    heartbeatEvidence := rest ++ [e.withId s.nextEvidenceId]
    latestHeartbeat := s.latestHeartbeat.insert e.entity s.nextEvidenceId }

theorem stageEvidence_some {staged : List FirmwareHeartbeatEvidence}
    (h : s.stageEvidence e = some staged) :
    (∃ rest, staged = rest ++ [e] ∧ rest.Sublist s.heartbeatEvidence ∧
      ∀ c ∈ s.heartbeatEvidence, isReferenced s.health c.evidenceId = true → c ∈ rest) ∧
      staged.length ≤ L.maxEvidenceItems ∧ evidenceBytes staged ≤ L.maxEvidenceBytes := by
  have hev : Evicted L (s.evictable e) _ (s.stageEvidence e) := evictEvidence_evicted le_rfl
  have hse : ([e].filter fun c => !s.expired e c) = [e] := by simp [expired]
  rw [h, filter_append, hse] at hev
  cases hev with
  | kept hsu hfi hwi =>
    obtain ⟨rest, last, rfl, hre, hla⟩ := sublist_append_iff.mp hsu
    have hne : [e].filter (fun c => !s.evictable e c) = [e] := by simp [evictable]
    rw [filter_append, filter_append, hne] at hfi
    refine ⟨?_, hwi⟩
    obtain rfl | rfl := sublist_singleton.mp hla
    · have hle := (hre.filter fun c => !s.evictable e c).length_le
      have hlen := congrArg length hfi
      simp only [filter_nil, append_nil, length_append, length_singleton] at hlen
      omega
    · rw [hne] at hfi
      refine ⟨rest, rfl, hre.trans filter_sublist, fun c hc href => ?_⟩
      have hke : c ∈ rest.filter fun c => !s.evictable e c := by
        rw [append_cancel_right hfi]
        simp [mem_filter, hc, expired, evictable, href]
      exact mem_of_mem_filter hke

/-- The evidence passes the checks and is newer than what is stored for its entity. -/
structure NewEvidence (s : DataManager L) (e : FirmwareHeartbeatEvidence) : Prop where
  checked : s.checkEvidence e = none
  newer : ¬s.notNewer e
  later : ∀ latest, s.latestEvidence? e.entity = some latest →
    latest.observedMonotonicTimeNs < e.observedMonotonicTimeNs

/-- Only such evidence is handed to `storeEvidence`. -/
theorem commitHeartbeatEvidence_eq (s : DataManager L) (e : FirmwareHeartbeatEvidence) :
    (s.commitHeartbeatEvidence e = s.storeEvidence e ∧ s.NewEvidence e) ∨
    ¬s.NewEvidence e ∧ (s.commitHeartbeatEvidence e).1 = s ∧
      (s.commitHeartbeatEvidence e).2.committed = false ∧
      ((validateFirmwareHeartbeatEvidence e).ok = true →
        (s.commitHeartbeatEvidence e).2.status.code ≠ .resourceExhausted) := by
  unfold commitHeartbeatEvidence
  cases hch : s.checkEvidence e with
  | some status =>
    refine .inr ⟨fun hnew => by simp [hnew.checked] at hch, rfl, rfl, fun hva => ?_⟩
    change status.code ≠ _
    unfold checkEvidence at hch
    split_ifs at hch
    all_goals
      cases hch
      decide
  | none =>
    cases hla : s.latestEvidence? e.entity with
    | some l =>
      dsimp only
      split_ifs with hsa hba hnot
      · simp only [sameHeartbeatEvidence, decide_eq_true_eq] at hsa
        exact .inr ⟨fun hnew => (hnew.later l hla).ne hsa.2.2.2.2.2.2.1, rfl, rfl,
          by rintro - ⟨⟩⟩
      · exact .inr ⟨fun hnew => (hnew.later l hla).not_ge hba, rfl, rfl, by rintro - ⟨⟩⟩
      · exact .inr ⟨fun hnew => hnew.newer hnot, rfl, rfl, by rintro - ⟨⟩⟩
      · refine .inl ⟨rfl, hch, hnot, fun other hot => ?_⟩
        obtain rfl := Option.some.inj (hla.symm.trans hot)
        exact not_le.mp hba
    | none =>
      dsimp only
      split_ifs with hnot
      · exact .inr ⟨fun hnew => hnew.newer hnot, rfl, rfl, by rintro - ⟨⟩⟩
      · exact .inl ⟨rfl, hch, hnot, fun other hot => by simp [hla] at hot⟩

/-- A commit either leaves the state alone or stores the evidence under the next id. -/
theorem commitHeartbeatEvidence_cases (s : DataManager L) (e : FirmwareHeartbeatEvidence) :
    ((s.commitHeartbeatEvidence e).1 = s ∧ (s.commitHeartbeatEvidence e).2.committed = false) ∨
    ∃ rest, s.EvidenceStored e rest ∧ (s.commitHeartbeatEvidence e).1 = s.withEvidence e rest ∧
      (s.commitHeartbeatEvidence e).2 =
        { status := .success, evidenceId := s.nextEvidenceId, commitEpoch := s.commitEpoch + 1,
          committed := true } := by
  rcases s.commitHeartbeatEvidence_eq e with ⟨heq, hch, hne, hlat⟩ | ⟨-, hs, hco, -⟩
  · rw [heq, storeEvidence]
    unfold checkEvidence at hch
    split_ifs at hch with _ hva hac _ hown hsu
    push Not at hown hsu
    obtain ⟨hgen, hen⟩ := hown
    have hsu := Bool.eq_true_of_not_eq_false hsu.2
    cases hsta : s.stageEvidence (e.withId s.nextEvidenceId) with
    | none => exact .inl ⟨rfl, rfl⟩
    | some staged =>
      obtain ⟨⟨rest, rfl, hsub, href⟩, -⟩ := stageEvidence_some hsta
      exact .inr ⟨rest, ⟨hva, hgen, hac, hen, hsu, hlat, hne, hsub, href⟩, rfl, rfl⟩
  · exact .inl ⟨hs, hco⟩

/-! ### Reads -/

/-- The checks the evidence and health reads share. `subject` is the word their
messages start with. -/
def checkReadEntity (s : DataManager L) (subject : String) (entity : EntityRef)
    (requiredCatalogGeneration : ℕ) : Option Status :=
  if s.catalog.generation = 0 then some ⟨.notInitialized, "data catalog is not active"⟩
  else if requiredCatalogGeneration ≠ 0 ∧ requiredCatalogGeneration ≠ s.catalog.generation then
    some ⟨.staleGeneration, subject ++ " query catalog is stale"⟩
  else
    match s.catalog.entities.find? fun candidate => sameLogicalEntity candidate entity with
    | none => some ⟨.notFound, subject ++ " query entity is not present"⟩
    | some current =>
      if current ≠ entity then some ⟨.staleGeneration, subject ++ " query entity is stale"⟩
      else none

def latestHeartbeatEvidence (s : DataManager L) (entity : EntityRef)
    (requiredCatalogGeneration : ℕ := 0) : EvidenceReadResult :=
  match s.checkReadEntity "heartbeat" entity requiredCatalogGeneration with
  | some status => { status := status, observedCommitEpoch := s.commitEpoch }
  | none =>
    match s.latestHeartbeat.find? entity with
    | none =>
      { status := ⟨.notFound, "heartbeat evidence is not present"⟩
        observedCommitEpoch := s.commitEpoch }
    | some _ =>
      match s.latestEvidence? entity with
      | none =>
        { status := ⟨.notFound, "heartbeat evidence has been evicted"⟩
          observedCommitEpoch := s.commitEpoch }
      | some evidence =>
        { status := .success, observedCommitEpoch := s.commitEpoch, evidence := some evidence }

/-- `heartbeatEvidence(evidence_id)`. -/
def readHeartbeatEvidence (s : DataManager L) (evidenceId : ℕ) : EvidenceReadResult :=
  if evidenceId = 0 then
    { status := ⟨.invalidArgument, "heartbeat evidence id must be non-zero"⟩ }
  else if s.catalog.generation = 0 then
    { status := ⟨.notInitialized, "data catalog is not active"⟩
      observedCommitEpoch := s.commitEpoch }
  else
    match s.evidenceById? evidenceId with
    | none =>
      { status := ⟨.notFound, "heartbeat evidence is not present"⟩
        observedCommitEpoch := s.commitEpoch }
    | some evidence =>
      { status := .success, observedCommitEpoch := s.commitEpoch, evidence := some evidence }

theorem checkReadEntity_failed {st : Status}
    (h : s.checkReadEntity subject entity required = some st) : st.ok = false := by
  unfold checkReadEntity at h
  split_ifs at h
  · cases h; rfl
  · cases h; rfl
  · split at h
    · cases h; rfl
    · split_ifs at h
      cases h; rfl

theorem latestHeartbeatEvidence_evidence :
    (s.latestHeartbeatEvidence entity required).evidence = some e ↔
      s.checkReadEntity "heartbeat" entity required = none ∧
        s.latestEvidence? entity = some e := by
  unfold latestHeartbeatEvidence
  cases hc : s.checkReadEntity "heartbeat" entity required with
  | some st => simp
  | none =>
    cases hid : s.latestHeartbeat.find? entity with
    | none => simp [latestEvidence?, hid]
    | some id =>
      cases he : s.latestEvidence? entity with
      | none => simp
      | some l => simp

theorem readHeartbeatEvidence_evidence {id : ℕ}
    (h : (s.readHeartbeatEvidence id).evidence = some e) :
    s.evidenceById? id = some e := by
  unfold readHeartbeatEvidence at h
  split_ifs at h
  cases he : s.evidenceById? id with
  | none => simp [he] at h
  | some found => simpa [he] using h

theorem latestHeartbeatEvidence_failed
    (h : (s.latestHeartbeatEvidence entity required).evidence = none) :
    (s.latestHeartbeatEvidence entity required).status.ok = false := by
  unfold latestHeartbeatEvidence at h ⊢
  cases hc : s.checkReadEntity "heartbeat" entity required with
  | some st => exact checkReadEntity_failed hc
  | none =>
    simp only [hc] at h ⊢
    cases hid : s.latestHeartbeat.find? entity with
    | none => rfl
    | some id =>
      cases he : s.latestEvidence? entity with
      | none => rfl
      | some e => simp [hid, he] at h

end DataManager
end Pdcm
