import Pdcm.Data.EvidenceInvariant

/-!
# Replay of heartbeat evidence

The newer-than check of `commitHeartbeatEvidence` compares with the last VALID
evidence that is still stored. A run is observed together with the list of evidence
it committed, so that an old token can be recognised after its evidence was evicted.
-/

namespace Pdcm

open Library List DataManager FirmwareHeartbeatEvidence

/-- A manager with the evidence committed so far, oldest first, as it was stored. -/
structure EvidenceLog (L : Limits) where
  store : DataManager L
  committed : List FirmwareHeartbeatEvidence

namespace EvidenceLog

variable {L : Limits} {a b c : FirmwareHeartbeatEvidence} {s : DataManager L} {t : EvidenceLog L}
  {e : FirmwareHeartbeatEvidence}

/-- The evidence a call commits. -/
def committedBy (s : DataManager L) : DataOp → List FirmwareHeartbeatEvidence
  | .commitHeartbeatEvidence e =>
    if (s.commitHeartbeatEvidence e).2.committed then
      [e.withId (s.commitHeartbeatEvidence e).2.evidenceId]
    else []
  | _ => []

def step (t : EvidenceLog L) (op : DataOp) : EvidenceLog L where
  store := t.store.apply op
  committed := t.committed ++ committedBy t.store op

def initial (L : Limits) : EvidenceLog L := ⟨DataManager.initial L, []⟩

def run (L : Limits) (ops : List DataOp) : EvidenceLog L := runFrom step (initial L) ops

/-- VALID evidence of the same entity in the same catalog generation. -/
def Comparable (a b : FirmwareHeartbeatEvidence) : Prop :=
  a.entity = b.entity ∧ a.catalogGeneration = b.catalogGeneration ∧ a.status = .valid ∧
    b.status = .valid

/-- Strictly newer in token and in source sample time. -/
def NewerThan (a b : FirmwareHeartbeatEvidence) : Prop :=
  a.sequenceOrToken < b.sequenceOrToken ∧
    ∃ t ∈ a.sourceSampleTimeNs, ∃ t' ∈ b.sourceSampleTimeNs, t < t'

instance (a b : FirmwareHeartbeatEvidence) : Decidable (Comparable a b) :=
  inferInstanceAs (Decidable (_ ∧ _))

instance (a b : FirmwareHeartbeatEvidence) : Decidable (NewerThan a b) :=
  inferInstanceAs (Decidable (_ ∧ _))

/-- Among comparable evidence, whatever is committed later is strictly newer. -/
def ReplayProtected (committed : List FirmwareHeartbeatEvidence) : Prop :=
  committed.Pairwise fun a b => Comparable a b → NewerThan a b

instance (committed : List FirmwareHeartbeatEvidence) : Decidable (ReplayProtected committed) :=
  inferInstanceAs (Decidable (List.Pairwise _ _))

/-- When VALID evidence is offered, the newest VALID evidence committed so far for its
entity in this generation has not been evicted. -/
def Remembers (t : EvidenceLog L) : DataOp → Prop
  | .commitHeartbeatEvidence e => ∀ last ∈ t.committed, Comparable last e →
      (∀ a ∈ t.committed, Comparable a e → a.evidenceId ≤ last.evidenceId) →
      last ∈ t.store.heartbeatEvidence
  | _ => True

instance (t : EvidenceLog L) (op : DataOp) : Decidable (t.Remembers op) := by
  unfold Remembers
  split <;> infer_instance

theorem NewerThan.trans (hab : NewerThan a b) (hbc : NewerThan b c) : NewerThan a c := by
  obtain ⟨hto, t, ht, t', ht', hlt⟩ := hab
  obtain ⟨hto', u, hu, u', hu', hlt'⟩ := hbc
  obtain rfl : t' = u := Option.mem_unique ht' hu
  exact ⟨hto.trans hto', t, ht, u', hu', hlt.trans hlt'⟩

theorem Comparable.trans (hab : Comparable a b) (hbc : Comparable b c) : Comparable a c :=
  ⟨hab.1.trans hbc.1, hab.2.1.trans hbc.2.1, hab.2.2.1, hbc.2.2.2⟩

theorem Comparable.symm (h : Comparable a b) : Comparable b a :=
  ⟨h.1.symm, h.2.1.symm, h.2.2.2, h.2.2.1⟩

/-- What ties the log to the store. -/
structure LogInvariant (t : EvidenceLog L) : Prop where
  store : t.store.EvidenceInvariant
  logged : ∀ e ∈ t.store.heartbeatEvidence, e ∈ t.committed
  assigned : ∀ e ∈ t.committed, e.evidenceId < t.store.nextEvidenceId
  ids : t.committed.Pairwise fun a b => a.evidenceId < b.evidenceId
  replay : ReplayProtected t.committed

theorem LogInvariant.id_injective (h : t.LogInvariant) (ha : a ∈ t.committed) (hb : b ∈ t.committed)
    (hid : a.evidenceId = b.evidenceId) : a = b := by
  have hno : (t.committed.map evidenceId).Nodup :=
    pairwise_map.mpr (h.ids.imp Nat.ne_of_lt)
  exact inj_on_of_nodup_map hno ha hb hid

theorem lastValidEvidence?_of_mem (h : s.EvidenceInvariant) (hc : c ∈ s.heartbeatEvidence)
    (hva : c.status = .valid) :
    ∃ last ∈ s.heartbeatEvidence, s.lastValidEvidence? c.entity = some last ∧
      last.entity = c.entity ∧ last.status = .valid ∧ c.evidenceId ≤ last.evidenceId := by
  unfold lastValidEvidence?
  cases hf : s.heartbeatEvidence.reverse.find? fun cand =>
      decide (cand.entity = c.entity ∧ cand.status = .valid) with
  | none =>
    have := List.find?_eq_none.mp hf c (by simpa using hc)
    simp [hva] at this
  | some last =>
    have hla : last.entity = c.entity ∧ last.status = .valid := by
      simpa using List.find?_some hf
    refine ⟨last, by simpa using mem_of_find?_eq_some hf, rfl, hla.1, hla.2, ?_⟩
    obtain ⟨-, front, back, hsp, hfr⟩ := List.find?_eq_some_iff_append.mp hf
    have hmem : c ∈ front ++ last :: back := by
      rw [← hsp]
      simpa using hc
    rcases mem_append.mp hmem with hin | hin
    · -- the items searched before `last` are not VALID evidence of the entity
      have := hfr c hin
      simp [hva] at this
    · have hids : (front ++ last :: back).Pairwise fun a b => b.evidenceId < a.evidenceId := by
        rw [← hsp, pairwise_reverse]
        exact h.ids
      rcases mem_cons.mp hin with rfl | hin
      · exact le_rfl
      · have hta := (pairwise_append.mp hids).2.1
        exact ((pairwise_cons.mp hta).1 c hin).le

theorem LogInvariant.newerThan (h : t.LogInvariant) (ha : a ∈ t.committed) (hb : b ∈ t.committed)
    (hlt : a.evidenceId < b.evidenceId) (hco : Comparable a b) : NewerThan a b := by
  obtain ⟨i, hi, rfl⟩ := getElem_of_mem ha
  obtain ⟨j, hj, rfl⟩ := getElem_of_mem hb
  rcases lt_trichotomy i j with hij | rfl | hji
  · exact pairwise_iff_getElem.mp h.replay i j hi hj hij hco
  · exact absurd hlt (lt_irrefl _)
  · exact absurd hlt (pairwise_iff_getElem.mp h.ids j i hj hi hji).not_gt

theorem sampleTime_isSome (h : (validateFirmwareHeartbeatEvidence e).ok = true)
    (hva : e.status = .valid) : ∃ t, e.sourceSampleTimeNs = some t :=
  Option.isSome_iff_exists.mp ((validEvidence_of_ok h).2.2.2.2.1 hva).2

/-- The check against the last stored VALID evidence, read as `NewerThan`. -/
theorem newerThan_lastValid (h : s.EvidenceInvariant) {last : FirmwareHeartbeatEvidence}
    {rest : List FirmwareHeartbeatEvidence} (hst : s.EvidenceStored e rest)
    (hva : e.status = .valid) (hlas : s.lastValidEvidence? e.entity = some last)
    (hmem : last ∈ s.heartbeatEvidence) (hla : last.status = .valid) : NewerThan last e := by
  have hne := hst.newer
  unfold notNewer at hne
  push Not at hne
  obtain ⟨hto, hti⟩ := hne hva last hlas
  obtain ⟨t, ht⟩ := sampleTime_isSome (h.evidence last hmem).valid hla
  obtain ⟨t', ht'⟩ := sampleTime_isSome hst.valid hva
  refine ⟨hto, t, ht, t', ht', ?_⟩
  simpa [ht, ht'] using hti

/-- Every comparable evidence of the log is older than a newly stored one, if the
newest of them is still stored. -/
theorem newerThan_of_remembers {t : EvidenceLog L} (h : t.LogInvariant)
    {e : FirmwareHeartbeatEvidence} {rest : List FirmwareHeartbeatEvidence}
    (hst : t.store.EvidenceStored e rest) (hr : t.Remembers (.commitHeartbeatEvidence e))
    {a : FirmwareHeartbeatEvidence} (ha : a ∈ t.committed) (hco : Comparable a e) :
    NewerThan a e := by
  classical
  -- the newest comparable evidence of the log
  obtain ⟨newest, hnewes, hmax⟩ := Finset.exists_max_image
    (t.committed.filter fun x => decide (Comparable x e)).toFinset
    evidenceId ⟨a, by simp [ha, hco]⟩
  simp only [mem_toFinset, mem_filter, decide_eq_true_eq, and_imp] at hnewes hmax
  obtain ⟨hnewe, hne⟩ := hnewes
  have hke := hr newest hnewe hne hmax
  -- it is the one that the reverse search finds
  obtain ⟨last, hlas, hlast, hen, hva, hle⟩ :=
    lastValidEvidence?_of_mem h.store hke hne.2.2.1
  have hlastC : Comparable last e :=
    ⟨hen.trans hne.1,
      (h.store.evidence last hlas).generation.trans hst.generation.symm, hva,
      hco.2.2.2⟩
  have hla := h.logged last hlas
  obtain rfl := h.id_injective hnewe hla (le_antisymm hle (hmax last hla hlastC))
  have hnew : NewerThan newest e := newerThan_lastValid h.store hst hco.2.2.2
    (hne.1 ▸ hlast) hke hva
  rcases eq_or_lt_of_le (hmax a ha hco) with heq | hlt
  · rwa [h.id_injective ha hnewe heq]
  · exact (h.newerThan ha hnewe hlt (hco.trans hne.symm)).trans hnew

theorem committedBy_eq_nil {op : DataOp} (h : ∀ e, op ≠ .commitHeartbeatEvidence e) :
    committedBy s op = [] := by
  cases op with
  | commitHeartbeatEvidence e => exact absurd rfl (h e)
  | activateCatalog _ _ => rfl
  | commit _ => rfl
  | commitHealth _ => rfl
  | publishEvent _ => rfl

/-- Calls other than evidence commits only ever remove stored evidence, and leave the
id counter alone. -/
theorem apply_frame (s : DataManager L) {op : DataOp} (h : ∀ e, op ≠ .commitHeartbeatEvidence e) :
    (s.apply op).nextEvidenceId = s.nextEvidenceId ∧
      ∀ e ∈ (s.apply op).heartbeatEvidence, e ∈ s.heartbeatEvidence := by
  obtain ⟨t, drafts, hout, hs⟩ := s.apply_outcome op
  rw [hs, publishAll_nextEvidenceId, publishAll_heartbeatEvidence]
  cases hout with
  | activated => exact ⟨rfl, List.forall_mem_nil _⟩
  | evidence => exact absurd rfl (h _)
  | _ => exact ⟨rfl, fun _ he => he⟩

theorem step_logInvariant (t : EvidenceLog L) (op : DataOp) (h : t.LogInvariant)
    (hr : t.Remembers op) : (t.step op).LogInvariant := by
  have hst := apply_evidenceInvariant t.store op h.store
  by_cases hop : ∀ e, op ≠ .commitHeartbeatEvidence e
  · obtain ⟨hne, hsu⟩ := apply_frame t.store hop
    have hlog : (t.step op).committed = t.committed := by
      simp [step, committedBy_eq_nil hop]
    refine ⟨hst, ?_, ?_, by rw [hlog]; exact h.ids, by rw [hlog]; exact h.replay⟩
    · intro e he
      rw [hlog]
      exact h.logged e (hsu e he)
    · intro e he
      rw [hlog] at he
      exact (h.assigned e he).trans_eq hne.symm
  · push Not at hop
    obtain ⟨e, rfl⟩ := hop
    unfold step
    simp only [DataManager.apply, committedBy] at hst ⊢
    rcases t.store.commitHeartbeatEvidence_cases e with ⟨hs, hc⟩ | ⟨rest, hsto, hs, hre⟩
    · simp only [hs, hc, Bool.false_eq_true, if_false, append_nil]
      exact h
    · simp only [hs, hre] at hst ⊢
      refine ⟨hst, ?_, ?_, ?_, ?_⟩
      · intro x hx
        rcases mem_append.mp hx with hx | hx
        · exact mem_append_left _ (h.logged x (hsto.sublist.subset hx))
        · exact mem_append_right _ hx
      · intro x hx
        rcases mem_append.mp hx with hx | hx
        · exact Nat.lt_succ_of_lt (h.assigned x hx)
        · rw [mem_singleton.mp hx]
          exact Nat.lt_succ_self _
      · refine pairwise_append.mpr ⟨h.ids, pairwise_singleton _ _, fun a ha b hb => ?_⟩
        rw [mem_singleton.mp hb]
        exact h.assigned a ha
      · refine pairwise_append.mpr
          ⟨h.replay, pairwise_singleton _ _, fun a ha b hb hco => ?_⟩
        rw [mem_singleton.mp hb] at hco ⊢
        exact newerThan_of_remembers h hsto hr ha hco

/-- In every run that offers VALID evidence only while the newest VALID evidence of
the entity is still stored, committed tokens and sample times strictly increase. -/
theorem run_replayProtected (L : Limits) (ops : List DataOp)
    (h : Along step Remembers (initial L) ops) : ReplayProtected (run L ops).committed := by
  have hinitial : (initial L).LogInvariant :=
    ⟨initial_evidenceInvariant L, by simp [initial, DataManager.initial],
      by simp [initial], by simp [initial], by simp [initial, ReplayProtected]⟩
  exact (invariant_along step_logInvariant hinitial h).replay

end EvidenceLog

/-! ### A catalog with one device

Shared by the concrete runs below and in the modules on health. The heartbeat is fresh
for 10 ns and stored evidence lives for 20 ns. -/

namespace OneDevice

def limits : Limits := { evidenceTtlNs := 20, valid := by decide }

def device : EntityRef := ⟨.device, 1, 1⟩

def target : TargetCatalog where
  target := .fpga
  health := [{ providerDataId := some 7, freshnessNs := 10 }]

def view (generation : ℕ) : CatalogView where
  generation := generation
  detectedDeviceCount := 1
  entities := [{ ref := device, state := .ready, target := .fpga }]
  capabilitySets :=
    [{ entity := device, catalogGeneration := generation
       items := [{ kind := .health, id := firmwareHeartbeatHealthId, supported := true,
                   reason := .supported, semanticVersion := 1, catalogGeneration := generation }] }]

/-- A normal heartbeat read at `time`, with `token` as token and as sample time. -/
def normal (token : ℕ) (time : ℤ) : FirmwareHeartbeatEvidence where
  entity := device
  providerDataId := 7
  nativeClass := .normal
  status := .valid
  sequenceOrToken := token
  sourceSampleTimeNs := some token
  observedMonotonicTimeNs := time
  source := { provider := "mock" }
  catalogGeneration := 1

/-- A read that failed at `time`. -/
def failed (time : ℤ) : FirmwareHeartbeatEvidence where
  entity := device
  providerDataId := 7
  status := .error
  observedMonotonicTimeNs := time
  source := { provider := "mock" }
  error := { status := ⟨.timeout, "read timed out"⟩ }
  catalogGeneration := 1

def activate : DataOp := .activateCatalog (some (view 1)) target

end OneDevice

namespace EvidenceLog

open OneDevice

/-- The failed read at 30 expires the VALID evidence of 0, after which its token is
accepted again. -/
theorem replay_after_expiry :
    ¬ReplayProtected (run limits
      [activate, .commitHeartbeatEvidence (normal 5 0), .commitHeartbeatEvidence (failed 30),
        .commitHeartbeatEvidence (normal 5 31)]).committed := by
  decide +kernel

/-- A failed read between two VALID ones, all within the life of the first. -/
def renewal : List DataOp :=
  [activate, .commitHeartbeatEvidence (normal 5 0), .commitHeartbeatEvidence (failed 10),
    .commitHeartbeatEvidence (normal 6 15)]

theorem run_replayProtected_renewal :
    (run limits renewal).committed.length = 3 ∧ ReplayProtected (run limits renewal).committed :=
  ⟨by decide +kernel, run_replayProtected limits renewal (by decide +kernel)⟩

end EvidenceLog
end Pdcm
