import Pdcm.Data.StoreInvariant

/-!
# The evidence and health invariant

Heartbeat evidence is accepted only when the catalog supports it, which needs a
catalog with exactly one entity. Within a generation the stored evidence is therefore
one sequence: ids and observation times increase along it, its last item is what
`latest_heartbeat_` names, and every stored health reference points into it.
-/

namespace Pdcm

open Library List FirmwareHeartbeatEvidence Nat

namespace DataManager

variable {L : Limits} {s : DataManager L} {e : FirmwareHeartbeatEvidence}
  {rest : List FirmwareHeartbeatEvidence} {entity : EntityRef} {r : HealthResult}

/-- One stored evidence against the active catalog. -/
structure EvidenceOk (s : DataManager L) (e : FirmwareHeartbeatEvidence) : Prop where
  valid : (validateFirmwareHeartbeatEvidence e).ok = true
  generation : e.catalogGeneration = s.catalog.generation
  entities : s.catalog.entities = [e.entity]
  positive : 1 ≤ e.evidenceId
  assigned : e.evidenceId < s.nextEvidenceId

/-- One stored health result against the active catalog and the stored evidence. -/
structure HealthOk (s : DataManager L) (entity : EntityRef) (r : HealthResult) : Prop where
  valid : (validateHealthResult r).ok = true
  own : r.entity = entity
  known : entity ∈ s.catalog.entities
  generation : r.catalogGeneration = s.catalog.generation
  references : ∀ ref ∈ r.evidence, ∃ c ∈ s.heartbeatEvidence, refersTo r ref c = true

structure EvidenceInvariant (s : DataManager L) : Prop where
  fresh : 1 ≤ s.nextEvidenceId
  single : s.catalog.heartbeatSupported = true → ∃ entity, s.catalog.entities = [entity]
  evidence : ∀ e ∈ s.heartbeatEvidence, s.EvidenceOk e
  ids : s.heartbeatEvidence.Pairwise fun a b => a.evidenceId < b.evidenceId
  times : s.heartbeatEvidence.Pairwise fun a b =>
    a.observedMonotonicTimeNs < b.observedMonotonicTimeNs
  latest : ∀ entity id, s.latestHeartbeat.find? entity = some id ↔
    ∃ e, s.heartbeatEvidence.getLast? = some e ∧ e.entity = entity ∧ e.evidenceId = id
  health : ∀ entity r, s.health.find? entity = some r → s.HealthOk entity r

namespace EvidenceInvariant

variable {a e : FirmwareHeartbeatEvidence}

theorem id_injective (h : s.EvidenceInvariant) {b : FirmwareHeartbeatEvidence}
    (ha : a ∈ s.heartbeatEvidence) (hb : b ∈ s.heartbeatEvidence)
    (hid : a.evidenceId = b.evidenceId) : a = b := by
  have hno : (s.heartbeatEvidence.map evidenceId).Nodup :=
    pairwise_map.mpr (h.ids.imp ne_of_lt)
  exact inj_on_of_nodup_map hno ha hb hid

theorem evidenceById?_eq (h : s.EvidenceInvariant) (he : e ∈ s.heartbeatEvidence) :
    s.evidenceById? e.evidenceId = some e := by
  unfold evidenceById?
  cases hf : s.heartbeatEvidence.find? fun c => decide (c.evidenceId = e.evidenceId) with
  | none => simpa using List.find?_eq_none.mp hf e he
  | some c =>
    have hid : c.evidenceId = e.evidenceId := by simpa using List.find?_some hf
    rw [h.id_injective (mem_of_find?_eq_some hf) he hid]

theorem mem_of_evidenceById? {id : ℕ} (h : s.evidenceById? id = some e) :
    e ∈ s.heartbeatEvidence ∧ e.evidenceId = id :=
  ⟨mem_of_find?_eq_some h, by simpa using List.find?_some h⟩

theorem latestEvidence?_eq_some (h : s.EvidenceInvariant) :
    s.latestEvidence? entity = some e ↔
      s.heartbeatEvidence.getLast? = some e ∧ e.entity = entity := by
  unfold latestEvidence?
  constructor
  · intro hl
    obtain ⟨id, hid, he⟩ := Option.bind_eq_some_iff.mp hl
    obtain ⟨last, hla, hen, hlas⟩ := (h.latest entity id).mp hid
    obtain ⟨hmem, heid⟩ := mem_of_evidenceById? he
    obtain rfl := h.id_injective hmem (mem_of_getLast? hla) (heid.trans hlas.symm)
    exact ⟨hla, hen⟩
  · rintro ⟨hla, rfl⟩
    rw [(h.latest e.entity e.evidenceId).mpr ⟨e, hla, rfl, rfl⟩]
    exact h.evidenceById?_eq (mem_of_getLast? hla)

theorem id_le_last (h : s.EvidenceInvariant) {last : FirmwareHeartbeatEvidence}
    (ha : a ∈ s.heartbeatEvidence) (hla : s.heartbeatEvidence.getLast? = some last) :
    a.evidenceId ≤ last.evidenceId := by
  obtain ⟨front, hfr⟩ := getLast?_eq_some_iff.mp hla
  have hids := h.ids
  rw [hfr, pairwise_append] at hids
  rw [hfr, mem_append, mem_singleton] at ha
  rcases ha with ha | rfl
  · exact (hids.2.2 a ha last (by simp)).le
  · exact le_rfl

theorem last_of_mem (ha : a ∈ s.heartbeatEvidence) :
    ∃ last, s.heartbeatEvidence.getLast? = some last :=
  ⟨_, getLast?_eq_some_getLast (ne_nil_of_mem ha)⟩

theorem entity_eq (h : s.EvidenceInvariant) (ha : a ∈ s.heartbeatEvidence)
    (hen : entity ∈ s.catalog.entities) : a.entity = entity := by
  rw [(h.evidence a ha).entities, mem_singleton] at hen
  exact hen.symm

/-- A change of the shards, the epoch, the tombstones or the events is irrelevant. -/
theorem of_eq {t : DataManager L} (h : s.EvidenceInvariant) (hcat : t.catalog = s.catalog)
    (hev : t.heartbeatEvidence = s.heartbeatEvidence)
    (hla : t.latestHeartbeat = s.latestHeartbeat) (hhe : t.health = s.health)
    (hne : t.nextEvidenceId = s.nextEvidenceId) : t.EvidenceInvariant := by
  refine ⟨?_, ?_, ?_, ?_, ?_, ?_, ?_⟩
  · rw [hne]
    exact h.fresh
  · rw [hcat]
    exact h.single
  · intro e he
    rw [hev] at he
    obtain ⟨h1, h2, h3, h4, h5⟩ := h.evidence e he
    exact ⟨h1, by rw [hcat, h2], by rw [hcat, h3], h4, by rwa [hne]⟩
  · rw [hev]
    exact h.ids
  · rw [hev]
    exact h.times
  · rw [hev, hla]
    exact h.latest
  · intro entity r hr
    rw [hhe] at hr
    obtain ⟨h1, h2, h3, h4, h5⟩ := h.health entity r hr
    exact ⟨h1, h2, by rwa [hcat], by rw [hcat, h4], by rwa [hev]⟩

end EvidenceInvariant

theorem initial_evidenceInvariant (L : Limits) : (initial L).EvidenceInvariant := by
  constructor <;> simp [initial]

/-- A supported heartbeat needs a view with exactly one entity. -/
theorem ofView_single {view : CatalogView} {target : TargetCatalog}
    (h : (CatalogState.ofView view target).heartbeatSupported = true) :
    ∃ entity, (CatalogState.ofView view target).entities = [entity] := by
  unfold CatalogState.ofView at h ⊢
  cases hv : view.entities with
  | nil => simp [hv] at h
  | cons rec rest =>
    cases rest with
    | nil => exact ⟨rec.ref, rfl⟩
    | cons second rest => simp [hv] at h

theorem EvidenceStored.references (hst : s.EvidenceStored e rest)
    (hr : s.health.find? entity = some r) (hok : s.HealthOk entity r) :
    ∀ ref ∈ r.evidence, ∃ c ∈ rest, refersTo r ref c = true := by
  intro ref href
  obtain ⟨c, hc, hre⟩ := hok.references ref href
  have hid : ref.evidenceId = c.evidenceId := by
    simp only [refersTo, decide_eq_true_eq] at hre
    exact hre.1.symm
  refine ⟨c, hst.referenced c hc ?_, hre⟩
  refine any_eq_true.mpr ⟨(entity, r), OrderedMap.mem_entries_iff.mpr hr, ?_⟩
  exact any_eq_true.mpr ⟨ref, href, by simp [hid]⟩

theorem withEvidence_evidenceInvariant (h : s.EvidenceInvariant) (hst : s.EvidenceStored e rest) :
    (s.withEvidence e rest).EvidenceInvariant := by
  obtain ⟨entity, hsi⟩ := h.single hst.supported
  have hen : s.catalog.entities = [e.entity] := by
    have := hst.entity
    rw [hsi, mem_singleton] at this
    rw [hsi, this]
  have hre : ∀ c ∈ rest, c ∈ s.heartbeatEvidence := fun c hc => hst.sublist.subset hc
  -- every earlier evidence was observed before the latest one, hence before the new one
  have hbe : ∀ c ∈ s.heartbeatEvidence, c.observedMonotonicTimeNs < e.observedMonotonicTimeNs := by
    intro c hc
    obtain ⟨last, hlas⟩ := EvidenceInvariant.last_of_mem hc
    have hla := h.entity_eq (mem_of_getLast? hlas) hst.entity
    have hlt := hst.later last (h.latestEvidence?_eq_some.mpr ⟨hlas, hla⟩)
    obtain ⟨front, hfr⟩ := getLast?_eq_some_iff.mp hlas
    have hti := h.times
    rw [hfr, pairwise_append] at hti
    rw [hfr, mem_append, mem_singleton] at hc
    rcases hc with hc | rfl
    · exact (hti.2.2 c hc last (by simp)).trans hlt
    · exact hlt
  unfold withEvidence
  refine ⟨le_succ_of_le h.fresh, h.single, ?_, ?_, ?_, ?_, ?_⟩
  · intro c hc
    rcases mem_append.mp hc with hc | hc
    · obtain ⟨h1, h2, h3, h4, h5⟩ := h.evidence c (hre c hc)
      exact ⟨h1, h2, h3, h4, lt_succ_of_lt h5⟩
    · rw [mem_singleton.mp hc]
      exact ⟨hst.valid, hst.generation, hen, h.fresh, lt_succ_self _⟩
  · refine pairwise_append.mpr ⟨h.ids.sublist hst.sublist, pairwise_singleton _ _, ?_⟩
    intro a ha b hb
    rw [mem_singleton.mp hb]
    exact (h.evidence a (hre a ha)).assigned
  · refine pairwise_append.mpr ⟨h.times.sublist hst.sublist, pairwise_singleton _ _, ?_⟩
    intro a ha b hb
    rw [mem_singleton.mp hb]
    exact hbe a (hre a ha)
  · intro other id
    rw [OrderedMap.find?_insert]
    by_cases hot : other = e.entity
    · subst hot
      simp [withId]
    · -- no other entity ever had evidence in this generation
      rw [if_neg hot, h.latest]
      constructor
      · rintro ⟨c, hc, rfl, -⟩
        exact absurd (h.entity_eq (mem_of_getLast? hc) hst.entity) hot
      · rintro ⟨c, hc, rfl, -⟩
        simp only [getLast?_append, getLast?_singleton, Option.some_or,
          Option.some.injEq] at hc
        exact absurd (congrArg FirmwareHeartbeatEvidence.entity hc).symm hot
  · intro other r hr
    have hok := h.health other r hr
    refine ⟨hok.valid, hok.own, hok.known, hok.generation, fun ref href => ?_⟩
    obtain ⟨c, hc, hrefe⟩ := hst.references hr hok ref href
    exact ⟨c, mem_append_left _ hc, hrefe⟩

theorem withHealth_evidenceInvariant (h : s.EvidenceInvariant) (hr : s.HealthAccepted r) :
    (s.withHealth r).EvidenceInvariant := by
  refine { h with evidence := ?_, health := ?_ }
  · intro e he
    obtain ⟨h1, h2, h3, h4, h5⟩ := h.evidence e he
    exact ⟨h1, h2, h3, h4, h5⟩
  · intro entity q hq
    simp only [withHealth, OrderedMap.find?_insert] at hq
    split_ifs at hq with hen
    · cases hq
      exact ⟨hr.valid, hen.symm, hen ▸ hr.entity, hr.generation, hr.references⟩
    · obtain ⟨h1, h2, h3, h4, h5⟩ := h.health entity q hq
      exact ⟨h1, h2, h3, h4, h5⟩

theorem DataStep.evidenceInvariant (hst : DataStep s t) (h : s.EvidenceInvariant) :
    t.EvidenceInvariant := by
  obtain ⟨op, hout⟩ := hst.outcome
  cases hout with
  | unchanged => exact h
  | activated => exact ⟨h.fresh, ofView_single, by simp, by simp, by simp, by simp, by simp⟩
  | committed => exact h.of_eq rfl rfl rfl rfl rfl
  | evidence hev => exact withEvidence_evidenceInvariant h hev
  | health hr => exact withHealth_evidenceInvariant h hr
  | published => exact h.of_eq rfl rfl rfl rfl rfl

theorem apply_evidenceInvariant (s : DataManager L) (op : DataOp) (h : s.EvidenceInvariant) :
    (s.apply op).EvidenceInvariant :=
  invariant_apply (fun _ _ hst h => hst.evidenceInvariant h) h op

theorem apply_heartbeatEvidence {op : DataOp} (h : e ∈ (s.apply op).heartbeatEvidence) :
    e ∈ s.heartbeatEvidence ∨
      ∃ ev id, op = .commitHeartbeatEvidence ev ∧ e = ev.withId id := by
  obtain ⟨t, drafts, hout, hs⟩ := s.apply_outcome op
  rw [hs, publishAll_heartbeatEvidence] at h
  cases hout with
  | activated => cases h
  | evidence hst =>
    rcases mem_append.mp h with hre | hnew
    · exact .inl (hst.sublist.subset hre)
    · exact .inr ⟨_, s.nextEvidenceId, rfl, mem_singleton.mp hnew⟩
  | _ => exact .inl h

/-! ### Evidence references never dangle -/

/-- The stored evidence meets the configured limits. -/
def EvidenceWithinLimits (s : DataManager L) : Prop :=
  s.heartbeatEvidence.length ≤ L.maxEvidenceItems ∧
    evidenceBytes s.heartbeatEvidence ≤ L.maxEvidenceBytes

theorem storeEvidence_withinLimits (h : s.EvidenceWithinLimits) (e : FirmwareHeartbeatEvidence) :
    (s.storeEvidence e).1.EvidenceWithinLimits := by
  unfold storeEvidence
  cases hst : s.stageEvidence (e.withId s.nextEvidenceId) with
  | none => exact h
  | some staged => exact (stageEvidence_some hst).2

theorem commitHeartbeatEvidence_withinLimits (h : s.EvidenceWithinLimits)
    (e : FirmwareHeartbeatEvidence) : (s.commitHeartbeatEvidence e).1.EvidenceWithinLimits := by
  rcases s.commitHeartbeatEvidence_eq e with ⟨heq, -⟩ | ⟨-, hs, -⟩
  · rw [heq]
    exact storeEvidence_withinLimits h e
  · rwa [hs]

theorem DataStep.withinLimits (hstep : DataStep s t) (h : s.EvidenceWithinLimits) :
    t.EvidenceWithinLimits := by
  cases hstep with
  | unchanged => exact h
  | activated cat target =>
    rcases s.activateCatalogLocked_cases cat target with hs | ⟨view, -, -, -, -, hs⟩
    · rwa [hs]
    · rw [hs]
      exact ⟨zero_le _, zero_le _⟩
  | committed obs =>
    rcases s.commitLocked_cases obs with ⟨-, hs, -⟩ | ⟨-, shards, -, hs, -⟩
    · rwa [hs]
    · rw [hs]
      exact h
  | evidence e => exact commitHeartbeatEvidence_withinLimits h e
  | health r =>
    rcases s.commitHealthLocked_cases r with ⟨-, hs, -⟩ | ⟨-, -, hs⟩
    · rwa [hs]
    · rw [hs]
      exact h
  | published draft => exact h

/-- The evidence says what the latest stored evidence of its entity says already. -/
def RepeatsLatest (s : DataManager L) (e : FirmwareHeartbeatEvidence) : Prop :=
  ∃ latest, s.latestEvidence? e.entity = some latest ∧ sameHeartbeatEvidence latest e = true

/-- Nothing the store holds refers to evidence it does not hold, the evidence stays within
its limits, and a commit that stores nothing changes nothing. -/
structure EvidenceRetained (s : DataManager L) : Prop where
  ids : s.heartbeatEvidence.Pairwise fun a b => a.evidenceId < b.evidenceId
  withinLimits : s.EvidenceWithinLimits
  references : ∀ entity r, s.health.find? entity = some r →
    ∀ ref ∈ r.evidence, ∃ c ∈ s.heartbeatEvidence, refersTo r ref c = true
  latest_stored : ∀ entity id, s.latestHeartbeat.find? entity = some id →
    ∃ e ∈ s.heartbeatEvidence, e.entity = entity ∧ e.evidenceId = id
  never_evicted : ∀ entity required, (s.latestHeartbeatEvidence entity required).status ≠
    ⟨.notFound, "heartbeat evidence has been evicted"⟩
  rejected : ∀ e, (s.commitHeartbeatEvidence e).2.status.ok = false →
    (s.commitHeartbeatEvidence e).1 = s
  repeated : ∀ e, s.RepeatsLatest e → (s.commitHeartbeatEvidence e).1 = s

theorem commitHeartbeatEvidence_of_rejected
    (h : (s.commitHeartbeatEvidence e).2.status.ok = false) :
    (s.commitHeartbeatEvidence e).1 = s := by
  rcases s.commitHeartbeatEvidence_cases e with ⟨hs, -⟩ | ⟨rest, -, -, hre⟩
  · exact hs
  · rw [hre] at h
    have hok : Status.success.ok = true := rfl
    exact absurd (hok.symm.trans h) (by decide)

theorem commitHeartbeatEvidence_of_repeatsLatest (h : s.RepeatsLatest e) :
    (s.commitHeartbeatEvidence e).1 = s := by
  obtain ⟨l, hla, hsa⟩ := h
  unfold commitHeartbeatEvidence
  cases s.checkEvidence e with
  | some st => rfl
  | none => simp only [hla, hsa, if_true]

theorem EvidenceInvariant.never_evicted (h : s.EvidenceInvariant) (entity : EntityRef)
    (need : ℕ) : (s.latestHeartbeatEvidence entity need).status ≠
      ⟨.notFound, "heartbeat evidence has been evicted"⟩ := by
  unfold latestHeartbeatEvidence
  cases hch : s.checkReadEntity "heartbeat" entity need with
  | some st =>
    -- these failures speak of the query, not of evidence
    change st ≠ _
    unfold checkReadEntity at hch
    split_ifs at hch
    · cases hch; decide
    · cases hch; decide
    · split at hch
      · cases hch; decide
      · split_ifs at hch
        cases hch; decide
  | none =>
    cases hid : s.latestHeartbeat.find? entity with
    | none =>
      dsimp only
      decide
    | some id =>
      -- the id that the map names belongs to the last stored evidence
      obtain ⟨last, hla, hen, -⟩ := (h.latest entity id).mp hid
      rw [h.latestEvidence?_eq_some.mpr ⟨hla, hen⟩]
      dsimp only
      decide

theorem run_evidenceRetained (L : Limits) (ops : List DataOp) : (run L ops).EvidenceRetained := by
  have hinv := invariant_run apply_evidenceInvariant (initial_evidenceInvariant L) ops
  have hlimits := invariant_run (I := EvidenceWithinLimits)
    (fun _ op h => invariant_apply (fun _ _ => DataStep.withinLimits) h op)
    (⟨zero_le _, zero_le _⟩ : (initial L).EvidenceWithinLimits) ops
  refine
    { ids := hinv.ids
      withinLimits := hlimits
      references := fun entity r hr => (hinv.health entity r hr).references
      latest_stored := ?_
      never_evicted := hinv.never_evicted
      rejected := fun e => commitHeartbeatEvidence_of_rejected
      repeated := fun e => commitHeartbeatEvidence_of_repeatsLatest }
  intro entity id hid
  obtain ⟨last, hlast, hentity, hlastId⟩ := (hinv.latest entity id).mp hid
  exact ⟨last, mem_of_getLast? hlast, hentity, hlastId⟩

/-! ### Room for new evidence -/

/-- The stored evidence that stored health refers to. -/
def referencedEvidence (s : DataManager L) : List FirmwareHeartbeatEvidence :=
  s.heartbeatEvidence.filter fun c => isReferenced s.health c.evidenceId

/-- The evidence fits beside what stored health refers to. -/
def EvidenceFits (s : DataManager L) (e : FirmwareHeartbeatEvidence) : Prop :=
  s.referencedEvidence.length < L.maxEvidenceItems ∧
    evidenceBytes s.referencedEvidence + heartbeatEvidenceBytes e ≤ L.maxEvidenceBytes

/-- Everything else makes room. -/
theorem stageEvidence_eq_none_iff (h : s.EvidenceInvariant)
    (hid : e.evidenceId = s.nextEvidenceId) :
    s.stageEvidence e = none ↔ ¬s.EvidenceFits e := by
  have hev : Evicted L (s.evictable e) _ (s.stageEvidence e) := evictEvidence_evicted le_rfl
  have hke : ((s.heartbeatEvidence ++ [e]).filter fun c => !s.expired e c).filter
      (fun c => !s.evictable e c) = s.referencedEvidence ++ [e] := by
    rw [filter_filter, filter_append, referencedEvidence]
    congr 1
    · refine filter_congr fun c hc => ?_
      have hne : c.evidenceId ≠ e.evidenceId := hid ▸ (h.evidence c hc).assigned.ne
      cases hre : isReferenced s.health c.evidenceId <;> simp [evictable, expired, hre, hne]
    · simp [evictable, expired]
  have hfit : s.EvidenceFits e ↔ (s.referencedEvidence ++ [e]).length ≤ L.maxEvidenceItems ∧
      evidenceBytes (s.referencedEvidence ++ [e]) ≤ L.maxEvidenceBytes := by
    simp [EvidenceFits, evidenceBytes]
  rw [hfit, not_and_or, not_le, not_le]
  generalize s.stageEvidence e = result at hev ⊢
  cases hev with
  | exhausted hli => exact ⟨fun _ => hke ▸ hli, fun _ => rfl⟩
  | kept hsu hfi hwi =>
    have hsub : (s.referencedEvidence ++ [e]).Sublist _ := hke ▸ hfi ▸ filter_sublist
    have hby := (hsub.map heartbeatEvidenceBytes).sum_le_sum fun _ _ => zero_le _
    have hle := hsub.length_le
    simp only [evidenceBytes] at hwi ⊢
    simp only [reduceCtorEq, false_iff]
    omega

/-- Valid evidence finds no room exactly if it is new and does not fit. -/
theorem commitHeartbeatEvidence_exhausted_iff (h : s.EvidenceInvariant)
    (hva : (validateFirmwareHeartbeatEvidence e).ok = true) :
    (s.commitHeartbeatEvidence e).2.status.code = .resourceExhausted ↔
      s.NewEvidence e ∧ ¬s.EvidenceFits e := by
  rcases s.commitHeartbeatEvidence_eq e with ⟨heq, hnew⟩ | ⟨hold, -, -, hne⟩
  · have hfit : s.EvidenceFits (e.withId s.nextEvidenceId) ↔ s.EvidenceFits e := Iff.rfl
    rw [heq, storeEvidence, ← hfit, ← stageEvidence_eq_none_iff h rfl]
    cases s.stageEvidence (e.withId s.nextEvidenceId) with
    | none => simp [hnew]
    | some staged => simp
  · simp [hne hva, hold]

theorem DataStep.forward (hst : DataStep s t) :
    s.catalog.generation ≤ t.catalog.generation ∧ s.commitEpoch ≤ t.commitEpoch := by
  obtain ⟨op, hout⟩ := hst.outcome
  cases hout with
  | unchanged => exact ⟨le_rfl, le_rfl⟩
  | activated _ hlt => exact ⟨hlt.le, le_rfl⟩
  | committed => exact ⟨le_rfl, le_succ _⟩
  | evidence => exact ⟨le_rfl, le_succ _⟩
  | health => exact ⟨le_rfl, le_succ _⟩
  | published => exact ⟨le_rfl, le_rfl⟩

end DataManager
end Pdcm
