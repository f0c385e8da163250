import Pdcm.Metrics.HealthQuery

/-!
# The order of stored health results

A run is observed together with every health result that was stored in one of its
states. Provider losses and freshness ticks always refer to the latest evidence; an
evaluation refers to whatever id it is called with, so a late or repeated call can
move stored health back.
-/

namespace Pdcm

open Library List DataManager

/-- A metrics manager with the health results stored so far, oldest first. -/
structure HealthTrace (L : Limits) where
  manager : MetricsManager L
  history : List HealthResult

namespace DataManager

variable {L : Limits} {s : DataManager L}

/-- Either a newer generation, or the last stored evidence has at least the old id. -/
def EvidenceGrows (s t : DataManager L) : Prop :=
  s.catalog.generation < t.catalog.generation ∨
    (t.catalog.generation = s.catalog.generation ∧
      ∀ last, s.heartbeatEvidence.getLast? = some last →
        ∃ last', t.heartbeatEvidence.getLast? = some last' ∧ last.evidenceId ≤ last'.evidenceId)

theorem EvidenceGrows.of_eq {t : DataManager L} (hcat : t.catalog = s.catalog)
    (hev : t.heartbeatEvidence = s.heartbeatEvidence) : s.EvidenceGrows t :=
  Or.inr ⟨by rw [hcat], fun last hla => ⟨last, by rwa [hev], le_rfl⟩⟩

/-- Direct calls of the data manager other than `commitHealth` keep the stored health or
drop it with its generation. -/
theorem apply_health (s : DataManager L) {op : DataOp} (hop : ∀ r, op ≠ .commitHealth r) :
    (s.apply op).catalog = s.catalog ∧ (s.apply op).health = s.health ∨
      s.catalog.generation < (s.apply op).catalog.generation ∧ (s.apply op).health = .empty := by
  obtain ⟨t, drafts, hout, hs⟩ := s.apply_outcome op
  rw [hs, publishAll_catalog, publishAll_health]
  cases hout with
  | activated hva hlt => exact .inr ⟨hlt, rfl⟩
  | health => exact absurd rfl (hop _)
  | _ => exact .inl ⟨rfl, rfl⟩

/-- Within a generation, direct calls only add evidence. -/
theorem apply_evidenceGrows (h : s.EvidenceInvariant) {op : DataOp}
    (hop : ∀ r, op ≠ .commitHealth r) : s.EvidenceGrows (s.apply op) := by
  obtain ⟨t, drafts, hout, hs⟩ := s.apply_outcome op
  rw [hs, EvidenceGrows, publishAll_catalog, publishAll_heartbeatEvidence]
  cases hout with
  | activated hva hlt => exact .inl hlt
  | evidence hst =>
    refine .inr ⟨rfl, fun last hla => ⟨_, getLast?_concat, ?_⟩⟩
    exact (h.evidence last (mem_of_getLast? hla)).assigned.le
  | health => exact absurd rfl (hop _)
  | _ => exact EvidenceGrows.of_eq rfl rfl

end DataManager

namespace HealthTrace

variable {L : Limits} {entity : EntityRef} {r : HealthResult} {t : HealthTrace L} {op : MetricsOp}
  {s : DataManager L} {new : HealthResult}

def step (t : HealthTrace L) (op : MetricsOp) : HealthTrace L where
  manager := t.manager.apply op
  history := t.history ++ (t.manager.apply op).data.health.entries.map Prod.snd

def initial (L : Limits) (processors : List (Option MetricProcessor)) : HealthTrace L :=
  ⟨MetricsManager.initial L processors, []⟩

/-- Two results about the same entity in the same catalog generation. -/
def SameSubject (a b : HealthResult) : Prop :=
  a.entity = b.entity ∧ a.catalogGeneration = b.catalogGeneration

instance (a b : HealthResult) : Decidable (SameSubject a b) :=
  inferInstanceAs (Decidable (_ ∧ _))

/-- The evidence ids of every earlier result are at most, or strictly below, those of
`new`. -/
def After (history : List HealthResult) (strict : Prop) (new : HealthResult) : Prop :=
  ∀ h ∈ history, SameSubject h new → ∀ old ∈ h.evidence, ∀ ref ∈ new.evidence,
    old.evidenceId ≤ ref.evidenceId ∧ (strict → old.evidenceId < ref.evidenceId)

instance (history : List HealthResult) (strict : Prop) [Decidable strict] (new : HealthResult) :
    Decidable (After history strict new) :=
  inferInstanceAs (Decidable (∀ h ∈ history, _))

/-- The stored health of an entity is UNKNOWN. -/
def StoredUnknown (m : MetricsManager L) (entity : EntityRef) : Prop :=
  (m.data.health.find? entity).map HealthResult.state = some .unknown

instance (m : MetricsManager L) (entity : EntityRef) : Decidable (StoredUnknown m entity) :=
  inferInstanceAs (Decidable (_ = _))

/-- After the call, stored health refers to no older evidence than any result before,
and if the call turned UNKNOWN into a determinate state, to strictly newer evidence. -/
def MovesForward (t : HealthTrace L) (op : MetricsOp) : Prop :=
  ∀ entity new, (t.manager.apply op).data.health.find? entity = some new →
    (new.state ≠ .unknown → new.evidence ≠ []) ∧
    After t.history (StoredUnknown t.manager entity ∧ new.state ≠ .unknown) new

instance (t : HealthTrace L) (op : MetricsOp) : Decidable (t.MovesForward op) :=
  decidable_of_iff
    (∀ b ∈ (t.manager.apply op).data.health.entries,
      (b.2.state ≠ .unknown → b.2.evidence ≠ []) ∧
      After t.history (StoredUnknown t.manager b.1 ∧ b.2.state ≠ .unknown) b.2)
    (by
      simp only [MovesForward, ← OrderedMap.mem_entries_iff]
      exact ⟨fun h entity new hnew => h (entity, new) hnew, fun h b hb => h b.1 b.2 hb⟩)

/-- Stored health is written by the metrics manager only, and evaluations come in
order: the id is not below an id that a stored result of the generation refers to, and
above all of them while the stored health is UNKNOWN. -/
def InOrder (t : HealthTrace L) : MetricsOp → Prop
  | .onHeartbeatEvidenceCommitted id _ => ∀ h ∈ t.history,
      h.catalogGeneration = t.manager.runtime.catalogGeneration → ∀ ref ∈ h.evidence,
        ref.evidenceId ≤ id ∧
        ((∃ entity ∈ MetricsManager.activeEntity t.manager.runtime,
          StoredUnknown t.manager entity) → ref.evidenceId < id)
  | .data (.commitHealth _) => False
  | _ => True

instance (t : HealthTrace L) (op : MetricsOp) : Decidable (t.InOrder op) := by
  unfold InOrder
  split <;> infer_instance

structure HistoryInvariant (t : HealthTrace L) : Prop where
  store : t.manager.data.EvidenceInvariant
  past : ∀ h ∈ t.history, h.catalogGeneration ≤ t.manager.data.catalog.generation
  bounded : ∀ h ∈ t.history, h.catalogGeneration = t.manager.data.catalog.generation →
    ∀ ref ∈ h.evidence, ∃ last, t.manager.data.heartbeatEvidence.getLast? = some last ∧
      ref.evidenceId ≤ last.evidenceId
  single : ∀ entity new, t.manager.data.health.find? entity = some new →
    new.evidence.length ≤ 1
  current : ∀ entity new, t.manager.data.health.find? entity = some new →
    After t.history False new

/-- A stored result refers to nothing beyond the last stored evidence. -/
theorem stored_bounded (h : s.EvidenceInvariant) (hr : s.health.find? entity = some r)
    {ref : EvidenceRef} (href : ref ∈ r.evidence) :
    ∃ last, s.heartbeatEvidence.getLast? = some last ∧ ref.evidenceId ≤ last.evidenceId := by
  obtain ⟨c, hc, hre⟩ := (h.health entity r hr).references ref href
  obtain ⟨last, hla⟩ := DataManager.EvidenceInvariant.last_of_mem hc
  have hid : c.evidenceId = ref.evidenceId := by
    simp only [refersTo, decide_eq_true_eq] at hre
    exact hre.1
  exact ⟨last, hla, hid ▸ h.id_le_last hc hla⟩

theorem after_of_origin (h : t.HistoryInvariant) (hop : t.InOrder op)
    (hor : t.manager.Origin op r) (hacc : t.manager.data.HealthAccepted r) :
    After t.history (StoredUnknown t.manager r.entity ∧ r.state ≠ .unknown) r := by
  intro x hx hsa old hold ref href
  cases hor with
  | blank hun hev => simp [hev] at href
  | latest hun hla hev =>
    rw [hev, mem_singleton] at href
    subst href
    refine ⟨?_, fun hs => absurd hun hs.2⟩
    obtain ⟨last, hlas, hle⟩ := h.bounded x hx (hsa.2.trans hacc.generation) old hold
    obtain ⟨hla', -⟩ := h.store.latestEvidence?_eq_some.mp hla
    rw [hlas, Option.some.injEq] at hla'
    exact hla' ▸ hle
  | evaluated hac hgen hst hev =>
    rw [hev, mem_singleton] at href
    subst href
    have hid := (DataManager.EvidenceInvariant.mem_of_evidenceById? hst).2
    obtain ⟨hle, hlt⟩ := hop x hx (hsa.2.trans hgen) old hold
    simp only [evidenceReference, hid]
    exact ⟨hle, fun hs => hlt ⟨r.entity, hac, hs.1⟩⟩

/-- A call in order is one of the metrics manager, or of the data manager but not a commit
of health. -/
theorem direct_of_inOrder (hop : t.InOrder op) :
    (∀ d, op ≠ .data d) ∨ ∃ d, op = .data d ∧ ∀ r, d ≠ .commitHealth r := by
  by_cases hdi : ∀ d, op ≠ .data d
  · exact .inl hdi
  · push Not at hdi
    obtain ⟨d, rfl⟩ := hdi
    refine .inr ⟨d, rfl, ?_⟩
    rintro r rfl
    exact hop

theorem stored_after (hop : t.InOrder op)
    (hnew : (t.manager.apply op).data.health.find? entity = some new) :
    t.manager.data.health.find? entity = some new ∨
      (entity = new.entity ∧ t.manager.Origin op new ∧ t.manager.data.HealthAccepted new) := by
  rcases direct_of_inOrder hop with hdi | ⟨d, rfl, hd⟩
  · have hst := t.manager.apply_data hdi
    generalize (t.manager.apply op).data = s at hst hnew
    cases hst with
    | unchanged => exact .inl hnew
    | @committed r hor =>
      rcases t.manager.data.commitHealth_cases r with ⟨-, hs⟩ | ⟨hr, -, drafts, hs⟩
      · exact .inl (hs ▸ hnew)
      · rw [hs, publishAll_health, withHealth,
          OrderedMap.find?_insert] at hnew
        split_ifs at hnew with hen
        · cases hnew
          exact .inr ⟨hen, hor, hr⟩
        · exact .inl hnew
  · rcases t.manager.data.apply_health hd with ⟨-, hs⟩ | ⟨-, hs⟩
    · exact .inl (hs ▸ hnew)
    · simp only [MetricsManager.apply, hs] at hnew
      cases hnew

theorem movesForward_of_inOrder (t : HealthTrace L) (op : MetricsOp) (h : t.HistoryInvariant)
    (hop : t.InOrder op) : t.MovesForward op := by
  intro entity new hnew
  have hnext := t.manager.apply_evidenceInvariant op h.store
  refine ⟨evidence_ne_nil_of_ok (hnext.health entity new hnew).valid, ?_⟩
  rcases stored_after hop hnew with hbe | ⟨rfl, hor, hacc⟩
  · intro x hx hsa old hold ref href
    refine ⟨(h.current entity new hbe x hx hsa old hold ref href).1, ?_⟩
    rintro ⟨hun, hd⟩
    rw [StoredUnknown, hbe] at hun
    exact absurd (Option.some.inj hun) hd
  · exact after_of_origin h hop hor hacc

theorem apply_evidenceGrows (t : HealthTrace L) (op : MetricsOp) (h : t.HistoryInvariant)
    (hop : t.InOrder op) : t.manager.data.EvidenceGrows (t.manager.apply op).data := by
  rcases direct_of_inOrder hop with hdi | ⟨d, rfl, hd⟩
  · have hst := t.manager.apply_data hdi
    generalize (t.manager.apply op).data = s at hst
    cases hst with
    | unchanged => exact .of_eq rfl rfl
    | committed =>
      obtain ⟨he, -, hc⟩ := MetricsManager.commitHealth_evidence t.manager.data _
      exact .of_eq hc he
  · exact DataManager.apply_evidenceGrows h.store hd

theorem mem_stored {m : OrderedMap EntityRef HealthResult} :
    r ∈ m.entries.map Prod.snd ↔ ∃ entity, m.find? entity = some r := by
  simp only [mem_map, ← OrderedMap.mem_entries_iff]
  constructor
  · rintro ⟨⟨entity, r⟩, h, rfl⟩
    exact ⟨entity, h⟩
  · rintro ⟨entity, h⟩
    exact ⟨(entity, r), h, rfl⟩

theorem step_historyInvariant (t : HealthTrace L) (op : MetricsOp) (h : t.HistoryInvariant)
    (hop : t.InOrder op) : (t.step op).HistoryInvariant := by
  have hst := t.manager.apply_evidenceInvariant op h.store
  have hfo := movesForward_of_inOrder t op h hop
  have hgr := apply_evidenceGrows t op h hop
  have hsi : ∀ entity new, (t.step op).manager.data.health.find? entity = some new →
      new.evidence.length ≤ 1 := by
    intro entity new hnew
    rcases stored_after hop hnew with hbe | ⟨-, hor, -⟩
    · exact h.single entity new hbe
    · exact hor.single
  refine ⟨hst, ?_, ?_, hsi, ?_⟩
  · intro x hx
    rcases mem_append.mp hx with hx | hx
    · have := h.past x hx
      rcases hgr with hlt | ⟨heq, -⟩
      · exact this.trans hlt.le
      · exact this.trans heq.ge
    · obtain ⟨entity, hen⟩ := mem_stored.mp hx
      exact (hst.health entity x hen).generation.le
  · intro x hx hgen ref href
    rcases mem_append.mp hx with hx | hx
    · rcases hgr with hlt | ⟨heq, hla⟩
      · exact absurd hgen ((h.past x hx).trans_lt hlt).ne
      · obtain ⟨last, hl, hle⟩ := h.bounded x hx (hgen.trans heq) ref href
        obtain ⟨last', hl', hle'⟩ := hla last hl
        exact ⟨last', hl', hle.trans hle'⟩
    · obtain ⟨entity, hen⟩ := mem_stored.mp hx
      exact stored_bounded hst hen href
  · intro entity new hnew x hx hsa old hold ref href
    refine ⟨?_, False.elim⟩
    rcases mem_append.mp hx with hx | hx
    · exact ((hfo entity new hnew).2 x hx hsa old hold ref href).1
    · -- `x` is the result now stored for the same entity, and it has one reference
      obtain ⟨other, hot⟩ := mem_stored.mp hx
      have hen : other = entity := by
        rw [← (hst.health other x hot).own, ← (hst.health entity new hnew).own]
        exact hsa.1
      subst hen
      obtain rfl : x = new := Option.some.inj (hot.symm.trans hnew)
      obtain ⟨only, hon⟩ := length_eq_one_iff.mp
        (le_antisymm (hsi other x hot) (length_pos_of_mem hold))
      rw [hon, mem_singleton] at hold href
      rw [hold, href]

/-- In every run with evaluations in order, no call moves stored health back. -/
theorem run_movesForward (L : Limits) (processors : List (Option MetricProcessor))
    (ops : List MetricsOp) (h : Along step InOrder (initial L processors) ops) :
    Along step MovesForward (initial L processors) ops := by
  have hinitial : (initial L processors).HistoryInvariant := by
    refine ⟨initial_evidenceInvariant L, ?_, ?_, ?_, ?_⟩
    all_goals simp [initial, MetricsManager.initial, DataManager.initial]
  exact law_along step_historyInvariant movesForward_of_inOrder hinitial h

section Concrete

open OneDevice

/-- Two heartbeats, the newer one evaluated first. -/
def lateRun : List MetricsOp :=
  MetricsManager.sampled (normal 1 0) ++ [.data (.commitHeartbeatEvidence (normal 2 1)),
    .onHeartbeatEvidenceCommitted 2 1, .onHeartbeatEvidenceCommitted 1 2]

/-- One heartbeat, evaluated again after the provider was lost. -/
def repeatedRun : List MetricsOp :=
  MetricsManager.healthyRun ++ [.onProviderStateChanged .unavailable 1,
    .onHeartbeatEvidenceCommitted 1 2]

/-- The late evaluation of evidence 1 replaces the stored result on evidence 2, and the
repeated one recovers from the provider loss without new evidence. -/
theorem lateRun_movesBack : ¬Along step MovesForward (initial limits []) lateRun ∧
    ¬Along step MovesForward (initial limits []) repeatedRun := by
  decide +kernel

/-- Two heartbeats evaluated in order, with a provider loss in between. -/
def orderedRun : List MetricsOp :=
  MetricsManager.sampled (normal 1 0) ++ [.onHeartbeatEvidenceCommitted 1 1,
    .onProviderStateChanged .unavailable 2, .data (.commitHeartbeatEvidence (normal 2 3)),
    .onHeartbeatEvidenceCommitted 2 4, .runFreshnessOnce 20]

theorem run_movesForward_orderedRun :
    (runFrom step (initial limits []) orderedRun).history.length = 7 ∧
      Along step MovesForward (initial limits []) orderedRun :=
  ⟨by decide +kernel, run_movesForward limits [] orderedRun (by decide +kernel)⟩

end Concrete

end HealthTrace

/-! ### Freshness ticks -/

namespace MetricsManager

variable {L : Limits} {m : MetricsManager L}

/-- Determinate stored health of the active entity rests on evidence observed at most
the catalog's freshness before `now`. -/
def StoredFresh (m : MetricsManager L) (now : ℤ) : Prop :=
  ∀ entity ∈ activeEntity m.runtime, ∀ stored ∈ m.data.health.find? entity,
    stored.state ≠ .unknown → ∀ ref ∈ stored.evidence,
      now - ref.observedMonotonicTimeNs ≤ m.runtime.heartbeat.freshnessNs

instance (m : MetricsManager L) (now : ℤ) : Decidable (m.StoredFresh now) :=
  inferInstanceAs (Decidable (∀ entity ∈ activeEntity m.runtime, _))

/-- `now` lies after the freshness of an evidence that determinate stored health refers
to, but not after the freshness of the latest evidence. -/
def BetweenEvidence (m : MetricsManager L) (now : ℤ) : Prop :=
  ∃ entity ∈ activeEntity m.runtime, ∃ stored ∈ m.data.health.find? entity,
    ∃ e ∈ m.data.latestEvidence? entity, stored.state ≠ .unknown ∧
      now ≤ e.observedMonotonicTimeNs + m.runtime.heartbeat.freshnessNs ∧
      ∃ ref ∈ stored.evidence, ref.observedMonotonicTimeNs + m.runtime.heartbeat.freshnessNs < now

instance (m : MetricsManager L) (now : ℤ) : Decidable (m.BetweenEvidence now) :=
  inferInstanceAs (Decidable (∃ entity ∈ activeEntity m.runtime, _))

theorem commitHealth_stored {r : HealthResult} {entity : EntityRef}
    (hok : (m.commitHealth r).2.ok = true) (hen : r.entity = entity) :
    (m.commitHealth r).1.data.health.find? entity = some r := by
  unfold MetricsManager.commitHealth at hok ⊢
  rcases m.data.commitHealth_cases r with ⟨hfa, -⟩ | ⟨-, -, drafts, hs⟩
  · simp [hfa] at hok
  · simp [hs, withHealth, hen]

/-- The two ways a tick succeeds: it changes nothing, because stored health is UNKNOWN
or the latest evidence is fresh, or it stores UNKNOWN because the latest evidence is
too old. -/
theorem runFreshnessOnce_ok {now : ℤ} (hinv : m.data.EvidenceInvariant)
    (hok : (m.runFreshnessOnce now).2.ok = true) :
    ∃ entity stored, activeEntity m.runtime = some entity ∧
      m.data.health.find? entity = some stored ∧
      ((stored.state = .unknown ∧ (m.runFreshnessOnce now).1 = m) ∨
       ∃ e, m.data.latestEvidence? entity = some e ∧
        ((now - e.observedMonotonicTimeNs ≤ m.runtime.heartbeat.freshnessNs ∧
            (m.runFreshnessOnce now).1 = m) ∨
          (m.runtime.heartbeat.freshnessNs < now - e.observedMonotonicTimeNs ∧
            ∃ r, r.state = .unknown ∧
              (m.runFreshnessOnce now).1.data.health.find? entity = some r))) := by
  unfold runFreshnessOnce at hok ⊢
  cases ha : activeEntity m.runtime with
  | none => simp [ha, notActive] at hok
  | some entity =>
    simp only [ha] at hok ⊢
    split_ifs at hok ⊢ with hneg
    · simp at hok
    · rcases m.data.readHealth_result entity m.runtime.catalogGeneration with
        ⟨hno, hfa⟩ | ⟨stored, hre, hst⟩
      · simp [hno, hfa] at hok
      · simp only [hre] at hok ⊢
        refine ⟨entity, stored, rfl, hst, ?_⟩
        split_ifs at hok ⊢ with hun
        · left
          cases hs : stored.state <;> simp_all [isDeterminateHealth]
        · right
          cases hl : (m.data.latestHeartbeatEvidence entity
              m.runtime.catalogGeneration).evidence with
          | none =>
            have := latestHeartbeatEvidence_failed hl
            simp [hl, this] at hok
          | some e =>
            simp only [hl] at hok ⊢
            have hla := (latestHeartbeatEvidence_evidence.mp hl).2
            refine ⟨e, hla, ?_⟩
            by_cases hba : now < e.observedMonotonicTimeNs
            · simp [hba] at hok
            have hca := toUint64_of_nonneg (sub_nonneg.mpr (not_lt.mp hba))
            by_cases hfr :
                toUint64 (now - e.observedMonotonicTimeNs) ≤ m.runtime.heartbeat.freshnessNs
            · simp only [if_neg hba, if_pos hfr]
              exact .inl ⟨by omega, trivial⟩
            · simp only [if_neg hba, if_neg hfr] at hok ⊢
              refine .inr ⟨by omega, m.runtime.evaluate e now m.runtime.heartbeat.freshnessNs,
                evaluate_expired hfr, ?_⟩
              exact commitHealth_stored hok ((m.runtime.evaluate_fields e now _).1.trans
                (hinv.latestEvidence?_eq_some.mp hla).2)

/-- Every successful tick leaves determinate stored health on fresh evidence only,
exactly when it does not fall between the two ends of freshness. -/
theorem storedFresh_after_tick_iff (L : Limits) (processors : List (Option MetricProcessor))
    (ops : List MetricsOp) (now : ℤ)
    (hok : ((run L processors ops).runFreshnessOnce now).2.ok = true) :
    ((run L processors ops).runFreshnessOnce now).1.StoredFresh now ↔
      ¬(run L processors ops).BetweenEvidence now := by
  have hinv := run_evidenceInvariant L processors ops
  generalize run L processors ops = m at hinv hok ⊢
  obtain ⟨entity, stored, hactive, hstored, hcases⟩ := runFreshnessOnce_ok hinv hok
  have hruntime := m.runFreshnessOnce_runtime now
  rcases hcases with ⟨hunknown, hsame⟩ | ⟨e, hlatest, ⟨hfresh, hsame⟩ | ⟨hexpired, r, hr, hafter⟩⟩
  · rw [hsame]
    constructor
    · rintro - ⟨other, hother, stored', hstored', e, -, hd, -⟩
      obtain rfl : entity = other := Option.some.inj (hactive.symm.trans hother)
      obtain rfl : stored = stored' := Option.some.inj (hstored.symm.trans hstored')
      exact hd hunknown
    · intro _ other hother stored' hstored' hd
      obtain rfl : entity = other := Option.some.inj (hactive.symm.trans hother)
      obtain rfl : stored = stored' := Option.some.inj (hstored.symm.trans hstored')
      exact absurd hunknown hd
  · rw [hsame]
    constructor
    · rintro h ⟨other, hother, stored', hstored', e', -, hd, -, ref, href, hlate⟩
      have := h other hother stored' hstored' hd ref href
      omega
    · intro h other hother stored' hstored' hd ref href
      obtain rfl : entity = other := Option.some.inj (hactive.symm.trans hother)
      by_contra hlate
      exact h ⟨entity, hactive, stored', hstored', e, hlatest, hd, by omega, ref, href, by omega⟩
  · constructor
    · rintro - ⟨other, hother, stored', -, e', hlatest', -, hle, -⟩
      obtain rfl : entity = other := Option.some.inj (hactive.symm.trans hother)
      obtain rfl : e = e' := Option.some.inj (hlatest.symm.trans hlatest')
      omega
    · intro _ other hother stored' hstored' hd
      rw [hruntime, hactive, Option.mem_some_iff] at hother
      subst hother
      obtain rfl : r = stored' := Option.some.inj (hafter.symm.trans hstored')
      exact absurd hr hd

section Concrete

open OneDevice

/-- A second heartbeat at 10, not yet evaluated. -/
def unevaluatedRun : List MetricsOp :=
  MetricsManager.healthyRun ++ [.data (.commitHeartbeatEvidence (normal 2 10))]

/-- The tick at 11 finds the second heartbeat fresh and leaves HEALTHY stored on the
first one, which is 11 ns old with a freshness of 10. -/
theorem tick_between_evidence :
    ((run limits [] unevaluatedRun).runFreshnessOnce 11).2 = .success ∧
      ¬((run limits [] unevaluatedRun).runFreshnessOnce 11).1.StoredFresh 11 := by
  decide +kernel

theorem storedFresh_after_tick_healthyRun :
    ((run limits [] healthyRun).data.health.find? device).map HealthResult.state = some .healthy ∧
      ((run limits [] healthyRun).runFreshnessOnce 10).1.StoredFresh 10 :=
  ⟨by decide +kernel,
    (storedFresh_after_tick_iff limits [] healthyRun 10 (by decide +kernel)).mpr
      (by decide +kernel)⟩

end Concrete

/-! ### Room for new evidence -/

/-- Valid evidence is refused for lack of room exactly where it is new and the evidence that
stored health refers to leaves none. -/
theorem evidence_stored_with_room (L : Limits) (processors : List (Option MetricProcessor))
    (ops : List MetricsOp) {e : FirmwareHeartbeatEvidence}
    (hvalid : (validateFirmwareHeartbeatEvidence e).ok = true) :
    ((run L processors ops).data.commitHeartbeatEvidence e).2.status.code ≠ .resourceExhausted ↔
      ((run L processors ops).data.NewEvidence e → (run L processors ops).data.EvidenceFits e) := by
  have hinv := run_evidenceInvariant L processors ops
  rw [Ne, commitHeartbeatEvidence_exhausted_iff hinv hvalid, not_and_not_right]

section Concrete

open OneDevice

theorem evidence_stored_with_room_second :
    ((run limits [] healthyRun).data.commitHeartbeatEvidence (normal 2 10)).2.committed = true ∧
      ((run limits [] healthyRun).data.commitHeartbeatEvidence (normal 2 10)).2.status.code ≠
        .resourceExhausted :=
  ⟨by decide +kernel, (evidence_stored_with_room limits [] healthyRun (by decide)).mpr fun _ =>
    ⟨by decide +kernel, by decide +kernel⟩⟩

theorem validate_oneEvidence :
    ({ maxEvidenceItems := 1 } : DataStoreLimits).validate = .success := by
  decide

def oneEvidence : Limits := { maxEvidenceItems := 1, valid := validate_oneEvidence }

/-- Stored health refers to the only evidence, which stays in the place of a newer one. -/
theorem newer_evidence_refused :
    (∀ r, .data (.commitHealth r) ∉ healthyRun) ∧
      (validateFirmwareHeartbeatEvidence (normal 2 10)).ok = true ∧
      heartbeatEvidenceBytes (normal 2 10) ≤ oneEvidence.maxEvidenceBytes ∧
      (run oneEvidence [] healthyRun).data.checkEvidence (normal 2 10) = none ∧
      (∀ c ∈ (run oneEvidence [] healthyRun).data.heartbeatEvidence,
        c.sequenceOrToken < 2 ∧ c.observedMonotonicTimeNs < 10) ∧
      ((run oneEvidence [] healthyRun).data.commitHeartbeatEvidence (normal 2 10)).2.status.code =
        .resourceExhausted :=
  ⟨by simp [healthyRun, sampled, activate], by decide, by decide, by decide +kernel,
    by decide +kernel,
    by decide +kernel⟩

end Concrete

end MetricsManager
end Pdcm
