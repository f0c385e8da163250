import Pdcm.Data.HeartbeatReplay
import Pdcm.Metrics.HealthRuns

/-!
# What a health query answers

A query recomputes health from the latest stored evidence. A determinate answer is
therefore always backed by fresh VALID evidence, and for the same reason it does not
see a provider loss that was stored after that evidence.
-/

namespace Pdcm

open Library DataManager

variable {catalogFreshness : ℕ}

theorem effectiveFreshness_le (catalogFreshness maxAge : ℕ) :
    effectiveFreshness catalogFreshness maxAge ≤ catalogFreshness := by
  unfold effectiveFreshness
  split_ifs
  · exact le_rfl
  · exact min_le_left _ _

theorem effectiveFreshness_mono {tight loose : ℕ} (hti : tight ≠ 0)
    (h : loose = 0 ∨ tight ≤ loose) :
    effectiveFreshness catalogFreshness tight ≤ effectiveFreshness catalogFreshness loose := by
  by_cases hlo : loose = 0
  · rw [hlo]
    exact effectiveFreshness_le _ _
  · rw [effectiveFreshness, effectiveFreshness, if_neg hti, if_neg hlo]
    exact min_le_min_left _ (h.resolve_left hlo)

namespace MetricsManager

variable {L : Limits} {m : MetricsManager L} {now : ℤ} {entity : EntityRef}
  {e : FirmwareHeartbeatEvidence} {freshness : ℕ} {n : MetricsManager L}

theorem queryHealth_item {req : HealthRequest} {item : HealthResult}
    (h : (m.queryHealth req now).item = some item) :
    activeEntity m.runtime = some req.entity ∧ 0 ≤ now ∧
      (req.catalogGeneration = 0 ∨ req.catalogGeneration = m.runtime.catalogGeneration) ∧
      item = m.queryItem req.entity req now := by
  unfold queryHealth at h
  cases ha : activeEntity m.runtime with
  | none => simp [ha] at h
  | some entity =>
    simp only [ha] at h
    split_ifs at h with h1 h2 h3 h4
    obtain rfl : req.entity = entity := not_not.mp h3
    exact ⟨rfl, not_lt.mp h4, by omega, (Option.some.inj h).symm⟩

theorem queryHealth_accepts {req : HealthRequest}
    (ha : activeEntity m.runtime = some req.entity) (hnow : 0 ≤ now)
    (hgen : req.catalogGeneration = 0 ∨
      req.catalogGeneration = m.runtime.catalogGeneration) :
    (m.queryHealth req now).item = some (m.queryItem req.entity req now) := by
  have hgen' : ¬(req.catalogGeneration ≠ 0 ∧
      req.catalogGeneration ≠ m.runtime.catalogGeneration) := by omega
  unfold queryHealth
  simp only [ha]
  rw [if_neg hgen', if_neg (by simp), if_neg (by simp), if_neg (not_lt.mpr hnow)]

/-- The manager reads `e` as the latest heartbeat of the entity. -/
structure Reads (m : MetricsManager L) (entity : EntityRef) (e : FirmwareHeartbeatEvidence) :
    Prop where
  supported : m.runtime.heartbeatSupported = true
  readable : m.data.checkReadEntity "heartbeat" entity m.runtime.catalogGeneration = none
  latest : m.data.latestEvidence? entity = some e

/-- The evidence a determinate recomputation rests on. -/
structure Backed (m : MetricsManager L) (entity : EntityRef) (now : ℤ) (freshness : ℕ)
    (e : FirmwareHeartbeatEvidence) : Prop extends m.Reads entity e where
  valid : e.status = .valid
  notFuture : e.observedMonotonicTimeNs ≤ now
  fresh : toUint64 (now - e.observedMonotonicTimeNs) ≤ freshness

theorem heartbeatAt_of_backed (h : m.Backed entity now freshness e) :
    (m.heartbeatAt entity now freshness).state =
      ((Runtime.determinate e.nativeClass).map Prod.fst).getD .unknown := by
  have hre := latestHeartbeatEvidence_evidence.mpr ⟨h.readable, h.latest⟩
  unfold heartbeatAt
  rw [if_neg (by simp [h.supported])]
  simp only [hre]
  rw [if_neg (not_lt.mpr h.notFuture), Runtime.evaluate_state, if_pos ⟨h.valid, h.fresh⟩]

theorem backed_of_determinate (h : (m.heartbeatAt entity now freshness).state ≠ .unknown) :
    ∃ e, m.Backed entity now freshness e := by
  unfold heartbeatAt at h
  split_ifs at h with hsu
  · exact absurd rfl h
  · cases hre : (m.data.latestHeartbeatEvidence entity m.runtime.catalogGeneration).evidence with
    | none =>
      simp only [hre] at h
      exact absurd rfl h
    | some e =>
      simp only [hre] at h
      split_ifs at h with hba
      · exact absurd rfl h
      · rw [Runtime.evaluate_state] at h
        split_ifs at h with hfr
        · obtain ⟨hrea, hla⟩ := latestHeartbeatEvidence_evidence.mp hre
          exact ⟨e, ⟨by simpa using hsu, hrea, hla⟩, hfr.1, not_lt.mp hba, hfr.2⟩
        · exact absurd rfl h

theorem Backed.mono {tight loose : ℕ} (h : m.Backed entity now tight e) (hle : tight ≤ loose) :
    m.Backed entity now loose e :=
  { h with fresh := h.fresh.trans hle }

theorem queryItem_determinate {req : HealthRequest}
    (h : (m.queryItem entity req now).state ≠ .unknown) :
    req.subsystemId = firmwareHeartbeatHealthId ∧
      m.queryItem entity req now = m.heartbeatAt entity now
        (effectiveFreshness m.runtime.heartbeat.freshnessNs req.maxAgeNs) := by
  unfold queryItem at h ⊢
  split_ifs at h ⊢ with hsub
  · exact ⟨hsub, rfl⟩
  · exact absurd rfl h

/-! ### A determinate answer is justified -/

/-- The native class that a determinate state stands for. -/
inductive ClassOf : HealthState → HeartbeatNativeClass → Prop
  | healthy : ClassOf .healthy .normal
  | warning : ClassOf .warning .warning
  | error : ClassOf .error .fault

theorem classOf_determinate {c : HeartbeatNativeClass}
    (h : ((Runtime.determinate c).map Prod.fst).getD .unknown ≠ .unknown) :
    ClassOf (((Runtime.determinate c).map Prod.fst).getD .unknown) c := by
  cases c with
  | normal => exact .healthy
  | warning => exact .warning
  | fault => exact .error
  | unknownNative => exact absurd rfl h

theorem determinate_known {c : HeartbeatNativeClass} (h : c ≠ .unknownNative) :
    ((Runtime.determinate c).map Prod.fst).getD .unknown ≠ .unknown := by
  cases c with
  | unknownNative => exact absurd rfl h
  | _ => simp [Runtime.determinate]

/-- What the evidence behind a determinate answer satisfies. -/
structure Justifies (m : MetricsManager L) (request : HealthRequest) (now : ℤ)
    (state : HealthState) (e : FirmwareHeartbeatEvidence) : Prop where
  stored : e ∈ m.data.heartbeatEvidence
  entity : e.entity = request.entity
  newest : ∀ c ∈ m.data.heartbeatEvidence, c.entity = request.entity →
    c.evidenceId ≤ e.evidenceId
  named : m.data.latestEvidence? request.entity = some e
  generation : e.catalogGeneration = m.data.catalog.generation
  current : m.runtime.catalogGeneration = m.data.catalog.generation
  valid : e.status = .valid
  nativeClass : ClassOf state e.nativeClass
  notFuture : 0 ≤ now - e.observedMonotonicTimeNs
  fresh : now - e.observedMonotonicTimeNs ≤ m.runtime.heartbeat.freshnessNs
  maxAge : request.maxAgeNs ≠ 0 → now - e.observedMonotonicTimeNs ≤ request.maxAgeNs

theorem justifies_of_backed (hinv : m.data.EvidenceInvariant) {req : HealthRequest}
    (hac : activeEntity m.runtime = some req.entity) (hb : m.Backed req.entity now
      (effectiveFreshness m.runtime.heartbeat.freshnessNs req.maxAgeNs) e)
    (hd : ((Runtime.determinate e.nativeClass).map Prod.fst).getD .unknown ≠ .unknown) :
    m.Justifies req now (((Runtime.determinate e.nativeClass).map Prod.fst).getD .unknown)
      e := by
  obtain ⟨hla, hen⟩ := hinv.latestEvidence?_eq_some.mp hb.latest
  have hst := List.mem_of_getLast? hla
  have hreq : m.runtime.catalogGeneration = 0 ∨
      m.runtime.catalogGeneration = m.data.catalog.generation := by
    have hrea := hb.readable
    unfold checkReadEntity at hrea
    split_ifs at hrea
    omega
  have hgen : m.runtime.catalogGeneration ≠ 0 := by
    intro h0
    simp [activeEntity, h0] at hac
  have hage : 0 ≤ now - e.observedMonotonicTimeNs := sub_nonneg.mpr hb.notFuture
  have hca := toUint64_of_nonneg hage
  have hfr := hb.fresh.trans (effectiveFreshness_le _ _)
  refine ⟨hst, hen, fun c hc _ => hinv.id_le_last hc hla, hb.latest,
    (hinv.evidence e hst).generation, hreq.resolve_left hgen, hb.valid,
    classOf_determinate hd, hage, by omega, ?_⟩
  intro hmax
  have hmin := hb.fresh
  rw [effectiveFreshness, if_neg hmax] at hmin
  omega

/-- In every state that calls can reach, a determinate answer is backed by the latest
stored evidence, and a looser maximal age gives the same answer. -/
theorem queryHealth_justified (L : Limits) (processors : List (Option MetricProcessor))
    (ops : List MetricsOp) (request : HealthRequest) (now : ℤ) :
    (∀ item, ((run L processors ops).queryHealth request now).item = some item →
      item.state ≠ .unknown → ∃ e, (run L processors ops).Justifies request now item.state e) ∧
    (∀ looser, request.maxAgeNs ≠ 0 → looser = 0 ∨ request.maxAgeNs ≤ looser →
      ∀ item, ((run L processors ops).queryHealth request now).item = some item →
        item.state ≠ .unknown →
        ∃ item', ((run L processors ops).queryHealth { request with maxAgeNs := looser } now).item =
          some item' ∧ item'.state = item.state) := by
  have hinv := run_evidenceInvariant L processors ops
  generalize run L processors ops = m at hinv ⊢
  constructor
  · intro item hitem hd
    obtain ⟨hactive, -, -, rfl⟩ := queryHealth_item hitem
    obtain ⟨-, heq⟩ := queryItem_determinate hd
    rw [heq] at hd ⊢
    obtain ⟨e, hb⟩ := backed_of_determinate hd
    rw [heartbeatAt_of_backed hb] at hd ⊢
    exact ⟨e, justifies_of_backed hinv hactive hb hd⟩
  · intro looser htight hloose item hitem hd
    obtain ⟨hactive, hnow, hgen, rfl⟩ := queryHealth_item hitem
    obtain ⟨hsubsystem, heq⟩ := queryItem_determinate hd
    rw [heq] at hd ⊢
    obtain ⟨e, hb⟩ := backed_of_determinate hd
    refine ⟨_, queryHealth_accepts hactive hnow hgen, ?_⟩
    have hitem' : m.queryItem request.entity { request with maxAgeNs := looser } now =
        m.heartbeatAt request.entity now
          (effectiveFreshness m.runtime.heartbeat.freshnessNs looser) := by
      rw [queryItem, if_pos hsubsystem]
    rw [hitem', heartbeatAt_of_backed hb,
      heartbeatAt_of_backed (hb.mono (effectiveFreshness_mono htight hloose))]

/-! ### Queries after a provider loss -/

/-- Calls that commit no evidence and activate no catalog. -/
def Quiet (m : MetricsManager L) : MetricsOp → Prop
  | .data (.activateCatalog _ _) => False
  | .data (.commitHeartbeatEvidence e) => (m.data.commitHeartbeatEvidence e).2.committed = false
  | .activateCatalog _ _ _ => False
  | _ => True

/-- Same runtime and same stored evidence. -/
structure SameEvidence (m n : MetricsManager L) : Prop where
  runtime : n.runtime = m.runtime
  evidence : n.data.heartbeatEvidence = m.data.heartbeatEvidence
  latest : n.data.latestHeartbeat = m.data.latestHeartbeat

theorem commitHealth_evidence (s : DataManager L) (r : HealthResult) :
    (s.commitHealth r).1.heartbeatEvidence = s.heartbeatEvidence ∧
      (s.commitHealth r).1.latestHeartbeat = s.latestHeartbeat ∧
      (s.commitHealth r).1.catalog = s.catalog := by
  rcases s.commitHealth_cases r with ⟨-, hs⟩ | ⟨-, -, drafts, hs⟩
  · rw [hs]
    exact ⟨rfl, rfl, rfl⟩
  · rw [hs]
    simp [withHealth]

theorem HealthStep.sameEvidence {op : MetricsOp} (hst : HealthStep m op n.data)
    (hru : n.runtime = m.runtime) : SameEvidence m n := by
  generalize hd : n.data = t at hst
  cases hst with
  | unchanged => exact ⟨hru, by rw [hd], by rw [hd]⟩
  | committed =>
    obtain ⟨he, hl, -⟩ := commitHealth_evidence m.data _
    exact ⟨hru, by rw [hd, he], by rw [hd, hl]⟩

theorem onHeartbeatEvidenceCommitted_runtime (m : MetricsManager L) (id : ℕ) (now : ℤ) :
    (m.onHeartbeatEvidenceCommitted id now).1.runtime = m.runtime := by
  unfold onHeartbeatEvidenceCommitted
  dsimp only
  repeat' split
  all_goals rfl

theorem onProviderStateChanged_runtime (m : MetricsManager L) (state : ProviderState) (now : ℤ) :
    (m.onProviderStateChanged state now).1.runtime = m.runtime := by
  unfold onProviderStateChanged
  repeat' split
  all_goals rfl

theorem runFreshnessOnce_runtime (m : MetricsManager L) (now : ℤ) :
    (m.runFreshnessOnce now).1.runtime = m.runtime := by
  unfold runFreshnessOnce
  dsimp only
  repeat' split
  all_goals rfl

theorem apply_sameEvidence (m : MetricsManager L) (op : MetricsOp) (hq : m.Quiet op) :
    SameEvidence m (m.apply op) := by
  cases op with
  | data d =>
    cases d with
    | activateCatalog cat target => exact hq.elim
    | commit obs =>
      simp only [apply, DataManager.apply, commit]
      rcases m.data.commitLocked_cases obs with ⟨-, hs, -⟩ | ⟨-, shards, -, hs, -⟩
      · exact ⟨rfl, by simp [hs], by simp [hs]⟩
      · exact ⟨rfl, by simp [hs], by simp [hs]⟩
    | commitHeartbeatEvidence e =>
      rcases m.data.commitHeartbeatEvidence_cases e with ⟨hs, -⟩ | ⟨rest, -, -, hre⟩
      · exact ⟨rfl, by simp [apply, DataManager.apply, hs], by simp [apply, DataManager.apply, hs]⟩
      · have hq' : (m.data.commitHeartbeatEvidence e).2.committed = false := hq
        simp [hre] at hq'
    | commitHealth r =>
      obtain ⟨he, hl, -⟩ := commitHealth_evidence m.data r
      exact ⟨rfl, he, hl⟩
    | publishEvent draft => exact ⟨rfl, rfl, rfl⟩
  | activateCatalog cat target now => exact hq.elim
  | onHeartbeatEvidenceCommitted id now =>
    exact (m.onHeartbeatEvidenceCommitted_data id now).sameEvidence
      (m.onHeartbeatEvidenceCommitted_runtime id now)
  | onProviderStateChanged state now =>
    exact (m.onProviderStateChanged_data state now (.onProviderStateChanged state now)).sameEvidence
      (m.onProviderStateChanged_runtime state now)
  | runFreshnessOnce now =>
    exact (m.runFreshnessOnce_data now (.runFreshnessOnce now)).sameEvidence
      (m.runFreshnessOnce_runtime now)

theorem run_sameEvidence {later : List MetricsOp} (h : Along apply Quiet m later) :
    SameEvidence m (runFrom apply m later) := by
  refine invariant_along ?_ ⟨rfl, rfl, rfl⟩ h
  intro n op hn hq
  have hst := n.apply_sameEvidence op hq
  exact ⟨hst.runtime.trans hn.runtime, hst.evidence.trans hn.evidence, hst.latest.trans hn.latest⟩

theorem SameEvidence.latestEvidence? (h : SameEvidence m n) (entity : EntityRef) :
    n.data.latestEvidence? entity = m.data.latestEvidence? entity := by
  have hby : n.data.evidenceById? = m.data.evidenceById? := by
    funext id
    rw [evidenceById?, evidenceById?, h.evidence]
  rw [DataManager.latestEvidence?, DataManager.latestEvidence?, h.latest, hby]

theorem onProviderStateChanged_ok {state : ProviderState} (hst : state ≠ .ready)
    (hok : (m.onProviderStateChanged state now).2.ok = true) :
    ∃ entity, activeEntity m.runtime = some entity ∧ m.data.catalog.generation ≠ 0 ∧
      m.runtime.catalogGeneration = m.data.catalog.generation := by
  unfold onProviderStateChanged at hok
  rw [if_neg hst] at hok
  cases ha : activeEntity m.runtime with
  | none => simp [ha, notActive] at hok
  | some entity =>
    simp only [ha] at hok
    have hre : (m.providerLoss entity now).catalogGeneration =
        m.runtime.catalogGeneration := by
      unfold providerLoss Runtime.providerLoss
      split
      · rfl
      · split_ifs <;> rfl
    rcases m.data.commitHealth_cases (m.providerLoss entity now) with ⟨hfa, -⟩ | ⟨hr, -, -⟩
    · exact absurd hok (by simp [MetricsManager.commitHealth, hfa])
    · exact ⟨entity, rfl, hr.active, hre ▸ hr.generation⟩

/-- While the latest evidence is VALID and the heartbeat is supported, a query at the
time of that evidence is determinate. -/
theorem queryHealth_determinate (hinv : m.data.EvidenceInvariant)
    (hac : activeEntity m.runtime = some entity) (hgen : m.data.catalog.generation ≠ 0)
    (hcur : m.runtime.catalogGeneration = m.data.catalog.generation)
    (hsu : m.runtime.heartbeatSupported = true)
    (hla : m.data.latestEvidence? entity = some e) (hva : e.status = .valid) :
    ∃ item, (m.queryHealth { entity := entity } e.observedMonotonicTimeNs).item = some item ∧
      item.state ≠ .unknown := by
  obtain ⟨hlas, heq⟩ := hinv.latestEvidence?_eq_some.mp hla
  have hok := hinv.evidence e (List.mem_of_getLast? hlas)
  obtain ⟨hti, -, -, -, hcl, -⟩ := validEvidence_of_ok hok.valid
  have hre : m.data.checkReadEntity "heartbeat" entity m.runtime.catalogGeneration = none := by
    unfold checkReadEntity
    rw [if_neg hgen, if_neg (by simp [hcur]), hok.entities, heq]
    simp [sameLogicalEntity]
  have hb : m.Backed entity e.observedMonotonicTimeNs
      (effectiveFreshness m.runtime.heartbeat.freshnessNs 0) e :=
    ⟨⟨hsu, hre, hla⟩, hva, le_rfl, by simp [toUint64]⟩
  refine ⟨_, queryHealth_accepts hac hti (.inl rfl), ?_⟩
  rw [queryItem, if_pos rfl, heartbeatAt_of_backed hb]
  exact determinate_known (hcl hva).1

/-- A stored provider loss is visible to every later query, until new evidence or a new
catalog arrives, exactly when the latest evidence at that time was not VALID or the
heartbeat is not supported. -/
theorem providerLoss_visible_iff (L : Limits) (processors : List (Option MetricProcessor))
    (ops : List MetricsOp) (state : ProviderState) (now : ℤ) (hstate : state ≠ .ready)
    (hok : ((run L processors ops).onProviderStateChanged state now).2.ok = true) :
    (∀ later,
      Along apply Quiet ((run L processors ops).onProviderStateChanged state now).1 later →
      ∀ (request : HealthRequest) (clock : ℤ) (item : HealthResult),
        activeEntity (run L processors ops).runtime = some request.entity →
        request.subsystemId = firmwareHeartbeatHealthId →
        ((runFrom apply ((run L processors ops).onProviderStateChanged state now).1
          later).queryHealth request clock).item = some item → item.state = .unknown) ↔
    ((run L processors ops).runtime.heartbeatSupported = true →
      ∀ entity e, activeEntity (run L processors ops).runtime = some entity →
        (run L processors ops).data.latestEvidence? entity = some e → e.status ≠ .valid) := by
  have hinv := run_evidenceInvariant L processors ops
  generalize run L processors ops = m at hinv hok ⊢
  have hinv' := m.apply_evidenceInvariant (.onProviderStateChanged state now) hinv
  have hafter := m.apply_sameEvidence (.onProviderStateChanged state now) trivial
  have hcatalog : (m.onProviderStateChanged state now).1.data.catalog = m.data.catalog := by
    have hstep := m.onProviderStateChanged_data state now (.onProviderStateChanged state now)
    generalize (m.onProviderStateChanged state now).1.data = t at hstep
    cases hstep with
    | unchanged => rfl
    | committed => exact (commitHealth_evidence m.data _).2.2
  obtain ⟨entity, hactive, hgen, hcurrent⟩ := onProviderStateChanged_ok hstate hok
  constructor
  · intro hvisible hsupported other e hother hlatest hvalid
    rw [hactive, Option.some.injEq] at hother
    subst hother
    obtain ⟨item, hitem, hd⟩ := queryHealth_determinate hinv' (hafter.runtime ▸ hactive)
      (hcatalog ▸ hgen) (by
        change (m.onProviderStateChanged state now).1.runtime.catalogGeneration =
          (m.onProviderStateChanged state now).1.data.catalog.generation
        rw [hcatalog, m.onProviderStateChanged_runtime, hcurrent])
      (hafter.runtime ▸ hsupported) ((hafter.latestEvidence? entity).trans hlatest) hvalid
    exact hd (hvisible [] trivial { entity := entity } _ item hactive rfl hitem)
  · intro hnone later hquiet request clock item hrequest _ hitem
    by_contra hd
    have hsame := run_sameEvidence hquiet
    obtain ⟨hactive', -, -, rfl⟩ := queryHealth_item hitem
    rw [(queryItem_determinate hd).2] at hd
    obtain ⟨e, hb⟩ := backed_of_determinate hd
    have hsupported : m.runtime.heartbeatSupported = true := by
      rw [← hafter.runtime]
      exact hsame.runtime ▸ hb.supported
    refine hnone hsupported request.entity e hrequest ?_ hb.valid
    rw [← hafter.latestEvidence?, ← hb.latest]
    exact (hsame.latestEvidence? request.entity).symm

section Concrete

open OneDevice

/-- Activation of both managers and a first heartbeat. -/
def sampled (e : FirmwareHeartbeatEvidence) : List MetricsOp :=
  [.data activate, .activateCatalog (some (view 1)) target 0, .data (.commitHeartbeatEvidence e)]

/-- A normal heartbeat at 0, evaluated at once. -/
def healthyRun : List MetricsOp := sampled (normal 1 0) ++ [.onHeartbeatEvidenceCommitted 1 0]

/-- The provider is lost at 1. -/
def lost : MetricsManager limits × Status :=
  (run limits [] healthyRun).onProviderStateChanged .unavailable 1

/-- The loss is stored, but a query at 2 recomputes HEALTHY from the heartbeat of 0. -/
theorem providerLoss_hidden :
    lost.2 = .success ∧
      (lost.1.data.health.find? device).map HealthResult.state = some .unknown ∧
      (lost.1.queryHealth { entity := device } 2).item.map HealthResult.state = some .healthy := by
  decide +kernel

/-- The last read before the loss had failed. -/
def failedRun : List MetricsOp := sampled (failed 0) ++ [.onHeartbeatEvidenceCommitted 1 0]

theorem providerLoss_visible_failedRun :
    ((run limits [] failedRun).onProviderStateChanged .unavailable 1).2.ok = true ∧
      ∀ clock item,
        (((run limits [] failedRun).onProviderStateChanged .unavailable 1).1.queryHealth
          { entity := device } clock).item = some item → item.state = .unknown := by
  have hok : ((run limits [] failedRun).onProviderStateChanged .unavailable 1).2.ok = true := by
    decide +kernel
  have hnotValid : ∀ entity e, activeEntity (run limits [] failedRun).runtime = some entity →
      (run limits [] failedRun).data.latestEvidence? entity = some e → e.status ≠ .valid := by
    intro entity e ha he
    have hentity : activeEntity (run limits [] failedRun).runtime = some device := by
      decide +kernel
    have hstatus : ((run limits [] failedRun).data.latestEvidence? device).map
        FirmwareHeartbeatEvidence.status = some .error := by decide +kernel
    rw [hentity, Option.some.injEq] at ha
    rw [← ha] at he
    simp [he] at hstatus
    simp [hstatus]
  refine ⟨hok, fun clock item hitem => ?_⟩
  have hvisible := (providerLoss_visible_iff limits [] failedRun .unavailable 1 (by decide)
    hok).mpr fun _ => hnotValid
  exact hvisible [] trivial { entity := device } clock item (by decide +kernel) rfl hitem

end Concrete

end MetricsManager
end Pdcm
