import Pdcm.Metrics.MetricsManager

/-!
# Runs of the metrics manager

Calls of the metrics manager and of the data manager below it, in any order. Each
call of the metrics manager stores at most one health result; `Origin` says where the
evidence of such a result comes from.
-/

namespace Pdcm

open Library DataManager

/-- Calls of the metrics manager with their clock readings, and calls that go to the
data manager directly. -/
inductive MetricsOp where
  | data (op : DataOp)
  | activateCatalog (catalog : Option CatalogView) (target : TargetCatalog) (now : ℤ)
  | onHeartbeatEvidenceCommitted (evidenceId : ℕ) (now : ℤ)
  | onProviderStateChanged (state : ProviderState) (now : ℤ)
  | runFreshnessOnce (now : ℤ)

namespace Runtime

variable (runtime : Runtime) (e : FirmwareHeartbeatEvidence) (now : ℤ) (freshness : ℕ)

theorem evaluate_fields :
    (runtime.evaluate e now freshness).entity = e.entity ∧
      (runtime.evaluate e now freshness).catalogGeneration = runtime.catalogGeneration ∧
      (runtime.evaluate e now freshness).evidence = [evidenceReference e] := by
  unfold evaluate
  dsimp only
  split_ifs
  · exact ⟨rfl, rfl, rfl⟩
  · split <;> exact ⟨rfl, rfl, rfl⟩
  · exact ⟨rfl, rfl, rfl⟩

theorem evaluate_state :
    (runtime.evaluate e now freshness).state =
      if e.status = .valid ∧ toUint64 (now - e.observedMonotonicTimeNs) ≤ freshness then
        ((determinate e.nativeClass).map Prod.fst).getD .unknown
      else .unknown := by
  unfold evaluate
  by_cases hva : e.status = .valid
  · by_cases hage : freshness < toUint64 (now - e.observedMonotonicTimeNs)
    · simp [hva, hage]
    · cases hd : determinate e.nativeClass with
      | none => simp [hage]
      | some out => simp [hva, hage]
  · simp [hva]

end Runtime

namespace MetricsManager

variable {L : Limits} (m : MetricsManager L) {op : MetricsOp} {t : DataManager L}
  {e : FirmwareHeartbeatEvidence}

def apply (m : MetricsManager L) : MetricsOp → MetricsManager L
  | .data op => { m with data := m.data.apply op }
  | .activateCatalog catalog target now => (m.activateCatalog catalog target now).1
  | .onHeartbeatEvidenceCommitted evidenceId now =>
    (m.onHeartbeatEvidenceCommitted evidenceId now).1
  | .onProviderStateChanged state now => (m.onProviderStateChanged state now).1
  | .runFreshnessOnce now => (m.runFreshnessOnce now).1

def initial (L : Limits) (processors : List (Option MetricProcessor)) : MetricsManager L where
  data := DataManager.initial L
  processors := processors

def run (L : Limits) (processors : List (Option MetricProcessor)) (ops : List MetricsOp) :
    MetricsManager L :=
  runFrom apply (initial L processors) ops

/-- Where a health result that a call stores takes its evidence from. -/
inductive Origin (m : MetricsManager L) : MetricsOp → HealthResult → Prop
  | blank {op : MetricsOp} {r : HealthResult} (unknown : r.state = .unknown)
      (evidence : r.evidence = []) : Origin m op r
  | latest {op : MetricsOp} {r : HealthResult} {entity : EntityRef}
      {e : FirmwareHeartbeatEvidence} (unknown : r.state = .unknown)
      (latest : m.data.latestEvidence? entity = some e)
      (evidence : r.evidence = [evidenceReference e]) : Origin m op r
  | evaluated {id : ℕ} {now : ℤ} {r : HealthResult} {e : FirmwareHeartbeatEvidence}
      (active : activeEntity m.runtime = some r.entity)
      (generation : r.catalogGeneration = m.runtime.catalogGeneration)
      (stored : m.data.evidenceById? id = some e)
      (evidence : r.evidence = [evidenceReference e]) :
      Origin m (.onHeartbeatEvidenceCommitted id now) r

theorem Origin.single {m : MetricsManager L} {r : HealthResult} (h : Origin m op r) :
    r.evidence.length ≤ 1 := by
  cases h with
  | blank _ he => simp [he]
  | latest _ _ he => simp [he]
  | evaluated _ _ _ he => simp [he]

/-- The data manager after a call: unchanged, or with one health result committed. -/
inductive HealthStep (m : MetricsManager L) (op : MetricsOp) : DataManager L → Prop
  | unchanged : HealthStep m op m.data
  | committed {r : HealthResult} (origin : Origin m op r) :
      HealthStep m op (m.data.commitHealth r).1

theorem installRuntime_data (op : MetricsOp) (next : Runtime) (now : ℤ) :
    HealthStep m op (m.installRuntime next now).1.data := by
  unfold installRuntime
  split_ifs
  · exact .unchanged
  · cases next.entity with
    | none => exact .unchanged
    | some ent =>
      refine .committed (.blank ?_ ?_)
      · unfold initialHealth
        split_ifs <;> rfl
      · unfold initialHealth
        split_ifs <;> rfl

theorem activateRuntime_data (op : MetricsOp) (view : CatalogView) (target : TargetCatalog)
    (now : ℤ) : HealthStep m op (m.activateRuntime view target now).1.data := by
  unfold activateRuntime
  split_ifs
  · exact .unchanged
  · split
    · exact installRuntime_data m op _ now
    · split
      · exact .unchanged
      · exact installRuntime_data m op _ now
    · exact .unchanged

/-- `Origin` and `HealthStep` do not read the processor graph. -/
theorem HealthStep.of_eq {m n : MetricsManager L} (hda : n.data = m.data)
    (hru : n.runtime = m.runtime) (h : HealthStep n op t) : HealthStep m op t := by
  cases h with
  | unchanged => rw [hda]; exact .unchanged
  | committed origin =>
    rw [hda]
    refine .committed ?_
    cases origin with
    | blank hu he => exact .blank hu he
    | latest hu hl he => exact .latest hu (hda ▸ hl) he
    | evaluated ha hg hs he =>
      exact .evaluated (hru ▸ ha) (hru ▸ hg) (hda ▸ hs) he

theorem activateCatalog_data (cat : Option CatalogView) (target : TargetCatalog) (now : ℤ)
    (op : MetricsOp) : HealthStep m op (m.activateCatalog cat target now).1.data := by
  unfold activateCatalog
  cases cat with
  | none => exact .unchanged
  | some view =>
    dsimp only
    split_ifs
    · exact .unchanged
    · refine .of_eq ?_ ?_ (activateRuntime_data _ op view target now)
      · rfl
      · rfl
    · exact .unchanged
    · exact .unchanged

theorem onHeartbeatEvidenceCommitted_data (id : ℕ) (now : ℤ) :
    HealthStep m (.onHeartbeatEvidenceCommitted id now)
      (m.onHeartbeatEvidenceCommitted id now).1.data := by
  unfold onHeartbeatEvidenceCommitted
  cases hac : activeEntity m.runtime with
  | none => exact .unchanged
  | some ent =>
    dsimp only
    cases hr : (m.data.readHeartbeatEvidence id).evidence with
    | none => exact .unchanged
    | some e =>
      dsimp only
      split_ifs with hst
      · exact .unchanged
      · exact .unchanged
      · push Not at hst
        obtain ⟨hen, hgen, hev⟩ := m.runtime.evaluate_fields e now m.runtime.heartbeat.freshnessNs
        exact .committed (.evaluated (by rw [hac, hen, hst.2]) hgen
          (readHeartbeatEvidence_evidence hr) hev)

theorem providerLoss_origin (op : MetricsOp) (ent : EntityRef) (now : ℤ) :
    Origin m op (m.providerLoss ent now) := by
  unfold providerLoss Runtime.providerLoss
  cases hl : (m.data.latestHeartbeatEvidence ent m.runtime.catalogGeneration).evidence with
  | none => exact .blank rfl rfl
  | some e =>
    dsimp only
    split_ifs
    · exact .latest rfl (latestHeartbeatEvidence_evidence.mp hl).2 rfl
    · exact .blank rfl rfl

theorem onProviderStateChanged_data (state : ProviderState) (now : ℤ) (op : MetricsOp) :
    HealthStep m op (m.onProviderStateChanged state now).1.data := by
  unfold onProviderStateChanged
  split_ifs
  · exact .unchanged
  · cases activeEntity m.runtime with
    | none => exact .unchanged
    | some ent => exact .committed (m.providerLoss_origin op ent now)

/-- A tick never finds evidence determinate: it evaluates only what is too old. -/
theorem evaluate_expired {runtime : Runtime} {now : ℤ} {freshness : ℕ}
    (h : ¬toUint64 (now - e.observedMonotonicTimeNs) ≤ freshness) :
    (runtime.evaluate e now freshness).state = .unknown := by
  rw [Runtime.evaluate_state, if_neg fun hf => h hf.2]

theorem runFreshnessOnce_data (now : ℤ) (op : MetricsOp) :
    HealthStep m op (m.runFreshnessOnce now).1.data := by
  unfold runFreshnessOnce
  cases activeEntity m.runtime with
  | none => exact .unchanged
  | some ent =>
    dsimp only
    split_ifs
    · exact .unchanged
    · cases (m.data.readHealth ent m.runtime.catalogGeneration).result with
      | none => exact .unchanged
      | some stored =>
        dsimp only
        split_ifs
        · exact .unchanged
        · cases hl : (m.data.latestHeartbeatEvidence ent m.runtime.catalogGeneration).evidence with
          | none => exact .unchanged
          | some e =>
            dsimp only
            split_ifs with hba hfr
            · exact .unchanged
            · exact .unchanged
            · exact .committed (.latest (evaluate_expired hfr)
                (latestHeartbeatEvidence_evidence.mp hl).2 (m.runtime.evaluate_fields e now _).2.2)

theorem apply_data (hop : ∀ d, op ≠ .data d) : HealthStep m op (m.apply op).data := by
  cases op with
  | data d => exact absurd rfl (hop d)
  | activateCatalog cat target now => exact m.activateCatalog_data cat target now _
  | onHeartbeatEvidenceCommitted id now => exact m.onHeartbeatEvidenceCommitted_data id now
  | onProviderStateChanged state now => exact m.onProviderStateChanged_data state now _
  | runFreshnessOnce now => exact m.runFreshnessOnce_data now _

/-- What the critical sections of the store keep, the calls of its manager keep. -/
theorem invariant_data {P : DataManager L → Prop}
    (hst : ∀ s t : DataManager L, DataStep s t → P s → P t) (op : MetricsOp) (h : P m.data) :
    P (m.apply op).data := by
  by_cases hop : ∀ d, op ≠ .data d
  · have hda := m.apply_data hop
    generalize (m.apply op).data = t at hda ⊢
    cases hda with
    | unchanged => exact h
    | committed => exact invariant_apply hst h (.commitHealth _)
  · push Not at hop
    obtain ⟨d, rfl⟩ := hop
    exact invariant_apply hst h d

theorem apply_evidenceInvariant (op : MetricsOp) (h : m.data.EvidenceInvariant) :
    (m.apply op).data.EvidenceInvariant :=
  m.invariant_data (fun _ _ hst h => hst.evidenceInvariant h) op h

theorem run_evidenceInvariant (L : Limits) (ps : List (Option MetricProcessor))
    (ops : List MetricsOp) : (run L ps ops).data.EvidenceInvariant :=
  invariant_run (I := fun m : MetricsManager L => m.data.EvidenceInvariant)
    apply_evidenceInvariant (initial_evidenceInvariant L) ops

theorem apply_heartbeatEvidence {m : MetricsManager L}
    (h : e ∈ (m.apply op).data.heartbeatEvidence) :
    e ∈ m.data.heartbeatEvidence ∨
      ∃ ev id, op = .data (.commitHeartbeatEvidence ev) ∧ e = ev.withId id := by
  by_cases hop : ∀ d, op ≠ .data d
  · have hst := m.apply_data hop
    generalize (m.apply op).data = t at hst h
    cases hst with
    | unchanged => exact .inl h
    | @committed r origin =>
      change e ∈ (m.data.apply (.commitHealth r)).heartbeatEvidence at h
      rcases DataManager.apply_heartbeatEvidence h with hbe | ⟨ev, id, hot, -⟩
      · exact .inl hbe
      · cases hot
  · push Not at hop
    obtain ⟨d, rfl⟩ := hop
    rcases apply_heartbeatEvidence h with hbe | ⟨ev, id, rfl, heq⟩
    · exact .inl hbe
    · exact .inr ⟨ev, id, rfl, heq⟩

theorem run_heartbeatEvidence (L : Limits) (ps : List (Option MetricProcessor))
    (ops : List MetricsOp) :
    ∀ e ∈ (run L ps ops).data.heartbeatEvidence, ∃ ev id,
      .data (.commitHeartbeatEvidence ev) ∈ ops ∧ e = ev.withId id := by
  have hgi : Along apply (fun _ op => op ∈ ops) (initial L ps) ops :=
    along_of_forall (fun op hop => hop) _
  refine invariant_along (I := fun m : MetricsManager L => ∀ e ∈ m.data.heartbeatEvidence,
    ∃ ev id, .data (.commitHeartbeatEvidence ev) ∈ ops ∧ e = ev.withId id)
    ?_ ?_ hgi
  · intro m op hm hop e he
    rcases apply_heartbeatEvidence he with hbe | ⟨ev, id, rfl, heq⟩
    · exact hm e hbe
    · exact ⟨ev, id, hop, heq⟩
  · intro e he
    cases he

end MetricsManager
end Pdcm
