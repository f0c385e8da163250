import Pdcm.Library.Interference
import Pdcm.Metrics.HealthRuns
import Pdcm.Collection.GenerationIsolation
import Pdcm.Collection.WatchAdmission

/-!
# Health results are well-formed

The metrics manager builds health results on several paths, from the catalog, from stored
evidence and from its clock. Whatever it passes to `commitHealth` passes the checks there.
-/

namespace Pdcm

open Library DataManager MetricsManager

/-- A result refers to at most one evidence, so it repeats none. -/
structure HealthResult.WellFormed (r : HealthResult) : Prop where
  valid : (validateHealthResult r).ok = true
  single : r.evidence.length ≤ 1

/-- Whatever is stored, such a result is not an invalid argument. -/
theorem HealthResult.WellFormed.answer {L : Limits} {r : HealthResult} (h : r.WellFormed)
    (s : DataManager L) : (s.commitHealthLocked r).2.1.status.code ≠ .invalidArgument := by
  unfold commitHealthLocked
  cases hch : s.checkHealth r with
  | none =>
    change StatusCode.success ≠ _
    decide
  | some st =>
    change st.code ≠ _
    unfold checkHealth at hch
    rw [if_neg (not_not.mpr h.valid)] at hch
    cases hre : checkReferences s.heartbeatEvidence r [] r.evidence with
    | none =>
      simp only [hre, checkHealthRoom] at hch
      split_ifs at hch
      all_goals cases hch; decide
    | some other =>
      have hot : other.code = .notFound := by
        have hsi := h.single
        rcases hev : r.evidence with _ | ⟨ref, _ | ⟨_, _⟩⟩
        · simp [hev, checkReferences] at hre
        · simp [hev, checkReferences] at hre
          rw [← hre.2]
        · simp [hev] at hsi
      simp only [hre] at hch
      split_ifs at hch
      all_goals cases hch
      all_goals first | decide | simp [hot]

namespace Runtime

/-- The texts and references of an active runtime can go into health results. -/
structure Sound (runtime : Runtime) : Prop where
  limitation : runtime.catalogGeneration ≠ 0 → runtime.heartbeat.limitation ≠ ""
  entity : ∀ entity ∈ runtime.entity, entity.kind = .device ∧ entity.generation ≠ 0

variable {runtime : Runtime} {entity : EntityRef} {now : ℤ} {e : FirmwareHeartbeatEvidence}

theorem unknown_wellFormed (hru : runtime.catalogGeneration ≠ 0)
    (hen : entity.kind = .device ∧ entity.generation ≠ 0) (hnow : 0 ≤ now)
    {code : StableHealthCode} {status : ObservationStatus} {limitation : HealthLimitation}
    (hco : codeMatchesState .unknown code = true) (hst : status ≠ .valid)
    (hli : limitation.detail ≠ "") :
    (runtime.unknown entity code status now limitation).WellFormed := by
  refine ⟨?_, Nat.zero_le _⟩
  simp [validateHealthResult, unknown, hru, hen, hnow.not_gt, hco, hst, hli, Status.ok]

theorem reference_valid (hva : (validateFirmwareHeartbeatEvidence e).ok = true)
    (hid : e.evidenceId ≠ 0) : evidenceRefValid (evidenceReference e) = true ∧
      e.entity.kind = .device ∧ e.entity.generation ≠ 0 := by
  unfold validateFirmwareHeartbeatEvidence at hva
  split at hva
  · cases hva
  next hbad =>
    push Not at hbad
    obtain ⟨hki, hge, -, -, hti, hsa, hpr⟩ := hbad
    exact ⟨decide_eq_true ⟨hid, hti, hsa, hpr⟩, hki, hge⟩

theorem evaluate_wellFormed (hso : runtime.Sound) (hru : runtime.catalogGeneration ≠ 0)
    (hva : (validateFirmwareHeartbeatEvidence e).ok = true) (hid : e.evidenceId ≠ 0)
    (hnow : e.observedMonotonicTimeNs ≤ now) (freshness : ℕ) :
    (runtime.evaluate e now freshness).WellFormed := by
  have hre := reference_valid hva hid
  have hle := hso.limitation hru
  obtain ⟨hob, -, -, -, hkn, -⟩ := validEvidence_of_ok hva
  refine ⟨?_, by simp [(runtime.evaluate_fields e now freshness).2.2]⟩
  unfold evaluate
  dsimp only
  split_ifs with hst hfr
  · simp [validateHealthResult, hre, hru, (hob.trans hnow).not_gt, hnow.not_gt, Status.ok,
      codeMatchesState, isDeterminateHealth]
  · have hcl := (hkn hst).1
    cases hna : e.nativeClass
    all_goals
      simp [determinate, validateHealthResult, hre, hru, (hob.trans hnow).not_gt, hnow.not_gt,
        Status.ok, codeMatchesState, isDeterminateHealth]
    exact absurd hna hcl
  · unfold failureOf
    split_ifs
    all_goals
      simp [validateHealthResult, hre, hru, (hob.trans hnow).not_gt, hnow.not_gt, Status.ok,
        codeMatchesState, isDeterminateHealth, hst, hle]

theorem providerLoss_wellFormed (hru : runtime.catalogGeneration ≠ 0)
    (hen : entity.kind = .device ∧ entity.generation ≠ 0) (hnow : 0 ≤ now)
    {latest : Option FirmwareHeartbeatEvidence}
    (hla : ∀ e ∈ latest, evidenceRefValid (evidenceReference e) = true) :
    (runtime.providerLoss entity now latest).WellFormed := by
  have hbl : (runtime.unknown entity .providerUnavailable .error now
      ⟨.providerUnavailable, "provider is unavailable"⟩).WellFormed :=
    unknown_wellFormed hru hen hnow rfl nofun (by decide)
  unfold providerLoss
  cases latest with
  | none => exact hbl
  | some e =>
    dsimp only
    split_ifs with hle
    · refine ⟨?_, le_rfl⟩
      simp [validateHealthResult, unknown, hru, hen, hnow.not_gt, hle.not_gt, hla e rfl, Status.ok,
        codeMatchesState, isDeterminateHealth]
    · exact hbl

end Runtime

namespace DataPlane

variable {L : Limits} {p : DataPlane L} {now : ℤ}

/-- The clock does not go below zero, and views come from a semantic catalog. -/
def Regular : MetricsOp → Prop
  | .data _ => True
  | .activateCatalog catalog _ now => 0 ≤ now ∧
    ∀ view ∈ catalog, view = {} ∨ ∃ target d, SemanticCatalog.CommittedView target d view
  | .onHeartbeatEvidenceCommitted _ now | .onProviderStateChanged _ now | .runFreshnessOnce now =>
    0 ≤ now

/-- The calls of the metrics manager. -/
def program : MetricsOp → Plane L Status
  | .data _ => return .success
  | .activateCatalog catalog target now => activateMetrics catalog target now
  | .onHeartbeatEvidenceCommitted id now => onHeartbeatEvidenceCommitted id now
  | .onProviderStateChanged state now => onProviderStateChanged state now
  | .runFreshnessOnce now => runFreshnessOnce now

def step (p : DataPlane L) : MetricsOp → DataPlane L
  | .data op => p.withData (p.data.apply op)
  | op => ((program op).run p).1

theorem step_eq (p : DataPlane L) (op : MetricsOp) :
    step p op = { p with metrics := p.metrics.apply op } := by
  cases op with
  | data op => rfl
  | activateCatalog => exact congrArg Prod.fst (run_activateMetrics ..)
  | onHeartbeatEvidenceCommitted => exact congrArg Prod.fst (run_onHeartbeatEvidenceCommitted ..)
  | onProviderStateChanged => exact congrArg Prod.fst (run_onProviderStateChanged ..)
  | runFreshnessOnce => exact congrArg Prod.fst (run_runFreshnessOnce ..)

/-- Calls that nothing comes between leave what the methods of the manager leave. -/
theorem run_uninterrupted (m : MetricsManager L) (executor : ProcessorExecutor)
    (ops : List MetricsOp) :
    runFrom step ⟨m, executor⟩ ops = ⟨runFrom apply m ops, executor⟩ :=
  List.foldl_hom (DataPlane.mk · executor) fun m op => step_eq ⟨m, executor⟩ op

structure Sound (p : DataPlane L) : Prop where
  runtime : p.metrics.runtime.Sound
  evidence : p.data.EvidenceInvariant

/-- What the metrics manager may do to the plane. -/
def Allowed : PlaneCall → Prop
  | .commitHealth result => result.WellFormed
  | .setRuntime next | .replaceRuntime next => next.Sound
  | _ => True

/-- A program whose calls are allowed, whatever it finds in the plane. -/
abbrev Commits (prog : Plane L Status) : Prop := Program.Guarded Allowed Sound prog

theorem exec_sound (c : PlaneCall) (p : DataPlane L) (hc : Allowed c) (h : p.Sound) :
    (exec c p).1.Sound := by
  refine ⟨?_, (exec_data c p).evidenceInvariant h.evidence⟩
  cases c with
  | setRuntime next => exact hc
  | replaceRuntime next =>
    simp only [exec]
    split_ifs
    · exact h.runtime
    · exact hc
  | _ => exact h.runtime

theorem Commits.call {c : PlaneCall} {next : c.Answer → Plane L Status} (hc : Allowed c)
    (h : ∀ p : DataPlane L, p.Sound → Commits (next (exec c p).2)) :
    Commits (DataPlane.call c >>= next) :=
  ⟨hc, h⟩

theorem publishAll_commits (drafts : List EventDraft) (st : Status) :
    Commits (publishAll drafts >>= fun _ => pure st : Plane L Status) := by
  induction drafts with
  | nil => trivial
  | cons draft rest ih => exact .call trivial fun _ _ => ih

theorem commitHealth_commits {r : HealthResult} (h : r.WellFormed) :
    Commits (commitHealth r : Plane L Status) :=
  .call h fun _ _ => publishAll_commits _ _

theorem installRuntime_commits {next : Runtime} (h : next.Sound)
    (hge : next.catalogGeneration ≠ 0) (hnow : 0 ≤ now) :
    Commits (installRuntime next now : Plane L Status) := by
  refine .call h fun p _ => ?_
  split_ifs
  · trivial
  · cases hen : next.entity with
    | none => trivial
    | some entity =>
      have hent := h.entity entity hen
      refine commitHealth_commits ?_
      unfold initialHealth
      split_ifs
      · exact Runtime.unknown_wellFormed hge hent hnow rfl nofun (by decide)
      · exact Runtime.unknown_wellFormed hge hent hnow rfl nofun (h.limitation hge)

theorem activateMetrics_commits {catalog : Option CatalogView} {target : TargetCatalog}
    (h : Regular (.activateCatalog catalog target now)) :
    Commits (activateMetrics catalog target now : Plane L Status) := by
  cases catalog with
  | none => trivial
  | some view =>
    refine .call trivial fun p _ => ?_
    split_ifs with hac hva
    · trivial
    · refine .call trivial fun p _ => ?_
      split_ifs
      · obtain ⟨-, -, -, hli⟩ := TargetCatalog.versions_of_validate hva
        have hge : view.generation ≠ 0 := fun hze => hac (.inl hze)
        unfold activateRuntime
        dsimp only
        split_ifs
        · refine .call ⟨fun _ => hli, nofun⟩ fun _ _ => trivial
        · split
          · exact installRuntime_commits ⟨fun _ => hli, nofun⟩ hge h.1
          next record hrec =>
            split
            · trivial
            · refine installRuntime_commits ⟨fun _ => hli, ?_⟩ hge h.1
              rintro _ ⟨⟩
              obtain rfl | ⟨_, _, hvi⟩ := h.2 view rfl
              · exact absurd rfl hge
              obtain ⟨_, -, ref, rfl, href⟩ := hvi.record record (by simp [hrec])
              exact href
          · trivial
      · trivial
    · trivial

theorem Sound.active (h : p.Sound) {entity : EntityRef}
    (hac : activeEntity p.metrics.runtime = some entity) :
    p.metrics.runtime.catalogGeneration ≠ 0 ∧ entity.kind = .device ∧ entity.generation ≠ 0 := by
  unfold activeEntity at hac
  split_ifs at hac with hze
  exact ⟨hze, h.runtime.entity entity hac⟩

theorem evaluate_commits {runtime : Runtime} {e : FirmwareHeartbeatEvidence}
    (hru : runtime.Sound) (hge : runtime.catalogGeneration ≠ 0) (h : p.Sound)
    (he : e ∈ p.data.heartbeatEvidence) (hnow : ¬now < e.observedMonotonicTimeNs)
    (freshness : ℕ) :
    Commits (commitHealth (runtime.evaluate e now freshness) : Plane L Status) := by
  obtain ⟨hva, -, -, hpos, -⟩ := h.evidence.evidence e he
  exact commitHealth_commits (Runtime.evaluate_wellFormed hru hge hva
    (Nat.one_le_iff_ne_zero.mp hpos) (not_lt.mp hnow) freshness)

theorem mem_of_latestHeartbeatEvidence {s : DataManager L} {entity : EntityRef} {required : ℕ}
    {e : FirmwareHeartbeatEvidence}
    (h : (s.latestHeartbeatEvidence entity required).evidence = some e) :
    e ∈ s.heartbeatEvidence := by
  obtain ⟨id, -, hid⟩ := Option.bind_eq_some_iff.mp
    (latestHeartbeatEvidence_evidence.mp h).2
  exact (DataManager.EvidenceInvariant.mem_of_evidenceById? hid).1

theorem program_commits {op : MetricsOp} (h : Regular op) :
    Commits (program op : Plane L Status) := by
  cases op with
  | data op => trivial
  | activateCatalog catalog target now => exact activateMetrics_commits h
  | onHeartbeatEvidenceCommitted id now =>
    refine .call trivial fun p hp => ?_
    dsimp only [exec]
    cases hac : activeEntity p.metrics.runtime with
    | none => trivial
    | some entity =>
      refine .call trivial fun q hq => ?_
      dsimp only [exec]
      cases hread : (q.data.readHeartbeatEvidence id).evidence with
      | none => trivial
      | some e =>
        dsimp only
        split_ifs with hstale hback
        · trivial
        · trivial
        · have he := readHeartbeatEvidence_evidence hread
          exact evaluate_commits hp.runtime (hp.active hac).1 hq
            (DataManager.EvidenceInvariant.mem_of_evidenceById? he).1 hback _
  | onProviderStateChanged state now =>
    unfold program onProviderStateChanged
    dsimp only
    split_ifs
    · trivial
    refine .call trivial fun p hp => ?_
    dsimp only [exec]
    cases hac : activeEntity p.metrics.runtime with
    | none => trivial
    | some entity =>
      refine .call trivial fun q hq => commitHealth_commits ?_
      refine Runtime.providerLoss_wellFormed (hp.active hac).1 (hp.active hac).2 h fun e he => ?_
      obtain ⟨hva, -, -, hpos, -⟩ := hq.evidence.evidence e (mem_of_latestHeartbeatEvidence he)
      exact (Runtime.reference_valid hva (Nat.one_le_iff_ne_zero.mp hpos)).1
  | runFreshnessOnce now =>
    refine .call trivial fun p hp => ?_
    dsimp only [exec]
    cases hac : activeEntity p.metrics.runtime with
    | none => trivial
    | some entity =>
      dsimp only
      split_ifs
      · trivial
      refine .call trivial fun q hq => ?_
      split
      · trivial
      split_ifs
      · trivial
      refine .call trivial fun q hq => ?_
      split
      · trivial
      next e hread =>
        split_ifs with hback
        · trivial
        · trivial
        · exact evaluate_commits hp.runtime (hp.active hac).1 hq
            (mem_of_latestHeartbeatEvidence hread) hback _

/-- Whatever happened before, each health result that a call of the metrics manager passes
to `commitHealth` is well-formed, and is not answered as an invalid argument. -/
theorem run_commitsWellFormed (processors : List (Option MetricProcessor))
    (executor : ProcessorExecutor) {ops : List MetricsOp} {op : MetricsOp}
    (hregular : ∀ a ∈ op :: ops, Regular a) :
    let p : DataPlane L := runFrom step ⟨.initial L processors, executor⟩ ops
    ∀ event ∈ (program op).trace p, ∀ r, event.call = .commitHealth r →
      r.WellFormed ∧
        (event.state.data.commitHealthLocked r).2.1.status.code ≠ .invalidArgument := by
  intro p event hevent r hr
  obtain ⟨hop, hops⟩ := List.forall_mem_cons.mp hregular
  have hsound : p.Sound := by
    refine invariant_along (fun p op h hop => ?_) ?_ (along_of_forall hops _)
    · cases op with
      | data op => exact ⟨h.runtime, apply_evidenceInvariant _ op h.evidence⟩
      | _ => exact ((program_commits hop).trace exec_sound h).2
    · exact ⟨⟨absurd rfl, nofun⟩, initial_evidenceInvariant L⟩
  have hwell := ((program_commits hop).trace exec_sound hsound).1 event hevent
  rw [hr] at hwell
  exact ⟨hwell, hwell.answer _⟩

section Concrete

open OneDevice (limits)
open SharedDevice (discovered declaring declaring_valid reporting)

/-- A view that was discovered is activated, in the data manager and then in the metrics
manager, which commits an unknown state for its device. -/
theorem run_commitsWellFormed_discovered :
    let view := (discovered declaring declaring_valid).catalog.snapshot
    let p : DataPlane limits :=
      runFrom step ⟨.initial limits [], { valid := ProcessorExecutorLimits.validate_default }⟩
        [.data (.activateCatalog (some view) declaring)]
    let trace := (program (.activateCatalog (some view) declaring 5)).trace p
    trace.filterMap (fun event => match event.call with
      | .commitHealth r => some r.state
      | _ => none) = [.unknown] ∧
      ∀ event ∈ trace, ∀ r, event.call = .commitHealth r → r.WellFormed := by
  intro view p trace
  have hview : view = {} ∨ ∃ target d, SemanticCatalog.CommittedView target d view := by
    have hviews := SemanticCatalog.run_viewsCommitted declaring_valid [reporting]
    refine hviews.snapshot.imp_right ?_
    rintro ⟨published, hmem, hsnapshot⟩
    obtain ⟨d, -, hcommitted⟩ := hviews.views published hmem
    rw [← hsnapshot] at hcommitted
    exact ⟨declaring, d, hcommitted⟩
  have hregular : ∀ a ∈ [.activateCatalog (some view) declaring 5,
      .data (.activateCatalog (some view) declaring)], Regular a := by
    simp only [List.forall_mem_cons, Regular]
    exact ⟨⟨by decide, fun _ heq => Option.some.inj heq ▸ hview⟩, trivial, List.forall_mem_nil _⟩
  refine ⟨by decide +kernel, fun event hevent r hr => ?_⟩
  exact (run_commitsWellFormed [] _ hregular event hevent r hr).1

end Concrete
end DataPlane
end Pdcm
