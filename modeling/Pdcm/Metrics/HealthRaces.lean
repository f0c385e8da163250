import Pdcm.Metrics.HealthQuery

/-!
# Queries that heartbeats overtake

A health query reads the clock and then the latest evidence. A heartbeat that is stamped
and committed between the two reads lies in the future of the query's time, and the
query answers UNKNOWN although both the old and the new evidence are determinate.
-/

namespace Pdcm

open Library

namespace MetricsManager

variable {L : Limits} {m : MetricsManager L} {c e : FirmwareHeartbeatEvidence}
  {entity : EntityRef} {now : ℤ} {freshness : ℕ}

/-- Where the commit of a heartbeat falls among the two reads of a query. -/
inductive CommitPoint
  | beforeClock
  | betweenReads
  | afterReads
  deriving DecidableEq, Repr

/-- The manager from which the query reads its evidence. -/
def CommitPoint.met (m : MetricsManager L) (e : FirmwareHeartbeatEvidence) :
    CommitPoint → MetricsManager L
  | .afterReads => m
  | _ => m.apply (.data (.commitHeartbeatEvidence e))

/-- A query that reads the clock at `now` races with the commit of newer VALID evidence,
stamped from the same clock. Asked before the commit, at `asked`, it would have answered
`old`; a query whose clock reading precedes the commit is asked at that reading. -/
structure Race (m : MetricsManager L) (e : FirmwareHeartbeatEvidence) (point : CommitPoint)
    (request : HealthRequest) (asked now : ℤ) (old : HealthResult) : Prop where
  committed : (m.data.commitHeartbeatEvidence e).2.committed = true
  valid : e.status = .valid
  answer : (m.queryHealth request asked).item = some old
  determinate : old.state ≠ .unknown
  clock : asked ≤ now ∧ (point ≠ .beforeClock → asked = now)
  stamped : point = .beforeClock → e.observedMonotonicTimeNs ≤ now
  fresh : now - e.observedMonotonicTimeNs ≤
    effectiveFreshness m.runtime.heartbeat.freshnessNs request.maxAgeNs

theorem heartbeatAt_future (h : m.Reads entity e) (hlt : now < e.observedMonotonicTimeNs) :
    (m.heartbeatAt entity now freshness).state = .unknown := by
  have hre := DataManager.latestHeartbeatEvidence_evidence.mpr ⟨h.readable, h.latest⟩
  unfold heartbeatAt
  rw [if_neg (by simp [h.supported])]
  simp only [hre]
  rw [if_pos hlt]
  rfl

/-- The catalog has one entity, so a query that was backed reads the new evidence. -/
theorem backed_of_committed (hinv : m.data.EvidenceInvariant)
    (hcom : (m.data.commitHeartbeatEvidence e).2.committed = true)
    (hb : m.Backed entity now freshness c) :
    (m.apply (.data (.commitHeartbeatEvidence e))).Reads entity (e.withId m.data.nextEvidenceId) ∧
      (validateFirmwareHeartbeatEvidence e).ok = true := by
  obtain ⟨hla, rfl⟩ := hinv.latestEvidence?_eq_some.mp hb.latest
  have hnew := m.apply_evidenceInvariant (.data (.commitHeartbeatEvidence e)) hinv
  rcases m.data.commitHeartbeatEvidence_cases e with ⟨-, hre⟩ | ⟨rest, hst, hs, -⟩
  · simp [hre] at hcom
  · have hen := hinv.entity_eq (List.mem_of_getLast? hla) hst.entity
    simp only [apply, DataManager.apply, hs] at hnew ⊢
    exact ⟨⟨hb.supported, hb.readable,
      hnew.latestEvidence?_eq_some.mpr ⟨by simp [DataManager.withEvidence], hen.symm⟩⟩, hst.valid⟩

/-- The old and the new evidence are determinate, so the answer is UNKNOWN exactly if the
heartbeat was committed between the reads and is later than the clock reading. -/
theorem racing_query (L : Limits) (ps : List (Option MetricProcessor))
    (ops : List MetricsOp) (e : FirmwareHeartbeatEvidence) (point : CommitPoint)
    (req : HealthRequest) (asked now : ℤ) (old : HealthResult)
    (h : Race (run L ps ops) e point req asked now old) :
    ∃ item, ((point.met (run L ps ops) e).queryHealth req now).item = some item ∧
      (item.state = .unknown ↔ point = .betweenReads ∧ now < e.observedMonotonicTimeNs) ∧
      (item.state ≠ .unknown → item.state = old.state ∨ ClassOf item.state e.nativeClass) := by
  have hinv := run_evidenceInvariant L ps ops
  generalize run L ps ops = m at hinv h ⊢
  obtain ⟨hactive, hasked, hgen, rfl⟩ := queryHealth_item h.answer
  have hstate := h.determinate
  obtain ⟨hsubsystem, heq⟩ := queryItem_determinate hstate
  rw [heq] at hstate
  obtain ⟨c, hb⟩ := backed_of_determinate hstate
  by_cases hafter : point = .afterReads
  · subst hafter
    obtain rfl := h.clock.2 (by decide)
    exact ⟨_, h.answer, by simp [h.determinate], fun _ => .inl rfl⟩
  · have hmet : point.met m e = m.apply (.data (.commitHeartbeatEvidence e)) := by
      cases point <;> first | rfl | exact absurd rfl hafter
    rw [hmet]
    refine ⟨_, queryHealth_accepts hactive (hasked.trans h.clock.1) hgen, ?_⟩
    have hruntime : (m.apply (.data (.commitHeartbeatEvidence e))).runtime = m.runtime := rfl
    rw [queryItem, if_pos hsubsystem, hruntime]
    obtain ⟨hnew, hwell⟩ := backed_of_committed hinv h.committed hb
    by_cases hle : e.observedMonotonicTimeNs ≤ now
    · have hfresh : toUint64 (now - e.observedMonotonicTimeNs) ≤
          effectiveFreshness m.runtime.heartbeat.freshnessNs req.maxAgeNs := by
        have := toUint64_of_nonneg (sub_nonneg.mpr hle)
        have := h.fresh
        omega
      have hknown := determinate_known ((validEvidence_of_ok hwell).2.2.2.2.1 h.valid).1
      rw [heartbeatAt_of_backed ⟨hnew, h.valid, hle, hfresh⟩]
      exact ⟨iff_of_false hknown fun hlate => absurd hle (not_le.mpr hlate.2),
        fun _ => .inr (classOf_determinate hknown)⟩
    · -- the query's clock reading precedes the stamp, so the commit fell between the reads
      have hbetween : point = .betweenReads := by
        cases point with
        | beforeClock => exact absurd (h.stamped rfl) hle
        | betweenReads => rfl
        | afterReads => exact absurd rfl hafter
      rw [heartbeatAt_future hnew (not_le.mp hle)]
      exact ⟨iff_of_true rfl ⟨hbetween, not_le.mp hle⟩, fun hne => absurd rfl hne⟩

section Concrete

open OneDevice

/-- The clock is read at 5; a heartbeat stamped at 6 is committed before the evidence is
read. Both heartbeats are normal, and the answer is UNKNOWN. -/
theorem overtaken_query :
    (∃ old, Race (run limits [] healthyRun) (normal 2 6) .betweenReads { entity := device } 5 5
      old) ∧
      ((CommitPoint.betweenReads.met (run limits [] healthyRun) (normal 2 6)).queryHealth
        { entity := device } 5).item.map HealthResult.state = some .unknown := by
  refine ⟨⟨_, by decide +kernel, rfl, rfl, by decide +kernel, by decide, by decide, ?_⟩, ?_⟩
  · decide +kernel
  · decide +kernel

theorem racing_query_stamped :
    ∃ item, ((CommitPoint.betweenReads.met (run limits [] healthyRun) (normal 2 4)).queryHealth
      { entity := device } 5).item = some item ∧ item.state ≠ .unknown := by
  obtain ⟨item, hitem, hstate, -⟩ := racing_query limits [] healthyRun (normal 2 4) .betweenReads
    { entity := device } 5 5 _
    ⟨by decide +kernel, rfl, rfl, by decide +kernel, by decide, by decide, by decide +kernel⟩
  exact ⟨item, hitem, fun hunknown => absurd (hstate.mp hunknown).2 (by decide)⟩

end Concrete

end MetricsManager
end Pdcm
