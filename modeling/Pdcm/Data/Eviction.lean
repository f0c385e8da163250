import Pdcm.Data.QueryRuns
import Pdcm.Data.ResourceBounds
import Pdcm.Library.OldestFirst

/-!
# Byte eviction

The eviction loop drains the histories of all keys, oldest sample first, and stops as soon as
the bytes fit. It fails to reach the limit only if the entries without any history exceed it,
provided that all observed times are below the one the scan starts from.
-/

namespace Pdcm

open Library List ShardedMap Observation

namespace DataManager

variable {L : Limits} {s : DataManager L} {obs : List Observation} {staged : Shards L}

theorem StoreInvariant.atHome (h : s.StoreInvariant) : s.shards.AtHome (shardIndex L) :=
  fun i key e he => (h i key e he).1

theorem stageAll_atHome {epoch : ℕ} {shards : Shards L} (hho : shards.AtHome (shardIndex L))
    (hst : stageAll epoch shards obs = .ok staged) : staged.AtHome (shardIndex L) := by
  intro i key e he
  by_contra hpl
  rw [stageAll_frame hst fun h => hpl h.1] at he
  exact hpl (hho i key e he)

/-! ### Histories by key -/

/-- The history of a key, empty for a key without an entry. -/
def historyAt (shards : Shards L) (key : DataKey) : List Observation :=
  (shards.find? (shardIndex L key) key).elim [] Entry.history

theorem oldestEntry_pops {i : Fin L.shardCount} {key : DataKey} {front : Observation}
    (hho : staged.AtHome (shardIndex L)) (h : oldestEntry staged = some (i, key, front)) :
    Pops observedMonotonicTimeNs (historyAt staged)
      (historyAt (staged.modify i key popHistory)) key front := by
  have hsc := scanned staged.bindings
  obtain ⟨e, rest, he, hh⟩ := oldestEntry_some h
  obtain rfl := hho i key e he
  constructor
  · simp [historyAt, find?_modify, he, popHistory, hh]
  · intro k hk
    simp [historyAt, find?_modify, hk]
  · intro k b hb
    cases hk : staged.find? (shardIndex L k) k with
    | none => simp [historyAt, hk] at hb
    | some f =>
      rw [← (hsc.found _ _ _ h).1]
      exact hsc.least _ (mem_bindings.mpr hk) b (by simpa [historyAt, hk] using hb)

/-- The loop has taken the samples of the log, one by one: they account for the bytes, and
before the last of them the bytes did not fit. -/
structure Evicted (staged after : Shards L) (log : List (DataKey × Observation)) : Prop where
  drains : Drains observedMonotonicTimeNs (historyAt staged) log (historyAt after)
  bytes : after.total entryBytes + (log.map fun p => observationBytes p.2).sum =
    staged.total entryBytes
  last : ∀ p ∈ log.getLast?, L.maxTotalBytes < after.total entryBytes + observationBytes p.2

theorem evictLoop_evicted (fuel : ℕ) (hho : staged.AtHome (shardIndex L)) :
    ∃ log, Evicted staged (evictLoop fuel staged (staged.total entryBytes)).1 log := by
  induction fuel generalizing staged with
  | zero => exact ⟨[], .nil _, rfl, by simp⟩
  | succ fuel ih =>
    rw [evictLoop]
    split_ifs with hfu
    · cases hol : oldestEntry staged with
      | none => exact ⟨[], .nil _, rfl, by simp⟩
      | some found =>
        obtain ⟨i, key, front⟩ := found
        have hby := total_popHistory hol
        obtain ⟨log, hlog⟩ := @ih (staged.modify i key popHistory) fun j k e he => by
          rw [find?_modify] at he
          split_ifs at he with hpl
          · obtain ⟨old, hold, -⟩ := Option.map_eq_some_iff.mp he
            exact hho j k old hold
          · exact hho j k e he
        dsimp only
        rw [← hby, Nat.add_sub_cancel]
        have hsum := hlog.bytes
        refine ⟨(key, front) :: log, .pop (oldestEntry_pops hho hol) hlog.drains, ?_, ?_⟩
        · simp only [map_cons, sum_cons]
          omega
        · -- the last of the log is the last of the rest, or the front popped here
          cases log with
          | nil =>
            rintro p ⟨⟩
            simp only [map_nil, sum_nil, getLast_singleton] at hsum ⊢
            omega
          | cons p rest => exact hlog.last
    · exact ⟨[], .nil _, rfl, by simp⟩

/-! ### Entries without their histories -/

/-- Every sample in the histories is from before the time the scan starts from. -/
def TimesBelow (shards : Shards L) : Prop :=
  ∀ i key e, shards.find? i key = some e → ∀ o ∈ e.history, o.observedMonotonicTimeNs < int64Max

instance (shards : Shards L) : Decidable (TimesBelow shards) :=
  decidable_of_iff
    (∀ b ∈ shards.bindings, ∀ o ∈ b.2.2.history, o.observedMonotonicTimeNs < int64Max)
    ⟨fun h i key e he => h (i, key, e) (mem_bindings.mpr he),
      fun h b hb => h b.1 b.2.1 b.2.2 (mem_bindings.mp hb)⟩

theorem record_history_subset (e : Entry) (o : Observation) :
    (e.record L o).history ⊆ e.history ++ [o] := by
  unfold Entry.record
  split_ifs
  · exact (trimHistory_suffix L o _).subset
  · exact subset_append_left _ _

theorem Passes.timesBelow (h : s.Passes obs staged) (hti : TimesBelow s.shards)
    (hobs : ∀ o ∈ obs, o.observedMonotonicTimeNs < int64Max) : TimesBelow staged := by
  intro i key e he p hp
  by_cases hpl : i = shardIndex L key ∧ key ∈ obs.map Observation.key
  · obtain ⟨rfl, hkey⟩ := hpl
    obtain ⟨o, ho, rfl⟩ := mem_map.mp hkey
    rw [(stageAll_written h.staged_eq h.check.2 ho).1, Option.some.injEq] at he
    rw [← he] at hp
    rcases mem_append.mp (record_history_subset _ _ hp) with hold | hnew
    · cases hst : s.shards.find? (shardIndex L o.key) o.key with
      | none => simp [hst] at hold
      | some old =>
        rw [hst] at hold
        exact hti _ _ old hst p hold
    · rw [mem_singleton.mp hnew]
      exact hobs o ho
  · rw [stageAll_frame h.staged_eq hpl] at he
    exact hti i key e he p hp

theorem evict_timesBelow (hti : TimesBelow staged) : TimesBelow (evict staged).1 := by
  intro i key e he o ho
  have hpl := evict_trimmed staged i key
  rw [he] at hpl
  obtain ⟨old, hold, htr⟩ := hpl.to_some
  exact hti i key old hold o (htr.history.subset ho)

def emptied (e : Entry) : Entry := { e with history := [] }

def emptiedBytes (e : Entry) : ℕ := entryBytes (emptied e)

theorem evict_emptied (staged : Shards L) :
    (evict staged).1.total emptiedBytes = staged.total emptiedBytes := by
  refine evictLoop_invariant (I := fun m _ => m.total emptiedBytes = staged.total emptiedBytes)
    ?_ _ rfl
  intro m bytes i key front hsa hol
  obtain ⟨e, rest, he, -⟩ := oldestEntry_some hol
  have hpop := total_modify emptiedBytes popHistory he
  have hen : emptiedBytes (popHistory e) = emptiedBytes e := rfl
  omega

/-- Eviction fails to reach the limit exactly if the entries without their histories exceed
it. -/
theorem evict_over_iff (hti : TimesBelow staged) :
    L.maxTotalBytes < (evict staged).2 ↔ L.maxTotalBytes < staged.total emptiedBytes := by
  have hco : (evict staged).2 = (evict staged).1.total entryBytes := evictLoop_total _ staged
  have hle : (evict staged).1.total emptiedBytes ≤ (evict staged).1.total entryBytes :=
    total_le fun _ _ e _ => by simp [emptiedBytes, emptied, entryBytes]
  rw [hco, ← evict_emptied staged]
  constructor
  · intro hov
    -- the loop has stopped because nothing is left to pop
    have hno : oldestEntry (evict staged).1 = none :=
      (evictLoop_settled _ staged _ le_rfl).resolve_left (hco.trans_gt hov).not_ge
    have hem : (evict staged).1.total entryBytes ≤ (evict staged).1.total emptiedBytes := by
      refine total_le fun i key e he => ?_
      have hhi : e.history = [] := by
        have hsc := scanned (evict staged).1.bindings
        cases hhi : e.history with
        | nil => rfl
        | cons front rest =>
          have hend := hsc.least (i, key, e) (mem_bindings.mpr he) front (by simp [hhi])
          rw [hsc.start hno] at hend
          exact absurd hend (evict_timesBelow hti i key e he front (by simp [hhi])).not_ge
      simp [emptiedBytes, emptied, entryBytes, hhi]
    exact hov.trans_le hem
  · exact fun hov => hov.trans_le hle

/-! ### What a commit evicts -/

theorem Passes.history_pairwise (h : s.Passes obs staged) (hst : s.StoreInvariant)
    (key : DataKey) : (historyAt staged key).Pairwise fun a b =>
      a.observedMonotonicTimeNs ≤ b.observedMonotonicTimeNs := by
  by_cases hkey : key ∈ obs.map Observation.key
  · obtain ⟨o, ho, rfl⟩ := mem_map.mp hkey
    rw [historyAt, (stageAll_written h.staged_eq h.check.2 ho).1]
    exact (h.committed.recorded hst ho).historyTimes
  · rw [historyAt, stageAll_frame h.staged_eq fun hk => hkey hk.2]
    cases hold : s.shards.find? (shardIndex L key) key with
    | none => exact .nil
    | some e => exact (hst _ key e hold).2.consistent.historyTimes

/-- Eviction is oldest-first, minimal and complete. Each history loses a front part of what
was staged for it, trimmed by count and duration; no removed sample is younger than a retained
one; with the last removed sample back the bytes do not fit. A batch is refused for its bytes
only if the entries without their histories do not fit. -/
theorem commit_evicts_oldest (ops : List DataOp) (htimes : TimesBelow (run L ops).shards)
    (hobs : ∀ o ∈ obs, o.observedMonotonicTimeNs < int64Max)
    (hpasses : (run L ops).Passes obs staged) :
    (¬Failure ((run L ops).commit obs).2.status →
      ∃ removed : List (DataKey × Observation),
        (∀ key, historyAt staged key =
          drainedFrom removed key ++ historyAt ((run L ops).commit obs).1.shards key) ∧
        (∀ p ∈ removed, ∀ key, ∀ o ∈ historyAt ((run L ops).commit obs).1.shards key,
          p.2.observedMonotonicTimeNs ≤ o.observedMonotonicTimeNs) ∧
        ∀ p ∈ removed.getLast?, L.maxTotalBytes <
          ((run L ops).commit obs).1.shards.total entryBytes + observationBytes p.2) ∧
    (((run L ops).commit obs).2.status = byteLimit ↔
      L.maxTotalBytes < staged.total emptiedBytes) := by
  have hstore := run_storeInvariant L ops
  have hover := evict_over_iff (hpasses.timesBelow htimes hobs)
  unfold commit
  rw [hpasses.commitLocked]
  by_cases hfit : L.maxTotalBytes < (evict staged).2
  · rw [if_pos hfit]
    refine ⟨fun hok => absurd ⟨by simp [byteLimit], by simp [byteLimit]⟩ hok, ?_⟩
    exact iff_of_true rfl (hover.mp hfit)
  · rw [if_neg hfit]
    refine ⟨fun _ => ?_, ?_⟩
    · obtain ⟨removed, hlog⟩ := evictLoop_evicted (staged.total historyLength)
        (stageAll_atHome hstore.atHome hpasses.staged_eq)
      rw [publishAll_shards]
      exact ⟨removed, hlog.drains.split, hlog.drains.oldest (hpasses.history_pairwise hstore),
        hlog.last⟩
    · refine iff_of_false (fun hstatus => ?_) (mt hover.mpr hfit)
      apply batchStatus_not_failure obs
      rw [show batchStatus obs = byteLimit from hstatus]
      exact ⟨by simp [byteLimit], by simp [byteLimit]⟩

end DataManager

namespace TwoMetrics

open DataManager

/-- Room for one entry with one sample in its history, and not for a second sample. -/
def tightLimits : Limits := { maxTotalBytes := 2500, maxValueBytes := 64, valid := by decide }

def inletOnce : List DataOp := [.activateCatalog (some view) target, .commit [sample 7 20 1]]

/-- The second sample of the inlet is committed, and the first one goes. -/
theorem commit_evicts_oldest_inletOnce :
    let s := ((run tightLimits inletOnce).commit [sample 7 21 2]).1
    (historyAt s.shards inlet).map observedMonotonicTimeNs = [2] ∧
      ∃ staged removed, (run tightLimits inletOnce).Passes [sample 7 21 2] staged ∧
        historyAt staged inlet = drainedFrom removed inlet ++ historyAt s.shards inlet := by
  refine ⟨by decide +kernel, ?_⟩
  have hok : ((run tightLimits inletOnce).commitLocked [sample 7 21 2]).2.1.status = .success := by
    decide +kernel
  rcases (run tightLimits inletOnce).commitLocked_passes [sample 7 21 2] with
    ⟨status, hfail, hs⟩ | ⟨staged, hpasses, -, -⟩
  · rw [hs] at hok
    exact absurd (congrArg Status.code hok) hfail.1
  · obtain ⟨removed, hsplit, -, -⟩ := (commit_evicts_oldest inletOnce (by decide +kernel)
      (by decide) hpasses).1 fun h => h.1 (congrArg Status.code hok)
    exact ⟨staged, removed, hpasses, hsplit inlet⟩

end TwoMetrics
end Pdcm
