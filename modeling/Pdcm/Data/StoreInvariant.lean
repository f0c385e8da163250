import Pdcm.Library.Runs
import Pdcm.Data.HealthStore

/-!
# The store invariant

What holds of every stored entry in every state that calls of the data manager can
reach. `Consistent` relates the three parts of an entry to each other; it also holds
of the empty entry that staging starts from, so recording a sample needs no case for
new keys.
-/

namespace Pdcm

open Library List

/-- The parts of an entry fit together. The entry belongs to `key`, every sample
carries the generation `generation` and no epoch beyond `epoch`. -/
structure Consistent (generation epoch : ℕ) (key : DataKey) (e : Entry) : Prop where
  own : ∀ o, e.latest = some o ∨ e.lastValid = some o ∨ o ∈ e.history →
    o.key = key ∧ o.catalogGeneration = generation
  latest : ∀ o, e.latest = some o → 1 ≤ o.commitEpoch ∧ o.commitEpoch ≤ epoch ∧
    o.status ≠ .stale ∧ (o.status = .valid → e.lastValid = some o)
  lastValid : ∀ v, e.lastValid = some v → v.status = .valid ∧ ∃ o, e.latest = some o ∧
    v.commitEpoch ≤ o.commitEpoch ∧ v.observedMonotonicTimeNs ≤ o.observedMonotonicTimeNs
  historyValid : ∀ o ∈ e.history, o.status = .valid
  historyTimes : e.history.Pairwise fun a b =>
    a.observedMonotonicTimeNs ≤ b.observedMonotonicTimeNs
  historyEpochs : e.history.Pairwise fun a b => a.commitEpoch < b.commitEpoch
  historyLast : ∀ o, e.history.getLast? = some o → e.lastValid = some o

namespace Consistent

variable {generation epoch : ℕ} {key : DataKey} {e : Entry}

theorem empty : Consistent generation epoch key {} := by
  constructor <;> simp

section

variable (h : Consistent generation epoch key e)

include h

theorem mono {epoch' : ℕ} (hle : epoch ≤ epoch') :
    Consistent generation epoch' key e :=
  { h with latest := fun o ho =>
      let ⟨h1, h2, h3⟩ := h.latest o ho
      ⟨h1, h2.trans hle, h3⟩ }

theorem trimmed {e' : Entry}
    (ht : DataManager.TrimmedTo e e') : Consistent generation epoch key e' := by
  obtain ⟨hla, hva, hsu⟩ := ht
  refine ⟨?_, ?_, ?_, ?_, ?_, ?_, ?_⟩
  · intro o ho
    rw [hla, hva] at ho
    exact h.own o (ho.imp_right (.imp_right fun hm => hsu.subset hm))
  · rw [hla, hva]
    exact h.latest
  · rw [hla, hva]
    exact h.lastValid
  · intro o ho
    exact h.historyValid o (hsu.subset ho)
  · exact h.historyTimes.sublist hsu.sublist
  · exact h.historyEpochs.sublist hsu.sublist
  · intro o ho
    rw [hva]
    refine h.historyLast o ?_
    obtain ⟨front, hfr⟩ := hsu
    rw [← hfr, getLast?_append, ho]
    rfl

theorem history_le {o : Observation} (ho : o ∈ e.history) :
    ∃ v, e.lastValid = some v ∧ o.commitEpoch ≤ v.commitEpoch ∧
      o.observedMonotonicTimeNs ≤ v.observedMonotonicTimeNs := by
  have hne : e.history ≠ [] := ne_nil_of_mem ho
  refine ⟨e.history.getLast hne, h.historyLast _ (getLast?_eq_some_getLast hne), ?_⟩
  rw [← dropLast_append_getLast hne, mem_append, mem_singleton] at ho
  rcases ho with ho | rfl
  · have hti := h.historyTimes
    have hep := h.historyEpochs
    rw [← dropLast_append_getLast hne, pairwise_append] at hti hep
    exact ⟨(hep.2.2 o ho _ (by simp)).le, hti.2.2 o ho _ (by simp)⟩
  · exact ⟨le_rfl, le_rfl⟩

theorem history_le_latest {o : Observation}
    (ho : o ∈ e.history) : ∃ l, e.latest = some l ∧ o.commitEpoch ≤ l.commitEpoch ∧
      o.observedMonotonicTimeNs ≤ l.observedMonotonicTimeNs := by
  obtain ⟨v, hv, hep, hti⟩ := h.history_le ho
  obtain ⟨-, l, hl, hep', hti'⟩ := h.lastValid v hv
  exact ⟨l, hl, hep.trans hep', hti.trans hti'⟩

end

variable {L : Limits} {o : Observation} (h : Consistent generation epoch key e) (hkey : o.key = key)
  (hgen : o.catalogGeneration = generation) (hep : o.commitEpoch = epoch + 1)
  (hti : ∀ l, e.latest = some l → l.observedMonotonicTimeNs ≤ o.observedMonotonicTimeNs)
include h hkey hgen hep hti

/-- A recorded valid sample becomes latest, last valid and the end of the history. -/
theorem record_valid (hva : o.status = .valid) :
    Consistent generation (epoch + 1) key (e.record L o) := by
  -- the untrimmed entry is consistent, and trimming drops a front part of its history
  let full : Entry := { latest := some o, lastValid := some o, history := e.history ++ [o] }
  have hfu : Consistent generation (epoch + 1) key full := by
    refine ⟨?_, ?_, ?_, ?_, ?_, ?_, ?_⟩
    · rintro p (hp | hp | hp)
      · cases hp
        exact ⟨hkey, hgen⟩
      · cases hp
        exact ⟨hkey, hgen⟩
      · rcases mem_append.mp hp with hp | hp
        · exact h.own p (.inr (.inr hp))
        · rw [mem_singleton.mp hp]
          exact ⟨hkey, hgen⟩
    · intro p hp
      cases hp
      exact ⟨by omega, by omega, by simp [hva], fun _ => rfl⟩
    · intro v hv
      cases hv
      exact ⟨hva, o, rfl, le_rfl, le_rfl⟩
    · intro p hp
      rcases mem_append.mp hp with hp | hp
      · exact h.historyValid p hp
      · rw [mem_singleton.mp hp]
        exact hva
    · refine pairwise_append.mpr ⟨h.historyTimes, pairwise_singleton _ _, ?_⟩
      intro a ha b hb
      obtain ⟨l, hl, -, hle⟩ := h.history_le_latest ha
      rw [mem_singleton.mp hb]
      exact hle.trans (hti l hl)
    · refine pairwise_append.mpr ⟨h.historyEpochs, pairwise_singleton _ _, ?_⟩
      intro a ha b hb
      obtain ⟨l, hl, hle, -⟩ := h.history_le_latest ha
      have hlep := (h.latest l hl).2.1
      rw [mem_singleton.mp hb]
      omega
    · intro p hp
      simpa [full] using hp
  rw [Entry.record, if_pos hva]
  exact hfu.trimmed ⟨rfl, rfl, trimHistory_suffix L o _⟩

theorem record (hst : o.status ≠ .stale) :
    Consistent generation (epoch + 1) key (e.record L o) := by
  by_cases hva : o.status = .valid
  · exact h.record_valid hkey hgen hep hti hva
  · rw [Entry.record, if_neg hva]
    refine { h with own := ?_, latest := ?_, lastValid := ?_ }
    · rintro p (hp | hp)
      · cases hp
        exact ⟨hkey, hgen⟩
      · exact h.own p (.inr hp)
    · intro p hp
      cases hp
      exact ⟨by omega, by omega, hst, fun hv => absurd hv hva⟩
    · intro v hv
      obtain ⟨hvv, l, hl, hle, hob⟩ := h.lastValid v hv
      have hlep := (h.latest l hl).2.1
      exact ⟨hvv, o, rfl, by omega, hob.trans (hti l hl)⟩

end Consistent

/-! ### Calls and runs -/

/-- The state-changing calls of the data manager. -/
inductive DataOp where
  | activateCatalog (catalog : Option CatalogView) (target : TargetCatalog)
  | commit (observations : List Observation)
  | commitHeartbeatEvidence (evidence : FirmwareHeartbeatEvidence)
  | commitHealth (result : HealthResult)
  | publishEvent (draft : EventDraft)

namespace DataManager

variable {L : Limits} {s t : DataManager L} {obs : List Observation} {shards : Shards L}
  {o : Observation} {P : DataManager L → Prop}

def apply (s : DataManager L) : DataOp → DataManager L
  | .activateCatalog catalog target => (s.activateCatalog catalog target).1
  | .commit observations => (s.commit observations).1
  | .commitHeartbeatEvidence evidence => (s.commitHeartbeatEvidence evidence).1
  | .commitHealth result => (s.commitHealth result).1
  | .publishEvent draft => (s.publishEvent draft).1

/-- The state after a sequence of calls on a new manager. -/
def run (L : Limits) (ops : List DataOp) : DataManager L := runFrom apply (initial L) ops

/-! ### Critical sections -/

/-- The store after one critical section. -/
inductive DataStep (s : DataManager L) : DataManager L → Prop
  | unchanged : DataStep s s
  | activated (catalog : Option CatalogView) (target : TargetCatalog) :
      DataStep s (s.activateCatalogLocked catalog target).1
  | committed (observations : List Observation) : DataStep s (s.commitLocked observations).1
  | evidence (e : FirmwareHeartbeatEvidence) : DataStep s (s.commitHeartbeatEvidence e).1
  | health (r : HealthResult) : DataStep s (s.commitHealthLocked r).1
  | published (draft : EventDraft) : DataStep s (s.publishEvent draft).1

/-- What the critical section of a call leaves of the store, with what it has checked before. -/
inductive Outcome (s : DataManager L) : DataOp → DataManager L → Prop
  | unchanged {op : DataOp} : Outcome s op s
  | activated {cat : Option CatalogView} {view : CatalogView} {target : TargetCatalog}
      (hva : target.validate.ok = true) (hlt : s.catalog.generation < view.generation) :
      Outcome s (.activateCatalog cat target) (s.underCatalog view target)
  | committed {obs : List Observation} {shards : Shards L} (hc : s.Committed obs shards) :
      Outcome s (.commit obs) { s with shards := shards, commitEpoch := s.commitEpoch + 1 }
  | evidence {e : FirmwareHeartbeatEvidence} {rest : List FirmwareHeartbeatEvidence}
      (hst : s.EvidenceStored e rest) :
      Outcome s (.commitHeartbeatEvidence e) (s.withEvidence e rest)
  | health {r : HealthResult} (hr : s.HealthAccepted r) :
      Outcome s (.commitHealth r) (s.withHealth r)
  | published (draft : EventDraft) : Outcome s (.publishEvent draft) (s.publishEvent draft).1

theorem activateCatalogLocked_outcome (cat : Option CatalogView) (target : TargetCatalog) :
    s.Outcome (.activateCatalog cat target) (s.activateCatalogLocked cat target).1 := by
  rcases s.activateCatalogLocked_cases cat target with hs | ⟨view, -, hva, hlt, -, hs⟩
  · rw [hs]
    exact .unchanged
  · rw [hs]
    exact .activated hva hlt

theorem commitLocked_outcome (obs : List Observation) :
    s.Outcome (.commit obs) (s.commitLocked obs).1 := by
  rcases s.commitLocked_cases obs with ⟨-, hs, -⟩ | ⟨-, shards, hc, hs, -⟩
  · rw [hs]
    exact .unchanged
  · rw [hs]
    exact .committed hc

theorem commitHeartbeatEvidence_outcome (e : FirmwareHeartbeatEvidence) :
    s.Outcome (.commitHeartbeatEvidence e) (s.commitHeartbeatEvidence e).1 := by
  rcases s.commitHeartbeatEvidence_cases e with ⟨hs, -⟩ | ⟨rest, hst, hs, -⟩
  · rw [hs]
    exact .unchanged
  · rw [hs]
    exact .evidence hst

theorem commitHealthLocked_outcome (r : HealthResult) :
    s.Outcome (.commitHealth r) (s.commitHealthLocked r).1 := by
  rcases s.commitHealthLocked_cases r with ⟨-, hs, -⟩ | ⟨hr, -, hs⟩
  · rw [hs]
    exact .unchanged
  · rw [hs]
    exact .health hr

theorem DataStep.outcome (h : DataStep s t) : ∃ op, s.Outcome op t := by
  cases h with
  | unchanged => exact ⟨.commit [], .unchanged⟩
  | activated cat target => exact ⟨_, activateCatalogLocked_outcome cat target⟩
  | committed obs => exact ⟨_, commitLocked_outcome obs⟩
  | evidence e => exact ⟨_, commitHeartbeatEvidence_outcome e⟩
  | health r => exact ⟨_, commitHealthLocked_outcome r⟩
  | published draft => exact ⟨_, .published draft⟩

/-- A call is a critical section and the publication of its events. -/
theorem apply_outcome (s : DataManager L) (op : DataOp) :
    ∃ t drafts, s.Outcome op t ∧ s.apply op = t.publishAll drafts := by
  cases op with
  | activateCatalog cat target => exact ⟨_, _, activateCatalogLocked_outcome cat target, rfl⟩
  | commit obs => exact ⟨_, _, commitLocked_outcome obs, rfl⟩
  | commitHeartbeatEvidence e => exact ⟨_, [], commitHeartbeatEvidence_outcome e, rfl⟩
  | commitHealth r => exact ⟨_, _, commitHealthLocked_outcome r, rfl⟩
  | publishEvent draft => exact ⟨_, [], .published draft, rfl⟩

theorem invariant_publishAll (hst : ∀ s t : DataManager L, DataStep s t → P s → P t) (hs : P s)
    (drafts : List EventDraft) : P (s.publishAll drafts) := by
  induction drafts generalizing s with
  | nil => exact hs
  | cons d rest ih => exact ih (hst s _ (.published d) hs)

theorem invariant_apply (hst : ∀ s t : DataManager L, DataStep s t → P s → P t) (hs : P s)
    (op : DataOp) : P (s.apply op) := by
  cases op with
  | activateCatalog cat target =>
    exact invariant_publishAll hst (hst _ _ (.activated cat target) hs) _
  | commit obs =>
    exact invariant_publishAll hst (hst _ _ (.committed obs) hs) _
  | commitHeartbeatEvidence ev => exact hst _ _ (.evidence ev) hs
  | commitHealth res => exact invariant_publishAll hst (hst _ _ (.health res) hs) _
  | publishEvent draft => exact hst _ _ (.published draft) hs

/-! ### The invariant -/

/-- The invariant of one stored entry. -/
structure EntryInvariant (s : DataManager L) (key : DataKey) (e : Entry) : Prop where
  entity : key.entity ∈ s.catalog.entities
  metric : (s.catalog.metrics.find? key.metric).isSome
  present : e.latest.isSome
  consistent : Consistent s.catalog.generation s.commitEpoch key e

/-- Every key is stored in its own shard only, and its entry is in order. -/
def StoreInvariant (s : DataManager L) : Prop :=
  ∀ i key e, s.shards.find? i key = some e → i = shardIndex L key ∧ s.EntryInvariant key e

/-- The invariant reads the shards and the catalog, and tolerates a later epoch. -/
theorem StoreInvariant.of_eq {t : DataManager L} (h : s.StoreInvariant)
    (hsh : t.shards = s.shards) (hcat : t.catalog = s.catalog)
    (hep : s.commitEpoch ≤ t.commitEpoch) : t.StoreInvariant := by
  intro i key e he
  rw [hsh] at he
  obtain ⟨hi, hen, hme, hpr, hc⟩ := h i key e he
  refine ⟨hi, ?_, ?_, hpr, ?_⟩
  · rwa [hcat]
  · rwa [hcat]
  · rw [hcat]
    exact hc.mono hep

theorem initial_storeInvariant (L : Limits) : (initial L).StoreInvariant := by
  intro i key e he
  simp [initial] at he

/-- What a committed batch records for one of its keys fits together. -/
theorem Committed.recorded (hc : s.Committed obs shards) (h : s.StoreInvariant) (ho : o ∈ obs) :
    Consistent s.catalog.generation (s.commitEpoch + 1) o.key
      (((s.stored? o.key).getD {}).record L (o.stamped (s.commitEpoch + 1))) := by
  have hacc := hc.accepted o ho
  have hold : Consistent s.catalog.generation s.commitEpoch o.key ((s.stored? o.key).getD {}) := by
    cases hs : s.stored? o.key with
    | none => exact .empty
    | some old => exact (h _ _ _ hs).2.consistent
  have hti : ∀ l, ((s.stored? o.key).getD {}).latest = some l →
      l.observedMonotonicTimeNs ≤ (o.stamped (s.commitEpoch + 1)).observedMonotonicTimeNs := by
    intro l hl
    cases hs : s.stored? o.key with
    | none => simp [hs] at hl
    | some old => exact hc.time o ho old l hs (by simpa [hs] using hl)
  exact hold.record rfl hacc.generation rfl hti hacc.notStale

theorem Committed.storeInvariant (hc : s.Committed obs shards) (h : s.StoreInvariant) :
    StoreInvariant { s with shards := shards, commitEpoch := s.commitEpoch + 1 } := by
  intro i key e he
  obtain ⟨o, ho, rfl, rfl, htr⟩ | ⟨old, hold, htr⟩ := hc.find?_cases he
  · have hacc := hc.accepted o ho
    refine ⟨rfl, hacc.entity, hacc.metric, ?_, (hc.recorded h ho).trimmed htr⟩
    simp [htr.latest]
  · obtain ⟨hi, hen, hme, hpr, hco⟩ := h i key old hold
    refine ⟨hi, hen, hme, ?_, (hco.mono (Nat.le_succ _)).trimmed htr⟩
    rwa [htr.latest]

theorem DataStep.storeInvariant (hst : DataStep s t) (h : s.StoreInvariant) :
    t.StoreInvariant := by
  obtain ⟨op, hout⟩ := hst.outcome
  cases hout with
  | unchanged => exact h
  | activated =>
    intro i key e he
    simp at he
  | committed hc => exact hc.storeInvariant h
  | evidence => exact h.of_eq rfl rfl (Nat.le_succ _)
  | health => exact h.of_eq rfl rfl (Nat.le_succ _)
  | published => exact h.of_eq rfl rfl le_rfl

/-- The store invariant holds in every state that calls of the manager can reach. -/
theorem run_storeInvariant (L : Limits) (ops : List DataOp) : (run L ops).StoreInvariant :=
  invariant_run (I := StoreInvariant)
    (fun _ op h => invariant_apply (fun _ _ hst h => hst.storeInvariant h) h op)
    (initial_storeInvariant L) ops

end DataManager
end Pdcm
