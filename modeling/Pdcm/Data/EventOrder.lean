import Pdcm.Data.QueryRuns
import Pdcm.Data.Subscription

/-!
# The order of events and the order of commits

`commit` and `activateCatalog` change the store under its locks and publish their events
after they released them, so the publications of two calls can come in any order. A run
lists the critical sections of any number of calls: the locked part of a call leaves the
drafts it has yet to publish, and every later publication takes the next one of some
call. If the calls publish in the order of their locked parts, events are in the order of
the commits; the code does not see to that.
-/

namespace Pdcm

open Library DataManager List

/-- The commit epoch that a metric update announces. -/
def EventDraft.commitEpoch (d : EventDraft) : ℕ :=
  match d.payload with
  | .metricUpdate p => p.commitEpoch
  | _ => 0

/-- `b` may follow `a`: its catalog is not older, and if both announce the same key its
epoch is newer. -/
def EventDraft.Precedes (a b : EventDraft) : Prop :=
  a.catalogGeneration ≤ b.catalogGeneration ∧
    (a.type = .metricUpdate → b.type = .metricUpdate → a.entity = b.entity → a.metric = b.metric →
      a.commitEpoch < b.commitEpoch)

instance (a b : EventDraft) : Decidable (a.Precedes b) := inferInstanceAs (Decidable (_ ∧ _))

/-- The store, the drafts that the calls past their locked part have yet to publish, in the
order of the locked parts, and the events that these calls published. -/
structure PublicationTrace (L : Limits) where
  data : DataManager L
  calls : List (List EventDraft) := []
  published : List PdcmEvent := []

/-- The critical sections. `call` is the place of a call in the order of the locked parts;
the other calls of the manager only matter for the store. -/
inductive PublicationOp where
  | commit (observations : List Observation)
  | activateCatalog (catalog : Option CatalogView) (target : TargetCatalog)
  | publishNext (call : ℕ)
  | commitHeartbeatEvidence (evidence : FirmwareHeartbeatEvidence)
  | commitHealth (result : HealthResult)
  | publishEvent (draft : EventDraft)

namespace PublicationTrace

variable {L : Limits} (s : DataManager L) {obs : List Observation}

def publishNext (t : PublicationTrace L) (call : ℕ) : PublicationTrace L :=
  match t.calls[call]? with
  | some (draft :: rest) =>
    { data := (t.data.publishEvent draft).1
      calls := t.calls.set call rest
      published := t.published ++ (t.data.publishEvent draft).2.event.toList }
  | _ => t

def step (t : PublicationTrace L) : PublicationOp → PublicationTrace L
  | .commit observations =>
    { t with
      data := (t.data.commitLocked observations).1
      calls := t.calls ++ [(t.data.commitLocked observations).2.2] }
  | .activateCatalog catalog target =>
    { t with
      data := (t.data.activateCatalogLocked catalog target).1
      calls := t.calls ++ [(t.data.activateCatalogLocked catalog target).2.2] }
  | .publishNext call => t.publishNext call
  | .commitHeartbeatEvidence evidence =>
    { t with data := (t.data.commitHeartbeatEvidence evidence).1 }
  | .commitHealth result => { t with data := (t.data.commitHealthLocked result).1 }
  | .publishEvent draft => { t with data := (t.data.publishEvent draft).1 }

def run (L : Limits) (ops : List PublicationOp) : PublicationTrace L :=
  runFrom step { data := DataManager.initial L } ops

/-- A call publishes when all earlier ones are done. -/
def InTurn (t : PublicationTrace L) : PublicationOp → Prop
  | .publishNext call => ∀ drafts ∈ t.calls.take call, drafts = []
  | _ => True

instance (t : PublicationTrace L) (op : PublicationOp) : Decidable (t.InTurn op) :=
  match op with
  | .publishNext call => inferInstanceAs (Decidable (∀ drafts ∈ t.calls.take call, drafts = []))
  | .commit _ | .activateCatalog _ _ | .commitHeartbeatEvidence _ | .commitHealth _
  | .publishEvent _ => inferInstanceAs (Decidable True)

/-- The events of the calls, in the order of their sequence numbers, are in the order of the
commits. -/
def EventsInOrder (t : PublicationTrace L) : Prop :=
  t.published.Pairwise fun e f => e.sequence < f.sequence ∧ e.Precedes f.toEventDraft

instance (t : PublicationTrace L) : Decidable t.EventsInOrder :=
  inferInstanceAs (Decidable (List.Pairwise _ _))

/-! ### The drafts of one call -/

theorem nodup_of_commitLocked {s : DataManager L} (h : (s.commitLocked obs).2.2 ≠ []) :
    (obs.map Observation.key).Nodup := by
  rcases s.commitLocked_passes obs with ⟨st, -, hs⟩ | ⟨staged, hpa, -, -⟩
  · rw [hs] at h
    exact absurd rfl h
  · exact hpa.check.2

/-! ### What a locked part leaves -/

/-- A locked part moves the catalog and the epoch forward, leaves the event store alone, and
its drafts are newer than everything before it. -/
structure Locked (s s' : DataManager L) (drafts : List EventDraft) : Prop where
  generation : s.catalog.generation ≤ s'.catalog.generation
  epoch : s.commitEpoch ≤ s'.commitEpoch
  store : s'.eventStore = s.eventStore
  ordered : drafts.Pairwise EventDraft.Precedes
  current : ∀ d ∈ drafts, d.catalogGeneration = s'.catalog.generation ∧
    d.commitEpoch ≤ s'.commitEpoch
  newer : ∀ d ∈ drafts, d.type = .metricUpdate → s.commitEpoch < d.commitEpoch

theorem Locked.refl : Locked s s [] :=
  ⟨le_rfl, le_rfl, rfl, List.Pairwise.nil, by simp, by simp⟩

theorem commitLocked_locked (obs : List Observation) :
    Locked s (s.commitLocked obs).1 (s.commitLocked obs).2.2 := by
  rcases s.commitLocked_cases obs with ⟨-, hs, hdr⟩ | ⟨-, shards, hco, hs, hdr⟩
  · rw [hs, hdr]
    exact .refl s
  · have hgen : ∀ o ∈ obs, o.catalogGeneration = s.catalog.generation :=
      fun o ho => (hco.accepted o ho).generation
    have hor : (s.commitLocked obs).2.2.Pairwise EventDraft.Precedes := by
      by_cases hnil : (s.commitLocked obs).2.2 = []
      · rw [hnil]
        exact .nil
      · have hno := nodup_of_commitLocked hnil
        rw [nodup_iff_pairwise_ne, pairwise_map] at hno
        rw [hdr, pairwise_map]
        refine hno.imp_of_mem fun ho hp hne => ⟨?_, fun _ _ hen hme => absurd ?_ hne⟩
        · simp only [metricUpdateDraft]
          rw [hgen _ ho, hgen _ hp]
        · simp only [metricUpdateDraft, Option.some.injEq] at hen hme
          simp [Observation.key, hen, hme]
    refine ⟨?_, ?_, ?_, hor, ?_, ?_⟩
    · rw [hs]
    · rw [hs]
      exact Nat.le_succ _
    · rw [hs]
    · intro d hd
      rw [hdr] at hd
      obtain ⟨o, ho, rfl⟩ := mem_map.mp hd
      rw [hs]
      exact ⟨hgen o ho, le_rfl⟩
    · intro d hd _
      rw [hdr] at hd
      obtain ⟨o, ho, rfl⟩ := mem_map.mp hd
      exact Nat.lt_succ_self _

theorem activateCatalogLocked_locked (cat : Option CatalogView) (target : TargetCatalog) :
    Locked s (s.activateCatalogLocked cat target).1 (s.activateCatalogLocked cat target).2.2 := by
  unfold activateCatalogLocked
  cases cat with
  | none => exact .refl s
  | some view =>
    dsimp only
    split_ifs with h1 h2 h3 h4 h5
    · exact .refl s
    · exact .refl s
    · exact .refl s
    · exact .refl s
    · have hle : s.catalog.generation ≤ view.generation := by omega
      refine ⟨hle, le_rfl, rfl, pairwise_singleton _ _, ?_, ?_⟩
      · intro d hd
        rw [mem_singleton.mp hd]
        exact ⟨rfl, Nat.zero_le _⟩
      · intro d hd hme
        rw [mem_singleton.mp hd] at hme
        exact EventType.noConfusion hme
    · exact .refl s

theorem commitHeartbeatEvidence_locked (e : FirmwareHeartbeatEvidence) :
    Locked s (s.commitHeartbeatEvidence e).1 [] := by
  rcases s.commitHeartbeatEvidence_cases e with ⟨hs, -⟩ | ⟨rest, -, hs, -⟩
  · rw [hs]
    exact .refl s
  · rw [hs]
    exact ⟨le_rfl, Nat.le_succ _, rfl, .nil, by simp, by simp⟩

theorem commitHealthLocked_locked (r : HealthResult) : Locked s (s.commitHealthLocked r).1 [] := by
  rcases s.commitHealthLocked_cases r with ⟨-, hs, -⟩ | ⟨-, -, hs⟩
  · rw [hs]
    exact .refl s
  · rw [hs]
    exact ⟨le_rfl, Nat.le_succ _, rfl, .nil, by simp, by simp⟩

/-! ### The line of drafts -/

/-- What was published and what is still to be published, in order. -/
def line (t : PublicationTrace L) : List EventDraft :=
  t.published.map PdcmEvent.toEventDraft ++ t.calls.flatten

structure InCommitOrder (t : PublicationTrace L) : Prop where
  ordered : t.line.Pairwise EventDraft.Precedes
  bounded : ∀ d ∈ t.line, d.catalogGeneration ≤ t.data.catalog.generation ∧
    d.commitEpoch ≤ t.data.commitEpoch
  sequences : t.published.Pairwise fun e f => e.sequence < f.sequence
  assigned : ∀ e ∈ t.published, e.sequence < t.data.eventStore.nextSequence

variable {t : PublicationTrace L}

theorem InCommitOrder.locked (h : t.InCommitOrder) {s : DataManager L} {drafts : List EventDraft}
    (hs : Locked t.data s drafts) :
    InCommitOrder { t with data := s, calls := t.calls ++ [drafts] } := by
  have hli : line { t with data := s, calls := t.calls ++ [drafts] } = t.line ++ drafts := by
    simp [line]
  refine ⟨?_, ?_, h.sequences, ?_⟩
  · rw [hli]
    refine pairwise_append.mpr ⟨h.ordered, hs.ordered, ?_⟩
    intro a ha b hb
    obtain ⟨hgen, hep⟩ := h.bounded a ha
    constructor
    · rw [(hs.current b hb).1]
      exact hgen.trans hs.generation
    · intro _ hme _ _
      exact hep.trans_lt (hs.newer b hb hme)
  · intro d hd
    rw [hli] at hd
    rcases mem_append.mp hd with hd | hd
    · obtain ⟨hgen, hep⟩ := h.bounded d hd
      exact ⟨hgen.trans hs.generation, hep.trans hs.epoch⟩
    · obtain ⟨hgen, hep⟩ := hs.current d hd
      exact ⟨hgen.le, hep⟩
  · simp only [hs.store]
    exact h.assigned

theorem InCommitOrder.unlisted (h : t.InCommitOrder) {s : DataManager L}
    (hgen : t.data.catalog.generation ≤ s.catalog.generation)
    (hep : t.data.commitEpoch ≤ s.commitEpoch)
    (hne : t.data.eventStore.nextSequence ≤ s.eventStore.nextSequence) :
    InCommitOrder { t with data := s } := by
  refine ⟨h.ordered, ?_, h.sequences, ?_⟩
  · intro d hd
    obtain ⟨hg, he⟩ := h.bounded d hd
    exact ⟨hg.trans hgen, he.trans hep⟩
  · intro e he
    exact (h.assigned e he).trans_le hne

/-- The first draft of the line of calls is the next one of the call whose turn it is. -/
theorem flatten_eq_cons {calls : List (List EventDraft)} {call : ℕ} {draft : EventDraft}
    {rest : List EventDraft} (hca : calls[call]? = some (draft :: rest))
    (htu : ∀ drafts ∈ calls.take call, drafts = []) :
    calls.flatten = draft :: (calls.set call rest).flatten := by
  induction calls generalizing call with
  | nil => simp at hca
  | cons first others ih =>
    cases call with
    | zero =>
      obtain rfl : first = draft :: rest := by simpa using hca
      simp
    | succ call =>
      obtain rfl : first = [] := htu first (by simp)
      have hre := ih (by simpa using hca) fun drafts hdr =>
        htu drafts (by simp [hdr])
      simpa using hre

theorem publishEvent_nextSequence (draft : EventDraft) :
    s.eventStore.nextSequence ≤ (s.publishEvent draft).1.eventStore.nextSequence := by
  rcases s.eventStore.publish_cases draft with ⟨-, -, -, hle⟩ | ⟨e, -, -, -, -, -, hne⟩
  · exact hle
  · exact (Nat.le_succ _).trans hne.ge

/-- A publication in turn moves the first outstanding draft to the published ones, or loses
it if the event store refuses it. -/
theorem InCommitOrder.publishNext (h : t.InCommitOrder) {call : ℕ}
    (htu : ∀ drafts ∈ t.calls.take call, drafts = []) : (t.publishNext call).InCommitOrder := by
  unfold PublicationTrace.publishNext
  split
  next draft rest hca =>
    have hfl := flatten_eq_cons hca htu
    have hne := publishEvent_nextSequence t.data draft
    rcases t.data.eventStore.publish_cases draft with
      ⟨hev, -⟩ | ⟨e, hev, hseq, hdr, -, -, hla⟩
    · have hno : (t.data.publishEvent draft).2.event = none := hev
      have hsub : (t.published.map PdcmEvent.toEventDraft ++
          (t.calls.set call rest).flatten).Sublist t.line := by
        rw [line, hfl]
        exact (List.Sublist.refl _).append (sublist_cons_self _ _)
      rw [hno, Option.toList_none, append_nil]
      refine ⟨h.ordered.sublist hsub, ?_, h.sequences, ?_⟩
      · intro d hd
        exact h.bounded d (hsub.subset hd)
      · intro e he
        exact (h.assigned e he).trans_le hne
    · have hso : (t.data.publishEvent draft).2.event = some e := hev
      have hli : line ⟨(t.data.publishEvent draft).1, t.calls.set call rest,
          t.published ++ [e]⟩ = t.line := by
        simp [line, hfl, hdr]
      rw [hso, Option.toList_some]
      refine ⟨?_, ?_, ?_, ?_⟩
      · rw [hli]
        exact h.ordered
      · intro d hd
        rw [hli] at hd
        exact h.bounded d hd
      · refine pairwise_append.mpr ⟨h.sequences, pairwise_singleton _ _, ?_⟩
        intro a ha b hb
        rw [mem_singleton.mp hb, hseq]
        exact h.assigned a ha
      · intro a ha
        rcases mem_append.mp ha with ha | ha
        · exact (h.assigned a ha).trans_le hne
        · rw [mem_singleton.mp ha, hseq]
          exact (Nat.lt_succ_self _).trans_le hla.ge
  next => exact h

theorem InCommitOrder.step (h : t.InCommitOrder) (op : PublicationOp) (htu : t.InTurn op) :
    (t.step op).InCommitOrder := by
  cases op with
  | commit observations => exact h.locked (commitLocked_locked t.data observations)
  | activateCatalog cat target =>
    exact h.locked (activateCatalogLocked_locked t.data cat target)
  | publishNext call => exact h.publishNext htu
  | commitHeartbeatEvidence ev =>
    have hs := commitHeartbeatEvidence_locked t.data ev
    exact h.unlisted hs.generation hs.epoch (hs.store ▸ le_rfl)
  | commitHealth res =>
    have hs := commitHealthLocked_locked t.data res
    exact h.unlisted hs.generation hs.epoch (hs.store ▸ le_rfl)
  | publishEvent draft =>
    exact h.unlisted le_rfl le_rfl (publishEvent_nextSequence t.data draft)

end PublicationTrace

namespace TwoMetrics

/-- Two samples of the inlet are committed one after the other. -/
def twoCommits : List PublicationOp :=
  [.activateCatalog (some view) target, .commit [sample 7 20 1], .commit [sample 7 21 2]]

end TwoMetrics
end Pdcm
