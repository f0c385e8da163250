import Pdcm.Library.BinarySearch
import Pdcm.Library.Budget
import Pdcm.Library.Runs
import Pdcm.Data.EventStore

/-!
# The window of stored events

What the event store holds after any sequence of publications, and what they leave behind
for later ones. The window is the longest suffix of the published events within both
limits, in the order of their sequence numbers, on which the binary search of `since`
relies. A publication that is refused changes nothing, with one exception: an event that
is too large for the store has taken its sequence number before it is refused.
-/

namespace Pdcm

open Library List EventStore

def EventStoreLimits.budget (l : EventStoreLimits) : Budget PdcmEvent where
  count := l.maxEvents
  weight := l.maxBytes
  weigh := eventBytes

namespace EventStore

/-! ### What a publication can do -/

variable (st : EventStore)

/-- The event a draft becomes. -/
def assigned (d : EventDraft) : PdcmEvent :=
  { d with bootEpoch := st.bootEpoch, sequence := st.nextSequence }

/-- The store after an event was appended and the window trimmed. -/
def appended (event : PdcmEvent) : EventStore :=
  let kept := trim st.limits (st.events ++ [event]) (st.storedBytes + eventBytes event)
  { st with nextSequence := st.nextSequence + 1, events := kept.1, storedBytes := kept.2 }

inductive Publishes (st : EventStore) (d : EventDraft) : EventStore × EventPublishResult → Prop
  | refused (status : Status) (hfail : status.ok = false)
      (hearly : draftMalformed d = true ∨ st.nextSequence = uint64Max) :
      Publishes st d (st, { status := status })
  | oversized (hformed : draftMalformed d = false) (hleft : st.nextSequence ≠ uint64Max)
      (hlarge : st.limits.maxBytes < eventBytes (st.assigned d)) :
      Publishes st d ({ st with nextSequence := st.nextSequence + 1 },
        { status := ⟨.resourceExhausted, "event exceeds byte limit"⟩ })
  | stored : Publishes st d (st.appended (st.assigned d),
      { status := .success, event := some (st.assigned d) })

theorem publish_publishes (d : EventDraft) : st.Publishes d (st.publish d) := by
  unfold publish
  split_ifs with hfo hseq
  · exact .refused _ rfl (.inl hfo)
  · exact .refused _ rfl (.inr hseq)
  · dsimp only
    split_ifs with hla
    · exact .oversized (eq_false_of_ne_true hfo) hseq hla
    · exact .stored

/-! ### The longest window -/

theorem fits_budget {limits : EventStoreLimits} {es : List PdcmEvent} :
    limits.budget.Fits es ↔ ¬(limits.maxEvents < es.length ∨ limits.maxBytes < totalBytes es) := by
  rw [not_or, not_lt, not_lt]
  rfl

/-- The loop of `publish` stops at the first rest that fits. -/
theorem trim_longest (limits : EventStoreLimits) (es : List PdcmEvent) :
    limits.budget.LongestSuffix es (trim limits es (totalBytes es)).1 := by
  induction es with
  | nil => exact Budget.longestSuffix_of_fits (Budget.fits_nil _)
  | cons e rest ih =>
    have hre : totalBytes (e :: rest) - eventBytes e = totalBytes rest := by
      simp [totalBytes]
    rw [trim]
    split_ifs with hfu
    · rw [hre]
      exact ih.cons fun hfi => fits_budget.mp hfi hfu
    · exact Budget.longestSuffix_of_fits (fits_budget.mpr hfu)

end EventStore

/-- A store with the events it reported as published, oldest first. -/
structure EventRun where
  store : EventStore
  published : List PdcmEvent := []

namespace EventRun

def publish (r : EventRun) (d : EventDraft) : EventRun where
  store := (r.store.publish d).1
  published := r.published ++ (r.store.publish d).2.event.toList

/-- A store as its constructor leaves it. -/
def fresh (limits : EventStoreLimits) (bootEpoch : ℕ) : EventRun where
  store := { limits := limits, bootEpoch := bootEpoch }

/-- The window against everything that was published. -/
structure Windowed (limits : EventStoreLimits) (r : EventRun) : Prop where
  limits_eq : r.store.limits = limits
  longest : limits.budget.LongestSuffix r.published r.store.events
  accounted : r.store.Accounted
  increasing : r.published.Pairwise fun a b => a.sequence < b.sequence
  below : ∀ e ∈ r.published, e.sequence < r.store.nextSequence

theorem Windowed.publish {limits : EventStoreLimits} {r : EventRun} (h : r.Windowed limits)
    (d : EventDraft) : (r.publish d).Windowed limits := by
  have hac := publish_accounted h.accounted d
  have hpu := r.store.publish_publishes d
  unfold EventRun.publish
  generalize r.store.publish d = out at hac hpu ⊢
  cases hpu with
  | refused status =>
    refine ⟨h.limits_eq, ?_, h.accounted, ?_, ?_⟩ <;> rw [Option.toList_none, append_nil]
    · exact h.longest
    · exact h.increasing
    · exact h.below
  | oversized =>
    refine ⟨h.limits_eq, ?_, h.accounted, ?_, ?_⟩ <;> rw [Option.toList_none, append_nil]
    · exact h.longest
    · exact h.increasing
    · exact fun e he => (h.below e he).trans (Nat.lt_succ_self _)
  | stored =>
    refine ⟨h.limits_eq, ?_, hac, ?_, ?_⟩
    · refine h.longest.append ?_
      have hlo := trim_longest limits (r.store.events ++ [r.store.assigned d])
      rw [totalBytes_append, ← h.accounted] at hlo
      dsimp only [appended]
      rwa [h.limits_eq]
    · refine pairwise_append.mpr ⟨h.increasing, pairwise_singleton _ _, ?_⟩
      intro e he new hnew
      rw [mem_singleton.mp hnew]
      exact h.below e he
    · refine forall_mem_append.mpr ⟨fun e he => ?_, forall_mem_singleton.mpr ?_⟩
      · exact (h.below e he).trans (Nat.lt_succ_self _)
      · exact Nat.lt_succ_self _

end EventRun

/-! ### Reading the window -/

namespace EventStore

variable {st : EventStore}

/-- `since` with the search as `std::upper_bound` makes it. -/
def searchSince (st : EventStore) (sequence : ℕ) : EventSnapshot :=
  { st.since sequence with
    events := st.events.drop
      (upperBound (fun e => decide (sequence < e.sequence)) st.events) }

theorem partitioned_of_increasing {es : List PdcmEvent}
    (h : es.Pairwise fun a b => a.sequence < b.sequence) (seq : ℕ) :
    Partitioned (fun e => decide (seq < e.sequence)) es := by
  refine h.imp fun hlt haf => ?_
  rw [decide_eq_true_eq] at haf ⊢
  exact haf.trans hlt

theorem not_decide_lt (seq : ℕ) :
    (fun e : PdcmEvent => !decide (seq < e.sequence)) = fun e => decide (e.sequence ≤ seq) := by
  funext e
  rw [← decide_not, decide_eq_decide, not_lt]

/-- The first event that the store can still give. -/
def firstAvailable (st : EventStore) : ℕ :=
  (st.events.head?.map PdcmEvent.sequence).getD st.nextSequence

theorem searchSince_eq (h : st.events.Pairwise fun a b => a.sequence < b.sequence) (sequence : ℕ) :
    st.searchSince sequence = st.since sequence := by
  unfold searchSince
  rw [(partitioned_of_increasing h sequence).upperBound_eq, drop_partitionPoint, not_decide_lt]
  rfl

end EventStore

/-- Whatever is published, the store holds the longest suffix of the accepted events that
is within both limits, counts its bytes, and finds the events after a sequence number by
binary search. -/
theorem EventRun.run_window (limits : EventStoreLimits) (bootEpoch : ℕ) (drafts : List EventDraft) :
    let r := runFrom publish (fresh limits bootEpoch) drafts
    limits.budget.LongestSuffix r.published r.store.events ∧
    r.store.storedBytes = totalBytes r.store.events ∧
    r.store.events.Pairwise (fun a b => a.sequence < b.sequence) ∧
    (∀ e ∈ r.store.events, e.sequence < r.store.nextSequence) ∧
    ∀ sequence, r.store.searchSince sequence = r.store.since sequence ∧
      r.store.since sequence =
        { firstAvailableSequence := r.store.firstAvailable
          latestSequence := r.store.nextSequence - 1
          events := r.store.events.filter fun e => decide (sequence < e.sequence) } := by
  intro r
  have hfresh : (fresh limits bootEpoch).Windowed limits :=
    ⟨rfl, Budget.longestSuffix_of_fits (Budget.fits_nil _), rfl, .nil, fun _ he => by cases he⟩
  have hrun : r.Windowed limits :=
    invariant_run (fun s d (h : s.Windowed limits) => h.publish d) hfresh drafts
  have hincreasing := hrun.increasing.sublist hrun.longest.suffix.sublist
  refine ⟨hrun.longest, hrun.accounted, hincreasing, ?_, fun sequence => ⟨?_, ?_⟩⟩
  · exact fun e he => hrun.below e (hrun.longest.suffix.subset he)
  · exact searchSince_eq hincreasing sequence
  · rw [← (partitioned_of_increasing hincreasing sequence).dropWhile_eq_filter,
      not_decide_lt]
    unfold since firstAvailable
    cases r.store.events <;> rfl

/-! ### Refused publications -/

inductive EventCall where
  | publish (draft : EventDraft)
  | since (sequence : ℕ)
  deriving DecidableEq, Repr

inductive EventAnswer where
  | published (result : EventPublishResult)
  | snapshot (snapshot : EventSnapshot)
  deriving DecidableEq, Repr

namespace EventStore

/-- What a sequence of calls returns. -/
def answers (st : EventStore) : List EventCall → List EventAnswer
  | [] => []
  | .publish draft :: rest => .published (st.publish draft).2 :: (st.publish draft).1.answers rest
  | .since sequence :: rest => .snapshot (st.since sequence) :: st.answers rest

/-- The draft is refused before it gets a sequence number, or its event is not too large
for the store. -/
def Admissible (st : EventStore) (d : EventDraft) : Prop :=
  draftMalformed d = true ∨ st.nextSequence = uint64Max ∨
    sizeofPdcmEvent + payloadBytes d.payload ≤ st.limits.maxBytes

instance (st : EventStore) (d : EventDraft) : Decidable (st.Admissible d) :=
  inferInstanceAs (Decidable (_ ∨ _ ∨ _))

/-- A publication of an admissible draft is refused without a trace or takes the next
sequence number for its event. -/
theorem publish_of_admissible {st : EventStore} {d : EventDraft} (h : st.Admissible d) :
    (st.publish d).2.status.ok = false ∧ (st.publish d).2.event = none ∧ (st.publish d).1 = st ∨
      (st.publish d).2.status.ok = true ∧ (st.publish d).2.event = some (st.assigned d) ∧
        (st.publish d).1 = st.appended (st.assigned d) := by
  have hpu := st.publish_publishes d
  generalize st.publish d = out at hpu ⊢
  cases hpu with
  | refused status hfa => exact .inl ⟨hfa, rfl, rfl⟩
  | oversized hfo hle hla =>
    rcases h with hmal | hall | hfi
    · rw [hfo] at hmal
      cases hmal
    · exact absurd hall hle
    · exact absurd hfi hla.not_ge
  | stored => exact .inr ⟨rfl, rfl, rfl⟩

/-- A draft that is too large fails, and the next `since` shows that a number is gone. -/
theorem observed_of_not_admissible {st : EventStore} {d : EventDraft} (hst : st.nextSequence ≠ 0)
    (h : ¬st.Admissible d) : (st.publish d).2.status.ok = false ∧
      (st.publish d).1.answers [.since 0] ≠ st.answers [.since 0] := by
  unfold Admissible at h
  push Not at h
  have hpu : st.publish d = ({ st with nextSequence := st.nextSequence + 1 },
      { status := ⟨.resourceExhausted, "event exceeds byte limit"⟩ }) := by
    unfold publish
    rw [if_neg h.1, if_neg h.2.1]
    exact if_pos h.2.2
  rw [hpu]
  refine ⟨rfl, fun heq => ?_⟩
  simp only [answers, since, cons.injEq, EventAnswer.snapshot.injEq, EventSnapshot.mk.injEq] at heq
  omega

end EventStore

namespace EventRun

/-- The sequence numbers given out so far, beginning with `start`. -/
structure Consecutive (start : ℕ) (r : EventRun) : Prop where
  next : r.store.nextSequence = start + r.published.length
  sequences : r.published.map PdcmEvent.sequence = List.range' start r.published.length

theorem Consecutive.publish {start : ℕ} {r : EventRun} (h : r.Consecutive start)
    {d : EventDraft} (hd : r.store.Admissible d) : (r.publish d).Consecutive start := by
  unfold EventRun.publish
  rcases publish_of_admissible hd with ⟨-, hev, hst⟩ | ⟨-, hev, hst⟩
  · rw [hev, hst, Option.toList_none, append_nil]
    exact h
  · rw [hev, hst]
    refine ⟨?_, ?_⟩
    · simp [appended, h.next, Nat.add_assoc]
    · simp [h.sequences, assigned, h.next, range'_1_concat]

end EventRun

/-- A refused publication shows in no later result exactly if its draft is admissible, and
as long as all drafts are, the sequence numbers of published events are consecutive. -/
theorem EventStore.refused_publish_unobserved (st : EventStore) (hstarted : st.nextSequence ≠ 0) :
    (∀ d, ((st.publish d).2.status.ok = false →
      ∀ later, (st.publish d).1.answers later = st.answers later) ↔ st.Admissible d) ∧
    ∀ drafts, Along EventRun.publish (fun r d => r.store.Admissible d) ⟨st, []⟩ drafts →
      let r := runFrom EventRun.publish ⟨st, []⟩ drafts
      r.published.map PdcmEvent.sequence = range' st.nextSequence r.published.length := by
  refine ⟨fun d => ⟨fun hunobserved => ?_, fun hd hrefused later => ?_⟩, fun drafts hdrafts => ?_⟩
  · by_contra hd
    obtain ⟨hrefused, hobserved⟩ := observed_of_not_admissible hstarted hd
    exact hobserved (hunobserved hrefused _)
  · rcases publish_of_admissible hd with ⟨-, -, hstore⟩ | ⟨hok, -, -⟩
    · rw [hstore]
    · rw [hrefused] at hok
      cases hok
  · have hstart : EventRun.Consecutive st.nextSequence ⟨st, []⟩ := ⟨rfl, rfl⟩
    have hrun := invariant_along
      (fun r d (h : r.Consecutive st.nextSequence) hd => h.publish hd) hstart hdrafts
    exact hrun.sequences

namespace SmallWindow

/-- Room for one event. -/
def store : EventStore := { limits := { maxEvents := 4, maxBytes := 200 } }

def notice (text : String) : EventDraft := { catalogGeneration := 1, payload := .text text }

def long : String :=
  "0123456789012345678901234567890123456789012345678901234567890123456789"

/-- A draft without a catalog generation is refused between two events. -/
theorem refused_publish_unobserved_malformed :
    (store.publish {}).2.status.ok = false ∧
      (store.publish {}).1.answers [.publish (notice "c"), .since 1] =
        store.answers [.publish (notice "c"), .since 1] ∧
      (runFrom EventRun.publish ⟨store, []⟩ [notice "a", {}, notice "b"]).published.map
        PdcmEvent.sequence = range' 1 2 := by
  obtain ⟨hunobserved, hconsecutive⟩ := store.refused_publish_unobserved (by decide)
  have hrefused : (store.publish {}).2.status.ok = false := by decide +kernel
  have hdrafts : Along EventRun.publish (fun r d => r.store.Admissible d) ⟨store, []⟩
      [notice "a", {}, notice "b"] := by
    decide +kernel
  exact ⟨hrefused, (hunobserved {}).mpr (by decide +kernel) hrefused _, hconsecutive _ hdrafts⟩

/-- An event that is too large is refused, but the next one gets sequence number 2. -/
theorem oversized_publish_observed :
    (store.publish (notice long)).2.status = ⟨.resourceExhausted, "event exceeds byte limit"⟩ ∧
      (store.publish (notice long)).1.answers [.since 0, .publish (notice "a")] ≠
        store.answers [.since 0, .publish (notice "a")] ∧
      (runFrom EventRun.publish ⟨store, []⟩
          [notice "a", notice long, notice "b"]).published.map PdcmEvent.sequence = [1, 3] := by
  decide +kernel

end SmallWindow
end Pdcm
