import Mathlib.Data.List.TakeWhile
import Pdcm.Semantic.Catalog

/-!
# The bounded event store

`data/event.hpp` and `data/event_store.cpp`. Published drafts get consecutive
sequence numbers; the store keeps a window of the newest events within an event
and a byte limit. A draft that alone exceeds the byte limit is refused after its
sequence number was taken.
-/

namespace Pdcm

open List

inductive EventType where
  | catalogChanged
  | entityChanged
  | capabilityChanged
  | metricUpdate
  | firmwareHeartbeatHealthChanged
  | providerStateChanged
  | subscriptionLossMarker
  | daemonDraining
  deriving DecidableEq, Repr

inductive EventSeverity where
  | info
  | warning
  | error
  | critical
  deriving DecidableEq, Repr

def EventSeverity.value : EventSeverity → ℕ
  | .info => 0
  | .warning => 1
  | .error => 2
  | .critical => 3

structure MetricUpdatePayload where
  status : ObservationStatus := .notAvailable
  commitEpoch : ℕ := 0
  deriving DecidableEq, Repr

structure SubscriptionLossPayload where
  firstDroppedSequence : ℕ := 0
  lastDroppedSequence : ℕ := 0
  droppedCount : ℕ := 0
  deriving DecidableEq, Repr

structure HealthChangePayload where
  previousState : HealthState := .unknown
  state : HealthState := .unknown
  previousCode : StableHealthCode := .heartbeatMissing
  code : StableHealthCode := .heartbeatMissing
  evidence : List EvidenceRef := []
  evidenceAgeNs : ℤ := 0
  deriving DecidableEq, Repr

inductive EventPayload where
  | monostate
  | metricUpdate (payload : MetricUpdatePayload)
  | subscriptionLoss (payload : SubscriptionLossPayload)
  | healthChange (payload : HealthChangePayload)
  | text (payload : String)
  deriving DecidableEq, Repr

structure EventDraft where
  type : EventType := .catalogChanged
  severity : EventSeverity := .info
  entity : Option EntityRef := none
  metric : Option MetricId := none
  healthSubsystem : Option ℕ := none
  occurrenceTimeNs : ℤ := 0
  catalogGeneration : ℕ := 0
  payload : EventPayload := .monostate
  deriving DecidableEq, Repr

structure PdcmEvent extends EventDraft where
  bootEpoch : ℕ := 0
  sequence : ℕ := 0
  deriving DecidableEq, Repr

def isNonDroppable (type : EventType) : Bool :=
  decide (type = .subscriptionLossMarker ∨ type = .daemonDraining)

structure EventStoreLimits where
  maxEvents : ℕ := 4096
  maxBytes : ℕ := 4 * 1024 * 1024
  deriving DecidableEq, Repr

structure EventPublishResult where
  status : Status := {}
  event : Option PdcmEvent := none
  deriving DecidableEq, Repr

structure EventSnapshot where
  firstAvailableSequence : ℕ := 0
  latestSequence : ℕ := 0
  events : List PdcmEvent := []
  deriving DecidableEq, Repr

structure EventStore where
  limits : EventStoreLimits
  bootEpoch : ℕ := 1
  nextSequence : ℕ := 1
  storedBytes : ℕ := 0
  events : List PdcmEvent := []
  deriving DecidableEq, Repr

def sizeofPdcmEvent : ℕ := 136

/-- `sizeof` of the payload alternative, with the variable part of the two
alternatives that own memory. -/
def payloadBytes : EventPayload → ℕ
  | .monostate => 1
  | .metricUpdate _ => 16
  | .subscriptionLoss _ => 24
  | .healthChange p => 40 + p.evidence.length * sizeofEvidenceRef +
      (p.evidence.map fun e => e.source.provider.utf8ByteSize +
        e.source.nativeSource.utf8ByteSize).sum
  | .text s => s.utf8ByteSize

def eventBytes (e : PdcmEvent) : ℕ := sizeofPdcmEvent + payloadBytes e.payload

namespace EventStore

variable {st : EventStore} {e : PdcmEvent}

def draftMalformed (d : EventDraft) : Bool :=
  decide (d.occurrenceTimeNs < 0 ∨ d.catalogGeneration = 0 ∨
    (d.type = .metricUpdate ∧ (d.entity.isNone ∨ d.metric.isNone)) ∨
    (d.type = .firmwareHeartbeatHealthChanged ∧
      d.healthSubsystem ≠ some firmwareHeartbeatHealthId))

/-- The eviction loop of `publish`: events leave at the front while a limit is
exceeded. -/
def trim (limits : EventStoreLimits) : List PdcmEvent → ℕ → List PdcmEvent × ℕ
  | [], bytes => ([], bytes)
  | e :: rest, bytes =>
    if limits.maxEvents < (e :: rest).length ∨ limits.maxBytes < bytes then
      trim limits rest (bytes - eventBytes e)
    else (e :: rest, bytes)

def publish (st : EventStore) (d : EventDraft) : EventStore × EventPublishResult :=
  if draftMalformed d then
    (st, { status := ⟨.invalidArgument, "event draft is malformed"⟩ })
  else if st.nextSequence = uint64Max then
    (st, { status := ⟨.internal, "event sequence overflow"⟩ })
  else
    let event : PdcmEvent :=
      { d with bootEpoch := st.bootEpoch, sequence := st.nextSequence }
    let taken := { st with nextSequence := st.nextSequence + 1 }
    if st.limits.maxBytes < eventBytes event then
      (taken, { status := ⟨.resourceExhausted, "event exceeds byte limit"⟩ })
    else
      let kept := trim st.limits (st.events ++ [event]) (st.storedBytes + eventBytes event)
      ({ taken with events := kept.1, storedBytes := kept.2 },
        { status := .success, event := some event })

/-- `std::upper_bound` on the increasing sequence numbers drops exactly the events
up to `sequence`. -/
def since (st : EventStore) (sequence : ℕ) : EventSnapshot where
  latestSequence := st.nextSequence - 1
  firstAvailableSequence :=
    match st.events with
    | [] => st.nextSequence
    | e :: _ => e.sequence
  events := st.events.dropWhile fun e => decide (e.sequence ≤ sequence)

theorem mem_since {seq : ℕ} (he : e ∈ st.events) (hlt : seq < e.sequence) :
    e ∈ (st.since seq).events := by
  rw [← takeWhile_append_dropWhile (l := st.events), mem_append] at he
  refine he.resolve_left fun hdr => ?_
  have hle := mem_takeWhile_imp hdr
  simp only [decide_eq_true_eq] at hle
  omega

/-! ### What a publish can do -/

theorem trim_suffix (limits : EventStoreLimits) (es : List PdcmEvent) (bytes : ℕ) :
    (trim limits es bytes).1 <:+ es := by
  induction es generalizing bytes with
  | nil => simp [trim]
  | cons e rest ih =>
    rw [trim]
    split_ifs
    · exact (ih _).trans (suffix_cons e rest)
    · exact suffix_refl _

/-- One publish either leaves the stored window alone or appends the new event and
drops a prefix; the sequence counter never goes back. -/
theorem publish_cases (st : EventStore) (d : EventDraft) :
    ((st.publish d).2.event = none ∧ (st.publish d).1.events = st.events ∧
      (st.publish d).1.limits = st.limits ∧
      st.nextSequence ≤ (st.publish d).1.nextSequence) ∨
    (∃ e : PdcmEvent, (st.publish d).2.event = some e ∧ e.sequence = st.nextSequence ∧
      e.toEventDraft = d ∧
      (st.publish d).1.events <:+ st.events ++ [e] ∧
      (st.publish d).1.limits = st.limits ∧
      (st.publish d).1.nextSequence = st.nextSequence + 1) := by
  unfold publish
  split_ifs with h1 h2
  · exact .inl ⟨rfl, rfl, rfl, le_rfl⟩
  · exact .inl ⟨rfl, rfl, rfl, le_rfl⟩
  · dsimp only
    split_ifs with h3
    · exact .inl ⟨rfl, rfl, rfl, Nat.le_succ _⟩
    · exact .inr ⟨_, rfl, rfl, rfl, trim_suffix _ _ _, rfl, rfl⟩

/-! ### The byte counter -/

def totalBytes (es : List PdcmEvent) : ℕ := (es.map eventBytes).sum

/-- The byte counter is the size of the stored events. -/
def Accounted (st : EventStore) : Prop := st.storedBytes = totalBytes st.events

theorem totalBytes_append (es : List PdcmEvent) (e : PdcmEvent) :
    totalBytes (es ++ [e]) = totalBytes es + eventBytes e := by
  simp [totalBytes]

theorem trim_within (limits : EventStoreLimits) (es : List PdcmEvent) :
    (trim limits es (totalBytes es)).2 = totalBytes (trim limits es (totalBytes es)).1 ∧
      (trim limits es (totalBytes es)).1.length ≤ limits.maxEvents ∧
      totalBytes (trim limits es (totalBytes es)).1 ≤ limits.maxBytes := by
  induction es with
  | nil => exact ⟨rfl, Nat.zero_le _, Nat.zero_le _⟩
  | cons e rest ih =>
    have hre : totalBytes (e :: rest) - eventBytes e = totalBytes rest := by
      simp [totalBytes]
    rw [trim]
    split_ifs with hfu
    · rwa [hre]
    · push Not at hfu
      exact ⟨rfl, hfu⟩

/-- The newest event stays if it fits alone: the loop stops before it at the latest. -/
theorem mem_trim_append {limits : EventStoreLimits} (hro : 0 < limits.maxEvents)
    (hfi : eventBytes e ≤ limits.maxBytes) (older : List PdcmEvent) :
    e ∈ (trim limits (older ++ [e]) (totalBytes (older ++ [e]))).1 := by
  induction older with
  | nil =>
    have hke : ¬(limits.maxEvents < [e].length ∨ limits.maxBytes < totalBytes [e]) := by
      simp only [length_singleton, totalBytes, map_singleton, sum_singleton]
      omega
    rw [nil_append, trim, if_neg hke]
    exact mem_singleton.mpr rfl
  | cons oldest older ih =>
    have hre : totalBytes (oldest :: (older ++ [e])) - eventBytes oldest =
        totalBytes (older ++ [e]) := by
      simp [totalBytes]
    rw [cons_append, trim]
    split_ifs
    · rwa [hre]
    · simp

theorem publish_accounted (h : st.Accounted) (d : EventDraft) : (st.publish d).1.Accounted := by
  unfold publish
  split_ifs
  · exact h
  · exact h
  · dsimp only
    split_ifs
    · exact h
    · dsimp only
      rw [h, ← totalBytes_append]
      exact (trim_within _ _).1

end EventStore
end Pdcm
