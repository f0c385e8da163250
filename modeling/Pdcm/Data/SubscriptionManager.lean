import Pdcm.Library.Runs
import Pdcm.Data.Subscription

/-!
# The subscription manager

`data/subscription_manager.cpp` over the event store it reads from. Each operation is
split where the source releases a lock, so a run of these steps is an interleaving of
the calls. At most one dispatch runs at a time, which is what `dispatch_mutex_` says.
A delivery or a close that found its subscription may continue after the subscription
left the registry, so those steps only ask that the subscription was created.
-/

namespace Pdcm

open Library

/-- Where a dispatch stands: it has read the events, or it works through them. -/
inductive Dispatch where
  | snapshot (snapshot : EventSnapshot)
  | enqueueing (work : List (ℕ × PdcmEvent))
  deriving DecidableEq, Repr

/-- `subscriptions` holds every subscription object ever created; `registry` the ids in
`subscriptions_`. -/
structure SubscriptionManager where
  store : EventStore
  maxSubscriptions : ℕ := 1024
  subscriptions : OrderedMap ℕ Subscription := .empty
  registry : List ℕ := []
  nextSubscriptionId : ℕ := 1
  lastSeenSequence : ℕ := 0
  draining : Bool := false
  dispatch : Option Dispatch := none

structure SubscribeResult where
  status : Status := {}
  subscriptionId : ℕ := 0
  deriving DecidableEq, Repr

namespace SubscriptionManager

variable (m : SubscriptionManager)

def subscribe (m : SubscriptionManager) (filter : SubscriptionFilter)
    (limits : SubscriptionLimits) : SubscriptionManager × SubscribeResult :=
  match filter.validateFilter with
  | .error status => (m, { status := status })
  | .ok filter =>
    if ¬limits.validate.ok then (m, { status := limits.validate })
    else if m.draining then
      (m, { status := ⟨.unavailable, "subscription manager is draining"⟩ })
    else if m.maxSubscriptions ≤ m.registry.length ∨ m.nextSubscriptionId = uint64Max then
      (m, { status := ⟨.resourceExhausted, "subscription registry limit reached"⟩ })
    else
      ({ m with
          subscriptions := m.subscriptions.insert m.nextSubscriptionId
            { filter := filter, limits := limits }
          registry := m.registry ++ [m.nextSubscriptionId]
          nextSubscriptionId := m.nextSubscriptionId + 1 },
        { status := .success, subscriptionId := m.nextSubscriptionId })

def publish (m : SubscriptionManager) (draft : EventDraft) :
    SubscriptionManager × EventPublishResult :=
  ({ m with store := (m.store.publish draft).1 }, (m.store.publish draft).2)

/-- `dispatch` up to the early return. Another dispatch waits for the running one. -/
def dispatchSnapshot (m : SubscriptionManager) : SubscriptionManager :=
  match m.dispatch with
  | some _ => m
  | none =>
    let snapshot := m.store.since m.lastSeenSequence
    if snapshot.events = [] then m else { m with dispatch := some (.snapshot snapshot) }

/-- The section under the registry lock: who is served, and the new last seen
sequence. -/
def dispatchRegister (m : SubscriptionManager) : SubscriptionManager :=
  match m.dispatch with
  | some (.snapshot snapshot) =>
    { m with
      lastSeenSequence := snapshot.latestSequence
      dispatch := some (.enqueueing
        (snapshot.events.flatMap fun event => m.registry.map fun id => (id, event))) }
  | _ => m

/-- One pass of the inner loop, or the end of the dispatch. -/
def dispatchEnqueue (m : SubscriptionManager) : SubscriptionManager :=
  match m.dispatch with
  | some (.enqueueing []) => { m with dispatch := none }
  | some (.enqueueing ((id, event) :: rest)) =>
    { m with
      subscriptions := m.subscriptions.modify id (·.offer event)
      dispatch := some (.enqueueing rest) }
  | _ => m

/-- The first critical section of `deliverNext` on the subscription: the event handed to
the callback. -/
def deliverTake (m : SubscriptionManager) (id : ℕ) : SubscriptionManager × Option PdcmEvent :=
  match m.subscriptions.find? id with
  | none => (m, none)
  | some s =>
    if s.isOpen = false then (m, none)
    else
      match s.pending with
      | [] => (m, none)
      | event :: rest =>
        ({ m with subscriptions := m.subscriptions.modify id (·.taken event rest) }, some event)

/-- The second one, after the callback. -/
def deliverFinish (m : SubscriptionManager) (id : ℕ) : SubscriptionManager :=
  { m with subscriptions := m.subscriptions.modify id fun s =>
      { s with activeDeliveries := s.activeDeliveries - 1 } }

/-- The three parts of `close`. -/
def closeRemove (m : SubscriptionManager) (id : ℕ) : SubscriptionManager :=
  { m with registry := m.registry.filter fun other => decide (other ≠ id) }

def closeMark (m : SubscriptionManager) (id : ℕ) : SubscriptionManager :=
  if id ∈ m.registry then m
  else
    { m with subscriptions := m.subscriptions.modify id fun s =>
        { s with closing := true, pending := [], pendingBytes := 0 } }

def closeFinish (m : SubscriptionManager) (id : ℕ) : SubscriptionManager :=
  { m with subscriptions := m.subscriptions.modify id fun s =>
      if s.closing = true ∧ s.activeDeliveries = 0 then { s with closed := true } else s }

/-- The first section of `drain`, which then publishes and dispatches. -/
def startDraining (m : SubscriptionManager) : SubscriptionManager := { m with draining := true }

/-! ### What the steps change -/

theorem subscribe_cases (filter : SubscriptionFilter) (limits : SubscriptionLimits) :
    (m.subscribe filter limits).1 = m ∨
    ∃ sorted : SubscriptionFilter, (m.subscribe filter limits).1 =
      { m with
        subscriptions := m.subscriptions.insert m.nextSubscriptionId
          { filter := sorted, limits := limits }
        registry := m.registry ++ [m.nextSubscriptionId]
        nextSubscriptionId := m.nextSubscriptionId + 1 } := by
  unfold subscribe
  cases filter.validateFilter with
  | error st => exact .inl rfl
  | ok filter =>
    split_ifs
    · exact .inl rfl
    · exact .inl rfl
    · exact .inr ⟨_, rfl⟩
    · exact .inl rfl

theorem dispatchSnapshot_cases :
    m.dispatchSnapshot = m ∨
    m.dispatch = none ∧ m.dispatchSnapshot =
      { m with dispatch := some (.snapshot (m.store.since m.lastSeenSequence)) } := by
  unfold dispatchSnapshot
  cases m.dispatch with
  | some running => exact .inl rfl
  | none =>
    dsimp only
    split_ifs
    · exact .inl rfl
    · exact .inr ⟨rfl, rfl⟩

theorem dispatchRegister_cases :
    m.dispatchRegister = m ∨
    ∃ snap, m.dispatch = some (.snapshot snap) ∧ m.dispatchRegister =
      { m with
        lastSeenSequence := snap.latestSequence
        dispatch := some (.enqueueing
          (snap.events.flatMap fun event => m.registry.map fun id => (id, event))) } := by
  unfold dispatchRegister
  split
  next snap hd => exact .inr ⟨snap, hd, rfl⟩
  next => exact .inl rfl

theorem dispatchEnqueue_cases :
    m.dispatchEnqueue = m ∨
    m.dispatch = some (.enqueueing []) ∧ m.dispatchEnqueue = { m with dispatch := none } ∨
    ∃ id event rest, m.dispatch = some (.enqueueing ((id, event) :: rest)) ∧
      m.dispatchEnqueue =
        { m with
          subscriptions := m.subscriptions.modify id (·.offer event)
          dispatch := some (.enqueueing rest) } := by
  unfold dispatchEnqueue
  split
  next hd => exact .inr (.inl ⟨hd, rfl⟩)
  next id event rest hd => exact .inr (.inr ⟨id, event, rest, hd, rfl⟩)
  next => exact .inl rfl

theorem deliverTake_cases (id : ℕ) :
    m.deliverTake id = (m, none) ∨
    ∃ (s : Subscription) (event : PdcmEvent) (rest : List PdcmEvent),
      m.subscriptions.find? id = some s ∧ s.pending = event :: rest ∧
      (m.deliverTake id).1 = { m with
        subscriptions := m.subscriptions.modify id (·.taken event rest) } ∧
      (m.deliverTake id).2 = some event := by
  unfold deliverTake
  cases hs : m.subscriptions.find? id with
  | none => exact .inl rfl
  | some s =>
    dsimp only
    split_ifs
    · exact .inl rfl
    · cases hp : s.pending with
      | nil => exact .inl rfl
      | cons event rest => exact .inr ⟨s, event, rest, rfl, hp, rfl, rfl⟩

end SubscriptionManager
end Pdcm
