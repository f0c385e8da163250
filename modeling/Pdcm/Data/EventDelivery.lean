import Pdcm.Data.SubscriptionManager

/-!
# Delivery of published events

Along a run of the subscription manager we note which events were published while a
subscription existed and what `deliverNext` took from it. The event store is a ring: an
event that is overwritten before the next dispatch reads the store is passed over
without a loss marker. As long as the ring still has what a dispatch needs, every event
is taken, pending or covered by a marker.
-/

namespace Pdcm

open Library List SubscriptionManager

/-- The steps of a run. Loss markers are not published. -/
inductive SubscriptionOp where
  | subscribe (filter : SubscriptionFilter) (limits : SubscriptionLimits)
  | publish (draft : { d : EventDraft // d.type ≠ .subscriptionLossMarker })
  | dispatchSnapshot
  | dispatchRegister
  | dispatchEnqueue
  | deliverTake (id : ℕ)
  | deliverFinish (id : ℕ)
  | closeRemove (id : ℕ)
  | closeMark (id : ℕ)
  | closeFinish (id : ℕ)
  | startDraining

def SubscriptionManager.apply (m : SubscriptionManager) : SubscriptionOp → SubscriptionManager
  | .subscribe filter limits => (m.subscribe filter limits).1
  | .publish draft => (m.publish draft.1).1
  | .dispatchSnapshot => m.dispatchSnapshot
  | .dispatchRegister => m.dispatchRegister
  | .dispatchEnqueue => m.dispatchEnqueue
  | .deliverTake id => (m.deliverTake id).1
  | .deliverFinish id => m.deliverFinish id
  | .closeRemove id => m.closeRemove id
  | .closeMark id => m.closeMark id
  | .closeFinish id => m.closeFinish id
  | .startDraining => m.startDraining

/-- A manager with what happened so far: `owed` pairs every successfully published event
with the subscriptions that existed then, `taken` is what deliveries took. -/
structure DeliveryTrace where
  manager : SubscriptionManager
  owed : List (ℕ × PdcmEvent) := []
  taken : List (ℕ × PdcmEvent) := []

namespace DeliveryTrace

variable {t' : DeliveryTrace} {f : Subscription → Subscription} {p : ℕ × PdcmEvent}
  {s s' : Subscription} {event : PdcmEvent} {m : SubscriptionManager}

/-- The obligations a step adds. -/
def owedBy (m : SubscriptionManager) : SubscriptionOp → List (ℕ × PdcmEvent)
  | .publish draft =>
    match (m.publish draft.1).2.event with
    | none => []
    | some e => m.subscriptions.keys.map fun id => (id, e)
  | _ => []

def takenBy (m : SubscriptionManager) : SubscriptionOp → List (ℕ × PdcmEvent)
  | .deliverTake id => (m.deliverTake id).2.toList.map fun e => (id, e)
  | _ => []

def step (t : DeliveryTrace) (op : SubscriptionOp) : DeliveryTrace where
  manager := t.manager.apply op
  owed := t.owed ++ owedBy t.manager op
  taken := t.taken ++ takenBy t.manager op

def initial (limits : EventStoreLimits) (maxSubscriptions : ℕ) : DeliveryTrace where
  manager := { store := { limits := limits }, maxSubscriptions := maxSubscriptions }

def run (limits : EventStoreLimits) (maxSubscriptions : ℕ) (ops : List SubscriptionOp) :
    DeliveryTrace :=
  runFrom step (initial limits maxSubscriptions) ops

/-- `p` is an event that the open subscription `s` should get. -/
def Owing (t : DeliveryTrace) (p : ℕ × PdcmEvent) (s : Subscription) : Prop :=
  t.manager.subscriptions.find? p.1 = some s ∧ p.1 ∈ t.manager.registry ∧ s.isOpen = true ∧
    s.filter.accepts p.2 = true

/-- The event was taken or is pending, or a marker that was taken or is pending covers
it. -/
def Accounted (t : DeliveryTrace) (p : ℕ × PdcmEvent) (s : Subscription) : Prop :=
  p ∈ t.taken ∨ p.2 ∈ s.pending ∨ (∃ m ∈ s.pending, Subscription.covers m p.2.sequence = true) ∨
    ∃ q ∈ t.taken, q.1 = p.1 ∧ Subscription.covers q.2 p.2.sequence = true

/-- Between two dispatches, every event up to the last seen sequence is accounted for. A
dispatch in progress has moved that sequence past events it has yet to enqueue, so nothing is
said there. -/
def NoSilentLoss (t : DeliveryTrace) : Prop :=
  t.manager.dispatch = none → ∀ p ∈ t.owed, ∀ s ∈ t.manager.subscriptions.find? p.1,
    t.Owing p s → p.2.sequence ≤ t.manager.lastSeenSequence → t.Accounted p s

/-- A dispatch that reads the store finds there every event it still owes. -/
def InRing (t : DeliveryTrace) : SubscriptionOp → Prop
  | .dispatchSnapshot => ∀ p ∈ t.owed, ∀ s ∈ t.manager.subscriptions.find? p.1,
      t.Owing p s → t.manager.lastSeenSequence < p.2.sequence → p.2 ∈ t.manager.store.events
  | _ => True

instance (t : DeliveryTrace) (p : ℕ × PdcmEvent) (s : Subscription) : Decidable (t.Owing p s) :=
  inferInstanceAs (Decidable (_ ∧ _))

instance (t : DeliveryTrace) (p : ℕ × PdcmEvent) (s : Subscription) : Decidable (t.Accounted p s) :=
  inferInstanceAs (Decidable (_ ∨ _))

instance (t : DeliveryTrace) : Decidable t.NoSilentLoss :=
  inferInstanceAs (Decidable (_ → _))

instance (t : DeliveryTrace) (op : SubscriptionOp) : Decidable (t.InRing op) :=
  match op with
  | .dispatchSnapshot => inferInstanceAs (Decidable (∀ _ ∈ _, _))
  | .subscribe _ _ | .publish _ | .dispatchRegister | .dispatchEnqueue | .deliverTake _
  | .deliverFinish _ | .closeRemove _ | .closeMark _ | .closeFinish _ | .startDraining =>
    inferInstanceAs (Decidable True)

/-! ### The invariant -/

structure DeliveryInvariant (t : DeliveryTrace) : Prop where
  created : ∀ id s, t.manager.subscriptions.find? id = some s → id < t.manager.nextSubscriptionId
  owed : ∀ p ∈ t.owed, p.1 < t.manager.nextSubscriptionId ∧
    p.2.sequence < t.manager.store.nextSequence ∧ isLossMarker p.2 = false
  seen : t.manager.lastSeenSequence < t.manager.store.nextSequence
  snapshot : ∀ snapshot, t.manager.dispatch = some (.snapshot snapshot) →
    snapshot.latestSequence < t.manager.store.nextSequence ∧
      ∀ p ∈ t.owed, ∀ s, t.Owing p s → t.manager.lastSeenSequence < p.2.sequence →
        p.2.sequence ≤ snapshot.latestSequence → p.2 ∈ snapshot.events
  accounted : ∀ p ∈ t.owed, ∀ s, t.Owing p s → p.2.sequence ≤ t.manager.lastSeenSequence →
    t.Accounted p s ∨ ∃ work, t.manager.dispatch = some (.enqueueing work) ∧ p ∈ work

variable {t : DeliveryTrace}

theorem Accounted.of_retains (h : t.Accounted p s) (hma : isLossMarker p.2 = false)
    (hs : s.Retains s') (hta : ∀ q ∈ t.taken, q ∈ t'.taken) : t'.Accounted p s' := by
  rcases h with h | h | ⟨m, hm, hco⟩ | ⟨q, hq, hid, hco⟩
  · exact .inl (hta p h)
  · rcases hs.events p.2 h hma with h | h
    · exact .inr (.inl h)
    · exact .inr (.inr (.inl h))
  · exact .inr (.inr (.inl (hs.ranges m hm _ hco)))
  · exact .inr (.inr (.inr ⟨q, hta q hq, hid, hco⟩))

/-- The invariant after a step other than the first two of a dispatch. New obligations are
about events the dispatcher has not seen; of the old ones, what was accounted for stays so,
and work of the dispatch is done or still ahead. -/
theorem DeliveryInvariant.of_owing (h : t.DeliveryInvariant)
    (hse : t'.manager.lastSeenSequence = t.manager.lastSeenSequence)
    (hseq : t.manager.store.nextSequence ≤ t'.manager.store.nextSequence)
    (hne : t.manager.nextSubscriptionId ≤ t'.manager.nextSubscriptionId)
    (hcr : ∀ id s', t'.manager.subscriptions.find? id = some s' →
      id < t'.manager.nextSubscriptionId)
    (hdi : ∀ snap, t'.manager.dispatch = some (.snapshot snap) →
      t.manager.dispatch = some (.snapshot snap))
    (hnew : ∀ p ∈ t'.owed, p ∈ t.owed ∨ p.1 < t'.manager.nextSubscriptionId ∧
      t.manager.store.nextSequence ≤ p.2.sequence ∧
      p.2.sequence < t'.manager.store.nextSequence ∧ isLossMarker p.2 = false)
    (how : ∀ p ∈ t.owed, ∀ s', t'.Owing p s' → ∃ s, t.Owing p s ∧
      (t.Accounted p s → t'.Accounted p s') ∧
      ∀ work, t.manager.dispatch = some (.enqueueing work) → p ∈ work → t'.Accounted p s' ∨
        ∃ work', t'.manager.dispatch = some (.enqueueing work') ∧ p ∈ work') :
    t'.DeliveryInvariant := by
  have hun := h.seen
  refine ⟨hcr, ?_, ?_, ?_, ?_⟩
  · intro p hp
    rcases hnew p hp with hp | ⟨hid, -, hlt, hma⟩
    · obtain ⟨hid, hlt, hma⟩ := h.owed p hp
      exact ⟨by omega, by omega, hma⟩
    · exact ⟨hid, hlt, hma⟩
  · omega
  · intro snap hs
    obtain ⟨hla, hev⟩ := h.snapshot snap (hdi snap hs)
    refine ⟨by omega, fun p hp s' hs' hlt hle => ?_⟩
    rcases hnew p hp with hp | ⟨-, hge, -⟩
    · obtain ⟨s, hs, -⟩ := how p hp s' hs'
      rw [hse] at hlt
      exact hev p hp s hs hlt hle
    · omega
  · intro p hp s' hs' hle
    rcases hnew p hp with hp | ⟨-, hge, -⟩
    · obtain ⟨s, hs, hac, hwo⟩ := how p hp s' hs'
      rcases h.accounted p hp s hs (hse ▸ hle) with ha | ⟨work, hd, hmem⟩
      · exact .inl (hac ha)
      · exact hwo work hd hmem
    · omega

/-! ### Steps that leave the subscriptions alone -/

section

variable (h : t.DeliveryInvariant)

include h

theorem subscribe_deliveryInvariant (filter : SubscriptionFilter) (limits : SubscriptionLimits) :
    (t.step (.subscribe filter limits)).DeliveryInvariant := by
  rcases t.manager.subscribe_cases filter limits with hm | ⟨s, hm⟩
  · have hsa : t.step (.subscribe filter limits) = t := by
      simp [step, apply, hm, owedBy, takenBy]
    rwa [hsa]
  · refine h.of_owing ?_ ?_ ?_ ?_ ?_ ?_ ?_
    · simp [step, apply, hm]
    · simp [step, apply, hm]
    · simp [step, apply, hm]
    · intro id q hq
      simp only [step, apply, hm, OrderedMap.find?_insert] at hq ⊢
      split_ifs at hq with hid
      · omega
      · have := h.created id q hq
        omega
    · simp [step, apply, hm]
    · intro p hp
      exact .inl (by simpa [step, owedBy] using hp)
    · -- nothing is owed to the new subscription yet
      intro p hp q ⟨hfi, hmem, hop, hac⟩
      have hne : p.1 ≠ t.manager.nextSubscriptionId := (h.owed p hp).1.ne
      simp only [step, apply, hm, OrderedMap.find?_insert, if_neg hne] at hfi
      simp only [step, apply, hm, mem_append, mem_singleton] at hmem
      refine ⟨q, ⟨hfi, hmem.resolve_right hne, hop, hac⟩, ?_, ?_⟩
      · simp [Accounted, step, takenBy]
      · intro work hwo hp
        refine .inr ⟨work, ?_, hp⟩
        simpa [step, apply, hm] using hwo

theorem publish_deliveryInvariant (draft : { d : EventDraft // d.type ≠ .subscriptionLossMarker }) :
    (t.step (.publish draft)).DeliveryInvariant := by
  refine h.of_owing rfl ?_ le_rfl h.created (fun _ hs => hs) ?_ ?_
  · rcases t.manager.store.publish_cases draft.1 with ⟨-, -, -, hle⟩ | ⟨e, -, -, -, -, -, hne⟩
    · exact hle
    · simp only [step, apply, publish]
      omega
  · intro p hp
    rcases mem_append.mp hp with hp | hp
    · exact .inl hp
    · right
      rcases t.manager.store.publish_cases draft.1 with
        ⟨hno, -⟩ | ⟨e, hev, hseq, hdr, -, -, hne⟩
      · simp [owedBy, publish, hno] at hp
      · simp only [owedBy, publish, hev, mem_map] at hp
        obtain ⟨id, hid, rfl⟩ := hp
        obtain ⟨s, hs⟩ := OrderedMap.mem_keys.mp hid
        simp only [step, apply, publish]
        refine ⟨h.created id s hs, by omega, by omega, ?_⟩
        have hty : e.type = draft.1.type := congrArg EventDraft.type hdr
        simp [isLossMarker, hty, draft.2]
  · intro p hp s hs
    refine ⟨s, hs, ?_, fun work hwo hp => .inr ⟨work, hwo, hp⟩⟩
    simp [Accounted, step, takenBy]

theorem dispatchSnapshot_deliveryInvariant (hri : t.InRing .dispatchSnapshot) :
    DeliveryInvariant { t with manager := t.manager.dispatchSnapshot } := by
  obtain hsa | ⟨hno, hm⟩ := t.manager.dispatchSnapshot_cases
  · rwa [hsa]
  · rw [hm]
    have hse := h.seen
    refine ⟨h.created, h.owed, h.seen, ?_, ?_⟩
    · intro snapshot hs
      obtain rfl : t.manager.store.since t.manager.lastSeenSequence = snapshot := by
        simpa using hs
      constructor
      · simp only [EventStore.since]
        omega
      · intro p hp s hs hlt _
        exact EventStore.mem_since (hri p hp s hs.1 hs hlt) hlt
    · intro p hp s hs hle
      rcases h.accounted p hp s hs hle with ha | ⟨work, hwo, -⟩
      · exact .inl ha
      · simp [hno] at hwo

theorem dispatchRegister_deliveryInvariant :
    DeliveryInvariant { t with manager := t.manager.dispatchRegister } := by
  obtain hsa | ⟨snap, hd, hm⟩ := t.manager.dispatchRegister_cases
  · rwa [hsa]
  · rw [hm]
    obtain ⟨hla, hev⟩ := h.snapshot snap hd
    refine ⟨h.created, h.owed, hla, ?_, ?_⟩
    · intro other hot
      simp at hot
    · intro p hp s hs hle
      -- either the event was seen before, or the snapshot has it and the dispatch will offer it
      by_cases hse : p.2.sequence ≤ t.manager.lastSeenSequence
      · rcases h.accounted p hp s hs hse with ha | ⟨work, hwo, -⟩
        · exact .inl ha
        · simp [hd] at hwo
      · have hmem := hev p hp s hs (not_le.mp hse) hle
        refine .inr ⟨_, rfl, ?_⟩
        exact mem_flatMap.mpr ⟨p.2, hmem, mem_map.mpr ⟨p.1, hs.2.1, rfl⟩⟩

/-! ### Steps on one subscription -/

/-- A step that changes one subscription, in a way that keeps its filter and never opens
it. -/
theorem DeliveryInvariant.of_modified {id : ℕ} {d : Option Dispatch}
    (hm : t'.manager = { t.manager with
      subscriptions := t.manager.subscriptions.modify id f, dispatch := d })
    (heq : t'.owed = t.owed)
    (hdi : ∀ snap, d = some (.snapshot snap) → t.manager.dispatch = some (.snapshot snap))
    (hf : ∀ s, (f s).isOpen = true → s.isOpen = true ∧ (f s).filter = s.filter)
    (how : ∀ p ∈ t.owed, ∀ s s', t.Owing p s → s'.isOpen = true →
      p.1 ≠ id ∧ s' = s ∨ p.1 = id ∧ s' = f s → (t.Accounted p s → t'.Accounted p s') ∧
      ∀ work, t.manager.dispatch = some (.enqueueing work) → p ∈ work → t'.Accounted p s' ∨
        ∃ work', d = some (.enqueueing work') ∧ p ∈ work') :
    t'.DeliveryInvariant := by
  refine h.of_owing (by rw [hm]) (by rw [hm]) (by rw [hm]) ?_ ?_ (fun p hp => .inl (heq ▸ hp)) ?_
  · intro i s' hs'
    rw [hm] at hs' ⊢
    obtain ⟨s, hs, -⟩ := OrderedMap.exists_of_find?_modify hs'
    exact h.created i s hs
  · rw [hm]
    exact hdi
  · intro p hp s' ⟨hfi, hmem, hop, hac⟩
    rw [hm] at hfi hmem ⊢
    obtain ⟨s, hs, ⟨hid, rfl⟩ | ⟨hid, rfl⟩⟩ := OrderedMap.exists_of_find?_modify hfi
    · obtain ⟨hso, hfil⟩ := hf s hop
      have hown : t.Owing p s := ⟨hs, hmem, hso, hfil ▸ hac⟩
      exact ⟨s, hown, how p hp s _ hown hop (.inr ⟨hid, rfl⟩)⟩
    · have hown : t.Owing p s' := ⟨hs, hmem, hop, hac⟩
      exact ⟨s', hown, how p hp s' s' hown hop (.inl ⟨hid, rfl⟩)⟩

end

theorem offer_open (event : PdcmEvent) (s : Subscription)
    (h : (s.offer event).isOpen = true) :
    s.isOpen = true ∧ (s.offer event).filter = s.filter := by
  unfold Subscription.offer at h ⊢
  split_ifs at h ⊢
  · obtain ⟨hop, hre, -⟩ := Subscription.enqueue_retains h
    exact ⟨hop, hre.filter⟩
  · exact ⟨h, rfl⟩

theorem offer_retains (h : (s.offer event).isOpen = true) : s.Retains (s.offer event) := by
  unfold Subscription.offer at h ⊢
  split_ifs at h ⊢
  · exact (Subscription.enqueue_retains h).2.1
  · exact .refl s

section

variable (h : t.DeliveryInvariant)

include h

theorem offer_deliveryInvariant {id : ℕ} {rest : List (ℕ × PdcmEvent)}
    (hd : t.manager.dispatch = some (.enqueueing ((id, event) :: rest))) (hm : m = { t.manager with
      subscriptions := t.manager.subscriptions.modify id (·.offer event)
      dispatch := some (.enqueueing rest) }) : DeliveryInvariant { t with manager := m } := by
  refine h.of_modified hm rfl nofun (offer_open event) fun p hp s s' hs hop hca => ?_
  have hre : s.Retains s' := by
    rcases hca with ⟨-, rfl⟩ | ⟨-, rfl⟩
    · exact .refl _
    · exact offer_retains hop
  refine ⟨fun ha => ha.of_retains (h.owed p hp).2.2 hre fun q hq => hq, fun work hwo hmem => ?_⟩
  rw [hd, Option.some.injEq, Dispatch.enqueueing.injEq] at hwo
  rw [← hwo, mem_cons] at hmem
  rcases hmem with rfl | hmem
  · -- the event offered now is the one in question
    left
    rcases hca with ⟨hne, -⟩ | ⟨-, rfl⟩
    · exact absurd rfl hne
    · have hac : s.filter.accepts event = true := hs.2.2.2
      rw [Subscription.offer, if_pos hac] at hop ⊢
      exact .inr (.inl (Subscription.enqueue_retains hop).2.2)
  · exact .inr ⟨rest, rfl, hmem⟩

theorem dispatchEnqueue_deliveryInvariant :
    DeliveryInvariant { t with manager := t.manager.dispatchEnqueue } := by
  obtain hsa | ⟨hd, hm⟩ | ⟨id, event, rest, hd, hm⟩ := t.manager.dispatchEnqueue_cases
  · rwa [hsa]
  · rw [hm]
    refine h.of_owing rfl le_rfl le_rfl h.created ?_ (fun p hp => .inl hp) ?_
    · intro snap hs
      simp at hs
    · intro p hp s hs
      refine ⟨s, hs, fun ha => ha, fun work hwo hmem => ?_⟩
      rw [hd, Option.some.injEq, Dispatch.enqueueing.injEq] at hwo
      simp [← hwo] at hmem
  · exact offer_deliveryInvariant h hd hm

theorem deliverTake_deliveryInvariant (id : ℕ) :
    (t.step (.deliverTake id)).DeliveryInvariant := by
  rcases t.manager.deliverTake_cases id with hno | ⟨q, event, rest, hq, hpe, hm, hev⟩
  · have hsa : t.step (.deliverTake id) = t := by
      simp [step, apply, hno, owedBy, takenBy]
    rwa [hsa]
  · have hta : (t.step (.deliverTake id)).taken = t.taken ++ [(id, event)] := by
      simp [step, takenBy, hev]
    refine h.of_modified (d := t.manager.dispatch) hm (append_nil _) (fun _ hs => hs)
      (fun _ ho => ⟨ho, rfl⟩) fun p hp s s' hs _ hca =>
        ⟨fun ha => ?_, fun work hwo hmem => .inr ⟨work, hwo, hmem⟩⟩
    unfold Accounted at ha ⊢
    simp only [hta, mem_append, mem_singleton]
    rcases hca with ⟨-, rfl⟩ | ⟨rfl, rfl⟩
    · rcases ha with ha | ha | ha | ⟨r, hr, hre⟩
      · exact .inl (.inl ha)
      · exact .inr (.inl ha)
      · exact .inr (.inr (.inl ha))
      · exact .inr (.inr (.inr ⟨r, .inl hr, hre⟩))
    · -- the head of the queue moves to what was taken
      obtain rfl : q = s := by simpa [hs.1] using hq.symm
      rw [hpe] at ha
      rcases ha with ha | ha | ⟨m, hmem, hco⟩ | ⟨r, hr, hre⟩
      · exact .inl (.inl ha)
      · rcases mem_cons.mp ha with heq | ha
        · exact .inl (.inr (by rw [← heq]))
        · exact .inr (.inl ha)
      · rcases mem_cons.mp hmem with rfl | hmem
        · exact .inr (.inr (.inr ⟨(p.1, m), .inr rfl, rfl, hco⟩))
        · exact .inr (.inr (.inl ⟨m, hmem, hco⟩))
      · exact .inr (.inr (.inr ⟨r, .inl hr, hre⟩))

/-- Steps that leave the queue of a subscription alone while it is open. -/
theorem DeliveryInvariant.of_modify {id : ℕ}
    (hm : m = { t.manager with subscriptions := t.manager.subscriptions.modify id f })
    (hf : ∀ s, (f s).isOpen = true → s.isOpen = true ∧ (f s).filter = s.filter ∧
      (f s).pending = s.pending) : DeliveryInvariant { t with manager := m } := by
  refine h.of_modified (d := t.manager.dispatch) hm rfl (fun _ hs => hs)
    (fun s ho => ⟨(hf s ho).1, (hf s ho).2.1⟩) fun p hp s s' hs hop hca => ?_
  have hpe : s'.pending = s.pending := by
    rcases hca with ⟨-, rfl⟩ | ⟨-, rfl⟩
    · rfl
    · exact (hf s hop).2.2
  refine ⟨fun ha => ?_, fun work hwo hmem => .inr ⟨work, hwo, hmem⟩⟩
  unfold Accounted at ha ⊢
  rwa [hpe]

theorem closeRemove_deliveryInvariant (id : ℕ) :
    DeliveryInvariant { t with manager := t.manager.closeRemove id } := by
  refine h.of_owing rfl le_rfl le_rfl h.created (fun _ hs => hs) (fun p hp => .inl hp) ?_
  intro p hp s ⟨hfi, hmem, hop, hac⟩
  refine ⟨s, ⟨hfi, (mem_filter.mp hmem).1, hop, hac⟩, fun ha => ha, ?_⟩
  intro work hwo hp
  exact .inr ⟨work, hwo, hp⟩

theorem closeMark_deliveryInvariant (id : ℕ) :
    DeliveryInvariant { t with manager := t.manager.closeMark id } := by
  by_cases hmem : id ∈ t.manager.registry
  · have hsa : t.manager.closeMark id = t.manager := if_pos hmem
    rwa [hsa]
  · refine h.of_modify (if_neg hmem) ?_
    intro s hop
    simp [Subscription.isOpen] at hop

end

theorem step_deliveryInvariant (t : DeliveryTrace) (op : SubscriptionOp)
    (h : t.DeliveryInvariant) (hri : t.InRing op) : (t.step op).DeliveryInvariant := by
  have hqu : owedBy t.manager op = [] → takenBy t.manager op = [] →
      t.step op = { t with manager := t.manager.apply op } := by
    intro how hta
    simp [step, how, hta]
  cases op with
  | subscribe filter limits => exact subscribe_deliveryInvariant h filter limits
  | publish draft => exact publish_deliveryInvariant h draft
  | dispatchSnapshot =>
    rw [hqu rfl rfl]
    exact dispatchSnapshot_deliveryInvariant h hri
  | dispatchRegister =>
    rw [hqu rfl rfl]
    exact dispatchRegister_deliveryInvariant h
  | dispatchEnqueue =>
    rw [hqu rfl rfl]
    exact dispatchEnqueue_deliveryInvariant h
  | deliverTake id => exact deliverTake_deliveryInvariant h id
  | deliverFinish id =>
    rw [hqu rfl rfl]
    exact h.of_modify rfl fun s hop => ⟨hop, rfl, rfl⟩
  | closeRemove id =>
    rw [hqu rfl rfl]
    exact closeRemove_deliveryInvariant h id
  | closeMark id =>
    rw [hqu rfl rfl]
    exact closeMark_deliveryInvariant h id
  | closeFinish id =>
    rw [hqu rfl rfl]
    refine h.of_modify rfl fun s hop => ?_
    split_ifs at hop ⊢
    · simp [Subscription.isOpen] at hop
    · exact ⟨hop, rfl, rfl⟩
  | startDraining =>
    rw [hqu rfl rfl]
    exact ⟨h.created, h.owed, h.seen, h.snapshot, h.accounted⟩

/-- If at every dispatch the ring still has the events that are owed, no event is lost
silently. -/
theorem run_noSilentLoss (limits : EventStoreLimits) (maxSubscriptions : ℕ)
    (ops : List SubscriptionOp) (h : Along step InRing (initial limits maxSubscriptions) ops) :
    (run limits maxSubscriptions ops).NoSilentLoss := by
  have hinv : (run limits maxSubscriptions ops).DeliveryInvariant :=
    invariant_along step_deliveryInvariant (by constructor <;> simp [initial]) h
  intro hidle p hp s _ hs hle
  rcases hinv.accounted p hp s hs hle with ha | ⟨work, hwork, -⟩
  · exact ha
  · simp [hidle] at hwork

/-! ### A ring that is too small -/

def catalogChange (generation : ℕ) : SubscriptionOp :=
  .publish ⟨{ type := .catalogChanged, catalogGeneration := generation }, EventType.noConfusion⟩

/-- One subscriber to catalog changes, two changes, then a whole dispatch. -/
def twoChanges (limits : SubscriptionLimits) : List SubscriptionOp :=
  [.subscribe { eventTypes := [.catalogChanged] } limits, catalogChange 1, catalogChange 2,
    .dispatchSnapshot, .dispatchRegister, .dispatchEnqueue, .dispatchEnqueue, .dispatchEnqueue]

/-- In a ring of one event the second change overwrites the first before the dispatch, which
then skips it without a marker. -/
theorem overwritten_lostSilently : ¬(run { maxEvents := 1 } 1024 (twoChanges {})).NoSilentLoss := by
  decide +kernel

/-- The same run on a larger ring, with a third change for a queue of two events: the queue
ends with the marker of what it dropped and the newest event. -/
def markedLoss : List SubscriptionOp :=
  twoChanges { maxEvents := 2 } ++ [.deliverTake 1, catalogChange 3, catalogChange 4,
    .dispatchSnapshot, .dispatchRegister, .dispatchEnqueue, .dispatchEnqueue, .dispatchEnqueue]

theorem run_noSilentLoss_markedLoss :
    (run {} 1024 markedLoss).owed.length = 4 ∧
      ((run {} 1024 markedLoss).manager.subscriptions.find? 1).map
        (fun s => s.pending.map fun e => (e.type, e.sequence)) =
        some [(.subscriptionLossMarker, 2), (.catalogChanged, 4)] ∧
      (run {} 1024 markedLoss).NoSilentLoss :=
  ⟨by decide +kernel, by decide +kernel, run_noSilentLoss {} 1024 markedLoss (by decide +kernel)⟩

end DeliveryTrace
end Pdcm
