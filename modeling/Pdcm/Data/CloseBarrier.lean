import Pdcm.Data.SubscriptionManager

/-!
# Closing a subscription is a barrier

Any number of `deliverNext` and `close` calls run beside the dispatcher, on any
subscriptions. A call is in one of the stages between its critical sections; a `close`
that waits for `active_deliveries == 0` stays where it is until a step finds the counter
at zero. The counter of a subscription is the number of its callbacks that run, and once
`close` has marked the subscription, no delivery takes from it and no dispatch adds to
it. So when `close` returns, no callback of the subscription runs, and none starts later.
-/

namespace Pdcm

open Library List

/-- Where a call stands: what its next critical section is, or what it returned. -/
inductive CallStage where
  | found (id : ℕ)
  | callback (id : ℕ) (event : PdcmEvent)
  | delivered (id : ℕ) (status : Status)
  | removed (id : ℕ)
  | waiting (id : ℕ)
  | closeReturned (id : ℕ) (status : Status)
  deriving DecidableEq, Repr

namespace CallStage

def id : CallStage → ℕ
  | found id | callback id _ | delivered id _ | removed id | waiting id | closeReturned id _ => id

/-- A callback of the subscription runs. -/
def runsCallback (id : ℕ) : CallStage → Bool
  | callback other _ => decide (other = id)
  | _ => false

/-- The subscription is out of the registry for this call. -/
def hasRemoved : CallStage → Bool
  | removed _ | waiting _ => true
  | closeReturned _ status => status.ok
  | _ => false

/-- The call has marked the subscription as closing. -/
def hasMarked : CallStage → Bool
  | waiting _ => true
  | closeReturned _ status => status.ok
  | _ => false

end CallStage

/-- The manager with the calls on it, and the callbacks that were started. -/
structure ClosingTrace where
  manager : SubscriptionManager
  calls : List CallStage := []
  started : List (ℕ × PdcmEvent) := []

/-- The steps of a run. `call` is the place of a call in the list of calls. -/
inductive ClosingOp where
  | subscribe (filter : SubscriptionFilter) (limits : SubscriptionLimits)
  | publish (draft : EventDraft)
  | dispatchSnapshot
  | dispatchRegister
  | dispatchEnqueue
  | startDraining
  | deliverNext (id : ℕ)
  | deliverTake (call : ℕ)
  | deliverFinish (call : ℕ) (threw : Bool)
  | close (id : ℕ)
  | closeMark (call : ℕ)
  | closeFinish (call : ℕ)

namespace ClosingTrace

variable (m : SubscriptionManager) {c c' : CallStage}

def notActive : Status := ⟨.notFound, "subscription is not active"⟩

/-- Why a delivery returns without a callback. -/
def refusal (m : SubscriptionManager) (id : ℕ) : Status :=
  match m.subscriptions.find? id with
  | none => notActive
  | some s =>
    if s.isOpen = false then ⟨.unavailable, "subscription is closed"⟩
    else ⟨.notFound, "subscription queue is empty"⟩

/-- The first section of `deliverNext`, under the registry lock. -/
def deliverNext (t : ClosingTrace) (id : ℕ) : ClosingTrace :=
  { t with calls := t.calls ++
      [if id ∈ t.manager.registry then .found id else .delivered id notActive] }

/-- The second section takes an event and starts the callback, or returns. -/
def deliverTake (t : ClosingTrace) (call : ℕ) : ClosingTrace :=
  match t.calls[call]? with
  | some (.found id) =>
    match t.manager.deliverTake id with
    | (m, some event) =>
      { manager := m, calls := t.calls.set call (.callback id event)
        started := t.started ++ [(id, event)] }
    | (m, none) =>
      { t with manager := m, calls := t.calls.set call (.delivered id (refusal t.manager id)) }
  | _ => t

/-- The callback ends, by an exception or not, and the last section runs. -/
def deliverFinish (t : ClosingTrace) (call : ℕ) (threw : Bool) : ClosingTrace :=
  match t.calls[call]? with
  | some (.callback id _) =>
    { t with
      manager := t.manager.deliverFinish id
      calls := t.calls.set call (.delivered id
        (if threw then ⟨.internal, "event callback threw an exception"⟩ else .success)) }
  | _ => t

def close (t : ClosingTrace) (id : ℕ) : ClosingTrace :=
  if id ∈ t.manager.registry then
    { t with manager := t.manager.closeRemove id, calls := t.calls ++ [.removed id] }
  else { t with calls := t.calls ++ [.closeReturned id notActive] }

def closeMark (t : ClosingTrace) (call : ℕ) : ClosingTrace :=
  match t.calls[call]? with
  | some (.removed id) =>
    { t with manager := t.manager.closeMark id, calls := t.calls.set call (.waiting id) }
  | _ => t

/-- The wait ends when no delivery is active; until then the call stays where it is. -/
def closeFinish (t : ClosingTrace) (call : ℕ) : ClosingTrace :=
  match t.calls[call]? with
  | some (.waiting id) =>
    match t.manager.subscriptions.find? id with
    | some s =>
      if s.activeDeliveries = 0 then
        { t with
          manager := t.manager.closeFinish id
          calls := t.calls.set call (.closeReturned id .success) }
      else t
    | none => t
  | _ => t

def step (t : ClosingTrace) : ClosingOp → ClosingTrace
  | .subscribe filter limits => { t with manager := (t.manager.subscribe filter limits).1 }
  | .publish draft => { t with manager := (t.manager.publish draft).1 }
  | .dispatchSnapshot => { t with manager := t.manager.dispatchSnapshot }
  | .dispatchRegister => { t with manager := t.manager.dispatchRegister }
  | .dispatchEnqueue => { t with manager := t.manager.dispatchEnqueue }
  | .startDraining => { t with manager := t.manager.startDraining }
  | .deliverNext id => t.deliverNext id
  | .deliverTake call => t.deliverTake call
  | .deliverFinish call threw => t.deliverFinish call threw
  | .close id => t.close id
  | .closeMark call => t.closeMark call
  | .closeFinish call => t.closeFinish call

def initial (limits : EventStoreLimits) (maxSubscriptions : ℕ) : ClosingTrace where
  manager := { store := { limits := limits }, maxSubscriptions := maxSubscriptions }

def run (limits : EventStoreLimits) (maxSubscriptions : ℕ) (ops : List ClosingOp) : ClosingTrace :=
  runFrom step (initial limits maxSubscriptions) ops

/-- How many callbacks of a subscription run. -/
def runningCallbacks (t : ClosingTrace) (id : ℕ) : ℕ := t.calls.countP (CallStage.runsCallback id)

/-! ### The invariant -/

structure ClosingInvariant (t : ClosingTrace) : Prop where
  registered : ∀ id ∈ t.manager.registry, id < t.manager.nextSubscriptionId
  created : ∀ id s, t.manager.subscriptions.find? id = some s → id < t.manager.nextSubscriptionId
  called : ∀ c ∈ t.calls, c.hasRemoved = true → c.id < t.manager.nextSubscriptionId
  counted : ∀ id s, t.manager.subscriptions.find? id = some s →
    s.activeDeliveries = t.runningCallbacks id
  running : ∀ id, t.manager.nextSubscriptionId ≤ id → t.runningCallbacks id = 0
  removed : ∀ c ∈ t.calls, c.hasRemoved = true → c.id ∉ t.manager.registry
  marked : ∀ c ∈ t.calls, c.hasMarked = true → ∀ s ∈ t.manager.subscriptions.find? c.id,
    s.closing = true ∧ s.pending = []
  idle : ∀ id, .closeReturned id .success ∈ t.calls → t.runningCallbacks id = 0

variable {t : ClosingTrace} (limits : EventStoreLimits) (maxSubscriptions : ℕ)

/-! ### Steps beside the calls -/

/-- What a step without a call may do to the manager: a subscription keeps its counter and a
closing one stays closing and empty; a new one starts with no delivery. -/
structure Background (m m' : SubscriptionManager) : Prop where
  next : m.nextSubscriptionId ≤ m'.nextSubscriptionId
  registry : ∀ id ∈ m'.registry, id ∈ m.registry ∨
    id = m.nextSubscriptionId ∧ id < m'.nextSubscriptionId
  subscriptions : ∀ id s', m'.subscriptions.find? id = some s' →
    (∃ s, m.subscriptions.find? id = some s ∧ s'.activeDeliveries = s.activeDeliveries ∧
      (s.closing = true → s.pending = [] → s'.closing = true ∧ s'.pending = [])) ∨
    id = m.nextSubscriptionId ∧ id < m'.nextSubscriptionId ∧ s'.activeDeliveries = 0

theorem Background.of_same {m m' : SubscriptionManager}
    (hne : m'.nextSubscriptionId = m.nextSubscriptionId) (hreg : m'.registry = m.registry)
    (hsu : m'.subscriptions = m.subscriptions) : Background m m' where
  next := hne.ge
  registry _ h := Or.inl (hreg ▸ h)
  subscriptions _ s h := Or.inl ⟨s, hsu ▸ h, rfl, fun hcl hpe => ⟨hcl, hpe⟩⟩

theorem ClosingInvariant.background (h : t.ClosingInvariant) {m : SubscriptionManager}
    (hm : Background t.manager m) : ClosingInvariant { t with manager := m } where
  registered id hid := by
    rcases hm.registry id hid with hid | ⟨-, hlt⟩
    · exact (h.registered id hid).trans_le hm.next
    · exact hlt
  created id s hs := by
    rcases hm.subscriptions id s hs with ⟨old, hold, -⟩ | ⟨-, hlt, -⟩
    · exact (h.created id old hold).trans_le hm.next
    · exact hlt
  called c hc hrem := (h.called c hc hrem).trans_le hm.next
  counted id s hs := by
    rcases hm.subscriptions id s hs with ⟨old, hold, hac, -⟩ | ⟨hid, -, hac⟩
    · exact hac.trans (h.counted id old hold)
    · exact hac.trans (h.running id hid.ge).symm
  running id hid := h.running id (hm.next.trans hid)
  removed c hc hrem hid := by
    rcases hm.registry c.id hid with hid | ⟨heq, -⟩
    · exact h.removed c hc hrem hid
    · exact absurd heq (h.called c hc hrem).ne
  marked c hc hma s hs := by
    have hrem : c.hasRemoved = true := by
      cases c <;> simp_all [CallStage.hasRemoved, CallStage.hasMarked]
    rcases hm.subscriptions c.id s hs with ⟨old, hold, -, hke⟩ | ⟨heq, -⟩
    · obtain ⟨hcl, hpe⟩ := h.marked c hc hma old hold
      exact hke hcl hpe
    · exact absurd heq (h.called c hc hrem).ne
  idle := h.idle

/-- A closing subscription takes no event, and no event changes the counter. -/
theorem offer_keeps (event : PdcmEvent) (s : Subscription) :
    (s.offer event).activeDeliveries = s.activeDeliveries ∧
      (s.closing = true → s.offer event = s) := by
  unfold Subscription.offer
  split_ifs
  · refine ⟨(s.enqueue_frame event).2, fun hcl => Subscription.enqueue_of_closed ?_ event⟩
    simp [Subscription.isOpen, hcl]
  · exact ⟨rfl, fun _ => rfl⟩

theorem dispatchEnqueue_background : Background m m.dispatchEnqueue := by
  rcases m.dispatchEnqueue_cases with hsa | ⟨-, hm⟩ | ⟨id, event, rest, -, hm⟩
  · rw [hsa]
    exact .of_same rfl rfl rfl
  · rw [hm]
    exact .of_same rfl rfl rfl
  · rw [hm]
    refine ⟨le_rfl, fun _ h => .inl h, ?_⟩
    intro i s' hs'
    left
    obtain ⟨s, hs, ⟨-, rfl⟩ | ⟨-, rfl⟩⟩ := OrderedMap.exists_of_find?_modify hs'
    · obtain ⟨hac, hke⟩ := offer_keeps event s
      refine ⟨s, hs, hac, fun hcl hpe => ?_⟩
      rw [hke hcl]
      exact ⟨hcl, hpe⟩
    · exact ⟨s', hs, rfl, fun hcl hpe => ⟨hcl, hpe⟩⟩

theorem subscribe_background (filter : SubscriptionFilter) (limits : SubscriptionLimits) :
    Background m (m.subscribe filter limits).1 := by
  rcases m.subscribe_cases filter limits with hsa | ⟨sorted, hm⟩
  · rw [hsa]
    exact .of_same rfl rfl rfl
  · rw [hm]
    refine ⟨Nat.le_succ _, ?_, ?_⟩
    · intro id hid
      rcases mem_append.mp hid with hid | hid
      · exact .inl hid
      · exact .inr ⟨mem_singleton.mp hid, by simp_all⟩
    · intro id s hs
      simp only [OrderedMap.find?_insert] at hs
      split_ifs at hs with hid
      · obtain rfl := Option.some.inj hs
        exact .inr ⟨hid, by simp [hid], rfl⟩
      · exact .inl ⟨s, hs, rfl, fun hcl hpe => ⟨hcl, hpe⟩⟩

theorem dispatchSnapshot_background : Background m m.dispatchSnapshot := by
  rcases m.dispatchSnapshot_cases with hsa | ⟨-, hm⟩
  · rw [hsa]
    exact .of_same rfl rfl rfl
  · rw [hm]
    exact .of_same rfl rfl rfl

theorem dispatchRegister_background : Background m m.dispatchRegister := by
  rcases m.dispatchRegister_cases with hsa | ⟨snap, -, hm⟩
  · rw [hsa]
    exact .of_same rfl rfl rfl
  · rw [hm]
    exact .of_same rfl rfl rfl

/-! ### Steps of a call -/

theorem ClosingInvariant.begin (h : t.ClosingInvariant) (hc : ∀ id, c.runsCallback id = false)
    (hrem : c.hasRemoved = false) : ClosingInvariant { t with calls := t.calls ++ [c] } := by
  have hco : ∀ id, runningCallbacks { t with calls := t.calls ++ [c] } id =
      t.runningCallbacks id := by
    intro id
    simp [runningCallbacks, hc]
  have hmem : ∀ c' ∈ t.calls ++ [c], c'.hasRemoved = true → c' ∈ t.calls := by
    intro c' hc' h'
    rcases mem_append.mp hc' with hc' | hc'
    · exact hc'
    · rw [mem_singleton.mp hc', hrem] at h'
      simp at h'
  refine ⟨h.registered, h.created, ?_, ?_, ?_, ?_, ?_, ?_⟩
  · intro c' hc' h'
    exact h.called c' (hmem c' hc' h') h'
  · intro id s hs
    exact (h.counted id s hs).trans (hco id).symm
  · intro id hid
    exact (hco id).trans (h.running id hid)
  · intro c' hc' h'
    exact h.removed c' (hmem c' hc' h') h'
  · intro c' hc' h'
    refine h.marked c' (hmem c' hc' ?_) h'
    cases c' <;> simp_all [CallStage.hasRemoved, CallStage.hasMarked]
  · intro id hid
    exact (hco id).trans (h.idle id (hmem _ hid rfl))

/-- What a call in stage `c` does when it goes on to stage `c'` and changes its subscription
by `f`. -/
structure Advance (t : ClosingTrace) (c c' : CallStage) (f : Subscription → Subscription) :
    Prop where
  same : c'.id = c.id
  active : ∀ s ∈ t.manager.subscriptions.find? c.id,
    (f s).activeDeliveries + (if c.runsCallback c.id then 1 else 0) =
      s.activeDeliveries + (if c'.runsCallback c.id then 1 else 0)
  starts : c'.runsCallback c.id = true → ∃ s ∈ t.manager.subscriptions.find? c.id, s.closing = false
  keeps : ∀ s ∈ t.manager.subscriptions.find? c.id, s.closing = true → s.pending = [] →
    (f s).closing = true ∧ (f s).pending = []
  removed : c'.hasRemoved = true → c.hasRemoved = true
  marked : c'.hasMarked = true → ∀ s ∈ t.manager.subscriptions.find? c.id,
    (f s).closing = true ∧ (f s).pending = []
  idle : c' = .closeReturned c.id .success → t.runningCallbacks c.id = 0

theorem runsCallback_of_ne {id : ℕ} (h : c.id ≠ id) : c.runsCallback id = false := by
  cases c <;> simp_all [CallStage.runsCallback, CallStage.id]

theorem runningCallbacks_set {call : ℕ} (hca : t.calls[call]? = some c) (c' : CallStage)
    (m : SubscriptionManager) (started : List (ℕ × PdcmEvent)) (id : ℕ) :
    runningCallbacks ⟨m, t.calls.set call c', started⟩ id + (if c.runsCallback id then 1 else 0) =
      t.runningCallbacks id + (if c'.runsCallback id then 1 else 0) := by
  obtain ⟨hlt, hget⟩ := List.getElem?_eq_some_iff.mp hca
  have hpos : c.runsCallback id = true → 0 < t.calls.countP (CallStage.runsCallback id) := by
    intro hc
    exact countP_pos_iff.mpr ⟨c, mem_of_getElem? hca, hc⟩
  simp only [runningCallbacks, countP_set hlt, hget]
  cases hc : c.runsCallback id with
  | false => simp
  | true =>
    have := hpos hc
    simp only [if_true]
    omega

theorem runningCallbacks_set_zero {call : ℕ} (hca : t.calls[call]? = some c)
    (m : SubscriptionManager) (started : List (ℕ × PdcmEvent)) {id : ℕ}
    (hze : t.runningCallbacks id = 0) (hst : c'.runsCallback id = false) :
    runningCallbacks ⟨m, t.calls.set call c', started⟩ id = 0 := by
  have hco := runningCallbacks_set hca c' m started id
  rw [hst] at hco
  simp only [Bool.false_eq_true, if_false] at hco
  omega

namespace Advance

variable {call id : ℕ} {f : Subscription → Subscription}
  (started : List (ℕ × PdcmEvent))

theorem running_other (ha : Advance t c c' f) (hca : t.calls[call]? = some c) (hid : id ≠ c.id) :
    runningCallbacks ⟨m, t.calls.set call c', started⟩ id = t.runningCallbacks id := by
  have hco := runningCallbacks_set hca c' m started id
  rw [runsCallback_of_ne (.symm hid), runsCallback_of_ne (ha.same ▸ .symm hid)] at hco
  simpa using hco

variable (ha : Advance t c c' f) (h : t.ClosingInvariant)

include ha h

theorem running_new (hca : t.calls[call]? = some c) (hid : t.manager.nextSubscriptionId ≤ id) :
    runningCallbacks ⟨m, t.calls.set call c', started⟩ id = 0 := by
  by_cases heq : id = c.id
  · subst heq
    cases hc' : c'.runsCallback c.id with
    | false => exact runningCallbacks_set_zero hca m started (h.running c.id hid) hc'
    | true =>
      obtain ⟨s, hs, -⟩ := ha.starts hc'
      exact absurd (h.created c.id s hs) (not_lt.mpr hid)
  · rw [ha.running_other m started hca heq]
    exact h.running id hid

theorem marked_closing {d : CallStage}
    (hd : d ∈ t.calls.set call c') (hma : d.hasMarked = true) {s' : Subscription}
    (hs' : (t.manager.subscriptions.modify c.id f).find? d.id = some s') :
    s'.closing = true ∧ s'.pending = [] := by
  obtain ⟨s, hs, hca⟩ := OrderedMap.exists_of_find?_modify hs'
  rcases mem_or_eq_of_mem_set hd with hd | rfl
  · obtain ⟨hcl, hpe⟩ := h.marked d hd hma s hs
    rcases hca with ⟨hid, rfl⟩ | ⟨-, rfl⟩
    · exact ha.keeps s (hid ▸ hs) hcl hpe
    · exact ⟨hcl, hpe⟩
  · rw [ha.same] at hs hca
    rcases hca with ⟨-, rfl⟩ | ⟨hne, -⟩
    · exact ha.marked hma s hs
    · exact absurd rfl hne

theorem returned_idle
    (hca : t.calls[call]? = some c) (hret : .closeReturned id .success ∈ t.calls.set call c') :
    runningCallbacks ⟨m, t.calls.set call c', started⟩ id = 0 := by
  rcases mem_or_eq_of_mem_set hret with hret | heq
  · cases hc' : c'.runsCallback id with
    | false => exact runningCallbacks_set_zero hca m started (h.idle id hret) hc'
    | true =>
      -- the subscription is marked, so no callback of it starts
      obtain rfl : c.id = id := by
        by_contra hne
        rw [runsCallback_of_ne (ha.same ▸ hne)] at hc'
        simp at hc'
      obtain ⟨s, hs, hop⟩ := ha.starts hc'
      have hcl := (h.marked _ hret rfl s hs).1
      rw [hop] at hcl
      simp at hcl
  · obtain rfl : id = c.id := by
      rw [← ha.same, ← heq]
      rfl
    have hc' : c'.runsCallback c.id = false := by
      rw [← heq]
      rfl
    exact runningCallbacks_set_zero hca m started (ha.idle heq.symm) hc'

end Advance

theorem ClosingInvariant.advance (h : t.ClosingInvariant) {call : ℕ}
    (hca : t.calls[call]? = some c) {f : Subscription → Subscription} (ha : Advance t c c' f)
    (started : List (ℕ × PdcmEvent)) :
    ClosingInvariant
      ⟨{ t.manager with subscriptions := t.manager.subscriptions.modify c.id f },
        t.calls.set call c', started⟩ := by
  have hmem : c ∈ t.calls := mem_of_getElem? hca
  refine ⟨h.registered, ?_, ?_, ?_, ?_, ?_, ?_, ?_⟩
  · intro id s' hs'
    obtain ⟨s, hs, -⟩ := OrderedMap.exists_of_find?_modify hs'
    exact h.created id s hs
  · intro d hd hrem
    rcases mem_or_eq_of_mem_set hd with hd | rfl
    · exact h.called d hd hrem
    · rw [ha.same]
      exact h.called c hmem (ha.removed hrem)
  · intro id s' hs'
    obtain ⟨s, hs, ⟨rfl, rfl⟩ | ⟨hid, rfl⟩⟩ := OrderedMap.exists_of_find?_modify hs'
    · have hac := ha.active s hs
      have hco := h.counted c.id s hs
      have hcou := runningCallbacks_set hca c'
        { t.manager with subscriptions := t.manager.subscriptions.modify c.id f } started c.id
      omega
    · rw [ha.running_other _ started hca hid]
      exact h.counted id s' hs
  · intro id hid
    exact ha.running_new _ started h hca hid
  · intro d hd hrem
    rcases mem_or_eq_of_mem_set hd with hd | rfl
    · exact h.removed d hd hrem
    · rw [ha.same]
      exact h.removed c hmem (ha.removed hrem)
  · intro d hd hma s' hs'
    exact ha.marked_closing h hd hma hs'
  · intro id hret
    exact ha.returned_idle _ started h hca hret

theorem deliverNext_closingInvariant (h : t.ClosingInvariant) (id : ℕ) :
    (t.deliverNext id).ClosingInvariant := by
  refine h.begin ?_ ?_
  · intro other
    split_ifs <;> rfl
  · split_ifs <;> rfl

theorem closing_of_deliverTake {m : SubscriptionManager} {id : ℕ} {event : PdcmEvent}
    (h : (m.deliverTake id).2 = some event) :
    ∃ s ∈ m.subscriptions.find? id, s.closing = false := by
  cases hs : m.subscriptions.find? id with
  | none => simp [SubscriptionManager.deliverTake, hs] at h
  | some s =>
    cases hop : s.isOpen with
    | false => simp [SubscriptionManager.deliverTake, hs, hop] at h
    | true =>
      simp only [Subscription.isOpen, Bool.and_eq_true, Bool.not_eq_true'] at hop
      exact ⟨s, rfl, hop.1⟩

section

variable (h : t.ClosingInvariant) (call : ℕ)

include h

theorem deliverTake_closingInvariant :
    (t.deliverTake call).ClosingInvariant := by
  unfold deliverTake
  split
  next id hca =>
    rcases t.manager.deliverTake_cases id with hno | ⟨s, event, rest, hs, hpe, hm, hev⟩
    · have hsa : t.manager.subscriptions.modify id (fun s => s) = t.manager.subscriptions := by
        refine OrderedMap.ext_find? fun i => ?_
        simp [OrderedMap.find?_modify]
      have hadv : Advance t (.found id) (.delivered id (refusal t.manager id)) fun s => s := {
        same := rfl
        active := fun s _ => rfl
        starts := nofun
        keeps := fun s _ hcl hpe => ⟨hcl, hpe⟩
        removed := nofun
        marked := nofun
        idle := nofun }
      have had := h.advance hca hadv t.started
      rw [show (CallStage.found id).id = id from rfl, hsa] at had
      simpa only [hno] using had
    · have hst := closing_of_deliverTake hev
      have hpa : t.manager.deliverTake id = ((t.manager.deliverTake id).1, some event) :=
        Prod.ext rfl hev
      rw [hpa]
      rw [hm]
      refine h.advance hca ?_ _
      exact {
        same := rfl
        active := fun s _ => by simp [CallStage.runsCallback, CallStage.id]
        starts := fun _ => hst
        keeps := fun s' hs' hcl _ => by
          obtain ⟨s, hs, hop⟩ := hst
          obtain rfl : s = s' := Option.some.inj (.trans hs.symm hs')
          simp [hop] at hcl
        removed := nofun
        marked := nofun
        idle := nofun }
  next => exact h

theorem deliverFinish_closingInvariant (threw : Bool) :
    (t.deliverFinish call threw).ClosingInvariant := by
  unfold deliverFinish
  split
  next id event hca =>
    refine h.advance hca ?_ t.started
    exact {
      same := rfl
      active := fun s hs => by
        -- the callback of this call is one of those that are counted
        have hco := h.counted id s hs
        have hpos : 0 < t.runningCallbacks id :=
          countP_pos_iff.mpr ⟨_, mem_of_getElem? hca, by
            simp [CallStage.runsCallback]⟩
        simp only [CallStage.runsCallback, CallStage.id, decide_true, if_true,
          Bool.false_eq_true, if_false]
        omega
      starts := nofun
      keeps := fun s _ hcl hpe => ⟨hcl, hpe⟩
      removed := nofun
      marked := nofun
      idle := nofun }
  next => exact h

theorem close_closingInvariant (id : ℕ) :
    (t.close id).ClosingInvariant := by
  unfold close
  split_ifs with hid
  · have hco : ∀ other, runningCallbacks
        { t with manager := t.manager.closeRemove id, calls := t.calls ++ [.removed id] } other =
          t.runningCallbacks other := by
      intro other
      simp [runningCallbacks, CallStage.runsCallback]
    have hsu : ∀ other ∈ (t.manager.closeRemove id).registry, other ∈ t.manager.registry :=
      fun other hot => mem_of_mem_filter hot
    refine ⟨?_, h.created, ?_, ?_, ?_, ?_, ?_, ?_⟩
    · intro other hot
      exact h.registered other (hsu other hot)
    · intro c hc hrem
      rcases mem_append.mp hc with hc | hc
      · exact h.called c hc hrem
      · rw [mem_singleton.mp hc]
        exact h.registered id hid
    · intro other s hs
      exact (h.counted other s hs).trans (hco other).symm
    · intro other hot
      exact (hco other).trans (h.running other hot)
    · intro c hc hrem hreg
      rcases mem_append.mp hc with hc | hc
      · exact h.removed c hc hrem (hsu _ hreg)
      · rw [mem_singleton.mp hc] at hreg
        simp [SubscriptionManager.closeRemove, CallStage.id] at hreg
    · intro c hc hma
      rcases mem_append.mp hc with hc | hc
      · exact h.marked c hc hma
      · rw [mem_singleton.mp hc] at hma
        simp [CallStage.hasMarked] at hma
    · intro other hret
      refine (hco other).trans (h.idle other ?_)
      simpa using hret
  · exact h.begin (fun _ => rfl) rfl

theorem closeMark_closingInvariant :
    (t.closeMark call).ClosingInvariant := by
  unfold closeMark
  split
  next id hca =>
    have hid : id ∉ t.manager.registry := h.removed _ (mem_of_getElem? hca) rfl
    rw [SubscriptionManager.closeMark, if_neg hid]
    refine h.advance hca ?_ t.started
    exact {
      same := rfl
      active := fun s _ => rfl
      starts := nofun
      keeps := fun s _ _ _ => ⟨rfl, rfl⟩
      removed := fun _ => rfl
      marked := fun _ s _ => ⟨rfl, rfl⟩
      idle := nofun }
  next => exact h

theorem closeFinish_closingInvariant :
    (t.closeFinish call).ClosingInvariant := by
  unfold closeFinish
  split
  next id hca =>
    cases hs : t.manager.subscriptions.find? id with
    | none => exact h
    | some s =>
      dsimp only
      split_ifs with hid
      · have hma := h.marked _ (mem_of_getElem? hca) rfl
        refine h.advance hca ?_ t.started
        exact {
          same := rfl
          active := fun s _ => by
            simp only [CallStage.runsCallback]
            split_ifs <;> rfl
          starts := nofun
          keeps := fun s _ hcl hpe => by split_ifs <;> exact ⟨hcl, hpe⟩
          removed := fun _ => rfl
          marked := fun _ s hs => by
            obtain ⟨hcl, hpe⟩ := hma s hs
            split_ifs <;> exact ⟨hcl, hpe⟩
          idle := fun _ => (h.counted id s hs).symm.trans hid }
      · exact h
  next => exact h

end

theorem step_closingInvariant (t : ClosingTrace) (op : ClosingOp) (h : t.ClosingInvariant) :
    (t.step op).ClosingInvariant := by
  cases op with
  | subscribe filter limits => exact h.background (subscribe_background _ filter limits)
  | publish draft => exact h.background (.of_same rfl rfl rfl)
  | dispatchSnapshot => exact h.background (dispatchSnapshot_background _)
  | dispatchRegister => exact h.background (dispatchRegister_background _)
  | dispatchEnqueue => exact h.background (dispatchEnqueue_background _)
  | startDraining => exact h.background (.of_same rfl rfl rfl)
  | deliverNext id => exact deliverNext_closingInvariant h id
  | deliverTake call => exact deliverTake_closingInvariant h call
  | deliverFinish call threw => exact deliverFinish_closingInvariant h call threw
  | close id => exact close_closingInvariant h id
  | closeMark call => exact closeMark_closingInvariant h call
  | closeFinish call => exact closeFinish_closingInvariant h call

theorem run_closingInvariant (ops : List ClosingOp) :
    (run limits maxSubscriptions ops).ClosingInvariant :=
  invariant_run step_closingInvariant (by constructor <;> simp [initial, runningCallbacks]) ops

/-! ### The barrier -/

theorem mem_set_of_ne {call : ℕ} {d : CallStage} (hca : t.calls[call]? = some c)
    (hd : d ∈ t.calls) (hne : d ≠ c) : d ∈ t.calls.set call c' := by
  obtain ⟨i, hi, hget⟩ := mem_iff_getElem.mp hd
  have hot : call ≠ i := by
    rintro rfl
    rw [getElem?_eq_getElem hi, Option.some.injEq] at hca
    exact hne (hget.symm.trans hca)
  refine mem_iff_getElem.mpr ⟨i, by simpa using hi, ?_⟩
  rw [getElem_set_ne hot, hget]

/-- The callbacks of one subscription that were started. -/
def startedFor (t : ClosingTrace) (id : ℕ) : List (ℕ × PdcmEvent) :=
  t.started.filter fun p => decide (p.1 = id)

/-- A returned `close` stays returned, and no callback of its subscription is started. -/
theorem step_closed (h : t.ClosingInvariant) {id : ℕ}
    (hcl : .closeReturned id .success ∈ t.calls) (op : ClosingOp) :
    .closeReturned id .success ∈ (t.step op).calls ∧
      (t.step op).startedFor id = t.startedFor id := by
  cases op with
  | deliverNext other => exact ⟨mem_append_left _ hcl, rfl⟩
  | deliverTake call =>
    simp only [step, deliverTake]
    split
    next other hca =>
      split
      next m event hta =>
        refine ⟨mem_set_of_ne hca hcl (by simp), ?_⟩
        obtain ⟨s, hs, hop⟩ := closing_of_deliverTake (congrArg Prod.snd hta)
        have hne : other ≠ id := by
          rintro rfl
          have hclo := (h.marked _ hcl rfl s hs).1
          simp [hop] at hclo
        simp [startedFor, hne]
      next => exact ⟨mem_set_of_ne hca hcl (by simp), rfl⟩
    next => exact ⟨hcl, rfl⟩
  | deliverFinish call threw =>
    simp only [step, deliverFinish]
    split
    next other event hca => exact ⟨mem_set_of_ne hca hcl (by simp), rfl⟩
    next => exact ⟨hcl, rfl⟩
  | close other =>
    simp only [step, close]
    split_ifs
    · exact ⟨mem_append_left _ hcl, rfl⟩
    · exact ⟨mem_append_left _ hcl, rfl⟩
  | closeMark call =>
    simp only [step, closeMark]
    split
    next other hca => exact ⟨mem_set_of_ne hca hcl (by simp), rfl⟩
    next => exact ⟨hcl, rfl⟩
  | closeFinish call =>
    simp only [step, closeFinish]
    split
    next other hca =>
      cases t.manager.subscriptions.find? other with
      | none => exact ⟨hcl, rfl⟩
      | some s =>
        dsimp only
        split_ifs
        · exact ⟨mem_set_of_ne hca hcl (by simp), rfl⟩
        · exact ⟨hcl, rfl⟩
    next => exact ⟨hcl, rfl⟩
  | subscribe filter limits => exact ⟨hcl, rfl⟩
  | publish draft => exact ⟨hcl, rfl⟩
  | dispatchSnapshot => exact ⟨hcl, rfl⟩
  | dispatchRegister => exact ⟨hcl, rfl⟩
  | dispatchEnqueue => exact ⟨hcl, rfl⟩
  | startDraining => exact ⟨hcl, rfl⟩

/-- When `close` has returned, no callback of the subscription runs, none is started later
and its queue stays empty, whatever the other calls and the dispatcher do. -/
theorem run_close_barrier (before after : List ClosingOp) (id : ℕ)
    (hclosed : .closeReturned id .success ∈ (run limits maxSubscriptions before).calls) :
    (run limits maxSubscriptions (before ++ after)).runningCallbacks id = 0 ∧
      (run limits maxSubscriptions (before ++ after)).startedFor id =
        (run limits maxSubscriptions before).startedFor id ∧
      ∀ s ∈ (run limits maxSubscriptions (before ++ after)).manager.subscriptions.find? id,
        s.pending = [] := by
  have hinv := run_closingInvariant limits maxSubscriptions (before ++ after)
  have hlater : .closeReturned id .success ∈ (run limits maxSubscriptions (before ++ after)).calls ∧
      (run limits maxSubscriptions (before ++ after)).startedFor id =
        (run limits maxSubscriptions before).startedFor id := by
    rw [run, runFrom_append]
    -- along the rest of the run the call stays returned
    refine (invariant_run (I := fun t : ClosingTrace => t.ClosingInvariant ∧
      .closeReturned id .success ∈ t.calls ∧
      t.startedFor id = (run limits maxSubscriptions before).startedFor id) ?_
      ⟨run_closingInvariant limits maxSubscriptions before, hclosed, rfl⟩ after).2
    rintro t op ⟨ht, hreturned, hstarted⟩
    obtain ⟨hstays, hsame⟩ := step_closed ht hreturned op
    exact ⟨step_closingInvariant t op ht, hstays, hsame.trans hstarted⟩
  refine ⟨hinv.idle id hlater.1, hlater.2, ?_⟩
  intro s hs
  exact (hinv.marked _ hlater.1 rfl s hs).2

/-- A subscriber to catalog changes is closed while the callback of its first event runs. -/
def closedInCallback : List ClosingOp :=
  [.subscribe { eventTypes := [.catalogChanged] } {},
    .publish { type := .catalogChanged, catalogGeneration := 1 },
    .publish { type := .catalogChanged, catalogGeneration := 2 },
    .dispatchSnapshot, .dispatchRegister, .dispatchEnqueue, .dispatchEnqueue, .dispatchEnqueue,
    .deliverNext 1, .deliverNext 1, .deliverTake 0, .close 1, .closeMark 2, .closeFinish 2,
    .deliverFinish 0 false, .closeFinish 2]

/-- The second delivery had found the subscription before it was closed. -/
theorem run_close_barrier_closedInCallback :
    (run {} 1024 closedInCallback).startedFor 1 ≠ [] ∧
      (run {} 1024 (closedInCallback ++ [.deliverTake 1])).runningCallbacks 1 = 0 :=
  ⟨by decide +kernel,
    (run_close_barrier {} 1024 closedInCallback [.deliverTake 1] 1 (by decide +kernel)).1⟩

end ClosingTrace
end Pdcm
