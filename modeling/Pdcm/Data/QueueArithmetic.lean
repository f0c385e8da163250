import Pdcm.Data.EventDelivery
import Pdcm.Data.LossAccounting

/-!
# The arithmetic of subscription queues

`enqueue` computes with unsigned sizes: what room is left, what a dropped event or an old
marker gives back. Here it is written once more with subtractions that fail where the
source's would wrap, a drop loop that fails if it wants more passes than the queue has
events, and a note of the `return` that ends the call. In every state of the subscription
manager nothing fails, the result is that of `enqueue`, and the last limit check, which
would close the subscription after its drops were recorded, never strikes.
-/

namespace Pdcm

open Library List DeliveryTrace OrderedMap Option

/-- Subtraction of unsigned values that must not wrap. -/
def checkedSub (a b : ℕ) : Option ℕ := if b ≤ a then some (a - b) else none

theorem checkedSub_of_le {a b : ℕ} (h : b ≤ a) : checkedSub a b = some (a - b) := if_pos h

/-- Where `enqueue` returns. -/
inductive EnqueueExit where
  | ignored
  | tooLarge
  | noCandidate
  | secondLimit
  | appended
  deriving DecidableEq, Repr

namespace Subscription

variable {d : Dropping} {s : Subscription}

/-! ### Checked subtractions -/

def exceedsLimitsChecked (limits : SubscriptionLimits) (event : PdcmEvent)
    (marker : Option PdcmEvent) (d : Dropping) : Option Bool :=
  let needsMarker := marker.isNone && !d.dropped.isEmpty
  let reserved := if needsMarker then eventBytes (lossMarker event none) else 0
  let eventLimit := decide
    (limits.maxEvents < d.pending.length + 1 + (if needsMarker then 1 else 0))
  (checkedSub limits.maxBytes d.pendingBytes).bind fun room =>
    -- the second subtraction is made only if the first comparison fails
    if room < eventBytes event then some true
    else (checkedSub room (eventBytes event)).map fun rest =>
      eventLimit || decide (rest < reserved)

/-- The inner `none` is a loop without a candidate, the outer one a subtraction that would
wrap or a pass too many. -/
def dropLoopChecked (limits : SubscriptionLimits) (event : PdcmEvent)
    (marker : Option PdcmEvent) : ℕ → Dropping → Option (Option Dropping)
  | fuel, d =>
    (exceedsLimitsChecked limits event marker d).bind fun exceeds =>
      if exceeds = false then some (some d)
      else
        match fuel, d.pending.find? (replaceable event) with
        | _, none => some none
        | 0, some _ => none
        | fuel + 1, some candidate =>
          (checkedSub d.pendingBytes (eventBytes candidate)).bind fun pendingBytes =>
            dropLoopChecked limits event marker fuel
              { pending := d.pending.eraseP (replaceable event)
                pendingBytes := pendingBytes
                dropped := d.dropped ++ [candidate] }

def recordDropsChecked (marker : Option PdcmEvent) (d : Dropping) : Option (List PdcmEvent × ℕ) :=
  match d.dropped.foldl (fun m e => some (lossMarker e m)) marker with
  | none => some (d.pending, d.pendingBytes)
  | some updated =>
    if d.dropped = [] then some (d.pending, d.pendingBytes)
    else
      (checkedSub d.pendingBytes ((d.pending.find? isLossMarker).elim 0 eventBytes)).map
        fun rest => (placeMarker updated d.pending, rest + eventBytes updated)

def enqueueChecked (s : Subscription) (event : PdcmEvent) : Option (EnqueueExit × Subscription) :=
  if s.closing ∨ s.closed then some (.ignored, s)
  else if s.limits.maxBytes < eventBytes event then some (.tooLarge, s.shut)
  else
    let marker := s.pending.find? isLossMarker
    (dropLoopChecked s.limits event marker s.pending.length
        ⟨s.pending, s.pendingBytes, []⟩).bind fun
      | none => some (.noCandidate, s.shut)
      | some d =>
        (recordDropsChecked marker d).bind fun recorded =>
          (checkedSub s.limits.maxBytes (eventBytes event)).map fun room =>
            if s.limits.maxEvents ≤ recorded.1.length ∨ room < recorded.2 then
              (.secondLimit, s.shut)
            else
              (.appended, { s with
                pending := recorded.1 ++ [event]
                pendingBytes := recorded.2 + eventBytes event })

variable {limits : SubscriptionLimits} {event : PdcmEvent} {marker : Option PdcmEvent}

theorem exceedsLimitsChecked_eq (h : d.pendingBytes ≤ limits.maxBytes) :
    exceedsLimitsChecked limits event marker d = some (exceedsLimits limits event marker d) := by
  unfold exceedsLimitsChecked exceedsLimits
  rw [checkedSub_of_le h, bind_some]
  by_cases hro : limits.maxBytes - d.pendingBytes < eventBytes event
  · simp [hro]
  · rw [checkedSub_of_le (not_lt.mp hro)]
    simp [hro]

theorem eventBytes_le_queueBytes {es : List PdcmEvent} {e : PdcmEvent} (h : e ∈ es) :
    eventBytes e ≤ queueBytes es :=
  single_le_sum (by simp) _ (mem_map_of_mem h)

/-- The loop with exact bytes never wraps and needs no more passes than there are events. -/
theorem dropLoopChecked_eq {fuel : ℕ} (hfu : d.pending.length ≤ fuel)
    (hby : d.pendingBytes = queueBytes d.pending) (hle : d.pendingBytes ≤ limits.maxBytes) :
    dropLoopChecked limits event marker fuel d = some (dropLoop limits event marker fuel d) := by
  induction fuel generalizing d with
  | zero =>
    have hnil : d.pending = [] := length_eq_zero_iff.mp (Nat.le_zero.mp hfu)
    unfold dropLoopChecked dropLoop
    rw [exceedsLimitsChecked_eq hle, bind_some]
    split_ifs
    · rfl
    · simp [hnil]
  | succ fuel ih =>
    cases hexc : exceedsLimits limits event marker d with
    | false =>
      rw [dropLoop_fits hexc]
      unfold dropLoopChecked
      rw [exceedsLimitsChecked_eq hle, hexc]
      rfl
    | true =>
      cases hfi : d.pending.find? (replaceable event) with
      | none =>
        rw [dropLoop_stuck hexc hfi]
        unfold dropLoopChecked
        rw [exceedsLimitsChecked_eq hle, hexc, hfi]
        rfl
      | some cand =>
        have hmem := mem_of_find?_eq_some hfi
        have hca : eventBytes cand ≤ d.pendingBytes :=
          (eventBytes_le_queueBytes hmem).trans_eq hby.symm
        have hlen := length_eraseP_of_mem hmem (List.find?_some hfi)
        have hre : d.pendingBytes - eventBytes cand =
            queueBytes (d.pending.eraseP (replaceable event)) :=
          ((Drops.refl event d).drop hfi).bytes hby
        rw [dropLoop_succ hexc hfi]
        unfold dropLoopChecked
        rw [exceedsLimitsChecked_eq hle, hexc, hfi]
        simp only [checkedSub_of_le hca]
        exact ih (by simp only; omega) hre (by simp only; omega)

theorem recordDropsChecked_eq (hby : d.pendingBytes = queueBytes d.pending) :
    recordDropsChecked marker d = some (recordDrops marker d) := by
  unfold recordDropsChecked recordDrops
  cases d.dropped.foldl (fun m e => some (lossMarker e m)) marker with
  | none => rfl
  | some updated =>
    split_ifs
    · rfl
    · have hma : (d.pending.find? isLossMarker).elim 0 eventBytes ≤ d.pendingBytes := by
        cases hfi : d.pending.find? isLossMarker with
        | none => exact Nat.zero_le _
        | some old =>
          rw [hby]
          exact eventBytes_le_queueBytes (mem_of_find?_eq_some hfi)
      rw [checkedSub_of_le hma]
      rfl

/-- On a queue in order `enqueue` computes without wrapping, and the last limit check holds. -/
theorem Orderly.enqueueChecked (hs : s.Orderly) (event : PdcmEvent) :
    ∃ e, s.enqueueChecked event = some (e, s.enqueue event) ∧ e ≠ .secondLimit := by
  unfold Subscription.enqueueChecked Subscription.enqueue
  by_cases hcl : s.closing = true ∨ s.closed = true
  · exact ⟨.ignored, by rw [if_pos hcl, if_pos hcl], by simp⟩
  · rw [if_neg hcl, if_neg hcl]
    by_cases hla : s.limits.maxBytes < eventBytes event
    · exact ⟨.tooLarge, by rw [if_pos hla, if_pos hla], by simp⟩
    · rw [if_neg hla, if_neg hla]
      have hch : dropLoopChecked s.limits event (s.pending.find? isLossMarker)
          s.pending.length ⟨s.pending, s.pendingBytes, []⟩ = some (s.dropped event) :=
        dropLoopChecked_eq le_rfl hs.bytes hs.bytes_le
      dsimp only
      rw [hch, bind_some]
      cases hlo : s.dropped event with
      | none =>
        unfold dropped dropping at hlo
        exact ⟨.noCandidate, by rw [hlo], by simp⟩
      | some d =>
        obtain ⟨hdr, hfir, hev, hro⟩ := drops_of_dropped hs hlo
        have hby := hdr.bytes hs.bytes
        obtain ⟨hle, hqu, hrec⟩ := recordDrops_size hs hlo
        have hfi : ¬(s.limits.maxEvents ≤
              (recordDrops (s.pending.find? isLossMarker) d).1.length ∨
            s.limits.maxBytes - eventBytes event <
              (recordDrops (s.pending.find? isLossMarker) d).2) := by
          rw [hfir, not_or]
          constructor
          · omega
          · omega
        unfold dropped dropping at hlo
        refine ⟨.appended, ?_, by simp⟩
        rw [hlo]
        dsimp only
        rw [recordDropsChecked_eq hby, bind_some, checkedSub_of_le (not_lt.mp hla),
          map_some, if_neg hfi, if_neg hfi]

/-! ### Queues of a subscription manager -/

/-- In order, and empty once the subscription is closed or closing. -/
structure Settled (s : Subscription) : Prop where
  orderly : s.Orderly
  closed_empty : s.isOpen = false → s.pending = []

theorem Settled.fresh (filter : SubscriptionFilter) (limits : SubscriptionLimits) :
    Settled { filter := filter, limits := limits } :=
  ⟨by constructor <;> simp, fun _ => rfl⟩

theorem Settled.enqueue (h : s.Settled) (hev : isLossMarker event = false) :
    (s.enqueue event).Settled := by
  refine ⟨h.orderly.enqueue hev, ?_⟩
  cases hop : s.isOpen with
  | false =>
    rw [enqueue_of_closed hop]
    exact h.closed_empty
  | true =>
    rcases enqueue_cases h.orderly hop event with
      ⟨-, hre⟩ | ⟨-, hre⟩ | ⟨d, -, hre⟩
    · rw [hre]
      exact fun _ => rfl
    · rw [hre]
      exact fun _ => rfl
    · rw [hre]
      intro hcl
      exact absurd (hop.symm.trans hcl) (by simp)

theorem Settled.taken (h : s.Settled) {rest : List PdcmEvent} (hpe : s.pending = event :: rest) :
    Settled (s.taken event rest) := by
  have hop : s.isOpen = true := by
    by_contra hcl
    have hem := h.closed_empty (eq_false_of_ne_true hcl)
    rw [hpe] at hem
    cases hem
  have hta := h.orderly.takeNext
  simp only [takeNext, hop, hpe] at hta
  exact ⟨hta, fun hcl => absurd (hop.symm.trans hcl) (by simp)⟩

theorem Settled.finished (h : s.Settled) :
    Settled { s with activeDeliveries := s.activeDeliveries - 1 } :=
  ⟨h.orderly.finishDelivery, h.closed_empty⟩

theorem Settled.marked (s : Subscription) :
    Settled { s with closing := true, pending := [], pendingBytes := 0 } :=
  ⟨by constructor <;> simp, fun _ => rfl⟩

theorem Settled.closeFinished (h : s.Settled) :
    Settled (if s.closing = true ∧ s.activeDeliveries = 0 then
      { s with closed := true } else s) := by
  split_ifs with hcl
  · have hem : s.pending = [] := h.closed_empty (by simp [isOpen, hcl.1])
    exact ⟨⟨h.orderly.bytes, h.orderly.events_le, h.orderly.bytes_le, h.orderly.one_marker,
      h.orderly.payload⟩, fun _ => hem⟩
  · exact h

end Subscription

namespace SubscriptionManager

variable {id : ℕ} {f : Subscription → Subscription}

/-- All queues are settled, and no loss marker is on its way to them. -/
structure Settled (m : SubscriptionManager) : Prop where
  created : ∀ id s, m.subscriptions.find? id = some s → id < m.nextSubscriptionId
  queues : ∀ id s, m.subscriptions.find? id = some s → s.Settled
  stored : ∀ e ∈ m.store.events, isLossMarker e = false
  snapshot : ∀ snapshot, m.dispatch = some (.snapshot snapshot) →
    ∀ e ∈ snapshot.events, isLossMarker e = false
  work : ∀ work, m.dispatch = some (.enqueueing work) → ∀ p ∈ work, isLossMarker p.2 = false

variable {m : SubscriptionManager} (limits : EventStoreLimits) (maxSubscriptions : ℕ)

section

variable (h : m.Settled)

include h

theorem Settled.modify (hf : ∀ s, m.subscriptions.find? id = some s → (f s).Settled) :
    Settled { m with subscriptions := m.subscriptions.modify id f } := by
  refine { h with created := ?_, queues := ?_ }
  · intro other s hs
    obtain ⟨old, hold, -⟩ := exists_of_find?_modify hs
    exact h.created other old hold
  · intro other s hs
    obtain ⟨old, hold, ⟨rfl, rfl⟩ | ⟨-, rfl⟩⟩ := exists_of_find?_modify hs
    · exact hf old hold
    · exact h.queues other s hold

theorem Settled.subscribe (filter : SubscriptionFilter)
    (limits : SubscriptionLimits) : (m.subscribe filter limits).1.Settled := by
  rcases m.subscribe_cases filter limits with hsa | ⟨sorted, hnew⟩
  · rwa [hsa]
  · rw [hnew]
    refine { h with created := ?_, queues := ?_ }
    · intro id s hs
      rw [find?_insert] at hs
      split_ifs at hs with hid
      · exact hid ▸ Nat.lt_succ_self _
      · exact (h.created id s hs).trans (Nat.lt_succ_self _)
    · intro id s hs
      rw [find?_insert] at hs
      split_ifs at hs with hid
      · cases hs
        exact .fresh sorted limits
      · exact h.queues id s hs

theorem Settled.publish {draft : EventDraft}
    (hdr : draft.type ≠ .subscriptionLossMarker) : (m.publish draft).1.Settled := by
  refine { h with stored := ?_ }
  intro e he
  rcases m.store.publish_cases draft with ⟨-, hev, -⟩ | ⟨new, -, -, hnew, hsu, -⟩
  · exact h.stored e (hev ▸ he)
  · rcases mem_append.mp (hsu.subset he) with hold | hla
    · exact h.stored e hold
    · rw [mem_singleton.mp hla]
      have hty : new.type = draft.type := congrArg EventDraft.type hnew
      simp [isLossMarker, hty, hdr]

theorem Settled.dispatchSnapshot : m.dispatchSnapshot.Settled := by
  obtain hsa | ⟨-, hre⟩ := m.dispatchSnapshot_cases
  · rwa [hsa]
  · rw [hre]
    refine { h with snapshot := ?_, work := ?_ }
    · intro snapshot hsn e he
      cases hsn
      exact h.stored e ((dropWhile_sublist _).subset he)
    · intro work hwo
      cases hwo

theorem Settled.dispatchRegister : m.dispatchRegister.Settled := by
  obtain hsa | ⟨snapshot, hdi, hreg⟩ := m.dispatchRegister_cases
  · rwa [hsa]
  · rw [hreg]
    refine { h with snapshot := ?_, work := ?_ }
    · intro other hot
      cases hot
    · intro work hwo p hp
      cases hwo
      obtain ⟨event, hev, hp⟩ := mem_flatMap.mp hp
      obtain ⟨id, -, rfl⟩ := mem_map.mp hp
      exact h.snapshot snapshot hdi event hev

theorem Settled.dispatchEnqueue : m.dispatchEnqueue.Settled := by
  obtain hsa | ⟨-, hdo⟩ | ⟨id, event, rest, hdi, hof⟩ := m.dispatchEnqueue_cases
  · rwa [hsa]
  · rw [hdo]
    refine { h with snapshot := ?_, work := ?_ }
    · intro snapshot hsn
      cases hsn
    · intro work hwo
      cases hwo
  · have hev := h.work _ hdi (id, event) mem_cons_self
    have hmo : Settled { m with subscriptions := m.subscriptions.modify id (·.offer event) } := by
      refine h.modify fun s hs => ?_
      unfold Subscription.offer
      split_ifs
      · exact (h.queues id s hs).enqueue hev
      · exact h.queues id s hs
    rw [hof]
    refine { hmo with snapshot := ?_, work := ?_ }
    · intro snapshot hsn
      cases hsn
    · intro work hwo p hp
      cases hwo
      exact h.work _ hdi p (mem_cons_of_mem _ hp)

theorem Settled.deliverTake (id : ℕ) : (m.deliverTake id).1.Settled := by
  rcases m.deliverTake_cases id with hsa | ⟨s, event, rest, hs, hpe, hta, -⟩
  · rwa [hsa]
  · rw [hta]
    refine h.modify fun found hfo => ?_
    obtain rfl : s = found := some.inj (hs.symm.trans hfo)
    exact (h.queues id s hs).taken hpe

theorem Settled.apply (op : SubscriptionOp) : (m.apply op).Settled := by
  cases op with
  | subscribe filter limits => exact h.subscribe filter limits
  | publish draft => exact h.publish draft.2
  | dispatchSnapshot => exact h.dispatchSnapshot
  | dispatchRegister => exact h.dispatchRegister
  | dispatchEnqueue => exact h.dispatchEnqueue
  | deliverTake id => exact h.deliverTake id
  | deliverFinish id => exact h.modify fun s hs => (h.queues id s hs).finished
  | closeRemove id => exact { h with }
  | closeMark id =>
    change (m.closeMark id).Settled
    unfold closeMark
    split_ifs
    · exact h
    · exact h.modify fun s _ => .marked s
  | closeFinish id => exact h.modify fun s hs => (h.queues id s hs).closeFinished
  | startDraining => exact { h with }

end

/-! ### Closed for good -/

/-- The subscription exists and is closed or closing. -/
def ClosedAt (id : ℕ) (m : SubscriptionManager) : Prop :=
  ∃ s, m.subscriptions.find? id = some s ∧ s.isOpen = false

theorem ClosedAt.modify (h : ClosedAt id m) (other : ℕ)
    (hf : ∀ s, s.isOpen = false → (f s).isOpen = false) :
    ClosedAt id { m with subscriptions := m.subscriptions.modify other f } := by
  obtain ⟨s, hs, hcl⟩ := h
  by_cases hid : id = other
  · subst hid
    exact ⟨f s, by simp [find?_modify, hs], hf s hcl⟩
  · exact ⟨s, by simp [find?_modify, hid, hs], hcl⟩

theorem ClosedAt.apply (hm : m.Settled) (h : ClosedAt id m) (op : SubscriptionOp) :
    ClosedAt id (m.apply op) := by
  cases op with
  | subscribe filter limits =>
    change ClosedAt id (m.subscribe filter limits).1
    rcases m.subscribe_cases filter limits with hsa | ⟨sorted, hnew⟩
    · rwa [hsa]
    · obtain ⟨s, hs, hcl⟩ := h
      rw [hnew]
      refine ⟨s, ?_, hcl⟩
      rw [find?_insert_of_ne _ (hm.created id s hs).ne, hs]
  | publish draft => exact h
  | dispatchSnapshot =>
    change ClosedAt id m.dispatchSnapshot
    obtain hsa | ⟨-, hre⟩ := m.dispatchSnapshot_cases
    · rwa [hsa]
    · rw [hre]
      exact h
  | dispatchRegister =>
    change ClosedAt id m.dispatchRegister
    obtain hsa | ⟨snap, -, hreg⟩ := m.dispatchRegister_cases
    · rwa [hsa]
    · rw [hreg]
      exact h
  | dispatchEnqueue =>
    change ClosedAt id m.dispatchEnqueue
    obtain hsa | ⟨-, hdo⟩ | ⟨other, event, rest, -, hof⟩ := m.dispatchEnqueue_cases
    · rwa [hsa]
    · rw [hdo]
      exact h
    · rw [hof]
      refine h.modify other fun s hcl => ?_
      by_contra hop
      have hbe := (offer_open event s (eq_true_of_ne_false hop)).1
      exact absurd (hbe.symm.trans hcl) (by simp)
  | deliverTake other =>
    change ClosedAt id (m.deliverTake other).1
    rcases m.deliverTake_cases other with hsa | ⟨s, event, rest, -, -, hta, -⟩
    · rwa [hsa]
    · rw [hta]
      exact h.modify other fun s hcl => hcl
  | deliverFinish other => exact h.modify other fun s hcl => hcl
  | closeRemove other => exact h
  | closeMark other =>
    change ClosedAt id (m.closeMark other)
    unfold closeMark
    split_ifs
    · exact h
    · exact h.modify other fun s _ => rfl
  | closeFinish other =>
    refine h.modify other fun s hcl => ?_
    split_ifs
    · simp [Subscription.isOpen]
    · exact hcl
  | startDraining => exact h

/-- Whatever the calls on the manager are and however they interleave, the queue of each
subscription keeps its account and its limits, a queue that is closed stays empty, and the
unsigned arithmetic of `enqueue` is exact. -/
theorem run_queues_exact (ops : List SubscriptionOp) (id : ℕ) (s : Subscription) :
    let m := runFrom apply (initial limits maxSubscriptions).manager ops
    m.subscriptions.find? id = some s →
      s.pendingBytes = queueBytes s.pending ∧
      s.pending.length ≤ s.limits.maxEvents ∧
      s.pendingBytes ≤ s.limits.maxBytes ∧
      (s.pending.filter isLossMarker).length ≤ 1 ∧
      (s.isOpen = false → s.pending = [] ∧ ∀ later, ∃ s',
        (runFrom apply m later).subscriptions.find? id = some s' ∧ s'.isOpen = false ∧
          s'.pending = []) ∧
      ∀ event, ∃ e, s.enqueueChecked event = some (e, s.enqueue event) ∧ e ≠ .secondLimit := by
  intro m hs
  have hm : m.Settled := invariant_run (fun m op (h : m.Settled) => h.apply op)
    (by constructor <;> simp [initial]) ops
  have hqueue := hm.queues id s hs
  refine ⟨hqueue.orderly.bytes, hqueue.orderly.events_le, hqueue.orderly.bytes_le,
    hqueue.orderly.one_marker, fun hclosed => ⟨hqueue.closed_empty hclosed, fun later => ?_⟩,
    hqueue.orderly.enqueueChecked⟩
  obtain ⟨hlater, s', hs', hclosed'⟩ := invariant_run
    (I := fun m : SubscriptionManager => m.Settled ∧ ClosedAt id m)
    (fun m op h => ⟨h.1.apply op, h.2.apply h.1 op⟩) ⟨hm, s, hs, hclosed⟩ later
  exact ⟨s', hs', hclosed', (hlater.queues id s' hs').closed_empty hclosed'⟩

/-- A queue of two events that dropped two events for the newest one and a marker. -/
theorem run_queues_exact_markedLoss :
    ∃ s : Subscription, (runFrom apply (initial {} 1024).manager
        markedLoss).subscriptions.find? 1 = some s ∧
      s.pending.map isLossMarker = [true, false] ∧ s.pendingBytes = queueBytes s.pending ∧
      s.pending.length ≤ s.limits.maxEvents := by
  have hfound : ((runFrom apply (initial {} 1024).manager
      markedLoss).subscriptions.find? 1).map
        (fun s => s.pending.map isLossMarker) = some [true, false] := by
    decide +kernel
  obtain ⟨s, hs, hmarkers⟩ := map_eq_some_iff.mp hfound
  obtain ⟨hbytes, hevents, -⟩ := run_queues_exact {} 1024 markedLoss 1 s hs
  exact ⟨s, hs, hmarkers, hbytes, hevents⟩

/-! ### The registries -/

/-- The ids in `known_subscriptions_`, which gets an entry for every subscription that is
created and loses none. -/
def knownSubscriptions (m : SubscriptionManager) : List ℕ := m.subscriptions.keys

/-- The active subscriptions have room, and the ids of the known ones were given out. -/
structure Registries (max : ℕ) (m : SubscriptionManager) : Prop where
  max_eq : m.maxSubscriptions = max
  active_le : m.registry.length ≤ max
  below : ∀ id ∈ m.knownSubscriptions, id < m.nextSubscriptionId
  known : m.knownSubscriptions.length + 1 = m.nextSubscriptionId

variable {max : ℕ} {m : SubscriptionManager}

theorem Registries.modify (h : m.Registries max) (id : ℕ) (f : Subscription → Subscription) :
    Registries max { m with subscriptions := m.subscriptions.modify id f } := by
  refine { h with below := ?_, known := ?_ }
  · simpa only [knownSubscriptions, keys_modify] using h.below
  · simpa only [knownSubscriptions, keys_modify] using h.known

theorem Registries.subscribe (h : m.Registries max) (filter : SubscriptionFilter)
    (limits : SubscriptionLimits) : (m.subscribe filter limits).1.Registries max := by
  unfold SubscriptionManager.subscribe
  cases filter.validateFilter with
  | error st => exact h
  | ok filter =>
    dsimp only
    split_ifs with hli hdr hfu
    · exact h
    · exact h
    · have hnew : m.nextSubscriptionId ∉ m.subscriptions.keys := fun hmem =>
        (h.below _ hmem).false
      have hke := keys_insert_perm (v := { filter := filter, limits := limits }) hnew
      refine ⟨h.max_eq, ?_, fun id hid => ?_, ?_⟩
      · have hle := h.max_eq
        simp only [length_append, length_singleton]
        omega
      · rcases mem_cons.mp (hke.mem_iff.mp hid) with rfl | hid
        · exact Nat.lt_succ_self _
        · exact (h.below id hid).trans (Nat.lt_succ_self _)
      · exact congrArg (· + 1) (hke.length_eq.trans h.known)
    · exact h

theorem Registries.apply (h : m.Registries max) (op : SubscriptionOp) :
    (m.apply op).Registries max := by
  cases op with
  | subscribe filter limits => exact h.subscribe filter limits
  | publish draft => exact { h with }
  | dispatchSnapshot =>
    change m.dispatchSnapshot.Registries max
    rcases m.dispatchSnapshot_cases with hsa | ⟨-, hsa⟩ <;> rw [hsa]
    · exact h
    · exact { h with }
  | dispatchRegister =>
    change m.dispatchRegister.Registries max
    rcases m.dispatchRegister_cases with hsa | ⟨snap, -, hsa⟩ <;> rw [hsa]
    · exact h
    · exact { h with }
  | dispatchEnqueue =>
    change m.dispatchEnqueue.Registries max
    rcases m.dispatchEnqueue_cases with hsa | ⟨-, hsa⟩ | ⟨id, event, rest, -, hsa⟩ <;> rw [hsa]
    · exact h
    · exact { h with }
    · exact { h.modify id _ with }
  | deliverTake id =>
    change (m.deliverTake id).1.Registries max
    rcases m.deliverTake_cases id with hsa | ⟨s, event, rest, -, -, hsa, -⟩ <;> rw [hsa]
    · exact h
    · exact h.modify id _
  | deliverFinish id => exact h.modify id _
  | closeRemove id => exact { h with active_le := (length_filter_le ..).trans h.active_le }
  | closeMark id =>
    change (m.closeMark id).Registries max
    unfold closeMark
    split_ifs
    · exact h
    · exact h.modify id _
  | closeFinish id => exact h.modify id _
  | startDraining => exact { h with }

/-- Whatever the calls are and however they interleave, the active subscriptions stay within the
limit. The known ones do exactly as long as no more than that were ever created. -/
theorem run_registries (ops : List SubscriptionOp) :
    let m := runFrom apply (initial limits maxSubscriptions).manager ops
    m.registry.length ≤ maxSubscriptions ∧
      (m.knownSubscriptions.length ≤ maxSubscriptions ↔
        m.nextSubscriptionId ≤ maxSubscriptions + 1) := by
  intro m
  have hstart : (initial limits maxSubscriptions).manager.Registries
      maxSubscriptions := ⟨rfl, Nat.zero_le _, nofun, rfl⟩
  have hm : m.Registries maxSubscriptions :=
    invariant_run (fun _ op h => h.apply op) hstart ops
  refine ⟨hm.active_le, ?_⟩
  rw [← hm.known]
  omega

/-- A subscription is closed and another one opened, with room for one. Both stay known. -/
theorem known_after_close :
    let opened : SubscriptionOp := .subscribe { eventTypes := [.catalogChanged] } {}
    let m := runFrom apply (initial {} 1).manager
      [opened, .closeRemove 1, .closeMark 1, .closeFinish 1, opened]
    m.registry = [2] ∧ m.knownSubscriptions = [1, 2] := by
  decide +kernel

end SubscriptionManager
end Pdcm
