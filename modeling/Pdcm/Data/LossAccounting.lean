import Mathlib.Data.List.Forall2
import Pdcm.Data.SubscriptionManager
import Pdcm.Data.SubscriptionQueue

/-!
# Loss accounting of one subscription

A run of one subscription queue: events are enqueued, `deliverNext` takes them, the
callback ends. Beside the queue we keep what was offered to it and what was taken. The
account is about the list `taken ++ pending`, which a delivery does not change: its loss
markers stand for disjoint groups of dropped events, and the groups together with the
events of the list are exactly the events offered. The list is in sequence order apart
from its markers. A new marker goes to the end of the queue with the sequence number of
the first event it stands for, so a marker can be delivered after newer events.
-/

namespace Pdcm

open Library List Subscription

namespace Subscription

variable (s : Subscription)

/-- The first critical section of `deliverNext`: the event handed to the callback. -/
def takeNext : Subscription × Option PdcmEvent :=
  if s.isOpen = false then (s, none)
  else
    match s.pending with
    | [] => (s, none)
    | event :: rest => (s.taken event rest, some event)

/-- The second one, after the callback. -/
def finishDelivery : Subscription :=
  { s with activeDeliveries := s.activeDeliveries - 1 }

theorem takeNext_cases :
    s.takeNext = (s, none) ∨
    ∃ event rest, s.isOpen = true ∧ s.pending = event :: rest ∧
      s.takeNext = (s.taken event rest, some event) := by
  unfold takeNext
  split_ifs with hop
  · exact .inl rfl
  · cases hpe : s.pending with
    | nil => exact .inl rfl
    | cons event rest =>
      exact .inr ⟨event, rest, by simpa using hop, rfl, rfl⟩

theorem Orderly.takeNext {s : Subscription} (hs : s.Orderly) : s.takeNext.1.Orderly := by
  rcases s.takeNext_cases with hsa | ⟨event, rest, -, hpe, hta⟩
  · rwa [hsa]
  · have hby := hs.bytes
    have hev := hs.events_le
    have hone := hs.one_marker
    have hle := hs.bytes_le
    rw [hpe] at hby hev hone
    rw [queueBytes_cons] at hby
    rw [hta]
    refine ⟨?_, ?_, ?_, ?_, ?_⟩
    · simp only
      omega
    · simp only [length_cons] at hev ⊢
      omega
    · simp only
      omega
    · exact le_trans (List.Sublist.length_le ((sublist_cons_self event rest).filter _)) hone
    · intro m hm
      refine hs.payload m ?_
      rw [hpe]
      exact mem_cons_of_mem event hm

theorem Orderly.finishDelivery {s : Subscription} (hs : s.Orderly) : s.finishDelivery.Orderly :=
  ⟨hs.bytes, hs.events_le, hs.bytes_le, hs.one_marker, hs.payload⟩

end Subscription

theorem SubscriptionManager.deliverTake_eq_takeNext {m : SubscriptionManager} {id : ℕ}
    {s : Subscription} (h : m.subscriptions.find? id = some s) :
    (m.deliverTake id).2 = s.takeNext.2 ∧
      (m.deliverTake id).1.subscriptions.find? id = some s.takeNext.1 := by
  unfold deliverTake takeNext
  simp only [h]
  split_ifs
  · exact ⟨rfl, h⟩
  · cases s.pending with
    | nil => exact ⟨rfl, h⟩
    | cons event rest => exact ⟨rfl, by simp [OrderedMap.find?_modify, h]⟩

/-! ### Runs of one queue -/

/-- The steps on one subscription. Loss markers are not published. -/
inductive QueueOp where
  | enqueue (event : { e : PdcmEvent // e.type ≠ .subscriptionLossMarker })
  | takeNext
  | finishDelivery

/-- A queue with what was offered to it and what deliveries took. -/
structure QueueTrace where
  queue : Subscription
  offered : List PdcmEvent := []
  taken : List PdcmEvent := []

namespace QueueTrace

variable {t : QueueTrace} {group : List PdcmEvent} {ops : List QueueOp}
  (filter : SubscriptionFilter)

def step (t : QueueTrace) : QueueOp → QueueTrace
  | .enqueue event =>
    { t with queue := t.queue.enqueue event.1, offered := t.offered ++ [event.1] }
  | .takeNext =>
    { t with queue := t.queue.takeNext.1, taken := t.taken ++ t.queue.takeNext.2.toList }
  | .finishDelivery => { t with queue := t.queue.finishDelivery }

def fresh (filter : SubscriptionFilter) (limits : SubscriptionLimits) : QueueTrace where
  queue := { filter := filter, limits := limits }

def run (filter : SubscriptionFilter) (limits : SubscriptionLimits) (ops : List QueueOp) :
    QueueTrace :=
  runFrom step (fresh filter limits) ops

/-- Events come in the order of their sequence numbers. -/
def InOrder (t : QueueTrace) : QueueOp → Prop
  | .enqueue event => ∀ e ∈ t.offered, e.sequence < event.1.sequence
  | _ => True

instance (t : QueueTrace) (op : QueueOp) : Decidable (t.InOrder op) :=
  match op with
  | .enqueue event => inferInstanceAs (Decidable (∀ e ∈ t.offered, e.sequence < event.1.sequence))
  | .takeNext | .finishDelivery => inferInstanceAs (Decidable True)

/-- What was taken and what still waits, in the order of delivery. -/
def line (t : QueueTrace) : List PdcmEvent := t.taken ++ t.queue.pending

/-- Everything a step can do to the line. -/
inductive Effect (t t' : QueueTrace) : QueueOp → Prop
  | quiet (op : QueueOp) (hqueue : t'.queue.isOpen = t.queue.isOpen) (hline : t'.line = t.line)
      (hoffered : t'.offered = t.offered) : Effect t t' op
  | ignored (event) (hclosed : t.queue.isOpen = false) (hqueue : t'.queue = t.queue)
      (htaken : t'.taken = t.taken) (hoffered : t'.offered = t.offered ++ [event.1]) :
      Effect t t' (.enqueue event)
  | shut (event) (hqueue : t'.queue = t.queue.shut) (htaken : t'.taken = t.taken)
      (hoffered : t'.offered = t.offered ++ [event.1]) : Effect t t' (.enqueue event)
  | appended (event) (d : Subscription.Dropping) (hopen : t.queue.isOpen = true)
      (hevent : isLossMarker event.1 = false) (hdropped : t.queue.dropped event.1 = some d)
      (hline : t'.line = t.taken ++
        (recordDrops (d.pending.find? isLossMarker) d).1 ++ [event.1])
      (hoffered : t'.offered = t.offered ++ [event.1]) : Effect t t' (.enqueue event)

theorem step_orderly (ht : t.queue.Orderly) (op : QueueOp) : (t.step op).queue.Orderly := by
  cases op with
  | enqueue event => exact ht.enqueue (by simpa [isLossMarker] using event.2)
  | takeNext => exact ht.takeNext
  | finishDelivery => exact ht.finishDelivery

theorem step_effect (ht : t.queue.Orderly) (op : QueueOp) : Effect t (t.step op) op := by
  cases op with
  | enqueue event =>
    cases hop : t.queue.isOpen with
    | false =>
      refine .ignored event hop ?_ rfl rfl
      simp [step, enqueue_of_closed hop]
    | true =>
      have hev : isLossMarker event.1 = false := by simpa [isLossMarker] using event.2
      rcases enqueue_cases ht hop event.1 with
        ⟨-, hre⟩ | ⟨-, hre⟩ | ⟨d, hd, hre⟩
      · exact .shut event hre rfl rfl
      · exact .shut event hre rfl rfl
      · refine .appended event d hop hev hd ?_ rfl
        simp [line, step, hre]
  | takeNext =>
    rcases t.queue.takeNext_cases with hsa | ⟨event, rest, hop, hpe, hta⟩
    · refine .quiet _ ?_ ?_ rfl
      · simp [step, hsa]
      · simp [step, hsa]
    · refine .quiet _ ?_ ?_ rfl
      · simp [step, hta, isOpen]
      · simp [line, step, hta, hpe]
  | finishDelivery => exact .quiet _ rfl rfl rfl

/-! ### Events for small queues -/

/-- A provider state change. -/
def stateChange (sequence : ℕ) : PdcmEvent :=
  { type := .providerStateChanged, catalogGeneration := 1, sequence := sequence }

/-- An update of one metric of one device. -/
def metricUpdate (metric : MetricId) (sequence : ℕ) : PdcmEvent :=
  { type := .metricUpdate, entity := some { kind := .device, id := 1, generation := 1 },
    metric := some metric, catalogGeneration := 1, sequence := sequence }

def enqueueStateChange (sequence : ℕ) : QueueOp :=
  .enqueue ⟨stateChange sequence, EventType.noConfusion⟩

def enqueueMetricUpdate (metric : MetricId) (sequence : ℕ) : QueueOp :=
  .enqueue ⟨metricUpdate metric sequence, EventType.noConfusion⟩

/-! ### The account -/

/-- The marker counts exactly the events of the group, and its range has them all. -/
def Counts (group : List PdcmEvent) (marker : PdcmEvent) : Prop :=
  ∃ p, marker.payload = .subscriptionLoss p ∧ p.droppedCount = group.length ∧
    ∀ e ∈ group, p.firstDroppedSequence ≤ e.sequence ∧ e.sequence ≤ p.lastDroppedSequence

/-- The number of events a marker stands for. -/
def droppedCount (marker : PdcmEvent) : ℕ :=
  match marker.payload with
  | .subscriptionLoss p => p.droppedCount
  | _ => 0

theorem Counts.droppedCount_eq {marker : PdcmEvent} (h : Counts group marker) :
    droppedCount marker = group.length := by
  obtain ⟨p, hp, hco, -⟩ := h
  simp [droppedCount, hp, hco]

theorem counts_lossMarker {old : Option PdcmEvent} (hso : ∀ m ∈ old, Counts group m)
    (hno : old = none → group = []) (e : PdcmEvent) :
    Counts (group ++ [e]) (lossMarker e old) := by
  cases old with
  | none => exact ⟨_, rfl, by simp [lossPayload, hno], by simp [lossPayload, hno]⟩
  | some m =>
    obtain ⟨p, hp, hco, hra⟩ := hso m rfl
    refine ⟨_, rfl, ?_, ?_⟩
    · simp [hp, lossPayload, hco]
    · intro x hx
      simp only [Option.map_some, hp, lossPayload]
      rcases mem_append.mp hx with hx | hx
      · have := hra x hx
        omega
      · rw [mem_singleton.mp hx]
        omega

theorem counts_updatedMarker {old : Option PdcmEvent} (hso : ∀ m ∈ old, Counts group m)
    (hno : old = none → group = []) (dropped : List PdcmEvent) :
    ∃ groups, List.Forall₂ Counts groups
        (updatedMarker old dropped).toList ∧
      groups.flatten = group ++ dropped := by
  induction dropped generalizing old group with
  | nil =>
    cases old with
    | none => exact ⟨[], .nil, by simp [hno]⟩
    | some m => exact ⟨[group], .cons (hso m rfl) .nil, by simp⟩
  | cons e rest ih =>
    have hma : ∀ m ∈ some (lossMarker e old), Counts (group ++ [e]) m := by
      simpa using counts_lossMarker hso hno e
    obtain ⟨groups, hco, hfl⟩ := ih hma (by simp)
    exact ⟨groups, hco, by simpa using hfl⟩

/-- A list with at most one marker, read as the marker that the drop loop finds. -/
theorem counts_head? {groups : List (List PdcmEvent)} {markers : List PdcmEvent}
    (h : List.Forall₂ Counts groups markers) (hone : markers.length ≤ 1) :
    (∀ m ∈ markers.head?, Counts groups.flatten m) ∧
      (markers.head? = none → groups.flatten = []) := by
  cases h with
  | nil => simp
  | @cons group m _ rest hgr hre =>
    obtain rfl : rest = [] := by simpa using hone
    cases hre
    simpa using hgr

theorem sum_droppedCount {groups : List (List PdcmEvent)} {markers : List PdcmEvent}
    (h : List.Forall₂ Counts groups markers) :
    (markers.map droppedCount).sum = groups.flatten.length := by
  induction h with
  | nil => rfl
  | cons hgr _ ih => simp [hgr.droppedCount_eq, ih]

/-- The markers of the line stand for disjoint groups of dropped events; those and the
events of the line are the events offered, and the line has its events in their order. -/
structure Account (line offered : List PdcmEvent) : Prop where
  groups : ∃ groups, List.Forall₂ Counts groups (line.filter isLossMarker) ∧
    (groups.flatten ++ line.filter fun e => !isLossMarker e).Perm offered
  kept : (line.filter fun e => !isLossMarker e).Sublist offered

theorem Account.nil : Account [] [] := ⟨⟨[], .nil, .refl _⟩, .refl _⟩

/-- An event that makes room for itself: what it drops goes to the marker. -/
theorem Account.append {s : Subscription} (hs : s.Orderly) {taken offered : List PdcmEvent}
    (h : Account (taken ++ s.pending) offered) {event : PdcmEvent}
    (hev : isLossMarker event = false) {d : Subscription.Dropping}
    (hd : s.dropped event = some d) :
    Account (taken ++ (recordDrops (d.pending.find? isLossMarker) d).1 ++ [event])
      (offered ++ [event]) := by
  obtain ⟨hdr, -, -⟩ := drops_of_dropped hs hd
  obtain ⟨groups, hco, hper⟩ := h.groups
  have hone : (d.pending.filter isLossMarker).length ≤ 1 := by
    rw [hdr.markers]
    exact hs.one_marker
  have hma := filter_isLossMarker_recordDrops hone
  have hot := filter_not_marker_recordDrops d
  -- the groups of the markers that were taken, and that of the marker in the queue
  rw [filter_append] at hco
  have hta := forall₂_take_append _ _ _ hco
  have hpe := forall₂_drop_append _ _ _ hco
  rw [show s.pending.filter isLossMarker = d.pending.filter isLossMarker from
    hdr.markers.symm] at hpe
  obtain ⟨hso, hnon⟩ := counts_head? hpe hone
  rw [head?_filter] at hso hnon
  obtain ⟨updated, hup, hfl⟩ := counts_updatedMarker hso hnon d.dropped
  -- dropped events are not markers
  have hno : d.dropped.filter (fun e => !isLossMarker e) = d.dropped := by
    rw [filter_eq_self]
    intro e he
    simp [not_isLossMarker_of_replaceable (hdr.replaceable_of_mem rfl he)]
  have hse : [event].filter (fun e => !isLossMarker e) = [event] := by simp [hev]
  have hmo : (d.dropped ++ d.pending.filter fun e => !isLossMarker e).Perm
      (s.pending.filter fun e => !isLossMarker e) := by
    rw [← hno, ← filter_append]
    exact hdr.perm.filter _
  constructor
  · refine ⟨groups.take (taken.filter isLossMarker).length ++ updated, ?_, ?_⟩
    · rw [filter_append, filter_append, hma,
        filter_cons_of_neg (by simp [hev]), filter_nil, append_nil]
      exact rel_append hta hup
    · rw [perm_iff_count]
      intro e
      have hall := hper.count_eq e
      have hsp := congrArg (fun gs => (flatten gs).count e)
        (take_append_drop (taken.filter isLossMarker).length groups)
      have hmov := hmo.count_eq e
      simp only [filter_append, flatten_append, count_append, hot, hfl,
        hse] at hall hsp hmov ⊢
      omega
  · simp only [filter_append, hot, hse]
    refine .append ?_ (.refl _)
    refine .trans ?_ h.kept
    rw [filter_append]
    exact (List.Sublist.refl _).append (hdr.kept.filter _)

/-- What holds along every run of a queue. -/
structure Ledger (limits : SubscriptionLimits) (t : QueueTrace) : Prop where
  orderly : t.queue.Orderly
  limits : t.queue.limits = limits
  account : t.queue.isOpen = true → Account t.line t.offered

theorem fresh_ledger (limits : SubscriptionLimits) :
    Ledger limits (fresh filter limits) where
  orderly := by constructor <;> simp [fresh]
  limits := rfl
  account _ := .nil

theorem step_limits (t : QueueTrace) (op : QueueOp) :
    (t.step op).queue.limits = t.queue.limits := by
  cases op with
  | enqueue event => exact (enqueue_frame _ _).1
  | takeNext =>
    rcases t.queue.takeNext_cases with hsa | ⟨event, rest, -, -, hta⟩
    · simp [step, hsa]
    · simp [step, hta]
  | finishDelivery => rfl

theorem Ledger.step {limits : SubscriptionLimits} (h : Ledger limits t) (op : QueueOp) :
    Ledger limits (t.step op) where
  orderly := step_orderly h.orderly op
  limits := (step_limits _ op).trans h.limits
  account hopen := by
    have hef := step_effect h.orderly op
    cases hef with
    | quiet _ hqu hli hof =>
      rw [hqu] at hopen
      rw [hli, hof]
      exact h.account hopen
    | ignored event hcl hqu =>
      rw [hqu, hcl] at hopen
      simp at hopen
    | shut event hqu =>
      simp [hqu, isOpen, shut] at hopen
    | appended event d hbe hev hdr hli hof =>
      rw [hli]
      exact .append h.orderly (h.account hbe) hev hdr

theorem run_ledger (limits : SubscriptionLimits)
    (ops : List QueueOp) : Ledger limits (run filter limits ops) :=
  invariant_run (fun _ op h => h.step op) (fresh_ledger filter limits) ops

/-- Nothing is lost unannounced: events taken, events pending and the counts of the markers
make up what was offered; events are taken in their order; every dropped event lies in the
range of the one marker that counted it. -/
structure LossAccounted (t : QueueTrace) : Prop where
  conserved : t.offered.length = (t.taken.filter fun e => !isLossMarker e).length +
    (t.queue.pending.filter fun e => !isLossMarker e).length +
    (((t.taken ++ t.queue.pending).filter isLossMarker).map droppedCount).sum
  increasing : (t.taken.filter fun e => !isLossMarker e).Pairwise fun e f => e.sequence < f.sequence
  counted : ∃ groups,
    List.Forall₂ Counts groups ((t.taken ++ t.queue.pending).filter isLossMarker) ∧
    (groups.flatten ++ (t.taken.filter fun e => !isLossMarker e) ++
      t.queue.pending.filter fun e => !isLossMarker e).Perm t.offered

theorem run_lossAccounted (filter : SubscriptionFilter) (limits : SubscriptionLimits)
    (ops : List QueueOp) (h : Along step InOrder (fresh filter limits) ops)
    (hopen : (run filter limits ops).queue.isOpen = true) :
    (run filter limits ops).LossAccounted := by
  have haccount := (run_ledger filter limits ops).account hopen
  have hincreasing :
      (run filter limits ops).offered.Pairwise fun e f => e.sequence < f.sequence := by
    refine invariant_along (I := fun t : QueueTrace =>
      t.offered.Pairwise fun e f => e.sequence < f.sequence) ?_ .nil h
    intro t op ht hop
    cases op with
    | enqueue event =>
      refine pairwise_append.mpr ⟨ht, pairwise_singleton _ _, ?_⟩
      intro e he f hf
      rw [mem_singleton.mp hf]
      exact hop e he
    | takeNext => exact ht
    | finishDelivery => exact ht
  obtain ⟨groups, hcounts, hperm⟩ := haccount.groups
  simp only [line, filter_append] at hperm
  rw [← append_assoc] at hperm
  refine ⟨?_, ?_, groups, hcounts, hperm⟩
  · have hlength := hperm.length_eq
    have hsum := sum_droppedCount hcounts
    simp only [length_append] at hlength
    simp only [line] at hsum
    omega
  · refine .sublist ?_ hincreasing
    refine .trans ?_ haccount.kept
    rw [line, filter_append]
    exact sublist_append_left _ _

/-- Five changes for a queue of two events, with two deliveries on the way. -/
def congested : List QueueOp :=
  [enqueueStateChange 1, enqueueStateChange 2, enqueueStateChange 3, .takeNext, .takeNext,
    enqueueStateChange 4, enqueueStateChange 5, enqueueStateChange 6]

theorem run_lossAccounted_congested :
    ((run {} { maxEvents := 2 } congested).line.map fun e => (e.sequence, droppedCount e)) =
        [(1, 2), (3, 0), (4, 2), (6, 0)] ∧
      (run {} { maxEvents := 2 } congested).LossAccounted :=
  ⟨by decide +kernel,
    run_lossAccounted {} { maxEvents := 2 } congested (by decide +kernel) (by decide +kernel)⟩

/-! ### Slow consumers -/

/-- A queue of droppable events stays open for another one exactly if the newcomer is no metric
update, or is one that the updates of its key can make room for. -/
theorem run_enqueue_isOpen (filter : SubscriptionFilter) (limits : SubscriptionLimits)
    (ops : List QueueOp) (event : PdcmEvent) (hevents : 2 ≤ limits.maxEvents)
    (hbytes : eventBytes event + eventBytes (lossMarker event none) ≤ limits.maxBytes)
    (hopen : (run filter limits ops).queue.isOpen = true)
    (hpending : ∀ e ∈ (run filter limits ops).queue.pending,
      isNonDroppable e.type = true → isLossMarker e = true) :
    ((run filter limits ops).queue.enqueue event).isOpen = true ↔
      (event.type = .metricUpdate → (run filter limits ops).queue.HasRoom event) := by
  obtain ⟨horderly, hlimits, -⟩ := run_ledger filter limits ops
  rw [enqueue_isOpen_iff horderly hopen]
  refine ⟨fun hroom _ => hroom, fun hroom => ?_⟩
  by_cases htype : event.type = .metricUpdate
  · exact hroom htype
  · refine hasRoom_of_not_metricUpdate horderly htype ?_ ?_ hpending
    · rwa [hlimits]
    · rwa [hlimits]

/-- A full queue of state changes takes another one. -/
theorem run_enqueue_isOpen_stateChange :
    (run {} { maxEvents := 2 } [enqueueStateChange 1, enqueueStateChange 2]).queue.pending.length =
        2 ∧
      ((run {} { maxEvents := 2 } [enqueueStateChange 1, enqueueStateChange 2]).queue.enqueue
        (stateChange 3)).isOpen = true :=
  ⟨by decide +kernel,
    (run_enqueue_isOpen {} { maxEvents := 2 } [enqueueStateChange 1, enqueueStateChange 2]
      (stateChange 3) (by decide +kernel) (by decide +kernel) (by decide +kernel)
      (by decide +kernel)).mpr (by decide +kernel)⟩

/-- Two updates of different metrics fill the queue. A third metric finds no update of its
own key to replace and closes the subscription. -/
theorem metricUpdate_closes_full_queue :
    2 ≤ ({ maxEvents := 2 } : SubscriptionLimits).maxEvents ∧
      eventBytes (metricUpdate 3 3) + eventBytes (lossMarker (metricUpdate 3 3) none) ≤
        ({ maxEvents := 2 } : SubscriptionLimits).maxBytes ∧
      isNonDroppable (metricUpdate 3 3).type = false ∧
      (run {} { maxEvents := 2 } [enqueueMetricUpdate 1 1, enqueueMetricUpdate 2 2]).queue.isOpen =
        true ∧
      (∀ e ∈ (run {} { maxEvents := 2 }
        [enqueueMetricUpdate 1 1, enqueueMetricUpdate 2 2]).queue.pending,
        isNonDroppable e.type = false) ∧
      ((run {} { maxEvents := 2 } [enqueueMetricUpdate 1 1, enqueueMetricUpdate 2 2]).queue.enqueue
        (metricUpdate 3 3)).isOpen = false := by
  decide +kernel

/-! ### Delivery order -/

/-- An event that makes a queue without a marker start one replaces the whole end of the
queue: what it may replace stands behind everything else, and even the last of it leaves no
room for the event and the marker. -/
def StartsInOrder (s : Subscription) (event : PdcmEvent) : Prop :=
  let others := s.pending.filter fun e => !replaceable event e
  let replaced := s.pending.filter (replaceable event)
  s.pending.find? isLossMarker = none → ¬s.FitsBeside event s.pending false →
    s.FitsBeside event others true →
    s.pending = others ++ replaced ∧
      ∀ last ∈ replaced.tail.getLast?, ¬s.FitsBeside event (others ++ [last]) true

instance (s : Subscription) (event : PdcmEvent) : Decidable (StartsInOrder s event) :=
  inferInstanceAs (Decidable (_ → _ → _ → _))

/-- A queue of two events has room for the event and a marker only when it is empty. -/
theorem startsInOrder_of_maxEvents_le_two {s : Subscription} (h : s.limits.maxEvents ≤ 2)
    (event : PdcmEvent) : StartsInOrder s event := by
  intro _ _ hfit
  have hno : (s.pending.filter fun e => !replaceable event e) = [] := by
    have := hfit.1
    simp only [if_true] at this
    exact length_eq_zero_iff.mp (by omega)
  rw [hno]
  refine ⟨?_, fun last _ hla => ?_⟩
  · rw [nil_append, eq_comm, filter_eq_self]
    simpa using filter_eq_nil_iff.mp hno
  · have := hla.1
    simp only [nil_append, length_singleton, if_true] at this
    omega

/-- What the queue keeps when it starts a marker is older than the first event it drops. -/
theorem StartsInOrder.kept_lt {s : Subscription} {event first : PdcmEvent}
    {d : Subscription.Dropping} (h : StartsInOrder s event) (hs : s.Orderly)
    (hin : (s.pending.map fun e => e.sequence).Pairwise (· < ·))
    (hno : s.pending.find? isLossMarker = none) (hd : s.dropped event = some d)
    (hfi : first ∈ d.dropped.head?) : ∀ e ∈ d.pending, e.sequence < first.sequence := by
  obtain ⟨hdr, hma, hfit⟩ := drops_of_dropped hs hd
  obtain ⟨rest, hgo⟩ : ∃ rest, d.dropped = first :: rest := head?_eq_some_iff.mp hfi
  rw [← hma, hno] at hfit
  simp only [hgo, Option.isNone_none, isEmpty_cons, Bool.not_false, Bool.and_true] at hfit
  have hmo : first :: rest ++ d.pending.filter (replaceable event) =
      s.pending.filter (replaceable event) := hgo ▸ hdr.moved
  have hot : d.pending.filter (fun e => !replaceable event e) =
      s.pending.filter fun e => !replaceable event e := hdr.others
  have hful : ¬s.FitsBeside event s.pending false := by
    intro hfits
    obtain rfl := Option.some.inj ((dropped_of_fits hs hfits).symm.trans hd)
    cases hgo
  obtain ⟨hsp, hla⟩ := h hno hful
    (hfit.mono (hot ▸ filter_sublist.subperm) fun h => h)
  -- the loop cannot have stopped before the last event that it may drop
  have hall : d.pending.filter (replaceable event) = [] := by
    by_contra hne
    obtain ⟨last, hlast⟩ := getLast?_isSome.mpr hne |> Option.isSome_iff_exists.mp
    refine hla last ?_ (hfit.mono ?_ fun h => h)
    · rw [← hmo]
      simp [getLast?_append, hlast]
    · rw [← hot]
      have hone : [last].Sublist (d.pending.filter (replaceable event)) :=
        singleton_sublist.mpr (mem_of_getLast? hlast)
      exact ((hone.append_left _).subperm).trans
        ((perm_append_comm.trans (filter_append_perm _ _)).subperm)
  have hke : d.pending = s.pending.filter fun e => !replaceable event e := by
    rw [← hot, eq_comm, filter_eq_self]
    simpa [filter_eq_nil_iff] using hall
  intro e he
  rw [hsp, map_append] at hin
  refine (pairwise_append.mp hin).2.2 _ (mem_map_of_mem (hke ▸ he)) _ (mem_map_of_mem ?_)
  rw [← hmo]
  simp

def MarksInOrder (t : QueueTrace) : QueueOp → Prop
  | .enqueue event => StartsInOrder t.queue event.1
  | _ => True

instance (t : QueueTrace) (op : QueueOp) : Decidable (t.MarksInOrder op) :=
  match op with
  | .enqueue event => inferInstanceAs (Decidable (StartsInOrder t.queue event.1))
  | .takeNext | .finishDelivery => inferInstanceAs (Decidable True)

/-- The sequence numbers of a queue after its drops are recorded: those of the events it
kept, and that of a new marker at the end. -/
theorem map_sequence_recordDrops (d : Subscription.Dropping) :
    (recordDrops (d.pending.find? isLossMarker) d).1.map (fun e => e.sequence) =
        d.pending.map (fun e => e.sequence) ∨
      ∃ first ∈ d.dropped.head?, d.pending.find? isLossMarker = none ∧
        (recordDrops (d.pending.find? isLossMarker) d).1.map (fun e => e.sequence) =
          d.pending.map (fun e => e.sequence) ++ [first.sequence] := by
  by_cases hdr : d.dropped = []
  · rw [recordDrops_nil _ hdr]
    exact .inl rfl
  · obtain ⟨e, other, hm⟩ :=
      updatedMarker_of_ne_nil (d.pending.find? isLossMarker) hdr
    have hseq := updatedMarker_sequence hm
    rw [recordDrops_some hdr hm]
    cases hfin : d.pending.find? isLossMarker with
    | none =>
      obtain ⟨first, rest, hfir⟩ := exists_cons_of_ne_nil hdr
      right
      refine ⟨first, by simp [hfir], rfl, ?_⟩
      have hfi : first.sequence = (lossMarker e other).sequence := by
        simpa [hfin, hfir] using hseq
      rw [placeMarker_of_find?_none _ hfin]
      simp [hfi]
    | some old =>
      obtain ⟨b, after, hes, hpl, -⟩ :=
        placeMarker_of_find?_some (lossMarker e other) hfin
      have hold : old.sequence = (lossMarker e other).sequence := by
        simpa [hfin] using hseq
      left
      rw [hpl, hes]
      simp [hold]

/-- The line with its markers is in sequence order, and every number in it is that of an
event offered. -/
structure Ascending (t : QueueTrace) : Prop where
  orderly : t.queue.Orderly
  increasing : (t.line.map fun e => e.sequence).Pairwise (· < ·)
  offered : ∀ n ∈ t.line.map (fun e => e.sequence), ∃ e ∈ t.offered, e.sequence = n

theorem Ascending.enqueue {t' : QueueTrace} (h : Ascending t) {event : PdcmEvent}
    {d : Subscription.Dropping} (hor : ∀ e ∈ t.offered, e.sequence < event.sequence)
    (hst : StartsInOrder t.queue event) (hd : t.queue.dropped event = some d)
    (hli : t'.line = t.taken ++
      (recordDrops (d.pending.find? isLossMarker) d).1 ++ [event]) :
    (t'.line.map fun e => e.sequence).Pairwise (· < ·) ∧
      ∀ n ∈ t'.line.map (fun e => e.sequence), ∃ e ∈ t.offered ++ [event], e.sequence = n := by
  obtain ⟨hdr, hma, -⟩ := drops_of_dropped h.orderly hd
  have hke : (t.taken ++ d.pending).Sublist t.line :=
    (List.Sublist.refl t.taken).append hdr.kept
  have hsub := hke.map fun e : PdcmEvent => e.sequence
  -- it is enough to look at the line before the event is appended
  suffices hbe : ∀ ns, ns = (t.taken ++
      (recordDrops (d.pending.find? isLossMarker) d).1).map (fun e => e.sequence) →
      ns.Pairwise (· < ·) ∧ ∀ n ∈ ns, ∃ e ∈ t.offered, e.sequence = n by
    obtain ⟨hpa, hof⟩ := hbe _ rfl
    rw [hli, map_append]
    refine ⟨pairwise_append.mpr ⟨hpa, pairwise_singleton _ _, ?_⟩, ?_⟩
    · intro n hn k hk
      obtain ⟨e, he, rfl⟩ := hof n hn
      rw [mem_singleton.mp hk]
      exact hor e he
    · intro n hn
      rcases mem_append.mp hn with hn | hn
      · obtain ⟨e, he, heq⟩ := hof n hn
        exact ⟨e, mem_append_left _ he, heq⟩
      · exact ⟨event, by simp, (mem_singleton.mp hn).symm⟩
  rintro ns rfl
  rcases map_sequence_recordDrops d with hsa | ⟨first, hfir, hno, hnew⟩
  · rw [map_append, hsa, ← map_append]
    exact ⟨h.increasing.sublist hsub, fun n hn => h.offered n (hsub.subset hn)⟩
  · have hfirs : first ∈ d.dropped := mem_of_mem_head? hfir
    have hfi : first ∈ t.queue.pending := by
      have := hdr.perm.subset (mem_append_left _ hfirs)
      simpa [dropping] using this
    rw [map_append, hnew, ← append_assoc, ← map_append]
    refine ⟨pairwise_append.mpr ⟨h.increasing.sublist hsub,
      pairwise_singleton _ _, ?_⟩, ?_⟩
    · intro n hn k hk
      rw [mem_singleton.mp hk]
      obtain ⟨e, he, rfl⟩ := mem_map.mp hn
      have hin := h.increasing
      rw [line, map_append] at hin
      rcases mem_append.mp he with he | he
      · -- what was taken is older than everything pending
        exact (pairwise_append.mp hin).2.2 _ (mem_map_of_mem he) _
          (mem_map_of_mem hfi)
      · exact hst.kept_lt h.orderly (pairwise_append.mp hin).2.1 (hma.trans hno) hd hfir e he
    · intro n hn
      rcases mem_append.mp hn with hn | hn
      · exact h.offered n (hsub.subset hn)
      · rw [mem_singleton.mp hn]
        refine h.offered _ (mem_map_of_mem ?_)
        exact mem_append_right _ hfi

theorem Ascending.step (h : Ascending t) (op : QueueOp) (hord : t.InOrder op)
    (hma : t.MarksInOrder op) : Ascending (t.step op) := by
  have hor := step_orderly h.orderly op
  have hef := step_effect h.orderly op
  generalize t.step op = t' at hor hef ⊢
  have hmo : ∀ event, ∀ n ∈ t.line.map (fun e => e.sequence),
      ∃ e ∈ t.offered ++ [event], e.sequence = n := by
    intro event n hn
    obtain ⟨e, he, heq⟩ := h.offered n hn
    exact ⟨e, mem_append_left _ he, heq⟩
  cases hef with
  | quiet _ _ hli hof =>
    refine ⟨hor, ?_, ?_⟩
    · rw [hli]
      exact h.increasing
    · rw [hli, hof]
      exact h.offered
  | ignored event _ hqu hta hof =>
    have hli : t'.line = t.line := by rw [line, line, hqu, hta]
    refine ⟨hor, ?_, ?_⟩
    · rw [hli]
      exact h.increasing
    · rw [hli, hof]
      exact hmo event.1
  | shut event hqu hta hof =>
    -- a closed queue is empty
    have hli : t'.line.Sublist t.line := by
      simp [line, hqu, hta, shut]
    have hsub := hli.map fun e : PdcmEvent => e.sequence
    refine ⟨hor, h.increasing.sublist hsub, ?_⟩
    intro n hn
    rw [hof]
    exact hmo event.1 n (hsub.subset hn)
  | appended event d _ _ hdr hli hof =>
    obtain ⟨hin, hall⟩ := h.enqueue hord hma hdr hli
    refine ⟨hor, hin, ?_⟩
    rw [hof]
    exact hall

theorem Ascending.taken_increasing (h : Ascending t) :
    (t.taken.map fun e => e.sequence).Pairwise (· < ·) := by
  refine h.increasing.sublist ?_
  rw [line, map_append]
  exact sublist_append_left _ _

/-- Deliveries are in sequence order, loss markers included, if no marker is started behind
newer events. -/
theorem run_taken_increasing (filter : SubscriptionFilter) (limits : SubscriptionLimits)
    (ops : List QueueOp) (horder : Along step InOrder (fresh filter limits) ops)
    (hmarks : Along step MarksInOrder (fresh filter limits) ops) :
    ((run filter limits ops).taken.map fun e => e.sequence).Pairwise (· < ·) := by
  have hfresh : Ascending (fresh filter limits) :=
    ⟨(fresh_ledger filter limits).orderly, .nil, by simp [fresh, line]⟩
  have hrun := invariant_along (fun _ op h hop => h.step op hop.1 hop.2) hfresh
    (horder.and hmarks)
  exact hrun.taken_increasing

theorem along_marksInOrder {limits : SubscriptionLimits}
    (hli : limits.maxEvents ≤ 2) (h : Along step InOrder (fresh filter limits) ops) :
    Along step MarksInOrder (fresh filter limits) ops := by
  refine law_along (I := fun t => t.queue.limits = limits)
    (fun t op ht _ => (step_limits t op).trans ht) (fun t op ht _ => ?_) rfl h
  cases op with
  | enqueue event => exact startsInOrder_of_maxEvents_le_two (ht ▸ hli) event.1
  | takeNext => trivial
  | finishDelivery => trivial

theorem run_taken_increasing_congested :
    (run {} { maxEvents := 2 } congested).taken.length = 2 ∧
      ((run {} { maxEvents := 2 } congested).taken.map fun e => e.sequence).Pairwise (· < ·) := by
  have horder : Along step InOrder (fresh {} { maxEvents := 2 }) congested := by decide +kernel
  exact ⟨by decide +kernel,
    run_taken_increasing {} { maxEvents := 2 } congested horder
      (along_marksInOrder {} le_rfl horder)⟩

/-- Four changes for a queue of three events: the first two are dropped, and their marker
waits behind the third change. -/
def fourChanges : List QueueOp :=
  [enqueueStateChange 1, enqueueStateChange 2, enqueueStateChange 3, enqueueStateChange 4,
    .takeNext, .takeNext, .takeNext]

theorem marker_delivered_late :
    Along step InOrder (fresh {} { maxEvents := 3 }) fourChanges ∧
      ((run {} { maxEvents := 3 } fourChanges).taken.map fun e => e.sequence) = [3, 1, 4] ∧
      ¬((run {} { maxEvents := 3 } fourChanges).taken.map fun e => e.sequence).Pairwise
        (· < ·) := by
  decide +kernel

end QueueTrace
end Pdcm
