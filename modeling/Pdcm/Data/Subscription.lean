import Pdcm.Data.EventStore

/-!
# One subscription queue

The filter, the limits and the bounded queue of a subscription, with `enqueue` of
`data/subscription_manager.cpp`. When the queue is full an older event of the same
metric, or any droppable event, makes room; what was dropped is recorded in a loss
marker, whose range only grows while it stays in the queue.
-/

namespace Pdcm

open Library List

def EventType.value : EventType → ℕ
  | .catalogChanged => 0
  | .entityChanged => 1
  | .capabilityChanged => 2
  | .metricUpdate => 3
  | .firmwareHeartbeatHealthChanged => 4
  | .providerStateChanged => 5
  | .subscriptionLossMarker => 6
  | .daemonDraining => 7

structure SubscriptionFilter where
  eventTypes : List EventType := []
  entity : Option EntityRef := none
  metrics : List MetricId := []
  healthSubsystem : Option ℕ := none
  minimumSeverity : EventSeverity := .info
  followRediscovery : Bool := false
  deriving DecidableEq, Repr

namespace SubscriptionFilter

variable (filter : SubscriptionFilter)

/-- The filter with its lists sorted, or the reason why it is refused. -/
def validateFilter : Except Status SubscriptionFilter :=
  if filter.eventTypes = [] ∨ ∃ id ∈ filter.healthSubsystem, id ≠ firmwareHeartbeatHealthId then
    .error ⟨.invalidArgument, "subscription filter is invalid"⟩
  else if ¬filter.eventTypes.Nodup then
    .error ⟨.invalidArgument, "subscription event types contain duplicates"⟩
  else if ¬filter.metrics.Nodup then
    .error ⟨.invalidArgument, "subscription metrics contain duplicates"⟩
  else
    .ok { filter with
      eventTypes := filter.eventTypes.insertionSort fun a b => a.value ≤ b.value
      metrics := filter.metrics.insertionSort (· ≤ ·) }

/-- The entity test: equal, or the same logical entity after a rediscovery. -/
def admits (wanted : EntityRef) (entity : Option EntityRef) : Bool :=
  match entity with
  | none => false
  | some entity =>
    decide (wanted = entity ∨ (filter.followRediscovery = true ∧ wanted.kind = entity.kind ∧
      wanted.id = entity.id))

/-- The binary searches of the source run over the sorted lists. -/
def accepts (event : PdcmEvent) : Bool :=
  decide (event.type ∈ filter.eventTypes ∧ filter.minimumSeverity.value ≤ event.severity.value ∧
    (∀ wanted ∈ filter.entity, filter.admits wanted event.entity = true) ∧
    (filter.metrics ≠ [] → ∃ metric ∈ event.metric, metric ∈ filter.metrics) ∧
    (filter.healthSubsystem.isSome → event.healthSubsystem = filter.healthSubsystem))

end SubscriptionFilter

structure SubscriptionLimits where
  maxEvents : ℕ := 64
  maxBytes : ℕ := 256 * 1024
  deriving DecidableEq, Repr

def SubscriptionLimits.validate (l : SubscriptionLimits) : Status :=
  if l.maxEvents = 0 ∨ l.maxBytes = 0 then
    ⟨.invalidArgument, "subscription limits must be non-zero"⟩
  else .success

structure Subscription where
  filter : SubscriptionFilter := {}
  limits : SubscriptionLimits := {}
  pending : List PdcmEvent := []
  pendingBytes : ℕ := 0
  activeDeliveries : ℕ := 0
  closing : Bool := false
  closed : Bool := false
  deriving DecidableEq, Repr

def isLossMarker (event : PdcmEvent) : Bool := decide (event.type = .subscriptionLossMarker)

def droppable (event : PdcmEvent) : Bool := !isNonDroppable event.type

def sameMetricKey (lhs rhs : PdcmEvent) : Bool :=
  decide (lhs.type = .metricUpdate ∧ rhs.type = .metricUpdate ∧ lhs.entity = rhs.entity ∧
    lhs.metric = rhs.metric)

/-- The payload of a marker after one more drop. Markers in a queue always carry a loss
payload. -/
def lossPayload (dropped : PdcmEvent) : Option EventPayload → SubscriptionLossPayload
  | some (.subscriptionLoss p) =>
    { firstDroppedSequence := min p.firstDroppedSequence dropped.sequence
      lastDroppedSequence := max p.lastDroppedSequence dropped.sequence
      droppedCount := p.droppedCount + 1 }
  | _ => ⟨dropped.sequence, dropped.sequence, 1⟩

def lossMarker (dropped : PdcmEvent) (existing : Option PdcmEvent) : PdcmEvent where
  bootEpoch := dropped.bootEpoch
  sequence := (existing.getD dropped).sequence
  type := .subscriptionLossMarker
  severity := .warning
  occurrenceTimeNs := (existing.getD dropped).occurrenceTimeNs
  catalogGeneration := dropped.catalogGeneration
  payload := .subscriptionLoss (lossPayload dropped (existing.map fun m => m.payload))

namespace Subscription

variable {event e : PdcmEvent} {p : PdcmEvent → Bool} {es : List PdcmEvent} (s : Subscription)

def isOpen : Bool := !s.closing && !s.closed

/-- What `enqueue` does when it cannot make room. -/
def shut : Subscription :=
  { s with pending := [], pendingBytes := 0, closed := true }

/-- The queue while the drop loop runs. -/
structure Dropping where
  pending : List PdcmEvent
  pendingBytes : ℕ
  dropped : List PdcmEvent := []

def exceedsLimits (limits : SubscriptionLimits) (event : PdcmEvent) (marker : Option PdcmEvent)
    (d : Dropping) : Bool :=
  let needsMarker := marker.isNone && !d.dropped.isEmpty
  let reserved := if needsMarker then eventBytes (lossMarker event none) else 0
  decide (limits.maxEvents < d.pending.length + 1 + (if needsMarker then 1 else 0) ∨
    limits.maxBytes - d.pendingBytes < eventBytes event ∨
    limits.maxBytes - d.pendingBytes - eventBytes event < reserved)

/-- Which queued events may make room for `event`. -/
def replaceable (event queued : PdcmEvent) : Bool :=
  if event.type = .metricUpdate then sameMetricKey queued event else droppable queued

/-- The drop loop: the first replaceable event leaves until `event` fits. Nothing is
returned when no candidate is left. Each pass removes an event, so the length of the
queue is enough fuel. -/
def dropLoop (limits : SubscriptionLimits) (event : PdcmEvent) (marker : Option PdcmEvent) :
    ℕ → Dropping → Option Dropping
  | fuel, d =>
    if exceedsLimits limits event marker d = false then some d
    else
      match fuel, d.pending.find? (replaceable event) with
      | _, none => none
      | 0, some _ => none
      | fuel + 1, some candidate =>
        dropLoop limits event marker fuel
          { pending := d.pending.eraseP (replaceable event)
            pendingBytes := d.pendingBytes - eventBytes candidate
            dropped := d.dropped ++ [candidate] }

/-- Put a marker in the place of the first one, or at the end. -/
def placeMarker (marker : PdcmEvent) : List PdcmEvent → List PdcmEvent
  | [] => [marker]
  | e :: rest => if isLossMarker e then marker :: rest else e :: placeMarker marker rest

/-- The queue with its marker updated for the dropped events. -/
def recordDrops (marker : Option PdcmEvent) (d : Dropping) : List PdcmEvent × ℕ :=
  match d.dropped.foldl (fun m e => some (lossMarker e m)) marker with
  | none => (d.pending, d.pendingBytes)
  | some updated =>
    if d.dropped = [] then (d.pending, d.pendingBytes)
    else
      (placeMarker updated d.pending,
        d.pendingBytes - (d.pending.find? isLossMarker).elim 0 eventBytes + eventBytes updated)

def enqueue (event : PdcmEvent) : Subscription :=
  if s.closing ∨ s.closed then s
  else if s.limits.maxBytes < eventBytes event then s.shut
  else
    let marker := s.pending.find? isLossMarker
    match dropLoop s.limits event marker s.pending.length ⟨s.pending, s.pendingBytes, []⟩ with
    | none => s.shut
    | some d =>
      let recorded := recordDrops marker d
      if s.limits.maxEvents ≤ recorded.1.length ∨
          s.limits.maxBytes - eventBytes event < recorded.2 then s.shut
      else
        { s with
          pending := recorded.1 ++ [event]
          pendingBytes := recorded.2 + eventBytes event }

/-- One pass of the inner loop of `dispatch`. -/
def offer (event : PdcmEvent) : Subscription :=
  if s.filter.accepts event then s.enqueue event else s

/-- The first critical section of `deliverNext`, for the first event of the queue. -/
@[simp] abbrev taken (event : PdcmEvent) (rest : List PdcmEvent) : Subscription :=
  { s with
    pending := rest
    pendingBytes := s.pendingBytes - eventBytes event
    activeDeliveries := s.activeDeliveries + 1 }

theorem enqueue_of_closed {s : Subscription} (h : s.isOpen = false) (event : PdcmEvent) :
    s.enqueue event = s := by
  have hcl : s.closing = true ∨ s.closed = true := by
    simpa [isOpen, imp_iff_not_or] using h
  rw [enqueue, if_pos hcl]

theorem enqueue_frame (event : PdcmEvent) :
    (s.enqueue event).limits = s.limits ∧
      (s.enqueue event).activeDeliveries = s.activeDeliveries := by
  unfold enqueue
  split_ifs
  · exact ⟨rfl, rfl⟩
  · exact ⟨rfl, rfl⟩
  · dsimp only
    split
    · exact ⟨rfl, rfl⟩
    · split_ifs <;> exact ⟨rfl, rfl⟩

/-! ### What stays accounted for -/

/-- A loss marker whose range holds `sequence`. -/
def covers (marker : PdcmEvent) (sequence : ℕ) : Bool :=
  isLossMarker marker &&
    match marker.payload with
    | .subscriptionLoss p =>
      decide (p.firstDroppedSequence ≤ sequence ∧ sequence ≤ p.lastDroppedSequence)
    | _ => false

theorem covers_lossMarker (gone : PdcmEvent) (old : Option PdcmEvent) :
    covers (lossMarker gone old) gone.sequence = true := by
  simp only [covers, lossMarker, isLossMarker, decide_true, Bool.true_and, decide_eq_true_eq]
  unfold lossPayload
  split
  · exact ⟨min_le_right _ _, le_max_right _ _⟩
  · exact ⟨le_rfl, le_rfl⟩

/-- A marker keeps what it covers when one more event is dropped. -/
theorem covers_lossMarker_of_covers {gone marker : PdcmEvent} {n : ℕ}
    (h : covers marker n = true) : covers (lossMarker gone (some marker)) n = true := by
  simp only [covers, Bool.and_eq_true] at h
  obtain ⟨-, hra⟩ := h
  cases hp : marker.payload with
  | subscriptionLoss p =>
    simp only [hp, decide_eq_true_eq] at hra
    simp only [covers, lossMarker, isLossMarker, decide_true, Bool.true_and, hp,
      Option.map_some, decide_eq_true_eq]
    exact ⟨(min_le_left _ _).trans hra.1, hra.2.trans (le_max_left _ _)⟩
  | _ => simp [hp] at hra

/-- The final marker covers every dropped event and all that the first one covered. -/
theorem covers_foldl (marker : Option PdcmEvent) {drops : List PdcmEvent} {n : ℕ}
    (h : (∃ m ∈ marker, covers m n = true) ∨ ∃ d ∈ drops, d.sequence = n) :
    ∃ m ∈ drops.foldl (fun m e => some (lossMarker e m)) marker, covers m n = true := by
  induction drops generalizing marker with
  | nil =>
    rcases h with h | ⟨d, hd, -⟩
    · exact h
    · simp at hd
  | cons d rest ih =>
    refine ih _ ?_
    rcases h with ⟨m, hm, hco⟩ | ⟨e, he, rfl⟩
    · exact .inl ⟨_, rfl, hm ▸ covers_lossMarker_of_covers hco⟩
    · rcases mem_cons.mp he with rfl | he
      · exact .inl ⟨_, rfl, covers_lossMarker e marker⟩
      · exact .inr ⟨e, he, rfl⟩

theorem not_isLossMarker_of_replaceable {queued : PdcmEvent} (h : replaceable event queued = true) :
    isLossMarker queued = false := by
  unfold replaceable at h
  split_ifs at h
  · simp only [sameMetricKey, decide_eq_true_eq] at h
    simp [isLossMarker, h.1]
  · cases ht : queued.type <;> simp_all [droppable, isNonDroppable, isLossMarker]

theorem perm_cons_eraseP {e : PdcmEvent} (h : es.find? p = some e) :
    (e :: es.eraseP p).Perm es := by
  induction es with
  | nil => simp at h
  | cons first rest ih =>
    by_cases hp : p first = true
    · rw [List.find?_cons_of_pos hp, Option.some.injEq] at h
      rw [eraseP_cons_of_pos hp, h]
    · rw [List.find?_cons_of_neg hp] at h
      rw [eraseP_cons_of_neg hp]
      exact (List.Perm.swap first e _).trans ((ih h).cons first)

theorem filter_eraseP {q : PdcmEvent → Bool} (hpq : ∀ e, p e = true → q e = false)
    (es : List PdcmEvent) : (es.eraseP p).filter q = es.filter q := by
  induction es with
  | nil => rfl
  | cons e rest ih =>
    by_cases hp : p e = true
    · rw [eraseP_cons_of_pos hp, filter_cons_of_neg (by simp [hpq e hp])]
    · rw [eraseP_cons_of_neg hp, filter_cons, filter_cons, ih]

theorem mem_eraseP_or_find? (he : e ∈ es) : e ∈ es.eraseP p ∨ es.find? p = some e := by
  cases hfi : es.find? p with
  | none =>
    rw [eraseP_of_forall_not (List.find?_eq_none.mp hfi)]
    exact .inl he
  | some first =>
    rcases mem_cons.mp ((perm_cons_eraseP hfi).mem_iff.mpr he) with rfl | hin
    · exact .inr rfl
    · exact .inl hin

/-- One pass of the drop loop. -/
def Dropping.drop (event : PdcmEvent) (d : Dropping) (candidate : PdcmEvent) : Dropping where
  pending := d.pending.eraseP (replaceable event)
  pendingBytes := d.pendingBytes - eventBytes candidate
  dropped := d.dropped ++ [candidate]

section DropLoop

variable {limits : SubscriptionLimits} {marker : Option PdcmEvent}
  {d : Dropping} {candidate : PdcmEvent}

theorem dropLoop_fits (h : exceedsLimits limits event marker d = false) (fuel : ℕ) :
    dropLoop limits event marker fuel d = some d := by
  unfold dropLoop
  exact if_pos h

theorem dropLoop_stuck (h : exceedsLimits limits event marker d = true)
    (hno : d.pending.find? (replaceable event) = none) (fuel : ℕ) :
    dropLoop limits event marker fuel d = none := by
  cases fuel <;> simp [dropLoop, h, hno]

theorem dropLoop_succ (h : exceedsLimits limits event marker d = true)
    (hso : d.pending.find? (replaceable event) = some candidate) (fuel : ℕ) :
    dropLoop limits event marker (fuel + 1) d =
      dropLoop limits event marker fuel (d.drop event candidate) := by
  simp [dropLoop, h, hso, Dropping.drop]

/-- The rule of the drop loop: what every pass keeps holds at the end, where either the
event fits or no candidate is left. -/
theorem dropLoop_rec {P : Dropping → Prop}
    (hdr : ∀ d candidate, P d → exceedsLimits limits event marker d = true →
      d.pending.find? (replaceable event) = some candidate → P (d.drop event candidate)) {fuel : ℕ}
    (hd : P d) (hfu : d.pending.length ≤ fuel) :
    (∃ r, dropLoop limits event marker fuel d = some r ∧ P r ∧
      exceedsLimits limits event marker r = false) ∨
    ∃ r, dropLoop limits event marker fuel d = none ∧ P r ∧
      exceedsLimits limits event marker r = true ∧
      r.pending.find? (replaceable event) = none := by
  induction fuel generalizing d with
  | zero =>
    cases hexc : exceedsLimits limits event marker d with
    | false => exact .inl ⟨d, dropLoop_fits hexc 0, hd, hexc⟩
    | true =>
      have hnil : d.pending = [] := length_eq_zero_iff.mp (Nat.le_zero.mp hfu)
      have hno : d.pending.find? (replaceable event) = none := by rw [hnil]; rfl
      exact .inr ⟨d, dropLoop_stuck hexc hno 0, hd, hexc, hno⟩
  | succ fuel ih =>
    cases hexc : exceedsLimits limits event marker d with
    | false => exact .inl ⟨d, dropLoop_fits hexc _, hd, hexc⟩
    | true =>
      cases hfi : d.pending.find? (replaceable event) with
      | none => exact .inr ⟨d, dropLoop_stuck hexc hfi _, hd, hexc, hfi⟩
      | some candidate =>
        rw [dropLoop_succ hexc hfi]
        refine ih (hdr d candidate hd hexc hfi) ?_
        have hmem := mem_of_find?_eq_some hfi
        have hle := length_eraseP_of_mem hmem (List.find?_some hfi)
        simp only [Dropping.drop]
        omega

/-- Some passes of the loop: events moved from the queue to the dropped ones, never a
marker. -/
structure MovesOut (d r : Dropping) : Prop where
  dropped : ∀ e ∈ d.dropped, e ∈ r.dropped
  pending : ∀ e ∈ d.pending, e ∈ r.pending ∨ e ∈ r.dropped
  markers : ∀ e ∈ d.pending, isLossMarker e = true → e ∈ r.pending
  first : r.pending.find? isLossMarker = d.pending.find? isLossMarker

theorem MovesOut.refl (d : Dropping) : MovesOut d d :=
  ⟨fun _ he => he, fun _ he => Or.inl he, fun _ he _ => he, rfl⟩

theorem MovesOut.drop {r : Dropping} (h : MovesOut d r)
    (hfi : r.pending.find? (replaceable event) = some candidate) :
    MovesOut d (r.drop event candidate) := by
  constructor
  · intro e he
    exact mem_append_left _ (h.dropped e he)
  · intro e he
    rcases h.pending e he with he | he
    · rcases mem_eraseP_or_find? he with he | he
      · exact .inl he
      · obtain rfl := Option.some.inj (hfi.symm.trans he)
        exact .inr (mem_append_right _ (mem_singleton.mpr rfl))
    · exact .inr (mem_append_left _ he)
  · intro e he hma
    have hke : ¬replaceable event e = true := by
      intro hre
      rw [not_isLossMarker_of_replaceable hre] at hma
      cases hma
    exact (mem_eraseP_of_neg hke).mpr (h.markers e he hma)
  · rw [← h.first, ← head?_filter, ← head?_filter]
    exact congrArg head? (filter_eraseP (fun _ => not_isLossMarker_of_replaceable) r.pending)

theorem dropLoop_some {fuel : ℕ} {r : Dropping} (h : dropLoop limits event marker fuel d = some r)
    (hfu : d.pending.length ≤ fuel) : MovesOut d r := by
  have hpa : ∀ m candidate, MovesOut d m → exceedsLimits limits event marker m = true →
      m.pending.find? (replaceable event) = some candidate →
      MovesOut d (m.drop event candidate) := fun _ _ hmo _ hfi => hmo.drop hfi
  rcases dropLoop_rec hpa (.refl d) hfu with ⟨r', hr', hmo, -⟩ | ⟨_, hno, -⟩
  · cases h.symm.trans hr'
    exact hmo
  · cases h.symm.trans hno

end DropLoop

/-- The place of a marker: only the first marker gives way to it. -/
theorem mem_placeMarker (marker : PdcmEvent) (he : e ∈ es) :
    e ∈ placeMarker marker es ∨ es.find? isLossMarker = some e := by
  induction es with
  | nil => simp at he
  | cons first rest ih =>
    rw [placeMarker]
    by_cases hm : isLossMarker first = true
    · rw [if_pos hm, List.find?_cons_of_pos hm]
      rcases mem_cons.mp he with rfl | he
      · exact .inr rfl
      · exact .inl (mem_cons_of_mem marker he)
    · rw [if_neg hm, List.find?_cons_of_neg hm]
      rcases mem_cons.mp he with rfl | he
      · exact .inl (by simp)
      · exact (ih he).imp_left (mem_cons_of_mem first)

theorem self_mem_placeMarker (marker : PdcmEvent) (es : List PdcmEvent) :
    marker ∈ placeMarker marker es := by
  induction es with
  | nil => simp [placeMarker]
  | cons first rest ih =>
    rw [placeMarker]
    split_ifs
    · simp
    · exact mem_cons_of_mem first ih

theorem recordDrops_spec (d : Dropping) :
    (∀ e ∈ d.dropped, ∃ m ∈ (recordDrops (d.pending.find? isLossMarker) d).1,
      covers m e.sequence = true) ∧
    (∀ e ∈ d.pending, isLossMarker e = false →
      e ∈ (recordDrops (d.pending.find? isLossMarker) d).1) ∧
    (∀ m ∈ d.pending, ∀ n, covers m n = true →
      ∃ m' ∈ (recordDrops (d.pending.find? isLossMarker) d).1, covers m' n = true) := by
  unfold recordDrops
  cases hfo : d.dropped.foldl (fun m e => some (lossMarker e m)) (d.pending.find? isLossMarker) with
  | none =>
    refine ⟨?_, fun e he _ => he, fun m hm n hn => ⟨m, hm, hn⟩⟩
    intro e he
    obtain ⟨m, hm, -⟩ := covers_foldl (d.pending.find? isLossMarker) (.inr ⟨e, he, rfl⟩)
    simp [hfo] at hm
  | some updated =>
    split_ifs with hdr
    · refine ⟨?_, fun e he _ => he, fun m hm n hn => ⟨m, hm, hn⟩⟩
      simp [hdr]
    · have hup : ∀ n, ((∃ m ∈ d.pending.find? isLossMarker, covers m n = true) ∨
          ∃ e ∈ d.dropped, e.sequence = n) → covers updated n = true := by
        intro n hn
        obtain ⟨m, hm, hco⟩ := covers_foldl _ hn
        rw [hfo, Option.mem_some] at hm
        exact hm ▸ hco
      refine ⟨?_, ?_, ?_⟩
      · intro e he
        exact ⟨updated, self_mem_placeMarker _ _, hup _ (.inr ⟨e, he, rfl⟩)⟩
      · intro e he hma
        refine (mem_placeMarker updated he).resolve_right fun hfi => ?_
        simp [List.find?_some hfi] at hma
      · intro m hm n hn
        rcases mem_placeMarker updated hm with hke | hfi
        · exact ⟨m, hke, hn⟩
        · exact ⟨updated, self_mem_placeMarker _ _, hup n (.inl ⟨m, hfi, hn⟩)⟩

/-- `t` has or covers all that `s` had or covered. -/
structure Retains (s t : Subscription) : Prop where
  filter : t.filter = s.filter
  events : ∀ e ∈ s.pending, isLossMarker e = false →
    e ∈ t.pending ∨ ∃ m ∈ t.pending, covers m e.sequence = true
  ranges : ∀ m ∈ s.pending, ∀ n, covers m n = true → ∃ m' ∈ t.pending, covers m' n = true

theorem Retains.refl : s.Retains s :=
  ⟨rfl, fun _ he _ => Or.inl he, fun m hm _ hn => ⟨m, hm, hn⟩⟩

/-- A subscription that is open after `enqueue` was open before, lost nothing silently and
has the new event. -/
theorem enqueue_retains {s : Subscription} (hop : (s.enqueue event).isOpen = true) :
    s.isOpen = true ∧ s.Retains (s.enqueue event) ∧ event ∈ (s.enqueue event).pending := by
  unfold enqueue at hop ⊢
  split_ifs at hop ⊢ with hcl hsi
  · simp [isOpen] at hop
    simp [hop] at hcl
  · simp [isOpen, shut] at hop
  · have hbe : s.isOpen = true := by
      simpa [isOpen] using hcl
    refine ⟨hbe, ?_⟩
    cases hlo : dropLoop s.limits event (s.pending.find? isLossMarker) s.pending.length
        ⟨s.pending, s.pendingBytes, []⟩ with
    | none => simp [hlo, isOpen, shut] at hop
    | some d =>
      simp only [hlo] at hop ⊢
      split_ifs at hop ⊢ with hro
      · simp [isOpen, shut] at hop
      · obtain ⟨-, hpe, hmar, hfi⟩ := dropLoop_some hlo le_rfl
        rw [← hfi]
        obtain ⟨hdr, hke, hra⟩ := recordDrops_spec d
        refine ⟨⟨rfl, ?_, ?_⟩, by simp⟩
        · intro e he hma
          rcases hpe e he with he | he
          · exact .inl (mem_append_left _ (hke e he hma))
          · obtain ⟨m, hm, hco⟩ := hdr e he
            exact .inr ⟨m, mem_append_left _ hm, hco⟩
        · intro m hm n hn
          have hma : isLossMarker m = true := by
            simp only [covers, Bool.and_eq_true] at hn
            exact hn.1
          obtain ⟨m', hm', hco⟩ := hra m (hmar m hm hma) n hn
          exact ⟨m', mem_append_left _ hm', hco⟩

end Subscription
end Pdcm
