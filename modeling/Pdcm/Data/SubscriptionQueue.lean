import Pdcm.Data.Subscription

/-!
# The drop loop of a subscription queue

What the drop loop of `enqueue` does to the queue as a whole: it moves replaceable events
out in their order, never a loss marker, and it ends either with room for the new event
or with nothing left to replace. From this follows when `enqueue` closes a subscription.
A metric update only replaces updates of its own key, so a queue full of other keys makes
the subscription close although every queued event could have been dropped.
-/

namespace Pdcm

open Library List

def queueBytes (es : List PdcmEvent) : ℕ := (es.map eventBytes).sum

@[simp] theorem queueBytes_nil : queueBytes [] = 0 := rfl

@[simp] theorem queueBytes_cons (e : PdcmEvent) (es : List PdcmEvent) :
    queueBytes (e :: es) = eventBytes e + queueBytes es := by
  simp [queueBytes]

@[simp] theorem queueBytes_append (es fs : List PdcmEvent) :
    queueBytes (es ++ fs) = queueBytes es + queueBytes fs := by
  simp [queueBytes]

@[simp] theorem isLossMarker_lossMarker (gone : PdcmEvent) (existing : Option PdcmEvent) :
    isLossMarker (lossMarker gone existing) = true := by
  simp [isLossMarker, lossMarker]

/-- A marker carries a range and a count. -/
def HasLossPayload (e : PdcmEvent) : Prop := ∃ p, e.payload = .subscriptionLoss p

theorem HasLossPayload.eventBytes_eq {e : PdcmEvent} (h : HasLossPayload e) (gone : PdcmEvent)
    (existing : Option PdcmEvent) : eventBytes e = eventBytes (lossMarker gone existing) := by
  obtain ⟨p, hp⟩ := h
  simp [eventBytes, lossMarker, hp, payloadBytes]

namespace Subscription

variable {limits : SubscriptionLimits} {event : PdcmEvent} {marker : Option PdcmEvent}
  {es : List PdcmEvent} {d r : Dropping} {existing : Option PdcmEvent} {m : PdcmEvent}
  {s : Subscription} {p : PdcmEvent → Bool}

/-! ### What the loop keeps -/

/-- The passes between `d` and `r`. -/
structure Drops (event : PdcmEvent) (d r : Dropping) : Prop where
  kept : r.pending.Sublist d.pending
  moved : r.dropped ++ r.pending.filter (replaceable event) =
    d.dropped ++ d.pending.filter (replaceable event)
  others : r.pending.filter (fun e => !replaceable event e) =
    d.pending.filter fun e => !replaceable event e
  bytes : d.pendingBytes = queueBytes d.pending → r.pendingBytes = queueBytes r.pending

theorem Drops.refl (event : PdcmEvent) (d : Dropping) : Drops event d d where
  kept := List.Sublist.refl _
  moved := rfl
  others := rfl
  bytes h := h

theorem filter_of_find? {e : PdcmEvent} (h : es.find? p = some e) :
    es.filter p = e :: (es.eraseP p).filter p := by
  induction es with
  | nil => cases h
  | cons first rest ih =>
    by_cases hp : p first = true
    · rw [List.find?_cons_of_pos hp, Option.some.injEq] at h
      rw [filter_cons_of_pos hp, eraseP_cons_of_pos hp, h]
    · rw [List.find?_cons_of_neg hp] at h
      rw [filter_cons_of_neg hp, eraseP_cons_of_neg hp, filter_cons_of_neg hp, ih h]

section

variable (h : Drops event d r)

include h

theorem Drops.drop {cand : PdcmEvent} (hfi : r.pending.find? (replaceable event) = some cand) :
    Drops event d (r.drop event cand) where
  kept := eraseP_sublist.trans h.kept
  moved := by
    rw [← h.moved, filter_of_find? hfi]
    simp [Dropping.drop]
  others := by
    rw [← h.others]
    exact filter_eraseP (by simp) r.pending
  bytes hd := by
    have hpe := perm_cons_eraseP hfi
    have hsum : eventBytes cand + queueBytes (r.pending.eraseP (replaceable event)) =
        queueBytes r.pending := by
      exact (hpe.map eventBytes).sum_eq
    simp only [Dropping.drop, h.bytes hd]
    omega

theorem Drops.replaceable_of_mem (hd : d.dropped = []) {e : PdcmEvent}
    (he : e ∈ r.dropped) : replaceable event e = true := by
  have hmem := h.moved ▸ mem_append_left _ he
  rw [hd] at hmem
  exact (mem_filter.mp hmem).2

theorem Drops.markers :
    r.pending.filter isLossMarker = d.pending.filter isLossMarker := by
  have hke : ∀ es : List PdcmEvent, es.filter isLossMarker =
      (es.filter fun e => !replaceable event e).filter isLossMarker := by
    intro es
    rw [filter_filter]
    refine filter_congr fun e _ => ?_
    cases hr : replaceable event e with
    | false => simp
    | true => simp [not_isLossMarker_of_replaceable hr]
  rw [hke r.pending, h.others, ← hke]

theorem Drops.perm :
    (r.dropped ++ r.pending).Perm (d.dropped ++ d.pending) := by
  have hsp : ∀ x : Dropping, (x.dropped ++ x.pending).Perm ((x.dropped ++
      x.pending.filter (replaceable event)) ++ x.pending.filter fun e => !replaceable event e) := by
    intro x
    rw [append_assoc]
    exact ((filter_append_perm _ _).symm).append_left _
  refine (hsp r).trans (.trans ?_ (hsp d).symm)
  rw [h.moved, h.others]

end

/-! ### The marker after the drops -/

/-- The marker `recordDrops` puts into the queue. -/
def updatedMarker (existing : Option PdcmEvent) (dropped : List PdcmEvent) : Option PdcmEvent :=
  dropped.foldl (fun m e => some (lossMarker e m)) existing

theorem updatedMarker_of_ne_nil (existing : Option PdcmEvent) {gone : List PdcmEvent}
    (h : gone ≠ []) :
    ∃ e other, updatedMarker existing gone = some (lossMarker e other) := by
  induction gone using reverseRecOn with
  | nil => exact absurd rfl h
  | append_singleton rest e ih =>
    exact ⟨e, updatedMarker existing rest, by simp [updatedMarker]⟩

/-- The marker keeps the sequence number of the marker that was there, or gets that of the
first event it stands for. -/
theorem updatedMarker_sequence {gone : List PdcmEvent} (h : updatedMarker existing gone = some m) :
    (existing <|> gone.head?).map (fun e => e.sequence) = some m.sequence := by
  induction gone generalizing existing with
  | nil =>
    simp only [updatedMarker, foldl_nil] at h
    simp [h]
  | cons e rest ih =>
    have hup : updatedMarker (some (lossMarker e existing)) rest = some m := h
    have hre := ih hup
    cases existing <;> simpa [lossMarker] using hre

theorem recordDrops_nil (existing : Option PdcmEvent) (h : d.dropped = []) :
    recordDrops existing d = (d.pending, d.pendingBytes) := by
  unfold recordDrops
  cases hfo : d.dropped.foldl (fun m e => some (lossMarker e m)) existing with
  | none => rfl
  | some updated => exact if_pos h

theorem recordDrops_some (h : d.dropped ≠ []) (hm : updatedMarker existing d.dropped = some m) :
    recordDrops existing d = (placeMarker m d.pending,
      d.pendingBytes - (d.pending.find? isLossMarker).elim 0 eventBytes + eventBytes m) := by
  unfold updatedMarker at hm
  unfold recordDrops
  rw [hm]
  exact if_neg h

/-! ### The place of the marker -/

theorem placeMarker_of_find?_none (m : PdcmEvent) (h : es.find? isLossMarker = none) :
    placeMarker m es = es ++ [m] := by
  induction es with
  | nil => rfl
  | cons e rest ih =>
    obtain ⟨he, hre⟩ : isLossMarker e = false ∧ rest.find? isLossMarker = none := by
      cases hm : isLossMarker e with
      | false => exact ⟨rfl, by simpa [hm] using h⟩
      | true => simp [hm] at h
    rw [placeMarker, if_neg (by simp [he]), ih hre]
    rfl

theorem placeMarker_of_find?_some (m : PdcmEvent) {existing : PdcmEvent}
    (h : es.find? isLossMarker = some existing) :
    ∃ b after, es = b ++ existing :: after ∧
      placeMarker m es = b ++ m :: after ∧ b.filter isLossMarker = [] := by
  induction es with
  | nil => simp at h
  | cons e rest ih =>
    by_cases hm : isLossMarker e = true
    · rw [List.find?_cons_of_pos hm, Option.some.injEq] at h
      exact ⟨[], rest, by simp [h], by simp [placeMarker, hm], rfl⟩
    · rw [List.find?_cons_of_neg hm] at h
      obtain ⟨b, after, hes, hpl, hbe⟩ := ih h
      refine ⟨e :: b, after, by simp [hes], ?_, ?_⟩
      · rw [placeMarker, if_neg hm, hpl]
        rfl
      · rw [filter_cons_of_neg hm, hbe]

theorem filter_not_marker_placeMarker (hm : isLossMarker m = true) (es : List PdcmEvent) :
    (placeMarker m es).filter (fun e => !isLossMarker e) = es.filter fun e => !isLossMarker e := by
  induction es with
  | nil => simp [placeMarker, hm]
  | cons e rest ih =>
    rw [placeMarker]
    by_cases he : isLossMarker e = true
    · simp [he, hm]
    · rw [if_neg he, filter_cons, filter_cons, ih]

/-! ### A queue in order -/

/-- What every reachable queue satisfies. -/
structure Orderly (s : Subscription) : Prop where
  bytes : s.pendingBytes = queueBytes s.pending
  events_le : s.pending.length ≤ s.limits.maxEvents
  bytes_le : s.pendingBytes ≤ s.limits.maxBytes
  one_marker : (s.pending.filter isLossMarker).length ≤ 1
  payload : ∀ m ∈ s.pending, isLossMarker m = true → HasLossPayload m

/-- The queue when the drop loop starts. -/
def dropping (s : Subscription) : Dropping := ⟨s.pending, s.pendingBytes, []⟩

def dropped (s : Subscription) (event : PdcmEvent) : Option Dropping :=
  dropLoop s.limits event (s.pending.find? isLossMarker) s.pending.length s.dropping

/-- The room that the event and, if the queue has none, a loss marker need beside `es`. -/
def FitsBeside (s : Subscription) (event : PdcmEvent) (es : List PdcmEvent) (needsMarker : Bool) :
    Prop :=
  es.length + 1 + (if needsMarker then 1 else 0) ≤ s.limits.maxEvents ∧
    queueBytes es + eventBytes event +
      (if needsMarker then eventBytes (lossMarker event none) else 0) ≤ s.limits.maxBytes

instance (s : Subscription) (event : PdcmEvent) (es : List PdcmEvent) (needsMarker : Bool) :
    Decidable (s.FitsBeside event es needsMarker) :=
  inferInstanceAs (Decidable (_ ∧ _))

theorem exceedsLimits_eq_false (hby : d.pendingBytes = queueBytes d.pending) :
    exceedsLimits s.limits event existing d = false ↔
      s.FitsBeside event d.pending (existing.isNone && !d.dropped.isEmpty) := by
  have hpos : 0 < eventBytes event := by simp [eventBytes, sizeofPdcmEvent]
  simp only [exceedsLimits, decide_eq_false_iff_not, not_or, not_lt]
  constructor
  · rintro ⟨hev, hro, hre⟩
    exact ⟨hev, by omega⟩
  · rintro ⟨hev, hro⟩
    exact ⟨hev, by omega, by omega⟩

theorem dropped_cases (s : Subscription) (event : PdcmEvent) :
    (∃ d, s.dropped event = some d ∧ Drops event s.dropping d ∧
      exceedsLimits s.limits event (s.pending.find? isLossMarker) d = false) ∨
    ∃ r, s.dropped event = none ∧ Drops event s.dropping r ∧
      exceedsLimits s.limits event (s.pending.find? isLossMarker) r = true ∧
      r.pending.find? (replaceable event) = none :=
  dropLoop_rec (fun _ _ hr _ hfi => hr.drop hfi) (.refl event s.dropping) (le_refl s.pending.length)

theorem drops_of_dropped (hs : s.Orderly) (h : s.dropped event = some d) :
    Drops event s.dropping d ∧ s.pending.find? isLossMarker = d.pending.find? isLossMarker ∧
      s.FitsBeside event d.pending
        ((d.pending.find? isLossMarker).isNone && !d.dropped.isEmpty) := by
  rcases s.dropped_cases event with ⟨r, hr, hdr, hfit⟩ | ⟨r, hr, -⟩
  · obtain rfl : r = d := Option.some.inj (hr.symm.trans h)
    have hfi : s.pending.find? isLossMarker = r.pending.find? isLossMarker := by
      rw [← head?_filter, ← head?_filter, hdr.markers]
      rfl
    rw [hfi, exceedsLimits_eq_false (hdr.bytes hs.bytes)] at hfit
    exact ⟨hdr, hfi, hfit⟩
  · exact absurd (hr.symm.trans h) (by simp)

/-- What recording the drops adds to the queue: one marker if it had none. -/
theorem recordDrops_size (hs : s.Orderly) (h : s.dropped event = some d) :
    (recordDrops (d.pending.find? isLossMarker) d).1.length = d.pending.length +
        (if (d.pending.find? isLossMarker).isNone && !d.dropped.isEmpty then 1 else 0) ∧
      queueBytes (recordDrops (d.pending.find? isLossMarker) d).1 = queueBytes d.pending +
        (if (d.pending.find? isLossMarker).isNone && !d.dropped.isEmpty then
          eventBytes (lossMarker event none) else 0) ∧
      (recordDrops (d.pending.find? isLossMarker) d).2 =
        queueBytes (recordDrops (d.pending.find? isLossMarker) d).1 := by
  have hke := (drops_of_dropped hs h).1
  have hby := hke.bytes hs.bytes
  have hpa : ∀ m ∈ d.pending, isLossMarker m = true → HasLossPayload m :=
    fun m hm => hs.payload m (hke.kept.subset hm)
  by_cases hdr : d.dropped = []
  · simp [recordDrops_nil _ hdr, hdr, hby]
  · obtain ⟨e, other, hm⟩ := updatedMarker_of_ne_nil (d.pending.find? isLossMarker) hdr
    rw [recordDrops_some hdr hm]
    cases hfi : d.pending.find? isLossMarker with
    | none =>
      rw [placeMarker_of_find?_none _ hfi]
      have hsame : eventBytes (lossMarker e other) = eventBytes (lossMarker event none) := rfl
      simp [hdr, hby, hsame]
    | some existing =>
      obtain ⟨b, after, hes, hpl, -⟩ := placeMarker_of_find?_some (lossMarker e other) hfi
      have hold : eventBytes existing = eventBytes (lossMarker e other) :=
        (hpa existing (mem_of_find?_eq_some hfi) (List.find?_some hfi)).eventBytes_eq e other
      have hpe : queueBytes d.pending = queueBytes b + (eventBytes existing +
          queueBytes after) := by
        rw [hes, queueBytes_append, queueBytes_cons]
      rw [hpl]
      refine ⟨by simp [hes], by simp [hpe, hold], ?_⟩
      simp only [Option.elim_some, queueBytes_append, queueBytes_cons]
      omega

/-- `enqueue` on an open subscription: the event is too large, there is nothing to make
room with, or the event is appended. The last check of the source never fails. -/
theorem enqueue_cases (hs : s.Orderly) (hop : s.isOpen = true) (event : PdcmEvent) :
    s.limits.maxBytes < eventBytes event ∧ s.enqueue event = s.shut ∨
    s.dropped event = none ∧ s.enqueue event = s.shut ∨
    ∃ d, s.dropped event = some d ∧ s.enqueue event =
      { s with
        pending := (recordDrops (d.pending.find? isLossMarker) d).1 ++ [event]
        pendingBytes := queueBytes ((recordDrops (d.pending.find? isLossMarker) d).1 ++
          [event]) } := by
  have hcl : ¬(s.closing = true ∨ s.closed = true) := by
    simpa [isOpen] using hop
  unfold enqueue
  rw [if_neg hcl]
  by_cases hsi : s.limits.maxBytes < eventBytes event
  · exact .inl ⟨hsi, if_pos hsi⟩
  · rw [if_neg hsi]
    right
    cases hd : s.dropped event with
    | none =>
      refine .inl ⟨rfl, ?_⟩
      unfold dropped dropping at hd
      simp only [hd]
    | some d =>
      obtain ⟨hdr, hfi, hev, hro⟩ := drops_of_dropped hs hd
      obtain ⟨hle, hqu, hrec⟩ := recordDrops_size hs hd
      refine .inr ⟨d, rfl, ?_⟩
      unfold dropped dropping at hd
      rw [hfi] at hd
      simp only [hfi, hd, hrec]
      rw [if_neg]
      · simp
      · rw [not_or]
        constructor
        · omega
        · omega

/-! ### The queue stays in order -/

theorem filter_isLossMarker_placeMarker (hm : isLossMarker m = true)
    (hone : (es.filter isLossMarker).length ≤ 1) :
    (placeMarker m es).filter isLossMarker = [m] := by
  cases hfi : es.find? isLossMarker with
  | none =>
    rw [placeMarker_of_find?_none m hfi, filter_append, filter_cons_of_pos hm]
    rw [← head?_filter, head?_eq_none_iff] at hfi
    simp [hfi]
  | some existing =>
    obtain ⟨b, after, hes, hpl, hbe⟩ := placeMarker_of_find?_some m hfi
    have hold : isLossMarker existing = true := List.find?_some hfi
    have haf : after.filter isLossMarker = [] := by
      simpa [hes, hbe, hold] using hone
    simp [hpl, hbe, hm, haf]

theorem filter_isLossMarker_recordDrops (hone : (d.pending.filter isLossMarker).length ≤ 1) :
    (recordDrops (d.pending.find? isLossMarker) d).1.filter isLossMarker =
      (updatedMarker (d.pending.find? isLossMarker) d.dropped).toList := by
  by_cases hdr : d.dropped = []
  · rw [recordDrops_nil _ hdr, hdr, ← head?_filter]
    cases hma : d.pending.filter isLossMarker with
    | nil => rfl
    | cons m rest =>
      obtain rfl : rest = [] := by simpa [hma] using hone
      rfl
  · obtain ⟨e, other, hm⟩ := updatedMarker_of_ne_nil (d.pending.find? isLossMarker) hdr
    rw [recordDrops_some hdr hm, hm]
    exact filter_isLossMarker_placeMarker (isLossMarker_lossMarker e other) hone

theorem filter_not_marker_recordDrops (d : Dropping) :
    (recordDrops (d.pending.find? isLossMarker) d).1.filter (fun e => !isLossMarker e) =
      d.pending.filter fun e => !isLossMarker e := by
  by_cases hdr : d.dropped = []
  · rw [recordDrops_nil _ hdr]
  · obtain ⟨e, other, hm⟩ := updatedMarker_of_ne_nil (d.pending.find? isLossMarker) hdr
    rw [recordDrops_some hdr hm]
    exact filter_not_marker_placeMarker (isLossMarker_lossMarker e other) d.pending

theorem Orderly.shut : s.shut.Orderly := by
  constructor <;> simp [Subscription.shut]

/-- A queue that gave room to an event keeps its limits and has at most one marker. -/
theorem Orderly.enqueue (hs : s.Orderly) (hev : isLossMarker event = false) :
    (s.enqueue event).Orderly := by
  cases hop : s.isOpen with
  | false => rwa [enqueue_of_closed hop]
  | true =>
    rcases enqueue_cases hs hop event with ⟨-, hre⟩ | ⟨-, hre⟩ | ⟨d, hd, hre⟩
    · rw [hre]
      exact .shut
    · rw [hre]
      exact .shut
    · obtain ⟨hdr, -, heve, hro⟩ := drops_of_dropped hs hd
      have hone : (d.pending.filter isLossMarker).length ≤ 1 := by
        rw [hdr.markers]
        exact hs.one_marker
      obtain ⟨hle, hqu, -⟩ := recordDrops_size hs hd
      have hmar := filter_isLossMarker_recordDrops hone
      rw [hre]
      refine ⟨rfl, ?_, ?_, ?_, ?_⟩
      · simp only [length_append, length_singleton]
        omega
      · simp only [queueBytes_append, queueBytes_cons, queueBytes_nil]
        omega
      · rw [filter_append, hmar]
        cases updatedMarker (d.pending.find? isLossMarker) d.dropped <;> simp [hev]
      · intro m hm hma
        rcases mem_append.mp hm with hm | hm
        · have hmem : m ∈ (updatedMarker (d.pending.find? isLossMarker) d.dropped).toList := by
            rw [← hmar]
            exact mem_filter.mpr ⟨hm, hma⟩
          by_cases hdro : d.dropped = []
          · rw [hdro] at hmem
            have hfi : d.pending.find? isLossMarker = some m := by
              simpa [updatedMarker] using hmem
            exact hs.payload m (hdr.kept.subset (mem_of_find?_eq_some hfi)) hma
          · obtain ⟨e, other, hup⟩ :=
              updatedMarker_of_ne_nil (d.pending.find? isLossMarker) hdro
            obtain rfl : lossMarker e other = m := by simpa [hup, eq_comm] using hmem
            exact ⟨_, rfl⟩
        · rw [mem_singleton.mp hm, hev] at hma
          simp at hma

/-! ### When there is room -/

/-- The queue takes the event as it is, or has room for it and a marker once everything
that the event may replace is gone. -/
def HasRoom (s : Subscription) (event : PdcmEvent) : Prop :=
  s.FitsBeside event s.pending false ∨
    s.FitsBeside event (s.pending.filter fun e => !replaceable event e)
      (s.pending.find? isLossMarker).isNone

instance (s : Subscription) (event : PdcmEvent) : Decidable (s.HasRoom event) :=
  inferInstanceAs (Decidable (_ ∨ _))

theorem FitsBeside.mono {es' : List PdcmEvent} {first second : Bool}
    (h : s.FitsBeside event es first) (hsub : es'.Subperm es)
    (hle : second = true → first = true) : s.FitsBeside event es' second := by
  obtain ⟨hev, hro⟩ := h
  have hlen := hsub.length_le
  have hby : queueBytes es' ≤ queueBytes es := by
    obtain ⟨fs, hpe, hsu⟩ := hsub
    rw [queueBytes, ← (hpe.map eventBytes).sum_eq]
    exact (hsu.map eventBytes).sum_le_sum fun _ _ => Nat.zero_le _
  cases second with
  | false => exact ⟨by simp; omega, by simp; omega⟩
  | true =>
    rw [hle rfl] at hev hro
    exact ⟨by omega, by omega⟩

theorem dropped_of_fits (hs : s.Orderly) (h : s.FitsBeside event s.pending false) :
    s.dropped event = some s.dropping := by
  refine dropLoop_fits ?_ _
  rw [exceedsLimits_eq_false hs.bytes]
  exact h.mono (.refl _) (by simp [dropping])

theorem hasRoom_of_dropped (hs : s.Orderly) (h : s.dropped event = some d) : s.HasRoom event := by
  obtain ⟨hdr, hfi, hfit⟩ := drops_of_dropped hs h
  by_cases hno : d.dropped = []
  · have hpe : d.pending.Perm s.pending := by simpa [hno, dropping] using hdr.perm
    exact .inl (hfit.mono hpe.symm.subperm (by simp))
  · refine .inr (hfit.mono ?_ (by simp [hno, hfi]))
    have hot := hdr.others
    rw [dropping] at hot
    rw [← hot]
    exact filter_sublist.subperm

theorem enqueue_isOpen_iff (hs : s.Orderly) (hop : s.isOpen = true) :
    (s.enqueue event).isOpen = true ↔ s.HasRoom event := by
  refine ⟨fun h => ?_, fun hro => ?_⟩
  · rcases enqueue_cases hs hop event with ⟨-, hre⟩ | ⟨-, hre⟩ | ⟨d, hd, -⟩
    · simp [hre, shut, isOpen] at h
    · simp [hre, shut, isOpen] at h
    · exact hasRoom_of_dropped hs hd
  have hsi : eventBytes event ≤ s.limits.maxBytes := by
    rcases hro with hro | hro <;> have := hro.2 <;> omega
  rcases enqueue_cases hs hop event with ⟨hla, -⟩ | ⟨hno, -⟩ | ⟨d, -, hre⟩
  · omega
  · rcases hro with hro | hro
    · exact absurd (hno.symm.trans (dropped_of_fits hs hro)) (by simp)
    · -- a loop that gives up has dropped all it could, and the rest leaves room
      rcases s.dropped_cases event with ⟨d, hd, -⟩ | ⟨r, -, hdr, hexc, hle⟩
      · exact absurd (hno.symm.trans hd) (by simp)
      · have hot : r.pending = s.pending.filter fun e => !replaceable event e := by
          have hall : r.pending.filter (fun e => !replaceable event e) = r.pending := by
            rw [filter_eq_self]
            intro e he
            simpa using List.find?_eq_none.mp hle e he
          rw [← hall, hdr.others]
          rfl
        have hfi : exceedsLimits s.limits event (s.pending.find? isLossMarker) r = false := by
          rw [exceedsLimits_eq_false (hdr.bytes hs.bytes), hot]
          exact hro.mono (.refl _) (by simp +contextual)
        rw [hfi] at hexc
        simp at hexc
  · rw [hre]
    exact hop

/-- For a state change everything but a marker can make room. -/
theorem hasRoom_of_not_metricUpdate (hs : s.Orderly) (hty : event.type ≠ .metricUpdate)
    (hev : 2 ≤ s.limits.maxEvents)
    (hby : eventBytes event + eventBytes (lossMarker event none) ≤ s.limits.maxBytes)
    (hpe : ∀ e ∈ s.pending, isNonDroppable e.type = true → isLossMarker e = true) :
    s.HasRoom event := by
  have hot : (s.pending.filter fun e => !replaceable event e) = s.pending.filter isLossMarker := by
    refine filter_congr fun e he => ?_
    cases hm : isLossMarker e with
    | true =>
      cases hr : replaceable event e with
      | false => rfl
      | true => simp [not_isLossMarker_of_replaceable hr] at hm
    | false =>
      have hdr : isNonDroppable e.type = false := by
        rw [Bool.eq_false_iff]
        intro hn
        simp [hpe e he hn] at hm
      simp [replaceable, hty, droppable, hdr]
  right
  rw [hot, ← head?_filter]
  have hone := hs.one_marker
  cases hma : s.pending.filter isLossMarker with
  | nil =>
    simp only [FitsBeside, queueBytes_nil, head?_nil, Option.isNone_none, if_true]
    exact ⟨hev, by omega⟩
  | cons m rest =>
    obtain rfl : rest = [] := by simpa [hma] using hone
    have hm : m ∈ s.pending ∧ isLossMarker m = true := by
      rw [← mem_filter, hma]
      exact mem_singleton_self m
    have hsi := (hs.payload m hm.1 hm.2).eventBytes_eq event none
    simp only [FitsBeside, queueBytes_cons, queueBytes_nil,
      head?_cons, Option.isNone_some, Bool.false_eq_true, if_false]
    exact ⟨hev, by omega⟩

end Subscription
end Pdcm
