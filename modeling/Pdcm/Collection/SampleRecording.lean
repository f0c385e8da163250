import Pdcm.Collection.WatchManager

/-!
# Counting the samples of watches

`WatchManager::recordSamples`: the scheduled times of a token are counted for each live
watch it names, except those at or before the watch's last counted time. A watch that
reaches its limit is removed, which publishes a new snapshot.
-/

namespace Pdcm

open Library List

namespace WatchManager

variable {first last period : ℤ} {n : ℕ} {w : WatchId} {ids : List WatchId} {m : WatchManager}

/-! ### Sample counting -/

/-- The copies `recordSamples` works on and what it noticed. -/
structure Recording where
  next : OrderedMap WatchId LogicalWatch
  nextCounts : OrderedMap WatchId ℕ
  nextTimes : OrderedMap WatchId ℤ
  foundAny : Bool := false
  changed : Bool := false
  removed : Bool := false

/-- How many of the times `first, first + period, ..` are not after `previous`. -/
def skippedSamples (previous : Option ℤ) (first period : ℤ) : ℕ :=
  match previous with
  | none => 0
  | some previous =>
    if first ≤ previous then ((previous - first) / period).toNat + 1 else 0

/-- The loop body for one watch. -/
def recordWatch (first last period : ℤ) (sampleCount : ℕ) (r : Recording) (id : WatchId) :
    Recording :=
  match r.next.find? id with
  | none => r
  | some watch =>
    let skipped := skippedSamples (r.nextTimes.find? id) first period
    if sampleCount ≤ skipped then { r with foundAny := true }
    else
      let updated := min uint64Max ((r.nextCounts.find? id).getD 0 + (sampleCount - skipped))
      if watch.requirement.sampleLimit ≠ 0 ∧ watch.requirement.sampleLimit ≤ updated then
        { next := r.next.erase id
          nextCounts := r.nextCounts.erase id
          nextTimes := r.nextTimes.erase id
          foundAny := true
          changed := true
          removed := true }
      else
        { r with
          nextCounts := r.nextCounts.insert id updated
          nextTimes := r.nextTimes.insert id last
          foundAny := true
          changed := true }

def recording (m : WatchManager) (watchIds : List WatchId) (first period : ℤ)
    (sampleCount : ℕ) : Recording :=
  (watchIds.insertionSort (· ≤ ·)).foldl
    (recordWatch first (first + period * (sampleCount - 1 : ℕ)) period sampleCount)
    { next := m.logical, nextCounts := m.sampleCounts, nextTimes := m.lastSampleTimes }

/-- The checks made before the lock is taken. -/
def checkToken (watchIds : List WatchId) (first period : ℤ) (sampleCount : ℕ) : Option Status :=
  if watchIds = [] ∨ first < 0 ∨ period ≤ 0 ∨ sampleCount = 0 then
    some ⟨.invalidArgument, "logical sample token arguments are invalid"⟩
  else if ¬watchIds.Nodup then
    some ⟨.invalidArgument, "logical sample token contains duplicate watch IDs"⟩
  else if int64Max / period < (sampleCount - 1 : ℕ) ∨
      int64Max - period * (sampleCount - 1 : ℕ) < first then
    some ⟨.invalidArgument, "logical sample token time range overflows"⟩
  else none

/-- The copies replace the manager's maps; a removed watch is published first. -/
def storeRecording (m : WatchManager) (r : Recording) : WatchManager × Status :=
  if r.removed then
    let published := m.publish r.next
    if published.2.ok then
      ({ published.1 with sampleCounts := r.nextCounts, lastSampleTimes := r.nextTimes }, .success)
    else published
  else ({ m with sampleCounts := r.nextCounts, lastSampleTimes := r.nextTimes }, .success)

def recordSamples (m : WatchManager) (watchIds : List WatchId) (first period : ℤ)
    (sampleCount : ℕ) : WatchManager × Status :=
  match checkToken watchIds first period sampleCount with
  | some status => (m, status)
  | none =>
    let r := m.recording watchIds first period sampleCount
    if r.foundAny = false then
      (m, ⟨.notFound, "logical sample token has no active watches"⟩)
    else if r.changed = false then (m, .success)
    else m.storeRecording r

/-! ### What a recording does to one watch -/

/-- Everything the manager keeps about a watch. -/
def tally (m : WatchManager) (w : WatchId) : Option LogicalWatch × Option ℕ × Option ℤ :=
  (m.logical.find? w, m.sampleCounts.find? w, m.lastSampleTimes.find? w)

def sampleCount (m : WatchManager) (w : WatchId) : ℕ := (m.sampleCounts.find? w).getD 0

def Recording.tally (r : Recording) (w : WatchId) : Option LogicalWatch × Option ℕ × Option ℤ :=
  (r.next.find? w, r.nextCounts.find? w, r.nextTimes.find? w)

variable {r : Recording}

theorem recordWatch_tally_of_ne {id : WatchId} (h : w ≠ id) :
    (recordWatch first last period n r id).tally w = r.tally w := by
  unfold recordWatch
  cases r.next.find? id with
  | none => rfl
  | some watch =>
    dsimp only
    split_ifs with hsk hli
    · rfl
    · simp [Recording.tally, OrderedMap.find?_erase, h]
    · simp [Recording.tally, OrderedMap.find?_insert, h]

theorem foldl_recordWatch_tally (first last period : ℤ) (n : ℕ) (h : w ∉ ids) (r : Recording) :
    (ids.foldl (recordWatch first last period n) r).tally w = r.tally w := by
  induction ids generalizing r with
  | nil => rfl
  | cons id rest ih =>
    obtain ⟨hne, hre⟩ := not_or.mp (mt mem_cons.mpr h)
    rw [foldl_cons, ih hre, recordWatch_tally_of_ne hne]

/-- What the call makes of what is kept about one of its watches. -/
def recordTally (first last period : ℤ) (n : ℕ) :
    Option LogicalWatch × Option ℕ × Option ℤ → Option LogicalWatch × Option ℕ × Option ℤ
  | (none, count, time) => (none, count, time)
  | (some watch, count, time) =>
    let skipped := skippedSamples time first period
    if n ≤ skipped then (some watch, count, time)
    else
      let updated := min uint64Max (count.getD 0 + (n - skipped))
      if watch.requirement.sampleLimit ≠ 0 ∧ watch.requirement.sampleLimit ≤ updated then
        (none, none, none)
      else (some watch, some updated, some last)

theorem recordTally_new (hn : 0 < n) {watch : LogicalWatch} {count : Option ℕ} {time : Option ℤ}
    (hnew : ∀ t ∈ time, t < first) :
    recordTally first last period n (some watch, count, time) =
      if watch.requirement.sampleLimit ≠ 0 ∧
          watch.requirement.sampleLimit ≤ min uint64Max (count.getD 0 + n) then
        (none, none, none)
      else (some watch, some (min uint64Max (count.getD 0 + n)), some last) := by
  have hsk : skippedSamples time first period = 0 := by
    cases time with
    | none => rfl
    | some t => simp [skippedSamples, hnew t rfl]
  simp only [recordTally, hsk, Nat.sub_zero, if_neg (not_le.mpr hn)]

theorem recordWatch_tally_self (first last period : ℤ) (n : ℕ) (r : Recording) (w : WatchId) :
    (recordWatch first last period n r w).tally w =
      recordTally first last period n (r.tally w) := by
  unfold recordWatch Recording.tally
  cases hli : r.next.find? w with
  | none => simp [recordTally, hli]
  | some watch =>
    simp only [recordTally]
    split_ifs with hsk hlim
    · simp [hli]
    · simp [OrderedMap.find?_erase]
    · simp [hli]

theorem recording_tally_of_notMem (hw : w ∉ ids) :
    (m.recording ids first period n).tally w = m.tally w :=
  foldl_recordWatch_tally _ _ _ _ (mt (perm_insertionSort (· ≤ ·) ids).mem_iff.mp hw) _

theorem recording_tally_of_mem (hids : ids.Nodup) (hw : w ∈ ids) :
    (m.recording ids first period n).tally w =
      recordTally first (first + period * (n - 1 : ℕ)) period n (m.tally w) := by
  have hpe := perm_insertionSort (· ≤ ·) ids
  obtain ⟨before, after, hsp⟩ := append_of_mem (hpe.mem_iff.mpr hw)
  have hno := hpe.nodup_iff.mpr hids
  rw [hsp, nodup_append] at hno
  have hbe : w ∉ before := fun h => hno.2.2 w h w mem_cons_self rfl
  have haf : w ∉ after := (nodup_cons.mp hno.2.1).1
  rw [recording, hsp, foldl_append, foldl_cons, foldl_recordWatch_tally _ _ _ _ haf,
    recordWatch_tally_self]
  -- the watch is still as it was when the loop reaches it
  rw [foldl_recordWatch_tally _ _ _ _ hbe]
  rfl

/-- What a loop of recordings keeps: watches are only removed, and the flags say if nothing was
removed or changed. -/
structure Recording.Keeps (r r' : Recording) : Prop where
  sublist : r'.next.entries.Sublist r.next.entries
  next : r'.removed = false → r.removed = false ∧ r'.next = r.next
  unchanged : r'.changed = false → r.changed = false ∧ r'.tally = r.tally

theorem recordWatch_keeps (r : Recording) (id : WatchId) :
    r.Keeps (recordWatch first last period n r id) := by
  unfold recordWatch
  cases r.next.find? id with
  | none => exact ⟨.refl _, fun h => ⟨h, rfl⟩, fun h => ⟨h, rfl⟩⟩
  | some watch =>
    dsimp only
    split_ifs
    · exact ⟨.refl _, fun h => ⟨h, rfl⟩, fun h => ⟨h, rfl⟩⟩
    · exact ⟨filter_sublist, by simp, by simp⟩
    · exact ⟨.refl _, fun h => ⟨h, rfl⟩, by simp⟩

theorem foldl_recordWatch_keeps (ids : List WatchId) (r : Recording) :
    r.Keeps (ids.foldl (recordWatch first last period n) r) := by
  induction ids generalizing r with
  | nil => exact ⟨.refl _, fun h => ⟨h, rfl⟩, fun h => ⟨h, rfl⟩⟩
  | cons id rest ih =>
    have hst : r.Keeps (recordWatch first last period n r id) := recordWatch_keeps r id
    obtain ⟨hsu, hne, hun⟩ := ih (recordWatch first last period n r id)
    refine ⟨hsu.trans hst.sublist, fun h => ?_, fun h => ?_⟩
    · obtain ⟨hrem, heq⟩ := hst.next (hne h).1
      exact ⟨hrem, (hne h).2.trans heq⟩
    · obtain ⟨hch, heq⟩ := hst.unchanged (hun h).1
      exact ⟨hch, (hun h).2.trans heq⟩

theorem recordSamples_cases (m : WatchManager) (ids : List WatchId) (first period : ℤ) (n : ℕ) :
    ((m.recordSamples ids first period n).1 = m ∧
      (m.recordSamples ids first period n).2.ok = false) ∨
    ((m.recordSamples ids first period n).2 = .success ∧
      checkToken ids first period n = none ∧
      ∀ w, (m.recordSamples ids first period n).1.tally w =
        (m.recording ids first period n).tally w) := by
  unfold recordSamples
  cases hch : checkToken ids first period n with
  | some st =>
    refine .inl ⟨rfl, ?_⟩
    unfold checkToken at hch
    split_ifs at hch <;> (cases hch; rfl)
  | none =>
    dsimp only
    split_ifs with hfo hcha
    · exact .inl ⟨rfl, rfl⟩
    · refine .inr ⟨rfl, rfl, fun w => ?_⟩
      exact congrFun ((foldl_recordWatch_keeps _ _).unchanged hcha).2.symm w
    · unfold storeRecording
      split_ifs with hrem
      · obtain ⟨-, heq⟩ | ⟨-, hm, hfa⟩ := m.publish_eq (m.recording ids first period n).next
        · exact .inr (by simp [heq, tally, Recording.tally, published])
        · exact .inl (by simp [hm, hfa])
      · have hke : (m.recording ids first period n).next = m.logical :=
          ((foldl_recordWatch_keeps _ _).next (Bool.eq_false_iff.mpr hrem)).2
        exact .inr ⟨rfl, rfl, fun w => by simp [tally, Recording.tally, hke]⟩

theorem foldl_recordWatch_foundAny (h : r.foundAny = true ∨ w ∈ ids ∧ (r.next.find? w).isSome) :
    (ids.foldl (recordWatch first last period n) r).foundAny = true := by
  induction ids generalizing r with
  | nil => simpa using h
  | cons id rest ih =>
    apply ih
    have hfa : (recordWatch first last period n r id).foundAny =
        (r.foundAny || (r.next.find? id).isSome) := by
      unfold recordWatch
      cases r.next.find? id with
      | none => simp
      | some watch =>
        dsimp only
        split_ifs <;> simp
    rw [hfa]
    rcases h with hfo | ⟨hw, hli⟩
    · exact .inl (by simp [hfo])
    · by_cases hid : w = id
      · exact .inl (by simp [← hid, hli])
      · have hne : (recordWatch first last period n r id).next.find? w = r.next.find? w :=
          congrArg Prod.fst (recordWatch_tally_of_ne hid)
        rw [hne]
        exact .inr ⟨(mem_cons.mp hw).resolve_left hid, hli⟩

/-- A token that passes its checks and names a live watch is accepted. -/
theorem recordSamples_success (hch : checkToken ids first period n = none)
    (hli : m.WithinLimits) (hver : m.snapshot.version ≠ uint64Max) (hw : w ∈ ids)
    (hliv : (m.logical.find? w).isSome) : (m.recordSamples ids first period n).2 = .success := by
  have hfo : (m.recording ids first period n).foundAny = true :=
    foldl_recordWatch_foundAny (.inr ⟨(perm_insertionSort (· ≤ ·) ids).mem_iff.mpr hw, hliv⟩)
  have hsub : (m.recording ids first period n).next.entries.Sublist m.logical.entries :=
    (foldl_recordWatch_keeps _ _).sublist
  have hpub := publish_of_publishable (publishable_of_sublist hli hver hsub)
  rw [recordSamples, hch]
  simp only [hfo, Bool.true_eq_false, if_false]
  split_ifs
  · rfl
  · unfold storeRecording
    split_ifs
    · simp [hpub]
    · rfl

theorem recordSamples_withinLimits (h : m.WithinLimits) (ids : List WatchId) (first period : ℤ)
    (n : ℕ) : (m.recordSamples ids first period n).1.WithinLimits := by
  unfold recordSamples
  cases checkToken ids first period n with
  | some st => exact h
  | none =>
    dsimp only
    split_ifs
    · exact h
    · exact h
    · have hpub := publish_withinLimits h (m.recording ids first period n).next
      unfold storeRecording
      dsimp only
      split_ifs
      · exact ⟨hpub.logical_le, hpub.effective_le⟩
      · exact hpub
      · exact ⟨h.logical_le, h.effective_le⟩

theorem checkToken_nodup (h : checkToken ids first period n = none) : ids.Nodup := by
  unfold checkToken at h
  split_ifs at h with h1 h2 h3
  exact h2

theorem checkToken_of_range (hids : ids ≠ []) (hno : ids.Nodup) (hfi : 0 ≤ first)
    (hpe : 0 < period) (hn : 0 < n) (hla : first + period * (n - 1 : ℕ) ≤ int64Max) :
    checkToken ids first period n = none := by
  have hde : ((n - 1 : ℕ) : ℤ) ≤ int64Max / period := by
    rw [Int.le_ediv_iff_mul_le hpe]
    linarith
  rw [checkToken, if_neg, if_neg (not_not.mpr hno), if_neg]
  · rintro (h | h) <;> linarith
  · rintro (h | h | h | h)
    · exact hids h
    · linarith
    · linarith
    · omega

theorem recordSamples_tally_of_notMem (hw : w ∉ ids) :
    (m.recordSamples ids first period n).1.tally w = m.tally w := by
  obtain ⟨hm, -⟩ | ⟨-, -, hta⟩ := m.recordSamples_cases ids first period n
  · rw [hm]
  · rw [hta, recording_tally_of_notMem hw]

theorem recordSamples_tally_of_mem (hok : (m.recordSamples ids first period n).2.ok = true)
    (hw : w ∈ ids) :
    (m.recordSamples ids first period n).1.tally w =
      recordTally first (first + period * (n - 1 : ℕ)) period n (m.tally w) := by
  obtain ⟨-, hfa⟩ | ⟨-, hch, hta⟩ := m.recordSamples_cases ids first period n
  · simp [hfa] at hok
  · rw [hta, recording_tally_of_mem (checkToken_nodup hch) hw]

theorem recordSamples_find?_none (h : m.logical.find? w = none) (ids : List WatchId)
    (first period : ℤ) (n : ℕ) : (m.recordSamples ids first period n).1.logical.find? w = none := by
  obtain ⟨hm, -⟩ | ⟨-, hch, hta⟩ := m.recordSamples_cases ids first period n
  · rw [hm]
    exact h
  · have hlog := congrArg Prod.fst (hta w)
    by_cases hw : w ∈ ids
    · have hgo : m.tally w = (none, m.sampleCounts.find? w, m.lastSampleTimes.find? w) := by
        rw [tally, h]
      rw [recording_tally_of_mem (checkToken_nodup hch) hw, hgo] at hlog
      exact hlog
    · rw [recording_tally_of_notMem hw] at hlog
      exact hlog.trans h

end WatchManager
end Pdcm
