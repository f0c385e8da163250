import Pdcm.Data.DataManager

/-!
# Committing an observation batch

`DataManager::commit`. A batch is checked as a whole, staged into a copy of the
shards, trimmed per key and then evicted globally until the byte limit holds; only
then are the shards swapped and the epoch advanced. The lemmas follow the same
order: what the checks establish, what staging writes and leaves alone, what
eviction can take away, and from these the two outcomes of the whole call.
-/

namespace Pdcm

open Library List

structure DataCommitResult where
  status : Status := {}
  commitEpoch : ℕ := 0
  committedItems : ℕ := 0
  deriving DecidableEq, Repr

/-! ### Recording one sample in an entry -/

/-- The two `while` loops that bound a history: first by count, then by age relative
to the new sample. -/
def trimHistory (L : Limits) (sample : Observation) (history : List Observation) :
    List Observation :=
  (history.drop (history.length - L.maxHistorySamplesPerKey)).dropWhile fun front =>
    decide (L.maxHistoryDurationNs < sample.observedMonotonicTimeNs - front.observedMonotonicTimeNs)

def Entry.record (L : Limits) (e : Entry) (o : Observation) : Entry :=
  if o.status = .valid then
    { latest := some o, lastValid := some o, history := trimHistory L o (e.history ++ [o]) }
  else { e with latest := some o }

theorem trimHistory_suffix (L : Limits) (o : Observation) (h : List Observation) :
    trimHistory L o h <:+ h :=
  (dropWhile_suffix _).trans (drop_suffix _ _)

@[simp] theorem Entry.record_latest (L : Limits) (e : Entry) (o : Observation) :
    (e.record L o).latest = some o := by
  unfold record
  split_ifs <;> rfl

namespace DataManager

variable {L : Limits} {s : DataManager L} {o : Observation} {obs : List Observation} {epoch : ℕ}
  {staged staged' : Shards L} {seen : List DataKey} {i : Fin L.shardCount}

/-! ### Checking the batch -/

/-- The checks of the validation loop on one observation, after the key turned out
to be new. -/
def checkObservation (s : DataManager L) (o : Observation) : Option Status :=
  if o.commitEpoch ≠ 0 ∨ o.catalogGeneration ≠ s.catalog.generation ∨ o.status = .stale then
    some ⟨.staleGeneration, "observation generation or epoch is invalid"⟩
  else if o.entity ∉ s.catalog.entities then
    some ⟨.staleGeneration, "observation entity is stale"⟩
  else
    match s.catalog.metrics.find? o.metric with
    | none => some ⟨.unsupported, "observation metric is unknown"⟩
    | some descriptor =>
      if ¬(validateObservation o).ok ∨ o.metricSemanticVersion ≠ descriptor.semanticVersion ∨
          (∃ value ∈ o.value, valueMatches descriptor value = false) ∨
          (∃ value ∈ o.value, L.maxValueBytes < valueBytes value) then
        some ⟨.invalidArgument, "observation does not match metric contract"⟩
      else none

def checkBatch (s : DataManager L) (uniqueKeys : List DataKey) : List Observation → Option Status
  | [] => none
  | o :: rest =>
    if o.key ∈ uniqueKeys then some ⟨.invalidArgument, "duplicate observation key"⟩
    else
      match s.checkObservation o with
      | some status => some status
      | none => s.checkBatch (o.key :: uniqueKeys) rest

/-- What a checked observation satisfies. -/
structure Accepted (s : DataManager L) (o : Observation) : Prop where
  generation : o.catalogGeneration = s.catalog.generation
  notStale : o.status ≠ .stale
  entity : o.entity ∈ s.catalog.entities
  metric : (s.catalog.metrics.find? o.metric).isSome
  valid : (validateObservation o).ok = true
  fits : ∀ value ∈ o.value, valueBytes value ≤ L.maxValueBytes

theorem accepted_of_check (h : s.checkObservation o = none) : s.Accepted o := by
  unfold checkObservation at h
  split_ifs at h with h1 h2
  push Not at h1
  cases hm : s.catalog.metrics.find? o.metric with
  | none => simp [hm] at h
  | some desc =>
    simp only [hm] at h
    split_ifs at h with h3
    push Not at h3
    exact ⟨h1.2.1, h1.2.2, h2, by simp [hm], h3.1, h3.2.2.2⟩

/-- A rejected batch reports neither success nor a partial result. -/
def Failure (status : Status) : Prop := status.code ≠ .success ∧ status.code ≠ .partialResult

theorem checkObservation_failure {status : Status} (h : s.checkObservation o = some status) :
    Failure status := by
  unfold checkObservation at h
  split_ifs at h with h1 h2
  · cases h; exact ⟨by simp, by simp⟩
  · split at h
    · cases h; exact ⟨by simp, by simp⟩
    · split_ifs at h
      cases h; exact ⟨by simp, by simp⟩
  · cases h; exact ⟨by simp, by simp⟩

theorem checkBatch_failure {status : Status} (h : s.checkBatch seen obs = some status) :
    Failure status := by
  induction obs generalizing seen with
  | nil => simp [checkBatch] at h
  | cons o rest ih =>
    rw [checkBatch] at h
    split_ifs at h with hse
    · cases h; exact ⟨by simp, by simp⟩
    · cases ho : s.checkObservation o with
      | some st =>
        simp only [ho, Option.some.injEq] at h
        exact h ▸ checkObservation_failure ho
      | none => exact ih (by simpa only [ho] using h)

theorem checkBatch_eq_none : s.checkBatch seen obs = none ↔
    (∀ o ∈ obs, s.checkObservation o = none ∧ o.key ∉ seen) ∧ (obs.map Observation.key).Nodup := by
  induction obs generalizing seen with
  | nil => simp [checkBatch]
  | cons o rest ih =>
    rw [checkBatch, forall_mem_cons, map_cons]
    by_cases hse : o.key ∈ seen
    · simp [hse]
    cases ho : s.checkObservation o with
    | some st => simp [hse]
    | none =>
      grind

/-! ### Staging -/

/-- The staging loop body. Reading `staged[i][key]` creates a missing entry. -/
def stage (epoch : ℕ) (staged : Shards L) (observation : Observation) : Except Status (Shards L) :=
  let o := observation.stamped epoch
  let i := shardIndex L o.key
  let entry := (staged.find? i o.key).getD {}
  if ∃ latest ∈ entry.latest, o.observedMonotonicTimeNs < latest.observedMonotonicTimeNs then
    .error ⟨.invalidArgument, "observation time moved backward"⟩
  else .ok (staged.insert i o.key (entry.record L o))

/-- Staging one observation writes its entry and leaves every other one alone. -/
theorem stage_find? (h : stage epoch staged o = .ok staged') (i : Fin L.shardCount) (k : DataKey) :
    staged'.find? i k =
      if i = shardIndex L o.key ∧ k = o.key then
        some (((staged.find? i k).getD {}).record L (o.stamped epoch))
      else staged.find? i k := by
  unfold stage at h
  dsimp only at h
  split_ifs at h with hba
  cases h
  rw [ShardedMap.find?_insert, Observation.stamped_key]
  by_cases hpl : i = shardIndex L o.key ∧ k = o.key
  · obtain ⟨rfl, rfl⟩ := hpl
    rfl
  · rw [if_neg hpl, if_neg hpl]

def timeBackward : Status := ⟨.invalidArgument, "observation time moved backward"⟩

def stageAll (epoch : ℕ) (staged : Shards L) (observations : List Observation) :
    Except Status (Shards L) :=
  observations.foldlM (stage epoch) staged

theorem stageAll_cons {rest : List Observation} :
    stageAll epoch staged (o :: rest) =
      (stage epoch staged o).bind fun next => stageAll epoch next rest := rfl

theorem stageAll_error {status : Status} (h : stageAll epoch staged obs = .error status) :
    status = timeBackward := by
  induction obs generalizing staged with
  | nil => cases h
  | cons o rest ih =>
    rw [stageAll_cons] at h
    cases hs : stage epoch staged o with
    | error st =>
      rw [hs] at h
      cases h
      unfold stage at hs
      dsimp only at hs
      split_ifs at hs
      cases hs
      rfl
    | ok next =>
      rw [hs] at h
      exact ih h

/-- An entry whose place no observation of the batch writes is untouched. -/
theorem stageAll_frame (h : stageAll epoch staged obs = .ok staged') {k : DataKey}
    (hk : ¬(i = shardIndex L k ∧ k ∈ obs.map Observation.key)) :
    staged'.find? i k = staged.find? i k := by
  induction obs generalizing staged with
  | nil => cases h; rfl
  | cons o rest ih =>
    rw [stageAll_cons] at h
    cases hs : stage epoch staged o with
    | error st => rw [hs] at h; cases h
    | ok next =>
      rw [hs] at h
      rw [ih h fun ⟨hi, hmem⟩ => hk ⟨hi, mem_cons_of_mem _ hmem⟩, stage_find? hs,
        if_neg fun ⟨hi, he⟩ => hk ⟨he ▸ hi, by simp [he]⟩]

/-- With distinct keys, each observation is recorded in the entry its key had before
the batch, and its time does not go back behind that entry's latest one. -/
theorem stageAll_written (h : stageAll epoch staged obs = .ok staged')
    (hno : (obs.map Observation.key).Nodup) (ho : o ∈ obs) :
    staged'.find? (shardIndex L o.key) o.key =
        some (((staged.find? (shardIndex L o.key) o.key).getD {}).record L (o.stamped epoch)) ∧
      ∀ e l, staged.find? (shardIndex L o.key) o.key = some e → e.latest = some l →
        l.observedMonotonicTimeNs ≤ o.observedMonotonicTimeNs := by
  induction obs generalizing staged with
  | nil => simp at ho
  | cons p rest ih =>
    rw [map_cons, nodup_cons] at hno
    rw [stageAll_cons] at h
    cases hs : stage epoch staged p with
    | error st => rw [hs] at h; cases h
    | ok next =>
      rw [hs] at h
      rcases mem_cons.mp ho with rfl | hre
      · constructor
        · rw [stageAll_frame h fun hk => hno.1 hk.2, stage_find? hs, if_pos ⟨rfl, rfl⟩]
        · intro e l he hl
          unfold stage at hs
          dsimp only at hs
          split_ifs at hs with hba
          push Not at hba
          exact hba l (by simp [he, hl])
      · have hne : o.key ≠ p.key := fun he =>
          hno.1 (he ▸ mem_map_of_mem hre)
        have hbe : next.find? (shardIndex L o.key) o.key =
            staged.find? (shardIndex L o.key) o.key := by
          rw [stage_find? hs, if_neg fun hk => hne hk.2]
        rw [← hbe]
        exact ih h hno.2 hre

/-! ### Global eviction -/

/-- The scan for the oldest front sample. Only a strictly older one replaces the
candidate, so ties go to the first entry in shard and key order. -/
def older (best : ℤ × Option (Fin L.shardCount × DataKey × Observation))
    (b : Fin L.shardCount × DataKey × Entry) :
    ℤ × Option (Fin L.shardCount × DataKey × Observation) :=
  match b.2.2.history with
  | [] => best
  | front :: _ =>
    if front.observedMonotonicTimeNs < best.1 then
      (front.observedMonotonicTimeNs, some (b.1, b.2.1, front))
    else best

def oldestEntry (staged : Shards L) : Option (Fin L.shardCount × DataKey × Observation) :=
  (staged.bindings.foldl older (int64Max, none)).2

def popHistory (e : Entry) : Entry := { e with history := e.history.tail }

/-- The eviction loop; the fuel bounds the number of samples it can pop. -/
def evictLoop : ℕ → Shards L → ℕ → Shards L × ℕ
  | 0, staged, totalBytes => (staged, totalBytes)
  | fuel + 1, staged, totalBytes =>
    if L.maxTotalBytes < totalBytes then
      match oldestEntry staged with
      | none => (staged, totalBytes)
      | some (i, key, front) =>
        evictLoop fuel (staged.modify i key popHistory) (totalBytes - observationBytes front)
    else (staged, totalBytes)

def historyLength (e : Entry) : ℕ := e.history.length

def evict (staged : Shards L) : Shards L × ℕ :=
  evictLoop (staged.total historyLength) staged (staged.total entryBytes)

/-- Where the scan stands after the bindings `bs`: its candidate is the front of one of their
histories, and no front of theirs is older. -/
structure Scanned (bs : List (Fin L.shardCount × DataKey × Entry))
    (best : ℤ × Option (Fin L.shardCount × DataKey × Observation)) : Prop where
  start : best.2 = none → best.1 = int64Max
  found : ∀ i k front, best.2 = some (i, k, front) → best.1 = front.observedMonotonicTimeNs ∧
    ∃ e rest, (i, k, e) ∈ bs ∧ e.history = front :: rest
  least : ∀ b ∈ bs, ∀ front ∈ b.2.2.history.head?, best.1 ≤ front.observedMonotonicTimeNs

theorem Scanned.older {bs : List (Fin L.shardCount × DataKey × Entry)}
    {best : ℤ × Option (Fin L.shardCount × DataKey × Observation)} (h : Scanned bs best)
    (b : Fin L.shardCount × DataKey × Entry) : Scanned (bs ++ [b]) (older best b) := by
  have hfo : ∀ i k front, best.2 = some (i, k, front) →
      best.1 = front.observedMonotonicTimeNs ∧
        ∃ e rest, (i, k, e) ∈ bs ++ [b] ∧ e.history = front :: rest := by
    intro i k front hbe
    obtain ⟨hti, e, rest, hmem, hh⟩ := h.found i k front hbe
    exact ⟨hti, e, rest, mem_append_left _ hmem, hh⟩
  unfold DataManager.older
  split
  · rename_i hh
    refine ⟨h.start, hfo, ?_⟩
    rw [forall_mem_append]
    exact ⟨h.least, by simp [hh]⟩
  · rename_i front rest hh
    split_ifs with hlt
    · refine ⟨by simp, ?_, ?_⟩
      · rintro i k f ⟨⟩
        exact ⟨rfl, b.2.2, rest, by simp, hh⟩
      · rw [forall_mem_append]
        exact ⟨fun c hc f hf => hlt.le.trans (h.least c hc f hf), by simp [hh]⟩
    · refine ⟨h.start, hfo, ?_⟩
      rw [forall_mem_append]
      exact ⟨h.least, by simpa [hh] using hlt⟩

theorem scanned (bs : List (Fin L.shardCount × DataKey × Entry)) :
    Scanned bs (bs.foldl older (int64Max, none)) := by
  induction bs using reverseRecOn with
  | nil => exact ⟨fun _ => rfl, by simp, by simp⟩
  | append_singleton bs b ih =>
    rw [foldl_append]
    exact ih.older b

theorem oldestEntry_some {k : DataKey} {front : Observation}
    (h : oldestEntry staged = some (i, k, front)) :
    ∃ e rest, staged.find? i k = some e ∧ e.history = front :: rest := by
  obtain ⟨-, e, rest, hmem, hh⟩ := (scanned staged.bindings).found i k front h
  exact ⟨e, rest, ShardedMap.mem_bindings.mp hmem, hh⟩

/-- What eviction may do to an entry: drop the oldest part of its history. -/
structure TrimmedTo (before after : Entry) : Prop where
  latest : after.latest = before.latest
  lastValid : after.lastValid = before.lastValid
  history : after.history <:+ before.history

theorem TrimmedTo.refl (e : Entry) : TrimmedTo e e := ⟨rfl, rfl, suffix_refl _⟩

theorem TrimmedTo.trans {a b c : Entry} (h : TrimmedTo a b) (h' : TrimmedTo b c) : TrimmedTo a c :=
  ⟨h'.latest.trans h.latest, h'.lastValid.trans h.lastValid, h'.history.trans h.history⟩

/-- The same places are bound, to entries that only lost old history. -/
def Trimmed (before after : Option Entry) : Prop := Option.Rel TrimmedTo before after

theorem Trimmed.refl : ∀ e : Option Entry, Trimmed e e
  | none => .none
  | some e => .some (TrimmedTo.refl e)

theorem Trimmed.trans {a b c : Option Entry} (h : Trimmed a b) (h' : Trimmed b c) :
    Trimmed a c := by
  cases h with
  | none => exact h'
  | some h =>
    cases h' with
    | some h' => exact .some (h.trans h')

theorem Trimmed.of_some {e : Entry} {after : Option Entry} (h : Trimmed (some e) after) :
    ∃ e', after = some e' ∧ TrimmedTo e e' := by
  cases h with
  | some h => exact ⟨_, rfl, h⟩

theorem Trimmed.to_some {e' : Entry} {b : Option Entry} (h : Trimmed b (some e')) :
    ∃ e, b = some e ∧ TrimmedTo e e' := by
  cases h with
  | some h => exact ⟨_, rfl, h⟩

theorem evictLoop_invariant {I : Shards L → ℕ → Prop}
    (hpop : ∀ staged bytes i key front, I staged bytes →
      oldestEntry staged = some (i, key, front) →
        I (staged.modify i key popHistory) (bytes - observationBytes front)) (fuel : ℕ) {bytes : ℕ}
    (h : I staged bytes) : I (evictLoop fuel staged bytes).1 (evictLoop fuel staged bytes).2 := by
  induction fuel generalizing staged bytes with
  | zero => exact h
  | succ fuel ih =>
    rw [evictLoop]
    split_ifs with hfu
    · cases ho : oldestEntry staged with
      | none => exact h
      | some found =>
        obtain ⟨i, key, front⟩ := found
        exact ih (hpop staged bytes i key front h ho)
    · exact h

/-- The fuel `evict` supplies is enough: the loop ends because the bytes fit or
because no history is left to pop. -/
theorem evictLoop_settled (fuel : ℕ) (staged : Shards L) (bytes : ℕ)
    (hfue : staged.total historyLength ≤ fuel) :
    (evictLoop fuel staged bytes).2 ≤ L.maxTotalBytes ∨
      oldestEntry (evictLoop fuel staged bytes).1 = none := by
  -- popping the front of a non-empty history takes exactly one sample away
  have hpop : ∀ {m : Shards L} {i k front}, oldestEntry m = some (i, k, front) →
      (m.modify i k popHistory).total historyLength + 1 = m.total historyLength := by
    intro m i k front ho
    obtain ⟨e, rest, he, hh⟩ := oldestEntry_some ho
    have hto := ShardedMap.total_modify historyLength popHistory he
    simp only [historyLength, popHistory, hh, length_cons, tail_cons] at hto ⊢
    omega
  induction fuel generalizing staged bytes with
  | zero =>
    right
    rw [evictLoop]
    cases ho : oldestEntry staged with
    | none => rfl
    | some found =>
      have := hpop ho
      omega
  | succ fuel ih =>
    rw [evictLoop]
    split_ifs with hfu
    · cases ho : oldestEntry staged with
      | none => exact .inr ho
      | some found =>
        have := hpop ho
        exact ih _ _ (by omega)
    · exact .inl (not_lt.mp hfu)

/-! ### The whole commit -/

def metricUpdateDraft (epoch : ℕ) (o : Observation) : EventDraft where
  type := .metricUpdate
  severity := if o.status = .valid then .info else .warning
  entity := some o.entity
  metric := some o.metric
  occurrenceTimeNs := o.observedMonotonicTimeNs
  catalogGeneration := o.catalogGeneration
  payload := .metricUpdate ⟨o.status, epoch⟩

def batchStatus (observations : List Observation) : Status :=
  if observations.any fun o => decide (o.status ≠ .valid) then
    ⟨.partialResult, "observation batch contains failed items"⟩
  else .success

theorem batchStatus_not_failure (obs : List Observation) : ¬Failure (batchStatus obs) := by
  unfold batchStatus
  split_ifs <;> simp [Failure]

def commitLocked (s : DataManager L) (observations : List Observation) :
    DataManager L × DataCommitResult × List EventDraft :=
  if observations = [] then
    (s, { status := ⟨.invalidArgument, "observation batch is empty"⟩ }, [])
  else if s.catalog.generation = 0 then
    (s, { status := ⟨.notInitialized, "data catalog is not active"⟩ }, [])
  else if s.catalog.topologyUnsupported then
    (s, { status := ⟨.unsupported, "data commit rejects multi-device P0"⟩ }, [])
  else if s.commitEpoch = uint64Max then
    (s, { status := ⟨.internal, "data commit epoch overflow"⟩ }, [])
  else
    match s.checkBatch [] observations with
    | some status => (s, { status := status }, [])
    | none =>
      let nextEpoch := s.commitEpoch + 1
      match stageAll nextEpoch s.shards observations with
      | .error status => (s, { status := status }, [])
      | .ok staged =>
        if L.maxKeys < staged.size then
          (s, { status := ⟨.resourceExhausted, "data key limit exceeded"⟩ }, [])
        else
          let evicted := evict staged
          if L.maxTotalBytes < evicted.2 then
            (s, { status := ⟨.resourceExhausted, "data byte limit exceeded"⟩ }, [])
          else
            ({ s with shards := evicted.1, commitEpoch := nextEpoch },
              { status := batchStatus observations
                commitEpoch := nextEpoch
                committedItems := observations.length },
              observations.map (metricUpdateDraft nextEpoch))

def commit (s : DataManager L) (observations : List Observation) :
    DataManager L × DataCommitResult :=
  let locked := s.commitLocked observations
  (locked.1.publishAll locked.2.2, locked.2.1)

/-- Why a batch is refused before anything is staged. -/
def refusal (s : DataManager L) (observations : List Observation) : Option Status :=
  if observations = [] then some ⟨.invalidArgument, "observation batch is empty"⟩
  else if s.catalog.generation = 0 then
    some ⟨.notInitialized, "data catalog is not active"⟩
  else if s.catalog.topologyUnsupported then
    some ⟨.unsupported, "data commit rejects multi-device P0"⟩
  else if s.commitEpoch = uint64Max then some ⟨.internal, "data commit epoch overflow"⟩
  else s.checkBatch [] observations

def keyLimit : Status := ⟨.resourceExhausted, "data key limit exceeded"⟩

def byteLimit : Status := ⟨.resourceExhausted, "data byte limit exceeded"⟩

theorem refusal_failure {status : Status} (h : s.refusal obs = some status) : Failure status := by
  unfold refusal at h
  split_ifs at h
  any_goals
    cases h
    exact ⟨by simp, by simp⟩
  exact checkBatch_failure h

theorem refusal_eq_none : s.refusal obs = none ↔
    obs ≠ [] ∧ s.catalog.generation ≠ 0 ∧ s.catalog.topologyUnsupported = false ∧
      s.commitEpoch ≠ uint64Max ∧ s.checkBatch [] obs = none := by
  unfold refusal
  split_ifs <;> simp_all

/-- What a batch leaves that nothing refuses. -/
def committed (s : DataManager L) (obs : List Observation) (shards : Shards L) :
    DataManager L × DataCommitResult × List EventDraft :=
  ({ s with shards := shards, commitEpoch := s.commitEpoch + 1 },
    { status := batchStatus obs
      commitEpoch := s.commitEpoch + 1
      committedItems := obs.length },
    obs.map (metricUpdateDraft (s.commitEpoch + 1)))

theorem commitLocked_eq (s : DataManager L) (obs : List Observation) :
    s.commitLocked obs =
      match s.refusal obs with
      | some status => (s, { status := status }, [])
      | none =>
        match stageAll (s.commitEpoch + 1) s.shards obs with
        | .error status => (s, { status := status }, [])
        | .ok staged =>
          if L.maxKeys < staged.size then (s, { status := keyLimit }, [])
          else if L.maxTotalBytes < (evict staged).2 then (s, { status := byteLimit }, [])
          else s.committed obs (evict staged).1 := by
  unfold commitLocked refusal
  split_ifs
  · rfl
  · rfl
  · rfl
  · rfl
  · rfl

/-- The batch passes the validation, the time order and the key limit. -/
structure Passes (s : DataManager L) (obs : List Observation) (staged : Shards L) : Prop where
  unrefused : s.refusal obs = none
  staged_eq : stageAll (s.commitEpoch + 1) s.shards obs = .ok staged
  keys : staged.size ≤ L.maxKeys

theorem Passes.commitLocked (h : s.Passes obs staged) :
    s.commitLocked obs =
      if L.maxTotalBytes < (evict staged).2 then (s, { status := byteLimit }, [])
      else s.committed obs (evict staged).1 := by
  rw [commitLocked_eq, h.unrefused]
  simp only [h.staged_eq, if_neg h.keys.not_gt]

theorem Passes.check (h : s.Passes obs staged) :
    (∀ o ∈ obs, s.checkObservation o = none ∧ o.key ∉ []) ∧ (obs.map Observation.key).Nodup :=
  checkBatch_eq_none.mp (refusal_eq_none.mp h.unrefused).2.2.2.2

/-- A failure changes nothing and publishes nothing; otherwise the batch passes, and the bytes
fit after the eviction. -/
theorem commitLocked_passes (s : DataManager L) (obs : List Observation) :
    (∃ status, Failure status ∧ s.commitLocked obs = (s, { status := status }, [])) ∨
      ∃ staged, s.Passes obs staged ∧ (evict staged).2 ≤ L.maxTotalBytes ∧
        s.commitLocked obs = s.committed obs (evict staged).1 := by
  cases hre : s.refusal obs with
  | some status => exact .inl ⟨status, refusal_failure hre, by rw [commitLocked_eq, hre]⟩
  | none =>
    cases hst : stageAll (s.commitEpoch + 1) s.shards obs with
    | error status =>
      refine .inl ⟨status, ?_, by simp only [commitLocked_eq, hre, hst]⟩
      rw [stageAll_error hst]
      exact ⟨by simp [timeBackward], by simp [timeBackward]⟩
    | ok staged =>
      by_cases hke : staged.size ≤ L.maxKeys
      · have hpa : s.Passes obs staged := ⟨hre, hst, hke⟩
        by_cases hby : (evict staged).2 ≤ L.maxTotalBytes
        · exact .inr ⟨staged, hpa, hby, by rw [hpa.commitLocked, if_neg hby.not_gt]⟩
        · refine .inl ⟨byteLimit, ⟨by simp [byteLimit], by simp [byteLimit]⟩, ?_⟩
          rw [hpa.commitLocked, if_pos (not_le.mp hby)]
      · refine .inl ⟨keyLimit, ⟨by simp [keyLimit], by simp [keyLimit]⟩, ?_⟩
        simp only [commitLocked_eq, hre, hst, if_pos (not_le.mp hke)]

/-- The shards after a batch was accepted, against the state before it. -/
structure Committed (s : DataManager L) (obs : List Observation) (shards : Shards L) : Prop where
  generation : s.catalog.generation ≠ 0
  accepted : ∀ o ∈ obs, s.Accepted o
  time : ∀ o ∈ obs, ∀ e latest, s.stored? o.key = some e → e.latest = some latest →
    latest.observedMonotonicTimeNs ≤ o.observedMonotonicTimeNs
  written : ∀ o ∈ obs, ∃ e, shards.find? (shardIndex L o.key) o.key = some e ∧
    TrimmedTo (((s.stored? o.key).getD {}).record L (o.stamped (s.commitEpoch + 1))) e
  frame : ∀ i k, ¬(i = shardIndex L k ∧ k ∈ obs.map Observation.key) →
    Trimmed (s.shards.find? i k) (shards.find? i k)

/-- A stored entry is that of a sample of the batch, or what is left of an older one. -/
theorem Committed.find?_cases {shards : Shards L} (hc : s.Committed obs shards)
    {i : Fin L.shardCount} {key : DataKey} {e : Entry} (he : shards.find? i key = some e) :
    (∃ o ∈ obs, i = shardIndex L o.key ∧ o.key = key ∧
      TrimmedTo (((s.stored? o.key).getD {}).record L (o.stamped (s.commitEpoch + 1))) e) ∨
    ∃ old, s.shards.find? i key = some old ∧ TrimmedTo old e := by
  by_cases hba : i = shardIndex L key ∧ key ∈ obs.map Observation.key
  · obtain ⟨rfl, hkey⟩ := hba
    obtain ⟨o, ho, rfl⟩ := mem_map.mp hkey
    obtain ⟨written, hwr, htr⟩ := hc.written o ho
    obtain rfl : e = written := Option.some.inj (he.symm.trans hwr)
    exact .inl ⟨o, ho, rfl, rfl, htr⟩
  · have hfr := hc.frame i key hba
    rw [he] at hfr
    exact .inr hfr.to_some

theorem evict_trimmed (staged : Shards L) (i : Fin L.shardCount) (k : DataKey) :
    Trimmed (staged.find? i k) ((evict staged).1.find? i k) := by
  refine evictLoop_invariant (I := fun s _ => Trimmed (staged.find? i k) (s.find? i k)) ?_ _
    (.refl _)
  intro s _ j l front h _
  refine h.trans ?_
  rw [ShardedMap.find?_modify]
  split_ifs with hpl
  · cases s.find? i k with
    | none => exact .none
    | some e => exact .some ⟨rfl, rfl, tail_suffix _⟩
  · exact .refl _

theorem Passes.committed (h : s.Passes obs staged) : s.Committed obs (evict staged).1 := by
  obtain ⟨hch, hno⟩ := h.check
  refine ⟨(refusal_eq_none.mp h.unrefused).2.1, fun o ho => accepted_of_check (hch o ho).1,
    ?_, ?_, ?_⟩
  · intro o ho e l he hl
    exact (stageAll_written h.staged_eq hno ho).2 e l he hl
  · intro o ho
    have hev := evict_trimmed staged (shardIndex L o.key) o.key
    rw [(stageAll_written h.staged_eq hno ho).1] at hev
    exact hev.of_some
  · intro i k hk
    rw [← stageAll_frame h.staged_eq hk]
    exact evict_trimmed staged i k

/-- The two outcomes of the locked part: a failure that changes nothing and
publishes nothing, or one new epoch with the batch in place. -/
theorem commitLocked_cases (s : DataManager L) (obs : List Observation) :
    (Failure (s.commitLocked obs).2.1.status ∧ (s.commitLocked obs).1 = s ∧
      (s.commitLocked obs).2.2 = []) ∨
    (¬Failure (s.commitLocked obs).2.1.status ∧ ∃ shards, s.Committed obs shards ∧
      (s.commitLocked obs).1 = { s with shards := shards, commitEpoch := s.commitEpoch + 1 } ∧
      (s.commitLocked obs).2.2 = obs.map (metricUpdateDraft (s.commitEpoch + 1))) := by
  rcases s.commitLocked_passes obs with ⟨st, hfa, hs⟩ | ⟨staged, hpa, -, hs⟩
  · rw [hs]
    exact .inl ⟨hfa, rfl, rfl⟩
  · rw [hs]
    exact .inr ⟨batchStatus_not_failure obs, _, hpa.committed, rfl, rfl⟩

/-- A commit is all or nothing. On failure the whole state is unchanged. Otherwise
the epoch grew by one, the entry of every batch key has the stamped observation as
its latest, and every other place holds what it held up to a shorter history. -/
theorem commit_all_or_nothing (s : DataManager L) (obs : List Observation) :
    (Failure (s.commit obs).2.status → (s.commit obs).1 = s) ∧
    (¬Failure (s.commit obs).2.status →
      (s.commit obs).1.commitEpoch = s.commitEpoch + 1 ∧
      (∀ o ∈ obs, ∃ e, (s.commit obs).1.stored? o.key = some e ∧
        e.latest = some (o.stamped (s.commitEpoch + 1))) ∧
      ∀ i k, ¬(i = shardIndex L k ∧ k ∈ obs.map Observation.key) →
        Trimmed (s.shards.find? i k) ((s.commit obs).1.shards.find? i k)) := by
  unfold commit
  rcases s.commitLocked_cases obs with ⟨hfail, hsame, hdrafts⟩ | ⟨hok, shards, hc, hstate, -⟩
  · constructor
    · intro _
      dsimp only
      rw [hdrafts, hsame]
      rfl
    · intro hnot
      exact absurd hfail hnot
  · constructor
    · intro hfail
      exact absurd hfail hok
    · intro _
      refine ⟨by simp [hstate], ?_, ?_⟩
      · intro o ho
        obtain ⟨e, he, htrim⟩ := hc.written o ho
        refine ⟨e, by simpa [stored?, hstate] using he, ?_⟩
        rw [htrim.latest, Entry.record_latest]
      · intro i k hk
        simpa [hstate] using hc.frame i k hk

section Accepted

/-! ### When a batch is accepted -/

theorem checkObservation_eq_none {desc : MetricDescriptor} (hep : o.commitEpoch = 0)
    (hgen : o.catalogGeneration = s.catalog.generation) (hst : o.status ≠ .stale)
    (hen : o.entity ∈ s.catalog.entities)
    (hfi : s.catalog.metrics.find? o.metric = some desc)
    (hva : (validateObservation o).ok = true)
    (hver : o.metricSemanticVersion = desc.semanticVersion)
    (hma : ∀ value ∈ o.value, valueMatches desc value = true)
    (hfit : ∀ value ∈ o.value, valueBytes value ≤ L.maxValueBytes) :
    s.checkObservation o = none := by
  unfold checkObservation
  rw [if_neg (by simp [hep, hgen, hst]), if_neg (not_not.mpr hen), hfi]
  dsimp only
  rw [if_neg]
  rintro (h | h | ⟨value, hmem, h⟩ | ⟨value, hmem, h⟩)
  · exact h hva
  · exact h hver
  · rw [hma value hmem] at h
    cases h
  · exact absurd (hfit value hmem) h.not_ge

theorem stageAll_eq_ok (epoch : ℕ) (hno : (obs.map Observation.key).Nodup)
    (hti : ∀ o ∈ obs, ∀ e l, staged.find? (shardIndex L o.key) o.key = some e →
      e.latest = some l → l.observedMonotonicTimeNs ≤ o.observedMonotonicTimeNs) :
    ∃ staged', stageAll epoch staged obs = .ok staged' := by
  induction obs generalizing staged with
  | nil => exact ⟨staged, rfl⟩
  | cons o rest ih =>
    rw [map_cons, nodup_cons] at hno
    obtain ⟨hfi, hre⟩ := forall_mem_cons.mp hti
    obtain ⟨next, hnex⟩ : ∃ next, stage epoch staged o = .ok next := by
      unfold stage
      rw [if_neg]
      · exact ⟨_, rfl⟩
      · rintro ⟨l, hla, hba⟩
        rw [Observation.stamped_key] at hla
        cases hst : staged.find? (shardIndex L o.key) o.key with
        | none => simp [hst] at hla
        | some e =>
          rw [hst] at hla
          exact absurd hba (hfi e l hst hla).not_gt
    obtain ⟨staged', hst⟩ := ih hno.2 (fun p hp e l he => by
      -- the entries of the others are as they were
      have hne : p.key ≠ o.key := fun h => hno.1 (h ▸ mem_map_of_mem hp)
      rw [stage_find? hnex, if_neg fun h => hne h.2] at he
      exact hre p hp e l he)
    refine ⟨staged', ?_⟩
    rw [stageAll_cons, hnex]
    exact hst

/-- The batch fits into the store once it is staged. -/
def HasRoom (s : DataManager L) (obs : List Observation) : Prop :=
  ∀ staged ∈ (stageAll (s.commitEpoch + 1) s.shards obs).toOption,
    staged.size ≤ L.maxKeys ∧ (evict staged).2 ≤ L.maxTotalBytes

instance (s : DataManager L) (obs : List Observation) : Decidable (s.HasRoom obs) :=
  inferInstanceAs (Decidable (∀ staged ∈ (stageAll (s.commitEpoch + 1) s.shards obs).toOption, _))

/-- Everything `commit` asks for. -/
structure Acceptable (s : DataManager L) (obs : List Observation) : Prop where
  nonempty : obs ≠ []
  active : s.catalog.generation ≠ 0
  topology : s.catalog.topologyUnsupported = false
  epoch : s.commitEpoch ≠ uint64Max
  keys_nodup : (obs.map Observation.key).Nodup
  check : ∀ o ∈ obs, s.checkObservation o = none
  time : ∀ o ∈ obs, ∀ e latest, s.stored? o.key = some e → e.latest = some latest →
    latest.observedMonotonicTimeNs ≤ o.observedMonotonicTimeNs
  room : s.HasRoom obs

theorem acceptable_iff : s.Acceptable obs ↔ ¬Failure (s.commit obs).2.status := by
  change _ ↔ ¬Failure (s.commitLocked obs).2.1.status
  constructor
  · intro h
    have hch : s.checkBatch [] obs = none :=
      checkBatch_eq_none.mpr ⟨fun o ho => ⟨h.check o ho, not_mem_nil⟩, h.keys_nodup⟩
    obtain ⟨staged, hst⟩ := stageAll_eq_ok (s.commitEpoch + 1) h.keys_nodup h.time
    obtain ⟨hsi, hby⟩ := h.room staged (by rw [hst]; rfl)
    have hpa : s.Passes obs staged :=
      ⟨refusal_eq_none.mpr ⟨h.nonempty, h.active, h.topology, h.epoch, hch⟩, hst, hsi⟩
    rw [hpa.commitLocked, if_neg hby.not_gt]
    exact batchStatus_not_failure obs
  · intro hok
    obtain ⟨status, hfa, heq⟩ | ⟨staged, hpa, hby, -⟩ := s.commitLocked_passes obs
    · rw [heq] at hok
      exact absurd hfa hok
    · obtain ⟨hne, hac, hto, hep, -⟩ := refusal_eq_none.mp hpa.unrefused
      obtain ⟨hch, hno⟩ := hpa.check
      refine ⟨hne, hac, hto, hep, hno, fun o ho => (hch o ho).1,
        fun o ho => (stageAll_written hpa.staged_eq hno ho).2, ?_⟩
      rw [HasRoom, hpa.staged_eq]
      rintro _ ⟨⟩
      exact ⟨hpa.keys, hby⟩

end Accepted

end DataManager
end Pdcm
