import Pdcm.Data.StoreInvariant

/-!
# Resource bounds

The limits of `DataStoreLimits` hold in every state that calls of the data manager can
reach. A commit enforces the key and byte limits on the staged shards and the two
history limits entry by entry, an activation bounds the tombstones as it adds them, a
health commit checks its two limits before it stores, and every publication trims the
event window. Both eviction loops that count bytes down start from the exact sum, so
what they subtract is always part of it.
-/

namespace Pdcm

open Library List OrderedMap Nat

/-! ### Trimming the event window -/

namespace EventStore

/-- The trimming loop never subtracts more than is counted, and never asks an empty
window for its front. -/
def TrimExact (limits : EventStoreLimits) : List PdcmEvent → ℕ → Prop
  | [], bytes => bytes ≤ limits.maxBytes
  | e :: rest, bytes =>
    limits.maxEvents < (e :: rest).length ∨ limits.maxBytes < bytes →
      eventBytes e ≤ bytes ∧ TrimExact limits rest (bytes - eventBytes e)

theorem totalBytes_cons (e : PdcmEvent) (rest : List PdcmEvent) :
    totalBytes (e :: rest) = eventBytes e + totalBytes rest := by
  simp [totalBytes]

theorem trimExact_totalBytes (limits : EventStoreLimits) (es : List PdcmEvent) :
    TrimExact limits es (totalBytes es) := by
  induction es with
  | nil => exact zero_le _
  | cons e rest ih =>
    intro _
    rw [totalBytes_cons]
    refine ⟨le_add_right _ _, ?_⟩
    rwa [Nat.add_sub_cancel_left]

/-- The window is within the limits the store was built with, and its bytes are counted. -/
structure Within (limits : EventStoreLimits) (st : EventStore) : Prop where
  limits_eq : st.limits = limits
  accounted : st.Accounted
  count : st.events.length ≤ limits.maxEvents
  bytes : totalBytes st.events ≤ limits.maxBytes

/-- The loop of the publication that stores an event subtracts exactly. -/
def PublishExact (st : EventStore) (d : EventDraft) : Prop :=
  ∀ event ∈ (st.publish d).2.event,
    TrimExact st.limits (st.events ++ [event]) (st.storedBytes + eventBytes event)

variable {limits : EventStoreLimits} {st : EventStore}

theorem Within.publish (h : st.Within limits) (d : EventDraft) :
    (st.publish d).1.Within limits := by
  have hac := publish_accounted h.accounted d
  unfold EventStore.publish at hac ⊢
  split_ifs at hac ⊢ with hmal hseq
  · exact h
  · exact h
  · dsimp only at hac ⊢
    split_ifs at hac ⊢ with hla
    · exact ⟨h.limits_eq, hac, h.count, h.bytes⟩
    · have hwi := trim_within st.limits
      rw [h.limits_eq] at hwi
      rw [h.accounted, ← totalBytes_append, h.limits_eq] at hac ⊢
      exact ⟨rfl, hac, (hwi _).2.1, (hwi _).2.2⟩

theorem Within.publishExact (h : st.Within limits) (d : EventDraft) : st.PublishExact d := by
  intro event _
  rw [h.accounted, ← totalBytes_append]
  exact trimExact_totalBytes _ _

end EventStore

/-! ### Histories of one key -/

/-- The history of an entry is within its two limits. -/
structure Entry.HistoryWithin (L : Limits) (e : Entry) : Prop where
  samples : e.history.length ≤ L.maxHistorySamplesPerKey
  duration : ∀ a ∈ e.history, ∀ b ∈ e.history,
    b.observedMonotonicTimeNs - a.observedMonotonicTimeNs ≤ L.maxHistoryDurationNs

namespace Entry.HistoryWithin

variable {L : Limits} {e e' : Entry} {o : Observation}

theorem empty : HistoryWithin L {} := ⟨zero_le _, by simp⟩

theorem trimmed (h : HistoryWithin L e) (ht : DataManager.TrimmedTo e e') : HistoryWithin L e' := by
  constructor
  · exact ht.history.length_le.trans h.samples
  · intro a ha b hb
    exact h.duration a (ht.history.subset ha) b (ht.history.subset hb)

theorem trimHistory_length_le (L : Limits) (o : Observation) (hist : List Observation) :
    (trimHistory L o hist).length ≤ L.maxHistorySamplesPerKey := by
  have hco := (dropWhile_suffix (l := hist.drop (hist.length -
    L.maxHistorySamplesPerKey)) fun front => decide (L.maxHistoryDurationNs <
      o.observedMonotonicTimeNs - front.observedMonotonicTimeNs)).length_le
  rw [length_drop] at hco
  exact hco.trans (by omega)

theorem trimHistory_front {front : Observation} {rest hist : List Observation}
    (h : trimHistory L o hist = front :: rest) :
    o.observedMonotonicTimeNs - front.observedMonotonicTimeNs ≤ L.maxHistoryDurationNs := by
  have hne : trimHistory L o hist ≠ [] := by simp [h]
  have hst := head_dropWhile_not _ hne
  simp only [decide_eq_false_iff_not, not_lt] at hst
  have hhe : (trimHistory L o hist).head hne = front := by simp [h]
  rwa [← hhe]

/-- Recording keeps both limits: a new sample is the youngest one of its history, and the
front is not too old for it. -/
theorem record (h : HistoryWithin L e) {gen epoch : ℕ} {key : DataKey}
    (hrec : Consistent gen epoch key (e.record L o)) :
    HistoryWithin L (e.record L o) := by
  by_cases hva : o.status = .valid
  · have hhi : (e.record L o).history = trimHistory L o (e.history ++ [o]) := by
      rw [Entry.record, if_pos hva]
    have hla : (e.record L o).lastValid = some o := by
      rw [Entry.record, if_pos hva]
    constructor
    · rw [hhi]
      exact trimHistory_length_le L o _
    · intro a ha b hb
      obtain ⟨v, hv, -, hyo⟩ := hrec.history_le hb
      obtain rfl : o = v := Option.some.inj (hla.symm.trans hv)
      have hti := hrec.historyTimes
      cases hsa : (e.record L o).history with
      | nil => simp [hsa] at ha
      | cons front rest =>
        have hfr := trimHistory_front (hhi.symm.trans hsa)
        rw [hsa] at ha hti
        have hol : front.observedMonotonicTimeNs ≤ a.observedMonotonicTimeNs := by
          rcases mem_cons.mp ha with rfl | ha
          · exact le_rfl
          · exact (pairwise_cons.mp hti).1 a ha
        omega
  · rw [Entry.record, if_neg hva]
    exact ⟨h.samples, h.duration⟩

end Entry.HistoryWithin

namespace DataManager

variable {L : Limits} {s : DataManager L} {tombstones : List EntityTombstone}

/-! ### Evicting down to the byte limit -/

/-- The eviction loop never subtracts more than is counted. -/
def EvictExact : ℕ → Shards L → ℕ → Prop
  | 0, _, _ => True
  | fuel + 1, staged, totalBytes =>
    L.maxTotalBytes < totalBytes → ∀ i key front, oldestEntry staged = some (i, key, front) →
      observationBytes front ≤ totalBytes ∧
        EvictExact fuel (staged.modify i key popHistory) (totalBytes - observationBytes front)

theorem total_popHistory {staged : Shards L} {i : Fin L.shardCount} {key : DataKey}
    {front : Observation} (h : oldestEntry staged = some (i, key, front)) :
    (staged.modify i key popHistory).total entryBytes + observationBytes front =
      staged.total entryBytes := by
  obtain ⟨e, rest, he, hhi⟩ := oldestEntry_some h
  have hto := ShardedMap.total_modify entryBytes popHistory he
  have hen : entryBytes e = entryBytes (popHistory e) + observationBytes front := by
    simp only [entryBytes, popHistory, hhi, tail_cons, map_cons, sum_cons]
    omega
  omega

theorem evictExact_total (fuel : ℕ) (staged : Shards L) :
    EvictExact fuel staged (staged.total entryBytes) := by
  induction fuel generalizing staged with
  | zero => trivial
  | succ fuel ih =>
    intro _ i key front hol
    have hpop := total_popHistory hol
    refine ⟨by omega, ?_⟩
    rw [← hpop, Nat.add_sub_cancel]
    exact ih _

/-- The counter of the loop is the size of the shards it leaves. -/
theorem evictLoop_total (fuel : ℕ) (staged : Shards L) :
    (evictLoop fuel staged (staged.total entryBytes)).2 =
      (evictLoop fuel staged (staged.total entryBytes)).1.total entryBytes := by
  refine evictLoop_invariant (I := fun s bytes => bytes = s.total entryBytes) ?_ fuel rfl
  intro s bytes i key front hby hol
  rw [hby, ← total_popHistory hol, Nat.add_sub_cancel]

theorem evictLoop_size (fuel : ℕ) (staged : Shards L) (bytes : ℕ) :
    (evictLoop fuel staged bytes).1.size = staged.size := by
  refine evictLoop_invariant (I := fun s _ => s.size = staged.size) ?_ fuel rfl
  intro s _ i key front hsi _
  rw [ShardedMap.size_modify, hsi]

/-! ### The bounds of a state -/

/-- Every limit of the store. -/
structure WithinBounds (s : DataManager L) : Prop where
  keys : s.shards.size ≤ L.maxKeys
  histories : ∀ i key e, s.shards.find? i key = some e → e.HistoryWithin L
  bytes : s.shards.total entryBytes ≤ L.maxTotalBytes
  healthEntries : s.health.size ≤ L.maxHealthEntries
  healthBytes : s.health.total healthResultBytes ≤ L.maxHealthBytes
  tombstones : s.tombstones.length ≤ L.maxTombstones
  events : s.eventStore.Within ⟨L.maxEvents, L.maxEventBytes⟩

theorem initial_withinBounds (L : Limits) : (initial L).WithinBounds where
  keys := by simp [initial]
  histories i key e he := by simp [initial] at he
  bytes := by simp [initial]
  healthEntries := zero_le _
  healthBytes := zero_le _
  tombstones := zero_le _
  events := ⟨rfl, rfl, zero_le _, zero_le _⟩

theorem foldl_retire_length_le (view : CatalogView) (entities : List EntityRef)
    (h : tombstones.length ≤ L.maxTombstones) :
    (entities.foldl (retire L view) tombstones).length ≤ L.maxTombstones := by
  induction entities generalizing tombstones with
  | nil => exact h
  | cons old rest ih =>
    apply ih
    unfold retire
    split_ifs
    · exact h
    · rw [length_drop]
      omega

theorem commitLocked_withinBounds (hst : s.StoreInvariant) (h : s.WithinBounds)
    (obs : List Observation) : (s.commitLocked obs).1.WithinBounds := by
  rcases s.commitLocked_passes obs with ⟨status, -, hs⟩ | ⟨staged, hpa, hby, hs⟩
  · rwa [hs]
  · have hc := hpa.committed
    rw [hs]
    refine { h with keys := ?_, histories := ?_, bytes := ?_ }
    · exact (evictLoop_size _ _ _).trans_le hpa.keys
    · intro i key e (he : (evict staged).1.find? i key = some e)
      obtain ⟨o, ho, rfl, rfl, htr⟩ | ⟨old, hold, htr⟩ := hc.find?_cases he
      · have hwas : ((s.stored? o.key).getD {}).HistoryWithin L := by
          cases hs : s.stored? o.key with
          | none => exact .empty
          | some old => exact h.histories _ _ _ hs
        exact (hwas.record (hc.recorded hst ho)).trimmed htr
      · exact (h.histories i key old hold).trimmed htr
    · exact (evictLoop_total _ staged).symm.trans_le hby

theorem checkHealthRoom_none {r : HealthResult} (h : s.checkHealthRoom r = none) :
    ((s.health.find? r.entity).isSome ∨ s.health.size < L.maxHealthEntries) ∧
      s.healthBytesWith r ≤ L.maxHealthBytes := by
  unfold checkHealthRoom at h
  split_ifs at h with hen hby hep
  refine ⟨?_, not_lt.mp hby⟩
  by_cases hso : (s.health.find? r.entity).isSome
  · exact .inl hso
  · refine .inr (not_le.mp fun hfu => hen ⟨?_, hfu⟩)
    simpa using hso

theorem commitHealthLocked_withinBounds (h : s.WithinBounds) (r : HealthResult) :
    (s.commitHealthLocked r).1.WithinBounds := by
  unfold commitHealthLocked
  cases hch : s.checkHealth r with
  | some status => exact h
  | none =>
    have hro : s.checkHealthRoom r = none := by
      unfold checkHealth at hch
      split_ifs at hch
      split at hch
      · cases hch
      · exact hch
    obtain ⟨hen, hby⟩ := checkHealthRoom_none hro
    refine { h with healthEntries := ?_, healthBytes := ?_ }
    · rcases hen with hst | hfr
      · -- an entity that has a result keeps its place
        obtain ⟨old, hold⟩ := Option.isSome_iff_exists.mp hst
        exact (size_insert_le_of_find? hold).trans h.healthEntries
      · exact (size_insert_le _ _ _).trans hfr
    · exact (total_insert _ _ _ _).trans_le hby

/-! ### The events a call publishes -/

/-- The drafts a call publishes after its locked part. -/
def drafts (s : DataManager L) : DataOp → List EventDraft
  | .activateCatalog catalog target => (s.activateCatalogLocked catalog target).2.2
  | .commit observations => (s.commitLocked observations).2.2
  | .commitHeartbeatEvidence _ => []
  | .commitHealth result => (s.commitHealthLocked result).2.2
  | .publishEvent draft => [draft]

/-- Every byte counter that a call counts down stays above zero: the eviction of a commit
that staged its batch, and the trimming of every event the call publishes. -/
structure CountsExactly (s : DataManager L) (op : DataOp) : Prop where
  evictions : ∀ observations, op = .commit observations →
    ∀ staged, stageAll (s.commitEpoch + 1) s.shards observations = .ok staged →
      EvictExact (staged.total historyLength) staged (staged.total entryBytes)
  events : Along (fun store d => (store.publish d).1) EventStore.PublishExact s.eventStore
    (s.drafts op)

theorem WithinBounds.countsExactly (h : s.WithinBounds) (op : DataOp) : s.CountsExactly op := by
  constructor
  · intro _ _ staged _
    exact evictExact_total _ staged
  · exact law_along (I := EventStore.Within _) (fun _ d hst _ => hst.publish d)
      (fun _ d hst _ => hst.publishExact d) h.events (along_of_forall (fun _ _ => trivial) _)

/-! ### All calls -/

theorem DataStep.withinBounds {t : DataManager L} (hstep : DataStep s t)
    (h : s.StoreInvariant ∧ s.WithinBounds) : t.StoreInvariant ∧ t.WithinBounds := by
  refine ⟨hstep.storeInvariant h.1, ?_⟩
  cases hstep with
  | unchanged => exact h.2
  | activated cat target =>
    rcases s.activateCatalogLocked_cases cat target with hs | ⟨view, -, -, -, -, hs⟩
    · rw [hs]
      exact h.2
    · rw [hs]
      have hem : (ShardedMap.empty : Shards L).size ≤ L.maxKeys := by simp
      exact ⟨hem, fun i key e he => by simp at he, by simp, zero_le _, zero_le _,
        foldl_retire_length_le view _ h.2.tombstones, h.2.events⟩
  | committed obs => exact commitLocked_withinBounds h.1 h.2 obs
  | evidence ev =>
    rcases s.commitHeartbeatEvidence_cases ev with ⟨hs, -⟩ | ⟨rest, -, hs, -⟩
    · rw [hs]
      exact h.2
    · rw [hs]
      exact { h.2 with }
  | health res => exact commitHealthLocked_withinBounds h.2 res
  | published draft => exact { h.2 with events := h.2.events.publish draft }

/-- Whatever calls are made under limits that passed validation, the store is within every
limit afterwards, and no call of the run takes more from a byte counter than is in it. -/
theorem run_withinBounds (L : Limits) (ops : List DataOp) :
    (run L ops).WithinBounds ∧ Along apply CountsExactly (initial L) ops := by
  have hstep : ∀ (s : DataManager L) (op : DataOp), s.StoreInvariant ∧ s.WithinBounds →
      (s.apply op).StoreInvariant ∧ (s.apply op).WithinBounds :=
    fun s op h => invariant_apply (fun _ _ => DataStep.withinBounds) h op
  have hinitial : (initial L).StoreInvariant ∧ (initial L).WithinBounds :=
    ⟨initial_storeInvariant L, initial_withinBounds L⟩
  refine ⟨(invariant_run hstep hinitial ops).2, ?_⟩
  have hcalls : Along apply (fun _ _ => True) (initial L) ops :=
    along_of_forall (fun _ _ => trivial) _
  exact law_along (fun s op hs _ => hstep s op hs) (fun s op hs _ => hs.2.countsExactly op)
    hinitial hcalls

end DataManager
end Pdcm
