import Pdcm.Library.Budget
import Pdcm.Data.ReadSpecification

/-!
# Truncated query results

`finalize` cuts the items of a snapshot to the limits of the request. The items it returns
are the longest front of the snapshot within both limits, and since a snapshot is in key
order whatever the order of the selection is, so is the cut: a query whose selection is
permuted makes equivalent calls and has the same outcome in every interleaving.
-/

namespace Pdcm

open Library DataManager QueryHost List QueryRequest

namespace QueryRequest

variable (request : QueryRequest) {returned rest : List Observation}

/-- The limits on the items of a result. -/
def budget : Budget Observation := ⟨request.maxResultItems, request.maxResultBytes, itemBytes⟩

/-- The items taken are within the limits all along, so the remainder of the bytes is
exact. -/
theorem takeItems_longest (hfi : request.budget.Fits returned) :
    request.budget.LongestFront (returned ++ rest)
      (request.takeItems returned (request.budget.total returned) rest).1 := by
  induction rest generalizing returned with
  | nil => exact Budget.longestFront_of_stuck hfi (by simp)
  | cons item rest ih =>
    unfold takeItems
    split_ifs with hst
    · refine Budget.longestFront_of_stuck hfi fun a ha hmo => ?_
      obtain rfl : item = a := Option.some.inj ha
      have hco : (returned ++ [item]).length ≤ request.maxResultItems := hmo.1
      have hwe : request.budget.total (returned ++ [item]) ≤ request.maxResultBytes := hmo.2
      have hto : request.budget.total (returned ++ [item]) =
          request.budget.total returned + itemBytes item := by
        simp [Budget.total, budget]
      rw [length_append, length_singleton] at hco
      omega
    · push Not at hst
      have hco : returned.length ≤ request.maxResultItems := hfi.1
      have hwe : request.budget.total returned ≤ request.maxResultBytes := hfi.2
      have hto : request.budget.total (returned ++ [item]) =
          request.budget.total returned + itemBytes item := by
        simp [Budget.total, budget]
      have hmo : request.budget.Fits (returned ++ [item]) := by
        constructor
        · rw [length_append]
          exact lt_of_le_of_ne hco hst.1
        · change _ ≤ request.maxResultBytes
          omega
      have hlo := ih hmo
      rwa [hto, append_assoc] at hlo

theorem takeItems_stopped {ret : ℕ} (h : (request.takeItems returned ret rest).2 = true) :
    (request.takeItems returned ret rest).1.length < returned.length + rest.length := by
  induction rest generalizing returned ret with
  | nil => cases h
  | cons item rest ih =>
    unfold takeItems at h ⊢
    split_ifs at h ⊢
    · simp
    · have hsh := ih h
      simp only [length_append, length_cons, length_nil] at hsh ⊢
      omega

theorem sumBytes_ok {need : ℕ} {items : List Observation}
    (h : need + request.budget.total items ≤ uint64Max) :
    sumBytes need items = .ok (need + request.budget.total items) := by
  induction items generalizing need with
  | nil => rfl
  | cons item rest ih =>
    have hto : request.budget.total (item :: rest) = itemBytes item + request.budget.total rest :=
      Budget.total_cons _ _ _
    unfold sumBytes
    rw [if_neg (by omega), ih (by omega), hto, Nat.add_assoc]

/-- The answer that a request owes to the items of a readable snapshot. -/
structure Cut (items : List Observation) (r : QueryResult) : Prop where
  longest : request.budget.LongestFront items r.items
  requiredItems : r.requiredItems = items.length
  requiredBytes : r.requiredBytes = request.budget.total items
  truncated_iff : r.truncated = true ∧ r.status.code = .bufferTooSmall ↔
    r.items.length < items.length
  truncated_status : r.truncated = true → r.status.code = .bufferTooSmall

theorem finalize_cut {snapshot : DataReadResult} (fst : Status)
    (hre : isReadableStatus snapshot.status = true)
    (hba : request.consistency = .sameBatch → sameEpoch snapshot.items = true)
    (hby : request.budget.total snapshot.items ≤ uint64Max) :
    request.Cut snapshot.items (request.finalize snapshot fst) := by
  have hsa : ¬(request.consistency = .sameBatch ∧ ¬sameEpoch snapshot.items) := by
    rintro ⟨hco, hmi⟩
    exact hmi (hba hco)
  have hsum : sumBytes 0 snapshot.items = .ok (request.budget.total snapshot.items) := by
    have hze := Nat.zero_add (request.budget.total snapshot.items)
    rw [request.sumBytes_ok (hze.trans_le hby), hze]
  have hlo : request.budget.LongestFront snapshot.items (request.takeItems [] 0 snapshot.items).1 :=
    request.takeItems_longest request.budget.fits_nil
  have hfr := hlo.front.length_le
  -- the flag of the loop says no more than the comparison of the counts after it
  have hfl : ((request.takeItems [] 0 snapshot.items).2 ||
      decide ((request.takeItems [] 0 snapshot.items).1.length ≠ snapshot.items.length)) = true ↔
      (request.takeItems [] 0 snapshot.items).1.length < snapshot.items.length := by
    rw [Bool.or_eq_true, decide_eq_true_eq]
    constructor
    · rintro (hst | hdi)
      · simpa using request.takeItems_stopped hst
      · exact lt_of_le_of_ne hfr hdi
    · exact fun hsh => .inr hsh.ne
  simp only [finalize, hre, hsa, hsum, not_true_eq_false, ↓reduceIte]
  refine ⟨hlo, rfl, rfl, ?_, ?_⟩
  · constructor
    · exact fun h => hfl.mp h.1
    · intro hsh
      refine ⟨hfl.mpr hsh, ?_⟩
      rw [if_pos (hfl.mpr hsh)]
  · intro htr
    rw [if_pos htr]

theorem takeItems_selection (selection : List DataKey) (returned : List Observation)
    (ret : ℕ) (items : List Observation) :
    takeItems { request with selection := selection } returned ret items =
      request.takeItems returned ret items := by
  induction items generalizing returned ret with
  | nil => rfl
  | cons item rest ih =>
    unfold takeItems
    rw [ih]

end QueryRequest

namespace QueryEngine

variable {L : Limits} {host : QueryHost L} {engine : QueryEngine host} {request : QueryRequest}

/-! ### The order of the selection -/

section Permuted

variable {selection : List DataKey} (hperm : selection.Perm request.selection) (fuel : ℕ)
  (snapshot : DataReadResult)
include hperm

/-- The read of a permuted selection, with what follows it. -/
theorem readLatest_equivalent {α : Type} (now : ℤ) (f : DataReadResult → host.Query α)
    (g : DataReadResult → host.Query α)
    (hfg : ∀ snapshot, Program.Equivalent host.environment (f snapshot) (g snapshot)) :
    Program.Equivalent host.environment
      (call (.readLatest selection request.allowStale now request.catalogGeneration) >>= f)
      (call (.readLatest request.selection request.allowStale now request.catalogGeneration) >>=
        g) := by
  refine .call (fun _ => rfl) (fun _ => rfl) fun w => ?_
  change Program.Equivalent host.environment (f ((host.data w).readLatest selection _ _ _))
    (g ((host.data w).readLatest request.selection _ _ _))
  rw [readLatest_perm _ hperm]
  exact hfg _

theorem readSelection_equivalent : Program.Equivalent host.environment
    (readSelection { request with selection := selection } : host.Query _)
    (readSelection request) :=
  .bind (.refl _) fun now => readLatest_equivalent hperm now _ _ fun _ => .refl _

theorem awaitEpoch_equivalent :
    Program.Equivalent host.environment
      (awaitEpoch { request with selection := selection } fuel snapshot : host.Query _)
      (awaitEpoch request fuel snapshot) := by
  induction fuel generalizing snapshot with
  | zero => exact .refl _
  | succ fuel ih =>
    unfold awaitEpoch
    split_ifs
    · exact .refl _
    · refine .bind (.refl _) fun epoch => .bind (.refl _) fun st => ?_
      split_ifs
      · refine .bind (readSelection_equivalent hperm) fun snapshot => ?_
        split_ifs
        · exact ih snapshot
        · exact .refl _
      · exact .refl _

omit hperm in
theorem keysOutdated_selection (now : ℤ) (items : List Observation) :
    (keysOutdated { request with selection := selection } now items : host.Query _) =
      keysOutdated request now items := by
  induction items with
  | nil => rfl
  | cons item rest ih =>
    unfold keysOutdated
    rw [ih]
    rfl

theorem answer_equivalent :
    Program.Equivalent host.environment
      (engine.answer { request with selection := selection } fuel)
      (engine.answer request fuel) := by
  refine .bind (.refl _) fun now => readLatest_equivalent hperm now _ _ fun snapshot => ?_
  unfold keysNeedingFreshRead
  simp only [finalize, takeItems_selection, keysOutdated_selection]
  have hre : ∀ keys, Program.Equivalent host.environment
      (engine.refresh { request with selection := selection } snapshot keys)
      (engine.refresh request snapshot keys) := by
    intro keys
    unfold refresh
    split_ifs
    · exact .refl _
    · exact .bind (.refl _) fun _ => .bind (readSelection_equivalent hperm) fun _ => .refl _
  have hse : ∀ snapshot, Program.Equivalent host.environment
      (settle { request with selection := selection } fuel snapshot : host.Query _)
      (settle request fuel snapshot) := by
    intro snapshot
    unfold settle
    split_ifs
    · exact awaitEpoch_equivalent hperm fuel snapshot
    · exact .refl _
  split_ifs
  all_goals first
    | exact .refl _
    | exact .bind (.refl _) fun keys => .bind (hre keys) fun _ => .bind (hse _) fun _ => .refl _

theorem execute_equivalent :
    Program.Equivalent host.environment
      (engine.execute { request with selection := selection } fuel)
      (engine.execute request fuel) := by
  have hnil : selection = [] ↔ request.selection = [] := by
    rw [← List.length_eq_zero_iff, ← List.length_eq_zero_iff, hperm.length_eq]
  have hva : validate { request with selection := selection } engine.limits =
      request.validate engine.limits := by
    funext hasClock
    unfold validate
    simp only [hnil, hperm.length_eq, hperm.nodup_iff]
  unfold execute
  rw [hva]
  split_ifs
  · refine .bind (.refl _) fun st => ?_
    split_ifs
    · exact answer_equivalent hperm fuel
    · exact .refl _
  · exact answer_equivalent hperm fuel
  · exact .refl _

end Permuted

/-- Every answer that has items to choose from is the longest front, within the limits of
the request, of a snapshot in key order, and the order of the selection does not matter. -/
theorem execute_truncates (engine : QueryEngine host) (request : QueryRequest) (fuel : ℕ)
    {w : host.World} (hreachable : (host.store w).Reachable) :
    (∀ snapshot freshStatus, isReadableStatus snapshot.status = true →
      (request.consistency = .sameBatch → sameEpoch snapshot.items = true) →
      request.budget.total snapshot.items ≤ uint64Max →
      request.Cut snapshot.items (request.finalize snapshot freshStatus)) ∧
    (∀ τ r t, (engine.execute request fuel).Runs host.environment w τ (some r) t →
      (r.items = [] ∧ r.truncated = false ∧ isReadableStatus r.status = false) ∨
      ∃ snapshot freshStatus, ReadIn request τ snapshot ∧
        isReadableStatus snapshot.status = true ∧
        snapshot.items.map Observation.key = request.selection.insertionSort (· ≤ ·) ∧
        (snapshot.items.map Observation.key).Pairwise (· < ·) ∧
        r = request.finalize snapshot freshStatus) ∧
    ∀ selection, selection.Perm request.selection → ∀ schedule,
      ((engine.execute { request with selection := selection } fuel).interleave host.environment w
          schedule).map (fun f => (f.result, f.final)) =
        ((engine.execute request fuel).interleave host.environment w schedule).map
          (fun f => (f.result, f.final)) := by
  refine ⟨fun snapshot freshStatus => request.finalize_cut freshStatus, ?_, ?_⟩
  · intro τ r t hrun
    rcases execute_answer hrun with hnone | ⟨snapshot, fresh, hread, hreadable, -, rfl⟩
    · exact .inl hnone
    · obtain ⟨now, u, hu, hnow, rfl⟩ := hread
      have hlater := ((runs_later hrun).2 _ hu.mem).1
      have hstore := (hlater.1.accounted hreachable.accounted).store
      obtain ⟨hkeys, hincreasing⟩ := hstore.readLatest_keys (isReadableStatus_iff.mp hreadable)
      exact .inr ⟨_, fresh, ⟨now, u, hu, hnow, rfl⟩, hreadable, hkeys, hincreasing, rfl⟩
  · exact fun selection hperm schedule => (execute_equivalent hperm fuel).interleave_eq w schedule

end QueryEngine

namespace TwoMetrics

/-- Both metrics, but room for one item. -/
def oneItem : QueryRequest := { selection := [outlet, inlet], maxResultItems := 1 }

/-- The outlet is asked for first and left out. -/
theorem execute_truncates_oneItem :
    let start := committed [[sample 7 20 1, sample 8 30 1]]
    (query oneItem start [[], []]).map (fun f => f.result.map fun r =>
        (r.items.map Observation.metric, r.requiredItems, r.truncated, r.status.code)) =
      some (some ([7], 2, true, .bufferTooSmall)) ∧
    (query { oneItem with selection := [inlet, outlet] } start [[], []]).map
        (fun f => (f.result, f.final)) =
      (query oneItem start [[], []]).map (fun f => (f.result, f.final)) :=
  ⟨by decide +kernel,
    (QueryEngine.execute_truncates engine oneItem 2 (committed_reachable _)).2.2 _
      (List.Perm.swap _ _ _) _⟩

end TwoMetrics
end Pdcm
