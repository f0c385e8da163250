import Mathlib.Algebra.BigOperators.Group.List.Basic
import Pdcm.Collection.Normalize
import Pdcm.Library.Interference

/-!
# What a metric read is normalized to

The normalizer fills a map and a set from the returned items, then works through the
request. Here each requested item is judged by the list of its answers alone, and the maps
are shown to hold exactly what is needed of these lists. The descriptors are looked up
while other threads may change the catalog, so each item has the descriptor that its own
lookup found.
-/

namespace Pdcm

open Library List Program DataPlane Function

variable (results : List ProviderReadItemResult) {requested : List ProviderReadItem}

/-- The answers to one item, in the order they were returned. -/
def answers (results : List ProviderReadItemResult) (item : ProviderReadItem) :
    List ProviderReadItemResult :=
  results.filter fun result => decide (result.item = item)

def unrequestedItems (requested : List ProviderReadItem) (results : List ProviderReadItemResult) :
    ℕ :=
  results.countP fun result => decide (result.item ∉ requested)

def extraCopies (requested : List ProviderReadItem) (results : List ProviderReadItemResult) : ℕ :=
  (requested.map fun item => (answers results item).length - 1).sum

theorem answers_concat (result : ProviderReadItemResult) (item : ProviderReadItem) :
    answers (results ++ [result]) item =
      if result.item = item then answers results item ++ [result] else answers results item := by
  by_cases h : result.item = item <;> simp [answers, h]

theorem answers_concat_of_ne {result : ProviderReadItemResult} {item : ProviderReadItem}
    (h : result.item ≠ item) : answers (results ++ [result]) item = answers results item := by
  rw [answers_concat, if_neg h]

theorem mem_answers {results : List ProviderReadItemResult} {item : ProviderReadItem}
    {result : ProviderReadItemResult} :
    result ∈ answers results item ↔ result ∈ results ∧ result.item = item := by
  simp [answers]

theorem unrequestedItems_concat (requested : List ProviderReadItem)
    (results : List ProviderReadItemResult) (result : ProviderReadItemResult) :
    unrequestedItems requested (results ++ [result]) =
      unrequestedItems requested results + if result.item ∈ requested then 0 else 1 := by
  by_cases h : result.item ∈ requested <;> simp [unrequestedItems]

/-- One more answer is an extra copy of its item unless it is the first one. -/
theorem extraCopies_concat (hdi : requested.Nodup) (results : List ProviderReadItemResult)
    {result : ProviderReadItemResult} (hmem : result.item ∈ requested) :
    extraCopies requested (results ++ [result]) =
      extraCopies requested results + if answers results result.item = [] then 0 else 1 := by
  have hot : ((requested.erase result.item).map fun item =>
        (answers (results ++ [result]) item).length - 1) =
      (requested.erase result.item).map fun item => (answers results item).length - 1 := by
    apply map_congr_left
    intro item hit
    have hne : result.item ≠ item := fun h => hdi.not_mem_erase (h ▸ hit)
    rw [answers_concat_of_ne _ hne]
  unfold extraCopies
  rw [← sum_map_erase _ hmem, ← sum_map_erase (fun item => (answers results item).length - 1)
    hmem, hot, answers_concat, if_pos rfl, length_append, length_singleton]
  split_ifs with hfi
  · simp [hfi]
  · have hpos := length_pos_iff.mpr hfi
    omega

namespace ReturnedItems

variable {r : ReturnedItems}

/-- What the maps hold after the results `seen`. -/
structure Describes (requested : List ProviderReadItem) (seen : List ProviderReadItemResult)
    (r : ReturnedItems) : Prop where
  found : ∀ item ∈ requested, r.find? item = (answers seen item).head?
  duplicated : ∀ item, item ∈ r.duplicated ↔ item ∈ requested ∧ 2 ≤ (answers seen item).length
  violations : requested.Nodup →
    r.contractViolations = unrequestedItems requested seen + extraCopies requested seen

section Receive

variable {seen : List ProviderReadItemResult}
  {result : ProviderReadItemResult} (h : Describes requested seen r)

include h

theorem Describes.unrequested (hmem : result.item ∉ requested) :
    Describes requested (seen ++ [result])
      { r with contractViolations := r.contractViolations + 1 } := by
  have hot : ∀ item ∈ requested, answers (seen ++ [result]) item = answers seen item :=
    fun item hit => answers_concat_of_ne _ (ne_of_mem_of_not_mem hit hmem).symm
  constructor
  · intro item hit
    rw [hot item hit]
    exact h.found item hit
  · intro item
    rw [h.duplicated]
    exact and_congr_right fun hit => by rw [hot item hit]
  · intro hdi
    have hco : extraCopies requested (seen ++ [result]) = extraCopies requested seen := by
      rw [extraCopies, map_congr_left fun item hit => by rw [hot item hit], extraCopies]
    rw [unrequestedItems_concat, hco, if_neg hmem]
    have hvi := h.violations hdi
    dsimp only
    omega

theorem Describes.first (hmem : result.item ∈ requested)
    (hse : answers seen result.item = []) (hnew : r.find? result.item = none) :
    Describes requested (seen ++ [result]) { r with returned := r.returned ++ [result] } := by
  constructor
  · intro item hit
    have hfo := h.found item hit
    rw [answers_concat]
    unfold find? at hnew hfo ⊢
    split_ifs with hsa
    · subst hsa
      simp [hnew, hse]
    · simpa [hsa] using hfo
  · intro item
    rw [h.duplicated, answers_concat]
    split_ifs with hsa
    · simp [← hsa, hse]
    · exact .rfl
  · intro hdi
    rw [unrequestedItems_concat, extraCopies_concat hdi _ hmem, if_pos hmem, if_pos hse]
    exact h.violations hdi

theorem Describes.again (hmem : result.item ∈ requested)
    {first : ProviderReadItemResult} {rest : List ProviderReadItemResult}
    (hse : answers seen result.item = first :: rest) (hfi : r.find? result.item = some first) :
    Describes requested (seen ++ [result])
      { r with
        duplicated := result.item :: r.duplicated
        contractViolations := r.contractViolations + 1 } := by
  constructor
  · intro item hit
    rw [answers_concat]
    split_ifs with hsa
    · rw [← hsa, hse, cons_append]
      exact hfi
    · exact h.found item hit
  · intro item
    rw [mem_cons, h.duplicated, answers_concat]
    split_ifs with hsa
    · simp [← hsa, hse, hmem]
    · simp [Ne.symm hsa]
  · intro hdi
    rw [unrequestedItems_concat, extraCopies_concat hdi _ hmem, if_pos hmem, if_neg (by simp [hse])]
    have hvi := h.violations hdi
    dsimp only
    omega

theorem Describes.receive (result : ProviderReadItemResult) :
    Describes requested (seen ++ [result]) (r.receive requested result) := by
  by_cases hmem : result.item ∈ requested
  · have hfo := h.found result.item hmem
    cases hse : answers seen result.item with
    | nil =>
      rw [hse] at hfo
      simpa [ReturnedItems.receive, hmem, hfo] using h.first hmem hse hfo
    | cons first rest =>
      rw [hse] at hfo
      simpa [ReturnedItems.receive, hmem, hfo] using h.again hmem hse hfo
  · simpa [ReturnedItems.receive, hmem] using h.unrequested hmem

end Receive

end ReturnedItems

namespace FinishedRead

variable (read : FinishedRead) {requests : List ProviderReadItem} {requested : ProviderReadItem}

/-- The answers the provider gave to an item. -/
def answersTo (item : ProviderReadItem) : List ProviderReadItemResult :=
  answers read.result.items item

/-! ### Resolving an item -/

section Resolve

variable {read} {omitted : Except ℕ (ProviderReadItemResult × Status)} {failed : String}

theorem returnedItems_describes (husable : usableCallStatus read.result.callStatus.code = true) :
    ReturnedItems.Describes read.request.items read.result.items
      (returnedItems read.request read.result) := by
  rw [returnedItems, if_pos husable]
  induction read.result.items using reverseRecOn with
  | nil => exact ⟨fun _ _ => rfl, by simp [answers],
        by simp [unrequestedItems, extraCopies, answers]⟩
  | append_singleton results result ih =>
    rw [foldl_append]
    exact ih.receive result

theorem resolve_failed (items : ReturnedItems)
    (hfa : usableCallStatus read.result.callStatus.code = false) :
    read.resolve items omitted failed requested =
      .ok ({ item := requested, status := callFailureStatus read.result.callStatus.code },
        read.result.callStatus) := by
  simp [resolve, hfa]

theorem resolve_answers (husable : usableCallStatus read.result.callStatus.code = true)
    (hmem : requested ∈ read.request.items) :
    read.resolve (returnedItems read.request read.result) omitted failed requested =
      match read.answersTo requested with
      | [] => omitted
      | [answer] =>
        if validProviderItem answer then
          .ok (answer, if answer.status = .valid then .success
            else ⟨statusFor answer.status, failed⟩)
        else .error 1
      | _ => .error 0 := by
  have hde := returnedItems_describes husable
  have hdup := hde.duplicated requested
  have hfo := hde.found requested hmem
  rw [resolve, if_neg (not_not.mpr husable)]
  change _ = match answers read.result.items requested with
    | [] => _ | [answer] => _ | _ => _
  match hans : answers read.result.items requested with
  | [] =>
    rw [hans] at hdup hfo
    rw [if_neg (by simp [hdup]), hfo]
    rfl
  | [answer] =>
    rw [hans] at hdup hfo
    rw [if_neg (by simp [hdup]), hfo]
    by_cases hva : validProviderItem answer = true <;> simp [hva]
  | first :: second :: rest =>
    rw [hans] at hdup
    rw [if_pos (hdup.mpr ⟨hmem, by simp⟩)]

end Resolve

/-! ### Normalizing with known descriptors -/

/-- What the loop makes of an item whose lookup found `known`. -/
def normalizeWith (items : ReturnedItems) (known : Option MetricDescriptor)
    (requested : ProviderReadItem) : Except ℕ Observation :=
  match read.resolve items
      (.ok ({ item := requested, status := .error },
        ⟨.internal, "provider omitted requested item"⟩))
      "provider item read failed" requested with
  | .error violations => .error violations
  | .ok (item, error) =>
    match known with
    | none => .error 1
    | some descriptor =>
      if item.status = .valid ∧ ¬item.value.any (valueMatches descriptor) then .error 1
      else .ok (read.observation requested descriptor item error)

/-- A request whose lookups found `known`. -/
def normalizeAllWith (items : ReturnedItems) (known : ProviderReadItem → Option MetricDescriptor) :
    List ProviderReadItem → List Observation × ℕ
  | [] => ([], 0)
  | requested :: rest =>
    match read.normalizeWith items (known requested) requested with
    | .error violations =>
      ((normalizeAllWith items known rest).1, violations + (normalizeAllWith items known rest).2)
    | .ok observation =>
      (observation :: (normalizeAllWith items known rest).1, (normalizeAllWith items known rest).2)

/-- The violations counted for an item. -/
def violationsOf : Except ℕ Observation → ℕ
  | .error violations => violations
  | .ok _ => 0

section NormalizeAll

variable {read} {items : ReturnedItems} {known : ProviderReadItem → Option MetricDescriptor}

theorem mem_normalizeAllWith {o : Observation} :
    o ∈ (read.normalizeAllWith items known requests).1 ↔
      ∃ item ∈ requests, read.normalizeWith items (known item) item = .ok o := by
  induction requests with
  | nil => simp [normalizeAllWith]
  | cons requested rest ih =>
    rw [normalizeAllWith]
    cases hout : read.normalizeWith items (known requested) requested with
    | error violations => simp [ih, hout]
    | ok observation => simp [ih, hout, eq_comm]

theorem normalizeAllWith_congr {known' : ProviderReadItem → Option MetricDescriptor}
    (h : ∀ item ∈ requests, known item = known' item) :
    read.normalizeAllWith items known requests = read.normalizeAllWith items known' requests := by
  induction requests with
  | nil => rfl
  | cons requested rest ih =>
    rw [normalizeAllWith, normalizeAllWith, h requested (mem_cons_self ..),
      ih fun item hit => h item (mem_cons_of_mem _ hit)]

end NormalizeAll

/-! ### The lookups of a run -/

/-- An item that is left out before its metric is looked up. -/
def Dropped (item : ProviderReadItem) : Prop :=
  usableCallStatus read.result.callStatus.code = true ∧
    match read.answersTo item with
    | [] => False
    | [answer] => validProviderItem answer = false
    | _ => True

/-- The trace holds one lookup for each item that is not dropped, with the descriptor it
found. -/
inductive LookedUp {L : Limits} (known : ProviderReadItem → Option MetricDescriptor) :
    List ProviderReadItem → List (Event (interface L)) → Prop
  | nil : LookedUp known [] []
  | found {item : ProviderReadItem} {rest : List ProviderReadItem}
      {τ : List (Event (interface L))} (p : DataPlane L)
      (hknown : known item = p.data.metricDescriptor item.dataId)
      (hrest : LookedUp known rest τ) :
      LookedUp known (item :: rest) (⟨.metricDescriptor item.dataId, p⟩ :: τ)
  | dropped {item : ProviderReadItem} {rest : List ProviderReadItem}
      {τ : List (Event (interface L))} (hdropped : read.Dropped item)
      (hrest : LookedUp known rest τ) : LookedUp known (item :: rest) τ

variable {read} {L : Limits} {τ : List (Event (interface L))}

theorem LookedUp.congr {known known' : ProviderReadItem → Option MetricDescriptor}
    (hlo : read.LookedUp known requests τ) (h : ∀ item ∈ requests, known item = known' item) :
    read.LookedUp known' requests τ := by
  induction hlo with
  | nil => exact .nil
  | found p hkn hre ih =>
    rw [h _ (mem_cons_self ..)] at hkn
    exact .found p hkn (ih fun item hit => h item (mem_cons_of_mem _ hit))
  | dropped hdr hre ih =>
    exact .dropped hdr (ih fun item hit => h item (mem_cons_of_mem _ hit))

theorem reaches_call {β : Type} {c : PlaneCall} {f : c.Answer → DataPlane.Plane L β} {b : β}
    (h : (call c >>= f).Reaches τ (.done b)) :
    ∃ p after, (f (exec c p).2).Reaches after (.done b) ∧ τ = ⟨c, p⟩ :: after :=
  reaches_request_bind h

theorem dropped_of_resolve {omitted : ProviderReadItemResult × Status} {failed : String}
    {violations : ℕ} (hmem : requested ∈ read.request.items)
    (hres : read.resolve (returnedItems read.request read.result) (.ok omitted) failed requested =
      .error violations) : read.Dropped requested := by
  by_cases husable : usableCallStatus read.result.callStatus.code = true
  · refine ⟨husable, ?_⟩
    rw [resolve_answers husable hmem] at hres
    match hans : read.answersTo requested with
    | [] => simp [hans] at hres
    | [answer] =>
      rw [hans] at hres
      dsimp only at hres
      split_ifs at hres with hva
      exact Bool.eq_false_iff.mpr hva
    | first :: second :: rest => trivial
  · rw [resolve_failed _ (by simpa using husable)] at hres
    cases hres

theorem normalizeItem_reaches {out : Except ℕ Observation}
    (hmem : requested ∈ read.request.items)
    (hrun : (read.normalizeItem (returnedItems read.request read.result) requested).Reaches τ
      (.done out)) :
    ∃ known, out =
        read.normalizeWith (returnedItems read.request read.result) known requested ∧
      (read.Dropped requested ∧ τ = [] ∨
        ∃ p : DataPlane L, known = p.data.metricDescriptor requested.dataId ∧
          τ = [⟨.metricDescriptor requested.dataId, p⟩]) := by
  unfold FinishedRead.normalizeItem at hrun
  unfold normalizeWith
  generalize hres : read.resolve _ _ _ requested = resolved at hrun ⊢
  cases resolved with
  | error violations =>
    obtain ⟨rfl, rfl⟩ := reaches_pure hrun
    exact ⟨none, rfl, .inl ⟨dropped_of_resolve hmem hres, rfl⟩⟩
  | ok resolved =>
    obtain ⟨p, after, hre, rfl⟩ := reaches_call hrun
    refine ⟨p.data.metricDescriptor requested.dataId, ?_⟩
    simp only [exec] at hre
    cases hkn : p.data.metricDescriptor requested.dataId with
    | none =>
      rw [hkn] at hre
      obtain ⟨rfl, rfl⟩ := reaches_pure hre
      exact ⟨rfl, .inr ⟨p, hkn.symm, rfl⟩⟩
    | some descriptor =>
      rw [hkn] at hre
      dsimp only at hre ⊢
      split_ifs at hre ⊢ with hmi
      · obtain ⟨rfl, rfl⟩ := reaches_pure hre
        exact ⟨rfl, .inr ⟨p, hkn.symm, rfl⟩⟩
      · obtain ⟨rfl, rfl⟩ := reaches_pure hre
        exact ⟨rfl, .inr ⟨p, hkn.symm, rfl⟩⟩

/-- A run of the loop over different items normalizes with what its lookups found. -/
theorem normalizeItems_reaches {norm : List Observation × ℕ} (hdi : requests.Nodup)
    (hsub : requests ⊆ read.request.items)
    (hrun : (read.normalizeItems (returnedItems read.request read.result) requests).Reaches τ
      (.done norm)) :
    ∃ known, read.LookedUp known requests τ ∧
      norm = read.normalizeAllWith (returnedItems read.request read.result) known requests := by
  induction requests generalizing τ norm with
  | nil =>
    obtain ⟨rfl, rfl⟩ := reaches_pure hrun
    exact ⟨fun _ => none, .nil, rfl⟩
  | cons requested rest ih =>
    obtain ⟨first, τ₁, _, hfi, hot, rfl⟩ := reaches_bind hrun
    obtain ⟨others, τ₂, τ₃, hre, hla, rfl⟩ := reaches_bind hot
    obtain ⟨hfr, hdi⟩ := nodup_cons.mp hdi
    obtain ⟨hmem, hsub⟩ := cons_subset.mp hsub
    obtain ⟨found, rfl, hloo⟩ := normalizeItem_reaches hmem hfi
    obtain ⟨known, hlo, rfl⟩ := ih hdi hsub hre
    have hsa : ∀ item ∈ rest, known item = update known requested found item := by
      intro item hit
      rw [update_of_ne (ne_of_mem_of_not_mem hit hfr)]
    have hend : τ₃ = [] ∧ norm = read.normalizeAllWith
        (returnedItems read.request read.result) (update known requested found)
        (requested :: rest) := by
      rw [normalizeAllWith, update_self, ← normalizeAllWith_congr hsa]
      cases hout : read.normalizeWith (returnedItems read.request read.result) found requested with
      | error violations =>
        rw [hout] at hla
        exact reaches_pure hla
      | ok observation =>
        rw [hout] at hla
        exact reaches_pure hla
    obtain ⟨rfl, hno⟩ := hend
    refine ⟨update known requested found, ?_, hno⟩
    rw [append_nil]
    rcases hloo with ⟨hdr, rfl⟩ | ⟨p, hfo, rfl⟩
    · exact .dropped hdr (hlo.congr hsa)
    · apply LookedUp.found p _ (hlo.congr hsa)
      rw [update_self, hfo]

/-! ### The specification -/

end FinishedRead

/-- The key of the observations of an item. -/
def ProviderReadItem.dataKey (item : ProviderReadItem) : DataKey := ⟨item.entity, item.dataId⟩

theorem ProviderReadItem.dataKey_inj {a b : ProviderReadItem} (hki : a.kind = b.kind) :
    a.dataKey = b.dataKey ↔ a = b := by
  constructor
  · intro h
    obtain ⟨hen, hid⟩ := DataKey.mk.inj h
    cases a
    cases b
    simp_all
  · exact congrArg _

namespace FinishedRead

variable (read : FinishedRead)

/-- Left out of the batch as a violation: malformed, of an unknown metric or of the wrong
type. An item that comes twice is not counted here. -/
def leftOut (known : Option MetricDescriptor) (item : ProviderReadItem) : Bool :=
  match read.answersTo item with
  | [] => known.isNone
  | [answer] => !validProviderItem answer ||
      known.all fun descriptor =>
        decide (answer.status = .valid ∧ ¬answer.value.any (valueMatches descriptor))
  | _ => false

/-- The batch of a usable result. -/
structure Answered (known : ProviderReadItem → Option MetricDescriptor)
    (batch : List Observation) (violations : ℕ) : Prop where
  valid : ∀ item ∈ read.request.items, ∀ value,
    (∃ o ∈ batch, o.key = item.dataKey ∧ o.status = .valid ∧ o.value = some value) ↔
      ∃ descriptor answer, known item = some descriptor ∧ read.answersTo item = [answer] ∧
        validProviderItem answer = true ∧ answer.status = .valid ∧ answer.value = some value ∧
        valueMatches descriptor value = true
  omitted : ∀ item ∈ read.request.items, read.answersTo item = [] → known item ≠ none →
    ∃ o ∈ batch, o.key = item.dataKey ∧ o.status = .error ∧ o.value = none
  absent : ∀ item ∈ read.request.items,
    2 ≤ (read.answersTo item).length ∨ read.leftOut (known item) item = true →
      ∀ o ∈ batch, o.key ≠ item.dataKey
  violations_eq : violations = unrequestedItems read.request.items read.result.items +
    extraCopies read.request.items read.result.items +
    read.request.items.countP fun item => read.leftOut (known item) item

/-- The batch of a metric read and the violations counted for it, where the lookups found
`known`. -/
structure Normalized (known : ProviderReadItem → Option MetricDescriptor)
    (batch : List Observation) (violations : ℕ) : Prop where
  keys_nodup : (batch.map Observation.key).Nodup
  requested : ∀ o ∈ batch, ∃ item ∈ read.request.items, o.key = item.dataKey
  answered : usableCallStatus read.result.callStatus.code = true →
    read.Answered known batch violations
  failed : usableCallStatus read.result.callStatus.code = false →
    ∀ item ∈ read.request.items, known item ≠ none →
      ∃ o ∈ batch, o.key = item.dataKey ∧ o.status ≠ .valid ∧ o.value = none

theorem callFailureStatus_ne_valid (code : StatusCode) : callFailureStatus code ≠ .valid := by
  unfold callFailureStatus
  split_ifs <;> simp

section Outcomes

variable {read} {known : Option MetricDescriptor} {item : ProviderReadItem} {o : Observation}
  {items : ReturnedItems} {descriptor : MetricDescriptor}

theorem normalizeWith_ok (h : read.normalizeWith items known item = .ok o) :
    ∃ descriptor answer error, o = read.observation item descriptor answer error := by
  unfold normalizeWith at h
  split at h
  · cases h
  · split at h
    · cases h
    · split_ifs at h
      cases h
      exact ⟨_, _, _, rfl⟩

theorem normalizeWith_key (h : read.normalizeWith items known item = .ok o) :
    o.key = item.dataKey := by
  obtain ⟨_, _, _, rfl⟩ := normalizeWith_ok h
  rfl

theorem normalizeWith_failed (items : ReturnedItems)
    (hfa : usableCallStatus read.result.callStatus.code = false) :
    read.normalizeWith items (some descriptor) item =
      .ok (read.observation item descriptor
        { item := item, status := callFailureStatus read.result.callStatus.code }
        read.result.callStatus) := by
  unfold normalizeWith
  rw [resolve_failed items hfa]
  dsimp only
  rw [if_neg fun hmi => callFailureStatus_ne_valid _ hmi.1]

variable (husable : usableCallStatus read.result.callStatus.code = true)
  (hmem : item ∈ read.request.items)

include husable hmem

theorem normalizeWith_repeated (h : 2 ≤ (read.answersTo item).length) :
    read.normalizeWith (returnedItems read.request read.result) known item = .error 0 := by
  unfold normalizeWith
  rw [resolve_answers husable hmem]
  match hans : read.answersTo item with
  | [] => simp [hans] at h
  | [answer] => simp [hans] at h
  | first :: second :: rest => rfl

theorem normalizeWith_leftOut (h : read.leftOut known item = true) :
    read.normalizeWith (returnedItems read.request read.result) known item = .error 1 := by
  unfold leftOut at h
  unfold normalizeWith
  rw [resolve_answers husable hmem]
  match hans : read.answersTo item with
  | [] =>
    rw [hans] at h
    rw [Option.isNone_iff_eq_none.mp h]
  | [answer] =>
    rw [hans] at h
    by_cases hva : validProviderItem answer = true
    · cases known with
      | none => simp [hva]
      | some descriptor =>
        have hmi : answer.status = .valid ∧ ¬answer.value.any (valueMatches descriptor) := by
          simpa [hva] using h
        simp only [hva, if_true, if_pos hmi]
    · simp [hva]
  | first :: second :: rest => simp [hans] at h

theorem normalizeWith_unanswered (h : read.answersTo item = []) :
    read.normalizeWith (returnedItems read.request read.result) (some descriptor) item =
      .ok (read.observation item descriptor { item := item, status := .error }
        ⟨.internal, "provider omitted requested item"⟩) := by
  unfold normalizeWith
  rw [resolve_answers husable hmem, h]
  rfl

theorem normalizeWith_answered {answer : ProviderReadItemResult}
    (h : read.answersTo item = [answer]) (hke : read.leftOut known item = false) :
    ∃ descriptor, known = some descriptor ∧ validProviderItem answer = true ∧
      (answer.status = .valid → answer.value.any (valueMatches descriptor) = true) ∧
      read.normalizeWith (returnedItems read.request read.result) known item =
        .ok (read.observation item descriptor answer
          (if answer.status = .valid then .success
            else ⟨statusFor answer.status, "provider item read failed"⟩)) := by
  unfold leftOut at hke
  rw [h] at hke
  obtain ⟨hva, hke⟩ : validProviderItem answer = true ∧ _ = false := by
    simpa only [Bool.or_eq_false_iff, Bool.not_eq_false'] using hke
  cases known with
  | none => cases hke
  | some descriptor =>
    have hma : answer.status = .valid → answer.value.any (valueMatches descriptor) = true := by
      simpa using hke
    refine ⟨descriptor, rfl, hva, hma, ?_⟩
    unfold normalizeWith
    rw [resolve_answers husable hmem, h]
    simp only [hva, if_true]
    rw [if_neg fun hmi => hmi.2 (hma hmi.1)]

/-- Where the observation of an item comes from. -/
theorem normalizeWith_ok_cases
    (hok : read.normalizeWith (returnedItems read.request read.result) known item = .ok o) :
    ∃ descriptor, known = some descriptor ∧
      (read.answersTo item = [] ∧
          o = read.observation item descriptor { item := item, status := .error }
            ⟨.internal, "provider omitted requested item"⟩ ∨
        ∃ answer, read.answersTo item = [answer] ∧ validProviderItem answer = true ∧
          (answer.status = .valid → answer.value.any (valueMatches descriptor) = true) ∧
          o = read.observation item descriptor answer
            (if answer.status = .valid then .success
              else ⟨statusFor answer.status, "provider item read failed"⟩)) := by
  have hke : read.leftOut known item = false := by
    by_contra hleft
    rw [normalizeWith_leftOut husable hmem (by simpa using hleft)] at hok
    cases hok
  match hans : read.answersTo item with
  | [] =>
    have hkn : known.isSome = true := by simpa [leftOut, hans] using hke
    obtain ⟨descriptor, rfl⟩ := Option.isSome_iff_exists.mp hkn
    rw [normalizeWith_unanswered husable hmem hans] at hok
    cases hok
    exact ⟨descriptor, rfl, .inl ⟨rfl, rfl⟩⟩
  | [answer] =>
    obtain ⟨descriptor, hkn, hva, hma, hout⟩ :=
      normalizeWith_answered husable hmem hans hke
    rw [hout] at hok
    cases hok
    exact ⟨descriptor, hkn, .inr ⟨answer, rfl, hva, hma, rfl⟩⟩
  | first :: second :: rest =>
    rw [normalizeWith_repeated husable hmem (by simp [hans])] at hok
    cases hok

end Outcomes

section Batch

variable {read} {known : ProviderReadItem → Option MetricDescriptor} {item : ProviderReadItem}
  {items : ReturnedItems} {requests : List ProviderReadItem} {found : Option MetricDescriptor}
  {batch : List Observation} {violations : ℕ}

theorem normalizeAllWith_keys_nodup (hdi : requests.Nodup)
    (hmetric : ∀ item ∈ requests, item.kind = .metric) :
    ((read.normalizeAllWith items known requests).1.map Observation.key).Nodup := by
  induction requests with
  | nil => exact nodup_nil
  | cons requested rest ih =>
    obtain ⟨hfr, hdi⟩ := nodup_cons.mp hdi
    obtain ⟨hki, hmetric⟩ := forall_mem_cons.mp hmetric
    have hre := ih hdi hmetric
    rw [normalizeAllWith]
    cases hout : read.normalizeWith items (known requested) requested with
    | error violations => exact hre
    | ok observation =>
      rw [map_cons, nodup_cons]
      refine ⟨fun hin => ?_, hre⟩
      obtain ⟨other, hot, hkey⟩ := mem_map.mp hin
      obtain ⟨item, hit, hok⟩ := mem_normalizeAllWith.mp hot
      rw [normalizeWith_key hok, normalizeWith_key hout,
        ProviderReadItem.dataKey_inj ((hmetric item hit).trans hki.symm)] at hkey
      exact hfr (hkey ▸ hit)

section

variable (husable : usableCallStatus read.result.callStatus.code = true)

include husable

theorem violationsOf_normalizeWith (hmem : item ∈ read.request.items) :
    violationsOf (read.normalizeWith (returnedItems read.request read.result) found item) =
      if read.leftOut found item then 1 else 0 := by
  by_cases hle : read.leftOut found item = true
  · rw [normalizeWith_leftOut husable hmem hle, if_pos hle]
    rfl
  · rw [if_neg hle]
    match hans : read.answersTo item with
    | [] =>
      have hkn : found.isSome = true := by
        simpa [leftOut, hans, Option.isSome_iff_ne_none] using hle
      obtain ⟨descriptor, rfl⟩ := Option.isSome_iff_exists.mp hkn
      rw [normalizeWith_unanswered husable hmem hans]
      rfl
    | [answer] =>
      obtain ⟨descriptor, -, -, -, hok⟩ :=
        normalizeWith_answered husable hmem hans (Bool.eq_false_iff.mpr hle)
      rw [hok]
      rfl
    | first :: second :: rest =>
      rw [normalizeWith_repeated husable hmem (by simp [hans])]
      rfl

theorem normalizeAllWith_violations (hsub : requests ⊆ read.request.items) :
    (read.normalizeAllWith (returnedItems read.request read.result) known requests).2 =
      requests.countP fun item => read.leftOut (known item) item := by
  induction requests with
  | nil => rfl
  | cons requested rest ih =>
    obtain ⟨hmem, hsub⟩ := cons_subset.mp hsub
    have hfi : violationsOf (read.normalizeWith _ (known requested) requested) = _ :=
      violationsOf_normalizeWith husable hmem
    rw [normalizeAllWith, countP_cons, ← hfi, ← ih hsub]
    cases read.normalizeWith (returnedItems read.request read.result) (known requested)
        requested with
    | error violations => exact Nat.add_comm _ _
    | ok observation => rfl

theorem normalizeWith_valid_iff (hmem : item ∈ read.request.items) (value : MetricValue) :
    (∃ o, read.normalizeWith (returnedItems read.request read.result) found item = .ok o ∧
      o.status = .valid ∧ o.value = some value) ↔
    ∃ descriptor answer, found = some descriptor ∧ read.answersTo item = [answer] ∧
      validProviderItem answer = true ∧ answer.status = .valid ∧ answer.value = some value ∧
      valueMatches descriptor value = true := by
  constructor
  · rintro ⟨o, hok, hst, hva⟩
    obtain ⟨descriptor, hkn, ⟨-, rfl⟩ | ⟨answer, hans, hval, hmat, rfl⟩⟩ :=
      normalizeWith_ok_cases husable hmem hok
    · cases hst
    · have hma := hmat hst
      rw [show answer.value = some value from hva] at hma
      exact ⟨descriptor, answer, hkn, hans, hval, hst, hva, hma⟩
  · rintro ⟨descriptor, answer, rfl, hans, hval, hst, hva, hma⟩
    have hke : read.leftOut (some descriptor) item = false := by
      simp [leftOut, hans, hval, hva, hma]
    obtain ⟨_, hkn, -, -, hout⟩ := normalizeWith_answered husable hmem hans hke
    exact ⟨_, hout, hst, hva⟩

end

variable (hmetric : ∀ item ∈ read.request.items, item.kind = .metric)

include hmetric

theorem exists_mem_normalizeAllWith (hmem : item ∈ read.request.items) {P : Observation → Prop} :
    (∃ o ∈ (read.normalizeAllWith items known read.request.items).1, o.key = item.dataKey ∧ P o) ↔
      ∃ o, read.normalizeWith items (known item) item = .ok o ∧ P o := by
  constructor
  · rintro ⟨o, ho, hkey, hpr⟩
    obtain ⟨other, hot, hok⟩ := mem_normalizeAllWith.mp ho
    rw [normalizeWith_key hok,
      ProviderReadItem.dataKey_inj ((hmetric other hot).trans (hmetric item hmem).symm)] at hkey
    exact ⟨o, hkey ▸ hok, hpr⟩
  · rintro ⟨o, hok, hpr⟩
    exact ⟨o, mem_normalizeAllWith.mpr ⟨item, hmem, hok⟩, normalizeWith_key hok, hpr⟩

variable (hdi : read.request.items.Nodup) (hno : (batch, violations) =
  read.normalizeAllWith (returnedItems read.request read.result) known read.request.items)
include hdi hno

theorem normalizeAllWith_answered
    (husable : usableCallStatus read.result.callStatus.code = true) :
    read.Answered known batch
      ((returnedItems read.request read.result).contractViolations + violations) := by
  obtain ⟨rfl, rfl⟩ := Prod.mk.inj hno
  constructor
  · intro item hit value
    rw [exists_mem_normalizeAllWith hmetric hit]
    exact normalizeWith_valid_iff husable hit value
  · intro item hit hans hkn
    rw [exists_mem_normalizeAllWith hmetric hit]
    obtain ⟨descriptor, hkn⟩ := Option.ne_none_iff_exists'.mp hkn
    rw [hkn, normalizeWith_unanswered husable hit hans]
    exact ⟨_, rfl, rfl, rfl⟩
  · intro item hit hout o ho hkey
    obtain ⟨o, hok, -⟩ := (exists_mem_normalizeAllWith hmetric hit (P := fun _ => True)).mp
      ⟨o, ho, hkey, trivial⟩
    rcases hout with hre | hle
    · rw [normalizeWith_repeated husable hit hre] at hok
      cases hok
    · rw [normalizeWith_leftOut husable hit hle] at hok
      cases hok
  · rw [(returnedItems_describes husable).violations hdi,
      normalizeAllWith_violations husable (.refl _)]

theorem normalizeAllWith_normalized :
    read.Normalized known batch
      ((returnedItems read.request read.result).contractViolations + violations) := by
  have hba := (Prod.mk.inj hno).1
  constructor
  · rw [hba]
    exact normalizeAllWith_keys_nodup hdi hmetric
  · intro o ho
    rw [hba] at ho
    obtain ⟨item, hit, hok⟩ := mem_normalizeAllWith.mp ho
    exact ⟨item, hit, normalizeWith_key hok⟩
  · exact normalizeAllWith_answered hmetric hdi hno
  · intro hfa item hit hkn
    rw [hba, exists_mem_normalizeAllWith hmetric hit]
    obtain ⟨descriptor, hkn⟩ := Option.ne_none_iff_exists'.mp hkn
    rw [hkn]
    exact ⟨_, normalizeWith_failed _ hfa, callFailureStatus_ne_valid _, rfl⟩

end Batch

end FinishedRead
end Pdcm
