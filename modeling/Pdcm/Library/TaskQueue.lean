import Mathlib.Data.Finset.Basic
import Mathlib.Data.List.TakeWhile
import Mathlib.Order.Defs.LinearOrder

/-!
# A queue by priority, and keys that are held by one task at a time

`insertStable` puts an element behind everything of at least its priority. A queue that is
built this way is ordered by priority and, within a priority, by arrival. `Owned` says
that the taken keys are divided among their holders.
-/

namespace Pdcm.Library

/-! ### Stable insertion -/

section StableInsertion

variable {α β : Type*} [LinearOrder β] (priority : α → β) {queue : List α}

def insertStable (queue : List α) (a : α) : List α :=
  queue.takeWhile (fun b => decide (priority a ≤ priority b)) ++
    a :: queue.dropWhile fun b => decide (priority a ≤ priority b)

/-- Never a higher priority behind a lower one. -/
def OrderedBy (queue : List α) : Prop := queue.Pairwise fun a b => priority b ≤ priority a

/-- The elements of one priority, in their order. -/
def ofPriority (p : β) (queue : List α) : List α := queue.filter fun a => decide (priority a = p)

@[simp] theorem insertStable_nil (a : α) : insertStable priority [] a = [a] := rfl

theorem insertStable_cons (b : α) (rest : List α) (a : α) :
    insertStable priority (b :: rest) a =
      if priority a ≤ priority b then b :: insertStable priority rest a else a :: b :: rest := by
  unfold insertStable
  split_ifs with h
  · simp [h]
  · simp [h]

theorem mem_insertStable {a b : α} : b ∈ insertStable priority queue a ↔ b = a ∨ b ∈ queue := by
  induction queue with
  | nil => simp
  | cons head rest ih =>
    rw [insertStable_cons]
    split_ifs
    · rw [List.mem_cons, List.mem_cons, ih]
      exact or_left_comm
    · rw [List.mem_cons]

variable {priority} (h : OrderedBy priority queue)

include h

theorem OrderedBy.insertStable (a : α) :
    OrderedBy priority (insertStable priority queue a) := by
  induction queue with
  | nil => exact List.pairwise_singleton _ a
  | cons head rest ih =>
    obtain ⟨hhe, hre⟩ := List.pairwise_cons.mp h
    rw [insertStable_cons]
    split_ifs with hle
    · refine List.pairwise_cons.mpr ⟨?_, ih hre⟩
      intro b hb
      rcases (mem_insertStable priority).mp hb with rfl | hb
      · exact hle
      · exact hhe b hb
    · refine List.pairwise_cons.mpr ⟨?_, h⟩
      intro b hb
      have hlt := not_le.mp hle
      rcases List.mem_cons.mp hb with rfl | hb
      · exact hlt.le
      · exact (hhe b hb).trans hlt.le

/-- Within its priority the new element comes last. -/
theorem OrderedBy.ofPriority_insertStable (a : α) (p : β) :
    ofPriority priority p (Library.insertStable priority queue a) =
      ofPriority priority p queue ++ ofPriority priority p [a] := by
  induction queue with
  | nil => simp [ofPriority]
  | cons head rest ih =>
    obtain ⟨hhe, hre⟩ := List.pairwise_cons.mp h
    rw [insertStable_cons]
    split_ifs with hle
    · have hre' := ih hre
      simp only [ofPriority] at hre' ⊢
      by_cases hp : priority head = p
      · simp only [List.filter_cons, hp, decide_true, if_true, List.cons_append, hre']
      · simp only [List.filter_cons, hp, decide_false, if_false, hre', Bool.false_eq_true]
    · -- everything behind the place has a lower priority than the new element
      by_cases hp : priority a = p
      · have hno : ofPriority priority p (head :: rest) = [] := by
          refine List.filter_eq_nil_iff.mpr fun b hb => ?_
          have hlt : priority b < priority a := by
            rcases List.mem_cons.mp hb with rfl | hb
            · exact not_le.mp hle
            · exact (hhe b hb).trans_lt (not_le.mp hle)
          simpa [← hp] using hlt.ne
        rw [hno, ofPriority]
        simpa [ofPriority, hp] using hno
      · simp [ofPriority, hp]

theorem OrderedBy.sublist {sub : List α} (hsub : sub.Sublist queue) :
    OrderedBy priority sub :=
  List.Pairwise.sublist hsub h

end StableInsertion

/-! ### Exclusive keys -/

section Exclusive

variable {κ : Type*}

/-- The taken keys are those of the holders, and no key has two holders. -/
structure Owned (taken : Finset κ) (holders : List (Finset κ)) : Prop where
  disjoint : holders.Pairwise Disjoint
  taken_iff : ∀ key, key ∈ taken ↔ ∃ keys ∈ holders, key ∈ keys

variable {taken keys : Finset κ} {holders others : List (Finset κ)}

theorem Owned.nil : Owned (∅ : Finset κ) [] :=
  ⟨List.Pairwise.nil, by simp⟩

theorem Owned.perm (h : Owned taken holders) (hpe : others.Perm holders) : Owned taken others := by
  refine ⟨(hpe.pairwise_iff fun hab => hab.symm).mpr h.disjoint, fun key => ?_⟩
  rw [h.taken_iff]
  simp only [hpe.mem_iff]

variable [DecidableEq κ]

theorem Owned.acquire (h : Owned taken holders) (hfr : Disjoint taken keys) :
    Owned (taken ∪ keys) (keys :: holders) := by
  constructor
  · refine List.pairwise_cons.mpr ⟨fun other hot => ?_, h.disjoint⟩
    refine Finset.disjoint_left.mpr fun key hkey hhe => ?_
    exact Finset.disjoint_left.mp hfr ((h.taken_iff key).mpr ⟨other, hot, hhe⟩) hkey
  · intro key
    rw [Finset.mem_union, h.taken_iff, List.exists_mem_cons_iff]
    exact or_comm

theorem Owned.release (h : Owned taken (keys :: holders)) : Owned (taken \ keys) holders := by
  obtain ⟨hke, hre⟩ := List.pairwise_cons.mp h.disjoint
  refine ⟨hre, fun key => ?_⟩
  rw [Finset.mem_sdiff, h.taken_iff, List.exists_mem_cons_iff]
  constructor
  · rintro ⟨hkey | hkey, hnot⟩
    · exact absurd hkey hnot
    · exact hkey
  · rintro ⟨other, hot, hhe⟩
    refine ⟨.inr ⟨other, hot, hhe⟩, fun hkey => ?_⟩
    exact Finset.disjoint_left.mp (hke other hot) hkey hhe

end Exclusive

end Pdcm.Library
