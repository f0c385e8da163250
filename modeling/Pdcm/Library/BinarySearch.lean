import Mathlib.Data.List.TakeWhile
import Mathlib.Tactic

/-!
# Binary search in a partitioned list

`upperBound` halves an interval as `std::upper_bound` does. In a list whose items that lie
after the searched place follow all others, it finds the number of the others; the items
from there on are those a scan of the whole list finds.
-/

namespace Pdcm.Library

open List

variable {α : Type*} (after : α → Bool)

/-- The interval that is left starts at `first` and has `len` items. Each pass makes it
shorter, so its length is enough fuel. -/
def upperBoundLoop (l : List α) : ℕ → ℕ → ℕ → ℕ
  | 0, first, _ => first
  | _ + 1, first, 0 => first
  | fuel + 1, first, len + 1 =>
    let half := (len + 1) / 2
    match l[first + half]? with
    | none => first
    | some middle =>
      if after middle then upperBoundLoop l fuel first half
      else upperBoundLoop l fuel (first + half + 1) (len - half)

def upperBound (l : List α) : ℕ := upperBoundLoop after l l.length 0 l.length

/-- What lies after the searched place stays after it. -/
def Partitioned (l : List α) : Prop := l.Pairwise fun a b => after a = true → after b = true

/-- Where the items that lie after the searched place begin. -/
def partitionPoint (l : List α) : ℕ := (l.takeWhile fun a => !after a).length

variable {after} {l : List α}

theorem Partitioned.after_iff (h : Partitioned after l) {i : ℕ} {a : α} (ha : l[i]? = some a) :
    after a = true ↔ partitionPoint after l ≤ i := by
  induction l generalizing i with
  | nil => simp at ha
  | cons first rest ih =>
    obtain ⟨hfi, hre⟩ := pairwise_cons.mp h
    unfold partitionPoint
    cases haf : after first with
    | true =>
      -- nothing is taken, and all items lie after the place
      simp only [takeWhile_cons, haf, Bool.not_true, Bool.false_eq_true, if_false,
        length_nil, Nat.zero_le, iff_true]
      rcases mem_cons.mp (mem_of_getElem? ha) with rfl | hmem
      · exact haf
      · exact hfi a hmem haf
    | false =>
      simp only [takeWhile_cons, haf, Bool.not_false, if_true, length_cons]
      cases i with
      | zero =>
        obtain rfl : first = a := by simpa using ha
        simp [haf]
      | succ i =>
        rw [Nat.succ_le_succ_iff]
        exact ih hre ha

/-- The place stays within the interval until the interval is empty. -/
theorem Partitioned.upperBoundLoop_eq (h : Partitioned after l) {fuel first len : ℕ}
    (hfu : len ≤ fuel) (hend : first + len ≤ l.length)
    (hfi : first ≤ partitionPoint after l) (hla : partitionPoint after l ≤ first + len) :
    upperBoundLoop after l fuel first len = partitionPoint after l := by
  induction fuel generalizing first len with
  | zero =>
    rw [upperBoundLoop]
    omega
  | succ fuel ih =>
    cases len with
    | zero =>
      rw [upperBoundLoop]
      omega
    | succ len =>
      have hin : first + (len + 1) / 2 < l.length := by omega
      have hmi := getElem?_eq_getElem hin
      have hpl := h.after_iff hmi
      rw [upperBoundLoop, hmi]
      dsimp only
      split_ifs with haf
      · exact ih (by omega) (by omega) hfi (hpl.mp haf)
      · have hbe := not_le.mp (mt hpl.mpr haf)
        exact ih (by omega) (by omega) hbe (by omega)

theorem Partitioned.upperBound_eq (h : Partitioned after l) :
    upperBound after l = partitionPoint after l :=
  h.upperBoundLoop_eq le_rfl (by omega) (Nat.zero_le _)
    ((takeWhile_sublist _).length_le.trans_eq (Nat.zero_add _).symm)

theorem drop_partitionPoint (after : α → Bool) (l : List α) :
    l.drop (partitionPoint after l) = l.dropWhile fun a => !after a := by
  have hsp := takeWhile_append_dropWhile (p := fun a => !after a) (l := l)
  calc l.drop (partitionPoint after l)
      = (l.takeWhile (fun a => !after a) ++ l.dropWhile fun a => !after a).drop
          (partitionPoint after l) := by rw [hsp]
    _ = l.dropWhile fun a => !after a := drop_left

theorem Partitioned.dropWhile_eq_filter (h : Partitioned after l) :
    (l.dropWhile fun a => !after a) = l.filter after := by
  induction l with
  | nil => rfl
  | cons first rest ih =>
    obtain ⟨hfi, hre⟩ := pairwise_cons.mp h
    cases haf : after first with
    | true =>
      rw [dropWhile_cons_of_neg (by simp [haf]), filter_cons_of_pos haf,
        filter_eq_self.mpr fun a ha => hfi a ha haf]
    | false =>
      rw [dropWhile_cons_of_pos (by simp [haf]), filter_cons_of_neg (by simp [haf]),
        ih hre]

end Pdcm.Library
