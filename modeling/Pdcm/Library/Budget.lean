import Mathlib.Data.List.Infix
import Mathlib.Tactic

/-!
# Longest pieces of a list within a budget

A budget limits the number of items and the sum of their weights. Two loops find the
longest piece of a list within it: one drops items at the front until the rest fits, the
other takes items from the front as long as they fit. Since a part of what fits fits too,
a window that is kept at its longest only has to look at itself when an item is appended.
-/

namespace Pdcm.Library

open List

structure Budget (α : Type*) where
  count : ℕ
  weight : ℕ
  weigh : α → ℕ

namespace Budget

variable {α : Type*} {b : Budget α} {l v w : List α} {a : α}

def total (b : Budget α) (l : List α) : ℕ := (l.map b.weigh).sum

def Fits (b : Budget α) (l : List α) : Prop := l.length ≤ b.count ∧ b.total l ≤ b.weight

instance (b : Budget α) (l : List α) : Decidable (b.Fits l) := inferInstanceAs (Decidable (_ ∧ _))

@[simp] theorem total_cons (b : Budget α) (a : α) (l : List α) :
    b.total (a :: l) = b.weigh a + b.total l := by
  simp [total]

theorem fits_nil (b : Budget α) : b.Fits [] := ⟨Nat.zero_le _, Nat.zero_le _⟩

theorem Fits.sublist (h : b.Fits l) (hpa : w.Sublist l) : b.Fits w :=
  ⟨hpa.length_le.trans h.1, (hpa.map b.weigh).sum_le_sum (by simp) |>.trans h.2⟩

/-! ### Suffixes -/

/-- The longest suffix of `l` that fits. -/
structure LongestSuffix (b : Budget α) (l w : List α) : Prop where
  suffix : w <:+ l
  fits : b.Fits w
  longest : ∀ v, v <:+ l → b.Fits v → v.length ≤ w.length

theorem longestSuffix_of_fits (h : b.Fits l) : b.LongestSuffix l l :=
  ⟨suffix_refl l, h, fun _ hv _ => hv.length_le⟩

theorem LongestSuffix.cons (h : b.LongestSuffix l w) (hfu : ¬b.Fits (a :: l)) :
    b.LongestSuffix (a :: l) w := by
  refine ⟨h.suffix.trans (suffix_cons a l), h.fits, fun v hv hfi => ?_⟩
  rcases suffix_cons_iff.mp hv with rfl | hre
  · exact absurd hfi hfu
  · exact h.longest v hre hfi

/-- An item that is appended to the list is appended to the window, which then loses items
at its front only. -/
theorem LongestSuffix.append (h : b.LongestSuffix l w) {next : List α}
    (hne : b.LongestSuffix (w ++ [a]) next) : b.LongestSuffix (l ++ [a]) next := by
  obtain ⟨front, rfl⟩ := h.suffix
  refine ⟨hne.suffix.trans ⟨front, (append_assoc ..).symm⟩, hne.fits, ?_⟩
  intro v hv hfi
  rcases eq_nil_or_concat v with rfl | ⟨kept, last, rfl⟩
  · exact Nat.zero_le _
  · rw [concat_eq_append] at hv hfi ⊢
    -- without its last item the suffix is one of the old list, so the window is not shorter
    obtain ⟨gone, hdr⟩ := hv
    rw [← append_assoc] at hdr
    obtain ⟨hke, hla⟩ := append_inj' hdr rfl
    rw [singleton_inj] at hla
    subst hla
    have hle := h.longest kept ⟨gone, hke⟩ (hfi.sublist (sublist_append_left kept [last]))
    have hin : kept <:+ w := by
      refine suffix_of_suffix_length_le ⟨gone, hke⟩ ⟨front, rfl⟩ hle
    refine hne.longest _ ?_ hfi
    obtain ⟨between, rfl⟩ := hin
    exact ⟨between, (append_assoc ..).symm⟩

/-! ### Initial parts -/

/-- The longest initial part of `l` that fits. -/
structure LongestFront (b : Budget α) (l w : List α) : Prop where
  front : w <+: l
  fits : b.Fits w
  longest : ∀ v, v <+: l → b.Fits v → v.length ≤ w.length

/-- Items were taken until the next one did not fit any more. -/
theorem longestFront_of_stuck {rest : List α} (hfi : b.Fits w)
    (hst : ∀ a ∈ rest.head?, ¬b.Fits (w ++ [a])) : b.LongestFront (w ++ rest) w := by
  refine ⟨prefix_append w rest, hfi, fun v hv hv' => ?_⟩
  by_contra hlonger
  obtain ⟨more, rfl⟩ := prefix_of_prefix_length_le (prefix_append w rest) hv
    (not_le.mp hlonger).le
  cases more with
  | nil => simp at hlonger
  | cons a more =>
    have hhe : rest.head? = some a := by
      obtain ⟨after, haf⟩ := hv
      rw [append_assoc, append_cancel_left_eq] at haf
      rw [← haf]
      rfl
    refine hst a hhe (hv'.sublist ?_)
    exact (singleton_sublist.mpr mem_cons_self).append_left w

end Budget
end Pdcm.Library
