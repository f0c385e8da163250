import Mathlib.Data.Finset.Card
import Mathlib.Data.List.Nodup
import Mathlib.Tactic

/-!
# Bounded memories of recent keys

A memory lists at most `capacity` keys, oldest first. Pushing a key it has changes
nothing; pushing a new one puts it at the end, and the oldest ones leave. A key that was
pushed and is not there any more was pushed out by `capacity` different other keys.
-/

namespace Pdcm.Library

open List

namespace RecentKeys

variable {α : Type*} [DecidableEq α] {since : List α}

def push (capacity : ℕ) (order : List α) (key : α) : List α :=
  if key ∈ order then order
  else (order ++ [key]).drop ((order ++ [key]).length - capacity)

/-- A memory in order: no key twice, and not more than fit. -/
structure Bounded (capacity : ℕ) (order : List α) : Prop where
  nodup : order.Nodup
  length_le : order.length ≤ capacity

variable {capacity : ℕ} {order : List α} {key : α}

omit [DecidableEq α] in
theorem bounded_nil : Bounded capacity ([] : List α) := ⟨nodup_nil, Nat.zero_le _⟩

omit [DecidableEq α] in
theorem Bounded.nodup_append (hbo : Bounded capacity order) (h : key ∉ order) :
    (order ++ [key]).Nodup := by
  rw [List.nodup_append]
  refine ⟨hbo.nodup, nodup_singleton key, ?_⟩
  intro a ha b hb hab
  rw [mem_singleton.mp hb] at hab
  exact h (hab ▸ ha)

theorem push_of_mem (h : key ∈ order) : push capacity order key = order := if_pos h

theorem push_of_not_mem (hbo : Bounded capacity order) (h : key ∉ order) :
    push capacity order key = order ++ [key] ∧ order.length < capacity ∨
      push capacity order key = (order ++ [key]).tail ∧ order.length = capacity := by
  have hle := hbo.length_le
  unfold push
  rw [if_neg h, length_append, length_singleton]
  rcases Nat.lt_or_ge order.length capacity with hro | hfu
  · left
    have hno : order.length + 1 - capacity = 0 := by omega
    rw [hno]
    exact ⟨rfl, hro⟩
  · right
    have hone : order.length + 1 - capacity = 1 := by omega
    rw [hone, drop_one]
    exact ⟨rfl, by omega⟩

theorem Bounded.push (hbo : Bounded capacity order) (key : α) :
    Bounded capacity (push capacity order key) := by
  by_cases h : key ∈ order
  · rwa [push_of_mem h]
  · have happ := hbo.nodup_append h
    rcases push_of_not_mem hbo h with ⟨heq, hro⟩ | ⟨heq, hfu⟩
    · rw [heq]
      refine ⟨happ, ?_⟩
      rw [length_append, length_singleton]
      omega
    · rw [heq]
      refine ⟨happ.sublist (tail_sublist _), ?_⟩
      rw [length_tail, length_append, length_singleton]
      omega

theorem mem_push {k : α} (h : k ∈ push capacity order key) : k ∈ order ∨ k = key := by
  unfold push at h
  split_ifs at h
  · exact .inl h
  · have happ := mem_of_mem_drop h
    rwa [mem_append, mem_singleton] at happ

/-- After `key` was pushed and then the keys `since`: it is still there, with only such
keys behind it, or enough other keys came to push it out. -/
def Held (capacity : ℕ) (key : α) (since order : List α) : Prop :=
  (∃ older newer, order = older ++ key :: newer ∧ ∀ k ∈ newer, k ∈ since) ∨
    capacity ≤ (since.toFinset.erase key).card

theorem Held.forgotten (h : Held capacity key since order) (hgo : key ∉ order) :
    capacity ≤ (since.toFinset.erase key).card := by
  rcases h with ⟨older, newer, rfl, -⟩ | h
  · simp at hgo
  · exact h

theorem held_push (hbo : Bounded capacity order) (hpos : 0 < capacity) (h : key ∉ order)
    (since : List α) : Held capacity key since (push capacity order key) := by
  left
  rcases push_of_not_mem hbo h with ⟨heq, -⟩ | ⟨heq, hfu⟩
  · exact ⟨order, [], heq, by simp⟩
  · cases order with
    | nil => simp at hfu; omega
    | cons first rest => exact ⟨rest, [], heq, by simp⟩

/-- One more key keeps an older one held: it stays, or the new key is the last of those
that pushed it out. -/
theorem Held.push (hbo : Bounded capacity order) (h : Held capacity key since order) {other : α} :
    Held capacity key (since ++ [other]) (push capacity order other) := by
  rcases h with ⟨older, newer, rfl, hne⟩ | h
  · have hsi : ∀ k ∈ newer ++ [other], k ∈ since ++ [other] := by
      intro k hk
      rcases mem_append.mp hk with hk | hk
      · exact mem_append_left _ (hne k hk)
      · exact mem_append_right _ hk
    by_cases hmem : other ∈ older ++ key :: newer
    · rw [push_of_mem hmem]
      exact .inl ⟨older, newer, rfl, fun k hk => hsi k (mem_append_left _ hk)⟩
    · rcases push_of_not_mem hbo hmem with ⟨heq, -⟩ | ⟨heq, hfu⟩
      · exact .inl ⟨older, newer ++ [other], by rw [heq]; simp, hsi⟩
      · cases older with
        | cons first older =>
          exact .inl ⟨older, newer ++ [other], by rw [heq]; simp, hsi⟩
        | nil =>
          -- `key` is the oldest one and leaves; the keys behind it are all different from it
          right
          have hno : (key :: (newer ++ [other])).Nodup := hbo.nodup_append hmem
          have hsu : (newer ++ [other]).toFinset ⊆ (since ++ [other]).toFinset.erase key := by
            intro k hk
            rw [mem_toFinset] at hk
            refine Finset.mem_erase.mpr ⟨?_, mem_toFinset.mpr (hsi k hk)⟩
            rintro rfl
            exact (nodup_cons.mp hno).1 hk
          have hca := Finset.card_le_card hsu
          rw [toFinset_card_of_nodup (nodup_cons.mp hno).2] at hca
          simp only [length_cons, length_append] at hfu hca
          omega
  · right
    refine h.trans (Finset.card_le_card (Finset.erase_subset_erase _ ?_))
    intro k hk
    rw [mem_toFinset] at hk ⊢
    exact mem_append_left _ hk

end RecentKeys
end Pdcm.Library
