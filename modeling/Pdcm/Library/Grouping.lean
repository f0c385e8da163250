import Pdcm.Library.OrderedMap

/-!
# Grouping a list by a key

The elements of a list are added to the group of their key one after the other. Together
the groups hold each element as often as the list does; sorted by an id that tells the
elements apart, they do not depend on the order of the list.
-/

namespace Pdcm.Library.OrderedMap

open List

variable {K I α : Type*} [LinearOrder K] [LinearOrder I] (key : α → K) {l : List α}

/-- `m[key a].push_back(a)`. -/
def addTo (key : α → K) (m : OrderedMap K (List α)) (a : α) : OrderedMap K (List α) :=
  m.insert (key a) ((m.find? (key a)).getD [] ++ [a])

def grouped (key : α → K) (l : List α) : OrderedMap K (List α) := l.foldl (addTo key) .empty

theorem grouped_concat (l : List α) (a : α) :
    grouped key (l ++ [a]) = addTo key (grouped key l) a := by
  simp [grouped]

/-! ### What a group holds -/

/-- The group of a key holds the elements with the key, in order; no group is empty. -/
theorem find?_grouped (l : List α) (k : K) :
    (grouped key l).find? k =
      if l.filter (fun a => decide (key a = k)) = [] then none
      else some (l.filter fun a => decide (key a = k)) := by
  induction l using reverseRecOn with
  | nil => rfl
  | append_singleton l a ih =>
    rw [grouped_concat, addTo, find?_insert]
    split_ifs with hk hem hem
    · simp [hk] at hem
    · subst hk
      rw [ih]
      split_ifs with hold <;> simp [hold]
    · rw [filter_append, append_eq_nil_iff] at hem
      rw [ih, if_pos hem.1]
    · have hot : key a ≠ k := fun heq => hk heq.symm
      simp only [filter_append, filter_cons, hot, decide_false, filter_nil,
        Bool.false_eq_true, if_false, append_nil] at hem ⊢
      rw [ih, if_neg hem]

/-! ### The groups together -/

theorem lookup_eq_none_of_lt {V : Type*} {k : K} {l : List (K × V)} (h : ∀ b ∈ l, k < b.1) :
    lookup k l = none := by
  induction l with
  | nil => rfl
  | cons hd rest ih =>
    obtain ⟨hlt, hre⟩ := forall_mem_cons.mp h
    rw [lookup, if_neg hlt.ne, ih hre]

theorem insertBinding_flatMap_perm (k : K) (a : α) {l : List (K × List α)}
    (hl : l.Pairwise fun x y => x.1 < y.1) :
    ((insertBinding k ((lookup k l).getD [] ++ [a]) l).flatMap Prod.snd).Perm
      (a :: l.flatMap Prod.snd) := by
  induction l with
  | nil => simp [insertBinding, lookup]
  | cons hd rest ih =>
    obtain ⟨k', group⟩ := hd
    obtain ⟨hhd, hre⟩ := pairwise_cons.mp hl
    rw [insertBinding, lookup]
    split_ifs with hlt hsa hsa
    · exact absurd hsa hlt.ne
    · -- the key is smaller than all others: a new group
      rw [lookup_eq_none_of_lt fun b hb => hlt.trans (hhd b hb)]
      simp
    · simp
    · exact ((ih hre).append_left group).trans perm_middle

theorem flatMap_grouped_perm (l : List α) : ((grouped key l).entries.flatMap Prod.snd).Perm l := by
  induction l using reverseRecOn with
  | nil => exact .refl _
  | append_singleton l a ih =>
    rw [grouped_concat]
    exact (insertBinding_flatMap_perm (key a) a (grouped key l).sorted).trans
      ((ih.cons a).trans (perm_append_singleton a l).symm)

/-! ### Sorted groups -/

def sortById (id : α → I) (l : List α) : List α := l.insertionSort fun a b => id a ≤ id b

theorem sortById_perm (id : α → I) (l : List α) : (sortById id l).Perm l :=
  perm_insertionSort _ l

theorem sortById_pairwise (id : α → I) (l : List α) :
    (sortById id l).Pairwise fun a b => id a ≤ id b := by
  exact pairwise_insertionSort _ l

theorem sortById_eq_of_perm {id : α → I} {l' : List α} (hpe : l.Perm l') (hids : (l.map id).Nodup) :
    sortById id l = sortById id l' := by
  have hso : (sortById id l).Perm (sortById id l') :=
    (sortById_perm id l).trans (hpe.trans (sortById_perm id l').symm)
  apply hso.eq_of_pairwise _ (sortById_pairwise id l) (sortById_pairwise id l')
  intro a b ha hb hab hba
  apply inj_on_of_nodup_map hids _ _ (le_antisymm hab hba)
  · exact (sortById_perm id l).mem_iff.mp ha
  · exact hpe.mem_iff.mpr ((sortById_perm id l').mem_iff.mp hb)

theorem sorted_grouped_eq_of_perm {id : α → I} {l' : List α} (hpe : l.Perm l')
    (hids : (l.map id).Nodup) :
    (grouped key l).mapValues (fun _ => sortById id) =
      (grouped key l').mapValues fun _ => sortById id := by
  apply ext_find?
  intro k
  have hgr := hpe.filter fun a => decide (key a = k)
  rw [find?_mapValues, find?_mapValues, find?_grouped, find?_grouped]
  by_cases hem : l.filter (fun a => decide (key a = k)) = []
  · rw [hem] at hgr
    rw [if_pos hem, if_pos hgr.symm.eq_nil]
  · have hot : l'.filter (fun a => decide (key a = k)) ≠ [] := by
      intro heq
      rw [heq] at hgr
      exact hem hgr.eq_nil
    rw [if_neg hem, if_neg hot, Option.map_some, Option.map_some]
    rw [sortById_eq_of_perm hgr (hids.sublist (filter_sublist.map id))]

end Pdcm.Library.OrderedMap
