import Mathlib.Order.Lex
import Mathlib.Data.Prod.Lex
import Mathlib.Data.List.Basic
import Mathlib.Tactic

/-!
# Ordered maps as sorted binding lists

A map is the list of its bindings in strictly increasing key order, so that a
traversal of the list is a traversal in key order. The order is a field of the
structure: every operation returns a sorted list, and two maps with the same
lookups are equal.
-/

namespace Pdcm.Library

open List

/-- The order of the images under an injective function. The equality test is
the type's own. -/
abbrev orderBy {α β : Type*} [LinearOrder β] [DecidableEq α] (tie : α → β)
    (h : Function.Injective tie) : LinearOrder α :=
  { PartialOrder.lift tie h with
    le_total := fun a b => le_total (tie a) (tie b)
    toDecidableLE := fun a b => inferInstanceAs (Decidable (tie a ≤ tie b))
    toDecidableEq := inferInstance }

/-- Bindings in strictly increasing key order. -/
structure OrderedMap (K V : Type*) [LinearOrder K] where
  entries : List (K × V)
  sorted : entries.Pairwise fun a b => a.1 < b.1

namespace OrderedMap

variable {K V W : Type*} [LinearOrder K] {k j : K} {v : V} {m : OrderedMap K V} {α : Type*}
  {key : α → K} {l : List (K × V)} {value : α → V}

instance [DecidableEq V] : DecidableEq (OrderedMap K V) := fun m n =>
  decidable_of_iff (m.entries = n.entries) (by cases m; cases n; simp)

/-! ### Raw operations on binding lists -/

def lookup (k : K) : List (K × V) → Option V
  | [] => none
  | (k', v) :: rest => if k = k' then some v else lookup k rest

/-- Single pass insertion, replacing the value of an equal key. -/
def insertBinding (k : K) (v : V) : List (K × V) → List (K × V)
  | [] => [(k, v)]
  | (k', v') :: rest =>
    if k < k' then (k, v) :: (k', v') :: rest
    else if k = k' then (k, v) :: rest
    else (k', v') :: insertBinding k v rest

theorem mem_insertBinding {b : K × V} (h : b ∈ insertBinding k v l) : b = (k, v) ∨ b ∈ l := by
  induction l with
  | nil => simpa [insertBinding] using h
  | cons hd tl ih =>
    rw [insertBinding] at h
    split_ifs at h with h1 h2
    · simpa using h
    · rcases mem_cons.mp h with h | h
      · exact .inl h
      · exact .inr (mem_cons_of_mem _ h)
    · rcases mem_cons.mp h with h | h
      · exact .inr (by simp [h])
      · exact (ih h).imp_right (mem_cons_of_mem _)

theorem insertBinding_sorted (k : K) (v : V) (h : l.Pairwise fun a b => a.1 < b.1) :
    (insertBinding k v l).Pairwise fun a b => a.1 < b.1 := by
  induction l with
  | nil => simp [insertBinding]
  | cons hd tl ih =>
    have hhd := (pairwise_cons.mp h).1
    rw [insertBinding]
    split_ifs with h1 h2
    · refine pairwise_cons.mpr ⟨fun b hb => ?_, h⟩
      rcases mem_cons.mp hb with rfl | hb
      · exact h1
      · exact h1.trans (hhd b hb)
    · subst h2
      exact pairwise_cons.mpr ⟨hhd, h.of_cons⟩
    · refine pairwise_cons.mpr ⟨fun b hb => ?_, ih h.of_cons⟩
      rcases mem_insertBinding hb with rfl | hb
      · exact lt_of_le_of_ne (not_lt.mp h1) (.symm h2)
      · exact hhd b hb

theorem lookup_insertBinding (k j : K) (v : V) (l : List (K × V)) :
    lookup j (insertBinding k v l) = if j = k then some v else lookup j l := by
  induction l with
  | nil => rfl
  | cons hd tl ih =>
    by_cases hj : j = k
    · subst hj
      rw [if_pos rfl] at ih ⊢
      rw [insertBinding]
      split_ifs with h1 h2
      · simp [lookup]
      · simp [lookup]
      · simpa [lookup, h2] using ih
    · rw [if_neg hj] at ih ⊢
      rw [insertBinding]
      split_ifs with h1 h2
      · simp [lookup, hj]
      · subst h2
        simp [lookup, hj]
      · simp [lookup, ih]

/-! ### The map operations -/

def empty : OrderedMap K V := ⟨[], List.Pairwise.nil⟩

def find? (m : OrderedMap K V) (k : K) : Option V := lookup k m.entries

/-- `m[k] = v`. -/
def insert (m : OrderedMap K V) (k : K) (v : V) : OrderedMap K V :=
  ⟨insertBinding k v m.entries, insertBinding_sorted k v m.sorted⟩

/-- Insertion that keeps an existing binding. -/
def emplace (m : OrderedMap K V) (k : K) (v : V) : OrderedMap K V :=
  match m.find? k with
  | some _ => m
  | none => m.insert k v

def filter (p : K → V → Bool) (m : OrderedMap K V) : OrderedMap K V :=
  ⟨m.entries.filter fun b => p b.1 b.2, m.sorted.sublist List.filter_sublist⟩

def erase (m : OrderedMap K V) (k : K) : OrderedMap K V := m.filter fun j _ => decide (j ≠ k)

def mapValues (f : K → V → W) (m : OrderedMap K V) : OrderedMap K W :=
  ⟨m.entries.map fun b => (b.1, f b.1 b.2), List.pairwise_map.mpr m.sorted⟩

/-- Apply a function to the value of one key, if it is bound. -/
def modify (m : OrderedMap K V) (k : K) (f : V → V) : OrderedMap K V :=
  m.mapValues fun j v => if j = k then f v else v

def size (m : OrderedMap K V) : ℕ := m.entries.length

def keys (m : OrderedMap K V) : List K := m.entries.map Prod.fst

def contains (m : OrderedMap K V) (k : K) : Bool := (m.find? k).isSome

/-! ### Lookups -/

theorem mem_entries_iff : (k, v) ∈ m.entries ↔ m.find? k = some v := by
  obtain ⟨l, hl⟩ := m
  simp only [find?]
  induction l with
  | nil => simp [lookup]
  | cons hd tl ih =>
    obtain ⟨k', v'⟩ := hd
    have hhd := (pairwise_cons.mp hl).1
    by_cases hk : k = k'
    · subst hk
      have hnot : (k, v) ∉ tl := fun hm => lt_irrefl k (hhd (k, v) hm)
      simp [lookup, hnot, eq_comm]
    · simp [lookup, hk, ih hl.of_cons]

theorem ext_find? {n : OrderedMap K V} (h : ∀ k, m.find? k = n.find? k) : m = n := by
  have hno (o : OrderedMap K V) : o.entries.Nodup := o.sorted.imp fun hlt heq =>
    hlt.ne (congrArg Prod.fst heq)
  have hmem (b : K × V) : b ∈ m.entries ↔ b ∈ n.entries := by
    rw [mem_entries_iff, mem_entries_iff, h]
  have hpe := (perm_ext_iff_of_nodup (hno m) (hno n)).mpr hmem
  have hen : m.entries = n.entries := by
    apply hpe.eq_of_pairwise _ m.sorted n.sorted
    intro a b _ _ hab hba
    exact absurd hba hab.asymm
  cases m
  cases n
  congr

@[simp] theorem find?_empty (k : K) : (empty : OrderedMap K V).find? k = none := rfl

theorem find?_insert (m : OrderedMap K V) (k j : K) (v : V) :
    (m.insert k v).find? j = if j = k then some v else m.find? j :=
  lookup_insertBinding k j v m.entries

@[simp] theorem find?_insert_self (m : OrderedMap K V) (k : K) (v : V) :
    (m.insert k v).find? k = some v := by
  simp [find?_insert]

theorem find?_insert_of_ne (m : OrderedMap K V) (h : j ≠ k) (v : V) :
    (m.insert k v).find? j = m.find? j := by
  simp [find?_insert, h]

theorem find?_emplace (m : OrderedMap K V) (k j : K) (v : V) :
    (m.emplace k v).find? j = if j = k then some ((m.find? k).getD v) else m.find? j := by
  unfold emplace
  cases h : m.find? k with
  | none => simp [find?_insert]
  | some w => by_cases hj : j = k <;> simp [hj, h]

theorem find?_emplace_cases {u : V} (h : (m.emplace k v).find? j = some u) :
    m.find? j = some u ∨ u = v := by
  rw [find?_emplace] at h
  split_ifs at h with hk
  · cases hm : m.find? k with
    | none => exact .inr (by simpa [hm] using h.symm)
    | some w => exact .inl (by simpa [hk, hm] using h)
  · exact .inl h

theorem find?_emplace_of_some (h : m.find? k = some v) (j : K) (u : V) :
    (m.emplace j u).find? k = some v := by
  rw [find?_emplace]
  split_ifs with hk
  · subst hk
    simp [h]
  · exact h

theorem find?_foldl_emplace_of_some (l : List α) (h : m.find? k = some v) :
    (l.foldl (fun m x => m.emplace (key x) (value x)) m).find? k = some v := by
  induction l generalizing m with
  | nil => exact h
  | cons x rest ih => exact ih (find?_emplace_of_some h _ _)

/-- A map filled by insertions that keep existing bindings, from a list of distinct keys. -/
theorem find?_foldl_emplace (value : α → V) {l : List α} (hl : (l.map key).Nodup) {a : α}
    (ha : a ∈ l) (hm : m.find? (key a) = none) :
    (l.foldl (fun m x => m.emplace (key x) (value x)) m).find? (key a) = some (value a) := by
  induction l generalizing m with
  | nil => simp at ha
  | cons x rest ih =>
    obtain ⟨hx, hre⟩ := nodup_cons.mp hl
    rw [foldl_cons]
    rcases mem_cons.mp ha with rfl | ha
    · apply find?_foldl_emplace_of_some
      simp [find?_emplace, hm]
    · have hne : key a ≠ key x := fun heq => hx (heq ▸ mem_map_of_mem ha)
      apply ih hre ha
      rw [find?_emplace, if_neg hne, hm]

theorem mem_of_find?_foldl_emplace {l : List α}
    (h : (l.foldl (fun m x => m.emplace (key x) (value x)) m).find? k = some v) :
    m.find? k = some v ∨ ∃ x ∈ l, key x = k ∧ value x = v := by
  induction l generalizing m with
  | nil => exact .inl h
  | cons x rest ih =>
    rcases ih h with hm | ⟨y, hy, hv⟩
    · rw [find?_emplace] at hm
      split_ifs at hm with hk
      · rw [← hk, Option.some.injEq] at hm
        cases hold : m.find? k with
        | none =>
          rw [hold] at hm
          exact .inr ⟨x, mem_cons_self .., hk.symm, hm⟩
        | some w =>
          rw [hold] at hm
          exact .inl (congrArg some hm)
      · exact .inl hm
    · exact .inr ⟨y, mem_cons_of_mem _ hy, hv⟩

theorem find?_filter (p : K → V → Bool) (m : OrderedMap K V) (k : K) :
    (m.filter p).find? k = (m.find? k).filter (p k) := by
  have h : ∀ v, (m.filter p).find? k = some v ↔ (m.find? k).filter (p k) = some v := by
    intro v
    rw [← mem_entries_iff, filter, mem_filter, mem_entries_iff, Option.filter_eq_some_iff]
  exact Option.ext h

theorem find?_erase (m : OrderedMap K V) (k j : K) :
    (m.erase k).find? j = if j = k then none else m.find? j := by
  rw [erase, find?_filter]
  by_cases h : j = k
  · cases m.find? j <;> simp [Option.filter]
  · cases m.find? j <;> simp [h]

theorem erase_emplace (h : m.find? k = none) (v : V) : (m.emplace k v).erase k = m := by
  apply ext_find?
  intro j
  rw [find?_erase, find?_emplace]
  split_ifs with hj
  · rw [hj, h]
  · rfl

theorem find?_mapValues (f : K → V → W) (m : OrderedMap K V) (k : K) :
    (m.mapValues f).find? k = (m.find? k).map (f k) := by
  obtain ⟨l, hl⟩ := m
  simp only [find?, mapValues]
  clear hl
  induction l with
  | nil => rfl
  | cons hd tl ih =>
    by_cases h : k = hd.1
    · subst h; simp [lookup]
    · simpa [lookup, h] using ih

theorem find?_modify (m : OrderedMap K V) (k j : K) (f : V → V) :
    (m.modify k f).find? j = if j = k then (m.find? j).map f else m.find? j := by
  rw [modify, find?_mapValues]
  split_ifs with h
  · rfl
  · cases m.find? j <;> rfl

theorem exists_of_find?_modify {f : V → V} (h : (m.modify k f).find? j = some v) :
    ∃ old, m.find? j = some old ∧ (j = k ∧ v = f old ∨ j ≠ k ∧ v = old) := by
  rw [find?_modify] at h
  split_ifs at h with hkey
  · obtain ⟨old, hold, rfl⟩ := Option.map_eq_some_iff.mp h
    exact ⟨old, hold, .inl ⟨hkey, rfl⟩⟩
  · exact ⟨v, h, .inr ⟨hkey, rfl⟩⟩

theorem mem_keys : k ∈ m.keys ↔ ∃ v, m.find? k = some v := by
  simp only [keys, mem_map, ← mem_entries_iff]
  constructor
  · rintro ⟨⟨j, v⟩, h, rfl⟩
    exact ⟨v, h⟩
  · rintro ⟨v, h⟩
    exact ⟨(k, v), h, rfl⟩

theorem keys_nodup (m : OrderedMap K V) : m.keys.Nodup :=
  pairwise_map.mpr (m.sorted.imp fun h => h.ne)

@[simp] theorem keys_empty : (empty : OrderedMap K V).keys = [] := rfl

theorem mem_keys_insert : j ∈ (m.insert k v).keys ↔ j = k ∨ j ∈ m.keys := by
  simp only [mem_keys, find?_insert]
  split_ifs with h <;> simp [h]

/-- The keys of a map that a loop builds, from those that one round of it adds. -/
theorem mem_keys_foldl {α : Type*} {f : OrderedMap K V → α → OrderedMap K V} {p : α → Prop}
    (hf : ∀ m a, j ∈ (f m a).keys ↔ p a ∨ j ∈ m.keys) {l : List α} :
    j ∈ (l.foldl f m).keys ↔ (∃ a ∈ l, p a) ∨ j ∈ m.keys := by
  induction l generalizing m with
  | nil => simp
  | cons a rest ih =>
    rw [foldl_cons, ih, hf]
    simp only [mem_cons, exists_eq_or_imp]
    exact or_left_comm.trans or_assoc.symm

theorem keys_insert_perm (h : k ∉ m.keys) : (m.insert k v).keys.Perm (k :: m.keys) :=
  (perm_ext_iff_of_nodup (keys_nodup _) (nodup_cons.mpr ⟨h, m.keys_nodup⟩)).mpr fun j => by
    rw [mem_keys_insert, mem_cons]

@[simp] theorem keys_modify (m : OrderedMap K V) (k : K) (f : V → V) :
    (m.modify k f).keys = m.keys := by
  simp [keys, modify, mapValues, Function.comp_def]

theorem mem_keys_emplace : j ∈ (m.emplace k v).keys ↔ j = k ∨ j ∈ m.keys := by
  simp only [mem_keys, find?_emplace]
  split_ifs with h <;> simp [h]

theorem size_le_of_keys_subset {n : OrderedMap K W} (h : m.keys ⊆ n.keys) : m.size ≤ n.size := by
  have hle := (subperm_of_subset m.keys_nodup h).length_le
  simpa [keys, size] using hle

theorem size_insert_le_of_find? {w : V} (h : m.find? k = some w) :
    (m.insert k v).size ≤ m.size := by
  apply size_le_of_keys_subset
  intro j hj
  rcases mem_keys_insert.mp hj with rfl | hj
  · exact mem_keys.mpr ⟨w, h⟩
  · exact hj

theorem size_insert_le (m : OrderedMap K V) (k : K) (v : V) : (m.insert k v).size ≤ m.size + 1 := by
  obtain ⟨l, hl⟩ := m
  simp only [size, insert]
  clear hl
  induction l with
  | nil => exact le_rfl
  | cons hd tl ih =>
    rw [insertBinding]
    split_ifs
    · exact le_rfl
    · exact Nat.le_succ _
    · exact Nat.succ_le_succ ih

end OrderedMap
end Pdcm.Library
