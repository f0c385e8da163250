import Pdcm.Library.OrderedMap

/-!
# Fixed families of ordered maps

A sharded map is a vector of ordered maps. A place is a shard together with a key;
which shard a key belongs to is the business of the user, so every operation
addresses a place and the lemmas say what happens at all the others.
-/

namespace Pdcm.Library

open OrderedMap Finset

structure ShardedMap (K V : Type*) [LinearOrder K] (n : ℕ) where
  shards : Vector (OrderedMap K V) n

namespace OrderedMap

variable {K V : Type*} [LinearOrder K]

/-- Sum of a measure over the stored values. -/
def total (f : V → ℕ) (m : OrderedMap K V) : ℕ := (m.entries.map fun b => f b.2).sum

theorem total_modify (f : V → ℕ) (g : V → V) {m : OrderedMap K V} {k : K} {x : V}
    (h : m.find? k = some x) : (m.modify k g).total f + f x = m.total f + f (g x) := by
  obtain ⟨l, hl⟩ := m
  simp only [find?, total, modify, mapValues, List.map_map] at h ⊢
  induction l with
  | nil => simp [lookup] at h
  | cons hd tl ih =>
    obtain ⟨j, y⟩ := hd
    have hlt := (List.pairwise_cons.mp hl).1
    simp only [List.map_cons, List.sum_cons, Function.comp_apply]
    by_cases hj : k = j
    · subst hj
      obtain rfl : y = x := by simpa [lookup] using h
      have hta : tl.map ((fun b => f b.2) ∘ fun b => (b.1, if b.1 = k then g b.2 else b.2)) =
          tl.map fun b => f b.2 := by
        refine List.map_congr_left fun b hb => ?_
        simp [(hlt b hb).ne']
      rw [hta, if_pos rfl]
      omega
    · have hre := ih hl.of_cons (by simpa [lookup, hj] using h)
      rw [if_neg (Ne.symm hj)]
      omega

theorem total_insert (f : V → ℕ) (m : OrderedMap K V) (k : K) (v : V) :
    (m.insert k v).total f =
      f v + ((m.entries.filter fun b => decide (b.1 ≠ k)).map fun b => f b.2).sum := by
  obtain ⟨l, hl⟩ := m
  simp only [total, insert]
  induction l with
  | nil => rfl
  | cons hd tl ih =>
    obtain ⟨j, y⟩ := hd
    have hlt := (List.pairwise_cons.mp hl).1
    -- in a sorted list no key behind `k` is `k`
    have hke (hle : k ≤ j) : tl.filter (fun b => decide (b.1 ≠ k)) = tl := by
      rw [List.filter_eq_self]
      intro b hb
      exact decide_eq_true (hle.trans_lt (hlt b hb)).ne'
    rw [insertBinding]
    split_ifs with hbe hsa
    · rw [List.filter_cons_of_pos (by simpa using hbe.ne'), hke hbe.le]
      rfl
    · subst hsa
      rw [List.filter_cons_of_neg (by simp), hke le_rfl]
      rfl
    · have hre := ih hl.of_cons
      rw [List.filter_cons_of_pos (by simpa using Ne.symm hsa)]
      simp only [List.map_cons, List.sum_cons]
      omega

@[simp] theorem size_modify (m : OrderedMap K V) (k : K) (g : V → V) :
    (m.modify k g).size = m.size :=
  List.length_map ..

end OrderedMap

namespace ShardedMap

variable {K V : Type*} [LinearOrder K] {n : ℕ} (m : ShardedMap K V n) (i : Fin n)

instance [DecidableEq V] : DecidableEq (ShardedMap K V n) := fun a b =>
  decidable_of_iff (a.shards = b.shards) (by cases a; cases b; simp)

def empty : ShardedMap K V n := ⟨Vector.replicate n .empty⟩

def shard (m : ShardedMap K V n) (i : Fin n) : OrderedMap K V := m.shards[i]

/-- The value at a place. -/
def find? (m : ShardedMap K V n) (i : Fin n) (k : K) : Option V := (m.shard i).find? k

def setShard (m : ShardedMap K V n) (i : Fin n) (x : OrderedMap K V) : ShardedMap K V n :=
  ⟨m.shards.set i x⟩

def insert (m : ShardedMap K V n) (i : Fin n) (k : K) (v : V) : ShardedMap K V n :=
  m.setShard i ((m.shard i).insert k v)

def modify (m : ShardedMap K V n) (i : Fin n) (k : K) (f : V → V) : ShardedMap K V n :=
  m.setShard i ((m.shard i).modify k f)

/-- All bindings with their shard, in shard order and then in key order. -/
def bindings (m : ShardedMap K V n) : List (Fin n × K × V) :=
  (List.finRange n).flatMap fun i => (m.shard i).entries.map fun b => (i, b)

def size (m : ShardedMap K V n) : ℕ := ((List.finRange n).map fun i => (m.shard i).size).sum

/-- Sum of a measure over all stored values. -/
def total (f : V → ℕ) (m : ShardedMap K V n) : ℕ :=
  ((List.finRange n).map fun i => (m.shard i).total f).sum

@[simp] theorem find?_empty (k : K) : (empty : ShardedMap K V n).find? i k = none := by
  simp [find?, shard, empty]

theorem shard_setShard (j : Fin n) (x : OrderedMap K V) :
    (m.setShard i x).shard j = if j = i then x else m.shard j := by
  simp only [setShard, shard, Fin.getElem_fin, Vector.getElem_set, Fin.ext_iff, eq_comm]

theorem find?_insert (j : Fin n) (k l : K) (v : V) :
    (m.insert i k v).find? j l = if j = i ∧ l = k then some v else m.find? j l := by
  rw [find?, insert, shard_setShard]
  by_cases hj : j = i
  · subst hj
    by_cases hl : l = k <;> simp [find?_insert, find?]
  · simp [hj, find?]

theorem find?_modify (j : Fin n) (k l : K) (f : V → V) :
    (m.modify i k f).find? j l =
      if j = i ∧ l = k then (m.find? j l).map f else m.find? j l := by
  rw [find?, modify, shard_setShard]
  by_cases hj : j = i
  · subst hj
    by_cases hl : l = k <;> simp [find?_modify, find?]
  · simp [hj, find?]

theorem mem_bindings {m : ShardedMap K V n} {i : Fin n} {k : K} {v : V} :
    (i, k, v) ∈ m.bindings ↔ m.find? i k = some v := by
  simp [bindings, find?, ← mem_entries_iff]

theorem total_modify (f : V → ℕ) (g : V → V) {m : ShardedMap K V n} {i : Fin n} {k : K} {x : V}
    (h : m.find? i k = some x) : (m.modify i k g).total f + f x = m.total f + f (g x) := by
  have hpl := OrderedMap.total_modify f g h
  have hot : ∀ j ∈ (univ.erase i : Finset (Fin n)),
      ((m.modify i k g).shard j).total f = (m.shard j).total f := by
    intro j hj
    rw [modify, shard_setShard, if_neg (ne_of_mem_erase hj)]
  have hse : (m.modify i k g).shard i = (m.shard i).modify k g := by
    rw [modify, shard_setShard, if_pos rfl]
  simp only [total, ← Fin.sum_univ_def]
  rw [← add_sum_erase _ _ (mem_univ i), sum_congr rfl hot, hse,
    ← add_sum_erase .univ (fun j => (m.shard j).total f) (mem_univ i)]
  omega

@[simp] theorem total_empty (f : V → ℕ) : (empty : ShardedMap K V n).total f = 0 := by
  simp [total, shard, empty, OrderedMap.total, OrderedMap.empty]

@[simp] theorem size_empty : (empty : ShardedMap K V n).size = 0 := by
  simp [size, shard, empty, OrderedMap.size, OrderedMap.empty]

@[simp] theorem size_modify (k : K) (g : V → V) : (m.modify i k g).size = m.size := by
  unfold size
  congr 1
  apply List.map_congr_left
  intro j _
  rw [modify, shard_setShard]
  split_ifs with hj
  · rw [hj, OrderedMap.size_modify]
  · rfl

theorem ext_find? {m m' : ShardedMap K V n} (h : ∀ i k, m.find? i k = m'.find? i k) : m = m' := by
  obtain ⟨shards⟩ := m
  congr 1
  refine Vector.ext fun i hi => ?_
  exact OrderedMap.ext_find? fun k => h ⟨i, hi⟩ k

theorem total_eq_bindings (f : V → ℕ) (m : ShardedMap K V n) :
    m.total f = (m.bindings.map fun b => f b.2.2).sum := by
  simp only [bindings, List.map_flatMap, List.map_map]
  rw [List.flatMap_def, List.sum_flatten, List.map_map]
  rfl

theorem total_le {f g : V → ℕ} {m : ShardedMap K V n}
    (h : ∀ i k v, m.find? i k = some v → f v ≤ g v) : m.total f ≤ m.total g := by
  rw [total_eq_bindings, total_eq_bindings]
  refine List.sum_le_sum fun b hb => ?_
  exact h b.1 b.2.1 b.2.2 (mem_bindings.mp hb)

theorem size_eq_bindings : m.size = m.bindings.length := by
  simp [size, bindings, OrderedMap.size]

/-! ### Maps whose keys have one place -/

section Home

variable {W : Type*} {n' : ℕ} {home : K → Fin n} {home' : K → Fin n'} {m : ShardedMap K V n}
  {f : V → ℕ} {m' : ShardedMap K W n'}

/-- Every key is bound in its own shard only. -/
def AtHome (home : K → Fin n) (m : ShardedMap K V n) : Prop :=
  ∀ i k v, m.find? i k = some v → i = home k

variable (h : m.AtHome home)

include h

theorem AtHome.keys_nodup : (m.bindings.map fun b => b.2.1).Nodup := by
  have hke : (m.bindings.map fun b => b.2.1) =
      (List.finRange n).flatMap fun i => (m.shard i).keys := by
    simp only [bindings, List.map_flatMap, List.map_map]
    rfl
  rw [hke, List.nodup_flatMap]
  refine ⟨fun i _ => (m.shard i).keys_nodup, (List.nodup_finRange n).imp fun hne => ?_⟩
  intro k hi hj
  obtain ⟨v, hv⟩ := mem_keys.mp hi
  obtain ⟨w, hw⟩ := mem_keys.mp hj
  exact hne ((h _ k v hv).trans (h _ k w hw).symm)

theorem AtHome.mem_measured {k : K} {x : ℕ} :
    (k, x) ∈ (m.bindings.map fun b => (b.2.1, f b.2.2)) ↔
      (m.find? (home k) k).map f = some x := by
  rw [Option.map_eq_some_iff]
  constructor
  · intro hmem
    obtain ⟨⟨i, j, v⟩, hv, hpa⟩ := List.mem_map.mp hmem
    obtain ⟨rfl, rfl⟩ := Prod.mk.inj hpa
    have hfo := mem_bindings.mp hv
    obtain rfl := h i j v hfo
    exact ⟨v, hfo, rfl⟩
  · rintro ⟨v, hv, rfl⟩
    exact List.mem_map.mpr ⟨(home k, k, v), mem_bindings.mpr hv, rfl⟩

theorem AtHome.measured_nodup (f : V → ℕ) :
    (m.bindings.map fun b => (b.2.1, f b.2.2)).Nodup :=
  List.Nodup.of_map Prod.fst (by rw [List.map_map]; exact h.keys_nodup)

/-- Two maps that hold the same measures for the same keys, whatever the number of their
shards is. -/
theorem AtHome.perm_measured (h' : m'.AtHome home') {g : W → ℕ}
    (hsa : ∀ k, (m.find? (home k) k).map f = (m'.find? (home' k) k).map g) :
    (m.bindings.map fun b => (b.2.1, f b.2.2)).Perm
      (m'.bindings.map fun b => (b.2.1, g b.2.2)) := by
  rw [List.perm_ext_iff_of_nodup (h.measured_nodup f) (h'.measured_nodup g)]
  rintro ⟨k, x⟩
  rw [h.mem_measured, h'.mem_measured, hsa]

theorem AtHome.total_eq (h' : m'.AtHome home') {g : W → ℕ}
    (hsa : ∀ k, (m.find? (home k) k).map f = (m'.find? (home' k) k).map g) :
    m.total f = m'.total g := by
  have hsum := ((h.perm_measured h' hsa).map Prod.snd).sum_eq
  rw [List.map_map, List.map_map] at hsum
  rw [total_eq_bindings, total_eq_bindings]
  exact hsum

theorem AtHome.size_eq (h' : m'.AtHome home')
    (hsa : ∀ k, (m.find? (home k) k).isSome = (m'.find? (home' k) k).isSome) :
    m.size = m'.size := by
  have hpe := h.perm_measured h' (f := fun _ => 0) (g := fun _ => 0) fun k => by
    have := hsa k
    cases hm : m.find? (home k) k <;> cases hm' : m'.find? (home' k) k <;> simp_all
  have hle := hpe.length_eq
  rw [List.length_map, List.length_map] at hle
  rw [size_eq_bindings, size_eq_bindings, hle]

end Home

end ShardedMap
end Pdcm.Library
