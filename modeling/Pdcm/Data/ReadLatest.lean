import Mathlib.Data.List.Forall2
import Pdcm.Data.DataManager

/-!
# What a read returns

The four kinds of items that `readLatest` returns, and when it returns items at all.
-/

namespace Pdcm

open List Option

variable {α β : Type}

theorem forall₂_of_mapM {ε : Type} {f : α → Except ε β} {xs : List α} {ys : List β}
    (h : xs.mapM f = .ok ys) : List.Forall₂ (fun x y => f x = .ok y) xs ys := by
  induction xs generalizing ys with
  | nil =>
    cases h
    exact .nil
  | cons x xs ih =>
    cases hx : f x with
    | error e => simp [hx, bind, Except.bind] at h
    | ok z =>
      cases hxs : xs.mapM f with
      | error e => simp [hx, hxs, bind, Except.bind] at h
      | ok zs =>
        have hys : z :: zs = ys := by simpa [hx, hxs, bind, Except.bind, pure, Except.pure] using h
        rw [← hys]
        exact .cons hx (ih hxs)

theorem exists_of_forall₂ {r : α → β → Prop} {xs : List α} {ys : List β} (h : List.Forall₂ r xs ys)
    {y : β} (hy : y ∈ ys) : ∃ x ∈ xs, r x y := by
  induction h with
  | nil => cases hy
  | cons hr _ ih =>
    rcases mem_cons.mp hy with rfl | hy
    · exact ⟨_, mem_cons_self, hr⟩
    · obtain ⟨x, hx, hr'⟩ := ih hy
      exact ⟨x, mem_cons_of_mem _ hx, hr'⟩

theorem mapM_cases {ε : Type} (f : α → Except ε β) (xs : List α) :
    (∃ ys, xs.mapM f = .ok ys ∧ ∀ x ∈ xs, ∃ y ∈ ys, f x = .ok y) ∨
      ∃ e, xs.mapM f = .error e ∧ ∃ x ∈ xs, f x = .error e := by
  induction xs with
  | nil => exact .inl ⟨[], rfl, by simp⟩
  | cons x xs ih =>
    rw [mapM_cons]
    cases hx : f x with
    | error e => exact .inr ⟨e, rfl, x, by simp, hx⟩
    | ok y =>
      obtain ⟨ys, hys, hall⟩ | ⟨e, he, x', hx', hfa⟩ := ih
      · refine .inl ⟨y :: ys, by rw [hys]; rfl, ?_⟩
        intro x' hx'
        rcases mem_cons.mp hx' with rfl | hx'
        · exact ⟨y, by simp, hx⟩
        · obtain ⟨y', hy', hf⟩ := hall x' hx'
          exact ⟨y', by simp [hy'], hf⟩
      · exact .inr ⟨e, by rw [he]; rfl, x', by simp [hx'], hfa⟩

namespace DataManager

variable {L : Limits} {s : DataManager L} {key : DataKey} {allowStale : Bool} {now : ℤ}
  {keys : List DataKey} {required : ℕ} {o : Observation} {t : DataManager L}

/-- The item of a key whose entity is active. -/
inductive ItemRead (s : DataManager L) (allowStale : Bool) (now : ℤ) (key : DataKey) :
    Observation → Prop
  | unsupported (hmetric : s.catalog.metrics.find? key.metric = none) :
      ItemRead s allowStale now key (unavailable key {} s.catalog.generation s.commitEpoch now
        .unsupported .unsupported "metric is not in active catalog")
  | unsampled {descriptor : MetricDescriptor}
      (hmetric : s.catalog.metrics.find? key.metric = some descriptor)
      (hnone : (s.stored? key).bind Entry.latest = none) :
      ItemRead s allowStale now key (unavailable key descriptor s.catalog.generation s.commitEpoch
        now .unavailable .notAvailable "metric has not been sampled")
  | latest {descriptor : MetricDescriptor} {e : Entry} {o : Observation}
      (hmetric : s.catalog.metrics.find? key.metric = some descriptor)
      (he : s.stored? key = some e) (ho : e.latest = some o)
      (hshown : o.status = .valid ∨ allowStale = false ∨ e.lastValid = none) :
      ItemRead s allowStale now key o
  | stale {descriptor : MetricDescriptor} {e : Entry} {o v : Observation}
      (hmetric : s.catalog.metrics.find? key.metric = some descriptor)
      (he : s.stored? key = some e) (ho : e.latest = some o) (hv : e.lastValid = some v)
      (hfailed : o.status ≠ .valid) (hallowed : allowStale = true)
      (htime : v.observedMonotonicTimeNs ≤ now) :
      ItemRead s allowStale now key (staleItem o v now)

/-- The entity of the key is active in this very generation. -/
def Present (s : DataManager L) (key : DataKey) : Prop :=
  (s.catalog.entities.find? fun candidate => sameLogicalEntity candidate key.entity) =
    some key.entity

theorem Present.mem (h : s.Present key) : key.entity ∈ s.catalog.entities :=
  mem_of_find?_eq_some h

/-- A read returns an item exactly for an active entity, and one of the four kinds. -/
theorem readItem_iff :
    s.readItem allowStale now key = .ok o ↔ s.Present key ∧ s.ItemRead allowStale now key o := by
  constructor
  · intro h
    unfold readItem at h
    cases hfi : s.catalog.entities.find? fun cand =>
        sameLogicalEntity cand key.entity with
    | none => simp [hfi] at h
    | some cur =>
      simp only [hfi] at h
      split_ifs at h with hcur
      refine ⟨by rw [Present, hfi, not_not.mp hcur], ?_⟩
      cases hme : s.catalog.metrics.find? key.metric with
      | none =>
        simp only [hme, Except.ok.injEq] at h
        exact h ▸ .unsupported hme
      | some desc =>
        simp only [hme] at h
        cases he : s.stored? key with
        | none =>
          simp only [he, bind_none, Except.ok.injEq] at h
          exact h ▸ .unsampled hme (by simp [he])
        | some e =>
          cases hl : e.latest with
          | none =>
            simp only [he, hl, bind_some, map_none, Except.ok.injEq] at h
            exact h ▸ .unsampled hme (by simp [he, hl])
          | some latest =>
            simp only [he, hl, bind_some, map_some] at h
            split_ifs at h with hst
            · cases hv : e.lastValid with
              | none =>
                simp only [hv, Except.ok.injEq] at h
                exact h ▸ .latest hme he hl (.inr (.inr hv))
              | some v =>
                simp only [hv] at h
                split_ifs at h with hba
                rw [Except.ok.injEq] at h
                exact h ▸ .stale hme he hl hv hst.1 hst.2 (not_lt.mp hba)
            · rw [Except.ok.injEq] at h
              refine h ▸ .latest hme he hl ?_
              rcases Decidable.not_and_iff_not_or_not.mp hst with hva | hfr
              · exact .inl (not_not.mp hva)
              · exact .inr (.inl (eq_false_of_ne_true hfr))
  · rintro ⟨hpr, hit⟩
    rw [Present] at hpr
    cases hit with
    | unsupported hme => simp [readItem, hpr, hme]
    | @unsampled desc hme hno =>
      cases he : s.stored? key with
      | none => simp [readItem, hpr, hme, he]
      | some e =>
        have hl : e.latest = none := by simpa [he] using hno
        simp [readItem, hpr, hme, he, hl]
    | latest hme he hl hsh =>
      rcases hsh with hva | hfr | hv
      · simp [readItem, hpr, hme, he, hl, hva]
      · simp [readItem, hpr, hme, he, hl, hfr]
      · simp [readItem, hpr, hme, he, hl, hv]
    | stale hme he hl hv hfa hal hti =>
      simp [readItem, hpr, hme, he, hl, hv, hfa, hal, hti]

/-- An item read again from an unchanged store differs in its times only. -/
theorem readItem_again {now' : ℤ} (h : s.readItem allowStale now key = .ok o)
    (hsh : t.shards = s.shards) (hcat : t.catalog = s.catalog)
    (hep : t.commitEpoch = s.commitEpoch) (hnow : now ≤ now') :
    ∃ o', t.readItem allowStale now' key = .ok o' ∧ o'.commitEpoch = o.commitEpoch := by
  obtain ⟨hpr, hit⟩ := readItem_iff.mp h
  have hpr' : t.Present key := by rwa [Present, hcat]
  have hst : t.stored? key = s.stored? key := by rw [stored?, stored?, hsh]
  have hre : ∀ {o'}, t.ItemRead allowStale now' key o' →
      t.readItem allowStale now' key = .ok o' := fun hit' =>
    readItem_iff.mpr ⟨hpr', hit'⟩
  cases hit with
  | unsupported hme => exact ⟨_, hre (.unsupported (hcat ▸ hme)), hep⟩
  | unsampled hme hno =>
    exact ⟨_, hre (.unsampled (hcat ▸ hme) (hst ▸ hno)), hep⟩
  | latest hme he ho hsho =>
    exact ⟨_, hre (.latest (hcat ▸ hme) (hst ▸ he) ho hsho), rfl⟩
  | stale hme he ho hv hfa hal hti =>
    exact ⟨_, hre (.stale (hcat ▸ hme) (hst ▸ he) ho hv hfa hal (hti.trans hnow)), rfl⟩

/-- What ends a read early at a key: its entity, or a stale sample that is newer than the
time of the read. -/
inductive ReadRefusal (s : DataManager L) (allowStale : Bool) (now : ℤ) (key : DataKey) :
    Status → Prop
  | absent : ReadRefusal s allowStale now key ⟨.notFound, "query entity is not present"⟩
  | renewed :
      ReadRefusal s allowStale now key ⟨.staleGeneration, "query entity generation is stale"⟩
  | backward {e : Entry} {o v : Observation} (he : s.stored? key = some e)
      (ho : e.latest = some o) (hv : e.lastValid = some v) (hfailed : o.status ≠ .valid)
      (hallowed : allowStale = true) (htime : now < v.observedMonotonicTimeNs) :
      ReadRefusal s allowStale now key ⟨.invalidArgument, "query time moved backward"⟩

theorem readItem_error {status : Status} (h : s.readItem allowStale now key = .error status) :
    s.ReadRefusal allowStale now key status := by
  unfold readItem at h
  cases hfi : s.catalog.entities.find? fun cand =>
      sameLogicalEntity cand key.entity with
  | none =>
    simp only [hfi, Except.error.injEq] at h
    exact h ▸ .absent
  | some cur =>
    simp only [hfi] at h
    split_ifs at h with hcur
    · exact Except.error.inj h ▸ .renewed
    · cases hme : s.catalog.metrics.find? key.metric with
      | none => simp [hme] at h
      | some desc =>
        simp only [hme] at h
        cases hl : (s.stored? key).bind fun e => e.latest.map fun l => (e, l) with
        | none => simp [hl] at h
        | some found =>
          obtain ⟨e, he, hpa⟩ := bind_eq_some_iff.mp hl
          obtain ⟨o, ho, rfl⟩ := map_eq_some_iff.mp hpa
          simp only [hl] at h
          split_ifs at h with hsh
          cases hv : e.lastValid with
          | none => simp [hv] at h
          | some v =>
            simp only [hv] at h
            split_ifs at h with hti
            exact Except.error.inj h ▸ .backward he ho hv hsh.1 hsh.2 hti

/-! ### Whole reads -/

/-- When `readLatest` returns items: good arguments, a readable catalog and an item for
every key. -/
structure Readable (s : DataManager L) (keys : List DataKey) (allowStale : Bool) (now : ℤ)
    (required : ℕ) : Prop where
  arguments : ¬(keys = [] ∨ L.maxQueryItems < keys.length ∨ now < 0)
  nodup : (keys.insertionSort (· ≤ ·)).Nodup
  active : s.catalog.generation ≠ 0
  current : ¬(required ≠ 0 ∧ required ≠ s.catalog.generation)
  topology : s.catalog.topologyUnsupported = false
  items : ∀ key ∈ keys, ∃ o, s.readItem allowStale now key = .ok o

theorem readLatest_readable
    (h : (s.readLatest keys allowStale now required).status.code = .success ∨
      (s.readLatest keys allowStale now required).status.code = .partialResult) :
    s.Readable keys allowStale now required := by
  unfold readLatest at h
  dsimp only at h
  split_ifs at h with h1 h2 h3 h4 h5
  any_goals simp at h
  rcases mapM_cases (s.readItem allowStale now) (keys.insertionSort (· ≤ ·)) with
    ⟨items, hit, hall⟩ | ⟨st, hst, key, -, her⟩
  · refine ⟨h1, h2, h3, h4, eq_false_of_ne_true h5, ?_⟩
    intro key hkey
    obtain ⟨o, -, ho⟩ := hall key ((mem_insertionSort _).mpr hkey)
    exact ⟨o, ho⟩
  · cases readItem_error her <;> simp [hst] at h

theorem Readable.readLatest (h : s.Readable keys allowStale now required) :
    ∃ items : List Observation,
      s.readLatest keys allowStale now required =
        { catalogGeneration := s.catalog.generation
          observedCommitEpoch := s.commitEpoch
          items := items
          status :=
            if items.any fun item => decide (item.status ≠ .valid) then
              ⟨.partialResult, "data query contains non-valid items"⟩
            else .success } ∧
      List.Forall₂ (fun key o => s.readItem allowStale now key = .ok o)
        (keys.insertionSort (· ≤ ·)) items ∧
      (∀ o ∈ items, ∃ key ∈ keys, s.readItem allowStale now key = .ok o) ∧
      ∀ key ∈ keys, ∃ o ∈ items, s.readItem allowStale now key = .ok o := by
  rcases mapM_cases (s.readItem allowStale now) (keys.insertionSort (· ≤ ·)) with
    ⟨items, hit, -⟩ | ⟨status, -, key, hkey, her⟩
  · have hpa := forall₂_of_mapM hit
    refine ⟨items, ?_, hpa, ?_, ?_⟩
    · simp only [DataManager.readLatest, if_neg h.arguments, h.nodup, h.active, h.current,
        h.topology, hit, not_true_eq_false, Bool.false_eq_true, ↓reduceIte]
    · intro o ho
      obtain ⟨key, hkey, hit⟩ := exists_of_forall₂ hpa ho
      exact ⟨key, (mem_insertionSort _).mp hkey, hit⟩
    · intro key hkey
      obtain ⟨o, ho, hit⟩ :=
        exists_of_forall₂ hpa.flip ((mem_insertionSort _).mpr hkey)
      exact ⟨o, ho, hit⟩
  · obtain ⟨o, ho⟩ := h.items key ((mem_insertionSort _).mp hkey)
    rw [her] at ho
    cases ho

theorem Readable.again {now' : ℤ} (h : s.Readable keys allowStale now required)
    (hsh : t.shards = s.shards) (hcat : t.catalog = s.catalog)
    (hep : t.commitEpoch = s.commitEpoch) (hnow : now ≤ now') :
    t.Readable keys allowStale now' required where
  arguments := by
    have := h.arguments
    push Not at this ⊢
    exact ⟨this.1, this.2.1, this.2.2.trans hnow⟩
  nodup := h.nodup
  active := hcat ▸ h.active
  current := hcat ▸ h.current
  topology := hcat ▸ h.topology
  items := by
    intro key hkey
    obtain ⟨o, ho⟩ := h.items key hkey
    obtain ⟨o', ho', -⟩ := readItem_again ho hsh hcat hep hnow
    exact ⟨o', ho'⟩

end DataManager
end Pdcm
