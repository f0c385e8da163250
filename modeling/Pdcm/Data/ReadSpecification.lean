import Pdcm.Data.QueryRuns

/-!
# What `readLatest` returns

In every state that calls of the data manager can reach, the stored samples are those that
`validateObservation` accepted, and the catalog is one that the activation checked. From
this follows what the items of a read are: one for each key, in key order, valid or stale
exactly as the stored samples say, and each of them an observation that
`validateObservation` accepts, those that the read makes up included.
-/

namespace Pdcm

open Library List

namespace DataManager

variable {L : Limits} {s : DataManager L} {t : DataManager L} {allowStale : Bool} {now : ℤ}
  {key : DataKey} {keys : List DataKey} {P : DataManager L → Prop} {item o v : Observation}
  {other : List DataKey}

/-! ### Catalogs of reachable stores -/

/-- What the activation has checked of the catalog. -/
structure CatalogSound (s : DataManager L) : Prop where
  entity : ∀ entity ∈ s.catalog.entities, entity.kind ≠ .unknown ∧ entity.generation ≠ 0
  metric : ∀ metric descriptor, s.metricDescriptor metric = some descriptor →
    metric ≠ 0 ∧ descriptor.semanticVersion ≠ 0

theorem CatalogSound.of_eq (h : s.CatalogSound) (hcat : t.catalog = s.catalog) :
    t.CatalogSound := by
  obtain ⟨hen, hme⟩ := h
  unfold metricDescriptor at hme
  rw [← hcat] at hen hme
  exact ⟨hen, hme⟩

theorem activateCatalogLocked_catalogSound (h : s.CatalogSound) (cat : Option CatalogView)
    (target : TargetCatalog) : (s.activateCatalogLocked cat target).1.CatalogSound := by
  unfold activateCatalogLocked
  cases cat with
  | none => exact h
  | some view =>
    dsimp only
    split_ifs with hgen hva hen hba hsa
    · exact h
    · exact h
    · exact h
    · exact h
    · constructor
      · intro ent hent
        obtain ⟨rec, hre, rfl⟩ := mem_map.mp hent
        have hde : rec.ref.kind = .device ∧ rec.ref.generation ≠ 0 := by
          simp only [any_eq_true, decide_eq_true_eq, not_exists, not_and] at hen
          have := hen rec hre
          push Not at this
          exact this.2
        exact ⟨by simp [hde.1], hde.2⟩
      · intro mid desc hfi
        obtain ⟨rfl, hus⟩ := TargetCatalog.usable_of_validate hva hfi
        exact ⟨hus.id, hus.semanticVersion⟩
    · exact h

theorem initial_catalogSound (L : Limits) : (initial L).CatalogSound := by
  constructor
  · intro ent hen
    cases hen
  · intro mid desc hfi
    cases hfi

theorem DataStep.catalogSound (hst : DataStep s t) (h : s.CatalogSound) : t.CatalogSound := by
  cases hst with
  | unchanged => exact h
  | activated cat target => exact activateCatalogLocked_catalogSound h cat target
  | committed obs =>
    apply h.of_eq
    rcases s.commitLocked_cases obs with ⟨-, hs, -⟩ | ⟨-, shards, -, hs, -⟩ <;> rw [hs]
  | evidence e =>
    apply h.of_eq
    rcases s.commitHeartbeatEvidence_cases e with ⟨hs, -⟩ | ⟨rest, -, hs, -⟩ <;> rw [hs]
    rfl
  | health r =>
    apply h.of_eq
    rcases s.commitHealthLocked_cases r with ⟨-, hs, -⟩ | ⟨-, -, hs⟩ <;> rw [hs]
    rfl
  | published draft => exact h.of_eq rfl

/-! ### Stored samples -/

/-- The samples that reads return are accepted ones. -/
def SamplesValid (s : DataManager L) : Prop :=
  ∀ i key e, s.shards.find? i key = some e → ∀ o, e.latest = some o ∨ e.lastValid = some o →
    (validateObservation o).ok = true

theorem SamplesValid.of_eq (h : s.SamplesValid) (hsh : t.shards = s.shards) :
    t.SamplesValid := by
  unfold SamplesValid
  rw [hsh]
  exact h

theorem SamplesValid.committed (h : s.SamplesValid) {obs : List Observation} {shards : Shards L}
    (hc : s.Committed obs shards) :
    SamplesValid { s with shards := shards, commitEpoch := s.commitEpoch + 1 } := by
  intro i key e he o ho
  obtain ⟨b, hb, rfl, rfl, htr⟩ | ⟨old, hold, htr⟩ := hc.find?_cases he
  · rw [htr.latest, htr.lastValid] at ho
    rcases CommitLog.record_samples ho with rfl | hold
    · exact (hc.accepted b hb).valid
    · cases hs : s.stored? b.key with
      | none => simp [hs] at hold
      | some old =>
        rw [hs] at hold
        exact h _ _ old hs o (.inr hold)
  · rw [htr.latest, htr.lastValid] at ho
    exact h i key old hold o ho

theorem DataStep.samplesValid (hst : DataStep s t) (h : s.SamplesValid) : t.SamplesValid := by
  obtain ⟨op, hout⟩ := hst.outcome
  cases hout with
  | unchanged => exact h
  | activated =>
    intro i key e he
    simp at he
  | committed hc => exact h.committed hc
  | evidence => exact h.of_eq rfl
  | health => exact h.of_eq rfl
  | published => exact h.of_eq rfl

theorem initial_samplesValid (L : Limits) : (initial L).SamplesValid := by
  intro i key e he
  simp [initial] at he

/-- What the reads of a store rest on. -/
structure ReadInvariant (s : DataManager L) : Prop where
  store : s.StoreInvariant
  samples : s.SamplesValid
  catalog : s.CatalogSound

theorem DataStep.readInvariant (hst : DataStep s t) (h : s.ReadInvariant) : t.ReadInvariant :=
  ⟨hst.storeInvariant h.store, hst.samplesValid h.samples, hst.catalogSound h.catalog⟩

theorem run_readInvariant (L : Limits) (ops : List DataOp) : (run L ops).ReadInvariant := by
  refine invariant_run (fun s op hs => ?_) ?_ ops
  · exact invariant_apply (fun _ _ hst h => hst.readInvariant h) hs op
  · exact ⟨initial_storeInvariant L, initial_samplesValid L, initial_catalogSound L⟩

/-! ### Items -/

def lastValid? (s : DataManager L) (key : DataKey) : Option Observation :=
  (s.stored? key).bind Entry.lastValid

/-- The item that a read owes to a key. -/
structure ItemSpec (s : DataManager L) (allowStale : Bool) (now : ℤ) (key : DataKey)
    (item : Observation) : Prop where
  key_eq : item.key = key
  valid_iff : item.status = .valid ↔ ∃ o, s.latest? key = some o ∧ o.status = .valid
  valid_eq : item.status = .valid → s.latest? key = some item
  stale_iff : item.status = .stale ↔ allowStale = true ∧
    (∃ o, s.latest? key = some o ∧ o.status ≠ .valid) ∧ (s.lastValid? key).isSome
  stale_eq : item.status = .stale → ∀ o v, s.latest? key = some o → s.lastValid? key = some v →
    item.value = v.value ∧
    item.scheduledMonotonicTimeNs = v.scheduledMonotonicTimeNs ∧
    item.sourceSampleTimeNs = v.sourceSampleTimeNs ∧
    item.observedMonotonicTimeNs = v.observedMonotonicTimeNs ∧
    item.observedWallTimeNs = v.observedWallTimeNs ∧
    item.staleAgeNs = some (now - v.observedMonotonicTimeNs) ∧
    0 ≤ now - v.observedMonotonicTimeNs ∧
    item.latestFailure = some o.error
  accepted : (validateObservation item).ok = true

/-! ### Keys of the items -/

theorem StoreInvariant.readItem_key (h : s.StoreInvariant)
    (hre : s.readItem allowStale now key = .ok item) : item.key = key := by
  cases (readItem_iff.mp hre).2 with
  | unsupported => rfl
  | unsampled => rfl
  | latest _ he ho => exact ((h _ _ _ he).2.consistent.own _ (.inl ho)).1
  | stale _ he _ hv => exact ((h _ _ _ he).2.consistent.own _ (.inr (.inl hv))).1

theorem StoreInvariant.readLatest_keys (h : s.StoreInvariant) {need : ℕ}
    (hre : (s.readLatest keys allowStale now need).status.code = .success ∨
      (s.readLatest keys allowStale now need).status.code = .partialResult) :
    let r := s.readLatest keys allowStale now need
    r.items.map Observation.key = keys.insertionSort (· ≤ ·) ∧
      (r.items.map Observation.key).Pairwise (· < ·) := by
  intro r
  have hrea := readLatest_readable hre
  obtain ⟨items, hr, hpai, -⟩ := hrea.readLatest
  have hke : r.items.map Observation.key = keys.insertionSort (· ≤ ·) := by
    have hpa := hpai.imp fun _ _ hit => (h.readItem_key hit).symm
    rw [← forall₂_map_right_iff, forall₂_eq_eq_eq] at hpa
    rw [show r.items = items from congrArg DataReadResult.items hr]
    exact hpa.symm
  refine ⟨hke, ?_⟩
  rw [hke]
  have hso := pairwise_insertionSort (· ≤ ·) keys
  exact (hso.and hrea.nodup).imp fun hlt => lt_of_le_of_ne hlt.1 hlt.2

/-! ### Items are accepted -/

theorem unavailable_accepted (hcat : s.CatalogSound) (hac : s.catalog.generation ≠ 0)
    (hpr : s.Present key) (hme : key.metric ≠ 0) (hnow : 0 ≤ now)
    (desc : MetricDescriptor) {code : StatusCode} (hco : code ≠ .success)
    {st : ObservationStatus} (hst : st = .unsupported ∨ st = .notAvailable)
    (msg : String) :
    (validateObservation (unavailable key desc s.catalog.generation s.commitEpoch now code
      st msg)).ok = true := by
  obtain ⟨hki, hgen⟩ := hcat.entity key.entity hpr.mem
  apply validateObservation_ok
  · rintro (h | h | h | h)
    · exact hki h
    · exact hgen h
    · exact hme h
    · simp only [unavailable] at h
      split_ifs at h with hver
      exact hver h
  · rintro (h | h | h | ⟨time, hti, -⟩)
    · exact lt_irrefl 0 h
    · exact absurd hnow h.not_ge
    · exact hac h
    · cases hti
  · rcases hst with rfl | rfl <;> simp [statusMetadataInvalid, unavailable, hco]
  · rfl

theorem value_ne_none_iff (h : (validateObservation o).ok = true) (hst : o.status ≠ .stale) :
    o.value ≠ none ↔ o.status = .valid := by
  have hme := validateObservation_metadata h
  cases hs : o.status <;> simp_all [statusMetadataInvalid, Option.isNone_iff_eq_none]

theorem staleItem_accepted (ho : (validateObservation o).ok = true) (hfa : o.status ≠ .valid)
    (hst : o.status ≠ .stale) (hv : (validateObservation v).ok = true)
    (hva : v.status = .valid) (hti : v.observedMonotonicTimeNs ≤ now) :
    (validateObservation (staleItem o v now)).ok = true := by
  have hme : statusMetadataInvalid (staleItem o v now) = none := by
    obtain ⟨value, hval⟩ := Option.ne_none_iff_exists'.mp
      ((value_ne_none_iff hv (by simp [hva])).mpr hva)
    have her : o.error.status.code ≠ .success := by
      have hmo := validateObservation_metadata ho
      unfold statusMetadataInvalid at hmo
      split at hmo
      next hva => exact absurd hva hfa
      next hold => exact absurd hold hst
      all_goals
        split_ifs at hmo with her
        push Not at her
        exact fun hco => her.2.1 ((Status.ok_iff _).mpr hco)
    simp [statusMetadataInvalid, staleItem, hval, her, hti]
  -- apart from the metadata the item is the old sample
  have hsa : validateObservation (staleItem o v now) = validateObservation v := by
    unfold validateObservation
    rw [hme, validateObservation_metadata hv]
    rfl
  rw [hsa]
  exact hv

/-- Every item of a read is the one that is owed to its key. -/
theorem ReadInvariant.itemSpec (h : s.ReadInvariant) (hac : s.catalog.generation ≠ 0)
    (hnow : 0 ≤ now) (hme : key.metric ≠ 0) (hre : s.readItem allowStale now key = .ok item) :
    s.ItemSpec allowStale now key item := by
  obtain ⟨hpr, hit⟩ := readItem_iff.mp hre
  cases hit with
  | unsupported hnon =>
    -- nothing is stored for a metric that the catalog does not have
    have hsto : s.stored? key = none := by
      cases hs : s.stored? key with
      | none => rfl
      | some e =>
        have hkn := (h.store _ _ e hs).2.metric
        rw [hnon] at hkn
        cases hkn
    refine ⟨rfl, ?_, ?_, ?_, ?_, ?_⟩
    · simp [unavailable, latest?, hsto]
    · simp [unavailable]
    · simp [unavailable, latest?, hsto]
    · simp [unavailable]
    · exact unavailable_accepted h.catalog hac hpr hme hnow _ (by simp) (.inl rfl) _
  | unsampled hkn hnon =>
    have hla : s.latest? key = none := hnon
    refine ⟨rfl, ?_, ?_, ?_, ?_, ?_⟩
    · simp [unavailable, hla]
    · simp [unavailable]
    · simp [unavailable, hla]
    · simp [unavailable]
    · exact unavailable_accepted h.catalog hac hpr hme hnow _ (by simp) (.inr rfl) _
  | @latest desc e o hkn he ho hsh =>
    have hen := (h.store _ _ e he).2
    have hla : s.latest? key = some item := by rw [latest?, he]; exact ho
    have hno := (hen.consistent.latest item ho).2.2.1
    refine ⟨h.store.readItem_key hre, ?_, fun _ => hla, ?_, ?_, ?_⟩
    · simp [hla]
    · constructor
      · exact fun hst => absurd hst hno
      · rintro ⟨hal, ⟨o, ho', hfa⟩, hso⟩
        obtain rfl : item = o := Option.some.inj (hla.symm.trans ho')
        rcases hsh with hva | hfr | hlas
        · exact absurd hva hfa
        · rw [hal] at hfr
          cases hfr
        · simp [lastValid?, he, hlas] at hso
    · exact fun hst => absurd hst hno
    · exact h.samples _ _ e he item (.inl ho)
  | @stale desc e o v hkn he ho hv hfa hal hti =>
    have hen := (h.store _ _ e he).2
    have hla : s.latest? key = some o := by rw [latest?, he]; exact ho
    have hlas : s.lastValid? key = some v := by rw [lastValid?, he]; exact hv
    refine ⟨h.store.readItem_key hre, ?_, ?_, ?_, ?_, ?_⟩
    · simp [staleItem, hla, hfa]
    · simp [staleItem]
    · simp [staleItem, hla, hlas, hfa, hal]
    · intro _ o' v' ho' hv'
      obtain rfl : o = o' := Option.some.inj (hla.symm.trans ho')
      obtain rfl : v = v' := Option.some.inj (hlas.symm.trans hv')
      exact ⟨rfl, rfl, rfl, rfl, rfl, rfl, sub_nonneg.mpr hti, rfl⟩
    · exact staleItem_accepted (h.samples _ _ e he o (.inl ho)) hfa
        (hen.consistent.latest o ho).2.2.1 (h.samples _ _ e he v (.inr hv))
        (hen.consistent.lastValid v hv).1 hti

/-! ### Whole reads -/

theorem insertionSort_eq_of_perm (h : other.Perm keys) :
    other.insertionSort (· ≤ ·) = keys.insertionSort (· ≤ ·) :=
  (((perm_insertionSort _ other).trans h).trans
    (perm_insertionSort _ keys).symm).eq_of_pairwise'
      (pairwise_insertionSort _ other) (pairwise_insertionSort _ keys)

theorem readLatest_perm (s : DataManager L) (h : other.Perm keys) (allowStale : Bool) (now : ℤ)
    (required : ℕ) :
    s.readLatest other allowStale now required = s.readLatest keys allowStale now required := by
  have hnil : other = [] ↔ keys = [] := by
    constructor
    · rintro rfl
      exact h.nil_eq.symm
    · rintro rfl
      exact h.eq_nil
  unfold readLatest
  simp only [insertionSort_eq_of_perm h, hnil, h.length_eq]

/-- In every state that calls of the manager can reach, a read that returns items returns
for each key, in key order, the item that is owed to it. -/
theorem readLatest_spec (L : Limits) (ops : List DataOp) (keys : List DataKey)
    (hmetrics : ∀ key ∈ keys, key.metric ≠ 0) (allowStale : Bool) (now : ℤ) (required : ℕ) :
    let r := (run L ops).readLatest keys allowStale now required
    r.status.code = .success ∨ r.status.code = .partialResult →
      r.items.map Observation.key = keys.insertionSort (· ≤ ·) ∧
      (r.items.map Observation.key).Pairwise (· < ·) ∧
      (∀ other : List DataKey, other.Perm keys →
        (run L ops).readLatest other allowStale now required = r) ∧
      List.Forall₂ ((run L ops).ItemSpec allowStale now) (keys.insertionSort (· ≤ ·)) r.items ∧
      (r.status.code = .success ↔ ∀ item ∈ r.items, item.status = .valid) := by
  intro r hreadable
  have hread := readLatest_readable hreadable
  obtain ⟨items, hr, hpairs, -⟩ := hread.readLatest
  have hr' : r = _ := hr
  have hnow : 0 ≤ now := by
    have := hread.arguments
    push Not at this
    exact this.2.2
  have hspec : List.Forall₂ ((run L ops).ItemSpec allowStale now) (keys.insertionSort (· ≤ ·))
      items := by
    rw [forall₂_iff_zip] at hpairs ⊢
    refine ⟨hpairs.1, fun hzip => ?_⟩
    have hkey := (mem_insertionSort _).mp (of_mem_zip hzip).1
    exact (run_readInvariant L ops).itemSpec hread.active hnow (hmetrics _ hkey) (hpairs.2 hzip)
  obtain ⟨hkeys, hincreasing⟩ := (run_readInvariant L ops).store.readLatest_keys hreadable
  refine ⟨hkeys, hincreasing, fun other hother => ?_, ?_, ?_⟩
  · exact readLatest_perm _ hother allowStale now required
  · rw [hr']
    exact hspec
  · rw [hr']
    split_ifs with hany
    · simp only [any_eq_true, decide_eq_true_eq] at hany
      obtain ⟨item, hitem, hinvalid⟩ := hany
      constructor
      · intro h
        cases h
      · exact fun h => absurd (h item hitem) hinvalid
    · simpa using hany

end DataManager

namespace TwoMetrics

/-- The inlet was read at time 1 and could not be read at time 2; the outlet was never
read. -/
def inletLost : DataManager limits :=
  DataManager.run limits [.activateCatalog (some view) target, .commit [sample 7 20 1],
    .commit [failure 7 2]]

theorem readLatest_spec_inletLost :
    let r := inletLost.readLatest [outlet, inlet] true 5 0
    r.status.code = .partialResult ∧
      r.items.map (fun o => (o.metric, o.status, o.staleAgeNs)) =
        [(7, .stale, some 4), (8, .notAvailable, none)] ∧
      List.Forall₂ (inletLost.ItemSpec true 5) ([outlet, inlet].insertionSort (· ≤ ·)) r.items :=
  ⟨by decide +kernel, by decide +kernel,
    (DataManager.readLatest_spec limits _ [outlet, inlet] (by decide) true 5 0
      (Or.inr (by decide +kernel))).2.2.2.1⟩

end TwoMetrics
end Pdcm
