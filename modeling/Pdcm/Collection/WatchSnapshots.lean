import Pdcm.Collection.WatchRuns

/-!
# Published watch snapshots

What the snapshot of a watch manager says about its live watches, after every sequence of
operations. `activateCatalog` installs the new catalog before it publishes the watches that
stay; if the versions are used up the publication fails, and the watches of the old catalog
stay live under the new one.
-/

namespace Pdcm

open Library List OrderedMap EffectiveWatch

namespace WatchManager

variable {m : WatchManager} {watch : LogicalWatch} (limits : WatchLimits) {e : EffectiveWatch}

/-! ### The invariant -/

structure Coherent (m : WatchManager) : Prop where
  snapshot_eq : m.snapshot = m.buildSnapshot m.logical m.snapshot.version
  watches : ∀ id watch, m.logical.find? id = some watch → m.Holds id watch
  issued : ∀ id watch, m.logical.find? id = some watch → id < m.nextWatchId
  baseline_kind : ∀ b ∈ m.heartbeatBaseline, b.key.kind = .heartbeatEvidence
  within : m.WithinLimits
  covered : m.Covered

theorem published_covered (m : WatchManager) (next : OrderedMap WatchId LogicalWatch) :
    (m.published next).Covered := by
  intro id hid
  have hgo : next.contains id = false := by
    simpa [OrderedMap.contains, published] using hid
  simp only [published, OrderedMap.find?_filter, hgo]
  constructor
  · cases m.sampleCounts.find? id <;> rfl
  · cases m.lastSampleTimes.find? id <;> rfl

/-- Watches of the active catalog that pass the checks of `publish` can be published. -/
theorem published_coherent {next : OrderedMap WatchId LogicalWatch}
    (hwa : ∀ id watch, next.find? id = some watch → m.Holds id watch)
    (his : ∀ id watch, next.find? id = some watch → id < m.nextWatchId)
    (hki : ∀ b ∈ m.heartbeatBaseline, b.key.kind = .heartbeatEvidence)
    (hpub : m.Publishable next) : (m.published next).Coherent where
  snapshot_eq := rfl
  watches id watch h :=
    ⟨(hwa id watch h).id_eq, (hwa id watch h).generation, (hwa id watch h).entity,
      (hwa id watch h).metrics_nodup⟩
  issued := his
  baseline_kind := hki
  within := ⟨hpub.logical_le, hpub.effective_le⟩
  covered := m.published_covered next

theorem Coherent.fresh_id (h : m.Coherent) : m.logical.find? m.nextWatchId = none := by
  cases hfi : m.logical.find? m.nextWatchId with
  | none => rfl
  | some watch => exact absurd (h.issued _ watch hfi) (lt_irrefl _)

theorem find?_of_sublist {next logical : OrderedMap WatchId LogicalWatch} {id : WatchId}
    (hne : next.entries.Sublist logical.entries) (h : next.find? id = some watch) :
    logical.find? id = some watch :=
  mem_entries_iff.mp (hne.subset (mem_entries_iff.mpr h))

/-- No watch of the old catalog is of the generation of a newer one. -/
theorem Coherent.retained_eq_empty (h : m.Coherent) {view : CatalogView} (target : TargetCatalog)
    (hne : ∀ cur ∈ m.catalog.view, cur.generation < view.generation) :
    (m.retained view target).entries = [] := by
  rw [retained, OrderedMap.filter, filter_eq_nil_iff]
  rintro ⟨id, watch⟩ hmem
  have hho := h.watches id watch (mem_entries_iff.mp hmem)
  obtain ⟨cur, hcur, hgen⟩ := Option.map_eq_some_iff.mp hho.generation
  have hlt := hne cur hcur
  rw [hgen] at hlt
  simp [hlt.ne]

theorem Coherent.activated (h : m.Coherent) {view : CatalogView} (target : TargetCatalog)
    (hne : ∀ cur ∈ m.catalog.view, cur.generation < view.generation)
    (hver : m.snapshot.version ≠ uint64Max) :
    ((m.switched view target).publish (m.retained view target)).1.Coherent := by
  have hem := h.retained_eq_empty target hne
  have hno : ∀ id watch, (m.retained view target).find? id ≠ some watch := by
    intro id watch hfi
    have hmem := mem_entries_iff.mpr hfi
    rw [hem] at hmem
    cases hmem
  have hpub : (m.switched view target).Publishable (m.retained view target) := by
    refine ⟨?_, hver, ?_⟩
    · simp [size, hem]
    · simp [size, effectiveWatches, switched, hem, empty]
  rw [publish_of_publishable hpub]
  refine published_coherent ?_ ?_ ?_ hpub
  · exact fun id watch hfi => absurd hfi (hno id watch)
  · exact fun id watch hfi => absurd hfi (hno id watch)
  · exact fun b hb => by cases hb

theorem Coherent.created (h : m.Coherent) (hho : m.Holds m.nextWatchId watch)
    (hpub : m.Publishable (m.logical.emplace m.nextWatchId watch)) :
    (m.created watch).Coherent := by
  have hfi : ∀ id found, (m.logical.emplace m.nextWatchId watch).find? id = some found →
      id = m.nextWatchId ∧ found = watch ∨ m.logical.find? id = some found := by
    intro id found hfo
    rw [find?_emplace, h.fresh_id] at hfo
    split_ifs at hfo with hid
    · exact .inl ⟨hid, (Option.some.inj hfo).symm⟩
    · exact .inr hfo
  refine @published_coherent { m with nextWatchId := m.nextWatchId + 1 } _ ?_ ?_ h.baseline_kind
    ⟨hpub.logical_le, hpub.version_ne, hpub.effective_le⟩
  · intro id found hfo
    obtain ⟨rfl, rfl⟩ | hold := hfi id found hfo
    · exact ⟨hho.id_eq, hho.generation, hho.entity, hho.metrics_nodup⟩
    · have hold' := h.watches id found hold
      exact ⟨hold'.id_eq, hold'.generation, hold'.entity, hold'.metrics_nodup⟩
  · intro id found hfo
    obtain ⟨rfl, -⟩ | hold := hfi id found hfo
    · exact Nat.lt_succ_self _
    · exact (h.issued id found hold).trans (Nat.lt_succ_self _)

theorem Coherent.removed (h : m.Coherent) {next : OrderedMap WatchId LogicalWatch}
    (hne : next.entries.Sublist m.logical.entries) (hpub : m.Publishable next) :
    (m.published next).Coherent :=
  published_coherent (fun id watch hfi => h.watches id watch (find?_of_sublist hne hfi))
    (fun id watch hfi => h.issued id watch (find?_of_sublist hne hfi)) h.baseline_kind
    hpub

/-- A version is left for the snapshot of a new catalog. -/
def VersionLeft (m : WatchManager) : WatchOperation → Prop
  | .activateCatalog _ _ => m.snapshot.version ≠ uint64Max
  | _ => True

theorem Coherent.apply (h : m.Coherent) {op : WatchOperation} (hver : m.VersionLeft op) :
    (m.apply op).Coherent := by
  have hout := m.apply_outcome op
  generalize m.apply op = next at hout ⊢
  cases hout with
  | unchanged => exact h
  | activated view target hnew => exact h.activated target hnew hver
  | rebased base hki hpub =>
    refine published_coherent (fun id watch hfi => ?_) h.issued hki hpub
    have hho := h.watches id watch hfi
    exact ⟨hho.id_eq, hho.generation, hho.entity, hho.metrics_nodup⟩
  | created watch hho hpub => exact h.created hho hpub
  | removed keeps hpub => exact h.removed filter_sublist hpub
  | counted r hne hco =>
    refine ⟨h.snapshot_eq, ?_, h.issued, h.baseline_kind, ⟨h.within.logical_le,
      h.within.effective_le⟩, ?_⟩
    · intro id watch hfi
      have hho := h.watches id watch hfi
      exact ⟨hho.id_eq, hho.generation, hho.entity, hho.metrics_nodup⟩
    · intro id hid
      exact hco h.covered id (hne ▸ hid)
  | exhausted r hne hco hpub =>
    have hrem := h.removed hne hpub
    refine ⟨hrem.snapshot_eq, ?_, hrem.issued, hrem.baseline_kind,
      ⟨hrem.within.logical_le, hrem.within.effective_le⟩, hco h.covered⟩
    intro id watch hfi
    have hho := hrem.watches id watch hfi
    exact ⟨hho.id_eq, hho.generation, hho.entity, hho.metrics_nodup⟩

theorem initial_coherent (valid : limits.validate.ok = true) :
    (initial limits valid).Coherent where
  snapshot_eq := rfl
  watches id watch h := by cases h
  issued id watch h := by cases h
  baseline_kind b hb := by cases hb
  within := ⟨Nat.zero_le _, Nat.zero_le _⟩
  covered id _ := ⟨rfl, rfl⟩

/-! ### What a coherent snapshot says -/

/-- The live watches that require a metric, in the order of their ids. -/
def requiring (m : WatchManager) (metric : MetricId) : List (WatchId × LogicalWatch) :=
  m.logical.entries.filter fun entry => decide (metric ∈ entry.2.requirement.metrics)

def metricKey (m : WatchManager) (entity : EntityRef) (metric : MetricId) : EffectiveWatchKey where
  providerId := m.catalog.providerId
  entity := entity
  kind := .metric
  dataId := metric

/-- The published snapshot and the counters against the live watches. -/
structure MergeCorrect (m : WatchManager) : Prop where
  ordered : (m.snapshot.effectiveWatches.map key).Pairwise (· < ·)
  metric : ∀ metric, m.requiring metric ≠ [] → ∃ entity ∈ m.catalog.entity,
    ∃ e ∈ m.snapshot.effectiveWatches, e.key = m.metricKey entity metric ∧
      e.MergeOf (m.requiring metric)
  baseline : ∀ b ∈ m.heartbeatBaseline, b ∈ m.snapshot.effectiveWatches
  nothingElse : ∀ e ∈ m.snapshot.effectiveWatches, m.heartbeatBaseline = some e ∨
    ∃ entity ∈ m.catalog.entity, ∃ metric, m.requiring metric ≠ [] ∧
      e.key = m.metricKey entity metric
  increasing : ∀ metric, ((m.requiring metric).map Prod.fst).Pairwise (· < ·)
  logicalWatches : m.snapshot.logicalWatches = m.logical.entries.map Prod.snd
  logical_le : m.snapshot.logicalWatches.length ≤ m.limits.maxLogicalWatches
  effective_le : m.snapshot.effectiveWatches.length ≤ m.limits.maxEffectiveWatches
  current : ∀ id watch, m.logical.find? id = some watch →
    m.catalog.view.map CatalogView.generation = some watch.requirement.catalogGeneration ∧
      m.catalog.entity = some watch.requirement.entity
  counted : ∀ id, id ∈ m.sampleCounts.keys ∨ id ∈ m.lastSampleTimes.keys → id ∈ m.logical.keys

theorem Coherent.holds (h : m.Coherent) {entry : WatchId × LogicalWatch}
    (hen : entry ∈ m.logical.entries) : m.Holds entry.1 entry.2 :=
  h.watches _ _ (mem_entries_iff.mp hen)

/-- All live watches are about one device, so a metric has one key. -/
theorem Coherent.requires_eq (h : m.Coherent) {entity : EntityRef}
    (hen : m.catalog.entity = some entity) (metric : MetricId) :
    m.logical.entries.filter (requires m.catalog.providerId (m.metricKey entity metric)) =
      m.requiring metric := by
  apply filter_congr
  intro entry hent
  have hsam : entry.2.requirement.entity = entity :=
    Option.some.inj ((h.holds hent).entity.symm.trans hen)
  rw [requires, decide_eq_decide, mem_map]
  constructor
  · rintro ⟨other, hot, hkey⟩
    have hsa : other = metric := congrArg EffectiveWatchKey.dataId hkey
    rwa [← hsa]
  · intro hme
    refine ⟨metric, hme, ?_⟩
    rw [watchKey, hsam]
    rfl

theorem Coherent.effective (h : m.Coherent) {key : EffectiveWatchKey}
    (hfi : (m.effectiveWatches m.logical).find? key = some e) :
    e.key = key ∧ (m.heartbeatBaseline = some e ∨
      ∃ ent ∈ m.catalog.entity, ∃ mid, key = m.metricKey ent mid ∧
        e.MergeOf (m.requiring mid)) := by
  have hke := mem_keys_effectiveWatches.mp (mem_keys.mpr ⟨e, hfi⟩)
  rcases hke with ⟨entry, hen, mid, hmet, rfl⟩ | ⟨b, hb, rfl⟩
  · have hent := (h.holds hen).entity
    have hme : Merges (m.metricKey entry.2.requirement.entity mid) (m.requiring mid) (some e) := by
      rw [← h.requires_eq hent mid, ← hfi]
      apply effectiveWatches_merges fun entry hen => (h.holds hen).metrics_nodup
      intro b hb hkey
      have hki := h.baseline_kind b hb
      rw [hkey] at hki
      cases hki
    exact ⟨hme.1, .inr ⟨_, hent, mid, rfl, hme.2⟩⟩
  · rw [effectiveWatches_baseline hb (h.baseline_kind b hb), Option.some.injEq] at hfi
    exact ⟨by rw [hfi], .inl (hfi ▸ hb)⟩

theorem Coherent.mem_effectiveWatches (h : m.Coherent) :
    e ∈ m.snapshot.effectiveWatches ↔ (m.effectiveWatches m.logical).find? e.key = some e := by
  rw [h.snapshot_eq]
  constructor
  · intro hmem
    obtain ⟨⟨key, e⟩, hen, rfl⟩ := mem_map.mp hmem
    have hfi := mem_entries_iff.mp hen
    rwa [(h.effective hfi).1]
  · intro hfi
    exact mem_map.mpr ⟨(e.key, e), mem_entries_iff.mpr hfi, rfl⟩

theorem Coherent.metric (h : m.Coherent) {mid : MetricId} (hreq : m.requiring mid ≠ []) :
    ∃ ent ∈ m.catalog.entity,
      ∃ e ∈ m.snapshot.effectiveWatches, e.key = m.metricKey ent mid ∧
        e.MergeOf (m.requiring mid) := by
  obtain ⟨entry, hent⟩ := exists_mem_of_ne_nil _ hreq
  obtain ⟨hli, hme⟩ := mem_filter.mp hent
  have hen := (h.holds hli).entity
  have hkey : m.metricKey entry.2.requirement.entity mid ∈ (m.effectiveWatches m.logical).keys :=
    mem_keys_effectiveWatches.mpr (.inl ⟨entry, hli, mid, of_decide_eq_true hme, rfl⟩)
  obtain ⟨e, hfi⟩ := mem_keys.mp hkey
  obtain ⟨hsa, hba | ⟨ent, -, other, hot, hmer⟩⟩ := h.effective hfi
  · have hki := h.baseline_kind e hba
    rw [hsa] at hki
    cases hki
  · obtain rfl : mid = other := congrArg EffectiveWatchKey.dataId hot
    exact ⟨_, hen, e, h.mem_effectiveWatches.mpr (hsa ▸ hfi), hsa, hmer⟩

theorem Coherent.keys_eq (h : m.Coherent) :
    m.snapshot.effectiveWatches.map key = (m.effectiveWatches m.logical).keys := by
  rw [h.snapshot_eq]
  change ((m.effectiveWatches m.logical).entries.map Prod.snd).map key = _
  rw [map_map]
  apply map_congr_left
  intro entry hen
  exact (h.effective (mem_entries_iff.mp hen)).1

theorem Coherent.mergeCorrect (h : m.Coherent) : m.MergeCorrect := by
  refine ⟨?_, fun mid hreq => h.metric hreq, ?_, ?_, ?_, ?_, ?_, ?_, ?_, ?_⟩
  · rw [h.keys_eq]
    exact pairwise_map.mpr (m.effectiveWatches m.logical).sorted
  · intro b hb
    exact h.mem_effectiveWatches.mpr (effectiveWatches_baseline hb (h.baseline_kind b hb) _)
  · intro e he
    obtain ⟨-, hba | ⟨ent, hen, mid, hkey, hme⟩⟩ :=
      h.effective (h.mem_effectiveWatches.mp he)
    · exact .inl hba
    · exact .inr ⟨ent, hen, mid, mergeOf_ne_nil hme, hkey⟩
  · exact fun mid => pairwise_map.mpr (m.logical.sorted.sublist filter_sublist)
  · rw [h.snapshot_eq]
    rfl
  · rw [h.snapshot_eq]
    simpa [buildSnapshot, size] using h.within.logical_le
  · rw [h.snapshot_eq, length_effectiveWatches]
    exact h.within.effective_le
  · intro id watch hfi
    exact ⟨(h.watches id watch hfi).generation, (h.watches id watch hfi).entity⟩
  · intro id hid
    by_contra hgone
    have hno : m.logical.find? id = none := by
      by_contra hlive
      exact hgone (mem_keys.mpr (Option.ne_none_iff_exists'.mp hlive))
    obtain ⟨hco, hti⟩ := h.covered id hno
    simp [OrderedMap.mem_keys, hco, hti] at hid

/-! ### Whole runs -/

/-- An operation keeps the snapshot or publishes one of the watches that are live after it. -/
theorem apply_snapshot (m : WatchManager) (op : WatchOperation) :
    (m.apply op).snapshot = m.snapshot ∨ m.snapshot.version ≠ uint64Max ∧ (m.apply op).snapshot =
      (m.apply op).buildSnapshot (m.apply op).logical (m.snapshot.version + 1) := by
  have hout := m.apply_outcome op
  generalize m.apply op = next at hout ⊢
  cases hout with
  | unchanged => exact .inl rfl
  | activated view target hne =>
    obtain ⟨hpub, heq⟩ | ⟨-, hsa, -⟩ :=
      (m.switched view target).publish_eq (m.retained view target)
    · rw [heq]
      exact .inr ⟨hpub.version_ne, rfl⟩
    · rw [hsa]
      exact .inl rfl
  | rebased base hki hpub => exact .inr ⟨hpub.version_ne, rfl⟩
  | created watch hho hpub => exact .inr ⟨hpub.version_ne, rfl⟩
  | removed keeps hpub => exact .inr ⟨hpub.version_ne, rfl⟩
  | counted => exact .inl rfl
  | exhausted r hne hco hpub => exact .inr ⟨hpub.version_ne, rfl⟩

theorem apply_version (m : WatchManager) (op : WatchOperation) :
    (m.apply op).snapshot = m.snapshot ∨
      (m.apply op).snapshot.version = m.snapshot.version + 1 :=
  (m.apply_snapshot op).imp_right fun h => congrArg WatchSnapshot.version h.2

/-- Live watches have metrics, and the baseline is kept for none of them. -/
structure Formed (m : WatchManager) : Prop where
  metrics : ∀ id watch, m.logical.find? id = some watch → watch.requirement.metrics ≠ []
  unowned : ∀ b ∈ m.heartbeatBaseline, b.logicalWatches = []

theorem Formed.metrics_of_sublist (h : m.Formed) {next : OrderedMap WatchId LogicalWatch}
    (hne : next.entries.Sublist m.logical.entries) {id : WatchId}
    (hfi : next.find? id = some watch) : watch.requirement.metrics ≠ [] :=
  h.metrics id watch (find?_of_sublist hne hfi)

theorem Formed.apply (h : m.Formed) (op : WatchOperation) : (m.apply op).Formed := by
  have hout := m.apply_outcome op
  generalize m.apply op = next at hout ⊢
  cases hout with
  | unchanged => exact h
  | activated view target hnew =>
    obtain ⟨-, heq⟩ | ⟨-, hsa, -⟩ :=
      (m.switched view target).publish_eq (m.retained view target)
    · rw [heq]
      exact ⟨fun id watch hfi => h.metrics_of_sublist filter_sublist hfi,
        fun b hb => by cases hb⟩
    · rw [hsa]
      exact ⟨h.metrics, fun b hb => by cases hb⟩
  | rebased base hki hpub hun => exact ⟨h.metrics, hun⟩
  | created watch hho hpub hme =>
    refine ⟨fun id found hfi => ?_, h.unowned⟩
    change (m.logical.emplace m.nextWatchId watch).find? id = some found at hfi
    rw [find?_emplace] at hfi
    split_ifs at hfi with hid
    · cases hold : m.logical.find? m.nextWatchId with
      | none =>
        rw [hold] at hfi
        exact Option.some.inj hfi ▸ hme
      | some old =>
        rw [hold] at hfi
        exact Option.some.inj hfi ▸ h.metrics _ old hold
    · exact h.metrics id found hfi
  | removed keeps =>
    exact ⟨fun id watch hfi => h.metrics_of_sublist filter_sublist hfi, h.unowned⟩
  | counted => exact ⟨h.metrics, h.unowned⟩
  | exhausted r hne =>
    exact ⟨fun id watch hfi => h.metrics_of_sublist hne hfi, h.unowned⟩

theorem initial_formed (valid : limits.validate.ok = true) :
    (initial limits valid).Formed where
  metrics _ _ hfind := by cases hfind
  unowned _ hb := by cases hb

/-- After every run of operations in which a version is left whenever a catalog is activated,
the snapshot is the merge of the live watches; each operation of the run keeps the snapshot
or publishes one with the next version. -/
theorem run_mergeCorrect {limits : WatchLimits} {valid : limits.validate.ok = true}
    {ops : List WatchOperation} (h : Along apply VersionLeft (initial limits valid) ops) :
    (runFrom apply (initial limits valid) ops).MergeCorrect ∧
      ∀ op, (runFrom apply (initial limits valid) (ops ++ [op])).snapshot =
          (runFrom apply (initial limits valid) ops).snapshot ∨
        (runFrom apply (initial limits valid) (ops ++ [op])).snapshot.version =
          (runFrom apply (initial limits valid) ops).snapshot.version + 1 := by
  have hcoherent := invariant_along (fun _ _ hm hver => hm.apply hver)
    (initial_coherent limits valid) h
  refine ⟨hcoherent.mergeCorrect, fun op => ?_⟩
  rw [runFrom_append]
  exact apply_version _ op

end WatchManager

/-! ### Two clients of one device -/

namespace SharedDevice

open WatchManager

variable {m : WatchManager} {version : ℕ}

def device : EntityRef := ⟨.device, 1, 1⟩

def descriptor (id : MetricId) (name : String) : MetricDescriptor :=
  { id := id, name := name, unit := "celsius", defaultPeriodNs := 10, minPeriodNs := 1
    freshnessNs := 10, semanticVersion := 1 }

def target : TargetCatalog :=
  { target := .fpga, metricsStatus := .ready
    metrics := [descriptor 7 "inlet", descriptor 8 "outlet"]
    health := [{ providerDataId := some 9, freshnessNs := 10 }] }

def view (generation : ℕ) : CatalogView :=
  { generation := generation
    entities := [{ ref := device, providerVersion := "provider", target := .fpga }]
    capabilitySets :=
      [{ entity := device
         items :=
          [{ kind := .metric, id := 7, supported := true },
            { kind := .metric, id := 8, supported := true },
            { kind := .health, id := firmwareHeartbeatHealthId, supported := true }] }] }

def requirement (metrics : List MetricId) (period : ℤ) (sampleLimit : ℕ) : WatchRequirement :=
  { catalogGeneration := 1, entity := device, metrics := metrics, period := period
    freshness := period, retention := period, sampleLimit := sampleLimit }

def client (id : ℕ) : WatchOwner := { kind := .session, id := id }

/-- One client watches both metrics and another one of them, more often. -/
def opened : List WatchOperation :=
  [.activateCatalog (some (view 1)) target, .create (client 1) (requirement [7, 8] 20 0),
    .create (client 2) (requirement [7] 10 0), .setFirmwareHeartbeatBaseline 5 10]

theorem opened_mergeCorrect :
    (runFrom apply (initial {} rfl) opened).MergeCorrect ∧
      (runFrom apply (initial {} rfl) opened).snapshot.effectiveWatches.map
          (fun e => (e.key.dataId, e.period, e.logicalWatches)) =
        [(7, 10, [1, 2]), (8, 20, [1]), (9, 5, [])] := by
  have hversions : Along apply VersionLeft (initial {} rfl) opened := by
    refine ⟨?_, trivial, trivial, trivial, trivial⟩
    change 0 ≠ uint64Max
    decide
  exact ⟨(run_mergeCorrect hversions).1, by decide +kernel⟩

/-- One client, and the baseline not set. -/
def opening : List WatchOperation :=
  [.activateCatalog (some (view 1)) target, .create (client 1) (requirement [7, 8] 20 0)]

def started : WatchManager := runFrom apply (initial {} WatchLimits.validate_default) opening

def heartbeatBaseline : EffectiveWatch :=
  { key := { providerId := "provider", entity := device, kind := .heartbeatEvidence, dataId := 9 }
    period := 5, freshness := 10, retention := 10, priority := .heartbeat }

/-- Everything but the baseline and the version is as it was. -/
structure Toggled (m : WatchManager) (version : ℕ) : Prop where
  limits_eq : m.limits = started.limits
  catalog_eq : m.catalog = started.catalog
  logical_eq : m.logical = started.logical
  nextWatchId_eq : m.nextWatchId = started.nextWatchId
  baseline_eq : m.heartbeatBaseline = none ∨ m.heartbeatBaseline = some heartbeatBaseline
  version_eq : m.snapshot.version = version

theorem Toggled.publishable (h : Toggled m version) (hver : version < uint64Max)
    {base : Option EffectiveWatch}
    (hba : base = none ∨ base = some heartbeatBaseline) :
    { m with heartbeatBaseline := base }.Publishable m.logical := by
  have hsa : { m with heartbeatBaseline := base }.effectiveWatches m.logical =
      { started with heartbeatBaseline := base }.effectiveWatches started.logical := by
    simp only [effectiveWatches, h.catalog_eq, h.logical_eq]
  refine ⟨?_, ?_, ?_⟩
  · rw [h.logical_eq, h.limits_eq]
    decide +kernel
  · rw [h.version_eq]
    exact hver.ne
  · rw [hsa, h.limits_eq]
    rcases hba with rfl | rfl <;> decide +kernel

/-- The baseline can be set and cleared until the versions are used up. -/
theorem Toggled.next (h : Toggled m version) (hver : version < uint64Max) :
    ∃ op, Toggled (m.apply op) (version + 1) := by
  by_cases hba : m.heartbeatBaseline = none
  · refine ⟨.setFirmwareHeartbeatBaseline 5 10, ?_⟩
    have hpub := publish_of_publishable (h.publishable hver (.inr rfl))
    have hset : m.setFirmwareHeartbeatBaseline 5 10 =
        ({ m with heartbeatBaseline := some heartbeatBaseline }.published m.logical, .success) := by
      have hvi : m.catalog.view ≠ none := by
        rw [h.catalog_eq]
        exact Option.some_ne_none (view 1)
      have hen : m.catalog.entity = some device := by
        rw [h.catalog_eq]
        rfl
      have hbe : m.catalog.heartbeat = some { providerDataId := some 9, freshnessNs := 10 } := by
        rw [h.catalog_eq]
        rfl
      have hsu : ¬(m.catalog.topologyUnsupported = true ∨
          m.catalog.heartbeatSupported = false) := by
        rw [h.catalog_eq]
        decide +kernel
      have hpr : m.catalog.providerId = "provider" := by
        rw [h.catalog_eq]
        rfl
      rw [setFirmwareHeartbeatBaseline, if_neg hvi]
      simp only [hen, hbe]
      rw [if_neg hsu]
      simp only [hpr]
      change (if
          ({ m with heartbeatBaseline := some heartbeatBaseline }.publish m.logical).2.ok then
          { m with heartbeatBaseline := some heartbeatBaseline }.publish m.logical else _) = _
      rw [hpub]
      rfl
    rw [apply, hset]
    exact ⟨h.limits_eq, h.catalog_eq, h.logical_eq, h.nextWatchId_eq, .inr rfl,
      congrArg (· + 1) h.version_eq⟩
  · refine ⟨.clearFirmwareHeartbeatBaseline, ?_⟩
    have hpub := publish_of_publishable (h.publishable hver (.inl rfl))
    rw [apply, clearFirmwareHeartbeatBaseline, if_neg hba, hpub]
    exact ⟨h.limits_eq, h.catalog_eq, h.logical_eq, h.nextWatchId_eq, .inl rfl,
      congrArg (· + 1) h.version_eq⟩

theorem exists_toggled (hlow : 2 ≤ version) (hhi : version ≤ uint64Max) :
    ∃ ops, Toggled (runFrom apply started ops) version := by
  induction version, hlow using Nat.le_induction with
  | base => exact ⟨[], rfl, rfl, rfl, rfl, .inl rfl, by decide +kernel⟩
  | succ version hlow ih =>
    obtain ⟨ops, hops⟩ := ih (Nat.le_of_succ_le hhi)
    obtain ⟨op, hop⟩ := hops.next hhi
    refine ⟨ops ++ [op], ?_⟩
    rwa [runFrom_append]

/-- Without a version left, the new catalog is installed and nothing is published. -/
theorem Toggled.activateCatalog (h : Toggled m uint64Max) :
    m.apply (.activateCatalog (some (view 2)) target) = m.switched (view 2) target := by
  have hvi : m.catalog.view = some (view 1) := by
    rw [h.catalog_eq]
    rfl
  have hac : m.activateCatalog (some (view 2)) target =
      (m.switched (view 2) target).publish (m.retained (view 2) target) := by
    rw [WatchManager.activateCatalog]
    simp only [hvi]
    rfl
  rw [apply, hac]
  obtain ⟨hpub, -⟩ | ⟨-, hsa, -⟩ :=
    (m.switched (view 2) target).publish_eq (m.retained (view 2) target)
  · exact absurd h.version_eq hpub.version_ne
  · exact hsa

/-- The catalog of generation 2 is activated when the versions are used up: the watch of
generation 1 is still live under it. -/
theorem activateCatalog_stranded :
    ∃ ops m watch, runFrom apply (initial {} rfl) ops = m ∧
      m.catalog.view.map CatalogView.generation = some 2 ∧
      m.logical.find? 1 = some watch ∧ watch.requirement.catalogGeneration = 1 ∧
      ¬m.MergeCorrect := by
  obtain ⟨ops, hops⟩ := exists_toggled (by decide) le_rfl
  generalize hm : runFrom apply started ops = m at hops
  have hrun : runFrom apply (initial {} rfl)
      (opening ++ (ops ++ [.activateCatalog (some (view 2)) target])) =
        m.switched (view 2) target := by
    rw [← hops.activateCatalog, ← hm, runFrom_append, runFrom_append]
    rfl
  have hlive : m.logical.find? 1 = some
      { id := 1, owner := client 1, requirement := requirement [7, 8] 20 0 } := by
    rw [hops.logical_eq]
    decide +kernel
  refine ⟨_, _, _, hrun, rfl, hlive, rfl, ?_⟩
  intro hcorrect
  have hgeneration : some 2 = some 1 := (hcorrect.current 1 _ hlive).1
  exact absurd hgeneration (by decide)

end SharedDevice
end Pdcm
