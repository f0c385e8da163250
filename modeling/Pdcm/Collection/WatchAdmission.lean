import Pdcm.Data.Commit
import Pdcm.Semantic.CommittedViews
import Pdcm.Collection.WatchSnapshots

/-!
# Admission of watches

Which metrics a watch manager lets into a watch, over whole runs on the views of one
semantic catalog, and that the operations it refuses change nothing. A metric is admitted
if it is polled and the capability set of the view supports it; neither the set nor the
manager looks at the targets that a metric descriptor declares.
-/

namespace Pdcm

open Library List WatchCatalog OrderedMap WatchLimits Option
open DataManager (Failure)

/-! ### What a catalog view supports -/

/-- A capability set of the view supports the metric. -/
def CatalogView.Supports (v : CatalogView) (metric : MetricId) : Prop :=
  ∃ set ∈ v.capabilitySets, ∃ item ∈ set.items,
    item.kind = .metric ∧ item.id = metric ∧ item.supported = true

instance (v : CatalogView) (metric : MetricId) : Decidable (v.Supports metric) :=
  inferInstanceAs (Decidable (∃ set ∈ v.capabilitySets, ∃ item ∈ set.items,
    item.kind = .metric ∧ item.id = metric ∧ item.supported = true))

namespace WatchCatalog

variable {metric : MetricId}

theorem foldl_addCapability_frame (items : List CapabilityItem) (c : WatchCatalog) :
    (items.foldl addCapability c).view = c.view ∧
      (items.foldl addCapability c).descriptors = c.descriptors := by
  induction items generalizing c with
  | nil => exact ⟨rfl, rfl⟩
  | cons item rest ih =>
    rw [foldl_cons, (ih _).1, (ih _).2]
    unfold addCapability
    split_ifs
    · exact ⟨rfl, rfl⟩
    · exact ⟨rfl, rfl⟩
    · exact ⟨rfl, rfl⟩

theorem foldl_addCapability_supported {items : List CapabilityItem} {c : WatchCatalog}
    (h : (items.foldl addCapability c).supported.find? metric = some true) :
    c.supported.find? metric = some true ∨
      ∃ item ∈ items, item.kind = .metric ∧ item.id = metric ∧ item.supported = true := by
  induction items generalizing c with
  | nil => exact .inl h
  | cons item rest ih =>
    rcases ih h with hbe | ⟨later, hla, hsu⟩
    · unfold addCapability at hbe
      split_ifs at hbe with hme hhe
      · rw [find?_insert] at hbe
        split_ifs at hbe with hid
        · exact .inr ⟨item, mem_cons_self, hme, hid.symm, some.inj hbe⟩
        · exact .inl hbe
      · exact .inl hbe
      · exact .inl hbe
    · exact .inr ⟨later, mem_cons_of_mem item hla, hsu⟩

theorem ofView_descriptors (view : CatalogView) (target : TargetCatalog) :
    (ofView view target).descriptors = descriptorMap target.metrics := by
  unfold ofView
  split
  · split
    · rw [(foldl_addCapability_frame _ _).2]
    · rfl
  · rfl

theorem ofView_view (view : CatalogView) (target : TargetCatalog) :
    (ofView view target).view = some view := by
  unfold ofView
  split
  · split
    · rw [(foldl_addCapability_frame _ _).1]
    · rfl
  · rfl

end WatchCatalog

namespace WatchManager

variable {target : TargetCatalog} {views : List CatalogView} (m : WatchManager) {metric : MetricId}
  {next : OrderedMap WatchId LogicalWatch} (op : WatchOperation)

/-! ### Admitted metrics -/

/-- The metric is polled and the view of that generation supports it. -/
def Admitted (target : TargetCatalog) (views : List CatalogView) (generation : ℕ)
    (metric : MetricId) : Prop :=
  (∃ descriptor, (descriptorMap target.metrics).find? metric = some descriptor ∧
    descriptor.collectionMode = .poll) ∧
  ∃ view ∈ views, view.generation = generation ∧ view.Supports metric

/-- The manager works on these views of one target catalog, and all metrics of its live
watches were admitted. -/
structure Admitting (target : TargetCatalog) (views : List CatalogView) (m : WatchManager) :
    Prop where
  catalog : m.catalog = {} ∨ ∃ view ∈ views, m.catalog = ofView view target
  live : ∀ id watch, m.logical.find? id = some watch → ∀ metric ∈ watch.requirement.metrics,
    Admitted target views watch.requirement.catalogGeneration metric

/-- An operation that activates no other views than these. -/
def OnCatalog (target : TargetCatalog) (views : List CatalogView) : WatchOperation → Prop
  | .activateCatalog catalog given => given = target ∧ ∀ view ∈ catalog, view ∈ views
  | _ => True

theorem Admitting.admits {m : WatchManager} (h : m.Admitting target views) {gen : ℕ}
    (hgen : m.catalog.view.map CatalogView.generation = some gen)
    (hsu : (supportedDescriptor m.catalog metric).isSome) :
    Admitted target views gen metric := by
  obtain ⟨desc, hso⟩ := isSome_iff_exists.mp hsu
  obtain ⟨hfi, hbo⟩ := filter_eq_some_iff.mp hso
  obtain ⟨hpo, htr⟩ := of_decide_eq_true hbo
  rcases h.catalog with hem | ⟨view, hvi, hcat⟩
  · rw [hem] at hfi
    cases hfi
  · rw [hcat, ofView_descriptors] at hfi
    rw [hcat, ofView_view] at hgen
    refine ⟨⟨desc, hfi, hpo⟩, view, hvi, some.inj hgen, ?_⟩
    rw [hcat, ofView] at htr
    split at htr
    · split at htr
      next set hset =>
        rcases foldl_addCapability_supported htr with hno | hsu
        · cases hno
        · exact ⟨set, (CatalogView.capabilities_ok hset).1, hsu⟩
      next => cases htr
    · cases htr

/-! ### What becomes of the live watches -/

/-- Every live watch was live before. -/
def Keeps (m m' : WatchManager) : Prop :=
  ∀ id watch, m'.logical.find? id = some watch → m.logical.find? id = some watch

theorem keeps_of_sublist {m m' : WatchManager}
    (h : m'.logical.entries.Sublist m.logical.entries) : Keeps m m' :=
  fun _ _ hfi => mem_entries_iff.mp (h.subset (mem_entries_iff.mpr hfi))

/-- What an operation does to the catalog and to the live watches. -/
inductive Admission (m : WatchManager) (op : WatchOperation) (m' : WatchManager) : Prop
  | kept (hcatalog : m'.catalog = m.catalog) (hkeeps : Keeps m m')
  | activated (view : CatalogView) (target : TargetCatalog)
      (hop : op = .activateCatalog (some view) target)
      (hcatalog : m'.catalog = ofView view target) (hkeeps : Keeps m m')
  | created (watch : LogicalWatch) (hcatalog : m'.catalog = m.catalog)
      (hholds : m.Holds m.nextWatchId watch)
      (hmetrics : ∀ metric ∈ watch.requirement.metrics,
        (supportedDescriptor m.catalog metric).isSome)
      (hlogical : m'.logical = m.logical.emplace m.nextWatchId watch)

theorem publish_catalog (next : OrderedMap WatchId LogicalWatch) :
    (m.publish next).1.catalog = m.catalog := by
  obtain ⟨-, heq⟩ | ⟨-, hsa, -⟩ := m.publish_eq next
  · rw [heq]
    rfl
  · rw [hsa]

/-- The status that an operation returns. -/
def status (m : WatchManager) : WatchOperation → Status
  | .activateCatalog catalog target => (m.activateCatalog catalog target).2
  | .setFirmwareHeartbeatBaseline period retention =>
    (m.setFirmwareHeartbeatBaseline period retention).2
  | .clearFirmwareHeartbeatBaseline => m.clearFirmwareHeartbeatBaseline.2
  | .create owner requirement => (m.create owner requirement).2.status
  | .destroy owner watchId => (m.destroy owner watchId).2
  | .removeOwner owner => (m.removeOwner owner).2
  | .recordSamples watchIds first period sampleCount =>
    (m.recordSamples watchIds first period sampleCount).2

/-- The operation adds no watch; if it changes the catalog, to a valid one that it activates.
When it fails, only a new catalog can stay. -/
structure Drops (m : WatchManager) (op : WatchOperation) (result : WatchManager × Status) :
    Prop where
  catalog : result.1.catalog = m.catalog ∨ ∃ view target,
    op = .activateCatalog (some view) target ∧ target.validate.ok = true ∧
      result.1.catalog = ofView view target
  keeps : Keeps m result.1
  failure : Failure result.2 → (∀ catalog target, op ≠ .activateCatalog catalog target) →
    result.1 = m

theorem drops_rfl (st : Status) : m.Drops op (m, st) :=
  ⟨.inl rfl, fun _ _ hfi => hfi, fun _ _ => rfl⟩

theorem publish_drops (h : next.entries.Sublist m.logical.entries) :
    m.Drops op (m.publish next) := by
  obtain ⟨-, heq⟩ | ⟨-, hsa, -⟩ := m.publish_eq next
  · rw [heq]
    exact ⟨.inl rfl, keeps_of_sublist h, fun hfa => absurd rfl hfa.1⟩
  · exact ⟨.inl (m.publish_catalog next), hsa.symm ▸ keeps_of_sublist (.refl _), fun _ _ => hsa⟩

theorem activateCatalog_drops (cat : Option CatalogView) (target : TargetCatalog) :
    m.Drops (.activateCatalog cat target) (m.activateCatalog cat target) := by
  have hsa := m.drops_rfl (.activateCatalog cat target)
  unfold activateCatalog
  cases cat with
  | none => exact hsa _
  | some view =>
    dsimp only
    split_ifs with hze hva hba hcu
    · exact hsa _
    · exact hsa _
    · exact hsa _
    · refine ⟨.inr ⟨view, target, rfl, hva, publish_catalog _ _⟩, ?_, fun _ hno => ?_⟩
      · exact (publish_drops (m.switched view target) (.activateCatalog none target)
          filter_sublist).keeps
      · exact absurd rfl (hno (some view) target)
    · exact hsa _

theorem rebase_drops (base : Option EffectiveWatch) :
    let published := { m with heartbeatBaseline := base }.publish m.logical
    m.Drops op (if published.2.ok then published else (m, published.2)) := by
  intro published
  split_ifs with hok
  · have hdr := publish_drops { m with heartbeatBaseline := base } op (.refl m.logical.entries)
    exact ⟨.inl (publish_catalog _ _), hdr.keeps,
      fun hfa => absurd (published.2.ok_iff.mp hok) hfa.1⟩
  · exact m.drops_rfl op _

theorem setFirmwareHeartbeatBaseline_drops (per ret : ℤ) :
    m.Drops op (m.setFirmwareHeartbeatBaseline per ret) := by
  have hsa := m.drops_rfl op
  unfold setFirmwareHeartbeatBaseline
  split
  · exact hsa _
  split
  · split
    · exact hsa _
    split
    · exact hsa _
    split
    · exact hsa _
    exact m.rebase_drops op _
  · exact hsa _

theorem storeRecording_drops {r : Recording} (h : r.next.entries.Sublist m.logical.entries) :
    m.Drops op (m.storeRecording r) := by
  have hdr := m.publish_drops op h
  unfold storeRecording
  dsimp only
  split
  · split
    · exact ⟨.inl (m.publish_catalog r.next), hdr.keeps, fun hfa => absurd rfl hfa.1⟩
    · exact hdr
  · exact ⟨.inl rfl, fun _ _ hfi => hfi, fun hfa => absurd rfl hfa.1⟩

theorem apply_drops (hop : ∀ owner r, op ≠ .create owner r) :
    m.Drops op (m.apply op, m.status op) := by
  have hsa := m.drops_rfl op
  cases op with
  | activateCatalog cat target => exact m.activateCatalog_drops cat target
  | setFirmwareHeartbeatBaseline per ret => exact m.setFirmwareHeartbeatBaseline_drops _ per ret
  | clearFirmwareHeartbeatBaseline =>
    change m.Drops _ m.clearFirmwareHeartbeatBaseline
    unfold clearFirmwareHeartbeatBaseline
    split
    · exact hsa _
    · exact m.rebase_drops _ none
  | create owner r => exact absurd rfl (hop owner r)
  | destroy owner wid =>
    change m.Drops _ (m.destroy owner wid)
    unfold destroy
    split
    · exact hsa _
    · split
      · exact hsa _
      · exact m.publish_drops _ filter_sublist
  | removeOwner owner =>
    change m.Drops _ (m.removeOwner owner)
    unfold removeOwner
    dsimp only
    split
    · exact hsa _
    · exact m.publish_drops _ filter_sublist
  | recordSamples ids first per cnt =>
    change m.Drops _ (m.recordSamples ids first per cnt)
    unfold recordSamples
    dsimp only
    split
    · exact hsa _
    · split
      · exact hsa _
      split
      · exact hsa _
      · exact m.storeRecording_drops _ (foldl_recordWatch_keeps _ _).sublist

theorem apply_admission : m.Admission op (m.apply op) := by
  by_cases hop : ∀ owner r, op ≠ .create owner r
  · obtain ⟨hcat | ⟨view, target, hac, -, hcat⟩, hke, -⟩ := m.apply_drops op hop
    · exact .kept hcat hke
    · exact .activated view target hac hcat hke
  · push Not at hop
    obtain ⟨owner, r, rfl⟩ := hop
    obtain ⟨heq, -⟩ | ⟨watch, -, hho, -, heq, -, -, hme, -⟩ := m.create_cases owner r
    · rw [apply, heq]
      exact .kept rfl fun _ _ hfi => hfi
    · rw [apply, heq]
      refine .created watch rfl hho (fun mid hmid => ?_) rfl
      obtain ⟨desc, hsu, -⟩ := hme mid hmid
      exact isSome_of_mem hsu

theorem Admitting.apply {m : WatchManager} (h : m.Admitting target views) {op : WatchOperation}
    (hop : OnCatalog target views op) : (m.apply op).Admitting target views := by
  have hadm := m.apply_admission op
  cases hadm with
  | kept hcat hke =>
    refine ⟨hcat ▸ h.catalog, ?_⟩
    intro id watch hfi
    exact h.live id watch (hke id watch hfi)
  | activated view given hac hcat hke =>
    rw [hac] at hop
    obtain ⟨rfl, hvi⟩ := hop
    refine ⟨.inr ⟨view, hvi view rfl, hcat⟩, ?_⟩
    intro id watch hfi
    exact h.live id watch (hke id watch hfi)
  | created watch hcat hho hmet hlog =>
    refine ⟨hcat ▸ h.catalog, ?_⟩
    intro id other hfi metric hme
    rw [hlog] at hfi
    rcases find?_emplace_cases hfi with hold | rfl
    · exact h.live id other hold metric hme
    · exact h.admits hho.generation (hmet metric hme)

end WatchManager

/-! ### Declared targets -/

/-- The descriptor declares support for the target. -/
def MetricDescriptor.declares (d : MetricDescriptor) : TargetKind → Bool
  | .fpga => d.supportsFpga
  | .emu => d.supportsEmu
  | .unknown => false

namespace SemanticCatalog

open WatchManager

variable {target : TargetCatalog} {d : ProviderDescriptor} {v : CatalogView} {metric : MetricId}

/-- Every metric that the provider reports as supported declares the catalog's target. -/
def ReportsDeclared (target : TargetCatalog) (d : ProviderDescriptor) : Prop :=
  ∀ metric ∈ target.metrics, providerSupports d .metric metric.id = true →
    metric.declares target.target = true

/-- The metric's descriptor declares the target, and the provider reports the metric. -/
def TargetSupports (target : TargetCatalog) (d : ProviderDescriptor) (metric : MetricId) : Prop :=
  ∃ descriptor ∈ target.metrics, descriptor.id = metric ∧
    descriptor.declares target.target = true ∧ providerSupports d .metric metric = true

theorem CommittedView.supports (h : CommittedView target d v) (hsu : v.Supports metric) :
    ∃ desc ∈ target.metrics, desc.id = metric ∧
      providerSupports d .metric metric = true := by
  obtain ⟨set, hset, item, hit, hki, rfl, htr⟩ := hsu
  rw [h.sets] at hset
  obtain ⟨rec, -, rfl⟩ := mem_map.mp hset
  rcases mem_cons.mp hit with rfl | hit
  · cases hki
  rcases mem_append.mp hit with hit | hit
  · obtain ⟨desc, hde, rfl⟩ := mem_map.mp hit
    exact ⟨desc, hde, rfl, htr⟩
  · rw [mem_singleton.mp hit, healthCapability] at hki
    split at hki
    · cases hki
    · cases hki

theorem CommittedView.targetSupports (h : CommittedView target d v)
    (hde : ReportsDeclared target d) (hsu : v.Supports metric) :
    TargetSupports target d metric := by
  obtain ⟨desc, hdes, rfl, hre⟩ := h.supports hsu
  exact ⟨desc, hdes, rfl, hde desc hdes hre, hre⟩

/-- If the provider reports declared metrics only, the views support and the watch manager
admits what is declared and reported. -/
theorem supported_of_declared {target : TargetCatalog} (valid : target.validate.ok = true)
    (descriptors : List ProviderDescriptor)
    (hdeclared : ∀ d ∈ descriptors, ReportsDeclared target d) :
    let run := runFrom CatalogRun.commit (CatalogRun.fresh target valid) descriptors
    (∀ p ∈ run.published, ∃ d ∈ descriptors, CommittedView target d p.view ∧
        ∀ metric, p.view.Supports metric → TargetSupports target d metric) ∧
      ∀ (limits : WatchLimits) (hlimits : limits.validate.ok = true) (ops : List WatchOperation),
        (∀ op ∈ ops, OnCatalog target (run.published.map Published.view) op) →
        ∀ id watch, (runFrom apply (initial limits hlimits) ops).logical.find? id = some watch →
        ∀ metric ∈ watch.requirement.metrics, ∃ p ∈ run.published,
          p.view.generation = watch.requirement.catalogGeneration ∧
          ∃ d ∈ descriptors, CommittedView target d p.view ∧ TargetSupports target d metric := by
  intro run
  have hviews := (run_viewsCommitted valid descriptors).views
  constructor
  · intro p hp
    obtain ⟨d, hd, hview⟩ := hviews p hp
    exact ⟨d, hd, hview, fun metric => hview.targetSupports (hdeclared d hd)⟩
  · intro limits hlimits ops hops id watch hwatch metric hmetric
    have hadmitting : (runFrom apply (initial limits hlimits) ops).Admitting target
        (run.published.map Published.view) :=
      invariant_along (fun m op hm hop => hm.apply hop) ⟨.inl rfl, fun _ _ hlive => by cases hlive⟩
        (along_of_forall hops _)
    obtain ⟨-, view, hmem, hgeneration, hsupports⟩ := hadmitting.live id watch hwatch metric hmetric
    obtain ⟨p, hp, rfl⟩ := mem_map.mp hmem
    obtain ⟨d, hd, hview⟩ := hviews p hp
    exact ⟨p, hp, hgeneration, d, hd, hview, hview.targetSupports (hdeclared d hd) hsupports⟩

end SemanticCatalog

namespace SharedDevice

open WatchManager SemanticCatalog

/-- A provider with one device that reports metric 7. -/
def reporting : ProviderDescriptor :=
  { providerVersion := "provider", target := .fpga, state := .ready
    entities := [{ stableNativeId := "c", pciBdf := "a", incarnation := "i", state := .ready
                   manageable := true }]
    capabilities := [{ kind := .metric, dataId := 7, supported := true }]
    detectedDeviceCount := 1 }

/-- The catalog with an inlet temperature that declares the FPGA target. -/
def declaring : TargetCatalog :=
  { target with metrics := [{ descriptor 7 "inlet" with supportsFpga := true }] }

theorem declaring_valid : declaring.validate.ok = true := by decide +kernel

theorem target_valid : target.validate.ok = true := by decide +kernel

def discovered (catalog : TargetCatalog) (valid : catalog.validate.ok = true) : CatalogRun :=
  runFrom CatalogRun.commit (CatalogRun.fresh catalog valid) [reporting]

/-- A watch of metric 7 on the view that was discovered. -/
def watching (view : CatalogView) (catalog : TargetCatalog) : List WatchOperation :=
  [.activateCatalog (some view) catalog,
    .create (client 1) { requirement [7] 10 0 with entity := ⟨.device, 0, 1⟩ }]

theorem supported_of_declared_inlet :
    ∃ p ∈ (discovered declaring declaring_valid).published, p.view.Supports 7 ∧
      TargetSupports declaring reporting 7 := by
  have hdeclared : ∀ d ∈ [reporting], ReportsDeclared declaring d := by
    intro d hd metric hmetric hreported
    rw [mem_singleton.mp hmetric]
    rfl
  have hviews := (supported_of_declared declaring_valid [reporting] hdeclared).1
  have hsupports : ∀ p ∈ (discovered declaring declaring_valid).published, p.view.Supports 7 := by
    decide +kernel
  have hone : (discovered declaring declaring_valid).published.length = 1 := by decide +kernel
  obtain ⟨p, hpublished⟩ := length_eq_one_iff.mp hone
  have hp : p ∈ (discovered declaring declaring_valid).published :=
    hpublished ▸ mem_singleton_self p
  obtain ⟨d, hd, -, htarget⟩ := hviews p hp
  rw [mem_singleton.mp hd] at htarget
  exact ⟨p, hp, hsupports p hp, htarget 7 (hsupports p hp)⟩

/-- No metric of this catalog declares the FPGA target; the view supports one all the same,
and a watch on it is accepted. -/
theorem undeclared_metric_admitted :
    (∀ metric ∈ target.metrics, metric.declares target.target = false) ∧
      (discovered target target_valid).catalog.snapshot.Supports 7 ∧
      (runFrom apply (initial {} validate_default)
          (watching (discovered target target_valid).catalog.snapshot target)).logical.entries.map
        (fun entry => entry.2.requirement.metrics) = [[7]] := by
  decide +kernel

end SharedDevice

namespace WatchManager

variable {start m : WatchManager} {owner : WatchOwner} {ops : List WatchOperation}
  {r : WatchRequirement}

/-! ### Minimum periods -/

/-- The period is not below the minimum of any metric. -/
def Paced (target : TargetCatalog) (r : WatchRequirement) : Prop :=
  ∀ metric ∈ r.metrics, ∃ descriptor,
    (descriptorMap target.metrics).find? metric = some descriptor ∧
      (descriptor.minPeriodNs : ℤ) ≤ r.period

/-- The minimum periods fit in a signed 64-bit number. -/
def MinimaFit (target : TargetCatalog) : Prop :=
  ∀ descriptor ∈ target.metrics, (descriptor.minPeriodNs : ℤ) ≤ int64Max

/-- In some state of the run the active catalog was a valid one of the watch's generation, and
it paces the watch. -/
def PacedIn (start : WatchManager) (ops : List WatchOperation) (r : WatchRequirement) : Prop :=
  ∃ before after view target, ops = before ++ after ∧
    (runFrom apply start before).catalog = ofView view target ∧
    target.validate.ok = true ∧ view.generation = r.catalogGeneration ∧ Paced target r

theorem PacedIn.concat (h : PacedIn start ops r) (op : WatchOperation) :
    PacedIn start (ops ++ [op]) r := by
  obtain ⟨before, after, view, target, rfl, h⟩ := h
  exact ⟨before, after ++ [op], view, target, append_assoc .., h⟩

/-- The cast of the source is exact for the minima of the active catalog, and its watches are
paced. -/
structure Pacing (start : WatchManager) (ops : List WatchOperation) : Prop where
  catalog : (runFrom apply start ops).catalog = {} ∨ ∃ view target, target.validate.ok = true ∧
    MinimaFit target ∧ (runFrom apply start ops).catalog = ofView view target
  live : ∀ id watch, (runFrom apply start ops).logical.find? id = some watch →
    PacedIn start ops watch.requirement

theorem Pacing.paces (h : Pacing start ops)
    (hgen : (runFrom apply start ops).catalog.view.map CatalogView.generation =
      some r.catalogGeneration)
    (hmet : ∀ metric ∈ r.metrics, ∃ desc,
      supportedDescriptor (runFrom apply start ops).catalog metric = some desc ∧
        toInt64 desc.minPeriodNs ≤ r.period) : PacedIn start ops r := by
  rcases h.catalog with hem | ⟨view, target, hva, hfit, hcat⟩
  · rw [hem] at hgen
    cases hgen
  · rw [hcat, ofView_view] at hgen
    refine ⟨ops, [], view, target, (append_nil ops).symm, hcat, hva, some.inj hgen, ?_⟩
    intro metric hme
    obtain ⟨desc, hsu, hle⟩ := hmet metric hme
    have hfi := (filter_eq_some_iff.mp hsu).1
    rw [hcat, ofView_descriptors] at hfi
    refine ⟨desc, hfi, ?_⟩
    rcases mem_of_find?_foldl_emplace hfi with hno | ⟨_, hmem, -, rfl⟩
    · cases hno
    · have hmax := hfit _ hmem
      rwa [toInt64, if_pos (by rw [int64Max] at hmax; omega)] at hle

theorem Pacing.concat (h : Pacing start ops) {op : WatchOperation}
    (hfit : ∀ view target, op = .activateCatalog (some view) target →
      target.validate.ok = true → MinimaFit target) : Pacing start (ops ++ [op]) := by
  have hrun : runFrom apply start (ops ++ [op]) = (runFrom apply start ops).apply op :=
    runFrom_append ..
  by_cases hop : ∀ owner r, op ≠ .create owner r
  · obtain ⟨hcat, hke, -⟩ := apply_drops _ op hop
    constructor
    · rw [hrun]
      rcases hcat with hcat | ⟨view, target, hac, hva, hcat⟩
      · rw [hcat]
        exact h.catalog
      · exact .inr ⟨view, target, hva, hfit view target hac hva, hcat⟩
    · intro id watch hfi
      exact (h.live id watch (hke id watch (hrun ▸ hfi))).concat op
  · push Not at hop
    obtain ⟨owner, r, rfl⟩ := hop
    obtain ⟨heq, -⟩ | ⟨watch, -, hho, -, heq, -, -, hme, -⟩ := create_cases _ owner r
    · rw [apply, heq] at hrun
      exact ⟨hrun ▸ h.catalog, fun id watch hfi => (h.live id watch (hrun ▸ hfi)).concat _⟩
    · rw [apply, heq] at hrun
      refine ⟨hrun ▸ h.catalog, fun id other hfi => PacedIn.concat ?_ _⟩
      rw [hrun] at hfi
      rcases find?_emplace_cases hfi with hold | rfl
      · exact h.live id other hold
      · exact h.paces hho.generation hme

/-- The minimum periods are enforced if they fit in a signed 64-bit number. -/
theorem run_paced {limits : WatchLimits} (valid : limits.validate.ok = true)
    (hfit : ∀ view target, .activateCatalog (some view) target ∈ ops →
      target.validate.ok = true → MinimaFit target) :
    ∀ id watch, (runFrom apply (initial limits valid) ops).logical.find? id = some watch →
      PacedIn (initial limits valid) ops watch.requirement := by
  have hpacing : Pacing (initial limits valid) ops := by
    induction ops using reverseRecOn with
    | nil => exact ⟨.inl rfl, fun _ _ hfi => by cases hfi⟩
    | append_singleton ops op ih =>
      refine (ih fun view target hmem => hfit view target (mem_append_left _ hmem)).concat ?_
      rintro view target rfl
      exact hfit view target (mem_append_right _ mem_cons_self)
  exact hpacing.live

end WatchManager

namespace SharedDevice

open WatchManager

/-- A client watches metric 7 every 10 ns. -/
def pacing (catalog : TargetCatalog) : List WatchOperation :=
  [.activateCatalog (some (view 1)) catalog, .create (client 1) (requirement [7] 10 0)]

theorem run_paced_inlet :
    PacedIn (initial {} validate_default) (pacing target) (requirement [7] 10 0) := by
  have hfit : ∀ view given, .activateCatalog (some view) given ∈ pacing target →
      given.validate.ok = true → MinimaFit given := by
    intro view given hmem _
    simp only [pacing, mem_cons, WatchOperation.activateCatalog.injEq, reduceCtorEq, not_mem_nil,
      or_false] at hmem
    rw [hmem.2, MinimaFit]
    decide
  have hlive : (runFrom apply (initial {} validate_default)
      (pacing target)).logical.find? 1 =
        some { id := 1, owner := client 1, requirement := requirement [7] 10 0 } := by
    decide +kernel
  exact run_paced validate_default hfit 1 _ hlive

/-- A minimum of 2^63 ns, which the cast turns negative. -/
def slow : TargetCatalog :=
  { target with
    metrics := [{ descriptor 7 "inlet" with
      minPeriodNs := 2 ^ 63, defaultPeriodNs := 2 ^ 63, freshnessNs := 2 ^ 63 }] }

theorem minimum_not_enforced :
    slow.validate.ok = true ∧ ¬ Paced slow (requirement [7] 10 0) ∧
      (runFrom apply (initial {} validate_default)
        (pacing slow)).logical.entries.map (fun entry => entry.2.requirement) =
          [requirement [7] 10 0] := by
  refine ⟨by decide +kernel, fun h => ?_, by decide +kernel⟩
  obtain ⟨d, hfi, hle⟩ := h 7 mem_cons_self
  cases hfi
  exact absurd hle (by decide)

end SharedDevice

namespace WatchManager

variable {m : WatchManager} {owner : WatchOwner}

/-! ### Failed operations -/

/-- The source overwrites the baseline before it publishes. When the publication fails, the
old baseline in the state that is left makes the manager what it was. -/
theorem publish_rollback (m : WatchManager) (base : Option EffectiveWatch)
    (h : ({ m with heartbeatBaseline := base }.publish m.logical).2.ok = false) :
    { ({ m with heartbeatBaseline := base }.publish m.logical).1 with
      heartbeatBaseline := m.heartbeatBaseline } = m := by
  obtain ⟨-, heq⟩ | ⟨-, hsa, -⟩ :=
    { m with heartbeatBaseline := base }.publish_eq m.logical
  · rw [heq] at h
    cases h
  · rw [hsa]

/-- An operation that fails changes nothing. A new catalog is the exception: it stays when the
watches it keeps cannot be published. -/
theorem apply_of_failure (m : WatchManager) (op : WatchOperation)
    (hop : ∀ catalog target, op ≠ .activateCatalog catalog target) (h : Failure (m.status op)) :
    m.apply op = m := by
  by_cases hcr : ∀ owner r, op ≠ .create owner r
  · exact (m.apply_drops op hcr).failure h hop
  · push Not at hcr
    obtain ⟨owner, r, rfl⟩ := hcr
    obtain ⟨hsa, -⟩ | ⟨_, -, -, -, -, -, -, -, hok⟩ := m.create_cases owner r
    · exact hsa
    · exact absurd hok (not_or.mpr h)

end WatchManager

namespace SharedDevice

open WatchManager

theorem oneEffective_valid : ({ maxEffectiveWatches := 1 } : WatchLimits).validate.ok = true := by
  decide

/-- Room for one effective watch, which the client's watch takes. -/
def full : WatchManager :=
  runFrom apply (initial { maxEffectiveWatches := 1 } oneEffective_valid)
    [.activateCatalog (some (view 1)) target, .create (client 1) (requirement [7] 20 0)]

/-- The baseline needs a second effective watch. -/
theorem apply_of_failure_baseline :
    (full.status (.setFirmwareHeartbeatBaseline 5 10)).code = .resourceExhausted ∧
      full.apply (.setFirmwareHeartbeatBaseline 5 10) = full := by
  have hcode : (full.status (.setFirmwareHeartbeatBaseline 5 10)).code = .resourceExhausted := by
    decide +kernel
  refine ⟨hcode, apply_of_failure full _ (fun _ _ => by simp) ?_⟩
  rw [DataManager.Failure, hcode]
  decide

end SharedDevice
end Pdcm
