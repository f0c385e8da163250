import Pdcm.Library.Runs
import Pdcm.Collection.SampleRecording
import Pdcm.Collection.WatchMerge

/-!
# Runs of the watch manager

The operations that clients and the coordinator call in any order, what each of them can
make of the manager, and what holds after every run: the published snapshot is the merge of
the live watches, all of which belong to the active catalog, and samples are counted for
live watches only. Only `activateCatalog` can break this: it replaces the catalog before it
publishes, and does not take it back when the versions of snapshots are used up.
-/

namespace Pdcm

open Library List

inductive WatchOperation where
  | activateCatalog (catalog : Option CatalogView) (target : TargetCatalog)
  | setFirmwareHeartbeatBaseline (period retention : ℤ)
  | clearFirmwareHeartbeatBaseline
  | create (owner : WatchOwner) (requirement : WatchRequirement)
  | destroy (owner : WatchOwner) (watchId : WatchId)
  | removeOwner (owner : WatchOwner)
  | recordSamples (watchIds : List WatchId) (first period : ℤ) (sampleCount : ℕ)

namespace WatchManager

variable (m : WatchManager) {op : WatchOperation} {period : ℤ} (owner : WatchOwner) {r : Recording}

def apply (m : WatchManager) : WatchOperation → WatchManager
  | .activateCatalog catalog target => (m.activateCatalog catalog target).1
  | .setFirmwareHeartbeatBaseline period retention =>
    (m.setFirmwareHeartbeatBaseline period retention).1
  | .clearFirmwareHeartbeatBaseline => m.clearFirmwareHeartbeatBaseline.1
  | .create owner requirement => (m.create owner requirement).1
  | .destroy owner watchId => (m.destroy owner watchId).1
  | .removeOwner owner => (m.removeOwner owner).1
  | .recordSamples watchIds first period sampleCount =>
    (m.recordSamples watchIds first period sampleCount).1

/-- A manager as its constructor leaves it. -/
def initial (limits : WatchLimits) (valid : limits.validate.ok = true) : WatchManager :=
  { limits := limits, valid := valid }

/-! ### What an operation can do -/

/-- The watch belongs to the active catalog and names each metric once. -/
structure Holds (m : WatchManager) (id : WatchId) (watch : LogicalWatch) : Prop where
  id_eq : watch.id = id
  generation : m.catalog.view.map CatalogView.generation = some watch.requirement.catalogGeneration
  entity : m.catalog.entity = some watch.requirement.entity
  metrics_nodup : watch.requirement.metrics.Nodup

/-- Nothing is counted for watches that are not live. -/
def Covered (m : WatchManager) : Prop :=
  ∀ id, m.logical.find? id = none →
    m.sampleCounts.find? id = none ∧ m.lastSampleTimes.find? id = none

def Recording.Covered (r : Recording) : Prop :=
  ∀ id, r.next.find? id = none → r.nextCounts.find? id = none ∧ r.nextTimes.find? id = none

/-- The manager with a new catalog, before the watches it keeps are published. -/
def switched (m : WatchManager) (view : CatalogView) (target : TargetCatalog) : WatchManager :=
  { m with catalog := WatchCatalog.ofView view target, heartbeatBaseline := none }

def retained (m : WatchManager) (view : CatalogView) (target : TargetCatalog) :
    OrderedMap WatchId LogicalWatch :=
  m.logical.filter fun _ watch =>
    decide (watch.requirement.catalogGeneration = view.generation ∧
      (WatchCatalog.ofView view target).entity = some watch.requirement.entity)

abbrev created (m : WatchManager) (watch : LogicalWatch) : WatchManager :=
  { m.published (m.logical.emplace m.nextWatchId watch) with nextWatchId := m.nextWatchId + 1 }

/-- Every way an operation can end. -/
inductive Outcome (m : WatchManager) : WatchOperation → WatchManager → Prop
  | unchanged {op : WatchOperation} : Outcome m op m
  | activated (view : CatalogView) (target : TargetCatalog)
      (hnewer : ∀ current ∈ m.catalog.view, current.generation < view.generation) :
      Outcome m (.activateCatalog (some view) target)
        ((m.switched view target).publish (m.retained view target)).1
  | rebased {op : WatchOperation} (baseline : Option EffectiveWatch)
      (hkind : ∀ b ∈ baseline, b.key.kind = .heartbeatEvidence)
      (hpublishable : { m with heartbeatBaseline := baseline }.Publishable m.logical)
      (hunowned : ∀ b ∈ baseline, b.logicalWatches = []) :
      Outcome m op ({ m with heartbeatBaseline := baseline }.published m.logical)
  | created {op : WatchOperation} (watch : LogicalWatch) (hholds : m.Holds m.nextWatchId watch)
      (hpublishable : m.Publishable (m.logical.emplace m.nextWatchId watch))
      (hmetrics : watch.requirement.metrics ≠ []) :
      Outcome m op (m.created watch)
  | removed {op : WatchOperation} (keeps : WatchId → LogicalWatch → Bool)
      (hpublishable : m.Publishable (m.logical.filter keeps)) :
      Outcome m op (m.published (m.logical.filter keeps))
  | counted {op : WatchOperation} (r : Recording) (hnext : r.next = m.logical)
      (hcovered : m.Covered → r.Covered) :
      Outcome m op { m with sampleCounts := r.nextCounts, lastSampleTimes := r.nextTimes }
  | exhausted {op : WatchOperation} (r : Recording)
      (hnext : r.next.entries.Sublist m.logical.entries)
      (hcovered : m.Covered → r.Covered) (hpublishable : m.Publishable r.next) :
      Outcome m op
        { m.published r.next with
          sampleCounts := r.nextCounts, lastSampleTimes := r.nextTimes }

theorem activateCatalog_outcome (cat : Option CatalogView) (target : TargetCatalog) :
    m.Outcome (.activateCatalog cat target) (m.activateCatalog cat target).1 := by
  unfold activateCatalog
  cases cat with
  | none => exact .unchanged
  | some view =>
    dsimp only
    split_ifs with hze hva hba hsa
    · exact .unchanged
    · exact .unchanged
    · exact .unchanged
    · refine .activated view target fun cur hcur => ?_
      rw [Option.mem_def] at hcur
      simp only [hcur, Option.map_some, Option.any_some, decide_eq_true_eq,
        Option.some.injEq] at hba hsa
      omega
    · exact .unchanged

theorem rebase_outcome {base : Option EffectiveWatch}
    (hki : ∀ b ∈ base, b.key.kind = .heartbeatEvidence)
    (hun : ∀ b ∈ base, b.logicalWatches = []) :
    let published := { m with heartbeatBaseline := base }.publish m.logical
    m.Outcome op (if published.2.ok then published else (m, published.2)).1 := by
  obtain ⟨hpub, heq⟩ | ⟨-, -, hfa⟩ :=
    { m with heartbeatBaseline := base }.publish_eq m.logical
  · rw [heq]
    exact .rebased base hki hpub hun
  · simp only [hfa]
    exact .unchanged

theorem setFirmwareHeartbeatBaseline_outcome (period ret : ℤ) :
    m.Outcome op (m.setFirmwareHeartbeatBaseline period ret).1 := by
  unfold setFirmwareHeartbeatBaseline
  split
  · exact .unchanged
  · split
    · split
      · exact .unchanged
      · split
        · exact .unchanged
        · split
          · exact .unchanged
          · apply m.rebase_outcome
            · intro b hb
              rw [← Option.some.inj hb]
            · intro b hb
              rw [← Option.some.inj hb]
    · exact .unchanged

theorem clearFirmwareHeartbeatBaseline_outcome :
    m.Outcome op m.clearFirmwareHeartbeatBaseline.1 := by
  unfold clearFirmwareHeartbeatBaseline
  split
  · exact .unchanged
  · apply m.rebase_outcome
    · intro b hb
      cases hb
    · intro b hb
      cases hb

theorem validateMetrics_ok {c : WatchCatalog} {supported unsupported seen mids :
    List MetricId} (h : (validateMetrics c period supported unsupported seen mids).1.ok = true) :
    mids.Nodup ∧ (∀ mid ∈ mids, mid ∉ seen) ∧
      ∃ added, (validateMetrics c period supported unsupported seen mids).2.1 =
        supported ++ added ∧ added.Sublist mids ∧
          ∀ mid ∈ added, ∃ desc, supportedDescriptor c mid = some desc ∧
            toInt64 desc.minPeriodNs ≤ period := by
  induction mids generalizing supported unsupported seen with
  | nil => exact ⟨nodup_nil, by simp, [], by simp [validateMetrics], .refl _, by simp⟩
  | cons mid rest ih =>
    rw [validateMetrics] at h ⊢
    split_ifs at h ⊢ with hbad
    · cases h
    · have hnew := (not_or.mp hbad).2
      have hdi (hre : rest.Nodup) (hse : ∀ other ∈ rest, other ∉ mid :: seen) :
          (mid :: rest).Nodup ∧ ∀ other ∈ mid :: rest, other ∉ seen := by
        refine ⟨nodup_cons.mpr ⟨fun hmem => hse mid hmem mem_cons_self, hre⟩, ?_⟩
        intro other hot hold
        rcases mem_cons.mp hot with rfl | hot
        · exact hnew hold
        · exact hse other hot (mem_cons_of_mem _ hold)
      cases hsu : supportedDescriptor c mid with
      | none =>
        simp only [hsu] at h
        obtain ⟨hre, hse, added, had, hsub, hpi⟩ := ih h
        obtain ⟨hno, hun⟩ := hdi hre hse
        exact ⟨hno, hun, added, had, hsub.cons mid, hpi⟩
      | some desc =>
        simp only [hsu] at h
        split_ifs at h with hpe
        · cases h
        · obtain ⟨hre, hse, added, had, hsub, hpi⟩ := ih h
          obtain ⟨hno, hun⟩ := hdi hre hse
          refine ⟨hno, hun, mid :: added, ?_, hsub.cons_cons mid, ?_⟩
          · simp only [if_neg hpe, had, append_assoc, singleton_append]
          · intro other hot
            rcases mem_cons.mp hot with rfl | hot
            · exact ⟨desc, hsu, not_lt.mp hpe⟩
            · exact hpi other hot

theorem validateRequirement_ok {m : WatchManager} {r : WatchRequirement}
    (h : (m.validateRequirement r).1.ok = true) :
    m.catalog.view.map CatalogView.generation = some r.catalogGeneration ∧
      m.catalog.entity = some r.entity ∧ (m.validateRequirement r).2.1.Nodup ∧
      ∀ mid ∈ (m.validateRequirement r).2.1, ∃ desc,
        supportedDescriptor m.catalog mid = some desc ∧ toInt64 desc.minPeriodNs ≤ r.period := by
  unfold validateRequirement at h ⊢
  cases hvi : m.catalog.view with
  | none =>
    simp only [hvi] at h
    cases h
  | some view =>
    simp only [hvi] at h ⊢
    split_ifs at h ⊢ with hde hst hsh
    · cases h
    · cases h
    · cases h
    · simp only [not_or, not_not] at hst
      obtain ⟨hno, -, added, had, hsub, hpi⟩ := validateMetrics_ok h
      rw [had]
      exact ⟨congrArg some hst.1.symm, hst.2, hsub.nodup hno, hpi⟩

/-- `create` fails and changes nothing, or adds a watch under the next id. -/
theorem create_cases (r : WatchRequirement) :
    (m.create owner r).1 = m ∧ (m.create owner r).2.watchId = 0 ∨
    ∃ watch, watch.owner = owner ∧ m.Holds m.nextWatchId watch ∧
      m.Publishable (m.logical.emplace m.nextWatchId watch) ∧
      (m.create owner r).1 = m.created watch ∧ (m.create owner r).2.watchId = m.nextWatchId ∧
      watch.requirement.metrics ≠ [] ∧
      (∀ mid ∈ watch.requirement.metrics, ∃ desc, supportedDescriptor m.catalog mid = some desc ∧
        toInt64 desc.minPeriodNs ≤ watch.requirement.period) ∧
      ((m.create owner r).2.status.code = .success ∨
        (m.create owner r).2.status.code = .partialResult) := by
  unfold create
  split
  · exact .inl ⟨rfl, rfl⟩
  split
  · exact .inl ⟨rfl, rfl⟩
  dsimp only
  split
  · exact .inl ⟨rfl, rfl⟩
  next hva =>
  split
  · exact .inl ⟨rfl, rfl⟩
  split
  · exact .inl ⟨rfl, rfl⟩
  next hsu =>
  obtain ⟨hgen, hen, hno, hpi⟩ := validateRequirement_ok (not_not.mp hva)
  have hpe := perm_insertionSort (· ≤ ·) (m.validateRequirement r).2.1
  obtain ⟨hpub, heq⟩ | ⟨-, -, hre⟩ := m.publish_eq (m.logical.emplace m.nextWatchId
    { id := m.nextWatchId, owner := owner
      requirement :=
        { r with metrics := (m.validateRequirement r).2.1.insertionSort (· ≤ ·) } })
  · rw [heq]
    refine .inr ⟨_, ?_, ⟨rfl, hgen, hen, ?_⟩, hpub, rfl, rfl, ?_, ?_, ?_⟩
    · rfl
    · exact hpe.nodup_iff.mpr hno
    · intro hnil
      rw [show (m.validateRequirement r).2.1.insertionSort (· ≤ ·) = [] from hnil] at hpe
      exact hsu hpe.nil_eq.symm
    · intro mid hme
      exact hpi mid (hpe.mem_iff.mp hme)
    · by_cases hun : (m.validateRequirement r).2.2 = []
      · exact .inl (by simp [hun])
      · exact .inr (by simp [hun])
  · rw [if_pos (by simp [hre])]
    exact Or.inl ⟨rfl, rfl⟩

theorem create_outcome (r : WatchRequirement) : m.Outcome op (m.create owner r).1 := by
  obtain ⟨hsa, -⟩ | ⟨watch, -, hho, hpub, heq, -, hme, -⟩ :=
    m.create_cases owner r
  · rw [hsa]
    exact .unchanged
  · rw [heq]
    exact .created watch hho hpub hme

theorem publish_filter_outcome (keeps : WatchId → LogicalWatch → Bool) :
    m.Outcome op (m.publish (m.logical.filter keeps)).1 := by
  obtain ⟨hpub, heq⟩ | ⟨-, hsa, -⟩ := m.publish_eq (m.logical.filter keeps)
  · rw [heq]
    exact .removed keeps hpub
  · rw [hsa]
    exact .unchanged

theorem destroy_outcome (wid : WatchId) : m.Outcome op (m.destroy owner wid).1 := by
  unfold destroy
  cases m.logical.find? wid with
  | none => exact .unchanged
  | some watch =>
    dsimp only
    split_ifs with how
    · exact .unchanged
    · exact m.publish_filter_outcome _

theorem removeOwner_outcome : m.Outcome op (m.removeOwner owner).1 := by
  unfold removeOwner
  dsimp only
  split_ifs with hno
  · exact .unchanged
  · exact m.publish_filter_outcome _

theorem recordWatch_covered {first last : ℤ} {n : ℕ} (h : r.Covered) (id : WatchId) :
    (recordWatch first last period n r id).Covered := by
  unfold recordWatch
  cases hli : r.next.find? id with
  | none => exact h
  | some watch =>
    dsimp only
    split_ifs with hsk hlim
    · exact h
    · intro other hot
      simp only [OrderedMap.find?_erase] at hot ⊢
      split_ifs at hot ⊢ with hid
      · exact ⟨rfl, rfl⟩
      · exact h other hot
    · intro other hot
      have hne : other ≠ id := by
        rintro rfl
        rw [hli] at hot
        cases hot
      simpa [OrderedMap.find?_insert, hne] using h other hot

theorem recordSamples_outcome (ids : List WatchId) (first period : ℤ) (cnt : ℕ) :
    m.Outcome op (m.recordSamples ids first period cnt).1 := by
  unfold recordSamples
  cases checkToken ids first period cnt with
  | some st => exact .unchanged
  | none =>
    dsimp only
    have hco : m.Covered → (m.recording ids first period cnt).Covered :=
      fun h => List.foldlRecOn _ _ h fun _ hr id _ => recordWatch_covered hr id
    split_ifs with hfo hch
    · exact .unchanged
    · exact .unchanged
    · unfold storeRecording
      split_ifs with hrem
      · obtain ⟨hpub, heq⟩ | ⟨-, hsa, hfa⟩ :=
          m.publish_eq (m.recording ids first period cnt).next
        · rw [heq]
          exact .exhausted _ (foldl_recordWatch_keeps _ _).sublist hco hpub
        · simp only [hfa, Bool.false_eq_true, if_false, hsa]
          exact .unchanged
      · exact .counted _ ((foldl_recordWatch_keeps _ _).next (Bool.eq_false_iff.mpr hrem)).2 hco

theorem apply_outcome (op : WatchOperation) : m.Outcome op (m.apply op) := by
  cases op with
  | activateCatalog cat target => exact m.activateCatalog_outcome cat target
  | setFirmwareHeartbeatBaseline period ret =>
    exact m.setFirmwareHeartbeatBaseline_outcome period ret
  | clearFirmwareHeartbeatBaseline => exact m.clearFirmwareHeartbeatBaseline_outcome
  | create owner requirement => exact m.create_outcome owner requirement
  | destroy owner wid => exact m.destroy_outcome owner wid
  | removeOwner owner => exact m.removeOwner_outcome owner
  | recordSamples ids first period cnt =>
    exact m.recordSamples_outcome ids first period cnt

end WatchManager
end Pdcm
