import Pdcm.Collection.WatchSnapshots

/-!
# Owners of watches do not disturb each other

Every change of one owner rebuilds the whole snapshot and prunes the counters of all
watches. For another owner nothing changes: the watches, what was counted for them, and the
keys they need. Creating a watch and destroying it again gives back the effective watches
there were, as long as a snapshot version is left to destroy it with.
-/

namespace Pdcm

open Library OrderedMap

/-- The operations that a client asks for in its own name. -/
inductive WatchOperation.By (owner : WatchOwner) : WatchOperation → Prop
  | create (requirement : WatchRequirement) : By owner (.create owner requirement)
  | destroy (watchId : WatchId) : By owner (.destroy owner watchId)
  | removeOwner : By owner (.removeOwner owner)

namespace WatchManager

variable {m : WatchManager} {owner : WatchOwner} {op : WatchOperation} {watch : LogicalWatch}
  {other : WatchOwner}

/-! ### Reachable managers -/

/-- The manager is coherent or can publish nothing any more. -/
def Settled (m : WatchManager) : Prop := m.Coherent ∨ m.snapshot.version = uint64Max

theorem Settled.apply (h : m.Settled) (op : WatchOperation) : (m.apply op).Settled := by
  by_cases hver : m.snapshot.version = uint64Max
  · rcases m.apply_snapshot op with hsa | ⟨hne, -⟩
    · exact .inr (hsa.symm ▸ hver)
    · exact absurd hver hne
  · have hcoh := h.resolve_right hver
    have hle : m.VersionLeft op := by
      cases op with
      | activateCatalog => exact hver
      | _ => trivial
    exact .inl (hcoh.apply hle)

theorem run_settled (limits : WatchLimits) (valid : limits.validate.ok = true)
    (ops : List WatchOperation) : (runFrom apply (initial limits valid) ops).Settled :=
  invariant_run (I := Settled) (fun _ op h => h.apply op)
    (Or.inl (initial_coherent limits valid)) ops

/-! ### What an owner can change -/

/-- Watches of other owners are kept, and none is added for them. -/
def KeepsOthers (m : WatchManager) (owner : WatchOwner) (next : OrderedMap WatchId LogicalWatch) :
    Prop :=
  ∀ id watch, watch.owner ≠ owner → (next.find? id = some watch ↔ m.logical.find? id = some watch)

theorem keepsOthers_emplace (m : WatchManager) (id : WatchId) (watch : LogicalWatch) :
    m.KeepsOthers watch.owner (m.logical.emplace id watch) := by
  intro j other hot
  rw [find?_emplace]
  split_ifs with hid
  · subst hid
    cases m.logical.find? j with
    | none => simpa using fun heq : watch = other => hot (congrArg LogicalWatch.owner heq.symm)
    | some old => rfl
  · rfl

/-- Every way an operation in the name of an owner can end. -/
theorem own_cases (m : WatchManager) (hop : op.By owner) :
    m.apply op = m ∨ ∃ next nextWatchId, m.Publishable next ∧ m.KeepsOthers owner next ∧
      m.apply op = { m.published next with nextWatchId := nextWatchId } := by
  have hpu {keeps : WatchId → LogicalWatch → Bool} (hke : ∀ id watch,
      m.logical.find? id = some watch → watch.owner ≠ owner → keeps id watch = true) :
      (m.publish (m.logical.filter keeps)).1 = m ∨ ∃ next nextWatchId, m.Publishable next ∧
        m.KeepsOthers owner next ∧ (m.publish (m.logical.filter keeps)).1 =
          { m.published next with nextWatchId := nextWatchId } := by
    obtain ⟨hpub, heq⟩ | ⟨-, hsa, -⟩ := m.publish_eq (m.logical.filter keeps)
    · refine .inr ⟨_, m.nextWatchId, hpub, fun id watch hot => ?_, by rw [heq]; rfl⟩
      rw [find?_filter, Option.filter_eq_some_iff]
      exact ⟨And.left, fun hli => ⟨hli, hke id watch hli hot⟩⟩
    · exact .inl hsa
  cases hop with
  | create r =>
    obtain ⟨hsa, -⟩ | ⟨watch, rfl, -, hpub, heq, -⟩ := m.create_cases owner r
    · exact .inl hsa
    · exact .inr ⟨_, _, hpub, m.keepsOthers_emplace _ watch, heq⟩
  | destroy wid =>
    rw [apply, destroy]
    cases hfi : m.logical.find? wid with
    | none => exact .inl rfl
    | some found =>
      dsimp only
      split_ifs with how
      · exact .inl rfl
      · apply hpu
        intro id watch hli hot
        rw [decide_eq_true_eq]
        rintro rfl
        rw [hfi, Option.some.injEq] at hli
        exact how (hli ▸ hot)
  | removeOwner =>
    rw [apply, removeOwner]
    split_ifs with hno
    · exact .inl rfl
    · apply hpu
      intro id watch _ hot
      exact decide_eq_true hot

/-- Nothing of an owner is different: the live watches, what was counted for them, and the
keys they need. -/
structure Unaffected (owner : WatchOwner) (m m' : WatchManager) : Prop where
  catalog_eq : m'.catalog = m.catalog
  watches : ∀ id watch, watch.owner = owner →
    (m'.logical.find? id = some watch ↔ m.logical.find? id = some watch)
  tally : ∀ id watch, watch.owner = owner → m.logical.find? id = some watch →
    m'.tally id = m.tally id
  keys : ∀ id watch, watch.owner = owner → m.logical.find? id = some watch →
    ∀ metric ∈ watch.requirement.metrics,
      watchKey m.catalog.providerId watch.requirement metric ∈
        m.snapshot.effectiveWatches.map EffectiveWatch.key →
      watchKey m.catalog.providerId watch.requirement metric ∈
        m'.snapshot.effectiveWatches.map EffectiveWatch.key

theorem unaffected_refl (owner : WatchOwner) (m : WatchManager) : Unaffected owner m m where
  catalog_eq := rfl
  watches _ _ _ := Iff.rfl
  tally _ _ _ _ := rfl
  keys _ _ _ _ _ _ h := h

theorem Unaffected.trans {a b c : WatchManager} (hab : Unaffected owner a b)
    (hbc : Unaffected owner b c) : Unaffected owner a c where
  catalog_eq := hbc.catalog_eq.trans hab.catalog_eq
  watches id watch howner := (hbc.watches id watch howner).trans (hab.watches id watch howner)
  tally id watch howner hlive :=
    (hbc.tally id watch howner ((hab.watches id watch howner).mpr hlive)).trans
      (hab.tally id watch howner hlive)
  keys id watch howner hlive metric hme hkey := by
    have hla := hbc.keys id watch howner ((hab.watches id watch howner).mpr hlive) metric hme
    rw [hab.catalog_eq] at hla
    exact hla (hab.keys id watch howner hlive metric hme hkey)

theorem Settled.unaffected (h : m.Settled) (hne : other ≠ owner) (hop : op.By owner) :
    Unaffected other m (m.apply op) := by
  obtain hsa | ⟨next, nextWatchId, hpub, hke, heq⟩ := m.own_cases hop
  · rw [hsa]
    exact unaffected_refl other m
  have hle : m.VersionLeft op := by
    cases hop <;> trivial
  have hnex := (h.resolve_right hpub.version_ne).apply hle
  rw [heq] at hnex ⊢
  have hli (id : WatchId) (watch : LogicalWatch) (how : watch.owner = other) :
      next.find? id = some watch ↔ m.logical.find? id = some watch :=
    hke id watch (how ▸ hne)
  refine ⟨rfl, hli, ?_, ?_⟩
  · intro id watch how hfi
    have hnext := (hli id watch how).mpr hfi
    have hco : next.contains id = true := by simp [contains, hnext]
    simp only [tally, published, find?_filter, hco, hnext, hfi]
    cases m.sampleCounts.find? id <;> cases m.lastSampleTimes.find? id <;> rfl
  · intro id watch how hfi mid hme _
    rw [hnex.keys_eq, mem_keys_effectiveWatches]
    exact .inl ⟨(id, watch), mem_entries_iff.mpr ((hli id watch how).mpr hfi), mid, hme,
      rfl⟩

theorem Settled.run_unaffected (h : m.Settled) (hne : other ≠ owner) {own : List WatchOperation}
    (hown : ∀ op ∈ own, op.By owner) : Unaffected other m (runFrom WatchManager.apply m own) := by
  induction own generalizing m with
  | nil => exact unaffected_refl other m
  | cons op rest ih =>
    obtain ⟨hop, hre⟩ := List.forall_mem_cons.mp hown
    exact (h.unaffected hne hop).trans (ih (h.apply op) hre)

/-! ### Creating a watch and destroying it -/

/-- A new watch can be destroyed while a version is left, and then the effective watches are
the ones before it was created. -/
theorem Settled.destroy_created (h : m.Settled) {r : WatchRequirement}
    (hcr : (m.create owner r).2.watchId ≠ 0)
    (hver : (m.create owner r).1.snapshot.version ≠ uint64Max) :
    ((m.create owner r).1.destroy owner (m.create owner r).2.watchId).2 = .success ∧
      ((m.create owner r).1.destroy owner
          (m.create owner r).2.watchId).1.snapshot.effectiveWatches =
        m.snapshot.effectiveWatches := by
  obtain ⟨-, hze⟩ | ⟨watch, how, -, hpub, heq, hid, -⟩ := m.create_cases owner r
  · exact absurd hze hcr
  have hcoh := h.resolve_right hpub.version_ne
  rw [heq] at hver
  rw [hid, heq]
  generalize hne : m.created watch = next at hver ⊢
  have hfi : next.logical.find? m.nextWatchId = some watch := by
    rw [← hne]
    simp [published, find?_emplace, hcoh.fresh_id]
  have hlog : next.logical.erase m.nextWatchId = m.logical := by
    rw [← hne]
    exact erase_emplace hcoh.fresh_id watch
  -- the merge reads the catalog and the baseline, and both are as they were
  have hef : next.effectiveWatches m.logical = m.effectiveWatches m.logical := by
    rw [← hne]
    rfl
  have hre : next.Publishable m.logical := by
    refine ⟨?_, hver, ?_⟩
    · rw [← hne]
      exact hcoh.within.logical_le
    · rw [← hne]
      exact hcoh.within.effective_le
  rw [destroy, hfi]
  simp only [how, ne_eq, not_true_eq_false, if_false, hlog, publish_of_publishable hre, true_and]
  rw [hcoh.snapshot_eq]
  exact congrArg (fun eff : OrderedMap EffectiveWatchKey EffectiveWatch =>
    eff.entries.map Prod.snd) hef

/-- Two owners do not disturb each other: whatever one of them creates and removes in a
reachable state, the watches of the other, their counts and their keys stay, and they cannot
be removed. A watch that is created and destroyed leaves the effective watches as they were,
if a version is left for the removal. -/
theorem owners_isolated {limits : WatchLimits} {valid : limits.validate.ok = true}
    (ops : List WatchOperation) {owner other : WatchOwner} (hne : other ≠ owner)
    {m : WatchManager} (hm : runFrom apply (initial limits valid) ops = m) :
    (∀ own : List WatchOperation, (∀ op ∈ own, op.By owner) →
      Unaffected other m (runFrom apply m own)) ∧
    (∀ id watch, m.logical.find? id = some watch → watch.owner = other →
      (m.destroy owner id).2.ok = false) ∧
    ∀ r, (m.create owner r).2.watchId ≠ 0 →
      (m.create owner r).1.snapshot.version ≠ uint64Max →
      ((m.create owner r).1.destroy owner (m.create owner r).2.watchId).2 = .success ∧
        ((m.create owner r).1.destroy owner
            (m.create owner r).2.watchId).1.snapshot.effectiveWatches =
          m.snapshot.effectiveWatches := by
  have hsettled : m.Settled := hm ▸ run_settled limits valid ops
  refine ⟨fun own hown => hsettled.run_unaffected hne hown, ?_,
    fun r hcreated hversion => hsettled.destroy_created hcreated hversion⟩
  intro id watch hlive howner
  rw [destroy, hlive]
  simp only [howner, ne_eq, hne]
  rfl

end WatchManager

namespace SharedDevice

open WatchManager

variable {m : WatchManager}

theorem opened_isolated :
    ∃ m, runFrom apply (initial {} rfl) opened = m ∧ client 1 ≠ client 2 ∧
      Unaffected (client 1) m (runFrom apply m
        [.create (client 2) (requirement [8] 5 3), .destroy (client 2) 2,
          .removeOwner (client 2)]) ∧
      (m.destroy (client 2) 1).2.ok = false ∧
      ((m.create (client 2) (requirement [8] 5 3)).1.destroy (client 2)
          (m.create (client 2) (requirement [8] 5 3)).2.watchId).1.snapshot.effectiveWatches =
        m.snapshot.effectiveWatches := by
  have hne : client 1 ≠ client 2 := by decide
  obtain ⟨hunaffected, hrefused, hrestored⟩ := @owners_isolated {} rfl opened _ _ hne _ rfl
  refine ⟨_, rfl, hne, ?_, ?_, (hrestored _ (by decide +kernel) (by decide +kernel)).2⟩
  · apply hunaffected
    simp only [List.forall_mem_cons, List.not_mem_nil, false_implies, implies_true, and_true]
    exact ⟨.create _, .destroy _, .removeOwner⟩
  · exact hrefused 1 { id := 1, owner := client 1, requirement := requirement [7, 8] 20 0 }
      (by decide +kernel) rfl

/-- The watch that a second client adds. -/
def second : LogicalWatch :=
  { id := 2, owner := client 2, requirement := requirement [7] 10 0 }

theorem Toggled.second_publishable {ver : ℕ} (h : Toggled m ver) (hver : ver < uint64Max) :
    m.Publishable (started.logical.emplace 2 second) ∧
      ((m.effectiveWatches (started.logical.emplace 2 second)).entries.map Prod.snd) ≠
        (m.effectiveWatches started.logical).entries.map Prod.snd := by
  have hsa (logical : OrderedMap WatchId LogicalWatch) : m.effectiveWatches logical =
      { started with heartbeatBaseline := m.heartbeatBaseline }.effectiveWatches logical := by
    simp only [effectiveWatches, h.catalog_eq]
  rw [hsa, hsa]
  refine ⟨⟨?_, ?_, ?_⟩, ?_⟩
  · rw [h.limits_eq]
    decide +kernel
  · rw [h.version_eq]
    exact hver.ne
  · rw [hsa, h.limits_eq]
    rcases h.baseline_eq with hba | hba <;> rw [hba] <;> decide +kernel
  · rcases h.baseline_eq with hba | hba <;> rw [hba] <;> decide +kernel

theorem Toggled.create_second {ver : ℕ} (h : Toggled m ver) (hver : ver < uint64Max) :
    m.create (client 2) (requirement [7] 10 0) =
      ({ m.published (started.logical.emplace 2 second) with nextWatchId := 3 },
        { watchId := 2 }) := by
  have hva : m.validateRequirement (requirement [7] 10 0) = (.success, [7], []) := by
    have hsa : m.validateRequirement (requirement [7] 10 0) =
        started.validateRequirement (requirement [7] 10 0) := by
      simp only [validateRequirement, h.catalog_eq, h.limits_eq]
    rw [hsa]
    decide +kernel
  have hid : m.nextWatchId = 2 := h.nextWatchId_eq
  have hpub : m.publish (m.logical.emplace 2
      { id := 2, owner := client 2
        requirement := { requirement [7] 10 0 with metrics := [7].insertionSort (· ≤ ·) } }) =
      (m.published (started.logical.emplace 2 second), .success) := by
    rw [h.logical_eq]
    exact publish_of_publishable (h.second_publishable hver).1
  rw [create, hid, hva]
  simp only [hpub]
  rfl

/-- The last version is spent on creating a watch: destroying it is refused, and its
requirement stays in the snapshot. -/
theorem destroy_refused :
    ∃ ops m, runFrom apply (initial {} rfl) ops = m ∧
      (m.create (client 2) (requirement [7] 10 0)).2.status = .success ∧
      (m.create (client 2) (requirement [7] 10 0)).2.watchId = 2 ∧
      ((m.create (client 2) (requirement [7] 10 0)).1.destroy (client 2) 2).2.ok = false ∧
      ((m.create (client 2) (requirement [7] 10 0)).1.destroy (client 2)
        2).1.snapshot.effectiveWatches ≠ m.snapshot.effectiveWatches := by
  obtain ⟨ops, hops⟩ := @exists_toggled (uint64Max - 1) (by decide) (by decide)
  have hrun : runFrom apply (initial {} rfl) (opening ++ ops) = runFrom apply started ops := by
    rfl
  have hsettled : (runFrom apply started ops).Settled := hrun ▸ run_settled {} rfl (opening ++ ops)
  refine ⟨_, _, hrun, ?_⟩
  generalize runFrom apply started ops = m at hops hsettled ⊢
  have hlast : uint64Max - 1 < uint64Max := by decide
  have hcoherent : m.Coherent := hsettled.resolve_right (by rw [hops.version_eq]; decide)
  obtain ⟨-, hdifferent⟩ := hops.second_publishable hlast
  rw [hops.create_second hlast]
  refine ⟨rfl, rfl, ?_⟩
  generalize hnext : ({ m.published (started.logical.emplace 2 second) with
    nextWatchId := 3 } : WatchManager) = next
  have hversion : next.snapshot.version = uint64Max := by
    rw [← hnext]
    change m.snapshot.version + 1 = uint64Max
    rw [hops.version_eq]
    rfl
  have hdestroy : next.destroy (client 2) 2 = next.publish (next.logical.erase 2) := by
    rw [← hnext]
    rfl
  obtain ⟨hpublishable, -⟩ | ⟨-, hsame, hfailed⟩ := next.publish_eq (next.logical.erase 2)
  · exact absurd hversion hpublishable.version_ne
  · rw [hdestroy]
    refine ⟨hfailed, ?_⟩
    rw [hsame, ← hnext, hcoherent.snapshot_eq, hops.logical_eq]
    exact hdifferent

end SharedDevice
end Pdcm
