import Pdcm.Semantic.CatalogHistory

/-!
# Committed views

What all views that `SemanticCatalog::commit` publishes have in common, whatever the
descriptors were: at most one record, made from a manageable device of the descriptor, and
one capability set for it, made from the target catalog and the provider's report. A commit
that is refused leaves nothing behind, neither in the views nor in later results.
-/

namespace Pdcm

open Library List

namespace SemanticCatalog

variable {c : SemanticCatalog} {key : String} {d : ProviderDescriptor} {target : TargetCatalog}
  {incarnation : String} {tracked : Tracked} {history : IdentityHistory}
  {descriptors : List ProviderDescriptor} {run : CatalogRun}

/-! ### What a view is made from -/

/-- The view was built from the descriptor. -/
structure CommittedView (target : TargetCatalog) (d : ProviderDescriptor) (v : CatalogView) :
    Prop where
  generation_ne : v.generation ≠ 0
  topology : v.topologyUnsupported = decide (1 < d.detectedDeviceCount)
  single : v.entities.length ≤ 1
  record : ∀ record ∈ v.entities, ∃ device ∈ d.manageable, ∃ ref,
    record = entityRecord d device ref ∧ ref.kind = .device ∧ ref.generation ≠ 0
  sets : v.capabilitySets = v.entities.map fun record =>
    buildCapabilities target record d v.generation
  accepted : d.target = target.target

/-- Generations are given out from 1 on. -/
def GenerationsCounted (c : SemanticCatalog) : Prop :=
  ∀ key history, c.identityHistory.find? key = some history → history.generation ≠ 0

theorem trackIdentity_generation (h : c.GenerationsCounted)
    (htr : c.trackIdentity key incarnation = .ok tracked) : tracked.entry.generation ≠ 0 := by
  obtain ⟨-, -, -, hen⟩ := trackIdentity_ok htr
  cases hfi : c.identityHistory.find? key with
  | none =>
    simp only [hfi] at hen
    rw [hen.2.1]
    exact one_ne_zero
  | some history =>
    simp only [hfi] at hen
    rw [hen.2.2]
    split_ifs
    · exact Nat.succ_ne_zero _
    · exact h key history hfi

theorem absentHistory_counted (h : c.GenerationsCounted)
    (hfi : c.absentHistory.find? key = some history) : history.generation ≠ 0 := by
  rw [find?_absentHistory] at hfi
  obtain ⟨b, hbe, rfl⟩ := Option.map_eq_some_iff.mp hfi
  exact h key b hbe

theorem commit_target (h : (c.commit d).2.committed = true) :
    d.target = c.targetCatalog.target := by
  unfold commit at h
  split_ifs at h with hbad
  · cases h
  · cases h
  · exact not_not.mp (not_or.mp hbad).1

/-- The views of a run and the descriptors they were built from. -/
structure ViewsCommitted (target : TargetCatalog) (descriptors : List ProviderDescriptor)
    (run : CatalogRun) : Prop where
  target_eq : run.catalog.targetCatalog = target
  counted : run.catalog.GenerationsCounted
  views : ∀ p ∈ run.published, ∃ d ∈ descriptors, CommittedView target d p.view
  snapshot : run.catalog.snapshot = {} ∨ ∃ p ∈ run.published, run.catalog.snapshot = p.view

theorem ViewsCommitted.publish (h : ViewsCommitted target descriptors run) (hd : d ∈ descriptors)
    {next : SemanticCatalog} (hta : next.targetCatalog = run.catalog.targetCatalog)
    (hco : next.GenerationsCounted) (hvi : CommittedView target d next.snapshot) :
    ViewsCommitted target descriptors ⟨next, ⟨next.snapshot, d.manageable⟩ :: run.published⟩ := by
  refine ⟨hta.trans h.target_eq, hco, ?_, .inr ⟨_, mem_cons_self, rfl⟩⟩
  intro p hp
  rcases mem_cons.mp hp with rfl | hold
  · exact ⟨d, hd, hvi⟩
  · exact h.views p hold

theorem ViewsCommitted.commit (h : ViewsCommitted target descriptors run) (hd : d ∈ descriptors) :
    ViewsCommitted target descriptors (run.commit d) := by
  have hcom := commit_commits run.catalog d
  have hacc : (run.catalog.commit d).2.committed = true → d.target = target.target :=
    fun hco => h.target_eq ▸ commit_target hco
  unfold CatalogRun.commit
  generalize run.catalog.commit d = out at hcom hacc ⊢
  cases hcom with
  | refused st => exact h
  | @device device tracked rec hde hkey htr hre =>
    refine h.publish hd rfl ?_ ⟨Nat.succ_ne_zero _, rfl, le_rfl, ?_, ?_, hacc rfl⟩
    · intro key history (hfi : tracked.identityHistory.find? key = some history)
      obtain ⟨-, -, hhi, -⟩ := trackIdentity_ok htr
      rw [hhi] at hfi
      split_ifs at hfi
      · cases hfi
        exact trackIdentity_generation h.counted htr
      · exact absentHistory_counted h.counted hfi
    · intro other hot
      rw [mem_singleton.mp hot]
      refine ⟨device, ?_, _, hre, rfl, trackIdentity_generation h.counted htr⟩
      rw [hde]
      exact mem_singleton_self device
    · rw [← h.target_eq]
      rfl
  | other hno code =>
    refine h.publish hd rfl ?_ ⟨Nat.succ_ne_zero _, rfl, Nat.zero_le 1, ?_, rfl, hacc rfl⟩
    · intro key history hfi
      exact absentHistory_counted h.counted hfi
    · intro rec hre
      cases hre

theorem run_viewsCommitted (valid : target.validate.ok = true)
    (descriptors : List ProviderDescriptor) :
    ViewsCommitted target descriptors
      (runFrom CatalogRun.commit (CatalogRun.fresh target valid) descriptors) := by
  have hgi : Along .commit (fun _ d => d ∈ descriptors)
      (CatalogRun.fresh target valid) descriptors := along_of_forall (fun d hd => hd) _
  refine invariant_along (fun run d h hd => h.commit hd) ?_ hgi
  refine ⟨rfl, ?_, ?_, .inl rfl⟩
  · intro key history hfi
    cases hfi
  · intro p hp
    cases hp

/-! ### Refused commits -/

/-- What a sequence of commits shows: each result and the view published after it. -/
def observed (c : SemanticCatalog) :
    List ProviderDescriptor → List (CatalogCommitResult × CatalogView)
  | [] => []
  | d :: rest => ((c.commit d).2, (c.commit d).1.snapshot) :: (c.commit d).1.observed rest

/-- A commit that is refused changes nothing, and nothing that follows shows it. -/
theorem refused_commit_unobserved {target : TargetCatalog} (valid : target.validate.ok = true)
    (earlier : List ProviderDescriptor) (d : ProviderDescriptor) :
    let c := (runFrom CatalogRun.commit (CatalogRun.fresh target valid) earlier).catalog
    (c.commit d).2.committed = false →
      (c.commit d).1.snapshot = c.snapshot ∧
      (c.commit d).1.identityHistory = c.identityHistory ∧
      (c.commit d).1.nextEntityId = c.nextEntityId ∧
      ∀ later, c.observed (d :: later) = ((c.commit d).2, c.snapshot) :: c.observed later := by
  intro c hrefused
  have hsame : (c.commit d).1 = c := (commit_generation c d).2 hrefused
  refine ⟨by rw [hsame], by rw [hsame], by rw [hsame], ?_⟩
  intro later
  rw [observed, hsame]

open OneSlot in
/-- A device without an address is refused between two discoveries of another one. -/
theorem refused_commit_unobserved_noAddress :
    ((after [found "a" "c" "i"]).catalog.commit (found "" "c" "i")).2.committed = false ∧
      (after [found "a" "c" "i"]).catalog.observed [found "" "c" "i", found "a" "c" "j"] =
        (((after [found "a" "c" "i"]).catalog.commit (found "" "c" "i")).2,
            (after [found "a" "c" "i"]).catalog.snapshot) ::
          (after [found "a" "c" "i"]).catalog.observed [found "a" "c" "j"] := by
  have hrefused :
      ((after [found "a" "c" "i"]).catalog.commit (found "" "c" "i")).2.committed = false := by
    decide +kernel
  obtain ⟨-, -, -, hobserved⟩ := refused_commit_unobserved targetCatalog_valid
    [found "a" "c" "i"] (found "" "c" "i") hrefused
  exact ⟨hrefused, hobserved [found "a" "c" "j"]⟩

end SemanticCatalog
end Pdcm
