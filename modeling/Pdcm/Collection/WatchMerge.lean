import Pdcm.Collection.WatchManager

/-!
# What the merge of logical watches is

The merge is rebuilt watch by watch and metric by metric; an empty list of watches marks an
effective watch that was just created. However far the rebuild is, the effective watch of a
key merges the watches seen so far that require the key: the shortest period and freshness,
the longest retention, the highest priority, and the ids in the order of the watches.
-/

namespace Pdcm

open Library List OrderedMap

/-- What an effective watch is for the watches it merges. -/
structure EffectiveWatch.MergeOf (e : EffectiveWatch) (watches : List (WatchId × LogicalWatch)) :
    Prop where
  period : (watches.map fun entry => entry.2.requirement.period).min? = some e.period
  freshness : (watches.map fun entry => entry.2.requirement.freshness).min? = some e.freshness
  retention : (watches.map fun entry => entry.2.requirement.retention).max? = some e.retention
  priority : (watches.map fun entry => entry.2.requirement.priority).max? = some e.priority
  logicalWatches : e.logicalWatches = watches.map Prod.fst

namespace WatchManager

variable {watches : List (WatchId × LogicalWatch)} {providerId : String} {r : WatchRequirement}
  {id : WatchId} {effective : OrderedMap EffectiveWatchKey EffectiveWatch} {key : EffectiveWatchKey}
  {metric : MetricId} {watch : LogicalWatch} {metrics : List MetricId}
  {entries : List (WatchId × LogicalWatch)} {m : WatchManager}

theorem min?_concat {α : Type*} [Min α] (l : List α) (a : α) :
    (l ++ [a]).min? = some (l.min?.elim a fun least => min least a) := by
  cases l with
  | nil => rfl
  | cons b rest => simp [List.min?_cons']

theorem max?_concat {α : Type*} [Max α] (l : List α) (a : α) :
    (l ++ [a]).max? = some (l.max?.elim a fun greatest => max greatest a) := by
  cases l with
  | nil => rfl
  | cons b rest => simp [List.max?_cons']

/-! ### One key -/

/-- The effective watch of a key merges the given watches; there is none if they are none. -/
def Merges (key : EffectiveWatchKey) (watches : List (WatchId × LogicalWatch)) :
    Option EffectiveWatch → Prop
  | none => watches = []
  | some e => e.key = key ∧ e.MergeOf watches

theorem mergeOf_ne_nil {e : EffectiveWatch} (h : e.MergeOf watches) : watches ≠ [] := by
  rintro rfl
  cases h.period

theorem watchKey_injective : Function.Injective (watchKey providerId r) := by
  intro a b h
  exact congrArg EffectiveWatchKey.dataId h

theorem mergeWatch_find?_of_ne (h : key ≠ watchKey providerId r metric) :
    (mergeWatch providerId id r effective metric).find? key = effective.find? key :=
  find?_insert_of_ne _ h _

theorem mergeWatch_merges (h : Merges (watchKey providerId watch.requirement metric) watches
      (effective.find? (watchKey providerId watch.requirement metric))) :
    Merges (watchKey providerId watch.requirement metric) (watches ++ [(id, watch)])
      ((mergeWatch providerId id watch.requirement effective metric).find?
        (watchKey providerId watch.requirement metric)) := by
  unfold mergeWatch
  rw [find?_insert_self]
  cases hfi : effective.find? (watchKey providerId watch.requirement metric) with
  | none =>
    rw [hfi] at h
    obtain rfl : watches = [] := h
    exact ⟨rfl, rfl, rfl, rfl, rfl, rfl⟩
  | some merged =>
    rw [hfi] at h
    obtain ⟨hkey, hme⟩ := h
    have hus : merged.logicalWatches ≠ [] := by
      rw [hme.logicalWatches]
      simpa using mergeOf_ne_nil hme
    simp only [Option.getD_some, if_neg hus]
    refine ⟨hkey, ?_, ?_, ?_, ?_, ?_⟩
    · rw [map_append, map_singleton, min?_concat, hme.period]
      rfl
    · rw [map_append, map_singleton, min?_concat, hme.freshness]
      rfl
    · rw [map_append, map_singleton, max?_concat, hme.retention]
      rfl
    · rw [map_append, map_singleton, max?_concat, hme.priority]
      rfl
    · simp [hme.logicalWatches]

/-! ### All watches -/

/-- The watch requires the metric of the key. -/
def requires (providerId : String) (key : EffectiveWatchKey) (entry : WatchId × LogicalWatch) :
    Bool :=
  decide (key ∈ entry.2.requirement.metrics.map (watchKey providerId entry.2.requirement))

theorem foldl_mergeWatch_find? (h : key ∉ metrics.map (watchKey providerId r)) :
    (metrics.foldl (mergeWatch providerId id r) effective).find? key = effective.find? key := by
  induction metrics generalizing effective with
  | nil => rfl
  | cons metric rest ih =>
    rw [map_cons, mem_cons, not_or] at h
    rw [foldl_cons, ih h.2, mergeWatch_find?_of_ne h.1]

theorem foldl_mergeWatch_merges (hno : metrics.Nodup)
    (h : Merges key watches (effective.find? key))
    (hkey : key ∈ metrics.map (watchKey providerId watch.requirement)) :
    Merges key (watches ++ [(id, watch)])
      ((metrics.foldl (mergeWatch providerId id watch.requirement) effective).find? key) := by
  induction metrics generalizing effective with
  | nil => cases hkey
  | cons metric rest ih =>
    obtain ⟨hnew, hre⟩ := nodup_cons.mp hno
    rw [foldl_cons]
    by_cases hfi : key = watchKey providerId watch.requirement metric
    · -- no later metric of the watch has this key
      subst hfi
      rw [foldl_mergeWatch_find? (by simpa [watchKey_injective.eq_iff] using hnew)]
      exact mergeWatch_merges h
    · rw [map_cons, mem_cons] at hkey
      apply ih hre _ (hkey.resolve_left hfi)
      rwa [mergeWatch_find?_of_ne hfi]

/-- What the rebuild has made of a key after some of the watches. -/
theorem foldl_logical_merges (hno : ∀ entry ∈ entries, entry.2.requirement.metrics.Nodup)
    (h : Merges key watches (effective.find? key)) :
    Merges key (watches ++ entries.filter (requires providerId key))
      ((entries.foldl (fun effective entry => entry.2.requirement.metrics.foldl
        (mergeWatch providerId entry.1 entry.2.requirement) effective) effective).find? key) := by
  induction entries generalizing effective watches with
  | nil => simpa using h
  | cons entry rest ih =>
    obtain ⟨hen, hres⟩ := forall_mem_cons.mp hno
    rw [filter_cons]
    split_ifs with hre
    · rw [append_cons]
      exact ih hres (foldl_mergeWatch_merges hen h (of_decide_eq_true hre))
    · apply ih hres
      rwa [foldl_mergeWatch_find? (mt decide_eq_true hre)]

theorem foldl_logical_find? (h : ∀ entry ∈ entries, requires providerId key entry = false) :
    (entries.foldl (fun effective entry => entry.2.requirement.metrics.foldl
        (mergeWatch providerId entry.1 entry.2.requirement) effective) effective).find? key =
      effective.find? key := by
  induction entries generalizing effective with
  | nil => rfl
  | cons entry rest ih =>
    obtain ⟨hen, hre⟩ := forall_mem_cons.mp h
    rw [foldl_cons, ih hre, foldl_mergeWatch_find? (of_decide_eq_false hen)]

/-! ### The effective watches of a manager -/

theorem effectiveWatches_merges {logical : OrderedMap WatchId LogicalWatch}
    (hno : ∀ entry ∈ logical.entries, entry.2.requirement.metrics.Nodup)
    (hkey : ∀ b ∈ m.heartbeatBaseline, b.key ≠ key) :
    Merges key (logical.entries.filter (requires m.catalog.providerId key))
      ((m.effectiveWatches logical).find? key) := by
  have hst : Merges key [] ((m.heartbeatBaseline.elim .empty fun b =>
      empty.emplace b.key b).find? key) := by
    cases hba : m.heartbeatBaseline with
    | none => rfl
    | some b =>
      have hne : key ≠ b.key := (hkey b hba).symm
      simp [find?_emplace, hne, Merges]
  exact foldl_logical_merges hno hst

theorem effectiveWatches_baseline {b : EffectiveWatch} (hba : m.heartbeatBaseline = some b)
    (hki : b.key.kind = .heartbeatEvidence) (logical : OrderedMap WatchId LogicalWatch) :
    (m.effectiveWatches logical).find? b.key = some b := by
  unfold effectiveWatches
  rw [foldl_logical_find?, hba]
  · simp [find?_emplace]
  · intro entry hen
    by_contra hre
    obtain ⟨metric, -, hme⟩ := mem_map.mp (of_decide_eq_true (eq_true_of_ne_false hre))
    rw [← hme] at hki
    cases hki

end WatchManager
end Pdcm
