import Pdcm.Collection.Normalize
import Pdcm.Data.ReadLatest
import Pdcm.Data.HeartbeatReplay

/-!
# Generation isolation

Whatever the threads of the process do and in whatever order their critical sections
run, everything the store returns belongs to the active catalog generation and to an
entity of the active catalog, and neither the generation nor the commit epoch goes
back.
-/

namespace Pdcm

open Library

namespace DataManager

variable {L : Limits} {s : DataManager L} {o : Observation} {key : DataKey} {allowStale : Bool}

/-- An observation of the active generation, about an active entity. -/
def Active (s : DataManager L) (generation : ℕ) (entity : EntityRef) : Prop :=
  generation = s.catalog.generation ∧ entity ∈ s.catalog.entities

/-- Everything a read can return is active. -/
structure GenerationIsolated (s : DataManager L) : Prop where
  latest : ∀ keys allowStale now required,
    ∀ o ∈ (s.readLatest keys allowStale now required).items, s.Active o.catalogGeneration o.entity
  history : ∀ key, ∀ o ∈ (s.history key).samples, s.Active o.catalogGeneration o.entity
  latestEvidence : ∀ entity required,
    ∀ e ∈ (s.latestHeartbeatEvidence entity required).evidence,
      s.Active e.catalogGeneration e.entity
  evidence : ∀ id,
    ∀ e ∈ (s.readHeartbeatEvidence id).evidence, s.Active e.catalogGeneration e.entity
  health : ∀ entity required,
    ∀ r ∈ (s.readHealth entity required).result, s.Active r.catalogGeneration r.entity

/-! ### Reads of a consistent store -/

theorem StoreInvariant.active (h : s.StoreInvariant) {stored : Entry}
    (hs : s.stored? key = some stored)
    (ho : stored.latest = some o ∨ stored.lastValid = some o ∨ o ∈ stored.history) :
    s.Active o.catalogGeneration o.entity := by
  obtain ⟨-, hen, -, -, hc⟩ := h _ key stored hs
  obtain ⟨hkey, hgen⟩ := hc.own o ho
  have hoe : o.entity = key.entity := congrArg DataKey.entity hkey
  exact ⟨hgen, hoe ▸ hen⟩

theorem readItem_active (h : s.StoreInvariant) {now : ℤ}
    (ho : s.readItem allowStale now key = .ok o) : s.Active o.catalogGeneration o.entity := by
  obtain ⟨hpr, hit⟩ := readItem_iff.mp ho
  cases hit with
  | unsupported => exact ⟨rfl, hpr.mem⟩
  | unsampled => exact ⟨rfl, hpr.mem⟩
  | latest _ he hl => exact h.active he (.inl hl)
  | stale _ he _ hv =>
    have hva := h.active he (.inr (.inl hv))
    exact hva

theorem readLatest_active (h : s.StoreInvariant) {keys : List DataKey} {now : ℤ} {need : ℕ}
    (ho : o ∈ (s.readLatest keys allowStale now need).items) :
    s.Active o.catalogGeneration o.entity := by
  unfold readLatest at ho
  dsimp only at ho
  split_ifs at ho
  any_goals simp at ho
  cases hm : (keys.insertionSort (· ≤ ·)).mapM (s.readItem allowStale now) with
  | error st => simp [hm] at ho
  | ok items =>
    simp only [hm] at ho
    obtain ⟨key, -, hre⟩ := exists_of_forall₂ (forall₂_of_mapM hm) ho
    exact readItem_active h hre

theorem generationIsolated (hst : s.StoreInvariant) (hev : s.EvidenceInvariant) :
    s.GenerationIsolated := by
  have hmem : ∀ e ∈ s.heartbeatEvidence, s.Active e.catalogGeneration e.entity := by
    intro e he
    have hok := hev.evidence e he
    exact ⟨hok.generation, by simp [hok.entities]⟩
  refine ⟨?_, ?_, ?_, ?_, ?_⟩
  · intro keys allowStale now need o ho
    exact readLatest_active hst ho
  · intro key o ho
    unfold history at ho
    split_ifs at ho
    · simp at ho
    · cases hs : s.stored? key with
      | none => simp [hs] at ho
      | some stored =>
        simp only [hs] at ho
        exact hst.active hs (.inr (.inr ho))
  · intro ent need e he
    have hla := (latestHeartbeatEvidence_evidence.mp he).2
    have hlas := (hev.latestEvidence?_eq_some.mp hla).1
    exact hmem e (List.mem_of_getLast? hlas)
  · intro id e he
    exact hmem e (EvidenceInvariant.mem_of_evidenceById? (readHeartbeatEvidence_evidence he)).1
  · intro ent need r hr
    rcases s.readHealth_result ent need with ⟨hno, -⟩ | ⟨stored, hre, hsto⟩
    · simp [hno] at hr
    · rw [hre, Option.mem_some] at hr
      subst hr
      have hok := hev.health ent stored hsto
      exact ⟨hok.generation, hok.own ▸ hok.known⟩

end DataManager

/-! ### Interleavings -/

/-- What a thread of the process can be started to do. -/
inductive PlaneTask where
  | activateCatalog (catalog : Option CatalogView) (target : TargetCatalog)
  | activateMetrics (catalog : Option CatalogView) (target : TargetCatalog) (now : ℤ)
  | commit (observations : List Observation)
  | commitHeartbeatEvidence (evidence : FirmwareHeartbeatEvidence)
  | commitHealth (result : HealthResult)
  | publishEvent (draft : EventDraft)
  | onHeartbeatEvidenceCommitted (evidenceId : ℕ) (now : ℤ)
  | onProviderStateChanged (state : ProviderState) (now : ℤ)
  | runFreshnessOnce (now : ℤ)
  | schedule (processor : Option MetricProcessor) (context : ProcessorContext)
      (snapshot : List Observation)
  | runNext
  | normalizeAndCommit (limits : CollectionLimits) (metricsAttached : Bool) (read : FinishedRead)

namespace DataPlane

variable {L : Limits}

def ofTask : PlaneTask → Plane L Unit
  | .activateCatalog catalog target => do let _ ← activateCatalog catalog target
  | .activateMetrics catalog target now => do let _ ← activateMetrics catalog target now
  | .commit observations => do let _ ← commit observations
  | .commitHeartbeatEvidence evidence => do let _ ← call (.commitHeartbeatEvidence evidence)
  | .commitHealth result => do let _ ← commitHealth result
  | .publishEvent draft => publishAll [draft]
  | .onHeartbeatEvidenceCommitted evidenceId now => do
    let _ ← onHeartbeatEvidenceCommitted evidenceId now
  | .onProviderStateChanged state now => do let _ ← onProviderStateChanged state now
  | .runFreshnessOnce now => do let _ ← runFreshnessOnce now
  | .schedule processor context snapshot => do
    let _ ← call (.schedule processor context snapshot)
  | .runNext => do let _ ← runNext
  | .normalizeAndCommit limits metricsAttached read => do
    let _ ← read.normalizeAndCommit limits metricsAttached

/-- Start a thread, or let one run its next critical section. -/
inductive PlaneAction where
  | start (task : PlaneTask)
  | step (thread : ℕ)

def PlaneAction.inPool : PlaneAction → Pool.Action (interface L)
  | .start task => .spawn (ofTask task)
  | .step thread => .step thread

theorem exec_data (c : PlaneCall) (p : DataPlane L) :
    DataManager.DataStep p.data (exec c p).1.data := by
  cases c with
  | activateCatalog cat target => exact .activated cat target
  | commit obs => exact .committed obs
  | commitHeartbeatEvidence ev => exact .evidence ev
  | commitHealth res => exact .health res
  | publishEvent draft => exact .published draft
  | replaceRuntime next =>
    simp only [exec]
    split_ifs
    · exact .unchanged
    · exact .unchanged
  | _ => exact .unchanged

variable (L) (processors : List (Option MetricProcessor)) (executor : ProcessorExecutor)

/-- A new process: an inactive catalog and no thread. -/
def initial : Pool (interface L) where
  shared := { metrics := { data := .initial L, processors := processors }, executor := executor }
  threads := []

/-- The store after an interleaving. -/
def dataAfter (actions : List PlaneAction) : DataManager L :=
  (runFrom Pool.act (initial L processors executor) (actions.map PlaneAction.inPool)).shared.data

/-- In every interleaving, at every moment, reads return data of the active generation
about active entities, and later moments never have an older generation or epoch. -/
theorem dataAfter_generationIsolated (before later : List PlaneAction) :
    (dataAfter L processors executor before).GenerationIsolated ∧
      (dataAfter L processors executor before).catalogGeneration ≤
        (dataAfter L processors executor (before ++ later)).catalogGeneration ∧
      (dataAfter L processors executor before).commitEpoch ≤
        (dataAfter L processors executor (before ++ later)).commitEpoch := by
  have hinvariants : (dataAfter L processors executor before).StoreInvariant ∧
      (dataAfter L processors executor before).EvidenceInvariant := by
    refine Pool.invariant_act (I := interface L)
      (P := fun p => p.data.StoreInvariant ∧ p.data.EvidenceInvariant) ?_ ?_ _
    · intro c p hp
      exact ⟨(exec_data c p).storeInvariant hp.1, (exec_data c p).evidenceInvariant hp.2⟩
    · exact ⟨DataManager.initial_storeInvariant L, DataManager.initial_evidenceInvariant L⟩
  refine ⟨DataManager.generationIsolated hinvariants.1 hinvariants.2, ?_⟩
  unfold dataAfter
  rw [List.map_append, runFrom_append]
  refine Pool.relation_act (I := interface L)
    (R := fun p q => p.data.catalog.generation ≤ q.data.catalog.generation ∧
      p.data.commitEpoch ≤ q.data.commitEpoch) ?_ ?_ ?_ _ _
  · intro p
    exact ⟨le_rfl, le_rfl⟩
  · intro p q r hpq hqr
    exact ⟨hpq.1.trans hqr.1, hpq.2.trans hqr.2⟩
  · intro c p
    exact (exec_data c p).forward

end DataPlane
end Pdcm
