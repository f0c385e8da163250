import Pdcm.Data.EvidenceInvariant
import Pdcm.Data.ReadLatest

/-!
# The history of the store

`Later` says what any number of critical sections can do to the latest samples. A commit
log keeps, beside the data manager, the batches it accepted; no call reads it. In every
state that calls can reach, each sample the store can return was committed by the logged
batch of its epoch.
-/

namespace Pdcm

open Library List

namespace DataManager

variable {L : Limits} {s t : DataManager L}

/-! ### Latest samples over time -/

def latest? (s : DataManager L) (key : DataKey) : Option Observation :=
  (s.stored? key).bind Entry.latest

/-- The latest sample of a key is the same, lost with its catalog, or from a new epoch. -/
inductive Follows (s t : DataManager L) (key : DataKey) : Prop
  | same (hgeneration : t.catalog.generation = s.catalog.generation)
      (hlatest : t.latest? key = s.latest? key)
  | lost (hgeneration : s.catalog.generation < t.catalog.generation)
      (hlatest : t.latest? key = none)
  | newer {o : Observation} (hlatest : t.latest? key = some o)
      (hepoch : s.commitEpoch < o.commitEpoch)

/-- `t` is the store some time after `s`. -/
structure Later (s t : DataManager L) : Prop where
  epoch : s.commitEpoch ≤ t.commitEpoch
  generation : s.catalog.generation ≤ t.catalog.generation
  catalog : t.catalog.generation = s.catalog.generation → t.catalog = s.catalog
  shards : t.catalog.generation = s.catalog.generation → t.commitEpoch = s.commitEpoch →
    t.shards = s.shards
  latest : ∀ key, Follows s t key

theorem Later.refl (s : DataManager L) : Later s s :=
  ⟨le_rfl, le_rfl, fun _ => rfl, fun _ _ => rfl, fun _ => .same rfl rfl⟩

theorem Later.trans {u : DataManager L} (h : Later s t) (h' : Later t u) : Later s u := by
  have hbe : u.catalog.generation = s.catalog.generation →
      t.catalog.generation = s.catalog.generation ∧
      u.catalog.generation = t.catalog.generation := by
    have := h.generation
    have := h'.generation
    omega
  refine ⟨h.epoch.trans h'.epoch, h.generation.trans h'.generation, ?_, ?_, ?_⟩
  · intro hu
    obtain ⟨ht, htu⟩ := hbe hu
    rw [h'.catalog htu, h.catalog ht]
  · intro hu hep
    obtain ⟨ht, htu⟩ := hbe hu
    have := h.epoch
    have := h'.epoch
    rw [h'.shards htu (by omega), h.shards ht (by omega)]
  · intro key
    cases h'.latest key with
    | same hgen hla =>
      cases h.latest key with
      | same hgen' hla' =>
        exact .same (hgen.trans hgen') (hla.trans hla')
      | lost hgen' hla' => exact .lost (hgen ▸ hgen') (hla.trans hla')
      | newer hla' hep => exact .newer (hla.trans hla') hep
    | lost hgen hla => exact .lost (h.generation.trans_lt hgen) hla
    | newer hla hep => exact .newer hla (h.epoch.trans_lt hep)

theorem Later.metricDescriptor (h : Later s t)
    (hgen : t.catalog.generation = s.catalog.generation) :
    t.metricDescriptor = s.metricDescriptor := by
  funext metric
  rw [DataManager.metricDescriptor, DataManager.metricDescriptor, h.catalog hgen]

theorem Later.of_eq (hsh : t.shards = s.shards) (hcat : t.catalog = s.catalog)
    (hep : s.commitEpoch ≤ t.commitEpoch) : Later s t where
  epoch := hep
  generation := by rw [hcat]
  catalog := fun _ => hcat
  shards := fun _ _ => hsh
  latest := fun key => .same (by rw [hcat]) (by rw [latest?, latest?, stored?, stored?, hsh])

theorem latest?_of_trimmed {key : DataKey} (h : Trimmed (s.stored? key) (t.stored? key)) :
    t.latest? key = s.latest? key := by
  unfold latest?
  cases hs : s.stored? key with
  | none =>
    rw [hs] at h
    cases ht : t.stored? key with
    | none => rfl
    | some e =>
      rw [ht] at h
      cases h
  | some e =>
    rw [hs] at h
    obtain ⟨e', he', htr⟩ := h.of_some
    rw [he']
    exact htr.latest

theorem Committed.later {obs : List Observation} {shards : Shards L} (hc : s.Committed obs shards) :
    Later s { s with shards := shards, commitEpoch := s.commitEpoch + 1 } where
  epoch := Nat.le_succ _
  generation := le_rfl
  catalog := fun _ => rfl
  shards := fun _ hep => absurd hep (Nat.succ_ne_self _)
  latest := by
    intro key
    by_cases hkey : key ∈ obs.map Observation.key
    · obtain ⟨o, ho, rfl⟩ := mem_map.mp hkey
      obtain ⟨e, he, htr⟩ := hc.written o ho
      refine .newer (o := o.stamped (s.commitEpoch + 1)) ?_ (Nat.lt_succ_self _)
      rw [latest?, stored?, he]
      exact htr.latest.trans (Entry.record_latest _ _ _)
    · exact .same rfl (latest?_of_trimmed (hc.frame _ key fun h => hkey h.2))

theorem DataStep.later (h : DataStep s t) : Later s t := by
  obtain ⟨op, hout⟩ := h.outcome
  cases hout with
  | unchanged => exact .refl s
  | activated _ hlt =>
    exact ⟨le_rfl, hlt.le, fun h => absurd h hlt.ne', fun h => absurd h hlt.ne', fun key =>
      .lost hlt (by simp [latest?, stored?])⟩
  | committed hc => exact hc.later
  | evidence => exact .of_eq rfl rfl (Nat.le_succ _)
  | health => exact .of_eq rfl rfl (Nat.le_succ _)
  | published => exact .of_eq rfl rfl le_rfl

instance (status : Status) : Decidable (Failure status) :=
  inferInstanceAs (Decidable (status.code ≠ .success ∧ status.code ≠ .partialResult))

end DataManager

/-! ### The log -/

/-- An accepted batch. `requestId` is that of the provider read it normalizes, 0 for a
batch from elsewhere. -/
structure CommitRecord where
  requestId : ℕ := 0
  epoch : ℕ
  observations : List Observation
  deriving DecidableEq, Repr

structure CommitLog (L : Limits) where
  data : DataManager L
  commits : List CommitRecord := []

namespace CommitLog

open DataManager

variable {L : Limits} {log log' : CommitLog L} {b o : Observation} {s : DataManager L}
  {observations : List Observation} {shards : Shards L}

def initial (L : Limits) : CommitLog L where
  data := .initial L

def commit (log : CommitLog L) (requestId : ℕ) (observations : List Observation) :
    CommitLog L where
  data := (log.data.commitLocked observations).1
  commits :=
    if Failure (log.data.commitLocked observations).2.1.status then log.commits
    else log.commits ++ [⟨requestId, log.data.commitEpoch + 1, observations⟩]

/-- One critical section of the data manager. -/
inductive Step (log : CommitLog L) : CommitLog L → Prop
  | committed (requestId : ℕ) (observations : List Observation) :
      Step log (log.commit requestId observations)
  | activated (catalog : Option CatalogView) (target : TargetCatalog) :
      Step log { log with data := (log.data.activateCatalogLocked catalog target).1 }
  | evidence (e : FirmwareHeartbeatEvidence) :
      Step log { log with data := (log.data.commitHeartbeatEvidence e).1 }
  | health (r : HealthResult) : Step log { log with data := (log.data.commitHealthLocked r).1 }
  | published (draft : EventDraft) : Step log { log with data := (log.data.publishEvent draft).1 }

theorem Step.dataStep (h : Step log log') : DataStep log.data log'.data := by
  cases h with
  | committed rid observations => exact .committed observations
  | activated cat target => exact .activated cat target
  | evidence e => exact .evidence e
  | health r => exact .health r
  | published draft => exact .published draft

/-- What a step does to the log and to what reads see of the store. -/
inductive Effect (log : CommitLog L) : CommitLog L → Prop
  | kept {log' : CommitLog L} (hcommits : log'.commits = log.commits)
      (hshards : log'.data.shards = log.data.shards)
      (hcatalog : log'.data.catalog = log.data.catalog)
      (hepoch : log.data.commitEpoch ≤ log'.data.commitEpoch) : Effect log log'
  | emptied {log' : CommitLog L} {view : CatalogView} {target : TargetCatalog}
      (hcommits : log'.commits = log.commits) (hshards : log'.data.shards = .empty)
      (hvalid : target.validate.ok = true) (hcatalog : log'.data.catalog = .ofView view target)
      (hepoch : log.data.commitEpoch = log'.data.commitEpoch) : Effect log log'
  | recorded {log' : CommitLog L} {requestId : ℕ} {observations : List Observation}
      {shards : Shards L} (hcommitted : log.data.Committed observations shards)
      (hcommits : log'.commits =
        log.commits ++ [⟨requestId, log.data.commitEpoch + 1, observations⟩])
      (hdata : log'.data =
        { log.data with shards := shards, commitEpoch := log.data.commitEpoch + 1 }) :
      Effect log log'

theorem Step.effect (h : Step log log') : Effect log log' := by
  cases h with
  | committed rid observations =>
    rcases log.data.commitLocked_cases observations with
      ⟨hfa, hs, -⟩ | ⟨hok, shards, hc, hs, -⟩
    · exact .kept (if_pos hfa) (by rw [commit, hs]) (by rw [commit, hs]) (by rw [commit, hs])
    · exact .recorded hc (if_neg hok) hs
  | activated cat target =>
    rcases log.data.activateCatalogLocked_cases cat target with
      hs | ⟨view, -, hva, -, -, hs⟩
    · exact .kept rfl (by rw [hs]) (by rw [hs]) (by rw [hs])
    · exact .emptied rfl (by rw [hs]) hva (by rw [hs]) (by rw [hs])
  | evidence e =>
    rcases log.data.commitHeartbeatEvidence_cases e with ⟨hs, -⟩ | ⟨rest, -, hs, -⟩
    · exact .kept rfl (by rw [hs]) (by rw [hs]) (by rw [hs])
    · exact .kept rfl (by rw [hs]; rfl) (by rw [hs]; rfl) (by rw [hs]; exact Nat.le_succ _)
  | health r =>
    rcases log.data.commitHealthLocked_cases r with ⟨-, hs, -⟩ | ⟨-, -, hs⟩
    · exact .kept rfl (by rw [hs]) (by rw [hs]) (by rw [hs])
    · exact .kept rfl (by rw [hs]; rfl) (by rw [hs]; rfl) (by rw [hs]; exact Nat.le_succ _)
  | published draft => exact .kept rfl rfl rfl le_rfl

/-- Any number of critical sections. -/
def Evolves (log log' : CommitLog L) : Prop := Relation.ReflTransGen Step log log'

theorem Evolves.later (h : log.Evolves log') : Later log.data log'.data := by
  induction h with
  | refl => exact .refl _
  | tail _ hst ih => exact ih.trans hst.dataStep.later

theorem Evolves.commits (h : log.Evolves log') : log.commits <+: log'.commits := by
  induction h with
  | refl => exact prefix_rfl
  | tail _ hst ih =>
    cases hst.effect with
    | kept hco => rwa [hco]
    | emptied hco => rwa [hco]
    | recorded _ hco =>
      rw [hco]
      exact ih.trans (prefix_append _ _)

/-! ### Samples and their batches -/

/-- `o` is what the logged batch of its epoch committed. -/
def Holds (log : CommitLog L) (o : Observation) : Prop :=
  ∃ record ∈ log.commits, ∃ b ∈ record.observations, o = b.stamped record.epoch

/-- The store has a sample at least as new as `b`, or a newer catalog. -/
def Covers (s : DataManager L) (epoch : ℕ) (b : Observation) : Prop :=
  b.catalogGeneration < s.catalog.generation ∨
    ∃ o, s.latest? b.key = some o ∧ epoch ≤ o.commitEpoch

theorem Covers.later {t : DataManager L} {epoch : ℕ} (h : Covers s epoch b) (hlat : Later s t)
    (hep : epoch ≤ s.commitEpoch) (hgen : b.catalogGeneration ≤ s.catalog.generation) :
    Covers t epoch b := by
  rcases h with hold | ⟨o, ho, hle⟩
  · exact .inl (hold.trans_le hlat.generation)
  · cases hlat.latest b.key with
    | same _ hla => exact .inr ⟨o, hla.trans ho, hle⟩
    | lost hlt => exact .inl (hgen.trans_lt hlt)
    | newer hla hne => exact .inr ⟨_, hla, (hep.trans_lt hne).le⟩

structure Accounted (log : CommitLog L) : Prop where
  store : log.data.StoreInvariant
  epochs : ∀ record ∈ log.commits, record.epoch ≤ log.data.commitEpoch
  ordered : log.commits.Pairwise fun a b => a.epoch < b.epoch
  samples : ∀ key e o, log.data.stored? key = some e →
    e.latest = some o ∨ e.lastValid = some o → log.Holds o
  covered : ∀ record ∈ log.commits, ∀ b ∈ record.observations,
    b.catalogGeneration ≤ log.data.catalog.generation ∧ Covers log.data record.epoch b
  freshness : ∀ metric descriptor, log.data.catalog.metrics.find? metric = some descriptor →
    descriptor.freshnessNs ≠ 0

theorem Holds.mono (h : log.Holds o) (hco : log.commits <+: log'.commits) : log'.Holds o :=
  let ⟨record, hre, hb⟩ := h
  ⟨record, hco.subset hre, hb⟩

theorem initial_accounted (L : Limits) : (initial L).Accounted where
  store := initial_storeInvariant L
  epochs := by simp [initial]
  ordered := .nil
  samples := by
    intro key e o he
    have hno : (DataManager.initial L).stored? key = none := by
      simp [DataManager.initial, stored?]
    simp [initial, hno] at he
  covered := by simp [initial]
  freshness := by
    intro mid desc hfi
    simp [initial, DataManager.initial] at hfi

theorem Accounted.covered_later (h : log.Accounted) (hla : Later log.data log'.data)
    {rec : CommitRecord} (hre : rec ∈ log.commits) (hb : b ∈ rec.observations) :
    b.catalogGeneration ≤ log'.data.catalog.generation ∧ Covers log'.data rec.epoch b := by
  obtain ⟨hgen, hco⟩ := h.covered rec hre b hb
  exact ⟨hgen.trans hla.generation, hco.later hla (h.epochs rec hre) hgen⟩

theorem record_samples {e : Entry} {p : Observation}
    (h : (e.record L o).latest = some p ∨ (e.record L o).lastValid = some p) :
    p = o ∨ e.lastValid = some p := by
  rcases h with h | h
  · rw [Entry.record_latest, Option.some.injEq] at h
    exact .inl h.symm
  · unfold Entry.record at h
    split_ifs at h with hva
    · exact .inl (Option.some.inj h).symm
    · exact .inr h

theorem Accounted.recorded (h : log.Accounted) {rid : ℕ}
    (hc : log.data.Committed observations shards) (hco : log'.commits =
      log.commits ++ [⟨rid, log.data.commitEpoch + 1, observations⟩]) (hda : log'.data =
      { log.data with shards := shards, commitEpoch := log.data.commitEpoch + 1 }) {key : DataKey}
    {e : Entry} (he : log'.data.stored? key = some e)
    (ho : e.latest = some o ∨ e.lastValid = some o) : log'.Holds o := by
  have hgr : log.commits <+: log'.commits := hco ▸ prefix_append _ _
  have he' : shards.find? (shardIndex L key) key = some e := by simpa [hda, stored?] using he
  obtain ⟨b, hb, -, rfl, htr⟩ | ⟨old, hold, htr⟩ := hc.find?_cases he'
  · rw [htr.latest, htr.lastValid] at ho
    rcases record_samples ho with rfl | hold
    · refine ⟨⟨rid, log.data.commitEpoch + 1, observations⟩, ?_, b, hb, rfl⟩
      rw [hco]
      exact mem_append_right _ (mem_singleton_self _)
    · cases hs : log.data.stored? b.key with
      | none => simp [hs] at hold
      | some old =>
        rw [hs] at hold
        exact (h.samples _ _ o hs (.inr hold)).mono hgr
  · rw [htr.latest, htr.lastValid] at ho
    exact (h.samples key old o hold ho).mono hgr

/-- The latest samples of the keys of a batch that was just recorded. -/
theorem covers_recorded (hc : s.Committed observations shards) (hb : b ∈ observations) :
    Covers { s with shards := shards, commitEpoch := s.commitEpoch + 1 } (s.commitEpoch + 1) b := by
  obtain ⟨e, he, htr⟩ := hc.written b hb
  apply Or.inr
  exact ⟨b.stamped (s.commitEpoch + 1),
    by rw [latest?, stored?, he]; exact htr.latest.trans (Entry.record_latest _ _ _), le_rfl⟩

theorem Accounted.unlogged (h : log.Accounted) (hst : log'.data.StoreInvariant)
    (hla : Later log.data log'.data) (hco : log'.commits = log.commits)
    (hsa : ∀ key e o, log'.data.stored? key = some e →
      e.latest = some o ∨ e.lastValid = some o → log.Holds o) (hfr : ∀ mid desc,
      log'.data.catalog.metrics.find? mid = some desc → desc.freshnessNs ≠ 0) :
    log'.Accounted := by
  constructor
  · exact hst
  · intro rec hre
    exact (h.epochs rec (hco ▸ hre)).trans hla.epoch
  · exact hco ▸ h.ordered
  · intro key e o he ho
    exact (hsa key e o he ho).mono (hco ▸ prefix_rfl)
  · intro rec hre b hb
    exact h.covered_later hla (hco ▸ hre) hb
  · exact hfr

theorem Step.accounted (hste : Step log log') (h : log.Accounted) : log'.Accounted := by
  have hst := hste.dataStep.storeInvariant h.store
  have hla := hste.dataStep.later
  cases hste.effect with
  | kept hco hsh hcat =>
    apply h.unlogged hst hla hco
    · intro key e o he
      rw [stored?, hsh] at he
      exact h.samples key e o he
    · rw [hcat]
      exact h.freshness
  | emptied hco hsh hva hcat =>
    apply h.unlogged hst hla hco
    · intro key e o he
      rw [stored?, hsh] at he
      simp at he
    · intro mid desc hfi
      rw [hcat] at hfi
      exact (TargetCatalog.usable_of_validate hva hfi).2.freshness
  | recorded hc hco hda =>
    constructor
    · exact hst
    · intro rec hre
      rw [hco, mem_append, mem_singleton] at hre
      rw [hda]
      rcases hre with hre | rfl
      · exact (h.epochs rec hre).trans (Nat.le_succ _)
      · exact le_rfl
    · rw [hco]
      apply pairwise_append.mpr
      refine ⟨h.ordered, pairwise_singleton _ _, ?_⟩
      intro a ha b hb
      rw [mem_singleton.mp hb]
      exact Nat.lt_succ_of_le (h.epochs a ha)
    · intro key e o he ho
      exact h.recorded hc hco hda he ho
    · intro rec hre b hb
      rw [hco, mem_append, mem_singleton] at hre
      rcases hre with hre | rfl
      · exact h.covered_later hla hre hb
      · rw [hda]
        exact ⟨(hc.accepted b hb).generation.le, covers_recorded hc hb⟩
    · rw [hda]
      exact h.freshness

theorem Evolves.accounted (h : log.Evolves log') (hlog : log.Accounted) : log'.Accounted := by
  induction h with
  | refl => exact hlog
  | tail _ hst ih => exact hst.accounted ih

/-- Some calls on a new data manager lead to this state. -/
def Reachable (log : CommitLog L) : Prop := (initial L).Evolves log

theorem Reachable.accounted (h : log.Reachable) : log.Accounted :=
  Evolves.accounted h (initial_accounted L)

end CommitLog
end Pdcm
