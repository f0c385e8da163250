import Pdcm.Data.Eviction

/-!
# Batch order and shard count

What a commit does depends on the batch as a set and on the entries by key. The order of the
batch cannot be observed, and the number of shards cannot either, up to the choice between
samples of the same time when bytes are evicted.
-/

namespace Pdcm

open Library Option

theorem Limits.validate_withShards (L : Limits) {n : ℕ} (hn : 0 < n ∧ n ≤ 256) :
    { L.toDataStoreLimits with shardCount := n }.validate = .success := by
  have h := L.not_invalid
  rw [DataStoreLimits.validate, if_neg]
  dsimp only
  omega

/-- The same limits but for the number of shards. -/
def Limits.withShards (L : Limits) (n : ℕ) (hn : 0 < n ∧ n ≤ 256) : Limits :=
  { L with shardCount := n, valid := L.validate_withShards hn }

/-- The observed times an operation brings are below the one the scan starts from. -/
def DataOp.TimesBelow : DataOp → Prop
  | .commit observations => ∀ o ∈ observations, o.observedMonotonicTimeNs < int64Max
  | _ => True

namespace DataManager

variable {L L' : Limits} {s : DataManager L} {obs obs' : List Observation} {staged : Shards L}
  {epoch n : ℕ} {hn : 0 < n ∧ n ≤ 256} {f : Entry → Entry} {m : Shards (L.withShards n hn)}

/-! ### Batch order -/

section

variable (hpe : obs.Perm obs')

include hpe

theorem stageAll_perm {after : Shards L}
    (hno : (obs.map Observation.key).Nodup) (h : stageAll epoch staged obs = .ok after) :
    stageAll epoch staged obs' = .ok after := by
  have hno' := (hpe.map Observation.key).nodup_iff.mp hno
  obtain ⟨after', haf⟩ : ∃ after', stageAll epoch staged obs' = .ok after' :=
    stageAll_eq_ok epoch hno' fun o ho =>
      (stageAll_written h hno (hpe.mem_iff.mpr ho)).2
  rw [haf]
  refine congrArg Except.ok (ShardedMap.ext_find? fun i key => ?_)
  by_cases hpl : i = shardIndex L key ∧ key ∈ obs.map Observation.key
  · obtain ⟨rfl, hkey⟩ := hpl
    obtain ⟨o, ho, rfl⟩ := List.mem_map.mp hkey
    rw [(stageAll_written h hno ho).1, (stageAll_written haf hno' (hpe.mem_iff.mp ho)).1]
  · rw [stageAll_frame h hpl]
    rw [(hpe.map Observation.key).mem_iff] at hpl
    exact stageAll_frame haf hpl

theorem Passes.perm (h : s.Passes obs staged) : s.Passes obs' staged := by
  obtain ⟨hne, hac, hto, hep, -⟩ := refusal_eq_none.mp h.unrefused
  obtain ⟨hch, hno⟩ := h.check
  refine ⟨refusal_eq_none.mpr ⟨?_, hac, hto, hep, checkBatch_eq_none.mpr ⟨?_, ?_⟩⟩,
    stageAll_perm hpe hno h.staged_eq, h.keys⟩
  · rintro rfl
    exact hne hpe.eq_nil
  · exact fun o ho => hch o (hpe.mem_iff.mpr ho)
  · exact (hpe.map Observation.key).nodup_iff.mp hno

theorem batchStatus_perm : batchStatus obs' = batchStatus obs := by
  have hany : (obs'.any fun o => decide (o.status ≠ .valid)) =
      obs.any fun o => decide (o.status ≠ .valid) := by
    rw [Bool.eq_iff_iff, List.any_eq_true, List.any_eq_true]
    simp only [hpe.mem_iff]
  rw [batchStatus, batchStatus, hany]

theorem commit_perm_of_ok (hok : ¬Failure (s.commit obs).2.status) :
    (s.commit obs').2 = (s.commit obs).2 ∧
      (s.commit obs').1.shards = (s.commit obs).1.shards := by
  rcases s.commitLocked_passes obs with ⟨st, hfa, hs⟩ | ⟨staged, hpa, hfit, hs⟩
  · exact absurd (by rw [commit, hs]; exact hfa) hok
  · have hs' := (hpa.perm hpe).commitLocked
    rw [if_neg hfit.not_gt] at hs'
    simp only [commit, hs, hs', publishAll_shards, DataManager.committed, batchStatus_perm hpe,
      hpe.length_eq, and_self]

end

/-- The order of a batch does not matter: either order is committed if the other is, with the
same status and epoch, and leaves the same entries. -/
theorem commit_perm (s : DataManager L) (hperm : obs.Perm obs') :
    (Failure (s.commit obs').2.status ↔ Failure (s.commit obs).2.status) ∧
    (¬Failure (s.commit obs).2.status → (s.commit obs').2 = (s.commit obs).2) ∧
    ∀ key, (s.commit obs').1.stored? key = (s.commit obs).1.stored? key := by
  by_cases hok : Failure (s.commit obs).2.status
  · by_cases hok' : Failure (s.commit obs').2.status
    · rw [(s.commit_all_or_nothing obs).1 hok, (s.commit_all_or_nothing obs').1 hok']
      exact ⟨iff_of_true hok' hok, fun h => absurd hok h, fun _ => rfl⟩
    · rw [(commit_perm_of_ok hperm.symm hok').1] at hok
      exact absurd hok hok'
  · obtain ⟨hresult, hshards⟩ := commit_perm_of_ok hperm hok
    rw [hresult]
    exact ⟨.rfl, fun _ => rfl, fun key => by rw [stored?, hshards, stored?]⟩

theorem commit_perm_twoSamples :
    let s := run TwoMetrics.limits TwoMetrics.inletOnce
    let inlet := TwoMetrics.sample 7 21 2
    let outlet := TwoMetrics.sample 8 30 2
    (s.commit [outlet, inlet]).2 = (s.commit [inlet, outlet]).2 ∧
      (s.commit [inlet, outlet]).2.commitEpoch = 2 :=
  ⟨(commit_perm (run TwoMetrics.limits TwoMetrics.inletOnce) (.swap _ _ [])).2.1 fun h =>
    h.1 (by decide +kernel), by decide +kernel⟩

/-! ### Shard count -/

/-- The same manager over other shards. -/
def withShards (s : DataManager L) (shards : Shards (L.withShards n hn)) :
    DataManager (L.withShards n hn) where
  eventStore := s.eventStore
  shards := shards
  catalog := s.catalog
  commitEpoch := s.commitEpoch
  tombstones := s.tombstones
  heartbeatEvidence := s.heartbeatEvidence
  latestHeartbeat := s.latestHeartbeat
  health := s.health
  nextEvidenceId := s.nextEvidenceId

/-- What one sees of an entry through `f` follows from what one saw of it before. -/
structure Sees (L L' : Limits) (f : Entry → Entry) : Prop where
  latest : ∀ {e e'}, f e = f e' → e.latest = e'.latest
  record : ∀ {e e'} (o : Observation), f e = f e' → f (e.record L o) = f (e'.record L' o)

theorem sees_emptied : Sees L L' emptied where
  latest h := by simpa [emptied] using congrArg Entry.latest h
  record o h := by
    have hva := congrArg Entry.lastValid h
    unfold Entry.record
    split_ifs
    · rfl
    · simpa [emptied] using hva

theorem sees_id : Sees L (L.withShards n hn) id where
  latest h := congrArg Entry.latest h
  record o h := congrArg (Entry.record L · o) h

/-- Through `f` the two maps look the same at every key. -/
def SameBy (f : Entry → Entry) (m : Shards L) (m' : Shards L') : Prop :=
  ∀ key, (m.find? (shardIndex L key) key).map f = (m'.find? (shardIndex L' key) key).map f

theorem SameBy.symm {m : Shards L} {m' : Shards L'} (h : SameBy f m m') : SameBy f m' m :=
  fun key => (h key).symm

theorem SameBy.stageAll {m : Shards L} {m' : Shards L'} (h : SameBy f m m') (hf : Sees L L' f)
    (hno : (obs.map Observation.key).Nodup) (hst : stageAll epoch m obs = .ok staged) :
    ∃ staged', DataManager.stageAll epoch m' obs = .ok staged' ∧ SameBy f staged staged' := by
  obtain ⟨staged', hst'⟩ : ∃ staged', DataManager.stageAll epoch m' obs = .ok staged' := by
    refine stageAll_eq_ok epoch hno fun o ho e l he hl => ?_
    have hsa := h o.key
    rw [he, map_some, map_eq_some_iff] at hsa
    obtain ⟨e₀, he₀, hsa⟩ := hsa
    exact (stageAll_written hst hno ho).2 e₀ l he₀ ((hf.latest hsa).trans hl)
  refine ⟨staged', hst', fun key => ?_⟩
  by_cases hkey : key ∈ obs.map Observation.key
  · obtain ⟨o, ho, rfl⟩ := List.mem_map.mp hkey
    rw [(stageAll_written hst hno ho).1, (stageAll_written hst' hno ho).1]
    refine congrArg some (hf.record _ ?_)
    have hsa := h o.key
    generalize m.find? (shardIndex L o.key) o.key = a at hsa ⊢
    generalize m'.find? (shardIndex L' o.key) o.key = b at hsa ⊢
    cases a <;> cases b <;> simp_all
  · rw [stageAll_frame hst fun hk => hkey hk.2, stageAll_frame hst' fun hk => hkey hk.2]
    exact h key

/-! ### Reachable shards -/

theorem commitHeartbeatEvidence_shards (s : DataManager L) (e : FirmwareHeartbeatEvidence) :
    (s.commitHeartbeatEvidence e).1.shards = s.shards := by
  rcases s.commitHeartbeatEvidence_cases e with ⟨hs, -⟩ | ⟨rest, -, hs, -⟩
  · rw [hs]
  · rw [hs]
    rfl

theorem commitHealth_shards (s : DataManager L) (r : HealthResult) :
    (s.commitHealth r).1.shards = s.shards := by
  rcases s.commitHealth_cases r with ⟨-, hs⟩ | ⟨-, -, drafts, hs⟩
  · rw [hs]
  · rw [hs, publishAll_shards]
    rfl

/-- What an operation does to the shards. -/
theorem apply_shards (s : DataManager L) (op : DataOp) :
    (s.apply op).shards = s.shards ∨ (s.apply op).shards = .empty ∨
      ∃ obs staged, op = .commit obs ∧ s.Passes obs staged ∧
        (s.apply op).shards = (evict staged).1 := by
  cases op with
  | activateCatalog cat target =>
    dsimp only [apply, activateCatalog]
    rw [publishAll_shards]
    rcases s.activateCatalogLocked_cases cat target with hs | ⟨view, -, -, -, -, hs⟩
    · exact .inl (by rw [hs])
    · exact .inr (.inl (by rw [hs]))
  | commit obs =>
    dsimp only [apply, commit]
    rw [publishAll_shards]
    rcases s.commitLocked_passes obs with ⟨st, -, hs⟩ | ⟨staged, hpa, -, hs⟩
    · exact .inl (by rw [hs])
    · exact .inr (.inr ⟨obs, staged, rfl, hpa, by rw [hs]; rfl⟩)
  | commitHeartbeatEvidence ev => exact .inl (s.commitHeartbeatEvidence_shards ev)
  | commitHealth res => exact .inl (s.commitHealth_shards res)
  | publishEvent draft => exact .inl rfl

/-- Shards whose samples the scan finds. -/
structure Sound (shards : Shards L) : Prop where
  home : shards.AtHome (shardIndex L)
  times : TimesBelow shards

theorem run_sound {ops : List DataOp} (hops : ∀ op ∈ ops, op.TimesBelow) :
    Sound (run L ops).shards := by
  refine ⟨(run_storeInvariant L ops).atHome, ?_⟩
  refine invariant_along (I := fun s : DataManager L => TimesBelow s.shards) ?_ ?_
    (along_of_forall hops _)
  · intro s op hti hop
    rcases s.apply_shards op with hs | hs | ⟨obs, staged, rfl, hpa, hs⟩
    · rwa [hs]
    · rw [hs]
      intro i key e he
      simp at he
    · rw [hs]
      exact evict_timesBelow (hpa.timesBelow hti hop)
  · intro i key e he
    simp [initial] at he

/-! ### Operations over other shards -/

theorem publishAll_withShards (s : DataManager L) (drafts : List EventDraft) :
    (s.withShards m).publishAll drafts = (s.publishAll drafts).withShards m := by
  induction drafts generalizing s with
  | nil => rfl
  | cons d rest ih => exact ih (s.publishEvent d).1

theorem activateCatalog_withShards (s : DataManager L) (cat : Option CatalogView)
    (target : TargetCatalog) : ∃ m' : Shards (L.withShards n hn),
      (s.withShards m).activateCatalog cat target =
        ((s.activateCatalog cat target).1.withShards m', (s.activateCatalog cat target).2) ∧
      ∀ f, SameBy f s.shards m → SameBy f (s.activateCatalog cat target).1.shards m' := by
  obtain ⟨m', hlo, hsa⟩ : ∃ m' : Shards (L.withShards n hn),
      (s.withShards m).activateCatalogLocked cat target =
        ((s.activateCatalogLocked cat target).1.withShards m',
          (s.activateCatalogLocked cat target).2) ∧
      ∀ f, SameBy f s.shards m → SameBy f (s.activateCatalogLocked cat target).1.shards m' := by
    unfold activateCatalogLocked
    cases cat with
    | none => exact ⟨m, rfl, fun _ h => h⟩
    | some view =>
      rw [show (s.withShards m).catalog = s.catalog from rfl]
      dsimp only
      split_ifs
      · exact ⟨m, rfl, fun _ h => h⟩
      · exact ⟨m, rfl, fun _ h => h⟩
      · exact ⟨m, rfl, fun _ h => h⟩
      · exact ⟨m, rfl, fun _ h => h⟩
      · exact ⟨.empty, rfl, fun _ _ key => by simp⟩
      · exact ⟨m, rfl, fun _ h => h⟩
  refine ⟨m', ?_, by simpa [activateCatalog] using hsa⟩
  rw [activateCatalog, hlo, publishAll_withShards]
  rfl

theorem evictEvidence_withShards (p : FirmwareHeartbeatEvidence → Bool) (fuel : ℕ)
    (es : List FirmwareHeartbeatEvidence) :
    evictEvidence (L.withShards n hn) p fuel es = evictEvidence L p fuel es := by
  induction fuel generalizing es with
  | zero => rfl
  | succ fuel ih =>
    rw [evictEvidence, ih]
    rfl

theorem commitHeartbeatEvidence_withShards (s : DataManager L) (e : FirmwareHeartbeatEvidence) :
    (s.withShards m).commitHeartbeatEvidence e =
      ((s.commitHeartbeatEvidence e).1.withShards m, (s.commitHeartbeatEvidence e).2) := by
  have hst : (s.withShards m).stageEvidence (e.withId (s.withShards m).nextEvidenceId) =
      s.stageEvidence (e.withId s.nextEvidenceId) := evictEvidence_withShards _ _ _
  have hsto : (s.withShards m).storeEvidence e =
      ((s.storeEvidence e).1.withShards m, (s.storeEvidence e).2) := by
    unfold storeEvidence
    rw [hst]
    cases s.stageEvidence (e.withId s.nextEvidenceId) with
    | none => rfl
    | some es => rfl
  have hch : (s.withShards m).checkEvidence e = s.checkEvidence e := rfl
  have hla : (s.withShards m).latestEvidence? e.entity = s.latestEvidence? e.entity := rfl
  have hne : (s.withShards m).notNewer e ↔ s.notNewer e := .rfl
  unfold commitHeartbeatEvidence
  rw [hsto, hch, hla]
  cases s.checkEvidence e with
  | some st => rfl
  | none =>
    cases s.latestEvidence? e.entity with
    | some l =>
      simp only [hne]
      split_ifs <;> rfl
    | none =>
      simp only [hne]
      split_ifs <;> rfl

theorem commitHealth_withShards (s : DataManager L) (r : HealthResult) :
    (s.withShards m).commitHealth r =
      ((s.commitHealth r).1.withShards m, (s.commitHealth r).2) := by
  have hlo : (s.withShards m).commitHealthLocked r =
      ((s.commitHealthLocked r).1.withShards m, (s.commitHealthLocked r).2) := by
    have hch : (s.withShards m).checkHealth r = s.checkHealth r := rfl
    unfold commitHealthLocked
    rw [hch]
    cases s.checkHealth r with
    | some st => rfl
    | none => rfl
  rw [commitHealth, hlo, publishAll_withShards]
  rfl

theorem checkBatch_withShards (s : DataManager L) (seen : List DataKey) (obs : List Observation) :
    (s.withShards m).checkBatch seen obs = s.checkBatch seen obs := by
  induction obs generalizing seen with
  | nil => rfl
  | cons o rest ih =>
    rw [checkBatch, ih]
    rfl

theorem refusal_withShards (s : DataManager L) (obs : List Observation) :
    (s.withShards m).refusal obs = s.refusal obs := by
  rw [refusal, checkBatch_withShards]
  rfl

/-- A batch is refused over both shards for the same reason, or both evict what was staged. -/
theorem commitLocked_withShards (h : SameBy emptied s.shards m) (hs : Sound s.shards)
    (hm : Sound m) (hobs : ∀ o ∈ obs, o.observedMonotonicTimeNs < int64Max) :
    (s.commitLocked obs).1 = s ∧
        (s.withShards m).commitLocked obs = (s.withShards m, (s.commitLocked obs).2) ∨
      ∃ staged staged', s.Passes obs staged ∧ (s.withShards m).Passes obs staged' ∧
        (evict staged).2 ≤ L.maxTotalBytes ∧
        s.commitLocked obs = s.committed obs (evict staged).1 ∧
        (s.withShards m).commitLocked obs = (s.withShards m).committed obs (evict staged').1 := by
  cases hre : s.refusal obs with
  | some st =>
    left
    simp only [commitLocked_eq, refusal_withShards, hre, and_self]
  | none =>
    have hno := (checkBatch_eq_none.mp (refusal_eq_none.mp hre).2.2.2.2).2
    have hre' := (refusal_withShards (m := m) s obs).trans hre
    cases hst : stageAll (s.commitEpoch + 1) s.shards obs with
    | error st =>
      left
      cases hst' : stageAll (s.commitEpoch + 1) m obs with
      | error st' =>
        rw [commitLocked_eq, commitLocked_eq, hre, hre']
        simp only [hst, withShards, hst', stageAll_error hst, stageAll_error hst', and_self]
      | ok staged' =>
        obtain ⟨staged, hok, -⟩ := h.symm.stageAll sees_emptied hno hst'
        rw [hst] at hok
        cases hok
    | ok staged =>
      obtain ⟨staged', hst', hsa⟩ := h.stageAll sees_emptied hno hst
      have hho := stageAll_atHome hs.home hst
      have hho' := stageAll_atHome hm.home hst'
      have hsi : staged.size = staged'.size :=
        hho.size_eq hho' fun key => by simpa using congrArg isSome (hsa key)
      by_cases hke : staged.size ≤ L.maxKeys
      · have hpa : s.Passes obs staged := ⟨hre, hst, hke⟩
        have hpa' : (s.withShards m).Passes obs staged' := ⟨hre', hst', hsi ▸ hke⟩
        have hto : staged.total emptiedBytes = staged'.total emptiedBytes :=
          hho.total_eq hho' fun key => by
            have hby := congrArg (Option.map entryBytes) (hsa key)
            rwa [Option.map_map, Option.map_map] at hby
        have hov : L.maxTotalBytes < (evict staged').2 ↔ L.maxTotalBytes < (evict staged).2 := by
          rw [evict_over_iff (hpa.timesBelow hs.times hobs), hto]
          exact evict_over_iff (hpa'.timesBelow hm.times hobs)
        rw [hpa.commitLocked, hpa'.commitLocked]
        by_cases hfit : L.maxTotalBytes < (evict staged).2
        · left
          rw [if_pos hfit, if_pos (show (L.withShards n hn).maxTotalBytes < _ from hov.mpr hfit)]
          exact ⟨rfl, rfl⟩
        · right
          rw [if_neg hfit, if_neg (show ¬(L.withShards n hn).maxTotalBytes < _ from mt hov.mp hfit)]
          exact ⟨staged, staged', hpa, hpa', not_lt.mp hfit, rfl, rfl⟩
      · left
        rw [commitLocked_eq, commitLocked_eq, hre, hre']
        have hke' : (L.withShards n hn).maxKeys < staged'.size := hsi ▸ not_le.mp hke
        simp only [hst, withShards, hst', if_pos (not_le.mp hke), if_pos hke', and_self]

/-- The eviction leaves what is seen of an entry without its history. -/
theorem find?_evict_emptied (staged : Shards L) (i : Fin L.shardCount) (key : DataKey) :
    ((evict staged).1.find? i key).map emptied = (staged.find? i key).map emptied := by
  have htr := evict_trimmed staged i key
  generalize staged.find? i key = b at htr ⊢
  generalize (evict staged).1.find? i key = after at htr ⊢
  cases htr with
  | none => rfl
  | some h => simp [emptied, h.latest, h.lastValid]

theorem evict_of_fits (h : staged.total entryBytes ≤ L.maxTotalBytes) :
    (evict staged).1 = staged := by
  rw [evict]
  cases staged.total historyLength with
  | zero => rfl
  | succ fuel => rw [evictLoop, if_neg h.not_gt]

/-- An operation that evicts no sample for bytes. -/
def Unevicted (s : DataManager L) : DataOp → Prop
  | .commit obs => ∀ staged, s.Passes obs staged → (evict staged).2 ≤ L.maxTotalBytes →
      (evict staged).1 = staged
  | _ => True

theorem apply_withShards (h : SameBy emptied s.shards m) (hs : Sound s.shards) (hm : Sound m)
    {op : DataOp} (hop : op.TimesBelow) : ∃ m' : Shards (L.withShards n hn),
      (s.withShards m).apply op = (s.apply op).withShards m' ∧
      SameBy emptied (s.apply op).shards m' ∧
      (SameBy id s.shards m → s.Unevicted op → SameBy id (s.apply op).shards m') := by
  cases op with
  | activateCatalog cat target =>
    obtain ⟨m', heq, hsa⟩ := s.activateCatalog_withShards cat target
    exact ⟨m', congrArg Prod.fst heq, hsa _ h, fun hid _ => hsa _ hid⟩
  | commit obs =>
    dsimp only [apply, commit]
    rw [publishAll_shards]
    rcases commitLocked_withShards h hs hm hop with
      ⟨hsa, heq⟩ | ⟨staged, staged', hpa, hpa', hfit, heq, heq'⟩
    · rw [heq, hsa]
      exact ⟨m, publishAll_withShards s _, h, fun hid _ => hid⟩
    · obtain ⟨st, hst, hsta⟩ := h.stageAll sees_emptied hpa.check.2 hpa.staged_eq
      obtain rfl := Except.ok.inj (hst.symm.trans hpa'.staged_eq)
      rw [heq, heq']
      refine ⟨(evict st).1, publishAll_withShards (s.committed obs (evict staged).1).1 _, ?_, ?_⟩
      · intro key
        rw [find?_evict_emptied]
        exact (find?_evict_emptied staged _ key).trans (hsta key)
      · intro hid hun
        obtain ⟨st', hst', hsta'⟩ := hid.stageAll sees_id hpa.check.2 hpa.staged_eq
        obtain rfl := Except.ok.inj (hst'.symm.trans hpa'.staged_eq)
        have hke : (evict staged).1 = staged := hun staged hpa hfit
        have hto : staged.total entryBytes = st'.total entryBytes :=
          (stageAll_atHome hs.home hpa.staged_eq).total_eq
            (stageAll_atHome hm.home hst')
            fun key => by simpa using congrArg (Option.map entryBytes) (hsta' key)
        have hfit' : (evict staged).1.total entryBytes ≤ L.maxTotalBytes :=
          (evictLoop_total _ staged).symm.trans_le hfit
        have hke' : (evict st').1 = st' := evict_of_fits (by rw [← hto, ← hke]; exact hfit')
        rw [hke, hke']
        exact hsta'
  | commitHeartbeatEvidence e =>
    refine ⟨m, congrArg Prod.fst (s.commitHeartbeatEvidence_withShards e), ?_⟩
    rw [apply, commitHeartbeatEvidence_shards]
    exact ⟨h, fun hid _ => hid⟩
  | commitHealth r =>
    refine ⟨m, congrArg Prod.fst (s.commitHealth_withShards r), ?_⟩
    rw [apply, commitHealth_shards]
    exact ⟨h, fun hid _ => hid⟩
  | publishEvent draft => exact ⟨m, rfl, h, fun hid _ => hid⟩

theorem run_withShards (hn : 0 < n ∧ n ≤ 256) {ops : List DataOp}
    (hops : ∀ op ∈ ops, op.TimesBelow) : ∃ m : Shards (L.withShards n hn),
      run (L.withShards n hn) ops = (run L ops).withShards m ∧ Sound m ∧
      SameBy emptied (run L ops).shards m ∧
      (Along apply Unevicted (initial L) ops → SameBy id (run L ops).shards m) := by
  have hso := run_sound (L := L.withShards n hn) hops
  induction ops using List.reverseRecOn with
  | nil =>
    refine ⟨.empty, rfl, hso, ?_, ?_⟩
    · exact fun key => by simp [run, initial]
    · exact fun _ key => by simp [run, initial]
  | append_singleton ops op ih =>
    obtain ⟨hbe, hop⟩ := List.forall_mem_append.mp hops
    obtain ⟨m, hm, hsou, hsa, hid⟩ := ih hbe (run_sound hbe)
    obtain ⟨m', hm', hsa', hid'⟩ :=
      apply_withShards hsa (run_sound hbe) hsou (hop op (by simp))
    have hrun : run (L.withShards n hn) (ops ++ [op]) = (run L (ops ++ [op])).withShards m' := by
      rw [run, runFrom_append, ← run, hm]
      exact hm'.trans (by rw [run, run, runFrom_append]; rfl)
    refine ⟨m', hrun, by rwa [hrun] at hso, ?_, ?_⟩
    · rw [run, runFrom_append]
      exact hsa'
    · intro hal
      rw [along_append] at hal
      rw [run, runFrom_append]
      exact hid' (hid hal.1) hal.2.1

theorem readItem_withShards (h : SameBy emptied s.shards m) (stale : Bool) (now : ℤ) :
    (s.withShards m).readItem stale now = s.readItem stale now := by
  funext key
  have hsa : (s.stored? key).map emptied = ((s.withShards m).stored? key).map emptied := h key
  cases hs : s.stored? key with
  | none =>
    have hm : (s.withShards m).stored? key = none := by simpa [hs] using hsa.symm
    simp only [readItem, hs, hm]
    rfl
  | some e =>
    rw [hs, map_some, eq_comm, map_eq_some_iff] at hsa
    obtain ⟨e', hm, he⟩ := hsa
    have hla : e'.latest = e.latest := by simpa [emptied] using congrArg Entry.latest he
    have hva : e'.lastValid = e.lastValid := by simpa [emptied] using congrArg Entry.lastValid he
    simp only [readItem, hs, hm, bind_some, hla]
    cases e.latest with
    | none => rfl
    | some l =>
      simp only [map_some, hva]
      rfl

/-- Sharding is invisible: over any number of shards the same operations have the same
results. Only which samples are evicted for bytes may depend on the shards. -/
theorem run_shards_invisible (L : Limits) (hn : 0 < n ∧ n ≤ 256) (ops : List DataOp)
    (hops : ∀ op ∈ ops, op.TimesBelow) :
    (∀ obs, (∀ o ∈ obs, o.observedMonotonicTimeNs < int64Max) →
      ((run (L.withShards n hn) ops).commit obs).2 = ((run L ops).commit obs).2) ∧
    (∀ keys allowStale now required,
      (run (L.withShards n hn) ops).readLatest keys allowStale now required =
        (run L ops).readLatest keys allowStale now required) ∧
    (run (L.withShards n hn) ops).keyCount = (run L ops).keyCount ∧
    (Along apply Unevicted (initial L) ops →
      ∀ key, (run (L.withShards n hn) ops).history key = (run L ops).history key) := by
  have hsound := run_sound (L := L) hops
  obtain ⟨m, hm, hsound', hsame, hid⟩ := run_withShards hn hops
  rw [hm]
  refine ⟨?_, ?_, ?_, ?_⟩
  · intro obs hobs
    dsimp only [commit]
    rcases commitLocked_withShards hsame hsound hsound' hobs with
      ⟨-, heq⟩ | ⟨staged, staged', -, -, -, heq, heq'⟩
    · rw [heq]
    · rw [heq, heq']
      rfl
  · intro keys allowStale now required
    unfold readLatest
    rw [readItem_withShards hsame]
    rfl
  · exact (hsound'.home.size_eq hsound.home fun key => by
      simpa using congrArg isSome (hsame key).symm)
  · intro halong key
    have hstored := (hid halong key).symm
    rw [map_id] at hstored
    rw [history, show ((run L ops).withShards m).stored? key = _ from hstored]
    rfl

end DataManager

namespace TwoMetrics

open DataManager

theorem inletOnce_unevicted : Along apply Unevicted (initial limits) inletOnce := by
  refine ⟨trivial, fun staged hpa _ => evict_of_fits ?_, trivial⟩
  have hfi : ∀ staged ∈ (stageAll 1 ((initial limits).apply (.activateCatalog (some view)
      target)).shards [sample 7 20 1]).toOption,
      staged.total entryBytes ≤ limits.maxTotalBytes := by
    decide +kernel
  exact hfi staged (congrArg Except.toOption hpa.staged_eq)

theorem run_shards_invisible_inletOnce :
    let s := run TwoMetrics.limits TwoMetrics.inletOnce
    let t := run (limits.withShards 1 (by decide)) inletOnce
    (t.commit [sample 8 30 2]).2 = (s.commit [sample 8 30 2]).2 ∧ t.keyCount = s.keyCount ∧
      s.keyCount = 1 ∧ t.history inlet = s.history inlet := by
  have h := run_shards_invisible limits (n := 1) (by decide) inletOnce
    (by simp [inletOnce, DataOp.TimesBelow, sample, int64Max])
  exact ⟨h.1 _ (by decide), h.2.2.1, by decide +kernel, h.2.2.2 inletOnce_unevicted inlet⟩

end TwoMetrics
end Pdcm
