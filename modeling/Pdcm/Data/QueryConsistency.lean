import Pdcm.Data.ReadSpecification

/-!
# Consistency levels of a query

What the epochs of the returned items say about the commits behind them. A SAME_BATCH
answer is one batch unless a stale item stands in it, whose epoch is that of the failure
it hides. An AT_LEAST_EPOCH answer is that recent for every key that has a sample; the
item of any other key carries the epoch of the whole store. Both depend on the store at
the last read of the query. The waiting loop misses a commit that falls between its read
and its question for the epoch.
-/

namespace Pdcm

open Library DataManager QueryHost List Program Option

variable {L : Limits} {host : QueryHost L} {engine : QueryEngine host} {request : QueryRequest}
  {w t u v : host.World} {τ : List (Event host.interface)} {r : QueryResult} {fuel : ℕ} {now : ℤ}

namespace CommitLog

variable {log log' : CommitLog L}

theorem Accounted.record_unique (h : log.Accounted) {a b : CommitRecord} (ha : a ∈ log.commits)
    (hb : b ∈ log.commits) (hep : a.epoch = b.epoch) : a = b := by
  have hno : (log.commits.map CommitRecord.epoch).Nodup :=
    pairwise_map.mpr (h.ordered.imp fun hlt => hlt.ne)
  exact inj_on_of_nodup_map hno ha hb hep

theorem Accounted.sample (h : log.Accounted) {key : DataKey} {o : Observation}
    (ho : log.data.latest? key = some o ∨ log.data.lastValid? key = some o) : log.Holds o := by
  obtain ⟨e, he, hl⟩ : ∃ e, log.data.stored? key = some e ∧
      (e.latest = some o ∨ e.lastValid = some o) := by
    rcases ho with ho | ho
    · obtain ⟨e, he, hl⟩ := bind_eq_some_iff.mp ho
      exact ⟨e, he, .inl hl⟩
    · obtain ⟨e, he, hl⟩ := bind_eq_some_iff.mp ho
      exact ⟨e, he, .inr hl⟩
  exact h.samples key e o he hl

theorem Reachable.readInvariant (h : log.Reachable) : log.data.ReadInvariant := by
  induction h with
  | refl => exact ⟨initial_storeInvariant L, initial_samplesValid L, initial_catalogSound L⟩
  | tail _ hst ih => exact hst.dataStep.readInvariant ih

theorem Evolves.commits_since (h : log.Evolves log') :
    ∀ rec ∈ log'.commits, rec ∈ log.commits ∨ log.data.commitEpoch < rec.epoch := by
  induction h with
  | refl => exact fun rec hre => .inl hre
  | tail hev hst ih =>
    cases hst.effect with
    | kept hco => rwa [hco]
    | emptied hco => rwa [hco]
    | recorded _ hco =>
      rw [hco]
      refine forall_mem_append.mpr ⟨ih, forall_mem_singleton.mpr (.inr ?_)⟩
      exact Nat.lt_succ_of_le (later hev).epoch

end CommitLog

namespace DataManager

variable {s : DataManager L} {key : DataKey} {keys : List DataKey} {allowStale : Bool}
  {item o : Observation}

/-- The latest sample of the key failed, and a stale item shows the valid one before it. -/
def Masked (s : DataManager L) (key : DataKey) : Prop :=
  (∃ o ∈ s.latest? key, o.status ≠ .valid) ∧ s.lastValid? key ≠ none

/-- A key is masked, and the last valid samples of the keys are not all of one commit. -/
def Mixes (s : DataManager L) (keys : List DataKey) : Prop :=
  (∃ key ∈ keys, s.Masked key) ∧ ∃ key ∈ keys, ∃ v ∈ s.lastValid? key,
    ∃ other ∈ keys, ∃ v' ∈ s.lastValid? other, v.commitEpoch ≠ v'.commitEpoch

instance (s : DataManager L) (keys : List DataKey) : Decidable (s.Mixes keys) :=
  inferInstanceAs (Decidable ((∃ key ∈ keys, _ ∧ _) ∧ _))

/-- A value that an item carries is that of the last valid sample of its key. -/
theorem ReadInvariant.carried (h : s.ReadInvariant) (hre : s.readItem allowStale now key = .ok item)
    (hva : item.value ≠ none) :
    ∃ v, s.lastValid? key = some v ∧ item.value = v.value ∧
      (item = v ∨ allowStale = true ∧ s.Masked key) := by
  cases (readItem_iff.mp hre).2 with
  | unsupported => exact absurd rfl hva
  | unsampled => exact absurd rfl hva
  | @latest _ e _ _ he ho =>
    obtain ⟨-, -, hno, hlas⟩ := (h.store _ _ e he).2.consistent.latest item ho
    have hst := (value_ne_none_iff (h.samples _ _ e he item (.inl ho)) hno).mp hva
    exact ⟨item, by rw [lastValid?, he]; exact hlas hst, rfl, .inl rfl⟩
  | @stale _ e o v _ he ho hv hfa hal =>
    have hlas : s.lastValid? key = some v := by rw [lastValid?, he]; exact hv
    have hla : s.latest? key = some o := by rw [latest?, he]; exact ho
    exact ⟨v, hlas, rfl, .inr ⟨hal, ⟨o, hla, hfa⟩, by simp [hlas]⟩⟩

/-- If stale items are allowed, every last valid sample is shown. -/
theorem ReadInvariant.carries (h : s.ReadInvariant) (hre : s.readItem true now key = .ok item)
    (hla : s.lastValid? key ≠ none) : item.value ≠ none := by
  obtain ⟨v, hv⟩ := ne_none_iff_exists'.mp hla
  obtain ⟨e, he, hv⟩ := bind_eq_some_iff.mp hv
  obtain ⟨-, hen⟩ := h.store _ _ e he
  obtain ⟨hst, o, ho, -⟩ := hen.consistent.lastValid v hv
  have hva : v.value ≠ none :=
    (value_ne_none_iff (h.samples _ _ e he v (.inr hv)) (by simp [hst])).mpr hst
  cases (readItem_iff.mp hre).2 with
  | unsupported hno => simpa [hno] using hen.metric
  | unsampled _ hno => simp [he, ho] at hno
  | latest _ he' ho' hsh =>
    obtain rfl := some.inj (he.symm.trans he')
    have hst' : item.status = .valid := by simpa [hv] using hsh
    obtain rfl := some.inj (hv.symm.trans ((hen.consistent.latest item ho').2.2.2 hst'))
    exact hva
  | stale _ he' _ hv' =>
    obtain rfl := some.inj (he.symm.trans he')
    obtain rfl := some.inj (hv.symm.trans hv')
    exact hva

theorem StoreInvariant.latest_key (h : s.StoreInvariant) (hla : s.latest? key = some o) :
    o.key = key := by
  obtain ⟨e, he, ho⟩ := bind_eq_some_iff.mp hla
  exact ((h _ key e he).2.consistent.own o (.inl ho)).1

/-- The item of a sampled key has the epoch of the latest sample. -/
theorem StoreInvariant.readItem_epoch (h : s.StoreInvariant) (hla : s.latest? key = some o)
    (hre : s.readItem allowStale now key = .ok item) : item.commitEpoch = o.commitEpoch := by
  obtain ⟨e, he, ho⟩ := bind_eq_some_iff.mp hla
  cases (readItem_iff.mp hre).2 with
  | unsupported hno => simpa [hno] using (h _ _ e he).2.metric
  | unsampled _ hno => simp [he, ho] at hno
  | latest _ he' ho' =>
    obtain rfl := some.inj (he.symm.trans he')
    rw [some.inj (ho.symm.trans ho')]
  | stale _ he' ho' =>
    obtain rfl := some.inj (he.symm.trans he')
    rw [some.inj (ho.symm.trans ho')]
    rfl

end DataManager

namespace QueryEngine

/-- The items of a readable answer are those of the last read. -/
theorem execute_items (h : (engine.execute request fuel).Runs host.environment w τ (some r) t)
    (hreada : isReadableStatus r.status = true) :
    ∃ now u, LastRead request τ now u ∧ host.Later w u ∧ host.Later u t ∧
      (∀ item ∈ r.items, ∃ key ∈ request.selection,
        (host.data u).readItem request.allowStale now key = .ok item) ∧
      (∀ key ∈ request.selection, ∃ item ∈ r.items,
        (host.data u).readItem request.allowStale now key = .ok item) ∧
      (request.consistency = .sameBatch → QueryRequest.sameEpoch r.items = true) ∧
      (request.consistency = .atLeastEpoch →
        ∀ item ∈ r.items, request.requiredEpoch ≤ item.commitEpoch) := by
  obtain ⟨-, -, hun⟩ | ⟨snap, fresh, ⟨now, u, hu, -, rfl⟩, -, hall, hr⟩ := execute_answer h
  · rw [hun] at hreada
    cases hreada
  rw [hr] at hreada
  have hwh := request.finalize_readable hreada
  rw [← hr] at hwh
  obtain ⟨hla, hmet⟩ := runs_later h
  obtain ⟨items, hrea, -, hfr, hev⟩ :=
    (readLatest_readable (isReadableStatus_iff.mp hwh.readable)).readLatest
  have hit : r.items = items := by rw [hwh.items, selected, hrea]
  rw [hit]
  refine ⟨now, u, hu, (hmet _ hu.mem).1, (hmet _ hu.mem).2, hfr, hev, ?_, ?_⟩
  · intro hba
    have hsa := hwh.batch hba
    rwa [selected, hrea] at hsa
  · intro hep item hite
    have hre := hall hep
    rw [selected, hrea] at hre
    exact of_decide_eq_true (all_eq_true.mp hre item hite)

theorem sameEpoch_eq {items : List Observation} (h : QueryRequest.sameEpoch items = true)
    {a b : Observation} (ha : a ∈ items) (hb : b ∈ items) : a.commitEpoch = b.commitEpoch := by
  cases items with
  | nil => cases ha
  | cons first rest =>
    have hall := all_eq_true.mp h
    exact (of_decide_eq_true (hall a ha)).trans (of_decide_eq_true (hall b hb)).symm

/-! ### SAME_BATCH -/

/-- The values of the items, which are those of the last valid samples of their keys, come
from one commit. -/
def FromOneCommit (log : CommitLog L) (s : DataManager L) (items : List Observation) : Prop :=
  (∀ item ∈ items, item.value = none) ∨
    ∃ record ∈ log.commits, ∀ item ∈ items, item.value ≠ none →
      ∃ o ∈ record.observations, s.lastValid? item.key = some (o.stamped record.epoch) ∧
        item.value = o.value

section SameBatch

variable {log log' : CommitLog L} {keys : List DataKey} {items : List Observation}
  {allowStale : Bool}

theorem not_mixes_of_fromOneCommit (h : log.data.ReadInvariant)
    (hev : ∀ key ∈ keys, ∃ item ∈ items, log.data.readItem true now key = .ok item)
    (hone : FromOneCommit log' log.data items) : ¬log.data.Mixes keys := by
  rintro ⟨-, key, hkey, v, hv, other, hot, v', hv', hne⟩
  have hsh : ∀ key ∈ keys, ∀ v ∈ log.data.lastValid? key,
      ∃ item ∈ items, item.key = key ∧ item.value ≠ none := by
    intro key hkey v hv
    obtain ⟨item, hit, hre⟩ := hev key hkey
    have hv' : log.data.lastValid? key = some v := hv
    exact ⟨item, hit, h.store.readItem_key hre, h.carries hre (by simp [hv'])⟩
  obtain ⟨a, ha, rfl, hva⟩ := hsh key hkey v hv
  obtain ⟨b, hb, rfl, hva'⟩ := hsh other hot v' hv'
  rcases hone with hno | ⟨rec, -, hre⟩
  · exact hva (hno a ha)
  · obtain ⟨o, -, ho, -⟩ := hre a ha hva
    obtain ⟨o', -, ho', -⟩ := hre b hb hva'
    rw [mem_unique hv ho, mem_unique hv' ho'] at hne
    exact hne rfl

/-- Without a masked key the items are the samples, and `finalize` has compared their
epochs. -/
theorem one_epoch_of_unmixed (h : log.data.ReadInvariant)
    (hfr : ∀ item ∈ items, ∃ key ∈ keys, log.data.readItem allowStale now key = .ok item)
    (hsa : QueryRequest.sameEpoch items = true)
    (hun : allowStale = false ∨ ¬log.data.Mixes keys) :
    ∃ epoch, ∀ item ∈ items, item.value ≠ none →
      ∃ v, log.data.lastValid? item.key = some v ∧ item.value = v.value ∧
      v.commitEpoch = epoch := by
  have hca : ∀ item ∈ items, item.value ≠ none → item.key ∈ keys ∧
      ∃ v, log.data.lastValid? item.key = some v ∧ item.value = v.value ∧
        (item = v ∨ allowStale = true ∧ log.data.Masked item.key) := by
    intro item hit hva
    obtain ⟨key, hkey, hre⟩ := hfr item hit
    obtain rfl := h.store.readItem_key hre
    exact ⟨hkey, h.carried hre hva⟩
  by_cases hno : ∀ item ∈ items, item.value = none
  · exact ⟨0, fun item hit hva => absurd (hno item hit) hva⟩
  · push Not at hno
    obtain ⟨a, ha, hva⟩ := hno
    obtain ⟨hkey, v, hv, -, hor⟩ := hca a ha hva
    refine ⟨v.commitEpoch, fun b hb hva' => ?_⟩
    obtain ⟨hkey', v', hv', hval, hor'⟩ := hca b hb hva'
    refine ⟨v', hv', hval, ?_⟩
    by_contra hne
    have hcl : ∀ key ∈ keys, ¬(allowStale = true ∧ log.data.Masked key) := by
      rintro key hkm ⟨hal, hma⟩
      rcases hun with hnev | hnot
      · simp [hal] at hnev
      · exact hnot ⟨⟨key, hkm, hma⟩, b.key, hkey', v', hv', a.key, hkey, v, hv, hne⟩
    obtain rfl := hor.resolve_right (hcl _ hkey)
    obtain rfl := hor'.resolve_right (hcl _ hkey')
    exact hne (sameEpoch_eq hsa hb ha)

theorem fromOneCommit_of_epoch (h : log.Accounted) (hgr : log.commits <+: log'.commits) {epoch : ℕ}
    (hep : ∀ item ∈ items, item.value ≠ none →
      ∃ v, log.data.lastValid? item.key = some v ∧ item.value = v.value ∧ v.commitEpoch = epoch) :
    FromOneCommit log' log.data items := by
  by_cases hno : ∀ item ∈ items, item.value = none
  · exact .inl hno
  · push Not at hno
    obtain ⟨first, hfi, hva⟩ := hno
    obtain ⟨v, hv, -, hsa⟩ := hep first hfi hva
    obtain ⟨rec, hmem, b, -, rfl⟩ := h.sample (.inr hv)
    refine .inr ⟨rec, hgr.subset hmem, fun item hit hva' => ?_⟩
    obtain ⟨v', hv', hval, hsa'⟩ := hep item hit hva'
    obtain ⟨rec', hmem', o, ho, rfl⟩ := h.sample (.inr hv')
    obtain rfl := h.record_unique hmem' hmem (hsa'.trans hsa.symm)
    exact ⟨o, ho, hv', hval⟩

end SameBatch

/-- The values of a SAME_BATCH answer come from one batch exactly if stale items are not
allowed, or the store at the last read does not mix batches. -/
theorem sameBatch_one_commit (hreachable : (host.store w).Reachable)
    (hrun : (engine.execute request fuel).Runs host.environment w τ (some r) t)
    (hconsistency : request.consistency = .sameBatch)
    (hreadable : isReadableStatus r.status = true) :
    ∃ now u, LastRead request τ now u ∧
      (FromOneCommit (host.store t) (host.data u) r.items ↔
        request.allowStale = false ∨ ¬(host.data u).Mixes request.selection) := by
  obtain ⟨now, u, hlast, hlater, hend, hfrom, hevery, hbatch, -⟩ := execute_items hrun hreadable
  have hreachable' : (host.store u).Reachable := hreachable.trans hlater.1
  have hread : (host.data u).ReadInvariant := hreachable'.readInvariant
  refine ⟨now, u, hlast, fun hone => ?_, fun hunmixed => ?_⟩
  · cases hallowed : request.allowStale with
    | false => exact .inl rfl
    | true =>
      rw [hallowed] at hevery
      exact .inr (not_mixes_of_fromOneCommit hread hevery hone)
  · obtain ⟨epoch, hepoch⟩ :=
      one_epoch_of_unmixed hread hfrom (hbatch hconsistency) hunmixed
    exact fromOneCommit_of_epoch hreachable'.accounted hend.1.commits hepoch

end QueryEngine

namespace TwoMetrics

open QueryEngine

def sameBatch (allowStale : Bool) : QueryRequest :=
  { selection := [inlet, outlet], consistency := .sameBatch, allowStale := allowStale }

/-- The inlet is masked when the query reads the clock; a batch of both metrics arrives
before it reads the store. -/
theorem sameBatch_one_commit_pair :
    ∃ f r u, query (sameBatch true) (committed [[sample 7 1 1], [failure 7 2]])
        [[], [.commit [sample 7 3 3, sample 8 4 3]]] = some f ∧
      f.result = some r ∧ r.items.length = 2 ∧ FromOneCommit f.final.log u r.items := by
  obtain ⟨f, r, hf, hr, hreadable, hlength, hunmixed⟩ : ∃ f r,
      query (sameBatch true) (committed [[sample 7 1 1], [failure 7 2]])
          [[], [.commit [sample 7 3 3, sample 8 4 3]]] = some f ∧
        f.result = some r ∧ isReadableStatus r.status = true ∧ r.items.length = 2 ∧
        ∀ e ∈ f.events, isRead e = true → ¬e.state.log.data.Mixes [inlet, outlet] :=
    exists_answer (by decide +kernel)
  have hruns := query_runs hf
  rw [hr] at hruns
  obtain ⟨now, u, hlast, hiff⟩ :=
    sameBatch_one_commit (committed_reachable _) hruns rfl hreadable
  exact ⟨f, r, _, hf, hr, hlength, hiff.mpr (.inr (hunmixed _ hlast.mem rfl))⟩

/-- The inlet fails in the batch that brings the outlet: its older value and the new one
of the outlet carry one epoch, and no batch holds both. -/
theorem sameBatch_two_commits :
    ∃ f r, query (sameBatch true) (committed [[sample 7 1 1], [failure 7 2, sample 8 2 2]])
        [[], []] = some f ∧
      f.result = some r ∧ r.status.code = .partialResult ∧
      (∀ item ∈ r.items, item.value ≠ none) ∧
      ¬∃ record ∈ f.final.log.commits, ∀ item ∈ r.items,
        ∃ o ∈ record.observations, o.key = item.key ∧ o.value = item.value := by
  apply exists_answer
  decide +kernel

end TwoMetrics

namespace QueryEngine

/-! ### AT_LEAST_EPOCH -/

/-- For every requested key of an AT_LEAST_EPOCH answer there is a commit of at least that
epoch, exactly if each key has a sample at the last read, or such a commit under an
earlier catalog or after that read. -/
theorem atLeastEpoch_committed (hreachable : (host.store w).Reachable)
    (hrun : (engine.execute request fuel).Runs host.environment w τ (some r) t)
    (hconsistency : request.consistency = .atLeastEpoch)
    (hreadable : isReadableStatus r.status = true) :
    ∃ now u, LastRead request τ now u ∧
      ((∀ key ∈ request.selection, ∃ record ∈ (host.store t).commits,
          request.requiredEpoch ≤ record.epoch ∧ ∃ o ∈ record.observations, o.key = key) ↔
        ∀ key ∈ request.selection, (host.data u).latest? key ≠ none ∨
          ∃ record ∈ (host.store t).commits, request.requiredEpoch ≤ record.epoch ∧
            ∃ o ∈ record.observations, o.key = key ∧
              (o.catalogGeneration < (host.data u).catalog.generation ∨
                (host.data u).commitEpoch < record.epoch)) := by
  obtain ⟨now, u, hlast, hlater, hend, -, hevery, -, hepoch⟩ := execute_items hrun hreadable
  have haccounted : (host.store u).Accounted := hlater.1.accounted hreachable.accounted
  refine ⟨now, u, hlast, fun hall key hkey => ?_, fun hall key hkey => ?_⟩
  · obtain ⟨record, hmem, hle, o, ho, rfl⟩ := hall key hkey
    rcases hend.1.commits_since record hmem with hold | hnew
    · rcases (haccounted.covered record hold o ho).2 with hearlier | ⟨sample, hsample, -⟩
      · exact .inr ⟨record, hmem, hle, o, ho, rfl, .inl hearlier⟩
      · exact .inl (by simp [QueryHost.data, hsample])
    · exact .inr ⟨record, hmem, hle, o, ho, rfl, .inr hnew⟩
  · rcases hall key hkey with hsampled | ⟨record, hmem, hle, o, ho, hokey, -⟩
    · obtain ⟨o, ho⟩ := ne_none_iff_exists'.mp hsampled
      obtain ⟨item, hitem, hread⟩ := hevery key hkey
      have hsame := haccounted.store.readItem_epoch ho hread
      have hokey := haccounted.store.latest_key ho
      obtain ⟨record, hmem, b, hb, rfl⟩ := haccounted.sample (.inl ho)
      have hreached := (hepoch hconsistency item hitem).trans_eq hsame
      exact ⟨record, hend.1.commits.subset hmem, hreached, b, hb, hokey⟩
    · exact ⟨record, hmem, hle, o, ho, hokey⟩

end QueryEngine

namespace TwoMetrics

open QueryEngine

def atLeastEpoch (key : DataKey) (epoch : ℕ) : QueryRequest :=
  { selection := [key], consistency := .atLeastEpoch, requiredEpoch := epoch, deadline := 10 }

/-- The outlet has no sample when the query starts, and is committed while it waits. -/
theorem atLeastEpoch_committed_outlet :
    ∃ f r, query (atLeastEpoch outlet 2) (committed [[sample 7 1 1]])
        [[.commit [sample 8 2 2]], [], []] = some f ∧
      f.result = some r ∧ isReadableStatus r.status = true ∧
      ∀ key ∈ [outlet], ∃ record ∈ f.final.log.commits,
        2 ≤ record.epoch ∧ ∃ o ∈ record.observations, o.key = key := by
  obtain ⟨f, r, hf, hr, hreadable, hsampled⟩ : ∃ f r,
      query (atLeastEpoch outlet 2) (committed [[sample 7 1 1]])
          [[.commit [sample 8 2 2]], [], []] = some f ∧
        f.result = some r ∧ isReadableStatus r.status = true ∧
        ∀ e ∈ f.events, isRead e = true → ∀ key ∈ [outlet], e.state.log.data.latest? key ≠ none :=
    exists_answer (by decide +kernel)
  have hruns := query_runs hf
  rw [hr] at hruns
  obtain ⟨now, u, hlast, hiff⟩ :=
    atLeastEpoch_committed (committed_reachable _) hruns rfl hreadable
  refine ⟨f, r, hf, hr, hreadable, hiff.mpr fun key hkey => .inl ?_⟩
  exact hsampled _ hlast.mem rfl key hkey

/-- The outlet was never sampled; its item carries the epoch of the inlet's batch. -/
theorem atLeastEpoch_never_committed :
    ∃ f r, query (atLeastEpoch outlet 1) (committed [[sample 7 1 1]]) [[], [], []] = some f ∧
      f.result = some r ∧ r.status.code = .partialResult ∧
      f.final.log.data.metricDescriptor outlet.metric ≠ none ∧
      ¬∃ record ∈ f.final.log.commits, 1 ≤ record.epoch ∧
        ∃ o ∈ record.observations, o.key = outlet := by
  apply exists_answer
  decide +kernel

end TwoMetrics

namespace QueryEngine

variable {keys : List DataKey} {e : Event host.interface} {result : Option DataReadResult}

/-! ### Waiting for the epoch -/

theorem freshStatus_neutral {gen : ℕ} {st : Status}
    (h : (engine.freshStatus request keys gen).Runs host.environment w τ st t) :
    ∀ e ∈ τ, Neutral e := by
  unfold freshStatus at h
  cases hrea : engine.freshReads with
  | none =>
    simp only [hrea] at h
    obtain ⟨rfl, -, -⟩ := runs_pure h
    simp
  | some freshRead =>
    simp only [hrea] at h
    obtain ⟨u, after, -, hre, rfl⟩ := runs_call h
    have haf : ∀ e ∈ after, Neutral e := by
      split_ifs at hre
      · obtain ⟨rfl, -, -⟩ := runs_pure hre
        simp
      · obtain ⟨σ, -, rfl⟩ := runs_ofReader hre
        simp [Neutral]
    simpa [Neutral] using haf

/-- No commit falls between a read and a question for the epoch after it. `read` is the
epoch that the last read found. -/
def Undisturbed (read : Option ℕ) : List (Event host.interface) → Prop
  | [] => True
  | e :: rest =>
    match e.call with
    | .readLatest _ _ _ _ => Undisturbed (some (host.data e.state).commitEpoch) rest
    | .commitEpoch => (∀ epoch ∈ read, (host.data e.state).commitEpoch = epoch) ∧
    Undisturbed read rest
    | _ => Undisturbed read rest

instance decidableUndisturbed : ∀ (read : Option ℕ) (τ : List (Event host.interface)),
    Decidable (Undisturbed read τ)
  | _, [] => inferInstanceAs (Decidable True)
  | read, e :: rest =>
    match e with
    | ⟨.readLatest _ _ _ _, u⟩ => decidableUndisturbed (some (host.data u).commitEpoch) rest
    | ⟨.commitEpoch, u⟩ =>
      have := decidableUndisturbed read rest
      inferInstanceAs (Decidable ((∀ epoch ∈ read, (host.data u).commitEpoch = epoch) ∧
        Undisturbed read rest))
    | ⟨.monotonicNow, _⟩ => decidableUndisturbed read rest
    | ⟨.waitForEpoch _ _, _⟩ => decidableUndisturbed read rest
    | ⟨.metricDescriptor _, _⟩ => decidableUndisturbed read rest
    | ⟨.reader _, _⟩ => decidableUndisturbed read rest

theorem Undisturbed.neutral_append {read : Option ℕ} {b after : List (Event host.interface)}
    (h : Undisturbed read (b ++ after)) (hne : ∀ e ∈ b, Neutral e) :
    Undisturbed read after := by
  induction b with
  | nil => exact h
  | cons e rest ih =>
    obtain ⟨c, u⟩ := e
    have he := hne ⟨c, u⟩ (by simp)
    have hre : ∀ e ∈ rest, Neutral e := fun e he => hne e (by simp [he])
    cases c with
    | monotonicNow => exact ih h hre
    | metricDescriptor mid => exact ih h hre
    | reader c => exact ih h hre
    | waitForEpoch epoch dl => cases he
    | commitEpoch => cases he
    | readLatest keys stale now need => cases he

/-- The wait timed out, and the store then had a requested key below the epoch. -/
def TimeoutDue (request : QueryRequest) (e : Event host.interface) : Prop :=
  ∀ epoch deadline, e.call = .waitForEpoch epoch deadline →
    (host.waited e.state epoch).code = .timeout →
    ∃ item ∈ (selected request e.state (host.now e.state)).items,
      item.commitEpoch < request.requiredEpoch

theorem timeoutDue_of_ne (h : ∀ epoch dl, e.call ≠ .waitForEpoch epoch dl) : TimeoutDue request e :=
  fun epoch dl hca => absurd hca (h epoch dl)

theorem Neutral.timeoutDue (h : Neutral e) : TimeoutDue request e := by
  apply timeoutDue_of_ne
  intro epoch dl hca
  simp [Neutral, hca] at h

/-- A store without a commit since the read still lacks what the read lacked. -/
theorem selected_again (hre : isReadableStatus (selected request v now).status = true)
    (hall : allItemsAtEpoch (selected request v now) request.requiredEpoch = false)
    (hla : host.Later v u) (hnow : now ≤ host.now v)
    (hgen : (host.data u).catalog.generation = (host.data v).catalog.generation)
    (hep : (host.data u).commitEpoch = (host.data v).commitEpoch) :
    ∃ item ∈ (selected request u (host.now u)).items, item.commitEpoch < request.requiredEpoch := by
  have hsh := hla.data.shards hgen hep
  have hcat := hla.data.catalog hgen
  have hrea := readLatest_readable (isReadableStatus_iff.mp hre)
  obtain ⟨items, heq, -, hfr, -⟩ := hrea.readLatest
  obtain ⟨items', heq', -, -, hev'⟩ :=
    (hrea.again hsh hcat hep (hnow.trans hla.2)).readLatest
  rw [selected, heq] at hall
  obtain ⟨item, hite, hbe⟩ := all_eq_false.mp hall
  obtain ⟨key, hkey, hit⟩ := hfr item hite
  obtain ⟨item', hag, hsa⟩ :=
    readItem_again hit hsh hcat hep (hnow.trans hla.2)
  obtain ⟨found, hfou, hfo⟩ := hev' key hkey
  rw [hag, Except.ok.injEq] at hfo
  subst hfo
  refine ⟨item', by rw [selected, heq']; exact hfou, ?_⟩
  rw [hsa]
  simpa using hbe

theorem timeout_iff {epoch : ℕ} :
    (host.waited u epoch).code = .timeout ↔ epoch ≠ 0 ∧ (host.data u).commitEpoch < epoch := by
  unfold QueryHost.waited
  split_ifs with hze hre
  · simp [hze]
  · simp [hre]
  · simp only [true_iff]
    omega

section TimeoutDue

variable (hla : host.Later v w) (hnow : now ≤ host.now v)
  (hcat : ∀ e ∈ τ, (host.data e.state).catalog.generation = (host.data v).catalog.generation)
  (hqu : Undisturbed (some (host.data v).commitEpoch) τ)
include hla hnow hcat hqu

/-- In the loop, each wait is for one epoch beyond the last read, so a wait that times out
saw no commit since. -/
theorem awaitEpoch_timeoutDue
    (h : (awaitEpoch request fuel (selected request v now)).Runs host.environment w τ result t)
    (hrea : isReadableStatus (selected request v now).status = true) :
    ∀ e ∈ τ, TimeoutDue request e := by
  induction fuel generalizing v w τ now with
  | zero =>
    obtain ⟨rfl, -, -⟩ := runs_pure h
    simp
  | succ fuel ih =>
    cases awaitEpoch_pass h with
    | reached => simp
    | @stopped asked _ hall has hwa hst =>
      have has' : (host.data asked).commitEpoch = (host.data v).commitEpoch :=
        hqu.1 _ rfl
      intro e he epoch dl hca hti
      simp only [mem_cons, not_mem_nil, or_false] at he
      rcases he with rfl | rfl
      · cases hca
      · cases hca
        obtain ⟨-, hbe⟩ := timeout_iff.mp hti
        have hwai := hla.trans (has.trans hwa)
        have hne : nextEpoch host asked ≤ (host.data asked).commitEpoch + 1 := Nat.mod_le _ _
        have hge := hwai.data.epoch
        have hgen := hcat ⟨.waitForEpoch (nextEpoch host asked) request.deadline, t⟩ (by simp)
        dsimp only at hbe ⊢
        exact selected_again hrea hall hwai hnow hgen (by omega)
    | @reread asked waited u t after rest snap' _ has hwa hst hread hne =>
      obtain ⟨clock, hcl, hend, rfl, rfl⟩ := readSelection_runs hread
      have hre : ∀ e ∈ rest, TimeoutDue request e := by
        rcases hne with ⟨-, rfl, -, -⟩ | ⟨hre', hre⟩
        · simp
        · have hgen := hcat (reading request (host.now clock) u) (by simp)
          refine ih (.refl u) hend.2 ?_ hqu.2 hre hre'
          intro e he
          rw [hcat e (by simp [he])]
          exact hgen.symm
      intro e he
      simp only [cons_append, mem_cons] at he
      rcases he with rfl | rfl | rfl | rfl | he
      · exact timeoutDue_of_ne (by rintro _ _ ⟨⟩)
      · intro epoch dl hca hti
        cases hca
        simp only [Status.ok, decide_eq_true_eq] at hst
        rw [hst] at hti
        cases hti
      · exact timeoutDue_of_ne (by rintro _ _ ⟨⟩)
      · exact timeoutDue_of_ne (by rintro _ _ ⟨⟩)
      · exact hre e he

theorem settle_timeoutDue
    (h : (settle request fuel (selected request v now)).Runs host.environment w τ result t) :
    ∀ e ∈ τ, TimeoutDue request e := by
  unfold settle at h
  split_ifs at h with hep
  · exact awaitEpoch_timeoutDue hla hnow hcat hqu h hep.2
  · obtain ⟨rfl, -, -⟩ := runs_pure h
    simp

end TimeoutDue

theorem refresh_timeoutDue {clock first x y : host.World} {τ₂ τ₃ : List (Event host.interface)}
    {fresh : DataReadResult × Status} {setl : Option DataReadResult}
    (hla : host.Later first x) (hnow : host.now clock ≤ host.now first)
    (hre : (engine.refresh request (selected request first (host.now clock)) keys).Runs
      host.environment x τ₂ fresh y)
    (hse : (settle request fuel fresh.1).Runs host.environment y τ₃ setl t)
    (hcat : ∀ e ∈ τ₂ ++ τ₃,
      (host.data e.state).catalog.generation = (host.data first).catalog.generation)
    (hun : Undisturbed (some (host.data first).commitEpoch) (τ₂ ++ τ₃)) :
    ∀ e ∈ τ₂ ++ τ₃, TimeoutDue request e := by
  rcases refresh_runs hre with
    ⟨-, rfl, rfl, rfl⟩ | ⟨-, z, b, after, hfr, hrea, rfl⟩
  · exact settle_timeoutDue hla hnow hcat hun hse
  · -- the loop starts from what the second read saw
    obtain ⟨clock', -, hend, rfl, hsa⟩ := readSelection_runs hrea
    have hqu := freshStatus_neutral hfr
    rw [hsa] at hse
    rw [append_assoc] at hun hcat ⊢
    have hres := Undisturbed.neutral_append hun hqu
    have hgen := hcat (reading request (host.now clock') y) (by simp)
    have hdue : ∀ e ∈ τ₃, TimeoutDue request e := by
      refine settle_timeoutDue (.refl y) hend.2 ?_ hres hse
      intro e he
      rw [hcat e (by simp [he])]
      exact hgen.symm
    intro e he
    simp only [cons_append, nil_append, mem_append, mem_cons] at he
    rcases he with he | rfl | rfl | he
    · exact (hqu e he).timeoutDue
    · exact timeoutDue_of_ne (by rintro _ _ ⟨⟩)
    · exact timeoutDue_of_ne (by rintro _ _ ⟨⟩)
    · exact hdue e he

/-- A wait after the first read that times out is due, if the catalog stays and no commit
falls between a read and the question for the epoch that follows it. -/
theorem execute_timeout_due {result : Option QueryResult}
    (hrun : (engine.execute request fuel).Runs host.environment w τ result t)
    (hcatalog : ∀ e ∈ τ, (host.data e.state).catalog.generation = (host.data w).catalog.generation)
    (hundisturbed : Undisturbed none τ) :
    ∀ e ∈ τ.dropWhile fun e => !isRead e, ∀ epoch deadline,
      e.call = .waitForEpoch epoch deadline → (host.waited e.state epoch).code = .timeout →
      ∃ item ∈ (selected request e.state (host.now e.state)).items,
        item.commitEpoch < request.requiredEpoch := by
  rcases execute_run hrun with ⟨hnone, -⟩ | ⟨u, waits, rest, -, rfl, hwaits, hanswer⟩
  · rw [dropWhile_eq_nil_iff.mpr fun e he => by simp [hnone e he]]
    simp
  have hskip : (waits ++ rest).dropWhile (fun e => !isRead e) =
      rest.dropWhile fun e => !isRead e := by
    rcases hwaits with rfl | rfl <;> rfl
  have hundisturbed' : Undisturbed none rest := by
    rcases hwaits with rfl | rfl
    · exact hundisturbed
    · exact hundisturbed
  rw [hskip]
  cases hanswer with
  | unreadable =>
    intro e he
    obtain rfl := mem_singleton.mp he
    exact timeoutDue_of_ne (by rintro _ _ ⟨⟩)
  | @phases clock first x y _ τ₁ τ₂ τ₃ keys refreshed settled hclock hfirst hstatus hkeys hrefresh
      hsettle =>
    have hneutral := keysNeedingFreshRead_neutral hkeys
    have hafter : Undisturbed (some (host.data first).commitEpoch) (τ₂ ++ τ₃) :=
      .neutral_append hundisturbed' hneutral
    have hgeneration : ∀ e ∈ τ₂ ++ τ₃, (host.data e.state).catalog.generation =
        (host.data first).catalog.generation := by
      intro e he
      rw [hcatalog e (by simp at he ⊢; tauto)]
      exact (hcatalog (reading request (host.now clock) first) (by simp)).symm
    intro e he
    have he' : e ∈ reading request (host.now clock) first :: (τ₁ ++ (τ₂ ++ τ₃)) := he
    rcases mem_cons.mp he' with rfl | he'
    · exact timeoutDue_of_ne (by rintro _ _ ⟨⟩)
    · rcases mem_append.mp he' with he' | he'
      · exact (hneutral e he').timeoutDue
      · exact refresh_timeoutDue (runs_later hkeys).1 hfirst.2 hrefresh hsettle hgeneration hafter e
          he'

end QueryEngine

namespace TwoMetrics

open QueryEngine

/-- The inlet at epoch 1, the outlet at epoch 2. -/
def apart : StoreWorld limits := committed [[sample 7 1 1], [sample 8 2 2]]

/-- A wait that timed out. -/
def timedOut (e : Event (StoreWorld.host limits).interface) : Bool :=
  match e.call with
  | .waitForEpoch epoch _ =>
    decide (((StoreWorld.host limits).waited e.state epoch).code = .timeout)
  | _ => false

theorem wait_of_timedOut {e : Event (StoreWorld.host limits).interface} (h : timedOut e = true) :
    ∃ epoch dl, e.call = .waitForEpoch epoch dl ∧
      ((StoreWorld.host limits).waited e.state epoch).code = .timeout := by
  obtain ⟨c, u⟩ := e
  cases c with
  | waitForEpoch epoch dl => exact ⟨epoch, dl, rfl, of_decide_eq_true h⟩
  | _ => cases h

/-- The query for the inlet at epoch 2 waits until its deadline for epoch 3. -/
theorem execute_timeout_due_waiting :
    ∃ f, query (atLeastEpoch inlet 2) apart [[], [], [], [], [.tick 10]] = some f ∧
      ∃ e ∈ f.events.dropWhile fun e => !isRead e, timedOut e = true ∧
        ∃ item ∈ (selected (atLeastEpoch inlet 2) e.state e.state.now).items,
          item.commitEpoch < 2 := by
  obtain ⟨f, hf, ⟨e, he, htimeout⟩, hcatalog, hundisturbed⟩ :
      ∃ f ∈ query (atLeastEpoch inlet 2) apart [[], [], [], [], [.tick 10]],
        (∃ e ∈ f.events.dropWhile fun e => !isRead e, timedOut e = true) ∧
        (∀ e ∈ f.events, e.state.log.data.catalog.generation =
          apart.log.data.catalog.generation) ∧ Undisturbed none f.events := by
    decide +kernel
  obtain ⟨epoch, deadline, hcall, hcode⟩ := wait_of_timedOut htimeout
  exact ⟨f, hf, e, he, htimeout,
    execute_timeout_due (query_runs hf) hcatalog hundisturbed e he epoch deadline hcall hcode⟩

/-- The inlet is committed at epoch 3 just before the query asks for the epoch: it waits
for epoch 4 and times out with the inlet at epoch 3. -/
theorem execute_timeout_missed :
    ∃ f, query (atLeastEpoch inlet 2) apart
        [[], [], [], [.commit [sample 7 3 3]], [.tick 10]] = some f ∧
      ∃ e ∈ f.events.dropWhile fun e => !isRead e, ∃ epoch deadline,
        e.call = .waitForEpoch epoch deadline ∧
        ((StoreWorld.host limits).waited e.state epoch).code = .timeout ∧
        (selected (atLeastEpoch inlet 2) e.state e.state.now).status.code = .success ∧
        ¬∃ item ∈ (selected (atLeastEpoch inlet 2) e.state e.state.now).items,
          item.commitEpoch < 2 := by
  obtain ⟨f, hf, e, he, htimeout, hnone⟩ :
      ∃ f ∈ query (atLeastEpoch inlet 2) apart [[], [], [], [.commit [sample 7 3 3]], [.tick 10]],
        ∃ e ∈ f.events.dropWhile fun e => !isRead e, timedOut e = true ∧
          (selected (atLeastEpoch inlet 2) e.state e.state.now).status.code = .success ∧
          ¬∃ item ∈ (selected (atLeastEpoch inlet 2) e.state e.state.now).items,
            item.commitEpoch < 2 := by
    decide +kernel
  obtain ⟨epoch, deadline, hcall, hcode⟩ := wait_of_timedOut htimeout
  exact ⟨f, hf, e, he, epoch, deadline, hcall, hcode, hnone⟩

end TwoMetrics
end Pdcm
