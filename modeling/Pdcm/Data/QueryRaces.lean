import Pdcm.Data.ReadSpecification

/-!
# Queries that commits overtake

A query reads the clock and then the store. Other threads may commit in between, with
samples that they stamped from the same clock after the query has read it. If the last
valid sample of a key is of that kind and a failure was committed behind it, a stale read
of the key is refused as if the caller's clock had gone back. Apart from that a valid query
is never answered with INVALID_ARGUMENT.
-/

namespace Pdcm

open Library DataManager QueryHost List StoreWorld Option

namespace DataManager

variable {L : Limits}

/-- A stale read of the key at time `now` would present a sample of a later time. -/
def Overtaken (s : DataManager L) (now : ℤ) (key : DataKey) : Prop :=
  (∃ o, s.latest? key = some o ∧ o.status ≠ .valid) ∧
    ∃ v, s.lastValid? key = some v ∧ now < v.observedMonotonicTimeNs

theorem readLatest_invalid {s : DataManager L} {keys : List DataKey} {stale : Bool} {now : ℤ}
    {need : ℕ}
    (h : (s.readLatest keys stale now need).status.code = .invalidArgument) :
    keys = [] ∨ L.maxQueryItems < keys.length ∨ now < 0 ∨ ¬keys.Nodup ∨
      stale = true ∧ ∃ key ∈ keys, s.Overtaken now key := by
  by_cases har : keys = [] ∨ L.maxQueryItems < keys.length ∨ now < 0
  · tauto
  by_cases hdi : (keys.insertionSort (· ≤ ·)).Nodup
  · unfold readLatest at h
    rcases mapM_cases (s.readItem stale now) (keys.insertionSort (· ≤ ·)) with
      ⟨items, hit, -⟩ | ⟨st, hst, key, hkey, her⟩
    · simp only [hit] at h
      split_ifs at h
      cases h
    · simp only [hst] at h
      rw [mem_insertionSort] at hkey
      split_ifs at h
      cases readItem_error her with
      | backward he ho hv hfa hal hti =>
        have hla : ∃ o, s.latest? key = some o ∧ o.status ≠ .valid :=
          ⟨_, by rw [latest?, he]; exact ho, hfa⟩
        have hlas : ∃ v, s.lastValid? key = some v ∧ now < v.observedMonotonicTimeNs :=
          ⟨_, by rw [lastValid?, he]; exact hv, hti⟩
        exact Or.inr (.inr (.inr (.inr ⟨hal, key, hkey, hla, hlas⟩)))
      | _ => cases h
  · rw [(perm_insertionSort _ keys).nodup_iff] at hdi
    tauto

end DataManager

namespace QueryRequest

/-- `finalize` has no such status of its own. -/
theorem finalize_invalid {request : QueryRequest} {snapshot : DataReadResult}
    {fst : Status}
    (h : (request.finalize snapshot fst).status.code = .invalidArgument) :
    snapshot.status.code = .invalidArgument ∨ fst.code = .invalidArgument := by
  by_cases hre : isReadableStatus snapshot.status = true
  · by_cases hba : request.consistency = .sameBatch ∧ ¬sameEpoch snapshot.items
    · simp only [finalize, hre, hba] at h
      cases h
    · cases hsum : sumBytes 0 snapshot.items with
      | error need =>
        simp only [finalize, hre, hba, hsum, ↓reduceIte] at h
        cases h
      | ok need =>
        simp only [finalize, hsum] at h
        split_ifs at h
        · exact .inr h
        · exact .inl h
  · simp only [finalize, hre] at h
    exact .inl h

end QueryRequest

namespace QueryHost

variable {L : Limits} (host : QueryHost L)

/-- Every committed sample was stamped from the clock of the process. -/
def Stamped (w : host.World) : Prop :=
  ∀ record ∈ (host.store w).commits, ∀ o ∈ record.observations,
    o.observedMonotonicTimeNs ≤ host.now w

variable {host}

/-- The query reads the clock in one state and, as its next call, the store in another. -/
def ClockedRead (request : QueryRequest) (τ : List (Event host.interface))
    (clock u : host.World) : Prop :=
  [⟨.monotonicNow, clock⟩, reading request (host.now clock) u] <:+: τ

end QueryHost

namespace QueryEngine

variable {L : Limits} {host : QueryHost L} {engine : QueryEngine host} {request : QueryRequest}
  {w t : host.World} {τ : List (Event host.interface)} {fuel : ℕ} {snapshot : DataReadResult}
  {result : DataReadResult} {keys : List DataKey}

/-! ### Where the status comes from -/

/-- What can bring INVALID_ARGUMENT into a run: a read, or a wait for the epoch after the
last one. -/
inductive Blamed (request : QueryRequest) (τ : List (Event host.interface)) : Prop
  | read {clock u : host.World} (hread : ClockedRead request τ clock u)
      (hinvalid : (selected request u (host.now clock)).status.code = .invalidArgument)
  | wrapped {e : Event host.interface} (he : e ∈ τ)
      (hepoch : uint64Max ≤ (host.data e.state).commitEpoch)

theorem Blamed.mono {τ' : List (Event host.interface)} (h : Blamed request τ) (hsub : τ <:+: τ') :
    Blamed request τ' := by
  cases h with
  | read hre hbad => exact .read (hre.trans hsub) hbad
  | wrapped he hep => exact .wrapped (hsub.subset he) hep

theorem readSelection_blamed (h : (readSelection request).Runs host.environment w τ snapshot t)
    (hbad : snapshot.status.code = .invalidArgument) : Blamed request τ := by
  obtain ⟨clock, -, -, rfl, rfl⟩ := readSelection_runs h
  exact .read infix_rfl hbad

theorem nextEpoch_wrapped {asked waited : host.World}
    (h : (host.waited waited (nextEpoch host asked)).code = .invalidArgument) :
    uint64Max ≤ (host.data asked).commitEpoch := by
  by_contra hbelow
  have hne : nextEpoch host asked ≠ 0 := by
    unfold nextEpoch
    rw [Nat.mod_eq_of_lt (by unfold uint64Max at hbelow; omega)]
    exact Nat.succ_ne_zero _
  unfold QueryHost.waited at h
  rw [if_neg hne] at h
  split_ifs at h
  cases h

theorem awaitEpoch_blamed
    (h : (awaitEpoch request fuel snapshot).Runs host.environment w τ (some result) t)
    (hbad : result.status.code = .invalidArgument) :
    snapshot.status.code = .invalidArgument ∨ Blamed request τ := by
  induction fuel generalizing snapshot w τ with
  | zero => cases h
  | succ fuel ih =>
    generalize hre : some result = out at h
    cases awaitEpoch_pass h with
    | reached =>
      obtain rfl := some.inj hre
      exact .inl hbad
    | stopped =>
      obtain rfl := some.inj hre
      exact .inr (.wrapped mem_cons_self (nextEpoch_wrapped hbad))
    | @reread _ _ _ _ after rest snap' _ _ _ _ hrea hne =>
      subst hre
      refine .inr ?_
      have hbl : Blamed request after ∨ Blamed request rest := by
        rcases hne with ⟨-, -, hsa, -⟩ | ⟨-, hres⟩
        · obtain rfl := some.inj hsa
          exact .inl (readSelection_blamed hrea hbad)
        · exact (ih hres).imp_left (readSelection_blamed hrea)
      rcases hbl with hbl | hbl
      · exact hbl.mono (infix_cons (infix_cons (prefix_append _ _).isInfix))
      · exact hbl.mono (infix_cons (infix_cons (suffix_append _ _).isInfix))

theorem settle_blamed (h : (settle request fuel snapshot).Runs host.environment w τ (some result) t)
    (hbad : result.status.code = .invalidArgument) :
    snapshot.status.code = .invalidArgument ∨ Blamed request τ := by
  unfold settle at h
  split_ifs at h
  · exact awaitEpoch_blamed h hbad
  · obtain ⟨-, hsa, -⟩ := Program.runs_pure h
    obtain rfl := some.inj hsa
    exact .inl hbad

/-! ### Queries without a fresh read -/

/-- The policy rules out a fresh read, or no call of the fresh reader was made; a fresh read
makes at least one. -/
def WithoutFreshRead (engine : QueryEngine host) (request : QueryRequest)
    (τ : List (Event host.interface)) : Prop :=
  request.readPolicy = .cacheOnly ∨
    (∀ freshRead ∈ engine.freshReads, ∀ keys generation deadline status,
      freshRead keys generation deadline ≠ .done status) ∧
    ∀ e ∈ τ, ∀ c, e.call ≠ .reader c

theorem freshStatus_unread {gen : ℕ} {st : Status}
    (h : (engine.freshStatus request keys gen).Runs host.environment w τ st t)
    (hca : ∀ freshRead ∈ engine.freshReads, ∀ keys gen dl st,
      freshRead keys gen dl ≠ .done st) (hno : ∀ e ∈ τ, ∀ c, e.call ≠ .reader c) :
    st.code ≠ .invalidArgument := by
  unfold freshStatus at h
  cases hfr : engine.freshReads with
  | none =>
    simp only [hfr] at h
    obtain ⟨-, rfl, -⟩ := Program.runs_pure h
    simp
  | some freshRead =>
    simp only [hfr] at h
    obtain ⟨clock, after, -, hre, rfl⟩ := runs_call h
    split_ifs at hre
    · obtain ⟨-, rfl, -⟩ := Program.runs_pure hre
      simp
    · obtain ⟨σ, hσ, rfl⟩ := runs_ofReader hre
      -- the reader would have made a call
      generalize hpr : freshRead keys gen request.deadline = prog at hσ
      cases hσ with
      | done => exact absurd hpr (hca freshRead hfr _ _ _ _)
      | call rest =>
        have hfi := hno _ (mem_cons_of_mem _ mem_cons_self)
        exact absurd rfl (hfi _)

theorem refresh_blamed {fresh : DataReadResult × Status}
    (h : (engine.refresh request snapshot keys).Runs host.environment w τ fresh t)
    (hke : request.readPolicy = .cacheOnly → keys = [])
    (hfr : WithoutFreshRead engine request τ) :
    fresh.2.code ≠ .invalidArgument ∧
      (fresh.1 = snapshot ∨ (fresh.1.status.code = .invalidArgument → Blamed request τ)) := by
  rcases refresh_runs h with ⟨-, -, rfl, -⟩ | ⟨hne, u, b, after, hst, hre, rfl⟩
  · exact ⟨by simp [Status.success], .inl rfl⟩
  · rcases hfr with hpo | ⟨hca, hno⟩
    · exact absurd (hke hpo) hne
    · refine ⟨freshStatus_unread hst hca fun e he => hno e (by simp [he]), .inr ?_⟩
      intro hbad
      exact (readSelection_blamed hre hbad).mono (suffix_append _ _).isInfix

/-- A valid query that is answered with INVALID_ARGUMENT got the status from a read or from
a wait. -/
theorem execute_blamed {r : QueryResult}
    (h : (engine.execute request fuel).Runs host.environment w τ (some r) t)
    (hva : (request.validate engine.limits engine.hasClock).ok = true)
    (hfr : WithoutFreshRead engine request τ)
    (hbad : r.status.code = .invalidArgument) : Blamed request τ := by
  rcases execute_run h with ⟨-, st, hr, -, hti⟩ | ⟨u, waits, rest, -, rfl, -, han⟩
  · obtain rfl := some.inj hr
    rw [hti hva] at hbad
    cases hbad
  · refine .mono ?_ (suffix_append waits rest).isInfix
    cases han with
    | unreadable _ _ hst hre =>
      obtain rfl := some.inj hre
      rcases QueryRequest.finalize_invalid hbad with hrea | hsu
      · exact .read infix_rfl hrea
      · cases hsu
    | @phases clock first _ _ _ τ₁ τ₂ τ₃ keys fresh _ _ _ hst hke hrefr hset hre =>
      obtain ⟨snapshot, rfl, rfl⟩ := map_eq_some_iff.mp hre
      have hnok : request.readPolicy = .cacheOnly → keys = [] := by
        intro hpo
        unfold keysNeedingFreshRead at hke
        rw [if_pos hpo] at hke
        exact (Program.runs_pure hke).2.1
      have hun : WithoutFreshRead engine request τ₂ :=
        hfr.imp_right fun hno => ⟨hno.1, fun e he => hno.2 e (by simp [he])⟩
      obtain ⟨hst', href⟩ := refresh_blamed hrefr hnok hun
      have hph : τ₂ ++ τ₃ <:+: τ₁ ++ (τ₂ ++ τ₃) := (suffix_append _ _).isInfix
      have hse := (prefix_append τ₂ τ₃).isInfix.trans hph
      have hla := (suffix_append τ₂ τ₃).isInfix.trans hph
      have hsn := (QueryRequest.finalize_invalid hbad).resolve_right hst'
      rcases settle_blamed hset hsn with hfi | hbl
      · rcases href with hsa | hbl
        · rw [hsa] at hfi
          rcases isReadableStatus_iff.mp hst with hco | hco <;>
            rw [hco] at hfi <;> cases hfi
        · exact (hbl hfi).mono (infix_cons (infix_cons hse))
      · exact hbl.mono (infix_cons (infix_cons hla))

/-! ### Valid queries -/

/-- A valid query without a fresh read is not answered with INVALID_ARGUMENT, if other
threads stamp their samples from the clock of the query and none of them renews, between a
clock reading of the query and the read that follows it, the last valid sample of a
requested key whose latest sample is a failure. -/
theorem execute_unblamed {r : QueryResult} (hreachable : (host.store w).Reachable)
    (hrun : (engine.execute request fuel).Runs host.environment w τ (some r) t)
    (hvalid : (request.validate engine.limits engine.hasClock).ok = true)
    (hfresh : WithoutFreshRead engine request τ)
    (hitems : engine.limits.maxItems ≤ L.maxQueryItems) (hclock : 0 ≤ host.now w)
    (hepochs : ∀ e ∈ τ, (host.data e.state).commitEpoch < uint64Max)
    (hstamped : ∀ e ∈ τ, host.Stamped e.state)
    (hunraced : request.allowStale = true → ∀ clock u, ClockedRead request τ clock u →
      ∀ key ∈ request.selection, (∃ o, (host.data u).latest? key = some o ∧ o.status ≠ .valid) →
        (host.data u).lastValid? key = (host.data clock).lastValid? key) :
    r.status.code ≠ .invalidArgument := by
  intro hinvalid
  obtain ⟨hsome, hlength, hdistinct, -⟩ := request.validate_ok hvalid
  cases execute_blamed hrun hvalid hfresh hinvalid with
  | wrapped he hepoch => exact absurd (hepochs _ he) hepoch.not_gt
  | @read clock u hread hcode =>
    have hmem : ⟨.monotonicNow, clock⟩ ∈ τ := hread.subset mem_cons_self
    have hlater := ((runs_later hrun).2 _ hmem).1
    rcases readLatest_invalid hcode with h | h | h | h |
    ⟨hallowed, key, hkey, hlatest, v, hv, htime⟩
    · exact hsome h
    · exact absurd (hlength.trans hitems) h.not_ge
    · exact absurd (hclock.trans hlater.2) h.not_ge
    · exact h hdistinct
    · -- the sample was there when the clock was read
      rw [hunraced hallowed clock u hread key hkey hlatest] at hv
      have haccounted := hlater.1.accounted hreachable.accounted
      obtain ⟨e, he, hvalid⟩ := bind_eq_some_iff.mp hv
      obtain ⟨rec, hrec, b, hb, rfl⟩ := haccounted.samples key e v he (.inr hvalid)
      exact absurd (hstamped _ hmem rec hrec b hb) htime.not_ge

end QueryEngine

namespace TwoMetrics

instance (w : (host limits).World) : Decidable ((host limits).Stamped w) :=
  inferInstanceAs (Decidable (∀ record ∈ w.log.commits, ∀ o ∈ record.observations, _))

/-- The inlet was read at time 5. -/
def inletRead : StoreWorld limits :=
  .after limits [.activateCatalog (some view) target, .tick 5, .commit [sample 7 20 5]]

/-- The inlet is read once more, and then cannot be read. -/
def inletReadAndLost : List StoreInput :=
  [.tick 1, .commit [sample 7 21 6], .tick 1, .commit [failure 7 7]]

def staleInlet : QueryRequest := { selection := [inlet], allowStale := true }

/-- The commits come before the query reads the clock. -/
theorem execute_unblamed_inletReadAndLost :
    ∃ f r, query staleInlet inletRead [inletReadAndLost, []] = some f ∧ f.result = some r ∧
      r.items.map (fun o => (o.status, o.staleAgeNs)) = [(.stale, some 1)] ∧
      r.status.code ≠ .invalidArgument := by
  obtain ⟨f, r, hf, hr, hitems, hevents⟩ : ∃ f r,
      query staleInlet inletRead [inletReadAndLost, []] = some f ∧ f.result = some r ∧
        r.items.map (fun o => (o.status, o.staleAgeNs)) = [(.stale, some 1)] ∧
        ∀ e ∈ f.events, ((host limits).data e.state).commitEpoch < uint64Max ∧
          (host limits).Stamped e.state ∧
          ((host limits).data e.state).lastValid? inlet = some ((sample 7 21 6).stamped 2) :=
    Program.exists_answer (by decide +kernel)
  have hruns := query_runs hf
  rw [hr] at hruns
  refine ⟨f, r, hf, hr, hitems, QueryEngine.execute_unblamed
    (after_reachable _) hruns (by decide) (.inl rfl) (by decide) (by decide +kernel)
    (fun e he => (hevents e he).1) (fun e he => (hevents e he).2.1) ?_⟩
  intro _ clock u hread key hkey _
  obtain rfl := mem_singleton.mp hkey
  have hclock := (hevents _ (hread.subset mem_cons_self)).2.2
  have hu := (hevents _ (hread.subset (mem_cons_of_mem _ mem_cons_self))).2.2
  exact hu.trans hclock.symm

/-- The commits come between the clock reading and the read, all stamped from the clock. -/
theorem stale_query_blamed :
    (staleInlet.validate engine.limits engine.hasClock).ok = true ∧
      ∃ f, query staleInlet inletRead [[], inletReadAndLost] = some f ∧
        (∀ e ∈ f.events, (host limits).Stamped e.state) ∧
        f.result.map QueryResult.status = some ⟨.invalidArgument, "query time moved backward"⟩ := by
  refine ⟨by decide, ?_⟩
  change ∃ f ∈ query staleInlet inletRead [[], inletReadAndLost], _
  decide +kernel

end TwoMetrics
end Pdcm
