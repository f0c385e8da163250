import Pdcm.Collection.Collector
import Pdcm.Data.QueryConsistency
import Pdcm.Data.QueryFreshness

/-!
# Fresh reads of a query

A query that wants fresh data gets, for every key it asks the coordinator for, what its
fresh read committed, if the provider's answer is one that normalization takes as it is.
An item that normalization drops only turns the status of the fresh read into a partial
result, and `finalize` lets that pass: the query then returns the old sample as a success.
-/

namespace Pdcm

open Library DataManager QueryHost List Program QueryEngine Collector

namespace Collector

variable {L : Limits} {w t : Collector L} {τ : List (Event (host L).interface)}
  {keys : List DataKey} {generation : ℕ} {status : Status} {σ : List (Event (reader L))}
  {limits : QueryLimits} {request : QueryRequest} {key : DataKey}

/-- A query engine with the coordinator as fresh reader. -/
def queryEngine (L : Limits) (limits : QueryLimits) (hasClock : Bool) : QueryEngine (host L) where
  limits := limits
  hasClock := hasClock
  freshReads := some freshRead

def offered (c : QueryCall FreshReadCall) (w : Collector L) : Option ℕ :=
  match c with
  | .reader (.offer keys catalogGeneration deadline now) =>
    (w.coordinator.freshReadLocked keys catalogGeneration deadline now w.now).outcome.toOption
  | _ => none

/-- The request ids of the tasks that the fresh read of the query waits for. -/
def awaited (τ : List (Event (host L).interface)) : List ℕ :=
  τ.filterMap fun e => offered e.call e.state

theorem runs_keeps {α : Type} {p : (host L).Query α} {a : α}
    (h : p.Runs (host L).environment w τ a t) :
    w.Keeps t ∧ ∀ e ∈ τ, w.Keeps e.state ∧ Keeps e.state t := by
  apply h.relation .refl (fun _ _ _ => .trans) step_keeps
  intro c u
  cases c with
  | reader c => exact exec_keeps c u
  | _ => exact .refl u

/-! ### The wait for a task -/

/-- A waiter that gets a status with data waited for a task that the worker finished with
this status. -/
theorem completed_of_await {id : ℕ} {sig : FreshSignature} (hw : w.Consistent)
    (haw : w.Awaits id sig) {dl : ℤ}
    (hre : isReadableStatus (exec (.await id dl) w).2 = true) :
    w.Completed id sig (exec (.await id dl) w).2 := by
  simp only [exec] at hre ⊢
  cases hfi : w.runtime.completions.find? id with
  | none =>
    rw [hfi] at hre
    cases hre
  | some status =>
    rw [hfi] at hre
    rcases haw with ⟨task, hta, hid, -⟩ | ⟨st', hfi', hdo⟩
    · exact absurd hid ((hw.registered.completed id status hfi).2 task hta)
    · rw [hfi, Option.some.injEq] at hfi'
      subst hfi'
      exact hdo hre

theorem runs_readerCall {β : Type} {c : FreshReadCall} {f : c.Answer → Program (reader L) β} {b : β}
    (h : (readerCall c >>= f).Runs (host L).readerEnvironment w σ b t) :
    ∃ u after, w.Keeps u ∧
      (f (exec c u).2).Runs (host L).readerEnvironment (exec c u).1 after b t ∧
      σ = ⟨c, u⟩ :: after := by
  obtain ⟨rest, after, -, hre, rfl⟩ := runs_request_bind h
  have hkeeps := relation_run Keeps.refl (fun _ _ _ => .trans) step_keeps w rest
  exact ⟨_, after, hkeeps, hre, rfl⟩

theorem freshRead_completed {dl : ℤ}
    (h : (freshRead keys generation dl).Runs (host L).readerEnvironment w σ status t)
    (hw : w.Consistent) (hrea : isReadableStatus status = true) :
    ∃ id waiting, (∃ e ∈ σ, offered (.reader e.call) e.state = some id) ∧
      (∃ e ∈ σ, e.state = waiting) ∧
      waiting.Completed id ⟨generation, keys.insertionSort (· ≤ ·)⟩ status := by
  obtain ⟨clock, _, hcl, hoffe, rfl⟩ := runs_readerCall h
  obtain ⟨offering, _, hoff, hre, rfl⟩ := runs_readerCall hoffe
  have hco := hoff.consistent (hcl.consistent hw)
  have hreg : offering.coordinator.Registered :=
    offering.runtime_moves.registered hco.registered
  have hwai := Coordinator.freshReadLocked_waits hreg keys generation dl clock.now offering.now
  have hof := exec_keeps (.offer keys generation dl clock.now) offering
  simp only [exec] at hre hof
  cases hout : (offering.coordinator.freshReadLocked keys generation dl clock.now
      offering.now).outcome with
  | error refused =>
    simp only [hout] at hre
    obtain ⟨-, rfl, -⟩ := runs_pure hre
    rw [hwai.error _ hout] at hrea
    cases hrea
  | ok id =>
    simp only [hout] at hre
    obtain ⟨waiting, _, hwa, hlea, rfl⟩ := runs_readerCall hre
    obtain ⟨leaving, _, -, hret, rfl⟩ := runs_readerCall hlea
    obtain ⟨-, rfl, -⟩ := runs_pure hret
    have hle := hof.consistent hco
    refine ⟨id, waiting, ⟨⟨.offer keys generation dl clock.now, offering⟩, ?_, ?_⟩,
      ⟨⟨.await id dl, waiting⟩, ?_, rfl⟩, ?_⟩
    · exact mem_cons_of_mem _ (mem_cons_self ..)
    · exact congrArg Except.toOption hout
    · exact mem_cons_of_mem _ (mem_cons_of_mem _ (mem_cons_self ..))
    · apply completed_of_await (hwa.consistent hle) _ hrea
      exact hwa.awaits hle id _ (.inl (hwai.task id hout))

theorem freshStatus_completed {hasClock : Bool}
    (h : ((queryEngine L limits hasClock).freshStatus request keys generation).Runs
      (host L).environment w τ status t) (hw : w.Consistent)
    (hre : isReadableStatus status = true) :
    ∃ id ∈ awaited τ, ∃ waiting : Collector L, (∃ e ∈ τ, e.state = waiting) ∧
      waiting.Completed id ⟨generation, keys.insertionSort (· ≤ ·)⟩ status := by
  have hke := (runs_keeps h).2
  obtain ⟨clock, after, -, hres, rfl⟩ := runs_call h
  split_ifs at hres with hde
  · obtain ⟨-, rfl, -⟩ := runs_pure hres
    cases hre
  · have hcl : Consistent clock := (hke _ (mem_cons_self ..)).1.consistent hw
    obtain ⟨σ, hrea, rfl⟩ := runs_ofReader hres
    obtain ⟨id, waiting, ⟨e, he, hid⟩, ⟨e', he', hwa⟩, hco⟩ :=
      freshRead_completed hrea hcl hre
    refine ⟨id, ?_, waiting, ⟨⟨.reader e'.call, e'.state⟩, ?_, hwa⟩, hco⟩
    · apply mem_filterMap.mpr
      exact ⟨⟨.reader e.call, e.state⟩, mem_cons_of_mem _ (mem_map.mpr ⟨e, he, rfl⟩), hid⟩
    · exact mem_cons_of_mem _ (mem_map.mpr ⟨e', he', rfl⟩)

/-- A task that was finished with data has committed a sample of every key it was asked
for, if the provider's answer was regular and the catalog is still the one it was read
under. -/
theorem Completed.covered {id : ℕ} (hcom : w.Completed id ⟨generation, keys⟩ status)
    (hw : w.Consistent) (hrea : isReadableStatus status = true) {log : CommitLog L}
    (hlog : w.log.Evolves log) (hgen : log.data.catalog.generation = generation)
    (hreg : ∀ run ∈ w.runs, run.task.id = id →
      run.read.Regular log.data.metricDescriptor) (hkey : key ∈ keys)
    (hkn : log.data.metricDescriptor key.metric ≠ none) :
    ∃ own ∈ log.commits, own.requestId = id ∧
      ∃ o, log.data.latest? key = some o ∧ own.epoch ≤ o.commitEpoch := by
  obtain ⟨run, hrun, hid, hans, hst⟩ := hcom
  obtain ⟨limits, att, τ, hre, htr⟩ := hw.finished run hrun
  obtain ⟨checked, lookups, comm, published, obs, rfl, hco⟩ :=
    FinishedRead.normalizeAndCommit_run hre (hst ▸ hrea) hans.kind
  obtain ⟨viol, hno⟩ := hco.normalized
  -- every lookup was made under the catalog the run started with
  have hlo : FinishedRead.LooksUp log.data.metricDescriptor lookups := by
    intro mid p hp
    have hmem : (⟨.metricDescriptor mid, p⟩ : Event (DataPlane.interface L)) ∈
        lookups ++ ⟨.commit obs, comm⟩ :: published := mem_append_left _ hp
    have haf := (pairwise_cons.mp htr.ordered).1 _ hmem
    have hpa := (htr.past _ (mem_cons_of_mem _ hmem)).trans hlog.later
    have hpl := hco.plan.trans hans.plan
    have hsa : log.data.catalog.generation = p.data.catalog.generation := by
      have := haf.generation
      have := hpa.generation
      dsimp only at *
      omega
    rw [hpa.metricDescriptor hsa]
  have hreq : (⟨key.entity, .metric, key.metric⟩ : ProviderReadItem) ∈
      run.read.request.items := by
    change _ ∈ run.task.request.items
    rw [hans.items]
    exact mem_map_of_mem hkey
  obtain ⟨b, hb, hbk⟩ :=
    (hreg run hrun hid).normalizeItems hno hlo hreq hkn
  obtain ⟨own, hown, how, hobs⟩ := htr.logged comm obs (by simp) hco.accepted
  have hmem := hlog.commits.subset hown
  refine ⟨own, hmem, how.trans hid, ?_⟩
  have hac := hlog.accounted hw.store.accounted
  rcases (hac.covered own hmem b (hobs ▸ hb)).2 with hold | ⟨o, ho, hle⟩
  · obtain ⟨known, item, hok⟩ :=
      (FinishedRead.normalizeItems_outcomes (.refl _) hno).1 b hb
    obtain ⟨_, _, _, rfl⟩ := FinishedRead.normalizeWith_ok hok
    change run.task.request.catalogGeneration < _ at hold
    rw [hans.request, hgen] at hold
    exact absurd hold (lt_irrefl _)
  · have hsa : b.key = key := hbk
    exact ⟨o, hsa ▸ ho, hle⟩

theorem awaited_mono {τ' : List (Event (host L).interface)} (h : τ ⊆ τ') :
    awaited τ ⊆ awaited τ' := by
  intro id hid
  obtain ⟨e, he, hof⟩ := mem_filterMap.mp hid
  exact mem_filterMap.mpr ⟨e, h he, hof⟩

theorem freshStatus_covered {hasClock : Bool} {last : Collector L}
    (h : ((queryEngine L limits hasClock).freshStatus request keys generation).Runs
      (host L).environment w τ status t) (hw : w.Consistent)
    (hrea : isReadableStatus status = true) (hlas : (host L).Later t last)
    (hgen : last.plane.data.catalog.generation = generation)
    (hre : ∀ e ∈ τ, ∀ run ∈ runs e.state, run.task.id ∈ awaited τ →
      run.read.Regular last.plane.data.metricDescriptor) (hkey : key ∈ keys)
    (hkn : last.plane.data.metricDescriptor key.metric ≠ none) :
    ∃ own ∈ last.commits, own.requestId ∈ awaited τ ∧
      ∃ o, last.plane.data.latest? key = some o ∧ own.epoch ≤ o.commitEpoch := by
  obtain ⟨id, hid, _, ⟨e, he, rfl⟩, hco⟩ := freshStatus_completed h hw hrea
  have hwa : Consistent e.state := ((runs_keeps h).2 e he).1.consistent hw
  have hla := ((runs_later h).2 e he).2.trans hlas
  have hso : key ∈ keys.insertionSort (· ≤ ·) := (mem_insertionSort _).mpr hkey
  obtain ⟨own, hown, how, hcov⟩ := hco.covered hwa hrea hla.1 hgen
    (fun run hrun hru => hre e he run hrun (hru ▸ hid)) hso hkn
  exact ⟨own, hown, how ▸ hid, hcov⟩

/-! ### Whole queries -/

/-- Nobody else commits from the query's first read on, or after its fresh read has
committed. -/
def OnlyCommitter (τ : List (Event (host L).interface)) (first t : Collector L) : Prop :=
  ∀ record ∈ t.commits, record.requestId ∉ awaited τ →
    record.epoch ≤ first.plane.data.commitEpoch ∧
      ∀ own ∈ t.commits, own.requestId ∈ awaited τ → record.epoch < own.epoch

instance (τ : List (Event (host L).interface)) (first t : Collector L) :
    Decidable (OnlyCommitter τ first t) :=
  inferInstanceAs (Decidable (∀ _ ∈ _, _ → _ ∧ ∀ _ ∈ _, _ → _))

/-- The fresh read that the query waited for has committed the item. -/
def FreshlyCommitted (τ : List (Event (host L).interface)) (t : Collector L) (item : Observation) :
    Prop :=
  ∃ record ∈ t.commits, record.requestId ∈ awaited τ ∧
    ∃ b ∈ record.observations, item = b.stamped record.epoch

instance (τ : List (Event (host L).interface)) (t : Collector L) (item : Observation) :
    Decidable (FreshlyCommitted τ t item) :=
  inferInstanceAs (Decidable (∃ _ ∈ _, _ ∧ ∃ _ ∈ _, _))

/-- A successful query that wants fresh data returns what its fresh read committed and, if
it may use the cache, samples that were young enough when it started. The provider's
answer to the fresh read has to be regular, and the descriptors that the ages are compared
with have to be those of the catalog the samples were read under. -/
theorem execute_fresh {limits : QueryLimits} {hasClock : Bool} {request : QueryRequest} {fuel : ℕ}
    {τ : List (Event (host L).interface)} {r : QueryResult}
    {clock first : Event (host L).interface} (hreachable : w.Reachable)
    (hrun : ((queryEngine L limits hasClock).execute request fuel).Runs (host L).environment w τ
      (some r) t)
    (hpolicy : request.readPolicy ≠ .cacheOnly) (hsuccess : r.status.ok = true)
    (hclock : τ.find? isClock = some clock)
    (hfirst : τ.find? isRead = some first)
    (halone : OnlyCommitter τ first.state t)
    (hregular : ∀ run ∈ t.runs, run.task.id ∈ awaited τ →
      run.read.Regular ((host L).data first.state).metricDescriptor)
    (hcatalog : ∀ e ∈ τ, isLookup e = true →
      ((host L).data e.state).catalog.generation = ((host L).data first.state).catalog.generation) :
    ∀ item ∈ r.items, FreshlyCommitted τ t item ∨
      request.readPolicy = .cacheOrFresh ∧
        ∃ descriptor ∈ ((host L).data first.state).metricDescriptor item.metric,
          request.Accepts descriptor ((host L).now clock.state - item.observedMonotonicTimeNs) := by
  have hreadable : isReadableStatus r.status = true := by simp [isReadableStatus, hsuccess]
  have hkeeps := (runs_keeps hrun).2
  cases execute_answered hrun hreadable with
  | @intro clock' first' u last keys τ₁ now fresh hclock' hfirst' hstart hlast hend hreadable'
      hkeys hlookups hfresh hwhole =>
    rw [hclock, Option.some.injEq] at hclock'
    rw [hfirst, Option.some.injEq] at hfirst'
    subst hclock' hfirst'
    have hconsistent : Consistent first' :=
      (hkeeps _ (mem_of_find?_eq_some hfirst)).1.consistent hreachable.consistent
    have haccounted := hconsistent.store.accounted
    intro item hitem
    rw [hwhole.items] at hitem
    obtain ⟨hlatest, hreturned⟩ := returned_item hpolicy haccounted hreadable' hkeys
      (fun e he => hcatalog e (hlookups he)) hlast (hwhole.status ▸ hsuccess) hitem
    obtain ⟨record, hrecord, b, hb, hstamped⟩ :=
      (hlast.1.accounted haccounted).sample (.inl hlatest)
    have hepoch : record.epoch = item.commitEpoch := by rw [hstamped]; rfl
    have hmem := hend.1.commits.subset hrecord
    by_cases hown : record.requestId ∈ awaited τ
    · exact .inl ⟨record, hmem, hown, b, hb, hstamped⟩
    · obtain ⟨hold, hbeforeOwn⟩ := halone record hmem hown
      cases hreturned with
      | newer hlt => exact absurd (hepoch ▸ hold) (not_le.mpr hlt)
      | cached hcacheable hdescriptor haccepts =>
        exact .inr ⟨hcacheable, _, hdescriptor, haccepts⟩
      | reread hkey hgeneration hknown =>
        -- the fresh read has committed a sample that is not older than the item
        obtain ⟨τ₂, v, hfreshRun, hlater, hsub⟩ := hfresh (ne_nil_of_mem hkey)
        have hdescriptors := hlast.data.metricDescriptor hgeneration
        have hasked := hgeneration.trans (selected_generation hreadable').symm
        have hrunsRegular : ∀ e ∈ τ₂, ∀ run ∈ runs e.state, run.task.id ∈ awaited τ₂ →
            run.read.Regular ((host L).data last).metricDescriptor := by
          intro e he run hrun hid
          rw [hdescriptors]
          exact hregular run ((hkeeps e (hsub he)).2.runs.subset hrun) (awaited_mono hsub hid)
        obtain ⟨own, hownMem, hownId, o, ho, hle⟩ := freshStatus_covered hfreshRun
          ((runs_keeps hkeys).1.consistent hconsistent) hwhole.fresh hlater hasked hrunsRegular hkey
          (hdescriptors ▸ hknown)
        have hlt := hbeforeOwn own (hend.1.commits.subset hownMem) (awaited_mono hsub hownId)
        rw [Option.some.inj (ho.symm.trans hlatest), ← hepoch] at hle
        exact absurd hlt (not_lt.mpr hle)

end Collector

namespace TwoMetrics

open Collector QueryEngine

/-- Both metrics were sampled at time 1, and it is time 5. -/
def collecting : Collector limits :=
  runFrom step (start {} (by decide) none [] { valid := by decide } false)
    [.call (.activateCatalog (some view) target), .coordinator (.activateCatalog (some view)),
      .call (.commit [sample 7 1 1, sample 8 2 1]), .tick 5]

theorem collecting_reachable : collecting.Reachable :=
  ⟨{}, by decide, none, [], { valid := by decide }, false, _, rfl⟩

/-- The provider reads the metric as `value`. -/
def reading (metric : MetricId) (value : ℕ) : ProviderReadItemResult :=
  { item := ⟨device, .metric, metric⟩, status := .valid, value := some (.uint64 value) }

/-- The worker reads the queued task at time 6 and completes it. -/
def work (items : List ProviderReadItemResult) : List (CollectorInput limits) :=
  [.tick 1, .coordinator .workerTake,
    .providerAnswer { result := { items := items }, observedTime := 6, wallTime := 6 }] ++
  List.replicate 8 .workerCall ++
  [.coordinator .workerNote, .coordinator .workerRelease, .workerComplete]

def wanted (policy : ReadPolicy) (maxAge : ℕ) : QueryRequest :=
  { selection := [inlet, outlet], readPolicy := policy, maxAgeNs := maxAge, deadline := 10 }

def collectingQuery (request : QueryRequest) (schedule : List (List (CollectorInput limits))) :
    Option (Program.Finished (host limits).interface (Option QueryResult)) :=
  ((queryEngine limits {} true).execute request 2).interleave (host limits).environment collecting
    schedule

/-- A query for fresh values; the worker runs while it waits. -/
def freshQuery (items : List ProviderReadItemResult) :
    Option (Program.Finished (host limits).interface (Option QueryResult)) :=
  collectingQuery (wanted .freshRequired 0) [[], [], [], [], [], work items, [], [], []]

/-- The provider answers each metric once. -/
theorem execute_fresh_pair :
    ∃ f r clock first, freshQuery [reading 7 3, reading 8 4] = some f ∧ f.result = some r ∧
      f.events.find? isClock = some clock ∧ f.events.find? isRead = some first ∧
      r.items.length = 2 ∧
      ∀ item ∈ r.items, FreshlyCommitted f.events f.final item ∨
        (wanted .freshRequired 0).readPolicy = .cacheOrFresh ∧
          ∃ descriptor ∈ ((host limits).data first.state).metricDescriptor item.metric,
            (wanted .freshRequired 0).Accepts descriptor
              ((host limits).now clock.state - item.observedMonotonicTimeNs) := by
  obtain ⟨f, hf, ⟨r, hr, hsuccess, hlength⟩, ⟨clock, hclock, -⟩, first, hfirst, halone, hregular,
      hcatalog⟩ : ∃ f ∈ freshQuery [reading 7 3, reading 8 4],
      (∃ r ∈ f.result, r.status.ok = true ∧ r.items.length = 2) ∧
      (∃ clock ∈ f.events.find? isClock, True) ∧
      ∃ first ∈ f.events.find? isRead, OnlyCommitter f.events first.state f.final ∧
        (∀ run ∈ runs f.final, run.task.id ∈ awaited f.events →
          run.read.Regular ((host limits).data first.state).metricDescriptor) ∧
        ∀ e ∈ f.events, isLookup e = true → ((host limits).data e.state).catalog.generation =
          ((host limits).data first.state).catalog.generation := by
    decide +kernel
  have hruns := runs_of_interleave hf
  rw [hr] at hruns
  exact ⟨f, r, clock, first, hf, hr, hclock, hfirst, hlength,
    execute_fresh collecting_reachable hruns (by decide) hsuccess hclock hfirst halone hregular
      hcatalog⟩

/-- The provider answers the outlet twice: normalization drops it, and the query returns
the sample from before as a success. -/
theorem execute_fresh_dropped :
    ∃ f r, freshQuery [reading 7 3, reading 8 4, reading 8 4] = some f ∧ f.result = some r ∧
      r.status.ok = true ∧ OnlyCommitter f.events collecting f.final ∧
      ∃ item ∈ r.items, ¬FreshlyCommitted f.events f.final item := by
  apply exists_answer
  decide +kernel

-- A catalog without the metrics is activated between the read and the lookups of the
-- descriptors: samples of age 4 are returned although the request says 1.
example : (collectingQuery (wanted .cacheOrFresh 1)
    [[], [], [.call (.activateCatalog (some { view with generation := 2 })
      { target with metrics := [] })], []]).any (fun f =>
      f.result.any fun r => decide (r.status.ok = true ∧ r.items.length = 2 ∧
        ∀ item ∈ r.items, collecting.now - item.observedMonotonicTimeNs = 4)) = true := by
  decide +kernel

end TwoMetrics
end Pdcm
