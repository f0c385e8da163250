import Pdcm.Data.QueryEngine

/-!
# Runs of a query

How the run of a query falls into its phases, and where the snapshot it answers with was
read.
-/

namespace Pdcm

open Library DataManager Program Option

namespace QueryHost

variable {L : Limits} (host : QueryHost L)

/-- `w'` is the process some time after `w`. -/
def Later (w w' : host.World) : Prop :=
  (host.store w).Evolves (host.store w') ∧ host.now w ≤ host.now w'

variable {host}

theorem Later.refl (w : host.World) : host.Later w w := ⟨Relation.ReflTransGen.refl, le_rfl⟩

theorem Later.trans {u v w : host.World} (h : host.Later u v) (h' : host.Later v w) :
    host.Later u w :=
  ⟨Relation.ReflTransGen.trans h.1 h'.1, h.2.trans h'.2⟩

theorem Later.data {w w' : host.World} (h : host.Later w w') :
    DataManager.Later (host.data w) (host.data w') :=
  h.1.later

theorem exec_later (c : QueryCall host.reader.Call) (w : host.World) :
    host.Later w (host.exec c w).1 := by
  cases c with
  | reader c => exact host.reader_later c w
  | _ => exact .refl w

variable {α β : Type} {w t : host.World} {τ : List (Event host.interface)}

theorem runs_later {p : host.Query α} {a : α} (h : p.Runs host.environment w τ a t) :
    host.Later w t ∧ ∀ e ∈ τ, host.Later w e.state ∧ host.Later e.state t :=
  h.relation (R := host.Later) .refl (fun _ _ _ => .trans) host.step_later exec_later

theorem runs_call {c : QueryCall host.reader.Call} {f : host.Answer c → host.Query β} {b : β}
    (h : (call c >>= f).Runs host.environment w τ b t) :
    ∃ u after, host.Later w u ∧
      (f (host.exec c u).2).Runs host.environment (host.exec c u).1 after b t ∧
      τ = ⟨c, u⟩ :: after := by
  obtain ⟨rest, after, -, hre, rfl⟩ := runs_request_bind h
  exact ⟨_, after, relation_run .refl (fun _ _ _ => .trans) host.step_later _ _, hre, rfl⟩

/-- The calls of the fresh reader, as the reader's own run. -/
theorem runs_ofReader {p : Program host.reader α} {a : α}
    (h : (ofReader p).Runs host.environment w τ a t) :
    ∃ σ : List (Event host.reader), p.Runs host.readerEnvironment w σ a t ∧
      τ = σ.map fun e => ⟨.reader e.call, e.state⟩ := by
  induction p generalizing w τ with
  | done a' =>
    cases h
    exact ⟨[], .done _ _, rfl⟩
  | call c next ih =>
    cases h with
    | call others hre rest =>
      obtain ⟨σ, hσ, rfl⟩ := ih _ rest
      have hrun : (Program.call c next).Runs host.readerEnvironment w
          (⟨c, runFrom host.step w others⟩ :: σ) a t :=
        @Program.Runs.call _ _ host.readerEnvironment _ _ _ _ _ _ _ others hre hσ
      exact ⟨_, hrun, rfl⟩

/-- What a read of the selection returns in state `w`. -/
def selected (request : QueryRequest) (w : host.World) (now : ℤ) : DataReadResult :=
  (host.data w).readLatest request.selection request.allowStale now request.catalogGeneration

/-- A read of the selection in state `u`. -/
abbrev reading (request : QueryRequest) (now : ℤ) (u : host.World) : Event host.interface :=
  ⟨.readLatest request.selection request.allowStale now request.catalogGeneration, u⟩

end QueryHost

namespace QueryEngine

open QueryHost

variable {L : Limits} {host : QueryHost L} {engine : QueryEngine host} {request : QueryRequest}
  {w t : host.World} {τ : List (Event host.interface)} {snapshot : DataReadResult} {fuel : ℕ}
  {r : QueryResult} {result : Option QueryResult}

def isRead (e : Event host.interface) : Bool :=
  match e.call with
  | .readLatest _ _ _ _ => true
  | _ => false

/-- The last read of the trace, which was made in state `u`. -/
def LastRead (request : QueryRequest) (τ : List (Event host.interface)) (now : ℤ)
    (u : host.World) : Prop :=
  ∃ before after, τ = before ++ reading request now u :: after ∧ ∀ e ∈ after, isRead e = false

theorem LastRead.mem {now : ℤ} {u : host.World} (h : LastRead request τ now u) :
    reading request now u ∈ τ := by
  obtain ⟨b, after, rfl, -⟩ := h
  simp

/-- The last read of the trace returned the snapshot. -/
def ReadIn (request : QueryRequest) (τ : List (Event host.interface)) (snapshot : DataReadResult) :
    Prop :=
  ∃ now u, LastRead request τ now u ∧ now ≤ host.now u ∧ snapshot = selected request u now

/-- A phase that began with a snapshot goes on with it, or with what it read last. -/
def Supplies (request : QueryRequest) (snapshot : DataReadResult)
    (τ : List (Event host.interface)) (result : DataReadResult) : Prop :=
  result = snapshot ∧ (∀ e ∈ τ, isRead e = false) ∨ ReadIn request τ result

theorem ReadIn.append_left (h : ReadIn request τ snapshot) (σ : List (Event host.interface)) :
    ReadIn request (σ ++ τ) snapshot := by
  obtain ⟨now, u, ⟨b, after, rfl, haf⟩, hre⟩ := h
  exact ⟨now, u, ⟨σ ++ b, after, by simp, haf⟩, hre⟩

theorem ReadIn.supplies {σ : List (Event host.interface)} {result : DataReadResult}
    (h : ReadIn request τ snapshot) (h' : Supplies request snapshot σ result) :
    ReadIn request (τ ++ σ) result := by
  rcases h' with ⟨rfl, hno⟩ | h'
  · obtain ⟨now, u, ⟨b, after, rfl, haf⟩, hre⟩ := h
    refine ⟨now, u, ⟨b, after ++ σ, by simp, ?_⟩, hre⟩
    exact List.forall_mem_append.mpr ⟨haf, hno⟩
  · exact h'.append_left τ

theorem Supplies.trans {σ : List (Event host.interface)} {next result : DataReadResult}
    (h : Supplies request snapshot τ next) (h' : Supplies request next σ result) :
    Supplies request snapshot (τ ++ σ) result := by
  rcases h with ⟨rfl, hno⟩ | h
  · rcases h' with ⟨rfl, hno'⟩ | h'
    · exact .inl ⟨rfl, List.forall_mem_append.mpr ⟨hno, hno'⟩⟩
    · exact .inr (h'.append_left τ)
  · exact .inr (h.supplies h')

theorem readSelection_runs (h : (readSelection request).Runs host.environment w τ snapshot t) :
    ∃ clock, host.Later w clock ∧ host.Later clock t ∧
      τ = [⟨.monotonicNow, clock⟩, reading request (host.now clock) t] ∧
      snapshot = selected request t (host.now clock) := by
  obtain ⟨clock, after, hcl, hre, rfl⟩ := runs_call h
  have hla := (runs_later hre).1
  cases hre with
  | call others hrea rest =>
    cases rest
    exact ⟨clock, hcl, hla, rfl, rfl⟩

theorem readSelection_readIn (h : (readSelection request).Runs host.environment w τ snapshot t) :
    ReadIn request τ snapshot := by
  obtain ⟨clock, -, hre, rfl, rfl⟩ := readSelection_runs h
  exact ⟨_, t, ⟨[_], [], rfl, by simp⟩, hre.2, rfl⟩

/-! ### Phases -/

/-- The status of the fresh read, if there were outdated keys, and the snapshot after it. -/
theorem refresh_runs {keys : List DataKey} {fresh : DataReadResult × Status}
    (h : (engine.refresh request snapshot keys).Runs host.environment w τ fresh t) :
    (keys = [] ∧ τ = [] ∧ fresh = (snapshot, .success) ∧ t = w) ∨
    (keys ≠ [] ∧ ∃ u b after,
      (engine.freshStatus request keys snapshot.catalogGeneration).Runs host.environment w b
        fresh.2 u ∧
      (readSelection request).Runs host.environment u after fresh.1 t ∧
      τ = b ++ after) := by
  unfold refresh at h
  by_cases hke : keys = []
  · simp only [hke] at h
    obtain ⟨rfl, rfl, rfl⟩ := runs_pure h
    exact .inl ⟨hke, rfl, rfl, rfl⟩
  · simp only [hke] at h
    obtain ⟨st, u, b, _, hst, hres, rfl⟩ := runs_bind h
    obtain ⟨snap', v, after, _, hre, hpu, rfl⟩ := runs_bind hres
    obtain ⟨rfl, rfl, rfl⟩ := runs_pure hpu
    exact .inr ⟨hke, u, b, after, hst, hre, by rw [List.append_nil]⟩

theorem refresh_supplies {keys : List DataKey} {fresh : DataReadResult × Status}
    (h : (engine.refresh request snapshot keys).Runs host.environment w τ fresh t) :
    Supplies request snapshot τ fresh.1 := by
  rcases refresh_runs h with ⟨-, rfl, rfl, -⟩ | ⟨-, u, b, after, -, hre, rfl⟩
  · exact .inl ⟨rfl, by simp⟩
  · exact .inr ((readSelection_readIn hre).append_left b)

/-- Calls that neither read items nor have to do with the epoch. -/
def Neutral (e : Event host.interface) : Prop :=
  match e.call with
  | .monotonicNow => True
  | .metricDescriptor _ => True
  | .reader _ => True
  | _ => False

theorem Neutral.isRead {e : Event host.interface} (h : Neutral e) : isRead e = false := by
  obtain ⟨c, u⟩ := e
  cases c with
  | readLatest keys stale now need => cases h
  | _ => rfl

theorem keysOutdated_neutral {now : ℤ} {keys : List DataKey} {items : List Observation}
    (h : (keysOutdated request now items).Runs host.environment w τ keys t) :
    ∀ e ∈ τ, Neutral e := by
  induction items generalizing w τ keys t with
  | nil =>
    obtain ⟨rfl, -, -⟩ := runs_pure h
    simp
  | cons item rest ih =>
    obtain ⟨needed, u, τ₁, _, hne, hre, rfl⟩ := runs_bind h
    obtain ⟨others, v, τ₂, _, hot, hpu, rfl⟩ := runs_bind hre
    obtain ⟨rfl, -, -⟩ := runs_pure hpu
    intro e he
    rw [List.append_nil, List.mem_append] at he
    refine he.elim ?_ (ih hot e)
    unfold needsFreshRead at hne
    split_ifs at hne
    any_goals
      obtain ⟨rfl, -, -⟩ := runs_pure hne
      simp
    obtain ⟨u, after, -, hpu, rfl⟩ := runs_call hne
    obtain ⟨rfl, -, -⟩ := runs_pure hpu
    simp +contextual [Neutral]

theorem keysNeedingFreshRead_neutral {now : ℤ} {keys : List DataKey}
    (h : (keysNeedingFreshRead request snapshot now).Runs host.environment w τ keys t) :
    ∀ e ∈ τ, Neutral e := by
  unfold keysNeedingFreshRead at h
  split_ifs at h
  · obtain ⟨rfl, -, -⟩ := runs_pure h
    simp
  · exact keysOutdated_neutral h

/-- The epoch the waiting loop waits for. -/
def nextEpoch (host : QueryHost L) (asked : host.World) : ℕ :=
  ((host.data asked).commitEpoch + 1) % 2 ^ 64

/-- One pass of the waiting loop. -/
inductive AwaitPass (request : QueryRequest) (fuel : ℕ) (snapshot : DataReadResult)
    (w : host.World) : List (Event host.interface) → Option DataReadResult → host.World → Prop
  | reached (hall : allItemsAtEpoch snapshot request.requiredEpoch = true) :
      AwaitPass request fuel snapshot w [] (some snapshot) w
  | stopped {asked waited : host.World}
      (hall : allItemsAtEpoch snapshot request.requiredEpoch = false)
      (hasked : host.Later w asked) (hwaited : host.Later asked waited)
      (hstatus : (host.waited waited (nextEpoch host asked)).ok = false) :
      AwaitPass request fuel snapshot w
        [⟨.commitEpoch, asked⟩, ⟨.waitForEpoch (nextEpoch host asked) request.deadline, waited⟩]
        (some { snapshot with status := host.waited waited (nextEpoch host asked), items := [] })
        waited
  | reread {asked waited u t : host.World} {after rest : List (Event host.interface)}
      {snapshot' : DataReadResult} {result : Option DataReadResult}
      (hasked : host.Later w asked) (hwaited : host.Later asked waited)
      (hstatus : (host.waited waited (nextEpoch host asked)).ok = true)
      (hread : (readSelection request).Runs host.environment waited after snapshot' u)
      (hnext : isReadableStatus snapshot'.status = false ∧ rest = [] ∧ result = some snapshot' ∧
          t = u ∨
        isReadableStatus snapshot'.status = true ∧
          (awaitEpoch request fuel snapshot').Runs host.environment u rest result t) :
      AwaitPass request fuel snapshot w
        (⟨.commitEpoch, asked⟩ :: ⟨.waitForEpoch (nextEpoch host asked) request.deadline, waited⟩ ::
          (after ++ rest))
        result t

theorem awaitEpoch_pass {result : Option DataReadResult}
    (h : (awaitEpoch request (fuel + 1) snapshot).Runs host.environment w τ result t) :
    AwaitPass request fuel snapshot w τ result t := by
  unfold awaitEpoch at h
  cases hall : allItemsAtEpoch snapshot request.requiredEpoch with
  | true =>
    simp only [hall] at h
    obtain ⟨rfl, rfl, rfl⟩ := runs_pure h
    exact .reached hall
  | false =>
    simp only [hall] at h
    obtain ⟨asked, _, has, haf, rfl⟩ := runs_call h
    obtain ⟨waited, _, hwa, hre, rfl⟩ := runs_call haf
    change (if ¬(host.waited waited (nextEpoch host asked)).ok then _ else _ : host.Query _).Runs
      host.environment waited _ result t at hre
    cases hst : (host.waited waited (nextEpoch host asked)).ok with
    | false =>
      simp only [hst] at hre
      obtain ⟨rfl, rfl, rfl⟩ := runs_pure hre
      exact .stopped hall has hwa hst
    | true =>
      simp only [hst] at hre
      obtain ⟨snap', u, after, rest, hread, hne, rfl⟩ := runs_bind hre
      refine .reread has hwa hst hread ?_
      cases hrea : isReadableStatus snap'.status with
      | false =>
        simp only [hrea] at hne
        obtain ⟨rfl, rfl, rfl⟩ := runs_pure hne
        exact .inl ⟨rfl, rfl, rfl, rfl⟩
      | true =>
        simp only [hrea] at hne
        exact .inr ⟨rfl, hne⟩

theorem waited_readable (w : host.World) (epoch : ℕ) :
    isReadableStatus (host.waited w epoch) = (host.waited w epoch).ok := by
  unfold QueryHost.waited
  split_ifs <;> rfl

theorem waited_timeout {epoch : ℕ} (hep : epoch ≠ 0) (h : (host.waited w epoch).ok = false) :
    (host.waited w epoch).code = .timeout := by
  unfold QueryHost.waited at h ⊢
  rw [if_neg hep] at h ⊢
  split_ifs at h ⊢
  · cases h
  · rfl

theorem awaitEpoch_readable {result : DataReadResult}
    (h : (awaitEpoch request fuel snapshot).Runs host.environment w τ (some result) t)
    (hre : isReadableStatus result.status = true) :
    allItemsAtEpoch result request.requiredEpoch = true ∧
      Supplies request snapshot τ result := by
  induction fuel generalizing snapshot w τ with
  | zero => cases h
  | succ fuel ih =>
    generalize hres : some result = out at h
    cases awaitEpoch_pass h with
    | reached hall =>
      obtain rfl := some.inj hres
      exact ⟨hall, .inl ⟨rfl, by simp⟩⟩
    | stopped _ _ _ hst =>
      obtain rfl := some.inj hres
      rw [waited_readable, hst] at hre
      cases hre
    | @reread asked waited _ _ after rest snap' _ _ _ _ hrea hne =>
      subst hres
      rcases hne with ⟨hun, -, hsa, -⟩ | ⟨-, hrest⟩
      · obtain rfl := some.inj hsa
        rw [hun] at hre
        cases hre
      · obtain ⟨hall, hfr⟩ := ih hrest
        have hwa : Supplies request snapshot [⟨.commitEpoch, asked⟩,
            ⟨.waitForEpoch (nextEpoch host asked) request.deadline, waited⟩] snapshot :=
          .inl ⟨rfl, by simp [isRead]⟩
        exact ⟨hall, hwa.trans (.inr ((readSelection_readIn hrea).supplies hfr))⟩

theorem settle_readable {result : DataReadResult}
    (h : (settle request fuel snapshot).Runs host.environment w τ (some result) t)
    (hre : isReadableStatus result.status = true) :
    (request.consistency = .atLeastEpoch →
      allItemsAtEpoch result request.requiredEpoch = true) ∧
      Supplies request snapshot τ result := by
  unfold settle at h
  split_ifs at h with hep
  · obtain ⟨hall, hfr⟩ := awaitEpoch_readable h hre
    exact ⟨fun _ => hall, hfr⟩
  · obtain ⟨rfl, hsa, -⟩ := runs_pure h
    obtain rfl := some.inj hsa
    exact ⟨fun hco => absurd ⟨hco, hre⟩ hep, .inl ⟨rfl, by simp⟩⟩

/-! ### Whole queries -/

/-- The run of `answer`: the first clock reading, the first read and, if that was readable,
the three phases that follow. -/
inductive AnswerRun (engine : QueryEngine host) (request : QueryRequest) (fuel : ℕ)
    (w : host.World) (result : Option QueryResult) :
    List (Event host.interface) → host.World → Prop
  | unreadable {clock first : host.World} (hclock : host.Later w clock)
      (hfirst : host.Later clock first)
      (hstatus : isReadableStatus (selected request first (host.now clock)).status = false)
      (hresult : some (request.finalize (selected request first (host.now clock)) .success) =
        result) :
      AnswerRun engine request fuel w result
        [⟨.monotonicNow, clock⟩, reading request (host.now clock) first] first
  | phases {clock first u v t : host.World} {τ₁ τ₂ τ₃ : List (Event host.interface)}
      {keys : List DataKey} {refreshed : DataReadResult × Status}
      {settled : Option DataReadResult} (hclock : host.Later w clock)
      (hfirst : host.Later clock first)
      (hstatus : isReadableStatus (selected request first (host.now clock)).status = true)
      (hkeys : (keysNeedingFreshRead request (selected request first (host.now clock))
        (host.now clock)).Runs host.environment first τ₁ keys u)
      (hrefresh : (engine.refresh request (selected request first (host.now clock)) keys).Runs
        host.environment u τ₂ refreshed v)
      (hsettle : (settle request fuel refreshed.1).Runs host.environment v τ₃ settled t)
      (hresult : settled.map (fun snapshot => request.finalize snapshot refreshed.2) = result) :
      AnswerRun engine request fuel w result
        (⟨.monotonicNow, clock⟩ :: reading request (host.now clock) first :: (τ₁ ++ (τ₂ ++ τ₃))) t

theorem answer_run (h : (engine.answer request fuel).Runs host.environment w τ result t) :
    AnswerRun engine request fuel w result τ t := by
  obtain ⟨clock, _, hcl, haf, rfl⟩ := runs_call h
  obtain ⟨first, _, hfi, hre, rfl⟩ := runs_call haf
  change (if ¬isReadableStatus (selected request first (host.now clock)).status then _
    else _ : host.Query _).Runs host.environment first _ result t at hre
  cases hst : isReadableStatus (selected request first (host.now clock)).status with
  | false =>
    simp only [hst] at hre
    obtain ⟨rfl, rfl, rfl⟩ := runs_pure hre
    exact .unreadable hcl hfi hst rfl
  | true =>
    simp only [hst] at hre
    obtain ⟨keys, u, τ₁, _, hke, hla, rfl⟩ := runs_bind hre
    obtain ⟨fresh, v, τ₂, _, href, hlas, rfl⟩ := runs_bind hla
    obtain ⟨setl, x, τ₃, _, hse, hpu, rfl⟩ := runs_bind hlas
    obtain ⟨rfl, rfl, rfl⟩ := runs_pure hpu
    rw [List.append_nil]
    exact .phases hcl hfi hst hke href hse rfl

/-- A query is refused before it reads anything, a valid one only by a timeout, or it gets to
its answer after at most one wait. -/
theorem execute_run (h : (engine.execute request fuel).Runs host.environment w τ result t) :
    ((∀ e ∈ τ, isRead e = false) ∧
      ∃ status, result = some { status := status } ∧ isReadableStatus status = false ∧
        ((request.validate engine.limits engine.hasClock).ok = true → status.code = .timeout)) ∨
    ∃ u waits rest, host.Later w u ∧ τ = waits ++ rest ∧
      (waits = [] ∨ waits = [⟨.waitForEpoch request.requiredEpoch request.deadline, u⟩]) ∧
      AnswerRun engine request fuel u result rest t := by
  unfold execute at h
  cases hva : (request.validate engine.limits engine.hasClock).ok with
  | false =>
    simp only [hva] at h
    obtain ⟨rfl, rfl, rfl⟩ := runs_pure h
    exact .inl ⟨by simp, _, rfl, request.validate_unreadable hva, by simp⟩
  | true =>
    simp only [hva] at h
    by_cases hep : request.consistency = .atLeastEpoch
    · simp only [hep] at h
      obtain ⟨u, rest, hu, hre, rfl⟩ := runs_call h
      change (if ¬(host.waited u request.requiredEpoch).ok then _
        else _ : host.Query _).Runs host.environment u _ result t at hre
      cases hst : (host.waited u request.requiredEpoch).ok with
      | false =>
        simp only [hst] at hre
        obtain ⟨rfl, rfl, rfl⟩ := runs_pure hre
        have hno := (request.validate_ok hva).2.2.2 hep
        exact .inl ⟨by simp [isRead], _, rfl, (waited_readable _ _).trans hst,
          fun _ => waited_timeout hno hst⟩
      | true =>
        simp only [hst] at hre
        exact .inr ⟨u, _, rest, hu, rfl, .inr rfl, answer_run hre⟩
    · simp only [hep] at h
      exact .inr ⟨w, [], τ, .refl w, rfl, .inl rfl, answer_run h⟩

/-- The answer has no items, or it is made of a readable snapshot that the query read. -/
theorem execute_answer (h : (engine.execute request fuel).Runs host.environment w τ (some r) t) :
    (r.items = [] ∧ r.truncated = false ∧ isReadableStatus r.status = false) ∨
    ∃ snapshot fresh, ReadIn request τ snapshot ∧ isReadableStatus snapshot.status = true ∧
      (request.consistency = .atLeastEpoch →
        allItemsAtEpoch snapshot request.requiredEpoch = true) ∧
      r = request.finalize snapshot fresh := by
  rcases execute_run h with ⟨-, st, hr, hun, -⟩ |
      ⟨u, waits, rest, hu, rfl, -, han⟩
  · obtain rfl := some.inj hr
    exact .inl ⟨rfl, rfl, hun⟩
  · cases han with
    | unreadable _ _ hst hres =>
      obtain rfl := some.inj hres
      exact .inl (request.finalize_unreadable hst)
    | @phases clock first _ _ _ _ _ _ _ refreshed _ _ hfi _ hke href hse hres =>
      obtain ⟨snapshot, rfl, rfl⟩ := map_eq_some_iff.mp hres
      cases hre : isReadableStatus snapshot.status with
      | false => exact .inl (request.finalize_unreadable hre)
      | true =>
        obtain ⟨hall, hlas⟩ := settle_readable hse hre
        have hread : ReadIn request
            [⟨.monotonicNow, clock⟩, reading request (host.now clock) first]
            (selected request first (host.now clock)) :=
          ⟨_, first, ⟨[_], [], rfl, by simp⟩, hfi.2, rfl⟩
        have hsa : Supplies request (selected request first (host.now clock)) _ _ :=
          .inl ⟨rfl, fun e he => (keysNeedingFreshRead_neutral hke e he).isRead⟩
        refine .inr ⟨snapshot, refreshed.2, ?_, hre, hall, rfl⟩
        exact (hread.supplies (hsa.trans ((refresh_supplies href).trans hlas))).append_left waits

end QueryEngine

/-! ### Queries beside other callers of the data manager -/

/-- A process of a data manager and a clock. -/
structure StoreWorld (L : Limits) where
  log : CommitLog L := .initial L
  now : ℤ := 0

inductive StoreInput where
  | activateCatalog (catalog : Option CatalogView) (target : TargetCatalog)
  | commit (observations : List Observation)
  | tick (nanoseconds : ℕ)

namespace StoreWorld

variable {L : Limits}

def step (w : StoreWorld L) : StoreInput → StoreWorld L
  | .activateCatalog catalog target =>
    { w with log := { w.log with data := (w.log.data.activateCatalogLocked catalog target).1 } }
  | .commit observations => { w with log := w.log.commit 0 observations }
  | .tick nanoseconds => { w with now := w.now + nanoseconds }

theorem step_later (w : StoreWorld L) (i : StoreInput) :
    w.log.Evolves (w.step i).log ∧ w.now ≤ (w.step i).now := by
  cases i with
  | activateCatalog cat target => exact ⟨.single (.activated cat target), le_rfl⟩
  | commit obs => exact ⟨.single (.committed 0 obs), le_rfl⟩
  | tick nanoseconds =>
    refine ⟨.refl, ?_⟩
    change w.now ≤ w.now + nanoseconds
    omega

/-- Without a fresh reader. -/
def host (L : Limits) : QueryHost L where
  World := StoreWorld L
  store := StoreWorld.log
  now := StoreWorld.now
  Input := StoreInput
  step := step
  reader := { Call := Empty, Answer := fun _ => Empty, exec := fun c _ => nomatch c }
  readerReady := fun c _ => nomatch c
  step_later := step_later
  reader_later := fun c _ => nomatch c

/-- The process after the given calls and ticks. -/
def after (L : Limits) (inputs : List StoreInput) : StoreWorld L := runFrom step {} inputs

theorem after_reachable (inputs : List StoreInput) : (after L inputs).log.Reachable := by
  have hnew : (CommitLog.initial L).Reachable := .refl
  refine invariant_run (I := fun w : StoreWorld L => w.log.Reachable) ?_ hnew inputs
  intro w i hw
  exact .trans hw (step_later w i).1

end StoreWorld

namespace TwoMetrics

def limits : Limits := { valid := DataStoreLimits.validate_default }

def device : EntityRef := ⟨.device, 1, 1⟩

def descriptor (id : MetricId) (name : String) : MetricDescriptor :=
  { id := id, name := name, unit := "celsius", defaultPeriodNs := 10, minPeriodNs := 10
    freshnessNs := 10, semanticVersion := 1 }

def target : TargetCatalog :=
  { target := .fpga, metricsStatus := .ready
    metrics := [descriptor 7 "inlet", descriptor 8 "outlet"]
    health := [{ freshnessNs := 10 }] }

def view : CatalogView :=
  { generation := 1
    entities := [{ ref := device, providerVersion := "provider", target := .fpga }]
    capabilitySets :=
      [{ entity := device
         items := [{ kind := .metric, id := 7, supported := true },
                   { kind := .metric, id := 8, supported := true }] }] }

/-- The metric was read as `value` at `time`. -/
def sample (metric : MetricId) (value : ℕ) (time : ℤ) : Observation :=
  { entity := device, metric := metric, value := some (.uint64 value), status := .valid
    observedMonotonicTimeNs := time, metricSemanticVersion := 1, catalogGeneration := 1 }

/-- The read of the metric failed at `time`. -/
def failure (metric : MetricId) (time : ℤ) : Observation :=
  { entity := device, metric := metric, status := .error, observedMonotonicTimeNs := time
    metricSemanticVersion := 1, catalogGeneration := 1
    error := { status := ⟨.timeout, "read timed out"⟩ } }

def inlet : DataKey := ⟨device, 7⟩

def outlet : DataKey := ⟨device, 8⟩

/-- The data manager after these batches, at time 5. -/
def committed (batches : List (List Observation)) : StoreWorld limits :=
  .after limits (.activateCatalog (some view) target :: batches.map .commit ++ [.tick 5])

open StoreWorld

theorem committed_reachable (batches : List (List Observation)) :
    (committed batches).log.Reachable :=
  after_reachable _

def engine : QueryEngine (host limits) := {}

/-- A query among other threads that move as the schedule says. -/
def query (request : QueryRequest) (start : StoreWorld limits) (schedule : List (List StoreInput)) :
    Option (Program.Finished (host limits).interface (Option QueryResult)) :=
  (engine.execute request 2).interleave (host limits).environment start schedule

theorem query_runs {request : QueryRequest} {start : StoreWorld limits}
    {sch : List (List StoreInput)}
    {f : Program.Finished (host limits).interface (Option QueryResult)}
    (h : query request start sch = some f) :
    (engine.execute request 2).Runs (host limits).environment start f.events f.result
      f.final :=
  runs_of_interleave h

end TwoMetrics
end Pdcm
