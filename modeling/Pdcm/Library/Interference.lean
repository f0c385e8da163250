import Pdcm.Library.Program

/-!
# Programs among other threads

The calls of a program meet whatever state the other threads have made of the shared
object by then. An interleaving lists, for each call, what the others did just before it;
a call that blocks is made in a state in which it is ready. `Runs` is the relational form,
with the calls and the states they met as a trace; it splits along `bind`, and what the
others and every call preserve holds in every state of the trace.

`Reaches` follows the calls of a program that is stopped anywhere; it says nothing about
what happened between them.
-/

namespace Pdcm.Library

variable {σ : Type}

/-- What surrounds a program: the moves of the other threads and when a call can return. -/
structure Environment (I : Interface σ) where
  Input : Type
  step : σ → Input → σ
  ready : I.Call → σ → Bool

/-- A call with the state it met. -/
structure Event (I : Interface σ) where
  call : I.Call
  state : σ

namespace Program

variable {I : Interface σ} (env : Environment I) {α β : Type} {c : I.Call}

/-- The calls of a finished program, its result and the state it left. -/
structure Finished (I : Interface σ) (α : Type) where
  events : List (Event I)
  result : α
  final : σ

/-- What can be computed of a finished program and its answer holds of one. -/
theorem exists_answer {run : Option (Finished I (Option α))} {P : Finished I (Option α) → α → Prop}
    [∀ f r, Decidable (P f r)]
    (h : run.any (fun f => f.result.any fun r => decide (P f r)) = true) :
    ∃ f r, run = some f ∧ f.result = some r ∧ P f r := by
  obtain ⟨f, hf, hany⟩ := (Option.any_eq_true _ _).mp h
  obtain ⟨r, hr, hp⟩ := (Option.any_eq_true _ _).mp hany
  exact ⟨f, r, hf, hr, of_decide_eq_true hp⟩

/-- Run a program along an interleaving, if every call is ready when it is made. -/
def interleave : Program I α → σ → List (List env.Input) → Option (Finished I α)
  | done a, s, _ => some ⟨[], a, s⟩
  | call _ _, _, [] => none
  | call c next, s, others :: rest =>
    let met := runFrom env.step s others
    if env.ready c met then
      (interleave (next (I.exec c met).2) (I.exec c met).1 rest).map fun f =>
        { f with events := ⟨c, met⟩ :: f.events }
    else none

inductive Runs : Program I α → σ → List (Event I) → α → σ → Prop
  | done (a : α) (s : σ) : Runs (.done a) s [] a s
  | call {c : I.Call} {next : I.Answer c → Program I α} {s : σ} {τ : List (Event I)} {a : α}
      {t : σ} (others : List env.Input) (hready : env.ready c (runFrom env.step s others) = true)
      (rest : Runs (next (I.exec c (runFrom env.step s others)).2)
        (I.exec c (runFrom env.step s others)).1 τ a t) :
      Runs (.call c next) s (⟨c, runFrom env.step s others⟩ :: τ) a t

variable {env}

theorem runs_of_interleave {p : Program I α} {s : σ} {sch : List (List env.Input)}
    {f : Finished I α} (h : p.interleave env s sch = some f) :
    p.Runs env s f.events f.result f.final := by
  induction p generalizing s sch f with
  | done a =>
    simp only [interleave, Option.some.injEq] at h
    subst h
    exact .done a s
  | call c next ih =>
    cases sch with
    | nil => simp [interleave] at h
    | cons others rest =>
      simp only [interleave] at h
      split_ifs at h with hre
      obtain ⟨g, hg, rfl⟩ := Option.map_eq_some_iff.mp h
      exact .call others hre (ih _ hg)

variable {p : Program I α} {f : α → Program I β} {s t : σ} {τ : List (Event I)} {a : α} {b : β}

theorem runs_pure {a' : α} (h : (pure a : Program I α).Runs env s τ a' t) :
    τ = [] ∧ a' = a ∧ t = s := by
  cases h
  exact ⟨rfl, rfl, rfl⟩

theorem runs_bind (h : (p >>= f).Runs env s τ b t) :
    ∃ a u before after, p.Runs env s before a u ∧ (f a).Runs env u after b t ∧
      τ = before ++ after := by
  induction p generalizing s τ with
  | done a => exact ⟨a, s, [], τ, .done a s, h, rfl⟩
  | call c next ih =>
    cases h with
    | call others hre rest =>
      obtain ⟨a, u, before, after, hp, hf, rfl⟩ := ih _ rest
      exact ⟨a, u, _, after, .call others hre hp, hf, rfl⟩

theorem runs_request_bind {f : I.Answer c → Program I β}
    (h : (request c >>= f).Runs env s τ b t) :
    ∃ others after, env.ready c (runFrom env.step s others) = true ∧
      (f (I.exec c (runFrom env.step s others)).2).Runs env
        (I.exec c (runFrom env.step s others)).1 after b t ∧
      τ = ⟨c, runFrom env.step s others⟩ :: after := by
  cases h with
  | call others hre rest => exact ⟨others, _, hre, rest, rfl⟩

/-- A reflexive and transitive relation across the moves of the others and across every
call holds from the start to every state met and from there to the end. -/
theorem Runs.relation {R : σ → σ → Prop} (h : p.Runs env s τ a t) (hre : ∀ s, R s s)
    (htr : ∀ x y z, R x y → R y z → R x z) (hst : ∀ s i, R s (env.step s i))
    (hex : ∀ c s, R s (I.exec c s).1) :
    R s t ∧ ∀ e ∈ τ, R s e.state ∧ R e.state t := by
  induction h with
  | done a s => exact ⟨hre s, by simp⟩
  | @call c next s τ a t others hrea rest ih =>
    obtain ⟨hend, hmet⟩ := ih
    have hot : R s (runFrom env.step s others) := relation_run hre htr hst s others
    have hca := htr _ _ _ hot (hex c _)
    refine ⟨htr _ _ _ hca hend, ?_⟩
    intro e he
    rcases List.mem_cons.mp he with rfl | he
    · exact ⟨hot, htr _ _ _ (hex c _) hend⟩
    · exact ⟨htr _ _ _ hca (hmet e he).1, (hmet e he).2⟩

/-! ### Programs with the same outcomes -/

/-- The calls of the two programs do the same to the object, whatever state they meet, and
the programs go on the same way after them. -/
inductive Equivalent (env : Environment I) : Program I α → Program I α → Prop
  | done (a : α) : Equivalent env (.done a) (.done a)
  | call {c c' : I.Call} {next : I.Answer c → Program I α} {next' : I.Answer c' → Program I α}
      (hready : ∀ s, env.ready c s = env.ready c' s)
      (hexec : ∀ s, (I.exec c s).1 = (I.exec c' s).1)
      (rest : ∀ s, Equivalent env (next (I.exec c s).2) (next' (I.exec c' s).2)) :
      Equivalent env (.call c next) (.call c' next')

namespace Equivalent

variable {q : Program I α}

theorem refl (p : Program I α) : Equivalent env p p := by
  induction p with
  | done a => exact .done a
  | call c next ih => exact .call (fun _ => rfl) (fun _ => rfl) fun _ => ih _

theorem bind {g : α → Program I β} (h : Equivalent env p q)
    (hfg : ∀ a, Equivalent env (f a) (g a)) :
    Equivalent env (p >>= f) (q >>= g) := by
  induction h with
  | done a => exact hfg a
  | call hre hex rest ih => exact .call hre hex ih

/-- In every interleaving both finish or neither does, with one result and one final
state. -/
theorem interleave_eq (h : Equivalent env p q) (s : σ) (sch : List (List env.Input)) :
    (p.interleave env s sch).map (fun f => (f.result, f.final)) =
      (q.interleave env s sch).map (fun f => (f.result, f.final)) := by
  induction h generalizing s sch with
  | done a => rfl
  | @call c c' next next' hre hex rest ih =>
    cases sch with
    | nil => rfl
    | cons others later =>
      simp only [interleave, ← hre, ← hex]
      split_ifs
      · rw [Option.map_map, Option.map_map]
        exact ih _ _ _
      · rfl

end Equivalent

/-! ### Stopped programs -/

/-- `q` is left of `p` after the calls of the trace, whatever happened between them. -/
inductive Reaches : Program I α → List (Event I) → Program I α → Prop
  | refl (p : Program I α) : Reaches p [] p
  | call {c : I.Call} {next : I.Answer c → Program I α} {s : σ} {τ : List (Event I)}
      {q : Program I α} (rest : Reaches (next (I.exec c s).2) τ q) :
      Reaches (.call c next) (⟨c, s⟩ :: τ) q

theorem Reaches.next {next : I.Answer c → Program I α} (h : p.Reaches τ (.call c next)) (s : σ) :
    p.Reaches (τ ++ [⟨c, s⟩]) (next (I.exec c s).2) := by
  generalize hq : Program.call c next = q at h
  induction h with
  | refl p =>
    subst hq
    exact .call (.refl _)
  | call rest ih => exact .call (ih hq)

theorem reaches_pure {a' : α} (h : (pure a : Program I α).Reaches τ (.done a')) :
    τ = [] ∧ a' = a := by
  cases h
  exact ⟨rfl, rfl⟩

theorem reaches_bind (h : (p >>= f).Reaches τ (.done b)) :
    ∃ a before after, p.Reaches before (.done a) ∧ (f a).Reaches after (.done b) ∧
      τ = before ++ after := by
  induction p generalizing τ with
  | done a => exact ⟨a, [], τ, .refl _, h, rfl⟩
  | call c next ih =>
    cases h with
    | call rest =>
      obtain ⟨a, before, after, hp, hf, rfl⟩ := ih _ rest
      exact ⟨a, _, after, .call hp, hf, rfl⟩

theorem reaches_request_bind {f : I.Answer c → Program I β}
    (h : (request c >>= f).Reaches τ (.done b)) :
    ∃ s after, (f (I.exec c s).2).Reaches after (.done b) ∧ τ = ⟨c, s⟩ :: after := by
  cases h with
  | call rest => exact ⟨_, _, rest, rfl⟩

/-- The calls of a program that runs without interruption. -/
def trace : Program I α → σ → List (Event I)
  | done _, _ => []
  | call c next, s => ⟨c, s⟩ :: (next (I.exec c s).2).trace (I.exec c s).1

theorem reaches_trace (p : Program I α) (s : σ) : p.Reaches (p.trace s) (.done (p.run s).2) := by
  induction p generalizing s with
  | done a => exact .refl _
  | call c next ih => exact .call (ih _ _)

/-- Every call is allowed, if the states that the ones before it met satisfy the invariant. -/
def Guarded (allowed : I.Call → Prop) (inv : σ → Prop) : Program I α → Prop
  | done _ => True
  | call c next => allowed c ∧ ∀ s, inv s → (next (I.exec c s).2).Guarded allowed inv

theorem Guarded.trace {allowed : I.Call → Prop} {inv : σ → Prop}
    (hin : ∀ c s, allowed c → inv s → inv (I.exec c s).1) (h : p.Guarded allowed inv)
    (hs : inv s) : (∀ e ∈ p.trace s, allowed e.call) ∧ inv (p.run s).1 := by
  induction p generalizing s with
  | done a => exact ⟨List.forall_mem_nil _, hs⟩
  | call c next ih =>
    obtain ⟨hall, hinv⟩ := ih _ (h.2 s hs) (hin c s h.1 hs)
    exact ⟨List.forall_mem_cons.mpr ⟨h.1, hall⟩, hinv⟩

end Program
end Pdcm.Library
