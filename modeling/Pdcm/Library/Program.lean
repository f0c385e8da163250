import Pdcm.Library.Runs

/-!
# Programs over a shared object

A shared object offers calls, each of which runs as one atomic step and returns an
answer. A program is a tree of such calls. A program can be run alone, and a pool runs
any number of programs with their calls interleaved; what every call preserves holds
in every state of either.
-/

namespace Pdcm.Library

/-- The atomic calls of a shared object with state `σ`. -/
structure Interface (σ : Type) where
  Call : Type
  Answer : Call → Type
  exec : (c : Call) → σ → σ × Answer c

inductive Program {σ : Type} (I : Interface σ) (α : Type) : Type
  | done (a : α) : Program I α
  | call (c : I.Call) (next : I.Answer c → Program I α) : Program I α

namespace Program

variable {σ : Type} {I : Interface σ} {α β : Type}

def bind : Program I α → (α → Program I β) → Program I β
  | done a, f => f a
  | call c next, f => call c fun answer => (next answer).bind f

instance : Monad (Program I) where
  pure := done
  bind := bind

/-- A program of one call that returns the answer. -/
def request (c : I.Call) : Program I (I.Answer c) := call c done

/-- Run a program without interruption. -/
def run : Program I α → σ → σ × α
  | done a, s => (s, a)
  | call c next, s => (next (I.exec c s).2).run (I.exec c s).1

@[simp] theorem run_bind (p : Program I α) (f : α → Program I β) (s : σ) :
    (p >>= f).run s = (f (p.run s).2).run (p.run s).1 := by
  induction p generalizing s with
  | done a => rfl
  | call c next ih => exact ih _ _

/-- One atomic step. -/
def step : Program I α → σ → σ × Program I α
  | done a, s => (s, done a)
  | call c next, s => ((I.exec c s).1, next (I.exec c s).2)

theorem step_shared (p : Program I α) (s : σ) :
    (p.step s).1 = s ∨ ∃ c, (p.step s).1 = (I.exec c s).1 := by
  cases p with
  | done a => exact .inl rfl
  | call c next => exact .inr ⟨c, rfl⟩

end Program

/-- Programs that share one object. -/
structure Pool {σ : Type} (I : Interface σ) where
  shared : σ
  threads : List (Program I Unit)

namespace Pool

variable {σ : Type} {I : Interface σ}

/-- Start a program as a new thread, or let a thread make its next call. -/
inductive Action (I : Interface σ)
  | spawn (program : Program I Unit)
  | step (thread : ℕ)

def act (pool : Pool I) : Action I → Pool I
  | .spawn program => { pool with threads := pool.threads ++ [program] }
  | .step i =>
    match pool.threads[i]? with
    | none => pool
    | some program =>
      { shared := (program.step pool.shared).1
        threads := pool.threads.set i (program.step pool.shared).2 }

/-- An action leaves the shared object alone or makes one call. -/
theorem act_shared (pool : Pool I) (a : Action I) :
    (pool.act a).shared = pool.shared ∨
      ∃ c, (pool.act a).shared = (I.exec c pool.shared).1 := by
  cases a with
  | spawn prog => exact .inl rfl
  | step i =>
    simp only [act]
    cases pool.threads[i]? with
    | none => exact .inl rfl
    | some prog => exact prog.step_shared pool.shared

theorem invariant_act {P : σ → Prop} (hex : ∀ c s, P s → P (I.exec c s).1)
    {pool : Pool I} (h : P pool.shared) (actions : List (Action I)) :
    P (runFrom act pool actions).shared := by
  refine invariant_run (I := fun pool : Pool I => P pool.shared) ?_ h actions
  intro pool a hpo
  rcases pool.act_shared a with hs | ⟨c, hs⟩
  · rwa [hs]
  · rw [hs]
    exact hex c _ hpo

/-- A reflexive and transitive relation across every call holds across every
interleaving. -/
theorem relation_act {R : σ → σ → Prop} (hre : ∀ s, R s s)
    (htr : ∀ a b c, R a b → R b c → R a c) (hex : ∀ c s, R s (I.exec c s).1)
    (pool : Pool I) (actions : List (Action I)) :
    R pool.shared (runFrom act pool actions).shared := by
  refine relation_run (R := fun p q : Pool I => R p.shared q.shared) (fun p => hre _)
    (fun a b c => htr _ _ _) ?_ pool actions
  intro pool a
  rcases pool.act_shared a with hs | ⟨c, hs⟩
  · rw [hs]
    exact hre _
  · rw [hs]
    exact hex c _

end Pool
end Pdcm.Library
