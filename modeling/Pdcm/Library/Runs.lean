import Mathlib.Tactic

/-!
# Runs of a step function

A run applies a step function to a list of inputs, oldest first. `Along` says that a
condition held before every step of a run; the induction rules turn what one step
preserves into what a whole run preserves, with or without such a condition.
-/

namespace Pdcm.Library

open List

variable {σ ι : Type*} (step : σ → ι → σ) {cond : σ → ι → Prop} {s : σ} {inputs : List ι}
  {I : σ → Prop}

def runFrom (s : σ) (inputs : List ι) : σ := inputs.foldl step s

/-- `cond` holds of the state before each step and the input it takes. -/
def Along (cond : σ → ι → Prop) : σ → List ι → Prop
  | _, [] => True
  | s, a :: rest => cond s a ∧ Along cond (step s a) rest

variable {step}

@[simp] theorem runFrom_nil (s : σ) : runFrom step s [] = s := rfl

@[simp] theorem runFrom_cons (s : σ) (a : ι) (rest : List ι) :
    runFrom step s (a :: rest) = runFrom step (step s a) rest := rfl

theorem runFrom_append (s : σ) (as bs : List ι) :
    runFrom step s (as ++ bs) = runFrom step (runFrom step s as) bs :=
  foldl_append

theorem along_append {as bs : List ι} :
    Along step cond s (as ++ bs) ↔ Along step cond s as ∧
      Along step cond (runFrom step s as) bs := by
  induction as generalizing s with
  | nil => exact (iff_of_eq (true_and _)).symm
  | cons a rest ih =>
    simp only [cons_append, Along, ih]
    exact (and_assoc).symm

theorem along_of_forall {cond : ι → Prop} (h : ∀ a ∈ inputs, cond a) (s : σ) :
    Along step (fun _ a => cond a) s inputs := by
  induction inputs generalizing s with
  | nil => trivial
  | cons a rest ih =>
    exact ⟨h a mem_cons_self, ih (fun b hb => h b (mem_cons_of_mem a hb)) _⟩

theorem Along.and {first second : σ → ι → Prop} (h : Along step first s inputs)
    (h' : Along step second s inputs) :
    Along step (fun s a => first s a ∧ second s a) s inputs := by
  induction inputs generalizing s with
  | nil => trivial
  | cons a rest ih => exact ⟨⟨h.1, h'.1⟩, ih h.2 h'.2⟩

/-- An invariant that the condition lets every step keep holds after the run. -/
theorem invariant_along (hst : ∀ s a, I s → cond s a → I (step s a)) (hs : I s)
    (h : Along step cond s inputs) : I (runFrom step s inputs) := by
  induction inputs generalizing s with
  | nil => exact hs
  | cons a rest ih => exact ih (hst s a hs h.1) h.2

/-- A law that the invariant and the condition give for each step holds along the run. -/
theorem law_along {law : σ → ι → Prop} (hst : ∀ s a, I s → cond s a → I (step s a))
    (hlaw : ∀ s a, I s → cond s a → law s a) (hs : I s) (h : Along step cond s inputs) :
    Along step law s inputs := by
  induction inputs generalizing s with
  | nil => trivial
  | cons a rest ih => exact ⟨hlaw s a hs h.1, ih (hst s a hs h.1) h.2⟩

theorem invariant_run (hst : ∀ s a, I s → I (step s a)) (hs : I s) (inputs : List ι) :
    I (runFrom step s inputs) := by
  induction inputs generalizing s with
  | nil => exact hs
  | cons a rest ih => exact ih (hst s a hs)

/-- A reflexive and transitive relation between the states around every step holds
between the ends of a run. -/
theorem relation_run {R : σ → σ → Prop} (hre : ∀ s, R s s)
    (htr : ∀ a b c, R a b → R b c → R a c) (hst : ∀ s a, R s (step s a)) (s : σ)
    (inputs : List ι) : R s (runFrom step s inputs) := by
  induction inputs generalizing s with
  | nil => exact hre s
  | cons a rest ih => exact htr _ _ _ (hst s a) (ih _)

/-- Where an entry of a log that grew by one entry stands. -/
theorem split_append_singleton {α : Type*} {log b after : List α} {a x : α}
    (h : log ++ [x] = b ++ a :: after) :
    b = log ∧ a = x ∧ after = [] ∨ ∃ rest, after = rest ++ [x] ∧ log = b ++ a :: rest := by
  rcases eq_nil_or_concat after with rfl | ⟨rest, y, rfl⟩
  · obtain ⟨hlog, hx⟩ := append_inj' h rfl
    exact .inl ⟨hlog.symm, (singleton_inj.mp hx).symm, rfl⟩
  · rw [concat_eq_append, ← cons_append, ← append_assoc] at h
    obtain ⟨hlog, hx⟩ := append_inj' h rfl
    rw [singleton_inj.mp hx]
    exact .inr ⟨rest, concat_eq_append, hlog⟩

instance decidableAlong (cond : σ → ι → Prop) [∀ s a, Decidable (cond s a)] :
    ∀ (s : σ) (inputs : List ι), Decidable (Along step cond s inputs)
  | _, [] => inferInstanceAs (Decidable True)
  | s, a :: rest =>
    have := decidableAlong cond (step s a) rest
    inferInstanceAs (Decidable (cond s a ∧ Along step cond (step s a) rest))

end Pdcm.Library
