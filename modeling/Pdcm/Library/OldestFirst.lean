import Mathlib.Tactic

/-!
# Draining queues oldest first

A family of queues is drained one entry at a time, each time at a queue whose front no
other front precedes. The log of the drained entries gives back what every queue has lost.
If the queues are in order to begin with, every drained entry is at least as old as every
entry that is left.
-/

namespace Pdcm.Library

open List

variable {K α T : Type*} [LinearOrder T] {time : α → T} {q q' q'' : K → List α} {k : K} {a : α}

/-- One queue has lost its front; no queue has an older one. -/
structure Pops (time : α → T) (q q' : K → List α) (k : K) (a : α) : Prop where
  popped : q k = a :: q' k
  others : ∀ j, j ≠ k → q' j = q j
  oldest : ∀ j, ∀ b ∈ (q j).head?, time a ≤ time b

inductive Drains (time : α → T) : (K → List α) → List (K × α) → (K → List α) → Prop
  | nil (q : K → List α) : Drains time q [] q
  | pop {q q' q'' : K → List α} {k : K} {a : α} {log : List (K × α)}
      (hpop : Pops time q q' k a) (rest : Drains time q' log q'') :
      Drains time q ((k, a) :: log) q''

theorem Pops.suffix (h : Pops time q q' k a) (j : K) : q' j <:+ q j := by
  by_cases hj : j = k
  · rw [hj, h.popped]
    exact suffix_cons a _
  · rw [h.others j hj]

theorem Drains.suffix {log : List (K × α)} (h : Drains time q log q') (j : K) : q' j <:+ q j := by
  induction h with
  | nil q => exact suffix_refl _
  | pop hpop _ ih => exact ih.trans (hpop.suffix j)

/-- The entries of the log that came from one queue. -/
def drainedFrom [DecidableEq K] (log : List (K × α)) (j : K) : List α :=
  (log.filter fun p => decide (p.1 = j)).map Prod.snd

/-- What the log has of a queue stood in front of what is left of it. -/
theorem Drains.split [DecidableEq K] {log : List (K × α)} (h : Drains time q log q') (j : K) :
    q j = drainedFrom log j ++ q' j := by
  induction h with
  | nil q => rfl
  | @pop q q' q'' k a log hpop _ ih =>
    by_cases hj : k = j
    · subst hj
      rw [hpop.popped, ih, drainedFrom, drainedFrom, filter_cons_of_pos (by simp)]
      rfl
    · rw [drainedFrom, filter_cons_of_neg (by simpa using hj), ← hpop.others j (.symm hj)]
      exact ih

theorem Drains.oldest {log : List (K × α)} (h : Drains time q log q')
    (hor : ∀ j, (q j).Pairwise fun x y => time x ≤ time y) :
    ∀ p ∈ log, ∀ j, ∀ b ∈ q' j, time p.2 ≤ time b := by
  induction h with
  | nil q => simp
  | @pop q q' q'' k a log hpop rest ih =>
    intro p hp j b hb
    rcases mem_cons.mp hp with rfl | hp
    · have hbq : b ∈ q j := (hpop.suffix j).subset ((rest.suffix j).subset hb)
      have hre := hor j
      cases hqu : q j with
      | nil => simp [hqu] at hbq
      | cons front others =>
        have hfr := hpop.oldest j front (by simp [hqu])
        rw [hqu] at hbq hre
        rcases mem_cons.mp hbq with rfl | hbo
        · exact hfr
        · exact hfr.trans ((pairwise_cons.mp hre).1 b hbo)
    · exact ih (fun i => (hor i).sublist (hpop.suffix i).sublist) p hp j b hb

end Pdcm.Library
