import Mathlib.Tactic

/-!
# Blocks of consecutive indices, settled in order

Indices `1, 2, ..` are issued in blocks of consecutive ones and each block is settled once.
A ledger says that the outstanding blocks are disjoint and lie above a mark, and that the
settled indices are exactly the issued ones outside the outstanding blocks. Settling the
lowest outstanding block moves the mark to its end and keeps all this, whatever order the
blocks are stored in.
-/

namespace Pdcm.Library

open List

/-- The indices `start, .., start + count - 1`. -/
structure Block where
  start : ℕ
  count : ℕ
  deriving DecidableEq, Repr

namespace Block

def Apart (a b : Block) : Prop := a.start + a.count ≤ b.start ∨ b.start + b.count ≤ a.start

theorem Apart.symm {a b : Block} (h : Apart a b) : Apart b a := Or.symm h

end Block

/-- `issued` indices were issued, `settled` of them settled, the last of these is `mark`. -/
structure Ledger (issued mark settled : ℕ) (blocks : List Block) : Prop where
  apart : blocks.Pairwise Block.Apart
  count_pos : ∀ b ∈ blocks, 0 < b.count
  above : ∀ b ∈ blocks, mark < b.start
  below : ∀ b ∈ blocks, b.start + b.count ≤ issued + 1
  mark_le : mark ≤ issued
  balance : settled + (blocks.map Block.count).sum = issued

namespace Ledger

variable {issued mark settled : ℕ} {blocks blocks' : List Block}

theorem empty : Ledger 0 0 0 [] := by
  constructor <;> simp

theorem perm (h : Ledger issued mark settled blocks) (hp : blocks.Perm blocks') :
    Ledger issued mark settled blocks' where
  apart := (hp.pairwise_iff Block.Apart.symm).mp h.apart
  count_pos b hb := h.count_pos b (hp.mem_iff.mpr hb)
  above b hb := h.above b (hp.mem_iff.mpr hb)
  below b hb := h.below b (hp.mem_iff.mpr hb)
  mark_le := h.mark_le
  balance := by
    rw [← (hp.map Block.count).sum_eq]
    exact h.balance

theorem issue (h : Ledger issued mark settled blocks) {n : ℕ} (hn : 0 < n) :
    Ledger (issued + n) mark settled (⟨issued + 1, n⟩ :: blocks) where
  apart := by
    refine pairwise_cons.mpr ⟨fun b hb => .inr ?_, h.apart⟩
    exact h.below b hb
  count_pos := by
    intro b hb
    rcases mem_cons.mp hb with rfl | hb
    · exact hn
    · exact h.count_pos b hb
  above := by
    intro b hb
    rcases mem_cons.mp hb with rfl | hb
    · exact Nat.lt_succ_of_le h.mark_le
    · exact h.above b hb
  below := by
    intro b hb
    rcases mem_cons.mp hb with rfl | hb
    · exact le_of_eq (by ring)
    · have hbe := h.below b hb
      omega
  mark_le := h.mark_le.trans (Nat.le_add_right _ _)
  balance := by
    have hba := h.balance
    simp only [map_cons, sum_cons]
    omega

theorem settle {b : Block} (h : Ledger issued mark settled (b :: blocks))
    (hlo : ∀ b' ∈ blocks, b.start ≤ b'.start) :
    Ledger issued (b.start + b.count - 1) (settled + b.count) blocks where
  apart := h.apart.of_cons
  count_pos b' hb' := h.count_pos b' (mem_cons_of_mem _ hb')
  above := by
    intro b' hb'
    have hap := (pairwise_cons.mp h.apart).1 b' hb'
    have hpos := h.count_pos b' (mem_cons_of_mem _ hb')
    have hle := hlo b' hb'
    have hb := h.count_pos b mem_cons_self
    rcases hap with hap | hap <;> omega
  below b' hb' := h.below b' (mem_cons_of_mem _ hb')
  mark_le := by
    have hbe := h.below b mem_cons_self
    omega
  balance := by
    have hba := h.balance
    simp only [map_cons, sum_cons] at hba
    omega

theorem settled_eq (h : Ledger issued mark settled []) : settled = issued := by
  simpa using h.balance

end Ledger
end Pdcm.Library
