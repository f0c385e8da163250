import Mathlib.Tactic

/-!
# Parsing a stream of frames

A framing looks at the head of a stream and finds that it does not hold a whole item yet,
that it never will, or an item and how long it is; more input after a decided head does
not change the decision. `parse` reads items from the front of a stream until it is stuck
in one of the first two ways. A reader that keeps the undecided rest and parses it together
with the next chunk reads what `parse` reads from the whole stream, however it was cut.
-/

namespace Pdcm.Library

open List

/-- What stands at the head of a stream. -/
inductive Head (α ε : Type*) where
  | incomplete
  | malformed (error : ε)
  | item (a : α) (size : ℕ)

structure Framing (β α ε : Type*) where
  head : List β → Head α ε
  size_pos : ∀ {bs a n}, head bs = .item a n → 0 < n
  size_le : ∀ {bs a n}, head bs = .item a n → n ≤ bs.length
  head_append : ∀ {bs} (cs), head bs ≠ .incomplete → head (bs ++ cs) = head bs

/-- Where a parse stopped: before an undecided rest, or for good. -/
inductive Ending (β ε : Type*) where
  | waiting (rest : List β)
  | malformed (error : ε)

structure Parsed (β α ε : Type*) where
  items : List α
  ending : Ending β ε

namespace Framing

variable {β α ε : Type*} (F : Framing β α ε) {bs : List β} {e : ε} {rest : List β}

/-- Every item takes at least one byte, so the length of the stream is fuel enough. -/
def parseFrom : ℕ → List β → Parsed β α ε
  | 0, bs => ⟨[], .waiting bs⟩
  | fuel + 1, bs =>
    match F.head bs with
    | .incomplete => ⟨[], .waiting bs⟩
    | .malformed e => ⟨[], .malformed e⟩
    | .item a n => ⟨a :: (parseFrom fuel (bs.drop n)).items, (parseFrom fuel (bs.drop n)).ending⟩

def parse (bs : List β) : Parsed β α ε := F.parseFrom (bs.length + 1) bs

/-- Induction along the items of a stream. -/
theorem parse_induction {motive : List β → Prop}
    (incomplete : ∀ bs, F.head bs = .incomplete → motive bs)
    (malformed : ∀ bs e, F.head bs = .malformed e → motive bs)
    (item : ∀ bs a n, F.head bs = .item a n → motive (bs.drop n) → motive bs) (bs : List β) :
    motive bs := by
  induction hlen : bs.length using Nat.strongRecOn generalizing bs with
  | ind len ih =>
    cases hhe : F.head bs with
    | incomplete => exact incomplete bs hhe
    | malformed e => exact malformed bs e hhe
    | item a n =>
      have hpos := F.size_pos hhe
      have hle := F.size_le hhe
      refine item bs a n hhe (ih (bs.drop n).length ?_ (bs.drop n) rfl)
      rw [length_drop]
      omega

theorem parseFrom_eq_parse (bs : List β) :
    ∀ fuel, bs.length < fuel → F.parseFrom fuel bs = F.parse bs := by
  induction bs using F.parse_induction with
  | incomplete bs hhe =>
    rintro (_ | fuel) hfu
    · omega
    · simp [parse, parseFrom, hhe]
  | malformed bs e hhe =>
    rintro (_ | fuel) hfu
    · omega
    · simp [parse, parseFrom, hhe]
  | item bs a n hhe ih =>
    have hpos := F.size_pos hhe
    have hle := F.size_le hhe
    have hdr : (bs.drop n).length < bs.length := by
      rw [length_drop]
      omega
    rintro (_ | fuel) hfu
    · omega
    · simp only [parse, parseFrom, hhe, ih fuel (by omega), ih bs.length hdr]

variable {F}

theorem parse_incomplete (h : F.head bs = .incomplete) : F.parse bs = ⟨[], .waiting bs⟩ := by
  simp [parse, parseFrom, h]

theorem parse_malformed (h : F.head bs = .malformed e) : F.parse bs = ⟨[], .malformed e⟩ := by
  simp [parse, parseFrom, h]

theorem parse_item {a : α} {n : ℕ} (h : F.head bs = .item a n) :
    F.parse bs = ⟨a :: (F.parse (bs.drop n)).items, (F.parse (bs.drop n)).ending⟩ := by
  have hpos := F.size_pos h
  have hle := F.size_le h
  have hfu : (bs.drop n).length < bs.length := by
    rw [length_drop]
    omega
  conv_lhs => rw [parse, parseFrom, h]
  simp only [F.parseFrom_eq_parse _ _ hfu]

/-- Parsing stops before a rest without a whole item, and goes on from there when more
input comes. -/
theorem parse_stops (F : Framing β α ε) (bs : List β) :
    ∃ rest, (F.head rest = .incomplete ∧ (F.parse bs).ending = .waiting rest ∨
        ∃ e, F.head rest = .malformed e ∧ (F.parse bs).ending = .malformed e) ∧
      ∀ cs, F.parse (bs ++ cs) =
        ⟨(F.parse bs).items ++ (F.parse (rest ++ cs)).items, (F.parse (rest ++ cs)).ending⟩ := by
  induction bs using F.parse_induction with
  | incomplete bs hhe =>
    rw [parse_incomplete hhe]
    exact ⟨bs, .inl ⟨hhe, rfl⟩, fun _ => rfl⟩
  | malformed bs e hhe =>
    rw [parse_malformed hhe]
    exact ⟨bs, .inr ⟨e, hhe, rfl⟩, fun _ => rfl⟩
  | item bs a n hhe ih =>
    obtain ⟨rest, hst, hap⟩ := ih
    rw [parse_item hhe]
    refine ⟨rest, hst, fun cs => ?_⟩
    have hbo : F.head (bs ++ cs) = .item a n := by
      rw [F.head_append cs (by simp [hhe]), hhe]
    rw [parse_item hbo, drop_append_of_le_length (F.size_le hhe), hap]
    rfl

theorem head_of_waiting (h : (F.parse bs).ending = .waiting rest) : F.head rest = .incomplete := by
  obtain ⟨_, ⟨hhe, hen⟩ | ⟨e, -, hen⟩, -⟩ := F.parse_stops bs
  · cases h.symm.trans hen
    exact hhe
  · cases h.symm.trans hen

theorem head_of_malformed (h : (F.parse bs).ending = .malformed e) :
    ∃ rest, F.head rest = .malformed e := by
  obtain ⟨rest, ⟨-, hen⟩ | ⟨_, hhe, hen⟩, -⟩ := F.parse_stops bs
  · cases h.symm.trans hen
  · cases h.symm.trans hen
    exact ⟨rest, hhe⟩

theorem parse_append_of_malformed (h : (F.parse bs).ending = .malformed e) (cs : List β) :
    F.parse (bs ++ cs) = F.parse bs := by
  obtain ⟨rest, ⟨-, hen⟩ | ⟨_, hhe, hen⟩, hap⟩ := F.parse_stops bs
  · cases h.symm.trans hen
  · have hbad := (F.head_append cs (by simp [hhe])).trans hhe
    rw [hap, parse_malformed hbad, append_nil, ← hen]

theorem parse_append_of_waiting (h : (F.parse bs).ending = .waiting rest) (cs : List β) :
    F.parse (bs ++ cs) =
      ⟨(F.parse bs).items ++ (F.parse (rest ++ cs)).items, (F.parse (rest ++ cs)).ending⟩ := by
  obtain ⟨_, ⟨-, hen⟩ | ⟨_, -, hen⟩, hap⟩ := F.parse_stops bs
  · cases h.symm.trans hen
    exact hap cs
  · cases h.symm.trans hen

/-- A piece of a stream that is read as one item, whatever follows it. -/
def Spells (F : Framing β α ε) (a : α) (piece : List β) : Prop :=
  F.head piece = .item a piece.length

theorem parse_pieces {items : List α} {pieces : List (List β)}
    (h : List.Forall₂ F.Spells items pieces) (rest : List β) :
    F.parse (pieces.flatten ++ rest) = ⟨items ++ (F.parse rest).items, (F.parse rest).ending⟩ := by
  induction h with
  | nil => rfl
  | @cons a piece items pieces hpi _ ih =>
    have hhe : F.head (piece ++ (pieces.flatten ++ rest)) = .item a piece.length := by
      rw [Spells] at hpi
      rw [F.head_append _ (by simp [hpi]), hpi]
    rw [flatten_cons, append_assoc, parse_item hhe, drop_left, ih]
    rfl

/-- What was read stands in front of the stream, piece by piece. -/
theorem pieces_of_parse (hsp : ∀ {bs a n}, F.head bs = .item a n → F.Spells a (bs.take n))
    (bs : List β) :
    ∃ pieces rest, bs = pieces.flatten ++ rest ∧
      List.Forall₂ F.Spells (F.parse bs).items pieces := by
  induction bs using F.parse_induction with
  | incomplete bs hhe =>
    rw [parse_incomplete hhe]
    exact ⟨[], bs, rfl, .nil⟩
  | malformed bs e hhe =>
    rw [parse_malformed hhe]
    exact ⟨[], bs, rfl, .nil⟩
  | item bs a n hhe ih =>
    obtain ⟨pieces, rest, hbs, hit⟩ := ih
    rw [parse_item hhe]
    refine ⟨bs.take n :: pieces, rest, ?_, .cons (hsp hhe) hit⟩
    rw [flatten_cons, append_assoc, ← hbs, take_append_drop]

end Framing
end Pdcm.Library
