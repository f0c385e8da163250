import Mathlib.Tactic

/-!
# Big-endian numbers

The bytes of a number in a field of fixed width, most significant byte first, and the
number that bytes spell. The two are inverse to each other on the numbers that fit the
width. Fixed-width words are read and written with shifts; their values are the spelled
numbers.
-/

namespace Pdcm.Library.BigEndian

open List Nat

variable (bs : List UInt8)

/-- The low `width` bytes of a number. -/
def bytes : ℕ → ℕ → List UInt8
  | 0, _ => []
  | width + 1, n => bytes width (n / 256) ++ [UInt8.ofNat (n % 256)]

def value (bs : List UInt8) : ℕ := bs.foldl (fun acc b => acc * 256 + b.toNat) 0

@[simp] theorem length_bytes (width n : ℕ) : (bytes width n).length = width := by
  induction width generalizing n with
  | zero => rfl
  | succ width ih => simp [bytes, ih]

theorem drop_bytes {width k : ℕ} (h : width ≤ k) (n : ℕ) : (bytes width n).drop k = [] :=
  drop_eq_nil_of_le ((length_bytes width n).trans_le h)

theorem value_concat (b : UInt8) : value (bs ++ [b]) = value bs * 256 + b.toNat := by
  simp [value]

theorem value_lt : value bs < 256 ^ bs.length := by
  induction bs using reverseRecOn with
  | nil => simp [value]
  | append_singleton bs b ih =>
    have hb := b.toNat_lt
    rw [value_concat, length_append, length_singleton]
    omega

theorem value_bytes {width n : ℕ} (h : n < 256 ^ width) : value (bytes width n) = n := by
  induction width generalizing n with
  | zero => simp_all [bytes, value]
  | succ width ih =>
    have hdiv : n / 256 < 256 ^ width := by
      omega
    have hby : (UInt8.ofNat (n % 256)).toNat = n % 256 := by simp
    rw [bytes, value_concat, ih hdiv]
    omega

theorem bytes_value : bytes bs.length (value bs) = bs := by
  induction bs using reverseRecOn with
  | nil => rfl
  | append_singleton bs b ih =>
    have hb := b.toNat_lt
    have hdiv : (value bs * 256 + b.toNat) / 256 = value bs := by omega
    have hmod : (value bs * 256 + b.toNat) % 256 = b.toNat := by omega
    rw [value_concat, length_append, length_singleton, bytes, hdiv, ih]
    simp

/-! ### Words -/

theorem shiftLeft_or_byte (n : ℕ) (b : UInt8) : (n <<< 8) ||| b.toNat = n * 256 + b.toNat := by
  rw [← shiftLeft_add_eq_or_of_lt b.toNat_lt, shiftLeft_eq]

theorem shiftLeft_mod_or_byte {n m : ℕ} (h : n * 256 < m) (b : UInt8) :
    (n <<< 8 % m) ||| b.toNat = n * 256 + b.toNat := by
  rw [mod_eq_of_lt (by rwa [shiftLeft_eq]), shiftLeft_or_byte]

theorem toNat_u16 (a b : UInt8) : ((a.toUInt16 <<< 8) ||| b.toUInt16).toNat = value [a, b] := by
  have ha := a.toNat_lt
  simp only [UInt16.toNat_or, UInt16.toNat_shiftLeft, UInt8.toNat_toUInt16]
  exact (shiftLeft_mod_or_byte (by omega) b).trans (by simp [value])

theorem toNat_u32 (a b c d : UInt8) :
    ((a.toUInt32 <<< 24) ||| (b.toUInt32 <<< 16) ||| (c.toUInt32 <<< 8) ||| d.toUInt32).toNat =
      value [a, b, c, d] := by
  have hfi : ∀ (x : UInt8) (i : ℕ), i ≤ 24 → x.toNat <<< i % 2 ^ 32 = x.toNat <<< i := by
    intro x i hi
    have hx := x.toNat_lt
    have hpow : 2 ^ i ≤ 2 ^ 24 := Nat.pow_le_pow_right (by omega) hi
    refine mod_eq_of_lt ?_
    rw [shiftLeft_eq]
    nlinarith
  calc
    _ = a.toNat <<< 24 ||| b.toNat <<< 16 ||| c.toNat <<< 8 ||| d.toNat := by
      rw [← hfi a 24 (by omega), ← hfi b 16 (by omega), ← hfi c 8 (by omega)]
      simp
    _ = ((a.toNat <<< 8 ||| b.toNat) <<< 8 ||| c.toNat) <<< 8 ||| d.toNat := by
      simp only [shiftLeft_or_distrib, ← shiftLeft_add]
    _ = value [a, b, c, d] := by simp [shiftLeft_or_byte, value]

theorem toNat_u64_push {v : UInt64} (b : UInt8) (h : v.toNat < 2 ^ 56) :
    ((v <<< 8) ||| b.toUInt64).toNat = v.toNat * 256 + b.toNat := by
  simp only [UInt64.toNat_or, UInt64.toNat_shiftLeft]
  exact shiftLeft_mod_or_byte (by omega) b

theorem bytes_u16 (v : UInt16) : bytes 2 v.toNat = [(v >>> 8).toUInt8, v.toUInt8] := by
  simp [bytes, ← UInt8.toNat_inj, Nat.shiftRight_eq_div_pow]

theorem bytes_u32 (v : UInt32) :
    bytes 4 v.toNat = [(v >>> 24).toUInt8, (v >>> 16).toUInt8, (v >>> 8).toUInt8, v.toUInt8] := by
  simp [bytes, ← UInt8.toNat_inj, Nat.shiftRight_eq_div_pow, Nat.div_div_eq_div_mul]

theorem bytes_u64 (v : UInt64) :
    bytes 8 v.toNat =
      (range 8).map fun index => (v >>> UInt64.ofNat ((7 - index) * 8)).toUInt8 := by
  simp [bytes, range_succ, ← UInt8.toNat_inj, Nat.shiftRight_eq_div_pow,
    Nat.div_div_eq_div_mul]

end Pdcm.Library.BigEndian
