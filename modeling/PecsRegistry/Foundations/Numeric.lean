import Mathlib.Algebra.Order.Floor.Ring
import Mathlib.Data.Rat.Floor
import Mathlib.Algebra.Order.Field.Rat
import Mathlib.Tactic.Linarith
import Mathlib.Tactic.NormNum
import Mathlib.Tactic.Positivity
import Mathlib.Tactic.FieldSimp

/-!
# Foundations/Numeric — the machine numbers of the selectors

A finite `f64` is its exact value, a rational.  A product is rounded to 53 significant bits, ties to
even (`mulF64`); the cast to `isize` truncates and saturates (`asIsize`).  Arithmetic on `isize` and
`usize` is checked: `none` is an overflow or a division by zero, where the program panics.
-/

namespace PecsRegistry

/-! ## `f64` -/

/-- The nearest integer, a tie going to the even one. -/
def roundHalfEven (q : ℚ) : ℤ :=
  if q - ⌊q⌋ < 1 / 2 then ⌊q⌋
  else if 1 / 2 < q - ⌊q⌋ then ⌊q⌋ + 1
  else if ⌊q⌋ % 2 = 0 then ⌊q⌋ else ⌊q⌋ + 1

/-- The unit in the last place of a double in the binade of `q ≥ 1`. -/
def ulp (q : ℚ) : ℚ := 2 ^ ((Nat.log2 ⌊q⌋.toNat : ℤ) - 52)

/-- A product of two doubles, where the exact product is at least one. -/
def mulF64 (a b : ℚ) : ℚ := roundHalfEven (a * b / ulp (a * b)) * ulp (a * b)

/-- The cast of an integer to `f64`. -/
def asF64 (n : ℤ) : ℚ := roundHalfEven (n / ulp |n|) * ulp |n|

example : asF64 (2 ^ 53 + 1) = 2 ^ 53 := by decide +kernel

/-- Rounding does not cross an integer. -/
theorem le_roundHalfEven {n : ℤ} {q : ℚ} (h : (n : ℚ) ≤ q) : n ≤ roundHalfEven q := by
  have hn : n ≤ ⌊q⌋ := Int.le_floor.mpr h
  rw [roundHalfEven]
  split_ifs <;> omega

theorem ulp_pos (q : ℚ) : 0 < ulp q := zpow_pos (by norm_num) _

/-- Rounding is off by at most a half… -/
theorem abs_roundHalfEven_sub_le (q : ℚ) : |(roundHalfEven q : ℚ) - q| ≤ 1 / 2 := by
  have hlow := Int.floor_le q
  have hhigh := (Int.lt_floor_add_one q).le
  rw [abs_le, roundHalfEven]
  split_ifs <;> push_cast <;> constructor <;> linarith

/-- …and a product by at most half a unit in the last place. -/
theorem abs_mulF64_sub_le (a b : ℚ) : |mulF64 a b - a * b| ≤ ulp (a * b) / 2 := by
  have hpos := ulp_pos (a * b)
  have hscaled : mulF64 a b - a * b
      = (roundHalfEven (a * b / ulp (a * b)) - a * b / ulp (a * b)) * ulp (a * b) := by
    rw [mulF64, sub_mul, div_mul_cancel₀ _ hpos.ne']
  rw [hscaled, abs_mul, abs_of_pos hpos]
  calc |(roundHalfEven (a * b / ulp (a * b)) : ℚ) - a * b / ulp (a * b)| * ulp (a * b)
      ≤ 1 / 2 * ulp (a * b) :=
        mul_le_mul_of_nonneg_right (abs_roundHalfEven_sub_le _) hpos.le
    _ = ulp (a * b) / 2 := by ring

/-- Below `2^52` the doubles still count in halves. -/
theorem ulp_le_half {q : ℚ} (h : q < 2 ^ 52) : ulp q ≤ 1 / 2 := by
  have hfloor : ⌊q⌋.toNat < 2 ^ 52 := by
    have hlt : ⌊q⌋ < 2 ^ 52 := Int.floor_lt.mpr (by exact_mod_cast h)
    omega
  have hlog : Nat.log2 ⌊q⌋.toNat ≤ 51 := by
    rcases Nat.eq_zero_or_pos ⌊q⌋.toNat with h0 | hpos
    · rw [h0]
      decide
    · exact Nat.lt_succ_iff.mp ((Nat.log2_lt hpos.ne').mpr hfloor)
  calc ulp q ≤ 2 ^ (-1 : ℤ) := zpow_le_zpow_right₀ (by norm_num) (by omega)
    _ = 1 / 2 := by norm_num

/-- **A product of at least a hundred rounds to at least a hundred**: a hundred is a double, and the
binades above its own start beyond it. -/
theorem hundred_le_mulF64 {a b : ℚ} (h : 100 ≤ a * b) : 100 ≤ mulF64 a b := by
  have hfl : (100 : ℤ) ≤ ⌊a * b⌋ := Int.le_floor.mpr (by exact_mod_cast h)
  obtain ⟨e, he⟩ : ∃ e, Nat.log2 ⌊a * b⌋.toNat = e := ⟨_, rfl⟩
  have hne : ⌊a * b⌋.toNat ≠ 0 := by omega
  have hle : 2 ^ e ≤ ⌊a * b⌋.toNat := (Nat.le_log2 hne).mp he.ge
  have hlt : ⌊a * b⌋.toNat < 2 ^ (e + 1) := (Nat.log2_lt hne).mp (by omega)
  have he6 : 6 ≤ e := by
    by_contra hlt6
    have : 2 ^ (e + 1) ≤ 2 ^ 6 := Nat.pow_le_pow_right (by norm_num) (by omega)
    omega
  have hulp : ulp (a * b) = 2 ^ ((e : ℤ) - 52) := by rw [ulp, he]
  have hpos : (0 : ℚ) < 2 ^ ((e : ℤ) - 52) := hulp ▸ ulp_pos (a * b)
  rw [mulF64, hulp]
  rcases eq_or_lt_of_le he6 with rfl | h7
  · have hk : ((100 * 2 ^ 46 : ℤ) : ℚ) ≤ a * b / 2 ^ (((6 : ℕ) : ℤ) - 52) := by
      rw [le_div_iff₀ hpos]
      norm_num
      linarith
    have := (Int.cast_le (R := ℚ)).mpr (le_roundHalfEven hk)
    calc (100 : ℚ) = ((100 * 2 ^ 46 : ℤ) : ℚ) * 2 ^ (((6 : ℕ) : ℤ) - 52) := by norm_num
      _ ≤ _ := mul_le_mul_of_nonneg_right this hpos.le
  · have hpow : (2 : ℚ) ^ (e : ℤ) ≤ a * b := by
      have h1 : ((2 ^ e : ℕ) : ℤ) ≤ ⌊a * b⌋ := by omega
      have h2 : (((2 ^ e : ℕ) : ℤ) : ℚ) ≤ a * b := Int.le_floor.mp h1
      simpa using h2
    have hsplit : (2 : ℚ) ^ (e : ℤ) = ((2 ^ 52 : ℤ) : ℚ) * 2 ^ ((e : ℤ) - 52) := by
      rw [zpow_sub₀ (by norm_num)]
      field_simp
      norm_num
    have hk : ((2 ^ 52 : ℤ) : ℚ) ≤ a * b / 2 ^ ((e : ℤ) - 52) := by
      rw [le_div_iff₀ hpos, ← hsplit]
      exact hpow
    have := (Int.cast_le (R := ℚ)).mpr (le_roundHalfEven hk)
    have h128 : (2 : ℚ) ^ (7 : ℕ) ≤ 2 ^ e := pow_le_pow_right₀ (by norm_num) h7
    calc (100 : ℚ) ≤ 2 ^ (e : ℤ) := by norm_num at h128 ⊢; linarith
      _ = ((2 ^ 52 : ℤ) : ℚ) * 2 ^ ((e : ℤ) - 52) := hsplit
      _ ≤ _ := mul_le_mul_of_nonneg_right this hpos.le

/-! ## `isize` -/

/-- The bounds of `isize` on a 64-bit target. -/
def isizeMin : ℤ := -2 ^ 63
def isizeMax : ℤ := 2 ^ 63 - 1

/-- The cast of a finite double to `isize`: truncation towards zero, saturating at the bounds. -/
def asIsize (q : ℚ) : ℤ := max isizeMin (min isizeMax (q.num.tdiv q.den))

/-- Checked `isize` addition and subtraction. -/
def isizeAdd (a b : ℤ) : Option ℤ :=
  if isizeMin ≤ a + b ∧ a + b ≤ isizeMax then some (a + b) else none

def isizeSub (a b : ℤ) : Option ℤ := isizeAdd a (-b)

theorem isizeAdd_eq_some {a b c : ℤ} (h : isizeAdd a b = some c) :
    c = a + b ∧ isizeMin ≤ c ∧ c ≤ isizeMax := by
  rw [isizeAdd] at h
  split at h
  · rename_i hab
    obtain rfl := Option.some.inj h
    exact ⟨rfl, hab⟩
  · cases h

/-- On what is not negative, truncation is the floor. -/
theorem asIsize_of_nonneg {q : ℚ} (h : 0 ≤ q) : asIsize q = min isizeMax ⌊q⌋ := by
  have hfloor : q.num.tdiv q.den = ⌊q⌋ := by
    rw [Int.tdiv_eq_ediv_of_nonneg (Rat.num_nonneg.mpr h), Rat.floor_def']
  rw [asIsize, hfloor]
  have hzero := Int.floor_nonneg.mpr h
  exact max_eq_right (le_min (by norm_num [isizeMin, isizeMax])
    (le_trans (by norm_num [isizeMin]) hzero))

theorem le_asIsize {n : ℤ} {q : ℚ} (hn : 0 ≤ n) (hmax : n ≤ isizeMax) (h : (n : ℚ) ≤ q) :
    n ≤ asIsize q := by
  rw [asIsize_of_nonneg (le_trans (by exact_mod_cast hn) h)]
  exact le_min hmax (Int.le_floor.mpr h)

theorem asIsize_lt {n : ℤ} {q : ℚ} (hq : 0 ≤ q) (h : q < n) : asIsize q < n := by
  rw [asIsize_of_nonneg hq]
  exact (min_le_right _ _).trans_lt (Int.floor_lt.mpr h)

/-! ## `usize` -/

/-- Checked `usize` arithmetic, on a 64-bit target. -/
def usizeAdd (a b : UInt64) : Option UInt64 :=
  if a.toNat + b.toNat < 2 ^ 64 then some (a + b) else none

def usizeSub (a b : UInt64) : Option UInt64 := if b ≤ a then some (a - b) else none

def usizeDiv (a b : UInt64) : Option UInt64 := if b = 0 then none else some (a / b)

def usizeRem (a b : UInt64) : Option UInt64 := if b = 0 then none else some (a % b)

section Usize

variable {a b : UInt64}

theorem exists_usizeAdd (h : a.toNat + b.toNat < 2 ^ 64) :
    ∃ c, usizeAdd a b = some c ∧ c.toNat = a.toNat + b.toNat :=
  ⟨a + b, if_pos h, (UInt64.toNat_add a b).trans (Nat.mod_eq_of_lt h)⟩

theorem exists_usizeSub (h : b.toNat ≤ a.toNat) :
    ∃ c, usizeSub a b = some c ∧ c.toNat = a.toNat - b.toNat :=
  have hle : b ≤ a := UInt64.le_iff_toNat_le.mpr h
  ⟨a - b, if_pos hle, UInt64.toNat_sub_of_le a b hle⟩

theorem ne_zero_of_toNat_pos (h : 0 < b.toNat) : b ≠ 0 := by
  rintro rfl
  exact absurd h (by decide)

theorem exists_usizeDiv (a : UInt64) (h : 0 < b.toNat) :
    ∃ c, usizeDiv a b = some c ∧ c.toNat = a.toNat / b.toNat :=
  ⟨a / b, if_neg (ne_zero_of_toNat_pos h), UInt64.toNat_div a b⟩

theorem exists_usizeRem (a : UInt64) (h : 0 < b.toNat) :
    ∃ c, usizeRem a b = some c ∧ c.toNat = a.toNat % b.toNat :=
  ⟨a % b, if_neg (ne_zero_of_toNat_pos h), UInt64.toNat_mod a b⟩

end Usize

end PecsRegistry
