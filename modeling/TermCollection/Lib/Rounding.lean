import Mathlib.Algebra.Order.Field.Power
import Mathlib.Data.Rat.Floor
import Mathlib.Tactic.Linarith
import Mathlib.Tactic.Positivity
import Mathlib.Tactic.Ring

/-!
# Rounding to significant bits

Binary numbers that are not negative and far from the ends of their range: an exact result is rounded to
`p` significant bits, to the even one of two nearest numbers.
-/

namespace TermCollection

def pow2 (k : ℤ) : ℚ := if 0 ≤ k then ((2 ^ k.toNat : ℕ) : ℚ) else 1 / ((2 ^ (-k).toNat : ℕ) : ℚ)

/-- The greatest power of two that a positive number reaches. -/
def exponent (q : ℚ) : ℤ :=
  let k := (q.num.natAbs.log2 : ℤ) - q.den.log2
  if pow2 k ≤ q then k else k - 1

/-- The nearest integer. -/
def roundHalfEven (q : ℚ) : ℤ :=
  let r := q - ⌊q⌋
  if r < 1 / 2 ∨ (r = 1 / 2 ∧ ⌊q⌋ % 2 = 0) then ⌊q⌋ else ⌊q⌋ + 1

def roundBits (p : ℕ) (q : ℚ) : ℚ :=
  let u := pow2 (exponent q + 1 - p)
  roundHalfEven (q / u) * u

theorem pow2_pos (k : ℤ) : 0 < pow2 k := by
  have hpos : ∀ n : ℕ, (0 : ℚ) < ((2 ^ n : ℕ) : ℚ) := fun n => Nat.cast_pos.mpr (Nat.two_pow_pos n)
  rw [pow2]
  split
  · exact hpos _
  · exact one_div_pos.mpr (hpos _)

theorem roundHalfEven_nonneg {q : ℚ} (h : 0 ≤ q) : 0 ≤ roundHalfEven q := by
  have hfloor : 0 ≤ ⌊q⌋ := Int.floor_nonneg.mpr h
  simp only [roundHalfEven]
  split
  · exact hfloor
  · exact Int.add_nonneg hfloor Int.one_nonneg

theorem roundBits_nonneg (p : ℕ) {q : ℚ} (h : 0 ≤ q) : 0 ≤ roundBits p q := by
  have hu := pow2_pos (exponent q + 1 - p)
  exact mul_nonneg (Int.cast_nonneg (roundHalfEven_nonneg (div_nonneg h hu.le))) hu.le

/-- The double `7.0 / 60`. -/
example : roundBits 53 (7 / 60) = 4203359652212463 / 36028797018963968 := by decide +kernel

/-! ## Errors -/

theorem pow2_eq (k : ℤ) : pow2 k = 2 ^ k := by
  rw [pow2]
  split
  · rename_i hk
    obtain ⟨n, rfl⟩ := Int.eq_ofNat_of_zero_le hk
    simp
  · rename_i hk
    obtain ⟨n, hn⟩ := Int.eq_ofNat_of_zero_le (Int.le_of_lt (Int.neg_pos_of_neg (Int.not_le.mp hk)))
    have hneg : k = -(n : ℤ) := by omega
    rw [hneg]
    simp

theorem pow2_exponent_le {q : ℚ} (h : 0 < q) : pow2 (exponent q) ≤ q := by
  simp only [exponent]
  split
  · assumption
  · have hnum : q.num.natAbs ≠ 0 := Int.natAbs_ne_zero.mpr (Rat.num_pos.mpr h).ne'
    have hlow : ((2 : ℚ)) ^ q.num.natAbs.log2 ≤ q.num.natAbs := by
      exact_mod_cast Nat.log2_self_le hnum
    have hhigh : (q.den : ℚ) ≤ 2 ^ (q.den.log2 + 1) := by
      exact_mod_cast Nat.lt_log2_self.le
    have hden : (0 : ℚ) < q.den := Nat.cast_pos.mpr q.den_pos
    have habs : ((q.num.natAbs : ℕ) : ℚ) = q.num := by
      rw [← Int.cast_natCast, Int.natAbs_of_nonneg (Rat.num_nonneg.mpr h.le)]
    rw [pow2_eq, sub_sub, ← Int.natCast_succ, zpow_sub₀ two_ne_zero, zpow_natCast, zpow_natCast]
    calc (2 : ℚ) ^ q.num.natAbs.log2 / 2 ^ (q.den.log2 + 1)
        ≤ q.num.natAbs / q.den := by gcongr
      _ = q := by rw [habs, Rat.num_div_den]

theorem roundHalfEven_dist (q : ℚ) : |(roundHalfEven q : ℚ) - q| ≤ 1 / 2 := by
  have hlow := Int.floor_le q
  have hhigh := Int.lt_floor_add_one q
  simp only [roundHalfEven]
  split
  · rename_i h
    rw [abs_le]
    constructor
    · rcases h with h | ⟨h, -⟩ <;> linarith
    · linarith
  · rename_i h
    rw [not_or, not_lt] at h
    push_cast
    rw [abs_le]
    constructor <;> linarith [h.1]

/-- The relative error of a rounded number. -/
theorem roundBits_dist (p : ℕ) {q : ℚ} (h : 0 ≤ q) : |roundBits p q - q| ≤ q / 2 ^ p := by
  rcases h.eq_or_lt with rfl | h
  · simp [roundBits, roundHalfEven]
  · have hu := pow2_pos (exponent q + 1 - p)
    have hround := roundHalfEven_dist (q / pow2 (exponent q + 1 - p))
    have hunit : pow2 (exponent q + 1 - p) = pow2 (exponent q) * 2 / 2 ^ p := by
      rw [pow2_eq, pow2_eq, zpow_sub₀ two_ne_zero, zpow_add_one₀ two_ne_zero, zpow_natCast]
    calc |roundBits p q - q|
        = |(roundHalfEven (q / pow2 (exponent q + 1 - p)) : ℚ) - q / pow2 (exponent q + 1 - p)| *
            pow2 (exponent q + 1 - p) := by
          rw [← abs_of_pos hu, ← abs_mul, abs_of_pos hu, sub_mul, div_mul_cancel₀ _ hu.ne']
          rfl
      _ ≤ 1 / 2 * pow2 (exponent q + 1 - p) := by gcongr
      _ = pow2 (exponent q) / 2 ^ p := by rw [hunit]; ring
      _ ≤ q / 2 ^ p := by
          have := pow2_exponent_le h
          gcongr

end TermCollection
