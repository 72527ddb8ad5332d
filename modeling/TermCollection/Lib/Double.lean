import Mathlib.Algebra.Group.Int.Defs
import Mathlib.Algebra.Group.Nat.Defs

/-!
# Products with a double

The arithmetic of doubles that are far from the ends of their range: an exact result is rounded to 53
significant bits, to the even one of two nearest numbers.
-/

namespace TermCollection

def round53 (x : Nat) : Nat :=
  let s := x.log2 + 1 - 53
  let q := x / 2 ^ s
  let r := x % 2 ^ s
  (if 2 * r < 2 ^ s ∨ (2 * r = 2 ^ s ∧ q % 2 = 0) then q else q + 1) * 2 ^ s

theorem round53_of_lt {x : Nat} (h : x < 2 ^ 53) : round53 x = x := by
  have hlog : x.log2 + 1 - 53 = 0 := by
    rcases Nat.eq_zero_or_pos x with rfl | hpos
    · rfl
    · have := (Nat.log2_lt (by omega)).mpr h
      omega
  simp only [round53, hlog, Nat.pow_zero, Nat.div_one, Nat.mod_one, Nat.mul_one]
  exact if_pos (.inl (by omega))

/-- Rounding moves a number by less than itself. -/
theorem round53_bounds {x : Nat} (h : 2 ≤ x) : 2 ≤ round53 x ∧ round53 x < 2 * x := by
  rcases Nat.lt_or_ge x (2 ^ 53) with hx | hx
  · rw [round53_of_lt hx]
    omega
  · have hlog : 53 ≤ x.log2 := (Nat.le_log2 (by omega)).mpr hx
    have hpow : 4 * 2 ^ (x.log2 + 1 - 53) ≤ x := by
      calc 4 * 2 ^ (x.log2 + 1 - 53) = 2 ^ (2 + (x.log2 + 1 - 53)) := by rw [Nat.pow_add]
        _ ≤ 2 ^ x.log2 := Nat.pow_le_pow_right (by omega) (by omega)
        _ ≤ x := Nat.log2_self_le (by omega)
    have hpos := Nat.two_pow_pos (x.log2 + 1 - 53)
    simp only [round53]
    generalize 2 ^ (x.log2 + 1 - 53) = u at hpow hpos
    have hdiv := Nat.div_add_mod x u
    have hmod := Nat.mod_lt x hpos
    have hadd : (x / u + 1) * u = x / u * u + u := Nat.succ_mul (x / u) u
    rw [Nat.mul_comm] at hdiv
    split <;> omega

def roundDouble (x : Int) : Int := x.sign * round53 x.natAbs

/-- The double `mant / 2 ^ exp`. -/
structure Double where
  mant : Nat
  exp : Nat

namespace Double

/-- The product with an integer, as a multiple of `2 ^ -exp`. -/
def mul (c : Double) (n : Int) : Int := roundDouble (n * c.mant)

/-- `static_cast<int>(n * c)`. -/
def scale (c : Double) (n : Int) : Int := (c.mul n).tdiv (2 ^ c.exp)

/-- `static_cast<int>(n * c + k)`. -/
def scaleAdd (c : Double) (n k : Int) : Int :=
  (roundDouble (c.mul n + k * 2 ^ c.exp)).tdiv (2 ^ c.exp)

theorem scale_nonneg (c : Double) {n : Int} (h : 0 ≤ n) : 0 ≤ c.scale n := by
  have hsign : 0 ≤ (n * c.mant).sign := Int.sign_nonneg_iff.mpr (Int.mul_nonneg h (Int.natCast_nonneg _))
  exact Int.tdiv_nonneg (Int.mul_nonneg hsign (Int.natCast_nonneg _)) (Int.pow_nonneg (by decide))

/-! ## Quotients -/

/-- The double nearest to a rational number. The quotient has at least 55 bits, and one more says whether
it has a rest. -/
def nearest (x : Rat) : Rat :=
  let k := x.den.log2 + 55
  let n := x.num.natAbs * 2 ^ k
  let rest := if n % x.den = 0 then 0 else 1
  ((x.num.sign * round53 (2 * (n / x.den) + rest) : Int) : Rat) / (2 ^ (k + 1) : Nat)

/-- `static_cast<int>`. -/
def truncate (x : Rat) : Int := x.num.tdiv x.den

end Double

end TermCollection
