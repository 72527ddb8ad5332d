import Mathlib.Data.Nat.Log
import Mathlib.Data.Nat.Notation
import Mathlib.Tactic.IntervalCases

/-!
# Variable-length integers

A number is written with seven bits in a byte, the lowest first. All bytes but the last have their high
bit set.
-/

namespace TermCollection

variable {k n : ℕ} {bytes rest : List UInt8}

/-- The number in at most `k + 1` bytes. -/
def varintBytes : ℕ → ℕ → List UInt8
  | 0, n => [UInt8.ofNat n]
  | k + 1, n =>
      if n < 128 then [UInt8.ofNat n] else UInt8.ofNat (n % 128 + 128) :: varintBytes k (n / 128)

/-- A number of at most 64 bits. -/
def varint (n : ℕ) : List UInt8 := varintBytes 9 n

/-- At most `k` bytes are read. -/
def readVarintBytes : ℕ → List UInt8 → Option (ℕ × List UInt8)
  | k + 1, b :: bytes =>
      if b.toNat < 128 then some (b.toNat, bytes)
      else (readVarintBytes k bytes).map fun r => (b.toNat - 128 + 128 * r.1, r.2)
  | _, _ => none

def readVarint64 (bytes : List UInt8) : Option (ℕ × List UInt8) :=
  (readVarintBytes 10 bytes).map fun r => (r.1 % 18446744073709551616, r.2)

def readVarint32 (bytes : List UInt8) : Option (ℕ × List UInt8) :=
  (readVarintBytes 5 bytes).map fun r => (r.1 % 4294967296, r.2)

/-- The number of bytes of a number, by its greatest power of two. -/
def varintSize (n : ℕ) : ℕ := (Nat.log2 (n ||| 1) * 9 + 73) / 64

/-! ## Reading what is written -/

theorem toNat_byte (h : n < 256) : (UInt8.ofNat n).toNat = n := by
  rw [UInt8.toNat_ofNat', Nat.mod_eq_of_lt h]

theorem readVarintBytes_varintBytes (h : n < 128 ^ (k + 1)) (rest : List UInt8) :
    readVarintBytes (k + 1) (varintBytes k n ++ rest) = some (n, rest) := by
  induction k generalizing n with
  | zero =>
      have hbyte : (UInt8.ofNat n).toNat = n := toNat_byte (by omega)
      simp only [varintBytes, List.singleton_append, readVarintBytes, hbyte]
      exact if_pos (by omega)
  | succ k ih =>
      rw [varintBytes]
      split
      · rename_i hsmall
        have hbyte : (UInt8.ofNat n).toNat = n := toNat_byte (by omega)
        simp only [List.singleton_append, readVarintBytes, hbyte, if_pos hsmall]
      · have hbyte : (UInt8.ofNat (n % 128 + 128)).toNat = n % 128 + 128 :=
          toNat_byte (by omega)
        have hdiv : n / 128 < 128 ^ (k + 1) := Nat.div_lt_of_lt_mul (by rwa [Nat.mul_comm, ← Nat.pow_succ])
        rw [List.cons_append, readVarintBytes, hbyte, if_neg (by omega), ih hdiv, Option.map_some]
        congr 2
        omega

theorem varintBytes_length_pos (k n : ℕ) : 0 < (varintBytes k n).length := by
  cases k with
  | zero => exact Nat.one_pos
  | succ k =>
      rw [varintBytes]
      split <;> simp

theorem varint_length_pos (n : ℕ) : 0 < (varint n).length := varintBytes_length_pos 9 n

/-- More room for bytes is not used. -/
theorem varintBytes_of_lt {j : ℕ} (h : n < 128 ^ (k + 1)) (hkj : k ≤ j) : varintBytes j n = varintBytes k n := by
  induction k generalizing n j with
  | zero =>
      cases j with
      | zero => rfl
      | succ j => exact if_pos (by omega)
  | succ k ih =>
      obtain ⟨j, rfl⟩ := Nat.exists_eq_add_of_lt (Nat.lt_of_lt_of_le k.lt_succ_self hkj)
      have hdiv : n / 128 < 128 ^ (k + 1) := Nat.div_lt_of_lt_mul (by rwa [Nat.mul_comm, ← Nat.pow_succ])
      rw [varintBytes, varintBytes, ih hdiv (Nat.le_add_right k j)]

theorem readVarint64_varint (h : n < 2 ^ 64) (rest : List UInt8) :
    readVarint64 (varint n ++ rest) = some (n, rest) := by
  have hmod : n % 18446744073709551616 = n := Nat.mod_eq_of_lt h
  rw [readVarint64, varint, readVarintBytes_varintBytes (by omega), Option.map_some, hmod]

theorem readVarint32_varint (h : n < 2 ^ 32) (rest : List UInt8) :
    readVarint32 (varint n ++ rest) = some (n, rest) := by
  have hmod : n % 4294967296 = n := Nat.mod_eq_of_lt h
  rw [readVarint32, varint, varintBytes_of_lt (k := 4) (by omega) (by omega),
    readVarintBytes_varintBytes (by omega), Option.map_some, hmod]

/-! ## Sizes -/

theorem log2_lt {m : ℕ} (h : n < 2 ^ m) (hm : 0 < m) : n.log2 < m := by
  rcases Nat.eq_zero_or_pos n with rfl | hpos
  · exact hm
  · exact (Nat.log2_lt (by omega)).mpr h

theorem log2_div {m : ℕ} (h : 2 ^ m ≤ n) : n.log2 = (n / 2 ^ m).log2 + m := by
  have hle : m ≤ Nat.log 2 n := (Nat.le_log_iff_pow_le (by omega) (by have := Nat.two_pow_pos m; omega)).mpr h
  rw [Nat.log2_eq_log_two, Nat.log2_eq_log_two, Nat.log_div_base_pow]
  omega

theorem varintBytes_length (h : n < 128 ^ (k + 1)) :
    (varintBytes k n).length = Nat.log2 n / 7 + 1 := by
  induction k generalizing n with
  | zero =>
      have hlog : n.log2 < 7 := log2_lt (by omega) (by omega)
      rw [varintBytes, Nat.div_eq_of_lt hlog]
      rfl
  | succ k ih =>
      rw [varintBytes]
      split
      · rename_i hsmall
        have hlog : n.log2 < 7 := log2_lt (by omega) (by omega)
        rw [Nat.div_eq_of_lt hlog]
        rfl
      · rename_i hbig
        have hdiv : n / 128 < 128 ^ (k + 1) := Nat.div_lt_of_lt_mul (by rwa [Nat.mul_comm, ← Nat.pow_succ])
        have hlog : n.log2 = (n / 128).log2 + 7 := log2_div (m := 7) (by omega)
        rw [List.length_cons, ih hdiv, hlog]
        omega

theorem varintSize_eq (h : n < 2 ^ 64) : varintSize n = n.log2 / 7 + 1 := by
  have hor : (n ||| 1).log2 = n.log2 := by
    have hhalf : (n ||| 1) / 2 = n / 2 := by rw [Nat.or_div_two]; simp
    rw [Nat.log2_def, Nat.log2_def n, hhalf]
    have hle : 2 ≤ n ||| 1 ↔ 2 ≤ n := by omega
    simp only [hle]
  have hlog : n.log2 < 64 := log2_lt h (by omega)
  rw [varintSize, hor]
  generalize n.log2 = l at hlog
  interval_cases l <;> rfl

/-- The formula counts the bytes. -/
theorem varint_length (h : n < 2 ^ 64) : (varint n).length = varintSize n := by
  rw [varint, varintBytes_length (by omega), varintSize_eq h]

end TermCollection
