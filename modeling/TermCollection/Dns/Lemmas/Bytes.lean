import Mathlib.Data.List.Basic
import Mathlib.Tactic.IntervalCases
import TermCollection.Dns.Utils

/-!
# Byte order

The swaps of the two directions cancel out, and an ID that is written into a buffer is read back.
-/

namespace TermCollection.Dns

variable {base base' : List UInt8} {v : UInt16} {i : Nat}

theorem nhswap_s_nhswap_s (v : UInt16) : nhswap_s (nhswap_s v) = v := by
  apply UInt16.eq_of_toBitVec_eq
  simp only [nhswap_s, checkCPUendian, bigLittleSwap16, Bool.false_eq_true, ↓reduceIte]
  simp
  ext i hi
  simp
  interval_cases i <;> simp

theorem nhswap_l_nhswap_l (v : UInt32) : nhswap_l (nhswap_l v) = v := by
  apply UInt32.eq_of_toBitVec_eq
  simp only [nhswap_l, checkCPUendian, bigLittleSwap32, Bool.false_eq_true, ↓reduceIte]
  simp
  ext i hi
  simp
  interval_cases i <;> simp

theorem toBytes2_length (v : UInt16) : (toBytes2 v).length = 2 := rfl

theorem join_bytes (v : UInt16) : v.toUInt8.toUInt16 ||| (v >>> 8).toUInt8.toUInt16 <<< 8 = v := by
  apply UInt16.eq_of_toBitVec_eq
  simp [-UInt16.toUInt16_toUInt8]
  ext i hi
  simp
  interval_cases i <;> simp

theorem low_byte (a b : UInt8) : (a.toUInt16 ||| b.toUInt16 <<< 8).toUInt8 = a := by
  apply UInt8.eq_of_toBitVec_eq
  simp

theorem high_byte (a b : UInt8) : ((a.toUInt16 ||| b.toUInt16 <<< 8) >>> 8).toUInt8 = b := by
  apply UInt8.eq_of_toBitVec_eq
  simp
  ext i hi
  simp
  interval_cases i <;> simp

theorem read2_toBytes2 (v : UInt16) (rest : List UInt8) : read2 (toBytes2 v ++ rest) 0 = some v := by
  simp [read2, toBytes2, -UInt16.toUInt16_toUInt8, join_bytes]

/-- The two bytes at the start, when the buffer has them. -/
theorem toBytes2_of_read2 (h : read2 base 0 = some v) : toBytes2 v = base.take 2 := by
  match base with
  | [] => simp [read2] at h
  | [b] => simp [read2] at h
  | a :: b :: rest =>
      have hv : a.toUInt16 ||| b.toUInt16 <<< 8 = v := by simpa [read2] using h
      rw [← hv, toBytes2, low_byte, high_byte]
      rfl

theorem read2_of_take (h : base.take 2 = toBytes2 v) : read2 base 0 = some v := by
  have hb := read2_toBytes2 v (base.drop 2)
  rwa [← h, List.take_append_drop] at hb

theorem read2_range : (∃ v, read2 base i = some v) ↔ i + 2 ≤ base.length := by
  simp only [read2, Option.bind_eq_bind, Option.bind_eq_some_iff, List.getElem?_eq_some_iff]
  constructor
  · rintro ⟨v, b₀, -, b₁, ⟨h, -⟩, -⟩
    omega
  · intro h
    exact ⟨_, _, ⟨by omega, rfl⟩, _, ⟨by omega, rfl⟩, rfl⟩

theorem read4_range : (∃ v, read4 base i = some v) ↔ i + 4 ≤ base.length := by
  simp only [read4, Option.bind_eq_bind, Option.bind_eq_some_iff, List.getElem?_eq_some_iff]
  constructor
  · rintro ⟨v, b₀, -, b₁, -, b₂, -, b₃, ⟨h, -⟩, -⟩
    omega
  · intro h
    exact ⟨_, _, ⟨by omega, rfl⟩, _, ⟨by omega, rfl⟩, _, ⟨by omega, rfl⟩, _, ⟨by omega, rfl⟩, rfl⟩

theorem splice_zero (v : UInt16) (h : 2 ≤ base.length) :
    splice base 0 (toBytes2 v) = some (toBytes2 v ++ base.drop 2) := by
  simp [splice, toBytes2_length, h]

theorem splice_zero_eq_some (h : splice base 0 (toBytes2 v) = some base') :
    2 ≤ base.length ∧ base' = toBytes2 v ++ base.drop 2 := by
  unfold splice at h
  split at h
  · rename_i hlen
    rw [toBytes2_length] at hlen
    cases h
    exact ⟨by omega, by simp [toBytes2_length]⟩
  · cases h

end TermCollection.Dns
