import Mathlib.Data.Nat.Digits.Defs

/-!
# Words

A 32-bit word in the memory of a little-endian machine.
-/

namespace TermCollection

/-- The four bytes of a number modulo `2 ^ 32`. -/
def wordBytes (n : ℕ) : List UInt8 := [0, 1, 2, 3].map fun i => UInt8.ofNat (n / 256 ^ i)

def wordValue (bytes : List UInt8) : ℕ := Nat.ofDigits 256 (bytes.map UInt8.toNat)

theorem wordBytes_length (n : ℕ) : (wordBytes n).length = 4 := rfl

theorem wordValue_wordBytes {n : ℕ} (h : n < 2 ^ 32) : wordValue (wordBytes n) = n := by
  simp only [wordValue, wordBytes, List.map_cons, List.map_nil, UInt8.toNat_ofNat', Nat.ofDigits_cons,
    Nat.ofDigits_nil]
  omega

theorem wordBytes_wordValue :
    ∀ {bytes : List UInt8}, bytes.length = 4 → wordBytes (wordValue bytes) = bytes
  | [a, b, c, d], _ => by
      have ha := a.toNat_lt
      have hb := b.toNat_lt
      have hc := c.toNat_lt
      have hd := d.toNat_lt
      simp only [wordValue, wordBytes, List.map_cons, List.map_nil, Nat.ofDigits_cons, Nat.ofDigits_nil,
        List.cons.injEq, ← UInt8.toNat_inj, UInt8.toNat_ofNat']
      refine ⟨?_, ?_, ?_, ?_, trivial⟩ <;> omega

theorem wordValue_lt : ∀ {bytes : List UInt8}, bytes.length = 4 → wordValue bytes < 2 ^ 32
  | [a, b, c, d], _ => by
      have ha := a.toNat_lt
      have hb := b.toNat_lt
      have hc := c.toNat_lt
      have hd := d.toNat_lt
      simp only [wordValue, List.map_cons, List.map_nil, Nat.ofDigits_cons, Nat.ofDigits_nil]
      omega

end TermCollection
