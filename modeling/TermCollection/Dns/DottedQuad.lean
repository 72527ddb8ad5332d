import Mathlib.Data.List.TakeWhile
import Mathlib.Tactic.IntervalCases
import TermCollection.Dns.Server

/-!
# Addresses as text

A printer and a parser of dotted quads that behave as `uv_ip4_name` and `uv_ip4_addr` do on addresses.
-/

namespace TermCollection.Dns

variable {b : UInt8} {rest : CString}

def dottedName (addr : UInt32) (size : Nat) : CString :=
  let text := (((toBytes4 addr).map fun b => decimal b.toNat).intersperse [46]).flatten
  if text.length < size then text else []

def dottedAddr (text : CString) : UInt32 := (read4 (inet_addr_t text) 0).getD 0

def dottedUv : LibUv := ⟨dottedName, dottedAddr⟩

theorem decimal_byte : ∀ n < 256, decimal n ≠ [] ∧ (decimal n).length ≤ 3 ∧
    (∀ c ∈ decimal n, isDigit c = true) ∧ (digitsValue (decimal n)).toUInt8 = UInt8.ofNat n := by
  have hall : ∀ n < 256, decimal n ≠ [] ∧ (decimal n).length ≤ 3 ∧ (decimal n).all isDigit = true ∧
      (digitsValue (decimal n)).toUInt8 = UInt8.ofNat n := by decide +kernel
  intro n hn
  obtain ⟨hne, hlength, hdigits, hvalue⟩ := hall n hn
  exact ⟨hne, hlength, List.all_eq_true.mp hdigits, hvalue⟩

theorem isDigit_bounds {c : UInt8} (h : isDigit c = true) :
    isSpace c = false ∧ c ≠ 45 ∧ c ≠ 43 ∧ c ≠ 46 := by
  have hall : ∀ n < 256, isDigit (UInt8.ofNat n) = true → isSpace (UInt8.ofNat n) = false ∧
      UInt8.ofNat n ≠ 45 ∧ UInt8.ofNat n ≠ 43 ∧ UInt8.ofNat n ≠ 46 := by decide +kernel
  have hc := hall c.toNat c.toNat_lt
  rw [UInt8.ofNat_toNat] at hc
  exact hc h

theorem digitsValue_append {d : CString} (hd : ∀ c ∈ d, isDigit c = true)
    (hrest : ∀ c ∈ rest.head?, isDigit c = false) : digitsValue (d ++ rest) = digitsValue d := by
  have hnil : rest.takeWhile isDigit = [] := by
    cases rest with
    | nil => rfl
    | cons x rest => simp [hrest x (by simp)]
  rw [digitsValue, digitsValue, List.takeWhile_append_of_pos hd, hnil, List.append_nil,
    List.takeWhile_eq_self_iff.mpr hd]

theorem atol_digits {d : CString} (hd : ∀ c ∈ d, isDigit c = true) (hne : d ≠ [])
    (hrest : ∀ c ∈ rest.head?, isDigit c = false) : atol_t (d ++ rest) = digitsValue d := by
  rw [← digitsValue_append hd hrest]
  obtain ⟨c, d, rfl⟩ := List.exists_cons_of_ne_nil hne
  obtain ⟨hspace, hminus, hplus, -⟩ := isDigit_bounds (hd c (by simp))
  simp [atol_t, hspace, hminus, hplus]

theorem inetBytes_dot (n : Nat) (b : UInt8) (rest : CString) :
    inetBytes (n + 1) (decimal b.toNat ++ (46 : UInt8) :: rest) = b :: inetBytes n rest := by
  obtain ⟨hne, -, hd, hval⟩ := decimal_byte b.toNat b.toNat_lt
  have hdrop : (decimal b.toNat ++ (46 : UInt8) :: rest).dropWhile (· ≠ 46) = 46 :: rest := by
    rw [List.dropWhile_append_of_pos fun c hc => by simpa using (isDigit_bounds (hd c hc)).2.2.2]
    simp
  rw [inetBytes, hdrop, atol_digits hd hne (by simp; decide), hval]
  simp

theorem inetBytes_last (b : UInt8) : inetBytes 1 (decimal b.toNat) = [b] := by
  obtain ⟨hne, -, hd, hval⟩ := decimal_byte b.toNat b.toNat_lt
  have hdrop : (decimal b.toNat).dropWhile (· ≠ 46) = [] :=
    List.dropWhile_eq_nil_iff.mpr fun c hc => by simpa using (isDigit_bounds (hd c hc)).2.2.2
  have hatol : atol_t (decimal b.toNat ++ []) = digitsValue (decimal b.toNat) :=
    atol_digits hd hne (by simp)
  rw [List.append_nil] at hatol
  rw [inetBytes, hdrop, hatol, hval]
  simp

theorem join_bytes4 (v : UInt32) : v.toUInt8.toUInt32 ||| (v >>> 8).toUInt8.toUInt32 <<< 8 |||
    (v >>> 16).toUInt8.toUInt32 <<< 16 ||| (v >>> 24).toUInt8.toUInt32 <<< 24 = v := by
  apply UInt32.eq_of_toBitVec_eq
  simp [-UInt32.toUInt32_toUInt8]
  ext i hi
  simp
  interval_cases i <;> simp

theorem read4_toBytes4 (v : UInt32) : read4 (toBytes4 v) 0 = some v := by
  simp [read4, toBytes4, -UInt32.toUInt32_toUInt8, join_bytes4]

/-- The two are inverse to each other on every address. -/
theorem dottedAddr_dottedName (addr : UInt32) : dottedAddr (dottedName addr 16) = addr := by
  have hlen : ∀ b : UInt8, (decimal b.toNat).length ≤ 3 := fun b => (decimal_byte b.toNat b.toNat_lt).2.1
  have hname : dottedName addr 16 = decimal addr.toUInt8.toNat ++ (46 : UInt8) ::
      (decimal (addr >>> 8).toUInt8.toNat ++ (46 : UInt8) ::
        (decimal (addr >>> 16).toUInt8.toNat ++ (46 : UInt8) ::
          decimal (addr >>> 24).toUInt8.toNat)) := by
    have h₀ := hlen addr.toUInt8
    have h₁ := hlen (addr >>> 8).toUInt8
    have h₂ := hlen (addr >>> 16).toUInt8
    have h₃ := hlen (addr >>> 24).toUInt8
    simp only [dottedName, toBytes4, List.map_cons, List.map_nil, List.intersperse_cons_cons,
      List.intersperse_singleton, List.flatten_cons, List.flatten_nil, List.append_nil,
      List.cons_append, List.nil_append]
    rw [if_pos]
    simp only [List.length_append, List.length_cons]
    omega
  rw [hname, dottedAddr, inet_addr_t, inetBytes_dot, inetBytes_dot, inetBytes_dot, inetBytes_last]
  have hread := read4_toBytes4 addr
  rw [toBytes4] at hread
  rw [hread]
  rfl

end TermCollection.Dns
