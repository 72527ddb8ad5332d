import TermCollection.Dns.DottedQuad
import TermCollection.Dns.IniUpdate

/-!
# Numbers in the configuration file (`PutIniKeyInt`, `GetIniKeyInt`)

The writer stops at the first line that it takes for the key, also at a comment, which the reader skips.
-/

namespace TermCollection.Dns

variable {title key val line sTitle filename : CString} {text text' : List UInt8} {lines pre post : List CString}
variable {disk disk' : Disk} {fuel n : Nat}

/-! ## Integers as text -/

/-- The format `%d`. -/
def decimalInt (val : Int32) : CString :=
  if val.toInt < 0 then 45 :: decimal val.toInt.natAbs else decimal val.toInt.natAbs

def digitsNat (nptr : CString) : Nat :=
  (nptr.takeWhile isDigit).foldl (fun total c => 10 * total + (c.toNat - 48)) 0

/-- The number at the start of a text, behind white space. -/
def numberAt (nptr : CString) : Int :=
  match nptr.dropWhile isSpace with
  | [] => 0
  | c :: rest =>
      if c = 45 then -digitsNat rest
      else if c = 43 then digitsNat rest
      else digitsNat (c :: rest)

/-- A value that is no `int` leaves the behaviour undefined. -/
def atoi (nptr : CString) : Option Int32 :=
  if Int32.minValue.toInt ≤ numberAt nptr ∧ numberAt nptr ≤ Int32.maxValue.toInt then
    some (Int32.ofInt (numberAt nptr))
  else none

/-- `atoi` of NULL is undefined. -/
def getIniKeyInt (disk : Disk) (title key filename : CString) : Option Int32 := do
  atoi (← (← getIniKeyString disk title key filename))

/-- The text goes into the 32 bytes of `sVal`. -/
def putIniKeyInt (disk : Disk) (title key : CString) (val : Int32) (filename : CString) : Option (Int × Disk) :=
  let sVal := decimalInt val
  if sVal.length < 32 then putIniKeyString disk title key sVal filename else none

theorem digit_bounds {d : Char} (h : d ∈ Nat.toDigits 10 n) : 48 ≤ d.toNat ∧ d.toNat ≤ 57 := by
  have hdigit := Nat.isDigit_of_mem_toDigits (by decide) (by decide) h
  simpa [Char.isDigit, UInt32.le_iff_toNat_le] using hdigit

theorem decimal_digits : (∀ c ∈ decimal n, isDigit c = true) ∧ decimal n ≠ [] := by
  constructor
  · intro c hc
    obtain ⟨d, hd, rfl⟩ := List.mem_map.mp hc
    obtain ⟨hlow, hhigh⟩ := digit_bounds hd
    have hall : ∀ m < 58, 48 ≤ m → isDigit (UInt8.ofNat m) = true := by decide
    exact hall _ (by omega) hlow
  · exact fun h => Nat.toDigits_ne_nil (List.map_eq_nil_iff.mp h)

theorem digitsNat_decimal (n : Nat) : digitsNat (decimal n) = n := by
  rw [digitsNat, List.takeWhile_eq_self_iff.mpr decimal_digits.1, decimal, List.foldl_map]
  conv_rhs => rw [← @Nat.ofDigitChars_ten_toDigits n, Nat.ofDigitChars_eq_foldl]
  refine List.foldl_ext _ _ _ fun total d hd => ?_
  obtain ⟨hlow, hhigh⟩ := digit_bounds hd
  rw [UInt8.toNat_ofNat', Nat.mod_eq_of_lt (by omega)]
  rfl

theorem numberAt_decimalInt (val : Int32) : numberAt (decimalInt val) = val.toInt := by
  by_cases hneg : val.toInt < 0
  · rw [decimalInt, if_pos hneg, numberAt, List.dropWhile_cons_of_neg (by decide)]
    simp only [if_true, digitsNat_decimal]
    omega
  · obtain ⟨hdigits, hne⟩ := @decimal_digits val.toInt.natAbs
    have hdecimal := digitsNat_decimal val.toInt.natAbs
    obtain ⟨c, rest, hc⟩ := List.exists_cons_of_ne_nil hne
    rw [decimalInt, if_neg hneg]
    rw [hc] at hdigits hdecimal ⊢
    obtain ⟨hspace, hminus, hplus, -⟩ := isDigit_bounds (hdigits c List.mem_cons_self)
    rw [numberAt, List.dropWhile_cons_of_neg (by simp [hspace])]
    simp only [if_neg hminus, if_neg hplus, hdecimal]
    omega

/-- A number that is printed is read back. -/
theorem atoi_decimalInt (val : Int32) : atoi (decimalInt val) = some val := by
  rw [atoi, numberAt_decimalInt, if_pos ⟨val.minValue_le_toInt, val.toInt_le⟩, Int32.ofInt_toInt]

theorem decimalInt_bytes (val : Int32) : (∀ c ∈ decimalInt val, c ≠ 0 ∧ c ≠ 10) ∧ (decimalInt val).length < 32 := by
  have hdigits : ∀ c ∈ decimal val.toInt.natAbs, c ≠ 0 ∧ c ≠ 10 := by
    intro c hc
    have hdigit := decimal_digits.1 c hc
    constructor <;> rintro rfl <;> exact absurd hdigit (by decide)
  have hlength : (decimal val.toInt.natAbs).length ≤ 10 := by
    have hlow := val.le_toInt
    have hhigh := val.toInt_lt
    rw [decimal, List.length_map, Nat.length_toDigits_le_iff (by decide) (by decide)]
    omega
  rw [decimalInt]
  split
  · refine ⟨List.forall_mem_cons.mpr ⟨by decide, hdigits⟩, ?_⟩
    rw [List.length_cons]
    omega
  · exact ⟨hdigits, by omega⟩

theorem putIniKeyInt_eq (disk : Disk) (title key : CString) (val : Int32) (filename : CString) :
    putIniKeyInt disk title key val filename = putIniKeyString disk title key (decimalInt val) filename :=
  if_pos (decimalInt_bytes val).2

/-! ## The line that is written -/

/-- The line that the writer takes for the key, among all lines. -/
def writeLineOf (title key : CString) (text : List UInt8) : Option CString :=
  picked (bracketed title) key (textLines 10 text)

theorem putLoop_sets_below (h : Lines 10 (pre ++ line :: post)) (hfit : Fitting (pre ++ line :: post))
    (hfuel : (pre ++ line :: post).length ≤ fuel) (hpre : ∀ l ∈ pre, takes key l = false)
    (hline : takes key line = true)
    (hput : putLoop sTitle key val fuel 1 (pre ++ line :: post).flatten = some text) :
    text = (pre ++ setValue val line :: post).flatten ∧ (keyOf line).length + 1 + (val.length + 1) < 1024 := by
  induction pre generalizing fuel text with
  | nil =>
      cases fuel with
      | zero => simp at hfuel
      | succ fuel =>
          rw [List.nil_append, putLoop_cons h hfit, putLine_below, if_pos hline] at hput
          split at hput
          · rename_i hlt
            rw [Option.bind_some, putLoop_done h.tail hfit.tail (Nat.le_of_succ_le_succ hfuel)] at hput
            cases hput
            exact ⟨rfl, hlt⟩
          · cases hput
  | cons l pre ih =>
      cases fuel with
      | zero => simp at hfuel
      | succ fuel =>
          obtain ⟨hl, hpre⟩ := List.forall_mem_cons.mp hpre
          rw [List.cons_append] at h hfit hput hfuel
          rw [putLoop_cons h hfit, putLine_below, hl, if_neg Bool.false_ne_true, Option.bind_some,
            Option.map_eq_some_iff] at hput
          obtain ⟨text, hput, rfl⟩ := hput
          obtain ⟨rfl, hlt⟩ := ih h.tail hfit.tail (Nat.le_of_succ_le_succ hfuel) hpre hput
          exact ⟨rfl, hlt⟩

theorem putLoop_sets (h : Lines 10 (pre ++ line :: post)) (hfit : Fitting (pre ++ line :: post))
    (hfuel : (pre ++ line :: post).length ≤ fuel) (hpre : Waiting sTitle key pre) (hline : takes key line = true)
    (hput : putLoop sTitle key val fuel 0 (pre ++ line :: post).flatten = some text) :
    text = (pre ++ setValue val line :: post).flatten ∧ (keyOf line).length + 1 + (val.length + 1) < 1024 := by
  obtain ⟨above, header, below, rfl, habove, hheader, hbelow⟩ := hpre
  simp only [List.append_assoc, List.cons_append] at h hfit hfuel hput ⊢
  induction above generalizing fuel text with
  | nil =>
      cases fuel with
      | zero => simp at hfuel
      | succ fuel =>
          rw [List.nil_append] at h hfit hput hfuel
          rw [putLoop_cons h hfit, putLine_above, if_pos hheader, Option.bind_some,
            Option.map_eq_some_iff] at hput
          obtain ⟨text, hput, rfl⟩ := hput
          obtain ⟨rfl, hlt⟩ := putLoop_sets_below h.tail hfit.tail (Nat.le_of_succ_le_succ hfuel) hbelow hline hput
          exact ⟨rfl, hlt⟩
  | cons l above ih =>
      cases fuel with
      | zero => simp at hfuel
      | succ fuel =>
          obtain ⟨hl, habove⟩ := List.forall_mem_cons.mp habove
          rw [List.cons_append] at h hfit hput hfuel
          rw [putLoop_cons h hfit, putLine_above, hl, if_neg Bool.false_ne_true, Option.bind_some,
            Option.map_eq_some_iff] at hput
          obtain ⟨text, hput, rfl⟩ := hput
          obtain ⟨rfl, hlt⟩ := ih habove h.tail hfit.tail (Nat.le_of_succ_le_succ hfuel) hput
          exact ⟨rfl, hlt⟩

/-! ## Reading back -/

theorem getIniKeyInt_congr (h : getIniKeyString disk' title key filename = getIniKeyString disk title key filename) :
    getIniKeyInt disk' title key filename = getIniKeyInt disk title key filename := by
  rw [getIniKeyInt, h, getIniKeyInt]

/-- What an update did to the file. -/
theorem putIniKeyString_cases (hfile : disk.file filename = some text) (htext : IniText text)
    (hval : ∀ c ∈ val, c ≠ 0 ∧ c ≠ 10) (hput : putIniKeyString disk title key val filename = some (0, disk')) :
    (writeLineOf title key text = none ∧ disk'.file filename = disk.file filename) ∨
      ∃ pre line post, writeLineOf title key text = some line ∧
        LineSet disk disk' title key val filename text pre line post := by
  obtain ⟨htitle, text', hput, hfile'⟩ := putIniKeyString_text hfile hput
  have hlines := lines_textLines 10 text
  have hfuel := length_le_flatten hlines
  have hloop : putLoop (bracketed title) key val text.length 0 (textLines 10 text).flatten = some text' := by
    rwa [flatten_textLines]
  rw [flatten_textLines] at hfuel
  have hfit := htext.fitting
  cases hwrite : writeLineOf title key text with
  | some line =>
      obtain ⟨pre, post, hsplit, hwait, htakes⟩ := picked_eq_some_iff.mp hwrite
      rw [hsplit] at hlines hfit hfuel hloop
      obtain ⟨rfl, hlt⟩ := putLoop_sets hlines hfit hfuel hwait htakes hloop
      obtain ⟨htext', hsplit'⟩ := htext.set hsplit htakes hval hlt
      exact .inr ⟨pre, line, post, rfl, hfile, htext, hsplit, ⟨_, hfile', htext', hsplit'⟩, htitle, hwait, htakes⟩
  | none =>
      have hwritten := putLoop_written hlines hfit hfuel hloop
      rw [writeLineOf] at hwrite
      generalize hsplit : textLines 10 text = lines at hwritten hwrite
      cases hwritten with
      | same =>
          rw [← hsplit, flatten_textLines] at hfile'
          exact .inl ⟨rfl, hfile'.trans hfile.symm⟩
      | set pre post line hwait htakes hlt =>
          rw [picked_of_waiting hwait htakes] at hwrite
          cases hwrite

/-- A number that is put is what is read then, exactly if the first line that the writer takes for the key is no
comment, or the number was read before. -/
theorem putIniKeyInt_readBack_iff (hfile : disk.file filename = some text) (htext : IniText text) (val : Int32)
    (hput : putIniKeyInt disk title key val filename = some (0, disk')) :
    getIniKeyInt disk' title key filename = some val ↔
      (∃ line, writeLineOf title key text = some line ∧ isComment line = false) ∨
        getIniKeyInt disk title key filename = some val := by
  rw [putIniKeyInt_eq] at hput
  rcases putIniKeyString_cases hfile htext (decimalInt_bytes val).1 hput with ⟨hnone, hsame⟩ |
    ⟨pre, line, post, hline, hset⟩
  · rw [getIniKeyInt_congr (getIniKeyString_congr hsame title key), hnone]
    simp
  · rw [hline]
    cases hc : isComment line with
    | true =>
        rw [getIniKeyInt_congr (hset.same (.inl hc) title key)]
        simp [hc]
    | false =>
        obtain ⟨text', hfile', htext', hlines'⟩ := hset.written
        have hc' : isComment (setValue (decimalInt val) line) = false := by
          rw [isComment_setValue hset.taken, hc]
        have htaken : takes key (setValue (decimalInt val) line) = true := by
          rw [takes_setValue hset.taken, hset.taken]
        have hread : getIniKeyString disk' title key filename = some (some (decimalInt val)) := by
          rw [getIniKeyString_eq hfile' htext' hset.title_lt, readLineOf_waiting hlines' hset.waiting htaken hc',
            Option.map_some, readValue_setValue hset.taken]
        refine iff_of_true ?_ (.inl ⟨line, rfl, hc⟩)
        rw [getIniKeyInt, hread]
        exact atoi_decimalInt val

theorem putIniKeyInt_readBack_port :
    ∃ disk', putIniKeyInt (oneFile portText) [65] [80] (-53) [99] = some (0, disk') ∧
      getIniKeyInt disk' [65] [80] [99] = some (-53) := by
  obtain ⟨disk', hput⟩ : ∃ disk', putIniKeyInt (oneFile portText) [65] [80] (-53) [99] = some (0, disk') :=
    ⟨_, rfl⟩
  refine ⟨disk', hput, (putIniKeyInt_readBack_iff rfl portText_ini (-53) hput).mpr (.inl ?_)⟩
  exact ⟨[80, 61, 53, 51, 10], by decide, by decide⟩

end TermCollection.Dns
