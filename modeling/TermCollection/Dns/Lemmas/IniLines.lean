import Mathlib.Data.List.TakeWhile
import TermCollection.Dns.IniHandler

/-!
# The loops over the lines of a configuration file
-/

namespace TermCollection.Dns

variable {title sTitle key val line front rest : CString} {text file : List UInt8}
variable {lines pre post : List CString} {fuel flag n : Nat}

/-! ## The parts of a line -/

/-- The text before the first `=`. -/
def keyOf (line : CString) : CString := line.takeWhile (· ≠ 61)

/-- The text behind the first `=`. -/
def behind (line : CString) : CString := line.drop ((keyOf line).length + 1)

/-- Whether the line is taken for the one with the key. -/
def takes (key line : CString) : Bool := 61 ∈ line ∧ keyOf line <+: key

theorem keyOf_append (h : 61 ∉ front) : keyOf (front ++ 61 :: rest) = front := by
  have hfront : ∀ c ∈ front, c ≠ 61 := fun c hc => ne_of_mem_of_not_mem hc h
  rw [keyOf, List.takeWhile_append_of_pos (by simpa using hfront)]
  simp

theorem behind_append (h : 61 ∉ front) : behind (front ++ 61 :: rest) = rest := by
  rw [behind, keyOf_append h, List.append_cons]
  exact List.drop_left' (by simp)

theorem exists_parts (h : 61 ∈ line) : ∃ front rest, 61 ∉ front ∧ line = front ++ 61 :: rest := by
  obtain ⟨front, rest, rfl, hfront⟩ := List.eq_append_cons_of_mem h
  exact ⟨front, rest, hfront, rfl⟩

theorem takes_append (h : 61 ∉ front) : takes key (front ++ 61 :: rest) = true ↔ front <+: key := by
  simp [takes, keyOf_append h]

/-- A line that is taken for one with the key. -/
theorem takes_iff : takes key line = true ↔
    ∃ front rest, 61 ∉ front ∧ front <+: key ∧ line = front ++ 61 :: rest := by
  constructor
  · intro h
    simp only [takes, decide_eq_true_eq] at h
    obtain ⟨front, rest, hfront, rfl⟩ := exists_parts h.1
    exact ⟨front, rest, hfront, keyOf_append hfront ▸ h.2, rfl⟩
  · rintro ⟨front, rest, hfront, hkey, rfl⟩
    exact (takes_append hfront).mpr hkey

/-! ## The comparisons -/

theorem strncmpEq_iff {s t : CString} (hn : n ≤ t.length) : strncmpEq s t n = true ↔ t.take n <+: s := by
  rw [strncmpEq, decide_eq_true_eq, List.prefix_iff_eq_take, List.length_take_of_le hn]
  exact eq_comm

theorem opens_iff (h : line ≠ []) : opens sTitle line = true ↔ line.dropLast <+: sTitle := by
  have hlast : lastIndex line = line.length - 1 := by
    cases line with
    | nil => exact absurd rfl h
    | cons c line => rfl
  rw [opens, hlast, strncmpEq_iff (Nat.sub_le _ _), List.dropLast_eq_take]

theorem strchr_append (h : 61 ∉ front) : strchr (front ++ 61 :: rest) 61 = some front.length := by
  rw [strchr, if_pos (by simp)]
  exact congrArg (fun s => some s.length) (keyOf_append h)

theorem strchr_of_not_mem (h : 61 ∉ line) : strchr line 61 = none := if_neg h

theorem strncmpEq_append : strncmpEq key (front ++ 61 :: rest) front.length = true ↔ front <+: key := by
  rw [strncmpEq_iff (by simp), List.take_left]

/-! ## Lines in the buffer -/

/-- The lines are read as wholes into the buffer. -/
def Fitting (lines : List CString) : Prop := ∀ line ∈ lines, line.length ≤ 1023 ∧ 0 ∉ line

theorem fgetsLine_flatten (h : Lines 10 (line :: lines)) (hfit : Fitting (line :: lines)) :
    fgetsLine (line :: lines).flatten = (line, lines.flatten) := by
  obtain ⟨hlen, hnul⟩ := hfit line (by simp)
  have hself : line.takeWhile (· ≠ 0) = line := by
    rw [List.takeWhile_eq_self_iff]
    simpa using fun c hc => ne_of_mem_of_not_mem hc hnul
  have hread : readLine 10 1023 (line :: lines).flatten = (line, lines.flatten) := by
    cases h with
    | last _ _ hend =>
        rw [List.flatten_singleton, readLine_last hend hlen, List.flatten_nil]
    | cons _ _ hend _ =>
        rw [List.flatten_cons, readLine_ended hend hlen]
  rw [fgetsLine, hread, hself]

theorem flatten_ne_nil (h : Lines 10 (line :: lines)) : (line :: lines).flatten ≠ [] := by
  have hne := h.ne_nil line (by simp)
  simp [hne]

theorem length_le_flatten (h : Lines 10 lines) : lines.length ≤ lines.flatten.length := by
  induction lines with
  | nil => exact Nat.zero_le _
  | cons line lines ih =>
      have hpos := List.length_pos_iff.mpr (h.ne_nil line (by simp))
      have hle := ih h.tail
      rw [List.flatten_cons, List.length_append, List.length_cons]
      omega

/-! ## Look-up -/

theorem getLoop_step (h : fgetsLine file = (line, text)) (hne : file ≠ []) :
    getLoop sTitle key (fuel + 1) flag file =
      if isComment line then getLoop sTitle key fuel flag text
      else
        match strchr line 61, flag with
        | some wTmp, 1 =>
            if strncmpEq key line wTmp then some (line.drop (wTmp + 1)).dropLast
            else getLoop sTitle key fuel flag text
        | _, _ => getLoop sTitle key fuel (if opens sTitle line then 1 else flag) text := by
  cases file with
  | nil => exact absurd rfl hne
  | cons c file =>
      obtain rfl : (fgetsLine (c :: file)).1 = line := by rw [h]
      obtain rfl : (fgetsLine (c :: file)).2 = text := by rw [h]
      rfl

/-- Below a line that was taken for the title. -/
theorem getLoop_below (h : fgetsLine file = (line, text)) (hne : file ≠ []) :
    getLoop sTitle key (fuel + 1) 1 file =
      if isComment line = false ∧ takes key line = true then some (behind line).dropLast
      else getLoop sTitle key fuel 1 text := by
  rw [getLoop_step h hne]
  cases hc : isComment line with
  | true => simp
  | false =>
      by_cases heq : 61 ∈ line
      · obtain ⟨front, rest, hfront, rfl⟩ := exists_parts heq
        have hbehind : (front ++ 61 :: rest).drop (front.length + 1) = behind (front ++ 61 :: rest) := by
          rw [behind, keyOf_append hfront]
        simp only [strchr_append hfront, strncmpEq_append, takes_append hfront, hbehind]
        simp
      · simp [strchr_of_not_mem heq, takes, heq]

/-- Above the first line that is taken for the title. -/
theorem getLoop_above (h : fgetsLine file = (line, text)) (hne : file ≠ []) :
    getLoop sTitle key (fuel + 1) 0 file =
      getLoop sTitle key fuel (if isComment line = false ∧ opens sTitle line = true then 1 else 0) text := by
  rw [getLoop_step h hne]
  cases hc : isComment line with
  | true => simp
  | false => cases strchr line 61 <;> simp

/-- The lines that are not comments. -/
def uncommented (lines : List CString) : List CString := lines.filter (! isComment ·)

/-- The first line that is taken for one with the key, below the first one that is taken for the title. -/
def picked (sTitle key : CString) (lines : List CString) : Option CString :=
  (lines.dropWhile (! opens sTitle ·)).tail.find? (takes key)

/-- What is read from a line: the text behind the `=` without its last byte. -/
def readValue (line : CString) : CString := (behind line).dropLast

theorem Fitting.tail (h : Fitting (line :: lines)) : Fitting lines :=
  fun l hl => h l (List.mem_cons_of_mem _ hl)

theorem uncommented_cons (line : CString) (lines : List CString) :
    uncommented (line :: lines) = if isComment line then uncommented lines else line :: uncommented lines := by
  cases h : isComment line <;> simp [uncommented, h]

theorem uncommented_append (l r : List CString) : uncommented (l ++ r) = uncommented l ++ uncommented r :=
  List.filter_append ..

theorem mem_uncommented : line ∈ uncommented lines ↔ line ∈ lines ∧ isComment line = false := by
  simp [uncommented]

theorem getLoop_find (h : Lines 10 lines) (hfit : Fitting lines) (hfuel : lines.length ≤ fuel) :
    getLoop sTitle key fuel 1 lines.flatten = ((uncommented lines).find? (takes key)).map readValue := by
  induction lines generalizing fuel with
  | nil => cases fuel <;> rfl
  | cons line lines ih =>
      cases fuel with
      | zero => simp at hfuel
      | succ fuel =>
          rw [getLoop_below (fgetsLine_flatten h hfit) (flatten_ne_nil h),
            ih h.tail hfit.tail (Nat.le_of_succ_le_succ hfuel), uncommented_cons]
          cases hc : isComment line with
          | true => simp
          | false => cases ht : takes key line <;> simp [ht, readValue]

theorem getLoop_picked (h : Lines 10 lines) (hfit : Fitting lines) (hfuel : lines.length ≤ fuel) :
    getLoop sTitle key fuel 0 lines.flatten = (picked sTitle key (uncommented lines)).map readValue := by
  induction lines generalizing fuel with
  | nil => cases fuel <;> rfl
  | cons line lines ih =>
      cases fuel with
      | zero => simp at hfuel
      | succ fuel =>
          have hle := Nat.le_of_succ_le_succ hfuel
          rw [getLoop_above (fgetsLine_flatten h hfit) (flatten_ne_nil h), uncommented_cons]
          cases hc : isComment line with
          | true => simpa using ih h.tail hfit.tail hle
          | false =>
              cases ho : opens sTitle line with
              | true => simpa [picked, ho] using getLoop_find h.tail hfit.tail hle
              | false => simpa [picked, ho] using ih h.tail hfit.tail hle

/-- Behind these lines the one with the key is looked for. -/
def Waiting (sTitle key : CString) (lines : List CString) : Prop :=
  ∃ above title below, lines = above ++ title :: below ∧ (∀ line ∈ above, opens sTitle line = false) ∧
    opens sTitle title = true ∧ ∀ line ∈ below, takes key line = false

theorem picked_of_waiting (h : Waiting sTitle key pre) (hline : takes key line = true) :
    picked sTitle key (pre ++ line :: post) = some line := by
  obtain ⟨above, title, below, rfl, habove, htitle, hbelow⟩ := h
  have hdrop : ∀ l ∈ above, (! opens sTitle l) = true := by simpa using habove
  have hnone : below.find? (takes key) = none := by simpa using hbelow
  rw [picked, List.append_assoc, List.dropWhile_append_of_pos hdrop, List.cons_append, List.dropWhile_cons]
  simp [htitle, List.find?_append, hnone, hline]

theorem picked_eq_some_iff : picked sTitle key lines = some line ↔
    ∃ pre post, lines = pre ++ line :: post ∧ Waiting sTitle key pre ∧ takes key line = true := by
  constructor
  · intro h
    have hsplit := List.takeWhile_append_dropWhile (p := (! opens sTitle ·)) (l := lines)
    have habove : ∀ l ∈ lines.takeWhile (! opens sTitle ·), opens sTitle l = false := by
      intro l hl
      simpa using List.mem_takeWhile_imp hl
    cases hdrop : lines.dropWhile (! opens sTitle ·) with
    | nil => simp [picked, hdrop] at h
    | cons title below =>
        rw [picked, hdrop, List.tail_cons] at h
        obtain ⟨htakes, pre, post, rfl, hpre⟩ := List.find?_eq_some_iff_append.mp h
        have htitle : opens sTitle title = true := by
          have hhead := List.head?_dropWhile_not (! opens sTitle ·) lines
          simpa [hdrop] using hhead
        refine ⟨lines.takeWhile (! opens sTitle ·) ++ title :: pre, post, ?_,
          ⟨_, title, pre, rfl, habove, htitle, by simpa using hpre⟩, htakes⟩
        rw [hdrop] at hsplit
        simpa using hsplit.symm
  · rintro ⟨pre, post, rfl, hpre, hline⟩
    exact picked_of_waiting hpre hline

/-- The text of a configuration file: its lines are shorter than 1023 bytes. -/
structure IniText (text : List UInt8) : Prop where
  noNul : 0 ∉ text
  short : ∀ line ∈ textLines 10 text, (chomp 10 line).length < 1023

theorem length_le_chomp (line : CString) : line.length ≤ (chomp 10 line).length + 1 := by
  rw [chomp]
  split
  · rw [List.length_dropLast]; omega
  · exact Nat.le_succ _

theorem IniText.fitting (h : IniText text) : Fitting (textLines 10 text) := by
  intro line hline
  have hle := length_le_chomp line
  have hlt := h.short line hline
  refine ⟨by omega, fun hnul => h.noNul ?_⟩
  rw [← flatten_textLines 10 text]
  exact List.mem_flatten_of_mem hline hnul

theorem sprintfTitle_of_lt (h : title.length < 30) : sprintfTitle title = some (bracketed title) := by
  rw [sprintfTitle, if_pos]
  simp only [bracketed, List.length_append, List.length_singleton]
  omega

theorem sprintfTitle_eq_some (h : sprintfTitle title = some sTitle) :
    title.length < 30 ∧ sTitle = bracketed title := by
  rw [sprintfTitle] at h
  split at h
  · rename_i hlt
    simp only [bracketed, List.length_append, List.length_singleton] at hlt
    exact ⟨by omega, (Option.some.inj h).symm⟩
  · cases h

/-- The line that a look-up reads. -/
def readLineOf (title key : CString) (text : List UInt8) : Option CString :=
  picked (bracketed title) key (uncommented (textLines 10 text))

theorem getIniKeyString_eq {disk : Disk} {filename : CString} (hfile : disk.file filename = some text)
    (htext : IniText text) (htitle : title.length < 30) :
    getIniKeyString disk title key filename = some ((readLineOf title key text).map readValue) := by
  have hlines := lines_textLines 10 text
  have hfuel := length_le_flatten hlines
  rw [flatten_textLines] at hfuel
  have hloop : getLoop (bracketed title) key text.length 0 (textLines 10 text).flatten = _ :=
    getLoop_picked hlines htext.fitting hfuel
  rw [flatten_textLines] at hloop
  simp only [getIniKeyString, sprintfTitle_of_lt htitle, hfile, Option.bind_eq_bind, Option.bind_some, hloop]
  rfl

/-! ## Update -/

/-- The line with another value. -/
def setValue (val line : CString) : CString := keyOf line ++ 61 :: (val ++ [10])

theorem putLine_done (sTitle key val line : CString) :
    putLine sTitle key val 2 line = some (2, line) := by
  rw [putLine.eq_def]
  cases strchr line 61 <;> rfl

theorem putLine_above (sTitle key val line : CString) :
    putLine sTitle key val 0 line = some (if opens sTitle line then 1 else 0, line) := by
  rw [putLine.eq_def]
  cases strchr line 61 <;> rfl

theorem putLine_below (sTitle key val line : CString) : putLine sTitle key val 1 line =
    if takes key line = true then
      if (keyOf line).length + 1 + (val.length + 1) < 1024 then some (2, setValue val line) else none
    else some (1, line) := by
  by_cases heq : 61 ∈ line
  · obtain ⟨front, rest, hfront, rfl⟩ := exists_parts heq
    have htake : (front ++ 61 :: rest).take (front.length + 1) = front ++ [61] := by
      rw [List.append_cons]
      exact List.take_left' (by simp)
    rw [putLine.eq_def]
    simp only [strchr_append hfront, strncmpEq_append, takes_append hfront, keyOf_append hfront, htake,
      setValue]
    simp
  · rw [putLine.eq_def, strchr_of_not_mem heq]
    simp [takes, heq]

theorem putLoop_step (h : fgetsLine file = (line, text)) (hne : file ≠ []) :
    putLoop sTitle key val (fuel + 1) flag file =
      (putLine sTitle key val flag line).bind fun r => (putLoop sTitle key val fuel r.1 text).map (r.2 ++ ·) := by
  cases file with
  | nil => exact absurd rfl hne
  | cons c file =>
      rw [putLoop.eq_def]
      simp only [h]
      cases putLine sTitle key val flag line with
      | none => rfl
      | some r => cases h' : putLoop sTitle key val fuel r.1 text <;> simp [h']

theorem putLoop_cons (h : Lines 10 (line :: lines)) (hfit : Fitting (line :: lines)) :
    putLoop sTitle key val (fuel + 1) flag (line :: lines).flatten =
      (putLine sTitle key val flag line).bind fun r =>
        (putLoop sTitle key val fuel r.1 lines.flatten).map (r.2 ++ ·) :=
  putLoop_step (fgetsLine_flatten h hfit) (flatten_ne_nil h)

theorem putLoop_done (h : Lines 10 lines) (hfit : Fitting lines) (hfuel : lines.length ≤ fuel) :
    putLoop sTitle key val fuel 2 lines.flatten = some lines.flatten := by
  induction lines generalizing fuel with
  | nil => cases fuel <;> rfl
  | cons line lines ih =>
      cases fuel with
      | zero => simp at hfuel
      | succ fuel =>
          rw [putLoop_cons h hfit, putLine_done, Option.bind_some,
            ih h.tail hfit.tail (Nat.le_of_succ_le_succ hfuel)]
          rfl

/-- What is written for the lines: the same text, or one with the value set in a line behind lines that
have the property. -/
inductive Written (key val : CString) (P : List CString → Prop) : List CString → List UInt8 → Prop
  | same (lines : List CString) : Written key val P lines lines.flatten
  | set (pre post : List CString) (line : CString) (hpre : P pre) (hline : takes key line = true)
      (hlt : (keyOf line).length + 1 + (val.length + 1) < 1024) :
      Written key val P (pre ++ line :: post) (pre ++ setValue val line :: post).flatten

theorem Written.cons {P Q : List CString → Prop} (h : Written key val P lines text)
    (hPQ : ∀ pre, P pre → Q (line :: pre)) : Written key val Q (line :: lines) (line ++ text) := by
  cases h with
  | same lines => exact .same (line :: lines)
  | set pre post l hpre hl hlt => exact .set (line :: pre) post l (hPQ pre hpre) hl hlt

theorem putLoop_below (h : Lines 10 lines) (hfit : Fitting lines) (hfuel : lines.length ≤ fuel)
    (hput : putLoop sTitle key val fuel 1 lines.flatten = some text) :
    Written key val (fun pre => ∀ l ∈ pre, takes key l = false) lines text := by
  induction lines generalizing fuel text with
  | nil => cases fuel <;> exact Option.some.inj hput ▸ .same []
  | cons line lines ih =>
      cases fuel with
      | zero => simp at hfuel
      | succ fuel =>
          have hle := Nat.le_of_succ_le_succ hfuel
          rw [putLoop_cons h hfit, putLine_below] at hput
          cases ht : takes key line with
          | true =>
              rw [if_pos ht] at hput
              split at hput
              · rename_i hlt
                rw [Option.bind_some, putLoop_done h.tail hfit.tail hle] at hput
                cases hput
                exact .set [] lines line (by simp) ht hlt
              · cases hput
          | false =>
              rw [ht, if_neg Bool.false_ne_true, Option.bind_some, Option.map_eq_some_iff] at hput
              obtain ⟨text, hput, rfl⟩ := hput
              refine (ih h.tail hfit.tail hle hput).cons ?_
              intro pre hpre
              simpa [ht] using hpre

theorem Waiting.cons (h : Waiting sTitle key pre) (ho : opens sTitle line = false) :
    Waiting sTitle key (line :: pre) := by
  obtain ⟨above, title, below, rfl, habove, htitle, hbelow⟩ := h
  refine ⟨line :: above, title, below, rfl, ?_, htitle, hbelow⟩
  simpa [ho] using habove

theorem putLoop_written (h : Lines 10 lines) (hfit : Fitting lines) (hfuel : lines.length ≤ fuel)
    (hput : putLoop sTitle key val fuel 0 lines.flatten = some text) :
    Written key val (Waiting sTitle key) lines text := by
  induction lines generalizing fuel text with
  | nil => cases fuel <;> exact Option.some.inj hput ▸ .same []
  | cons line lines ih =>
      cases fuel with
      | zero => simp at hfuel
      | succ fuel =>
          have hle := Nat.le_of_succ_le_succ hfuel
          rw [putLoop_cons h hfit, putLine_above, Option.bind_some, Option.map_eq_some_iff] at hput
          obtain ⟨text, hput, rfl⟩ := hput
          cases ho : opens sTitle line with
          | true =>
              rw [if_pos ho] at hput
              refine (putLoop_below h.tail hfit.tail hle hput).cons ?_
              intro pre hpre
              exact ⟨[], line, pre, rfl, by simp, ho, hpre⟩
          | false =>
              rw [ho, if_neg Bool.false_ne_true] at hput
              exact (ih h.tail hfit.tail hle hput).cons fun pre hpre => hpre.cons ho

end TermCollection.Dns
