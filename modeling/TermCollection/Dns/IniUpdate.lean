import TermCollection.Dns.IniLookup

/-!
# What an update of the configuration file changes

The line that is written is the one that is read for every key it is taken for. A key without a line is
not written at all.
-/

namespace TermCollection.Dns

variable {title key val line line' filename front : CString} {text text' : List UInt8}
variable {lines pre post : List CString} {disk disk' : Disk}

/-- The bytes of a key. -/
abbrev IsKey (key : CString) : Prop := ∀ c ∈ key, c ≠ 0 ∧ c ≠ 61

/-- The value is read back, and every other look-up reads what it read before. -/
structure PutsOnly (disk disk' : Disk) (title key val filename : CString) : Prop where
  readBack : getIniKeyString disk' title key filename = some (some val)
  others : ∀ title' key', (title', key') ≠ (title, key) → IsKey key' →
    getIniKeyString disk' title' key' filename = getIniKeyString disk title' key' filename

/-- The line that is read for the key has the value already. -/
def HoldsValue (title key val : CString) (text : List UInt8) : Prop :=
  ∃ line ∈ readLineOf title key text, readValue line = val

/-! ## The text that is written -/

theorem putIniKeyString_text (hfile : disk.file filename = some text)
    (h : putIniKeyString disk title key val filename = some (0, disk')) :
    title.length < 30 ∧ ∃ text', putLoop (bracketed title) key val text.length 0 text = some text' ∧
      disk'.file filename = some text' := by
  simp only [putIniKeyString, hfile, Option.bind_eq_bind, Option.bind_some, Option.bind_eq_some_iff] at h
  obtain ⟨sTitle, hsTitle, tmp, htmp, h⟩ := h
  obtain ⟨htitle, rfl⟩ := sprintfTitle_eq_some hsTitle
  split at h
  · obtain ⟨text', hput, h⟩ := Option.bind_eq_some_iff.mp h
    refine ⟨htitle, text', hput, ?_⟩
    have hne : filename ≠ tmp := by
      rw [sprintfTmp] at htmp
      split at htmp
      · cases htmp
        simp
      · cases htmp
    split at h
    · cases h
      simp [Disk.rename, Disk.write, Function.update_of_ne hne]
    · simp at h
  · cases h

theorem mem_of_mem_keyOf {c : UInt8} (h : c ∈ keyOf line) : c ∈ line := (List.takeWhile_prefix _).subset h

/-- A line that is set still has a line end, and fits into the buffer. -/
theorem setValue_ended (hval : ∀ c ∈ val, c ≠ 0 ∧ c ≠ 10) (hname : 10 ∉ keyOf line) :
    Ended 10 (setValue val line) := by
  refine ⟨keyOf line ++ 61 :: val, ?_, by simp [setValue]⟩
  intro h
  rcases List.mem_append.mp h with h | h
  · exact hname h
  · rcases List.mem_cons.mp h with h | h
    · exact absurd h (by decide)
    · exact (hval 10 h).2 rfl

/-- The line end stands behind the `=`. -/
theorem not_mem_keyOf (hline : Ended 10 line ∨ 10 ∉ line) (htakes : takes key line = true) :
    10 ∉ keyOf line := by
  obtain ⟨front, rest, hfront, -, rfl⟩ := takes_iff.mp htakes
  rw [keyOf_append hfront]
  rcases hline with ⟨body, hbody, hline⟩ | hline
  · rcases List.eq_nil_or_concat' rest with rfl | ⟨value, c, rfl⟩
    · have hlast := congrArg List.getLast? hline
      simp at hlast
    · rw [← List.cons_append, ← List.append_assoc] at hline
      obtain ⟨rfl, -⟩ := List.append_inj' hline rfl
      exact fun h => hbody (List.mem_append_left _ h)
  · exact fun h => hline (List.mem_append_left _ h)

/-- The text with another value is a text of a configuration file again. -/
theorem IniText.set (h : IniText text) (hsplit : textLines 10 text = pre ++ line :: post)
    (htakes : takes key line = true) (hval : ∀ c ∈ val, c ≠ 0 ∧ c ≠ 10)
    (hlt : (keyOf line).length + 1 + (val.length + 1) < 1024) :
    IniText (pre ++ setValue val line :: post).flatten ∧
      textLines 10 (pre ++ setValue val line :: post).flatten = pre ++ setValue val line :: post := by
  have hlines := lines_textLines 10 text
  rw [hsplit] at hlines
  have hended : Ended 10 (setValue val line) :=
    setValue_ended hval (not_mem_keyOf (hlines.ended_or line (by simp)) htakes)
  have hset := (hlines.replace hended).textLines_flatten
  refine ⟨⟨?_, ?_⟩, hset⟩
  · intro hnul
    obtain ⟨l, hl, hnul⟩ := List.mem_flatten.mp hnul
    have hold : ∀ l ∈ pre ++ line :: post, 0 ∉ l := hsplit ▸ fun l hl => (h.fitting l hl).2
    simp only [List.mem_append, List.mem_cons] at hl
    rcases hl with hl | rfl | hl
    · exact hold l (by simp [hl]) hnul
    · simp only [setValue, List.mem_append, List.mem_cons, List.not_mem_nil, or_false] at hnul
      rcases hnul with hnul | hnul | hnul | hnul
      · exact hold line (by simp) (mem_of_mem_keyOf hnul)
      · exact absurd hnul (by decide)
      · exact (hval 0 hnul).1 rfl
      · exact absurd hnul (by decide)
    · exact hold l (by simp [hl]) hnul
  · rw [hset]
    intro l hl
    have hold : ∀ l ∈ pre ++ line :: post, (chomp 10 l).length < 1023 := hsplit ▸ h.short
    simp only [List.mem_append, List.mem_cons] at hl
    rcases hl with hl | rfl | hl
    · exact hold l (by simp [hl])
    · have hconcat : setValue val line = keyOf line ++ 61 :: val ++ [10] := by simp [setValue]
      rw [hconcat, chomp_concat, List.length_append, List.length_cons]
      omega
    · exact hold l (by simp [hl])

/-! ## The lines that the reader skips -/

theorem isComment_append (front rest rest' : CString) :
    isComment (front ++ 61 :: rest) = isComment (front ++ 61 :: rest') := by
  match front with
  | [] => simp [isComment, strncmpEq]
  | [c] => simp [isComment, strncmpEq]
  | c :: d :: front => simp [isComment, strncmpEq]

theorem isComment_setValue (h : takes key line = true) (val : CString) :
    isComment (setValue val line) = isComment line := by
  obtain ⟨front, rest, hfront, -, rfl⟩ := takes_iff.mp h
  rw [setValue, keyOf_append hfront]
  exact isComment_append ..

/-- No comment is taken for the title, unless it is the last line. -/
theorem not_comment_of_opens (hline : Ended 10 line) (h : opens (bracketed title) line = true) :
    isComment line = false := by
  rw [opens_iff hline.ne_nil] at h
  obtain ⟨body, -, rfl⟩ := hline
  rw [List.dropLast_concat] at h
  cases body with
  | nil => decide
  | cons c body =>
      have hc : c = 91 := by
        simpa [bracketed] using (List.cons_prefix_cons.mp h).1
      subst hc
      cases body <;> simp [isComment, strncmpEq]

theorem takes_setValue (h : takes key line = true) (val key' : CString) :
    takes key' (setValue val line) = takes key' line := by
  obtain ⟨front, rest, hfront, -, rfl⟩ := takes_iff.mp h
  rw [setValue, keyOf_append hfront, Bool.eq_iff_iff, takes_append hfront, takes_append hfront]

theorem readValue_setValue (h : takes key line = true) (val : CString) :
    readValue (setValue val line) = val := by
  obtain ⟨front, rest, hfront, -, rfl⟩ := takes_iff.mp h
  rw [readValue, setValue, keyOf_append hfront, behind_append hfront, List.dropLast_concat]

theorem waiting_uncommented {pre : List CString} (h : Waiting (bracketed title) key pre)
    (hended : ∀ line ∈ pre, Ended 10 line) : Waiting (bracketed title) key (uncommented pre) := by
  obtain ⟨above, header, below, rfl, habove, hheader, hbelow⟩ := h
  refine ⟨uncommented above, header, uncommented below, ?_, ?_, hheader, ?_⟩
  · rw [uncommented_append, uncommented_cons, not_comment_of_opens (hended header (by simp)) hheader]
    rfl
  · exact fun line hline => habove line (mem_uncommented.mp hline).1
  · exact fun line hline => hbelow line (mem_uncommented.mp hline).1

/-- The key with a line end behind it: no line is taken for it that is not taken for the key. -/
theorem Waiting.longer {pre : List CString} (h : Waiting (bracketed title) key pre)
    (hended : ∀ line ∈ pre, Ended 10 line) : Waiting (bracketed title) (key ++ [10]) pre := by
  obtain ⟨above, header, below, rfl, habove, hheader, hbelow⟩ := h
  refine ⟨above, header, below, rfl, habove, hheader, ?_⟩
  intro line hline
  by_contra htakes
  rw [Bool.not_eq_false] at htakes
  have hname := not_mem_keyOf (.inl (hended line (by simp [hline]))) htakes
  obtain ⟨front, rest, hfront, hkey, rfl⟩ := takes_iff.mp htakes
  rw [keyOf_append hfront] at hname
  have hnone := hbelow _ hline
  rw [Bool.eq_false_iff, ne_eq, takes_append hfront] at hnone
  rcases List.prefix_concat_iff.mp hkey with rfl | hkey
  · simp at hname
  · exact hnone hkey

/-! ## Reading before and after -/

theorem getIniKeyString_congr (h : disk'.file filename = disk.file filename) (title key : CString) :
    getIniKeyString disk' title key filename = getIniKeyString disk title key filename := by
  rw [getIniKeyString, h]
  rfl

theorem getIniKeyString_long (h : ¬ title.length < 30) (disk : Disk) (key filename : CString) :
    getIniKeyString disk title key filename = none := by
  rw [getIniKeyString, sprintfTitle, if_neg]
  · rfl
  · simp only [bracketed, List.length_append, List.length_singleton]
    omega

theorem holdsValue_iff (hfile : disk.file filename = some text) (htext : IniText text)
    (htitle : title.length < 30) :
    getIniKeyString disk title key filename = some (some val) ↔ HoldsValue title key val text := by
  rw [getIniKeyString_eq hfile htext htitle, Option.some.injEq, Option.map_eq_some_iff]
  rfl

theorem readLineOf_waiting (hsplit : textLines 10 text = pre ++ line :: post)
    (h : Waiting (bracketed title) key pre) (htakes : takes key line = true) (hc : isComment line = false) :
    readLineOf title key text = some line := by
  rw [readLineOf, hsplit, uncommented_append, uncommented_cons, hc]
  exact picked_of_waiting (waiting_uncommented h (hsplit ▸ lines_textLines 10 text).ended_above) htakes

/-- The key with a line end behind it reads the line of the key. -/
theorem readLineOf_longer (hsplit : textLines 10 text = pre ++ line :: post)
    (h : Waiting (bracketed title) key pre) (htakes : takes key line = true) (hc : isComment line = false) :
    readLineOf title (key ++ [10]) text = some line := by
  refine readLineOf_waiting hsplit (h.longer (hsplit ▸ lines_textLines 10 text).ended_above) ?_ hc
  obtain ⟨front, rest, hfront, hkey, rfl⟩ := takes_iff.mp htakes
  exact (takes_append hfront).mpr (hkey.trans (List.prefix_append key [10]))

/-- Two last lines that are taken for the same keys, with the same value. -/
theorem picked_last (lines : List CString) (htakes : takes key line = takes key line')
    (hvalue : readValue line = readValue line') (sTitle : CString) :
    (picked sTitle key (lines ++ [line])).map readValue =
      (picked sTitle key (lines ++ [line'])).map readValue := by
  induction lines with
  | nil =>
      have hnone : ∀ l, picked sTitle key ([] ++ [l]) = none := by
        intro l
        cases ho : opens sTitle l <;> simp [picked, ho]
      rw [hnone, hnone]
  | cons l lines ih =>
      cases ho : opens sTitle l with
      | false => simpa [picked, ho] using ih
      | true =>
          simp only [picked, List.cons_append, List.dropWhile_cons, ho, Bool.not_true, Bool.false_eq_true,
            ↓reduceIte, List.tail_cons, List.find?_append]
          cases lines.find? (takes key) with
          | some _ => rfl
          | none =>
              cases ht : takes key line' with
              | true => simp [htakes, ht, hvalue]
              | false => simp [htakes, ht]

/-- Where every look-up reads what it read before, the value has to be there already. -/
theorem putsOnly_iff_of_same (hfile : disk.file filename = some text) (htext : IniText text)
    (htitle : title.length < 30)
    (hsame : ∀ title' key', getIniKeyString disk' title' key' filename =
      getIniKeyString disk title' key' filename) :
    PutsOnly disk disk' title key val filename ↔ HoldsValue title key val text := by
  rw [← holdsValue_iff hfile htext htitle]
  constructor
  · intro h
    exact (hsame title key).symm.trans h.readBack
  · intro h
    exact ⟨(hsame title key).trans h, fun title' key' _ _ => hsame title' key'⟩

/-- The value was set in a line. -/
structure LineSet (disk disk' : Disk) (title key val filename : CString) (text : List UInt8) (pre : List CString)
    (line : CString) (post : List CString) : Prop where
  file : disk.file filename = some text
  ini : IniText text
  lines : textLines 10 text = pre ++ line :: post
  written : ∃ text', disk'.file filename = some text' ∧ IniText text' ∧
    textLines 10 text' = pre ++ setValue val line :: post
  title_lt : title.length < 30
  waiting : Waiting (bracketed title) key pre
  taken : takes key line = true

/-- An update of a comment or of a line that has the value already is not seen by any look-up. -/
theorem LineSet.same (h : LineSet disk disk' title key val filename text pre line post)
    (hline : isComment line = true ∨ readValue line = val) (title' key' : CString) :
    getIniKeyString disk' title' key' filename = getIniKeyString disk title' key' filename := by
  obtain ⟨text', hfile', htext', hlines'⟩ := h.written
  by_cases hlen : title'.length < 30
  · rw [getIniKeyString_eq hfile' htext' hlen, getIniKeyString_eq h.file h.ini hlen, readLineOf, readLineOf,
      h.lines, hlines']
    cases hc : isComment line with
    | true =>
        have hc' := isComment_setValue h.taken val
        rw [uncommented_append, uncommented_append, uncommented_cons, uncommented_cons, hc', hc]
        rfl
    | false =>
        obtain rfl := hline.resolve_left (by simp [hc])
        by_cases hend : line.getLast? = some 10
        · rw [setValue_readValue h.taken hend]
        · have hc' := isComment_setValue h.taken (readValue line)
          have hlast := h.lines ▸ lines_textLines 10 text
          obtain rfl := hlast.eq_nil_of_unended fun hended => hend hended.getLast?_eq
          rw [uncommented_append, uncommented_append, uncommented_cons, uncommented_cons, hc', hc]
          exact congrArg some (picked_last _ (takes_setValue h.taken _ _) (readValue_setValue h.taken _) _)
  · rw [getIniKeyString_long hlen, getIniKeyString_long hlen]

/-- The key with a line end behind it reads the value that was set, and what stood there before. -/
theorem LineSet.longer (h : LineSet disk disk' title key val filename text pre line post)
    (hc : isComment line = false) :
    getIniKeyString disk' title (key ++ [10]) filename = some (some val) ∧
      getIniKeyString disk title (key ++ [10]) filename = some (some (readValue line)) := by
  obtain ⟨text', hfile', htext', hlines'⟩ := h.written
  have hc' : isComment (setValue val line) = false := by rw [isComment_setValue h.taken, hc]
  have htaken' : takes key (setValue val line) = true := by rw [takes_setValue h.taken, h.taken]
  constructor
  · rw [getIniKeyString_eq hfile' htext' h.title_lt, readLineOf_longer hlines' h.waiting htaken' hc',
      Option.map_some, readValue_setValue h.taken]
  · rw [getIniKeyString_eq h.file h.ini h.title_lt, readLineOf_longer h.lines h.waiting h.taken hc,
      Option.map_some]

theorem LineSet.putsOnly_iff (h : LineSet disk disk' title key val filename text pre line post)
    (hkey : IsKey key) : PutsOnly disk disk' title key val filename ↔ HoldsValue title key val text := by
  cases hc : isComment line with
  | true => exact putsOnly_iff_of_same h.file h.ini h.title_lt (h.same (.inl hc))
  | false =>
      have hread := readLineOf_waiting h.lines h.waiting h.taken hc
      constructor
      · intro hputs
        have hlonger : IsKey (key ++ [10]) := by
          intro c hc
          rcases List.mem_append.mp hc with hc | hc
          · exact hkey c hc
          · cases List.mem_singleton.mp hc
            decide
        have hother := hputs.others title (key ++ [10]) (by simp) hlonger
        rw [(h.longer hc).1, (h.longer hc).2] at hother
        exact ⟨line, hread, by simpa using hother.symm⟩
      · rintro ⟨line', hline', hvalue⟩
        cases hread.symm.trans hline'
        have hsame := h.same (.inr hvalue)
        exact (putsOnly_iff_of_same h.file h.ini h.title_lt hsame).mpr ⟨line, hread, hvalue⟩

/-- An update is read back and changes nothing else if and only if the value was there before it: what is
written is also read for a key that only starts with the key. -/
theorem putIniKeyString_exact_iff (hfile : disk.file filename = some text) (htext : IniText text)
    (hkey : IsKey key) (hval : ∀ c ∈ val, c ≠ 0 ∧ c ≠ 10)
    (hput : putIniKeyString disk title key val filename = some (0, disk')) :
    PutsOnly disk disk' title key val filename ↔ HoldsValue title key val text := by
  obtain ⟨htitle, text', hloop, hfile'⟩ := putIniKeyString_text hfile hput
  have hlines := lines_textLines 10 text
  have hfuel := length_le_flatten hlines
  have hput' : putLoop (bracketed title) key val text.length 0 (textLines 10 text).flatten = some text' := by
    rwa [flatten_textLines]
  rw [flatten_textLines] at hfuel
  have hwritten := putLoop_written hlines htext.fitting hfuel hput'
  generalize hsplit : textLines 10 text = lines at hwritten
  cases hwritten with
  | same =>
      rw [← hsplit, flatten_textLines] at hfile'
      exact putsOnly_iff_of_same hfile htext htitle (getIniKeyString_congr (hfile'.trans hfile.symm))
  | set pre post line hwait htakes hlt =>
      obtain ⟨htext', hsplit'⟩ := htext.set hsplit htakes hval hlt
      have hset : LineSet disk disk' title key val filename text pre line post :=
        ⟨hfile, htext, hsplit, ⟨_, hfile', htext', hsplit'⟩, htitle, hwait, htakes⟩
      exact hset.putsOnly_iff hkey

theorem putIniKeyString_exact_port :
    ∃ disk', putIniKeyString (oneFile portText) [65] [80] [53, 51] [99] = some (0, disk') ∧
      PutsOnly (oneFile portText) disk' [65] [80] [53, 51] [99] := by
  refine ⟨_, rfl, (putIniKeyString_exact_iff rfl portText_ini ?_ ?_ rfl).mpr ?_⟩
  · decide +kernel
  · decide +kernel
  · exact ⟨[80, 61, 53, 51, 10], by decide, by decide⟩

/-- A key without a line is not written. An update of the key `P` changes what is read for `PT`, and one in
the section `B` changes a key of the section `A` below it. -/
theorem update_confused :
    IniText portText ∧ IniText ([91, 66, 93, 10] ++ portText) ∧
    (∃ disk', putIniKeyString (oneFile portText) [65] [84] [55] [99] = some (0, disk') ∧
      getIniKeyString disk' [65] [84] [99] = some none ∧
      ¬ PutsOnly (oneFile portText) disk' [65] [84] [55] [99]) ∧
    (∃ disk', putIniKeyString (oneFile portText) [65] [80] [55] [99] = some (0, disk') ∧
      getIniKeyString (oneFile portText) [65] [80, 84] [99] = some (some [53, 51]) ∧
      getIniKeyString disk' [65] [80, 84] [99] = some (some [55]) ∧
      ¬ PutsOnly (oneFile portText) disk' [65] [80] [55] [99]) ∧
    ∃ disk', putIniKeyString (oneFile ([91, 66, 93, 10] ++ portText)) [66] [80] [55] [99] = some (0, disk') ∧
      getIniKeyString (oneFile ([91, 66, 93, 10] ++ portText)) [65] [80] [99] = some (some [53, 51]) ∧
      getIniKeyString disk' [65] [80] [99] = some (some [55]) ∧
      ¬ PutsOnly (oneFile ([91, 66, 93, 10] ++ portText)) disk' [66] [80] [55] [99] := by
  refine ⟨portText_ini, ⟨by decide, by decide⟩, ⟨_, rfl, by decide, ?_⟩, ⟨_, rfl, by decide, by decide, ?_⟩,
    _, rfl, by decide, by decide, ?_⟩
  · intro h
    exact absurd h.readBack (by decide)
  · intro h
    exact absurd (h.others [65] [80, 84] (by decide) (by decide +kernel)) (by decide)
  · intro h
    exact absurd (h.others [65] [80] (by decide) (by decide +kernel)) (by decide)

end TermCollection.Dns
