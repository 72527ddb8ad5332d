import TermCollection.Dns.Lemmas.IniLines

/-!
# What a look-up in the configuration file reads

The line of the file may be shorter than the title or the key it is compared with, and the last byte of
the line is taken for its end.
-/

namespace TermCollection.Dns

variable {title key line own value filename : CString} {text : List UInt8}
variable {lines pre post above : List CString} {disk : Disk}

/-! ## The value of a key -/

def isHeader (line : CString) : Bool :=
  (chomp 10 line).head? = some 91 && (chomp 10 line).getLast? = some 93

/-- The first line `key=` below a header of the title and above the next header. -/
def ownLine (title key : CString) : Bool → List CString → Option CString
  | _, [] => none
  | inside, line :: lines =>
      if isComment line then ownLine title key inside lines
      else if isHeader line then ownLine title key (chomp 10 line = bracketed title) lines
      else if inside ∧ 61 ∈ line ∧ keyOf line = key then some line
      else ownLine title key inside lines

def configValue (title key : CString) (text : List UInt8) : Option CString :=
  (ownLine title key false (textLines 10 text)).map fun line => behind (chomp 10 line)

/-! ## The lines that are taken for the line of the key -/

/-- The last header above is the one of the title. -/
def inSection (title : CString) (above : List CString) : Bool :=
  ((uncommented above).filter isHeader).getLast?.any (chomp 10 · = bracketed title)

/-- A line `key=` in the section of the title. -/
structure IsOwn (title key : CString) (above : List CString) (line : CString) : Prop where
  shown : isComment line = false
  noHeader : isHeader line = false
  assigns : 61 ∈ line
  named : keyOf line = key
  inside : inSection title above = true

/-- Why a line that is not the key's own is taken for it. -/
inductive Misleading (title key : CString) (above : List CString) (line : CString) : Prop
  /-- Only the beginning of the key stands in front of the `=`, or the `=` stands in a header. -/
  | beginning (hname : keyOf line ≠ key ∨ isHeader line = true) (hin : inSection title above = true)
  /-- The section is over. -/
  | later (header : CString) (hmem : header ∈ uncommented above)
      (hheader : chomp 10 header = bracketed title) (hout : inSection title above = false)
  /-- There is no header of the title above, but a line with the beginning of it, which can be empty. -/
  | noHeader (hnone : ∀ header ∈ uncommented above, chomp 10 header ≠ bracketed title)
      (start : CString) (hmem : start ∈ uncommented above) (hstart : chomp 10 start <+: bracketed title)

/-- A line that is taken for the line of the key and is another one. -/
structure IsStray (title key : CString) (above : List CString) (line : CString) : Prop where
  shown : isComment line = false
  assigns : 61 ∈ line
  named : keyOf line <+: key
  misleading : Misleading title key above line

/-- The first line that is the key's own or a stray one. -/
abbrev FirstTaken (title key : CString) (text : List UInt8) (above : List CString) (line : CString) : Prop :=
  FirstWith (fun above line => IsStray title key above line ∨ IsOwn title key above line)
    (textLines 10 text) above line

/-- No stray line leads the look-up astray. -/
structure Unconfused (title key : CString) (text : List UInt8) : Prop where
  /-- A stray line above the key's own one has the same text behind its `=`. -/
  stray : ∀ above line, FirstTaken title key text above line → IsStray title key above line →
    ∃ above' own, FirstWith (IsOwn title key) (textLines 10 text) above' own ∧
      behind (chomp 10 own) = behind (chomp 10 line)
  /-- The key's own line has its end, or nothing behind its `=`. -/
  own : ∀ above line, FirstTaken title key text above line → IsOwn title key above line →
    line.getLast? = some 10 ∨ behind line = []

/-! ## The line of the key -/

theorem inSection_concat (title line : CString) (above : List CString) :
    inSection title (above ++ [line]) =
      if isComment line = false ∧ isHeader line = true then decide (chomp 10 line = bracketed title)
      else inSection title above := by
  rw [inSection, uncommented_append, uncommented_cons]
  cases hc : isComment line with
  | true => simp [uncommented, inSection]
  | false => cases hh : isHeader line <;> simp [uncommented, inSection, hh]

theorem exists_header_of_inSection (h : inSection title above = true) :
    ∃ header ∈ uncommented above, chomp 10 header = bracketed title := by
  obtain ⟨header, hlast, hheader⟩ := (Option.any_eq_true _ _).mp h
  exact ⟨header, (List.mem_filter.mp (List.mem_of_getLast? hlast)).1, of_decide_eq_true hheader⟩

theorem ownLine_iff (above : List CString) : ownLine title key (inSection title above) lines = some own ↔
    ∃ below, FirstWith (fun pre => IsOwn title key (above ++ pre)) lines below own := by
  induction lines generalizing above with
  | nil => simp [ownLine, firstWith_nil]
  | cons line lines ih =>
      have hstep := ih (above ++ [line])
      simp only [inSection_concat, List.append_assoc, List.singleton_append] at hstep
      rw [ownLine, exists_firstWith_cons, List.append_nil]
      by_cases hown : IsOwn title key above line
      · have hentry : inSection title above = true ∧ 61 ∈ line ∧ keyOf line = key :=
          ⟨hown.inside, hown.assigns, hown.named⟩
        simp [hown, hown.shown, hown.noHeader, hentry, eq_comm]
      · rw [← hstep]
        cases hc : isComment line with
        | true => simp [hown]
        | false =>
            cases hh : isHeader line with
            | true => simp [hown]
            | false =>
                have hentry : ¬ (inSection title above = true ∧ 61 ∈ line ∧ keyOf line = key) :=
                  fun h => hown ⟨hc, hh, h.2.1, h.2.2, h.1⟩
                simp [hown, hentry]

theorem configValue_eq_some : configValue title key text = some value ↔
    ∃ above own, FirstWith (IsOwn title key) (textLines 10 text) above own ∧
      behind (chomp 10 own) = value := by
  have hown (own : CString) : ownLine title key (inSection title []) (textLines 10 text) = some own ↔ _ :=
    ownLine_iff []
  simp only [List.nil_append] at hown
  simp only [configValue, Option.map_eq_some_iff]
  constructor
  · rintro ⟨own, hline, rfl⟩
    obtain ⟨above, hfirst⟩ := (hown own).mp hline
    exact ⟨above, own, hfirst, rfl⟩
  · rintro ⟨above, own, hfirst, rfl⟩
    exact ⟨own, (hown own).mpr ⟨above, hfirst⟩, rfl⟩

/-! ## The line that is read -/

/-- A header with its line end is taken for the title. -/
theorem opens_header (h : Ended 10 line) (hline : chomp 10 line = bracketed title) :
    opens (bracketed title) line = true := by
  rw [opens_iff h.ne_nil]
  obtain ⟨body, -, rfl⟩ := h
  rw [chomp_concat] at hline
  rw [List.dropLast_concat]
  exact List.prefix_iff_eq_append.mpr (by simp [hline])

theorem uncommented_split (h : uncommented lines = pre ++ line :: post) :
    ∃ above below, lines = above ++ line :: below ∧ uncommented above = pre := by
  obtain ⟨front, back, rfl, hfront, hback⟩ := List.filter_eq_append_iff.mp h
  obtain ⟨between, below, rfl, hbetween, -, -⟩ := List.filter_eq_cons_iff.mp hback
  refine ⟨front ++ between, below, by rw [List.append_assoc], ?_⟩
  rw [uncommented_append, ← List.append_nil pre]
  exact congrArg₂ _ hfront (List.filter_eq_nil_iff.mpr hbetween)

/-- The tests that the line of a look-up passes. -/
structure Taken (title key : CString) (above : List CString) (line : CString) : Prop where
  shown : isComment line = false
  taken : takes key line = true
  below : ∃ l ∈ uncommented above, opens (bracketed title) l = true

theorem waiting_of_first (hfirst : ∀ pre l post, above = pre ++ l :: post → ¬ Taken title key pre l)
    (hopen : ∃ l ∈ uncommented above, opens (bracketed title) l = true) :
    Waiting (bracketed title) key (uncommented above) := by
  obtain ⟨opener, hfind⟩ := Option.isSome_iff_exists.mp (List.find?_isSome.mpr hopen)
  obtain ⟨hopener, front, back, hsplit, hfront⟩ := List.find?_eq_some_iff_append.mp hfind
  refine ⟨front, opener, back, hsplit, by simpa using hfront, hopener, ?_⟩
  intro l hl
  by_contra htakes
  rw [Bool.not_eq_false] at htakes
  obtain ⟨back, post, rfl⟩ := List.append_of_mem hl
  have hshown : l ∈ uncommented above := by rw [hsplit]; simp
  rw [← List.cons_append, ← List.append_assoc] at hsplit
  obtain ⟨pre, post, rfl, hpre⟩ := uncommented_split hsplit
  refine hfirst pre l post rfl ⟨(mem_uncommented.mp hshown).2, htakes, opener, ?_, hopener⟩
  rw [hpre]
  simp

/-- The first line that passes the tests is read. -/
theorem readLineOf_of_first (h : FirstWith (Taken title key) (textLines 10 text) above line) :
    readLineOf title key text = some line := by
  obtain ⟨⟨below, hsplit⟩, hline, hfirst⟩ := h
  rw [readLineOf, hsplit, uncommented_append, uncommented_cons, hline.shown]
  exact picked_of_waiting (waiting_of_first hfirst hline.below) hline.taken

theorem readLineOf_of_none (h : ∀ above line below, textLines 10 text = above ++ line :: below →
    ¬ Taken title key above line) : readLineOf title key text = none := by
  by_contra hsome
  obtain ⟨line, hline⟩ := Option.ne_none_iff_exists'.mp hsome
  obtain ⟨pre, post, hsplit, ⟨front, opener, back, rfl, -, hopener, -⟩, htakes⟩ :=
    picked_eq_some_iff.mp hline
  have hshown : line ∈ uncommented (textLines 10 text) := by rw [hsplit]; simp
  obtain ⟨above, below, hlines, habove⟩ := uncommented_split hsplit
  refine h above line below hlines ⟨(mem_uncommented.mp hshown).2, htakes, opener, ?_, hopener⟩
  rw [habove]
  simp

theorem opens_of_start (h : Ended 10 line) (hstart : chomp 10 line <+: bracketed title) :
    opens (bracketed title) line = true := by
  rw [opens_iff h.ne_nil]
  obtain ⟨body, -, rfl⟩ := h
  rw [chomp_concat] at hstart
  rwa [List.dropLast_concat]

/-- What passes the tests is the key's own line or a stray one. -/
theorem taken_iff (hended : ∀ l ∈ above, Ended 10 l) :
    Taken title key above line ↔ IsStray title key above line ∨ IsOwn title key above line := by
  constructor
  · rintro ⟨hshown, htakes, start, hstart, hopens⟩
    simp only [takes, decide_eq_true_eq] at htakes
    cases hin : inSection title above with
    | true =>
        by_cases hown : keyOf line = key ∧ isHeader line = false
        · exact .inr ⟨hshown, hown.2, htakes.1, hown.1, hin⟩
        · refine .inl ⟨hshown, htakes.1, htakes.2, .beginning ?_ hin⟩
          rwa [not_and_or, Bool.not_eq_false] at hown
    | false =>
        refine .inl ⟨hshown, htakes.1, htakes.2, ?_⟩
        by_cases hheader : ∃ header ∈ uncommented above, chomp 10 header = bracketed title
        · obtain ⟨header, hmem, hheader⟩ := hheader
          exact .later header hmem hheader hin
        · push Not at hheader
          refine .noHeader hheader start hstart ?_
          obtain ⟨body, hbody, rfl⟩ := hended start (mem_uncommented.mp hstart).1
          rw [opens_iff (by simp), List.dropLast_concat] at hopens
          rwa [chomp_concat]
  · have hopens (l : CString) (hl : l ∈ uncommented above) : Ended 10 l := hended l (mem_uncommented.mp hl).1
    rintro (⟨hshown, hassigns, hnamed, hmisleading⟩ | ⟨hshown, -, hassigns, hnamed, hin⟩)
    · refine ⟨hshown, decide_eq_true ⟨hassigns, hnamed⟩, ?_⟩
      cases hmisleading with
      | beginning _ hin =>
          obtain ⟨header, hmem, hheader⟩ := exists_header_of_inSection hin
          exact ⟨header, hmem, opens_header (hopens header hmem) hheader⟩
      | later header hmem hheader _ => exact ⟨header, hmem, opens_header (hopens header hmem) hheader⟩
      | noHeader _ start hmem hstart => exact ⟨start, hmem, opens_of_start (hopens start hmem) hstart⟩
    · obtain ⟨header, hmem, hheader⟩ := exists_header_of_inSection hin
      exact ⟨hshown, decide_eq_true ⟨hassigns, hnamed ▸ List.prefix_rfl⟩, header, hmem,
        opens_header (hopens header hmem) hheader⟩

theorem taken_iff_of_split (hsplit : textLines 10 text = above ++ line :: pre) :
    Taken title key above line ↔ IsStray title key above line ∨ IsOwn title key above line :=
  taken_iff (hsplit ▸ lines_textLines 10 text).ended_above

/-! ## What is read -/

/-- A line with a line end has a value in front of it. -/
theorem setValue_readValue (h : takes key line = true) (hend : line.getLast? = some 10) :
    setValue (readValue line) line = line := by
  obtain ⟨front, rest, hfront, -, rfl⟩ := takes_iff.mp h
  rcases List.eq_nil_or_concat' rest with rfl | ⟨value, c, rfl⟩
  · simp at hend
  · rw [← List.cons_append, ← List.append_assoc, List.getLast?_concat] at hend
    cases hend
    rw [setValue, keyOf_append hfront, readValue, behind_append hfront, List.dropLast_concat]

theorem behind_chomp_setValue (h : takes key line = true) (val : CString) :
    behind (chomp 10 (setValue val line)) = val := by
  obtain ⟨front, rest, hfront, -, rfl⟩ := takes_iff.mp h
  rw [setValue, keyOf_append hfront, ← List.cons_append, ← List.append_assoc, chomp_concat,
    behind_append hfront]

theorem readValue_of_ended (h : takes key line = true) (hend : line.getLast? = some 10) :
    readValue line = behind (chomp 10 line) := by
  have hchomp := behind_chomp_setValue h (readValue line)
  rw [setValue_readValue h hend] at hchomp
  exact hchomp.symm

theorem readLineOf_of_firstTaken (h : FirstTaken title key text above line) :
    readLineOf title key text = some line :=
  readLineOf_of_first (h.congr fun _ _ _ hsplit => (taken_iff_of_split hsplit).symm)

theorem not_own_of_stray (h : IsStray title key above line) : ¬ IsOwn title key above line := by
  intro hown
  cases h.misleading with
  | beginning hname _ =>
      rcases hname with hname | hheader
      · exact hname hown.named
      · exact Bool.false_ne_true (hown.noHeader.symm.trans hheader)
  | later _ _ _ hout => exact Bool.false_ne_true (hout.symm.trans hown.inside)
  | noHeader hnone _ _ _ =>
      obtain ⟨header, hmem, hheader⟩ := exists_header_of_inSection hown.inside
      exact hnone header hmem hheader

/-- A stray line is read exactly if the key has a line, which is below it, with the same text. -/
theorem stray_exact_iff (h : FirstTaken title key text above line) (hstray : IsStray title key above line) :
    (some line).map readValue = configValue title key text ↔
      ∃ above' own, FirstWith (IsOwn title key) (textLines 10 text) above' own ∧
        behind (chomp 10 own) = behind (chomp 10 line) := by
  rw [Option.map_some, eq_comm, configValue_eq_some]
  refine exists_congr fun above' => exists_congr fun own => and_congr_right fun hown => ?_
  obtain ⟨below, hsplit⟩ := hown.split
  have hended : Ended 10 line := by
    rcases h.below hsplit (.inr hown.holds) with ⟨rfl, rfl⟩ | ⟨between, rfl⟩
    · exact absurd hown.holds (not_own_of_stray hstray)
    · exact (hsplit ▸ lines_textLines 10 text).ended_above line (by simp)
  have htakes : takes key line = true := decide_eq_true ⟨hstray.assigns, hstray.named⟩
  rw [readValue_of_ended htakes hended.getLast?_eq]

theorem own_exact_iff (h : FirstTaken title key text above line) (hown : IsOwn title key above line) :
    (some line).map readValue = configValue title key text ↔
      line.getLast? = some 10 ∨ behind line = [] := by
  have hfirst : FirstWith (IsOwn title key) (textLines 10 text) above line :=
    ⟨h.split, hown, fun pre l post hpre hl => h.first pre l post hpre (.inr hl)⟩
  rw [configValue_eq_some.mpr ⟨above, line, hfirst, rfl⟩, Option.map_some, Option.some.injEq]
  by_cases hend : line.getLast? = some 10
  · have htakes : takes key line = true := decide_eq_true ⟨hown.assigns, hown.named ▸ List.prefix_rfl⟩
    simp [readValue_of_ended htakes hend, hend]
  · rw [chomp_of_unended hend, readValue]
    constructor
    · intro hdrop
      have hlen := congrArg List.length hdrop
      rw [List.length_dropLast] at hlen
      exact .inr (List.length_eq_zero_iff.mp (by omega))
    · intro hor
      rw [hor.resolve_left hend]
      rfl

theorem configValue_of_none (h : ∀ above line below, textLines 10 text = above ++ line :: below →
    ¬ IsOwn title key above line) : configValue title key text = none := by
  by_contra hsome
  obtain ⟨value, hvalue⟩ := Option.ne_none_iff_exists'.mp hsome
  obtain ⟨above, own, ⟨⟨below, hsplit⟩, hown, -⟩, -⟩ := configValue_eq_some.mp hvalue
  exact h above own below hsplit hown

/-- A look-up is exact if and only if no stray line leads it astray and the key's own line has its end. -/
theorem getIniKeyString_exact_iff (key : CString) (hfile : disk.file filename = some text)
    (htext : IniText text) (htitle : title.length < 30) :
    getIniKeyString disk title key filename = some (configValue title key text) ↔
      Unconfused title key text := by
  rw [getIniKeyString_eq hfile htext htitle, Option.some.injEq]
  constructor
  · intro hexact
    constructor
    · intro above line hfirst hstray
      rw [readLineOf_of_firstTaken hfirst] at hexact
      exact (stray_exact_iff hfirst hstray).mp hexact
    · intro above line hfirst hown
      rw [readLineOf_of_firstTaken hfirst] at hexact
      exact (own_exact_iff hfirst hown).mp hexact
  · intro h
    rcases firstWith_or _ _ with ⟨above, line, hfirst⟩ | hnone
    · rw [readLineOf_of_firstTaken hfirst]
      rcases hfirst.holds with hstray | hown
      · exact (stray_exact_iff hfirst hstray).mpr (h.stray above line hfirst hstray)
      · exact (own_exact_iff hfirst hown).mpr (h.own above line hfirst hown)
    · rw [configValue_of_none fun above line below hsplit hown => hnone above line below hsplit (.inr hown),
        readLineOf_of_none fun above line below hsplit htaken =>
          hnone above line below hsplit ((taken_iff_of_split hsplit).mp htaken)]
      rfl

/-- A disk with one file, the name of which is `c`. -/
def oneFile (text : List UInt8) : Disk where
  file filename := if filename = [99] then some text else none
  creates _ := true
  renames _ _ := true

/-- The lines `[A]` and `P=53`. -/
def portText : List UInt8 := [91, 65, 93, 10, 80, 61, 53, 51, 10]

theorem portText_ini : IniText portText := ⟨by decide, by decide⟩

/-- Only the last line of the text is taken for the one of a key. -/
theorem portText_taken {above : List CString} {line : CString} (h : FirstTaken [65] [80] portText above line) :
    line = [80, 61, 53, 51, 10] ∧ IsOwn [65] [80] above line := by
  obtain ⟨below, hsplit⟩ := h.split
  have hlines : textLines 10 portText = [[91, 65, 93, 10], [80, 61, 53, 51, 10]] := by decide
  have hassigns : 61 ∈ line := h.holds.elim IsStray.assigns IsOwn.assigns
  rw [hlines] at hsplit
  match above, hsplit with
  | [], hsplit =>
      obtain ⟨rfl, -⟩ := List.cons.inj hsplit
      exact absurd hassigns (by decide)
  | [header], hsplit =>
      obtain ⟨rfl, hrest⟩ := List.cons.inj hsplit
      obtain ⟨rfl, -⟩ := List.cons.inj hrest
      exact ⟨rfl, by decide, by decide, by decide, by decide, by decide⟩
  | _ :: _ :: above, hsplit =>
      have hlen := congrArg List.length hsplit
      simp at hlen

theorem getIniKeyString_exact_port :
    getIniKeyString (oneFile portText) [65] [80] [99] = some (configValue [65] [80] portText) := by
  refine (getIniKeyString_exact_iff [80] rfl portText_ini (by decide)).mpr ⟨?_, ?_⟩
  · intro above line hfirst hstray
    exact absurd (portText_taken hfirst).2 (not_own_of_stray hstray)
  · intro above line hfirst _
    obtain ⟨rfl, -⟩ := portText_taken hfirst
    exact .inl rfl

/-- The text of one line is without a line end, in one the key `PT` stands below `P`, in one a blank line
stands above the header, and in one the key stands in another section. -/
theorem lookup_confused :
    getIniKeyString (oneFile portText.dropLast) [65] [80] [99] = some (some [53]) ∧
      configValue [65] [80] portText.dropLast = some [53, 51] ∧
      getIniKeyString (oneFile (portText ++ [80, 84, 61, 55, 10])) [65] [80, 84] [99] = some (some [53, 51]) ∧
      configValue [65] [80, 84] (portText ++ [80, 84, 61, 55, 10]) = some [55] ∧
      getIniKeyString (oneFile (10 :: portText)) [66] [80] [99] = some (some [53, 51]) ∧
      configValue [66] [80] (10 :: portText) = none ∧
      getIniKeyString (oneFile ([91, 66, 93, 10] ++ portText)) [66] [80] [99] = some (some [53, 51]) ∧
      configValue [66] [80] ([91, 66, 93, 10] ++ portText) = none ∧
      IniText portText.dropLast ∧ IniText (portText ++ [80, 84, 61, 55, 10]) ∧ IniText (10 :: portText) ∧
      IniText ([91, 66, 93, 10] ++ portText) := by
  refine ⟨by decide, by decide, by decide, by decide, by decide, by decide, by decide, by decide,
    ⟨by decide, by decide⟩, ⟨by decide, by decide⟩, ⟨by decide, by decide⟩, ⟨by decide, by decide⟩⟩

end TermCollection.Dns
