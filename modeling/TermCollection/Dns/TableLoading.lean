import TermCollection.Dns.Lemmas.Loading

/-!
# What a loaded file is found to hold

The last byte of every line is taken for its line end, and a domain is copied together with it.
-/

namespace TermCollection.Dns

variable {s s' : Server} {line : CString × CString} {lines lines' : List (CString × CString)}
variable {name : CString}

/-- The text is an address and a domain without spaces, both shorter than 64 bytes. -/
structure TableLine (line : CString × CString) : Prop where
  ip : ∀ c ∈ line.1, c ≠ 0 ∧ c ≠ 10 ∧ c ≠ 32
  domain : ∀ c ∈ line.2, c ≠ 0 ∧ c ≠ 10 ∧ c ≠ 32
  ip_lt : line.1.length < arrLength
  domain_lt : line.2.length < arrLength

/-- The text of the lines, with or without a line end after the last one. -/
def tableText (lines : List (CString × CString)) (ended : Bool) : List UInt8 :=
  if ended then fileText lines else (fileText lines).dropLast

/-- The first line that mentions a domain. -/
def mention (lines : List (CString × CString)) (name : CString) : Option (CString × CString) :=
  lines.find? fun line => line.2 = name

/-- Every domain of the lines is found with the address of its first line, and no other name is found. -/
structure FindsLines (lines : List (CString × CString)) (s : Server) : Prop where
  found : ∀ name line, mention lines name = some line →
    ∃ node row, lookupRow s name = some (some (node, row)) ∧ (s.dnsTable row).data = line.1
  missed : ∀ name, mention lines name = none → findNodeByKey s.str s.dnsHashTable name = some none

/-! ## Lookup after the lines were read -/

theorem mention_eq_some (h : mention lines name = some line) :
    ∃ j, lines[j]? = some line ∧ line.2 = name ∧ ∀ line' ∈ lines.take j, line'.2 ≠ name := by
  obtain ⟨hname, l, r, rfl, hl⟩ := List.find?_eq_some_iff_append.mp h
  refine ⟨l.length, by simp, by simpa using hname, ?_⟩
  rw [List.take_left]
  simpa using hl

theorem mention_append (l r : List (CString × CString)) (name : CString) :
    mention (l ++ r) name = (mention l name).or (mention r name) := List.find?_append

theorem FileLoaded.found {j : Nat} (h : FileLoaded lines s) (hj : lines[j]? = some line)
    (hfirst : ∀ line' ∈ lines.take j, line'.2 ≠ line.2) :
    ∃ node, lookupRow s line.2 = some (some (node, j)) := by
  obtain ⟨A, R, hent, hA⟩ := h.first_entry hj hfirst
  refine lookupRow_first h.ok hent ?_ ?_
  · rw [Server.str, h.row j line hj, fileRow]
  · intro e he
    obtain ⟨i, rfl, hne⟩ := hA e he
    exact hne

theorem visible_asChain {α : Type} (l : List α) : visible (asChain l) = l := by
  cases l with
  | nil => rfl
  | cons e l => rw [asChain, visible_map_some]

theorem FileLoaded.missed (h : FileLoaded lines s) (hname : ∀ line ∈ lines, line.2 ≠ name) :
    findNodeByKey s.str s.dnsHashTable name = some none := by
  rcases h.ok.wellFormed.find h.ok.nonempty s.str name with ⟨hfind, -⟩ | ⟨a, B, e, S, -, hat, he, -⟩
  · exact hfind
  · have hmem : e ∈ visible (bucketEntries s.dnsHashTable (bucket s.dnsHashTable name)) := by
      rw [hat.entries, visible_append, visible]
      simp
    rw [h.entries _ (h.ok.size ▸ bucket_lt h.ok.nonempty name), visible_asChain] at hmem
    obtain ⟨i, line, hi, rfl⟩ := mem_fileEntries hmem
    rw [Server.str, h.row i line hi] at he
    exact absurd he (hname line (List.mem_of_getElem? hi))

theorem FileLoaded.finds (h : FileLoaded lines s) : FindsLines lines s := by
  constructor
  · intro name line hm
    obtain ⟨j, hj, rfl, hfirst⟩ := mention_eq_some hm
    obtain ⟨node, hrow⟩ := h.found hj hfirst
    exact ⟨node, j, hrow, by rw [h.row j line hj, fileRow]⟩
  · intro name hm
    exact h.missed (by simpa [mention] using hm)

/-- A state that finds the lines finds other lines only if these have the same first addresses. -/
theorem FindsLines.address (h : FindsLines lines s) (h' : FindsLines lines' s) (name : CString) :
    (mention lines name).map Prod.fst = (mention lines' name).map Prod.fst := by
  have hmissed : ∀ {lines : List (CString × CString)}, FindsLines lines s →
      mention lines name = none → lookupRow s name = some none := by
    intro lines h hm
    simp [lookupRow, h.missed name hm]
  cases hm : mention lines name with
  | none =>
      cases hm' : mention lines' name with
      | none => rfl
      | some line' =>
          obtain ⟨node, row, hrow, -⟩ := h'.found name line' hm'
          simp [hmissed h hm] at hrow
  | some line =>
      obtain ⟨node, row, hrow, hdata⟩ := h.found name line hm
      cases hm' : mention lines' name with
      | none => simp [hmissed h' hm'] at hrow
      | some line' =>
          obtain ⟨node', row', hrow', hdata'⟩ := h'.found name line' hm'
          rw [hrow] at hrow'
          cases hrow'
          rw [Option.map_some, Option.map_some, ← hdata, hdata']

theorem FindsLines.congr (h : FindsLines lines s)
    (heq : ∀ name, (mention lines' name).map Prod.fst = (mention lines name).map Prod.fst) :
    FindsLines lines' s := by
  constructor
  · intro name line hm
    have hline := heq name
    rw [hm, Option.map_some, eq_comm, Option.map_eq_some_iff] at hline
    obtain ⟨line', hm', hip⟩ := hline
    obtain ⟨node, row, hrow, hdata⟩ := h.found name line' hm'
    exact ⟨node, row, hrow, hdata.trans hip⟩
  · intro name hm
    have hline := heq name
    rw [hm, Option.map_none, eq_comm, Option.map_eq_none_iff] at hline
    exact h.missed name hline

/-! ## Reading the lines -/

theorem TableLine.fgets (h : TableLine line) (rest : List UInt8) :
    fgets (lineText line ++ rest) = (lineText line, rest) :=
  fgets_lineText (fun c hc => (h.ip c hc).2.1) (fun c hc => (h.domain c hc).2.1) h.ip_lt h.domain_lt rest

theorem TableLine.valid (h : TableLine line) (hlt : line.2.length + 1 < arrLength) : ValidLine line :=
  ⟨h.ip, fun c hc => ⟨(h.domain c hc).1, (h.domain c hc).2.1⟩, h.ip_lt, hlt⟩

theorem TableLine.shorten {ip domain : CString} {c : UInt8} (h : TableLine (ip, domain ++ [c])) :
    TableLine (ip, domain) := by
  have hlt := h.domain_lt
  rw [List.length_append, List.length_singleton] at hlt
  exact ⟨h.ip, fun b hb => h.domain b (List.mem_append_left _ hb), h.ip_lt, Nat.lt_of_succ_lt hlt⟩

/-- With its line end, a domain of 63 bytes does not fit into the row. -/
theorem TableLine.loadLine_long (h : TableLine line) (hlong : ¬ line.2.length + 1 < arrLength) :
    loadLine s (lineText line) = none := by
  have hrest : ∀ c ∈ line.2 ++ [10], c ≠ 0 := ended_noNul fun c hc => (h.domain c hc).1
  rw [lineText_eq, loadLine_text (fun c hc => ⟨(h.ip c hc).1, (h.ip c hc).2.2⟩) hrest, if_neg]
  rintro ⟨-, -, -, hlt⟩
  exact hlong (by simpa using hlt)

/-- Without a line end the last byte of the domain is lost. -/
theorem loadLine_unended {ip domain : CString} {c : UInt8} (h : TableLine (ip, domain ++ [c])) :
    loadLine s (ip ++ 32 :: (domain ++ [c])) = loadLine s (lineText (ip, domain)) := by
  have hip : ∀ b ∈ ip, b ≠ 0 ∧ b ≠ 32 := fun b hb => ⟨(h.ip b hb).1, (h.ip b hb).2.2⟩
  have hrest : ∀ b ∈ domain ++ [c], b ≠ 0 := fun b hb => (h.domain b hb).1
  have hrest' : ∀ b ∈ domain ++ [10], b ≠ 0 := ended_noNul fun b hb => hrest b (List.mem_append_left _ hb)
  rw [lineText_eq, loadLine_text hip hrest, loadLine_text hip hrest']
  simp only [List.length_append, List.length_singleton, List.dropLast_concat]

theorem loadLine_noDomain {ip : CString} (h : TableLine (ip, [])) : loadLine s (ip ++ [32]) = none := by
  rw [loadLine_text (fun c hc => ⟨(h.ip c hc).1, (h.ip c hc).2.2⟩) (by simp), if_neg (by simp)]

/-- The loop over the lines at the start of a text. -/
theorem loadLoop_fileText (h : ∀ line ∈ lines, TableLine line) (fuel : Nat) (rest : List UInt8) (s : Server) :
    loadLoop (lines.length + fuel) s (fileText lines ++ rest) =
      (lines.foldlM (fun s line => loadLine s (lineText line)) s).bind fun s => loadLoop fuel s rest := by
  induction lines generalizing s with
  | nil => simp [fileText]
  | cons line lines ih =>
      have hfuel : (line :: lines).length + fuel = lines.length + fuel + 1 := by
        simp only [List.length_cons]
        omega
      have htext : fileText (line :: lines) ++ rest = lineText line ++ (fileText lines ++ rest) := by
        simp [fileText]
      rw [hfuel, htext, loadLoop_lineText ((h line (by simp)).fgets _), List.foldlM_cons]
      cases loadLine s (lineText line) with
      | none => rfl
      | some s₁ => exact ih (fun l hl => h l (List.mem_cons_of_mem _ hl)) s₁

theorem foldlM_eq_none {α β : Type} {f : β → α → Option β} {l : List α} {a : α} (ha : a ∈ l)
    (hf : ∀ b, f b a = none) (b : β) : l.foldlM f b = none := by
  induction l generalizing b with
  | nil => cases ha
  | cons x l ih =>
      rw [List.foldlM_cons]
      rcases List.mem_cons.mp ha with rfl | ha
      · rw [hf]; rfl
      · cases f b x with
        | none => rfl
        | some b' => exact ih ha b'

/-- A text whose complete lines hold a domain of 63 bytes is not loaded. -/
theorem load_long (h : ∀ line ∈ lines, TableLine line) (hline : line ∈ lines)
    (hlong : ¬ line.2.length + 1 < arrLength) (rest : List UInt8) :
    loadDNSTableData (fileText lines ++ rest) = none := by
  have hlen := length_le_fileText lines
  obtain ⟨fuel, hfuel⟩ : ∃ fuel, (fileText lines ++ rest).length = lines.length + fuel :=
    ⟨(fileText lines ++ rest).length - lines.length, by rw [List.length_append]; omega⟩
  rw [loadDNSTableData, hfuel, loadLoop_fileText h,
    foldlM_eq_none hline fun s => (h line hline).loadLine_long hlong]
  rfl

/-- The last line of a text, behind the lines that have an end. -/
theorem load_last {last : List UInt8} (h : ∀ line ∈ lines, TableLine line) (hne : last ≠ [])
    (hlast : 10 ∉ last) (hlt : last.length ≤ 255) :
    loadDNSTableData (fileText lines ++ last) =
      (lines.foldlM (fun s line => loadLine s (lineText line)) emptyServer).bind fun s => loadLine s last := by
  have hlen := length_le_fileText lines
  have hpos := List.length_pos_iff.mpr hne
  obtain ⟨fuel, hfuel⟩ : ∃ fuel, (fileText lines ++ last).length = lines.length + (fuel + 1) :=
    ⟨(fileText lines ++ last).length - lines.length - 1, by rw [List.length_append]; omega⟩
  obtain ⟨c, text, rfl⟩ := List.exists_cons_of_ne_nil hne
  have hfgets := fgets_last hlast hlt
  have hloop : ∀ s, loadLoop (fuel + 1) s (c :: text) = loadLine s (c :: text) := by
    intro s
    have hstep : loadLoop (fuel + 1) s (c :: text) =
      (loadLine s (fgets (c :: text)).1).bind fun s => loadLoop fuel s (fgets (c :: text)).2 := rfl
    rw [hstep, hfgets]
    cases loadLine s (c :: text) with
    | none => rfl
    | some s' => cases fuel <;> rfl
  rw [loadDNSTableData, hfuel, loadLoop_fileText h]
  simp only [hloop]

theorem load_fileText (h : ∀ line ∈ lines, TableLine line) : loadDNSTableData (fileText lines) =
    lines.foldlM (fun s line => loadLine s (lineText line)) emptyServer := by
  have hlen := length_le_fileText lines
  obtain ⟨fuel, hfuel⟩ : ∃ fuel, (fileText lines).length = lines.length + fuel :=
    ⟨(fileText lines).length - lines.length, by omega⟩
  have hloop := loadLoop_fileText h fuel [] emptyServer
  rw [List.append_nil] at hloop
  rw [loadDNSTableData, hfuel, hloop]
  cases lines.foldlM (fun s line => loadLine s (lineText line)) emptyServer with
  | none => rfl
  | some s => cases fuel <;> rfl

theorem tableText_concat (lines : List (CString × CString)) (ip domain : CString) :
    tableText (lines ++ [(ip, domain)]) false = fileText lines ++ (ip ++ 32 :: domain) := by
  have htext : fileText (lines ++ [(ip, domain)]) = fileText lines ++ (ip ++ 32 :: domain) ++ [10] := by
    simp [fileText, lineText]
  rw [tableText, htext]
  exact List.dropLast_concat

theorem TableLine.text_lt (h : TableLine line) : (line.1 ++ 32 :: line.2).length ≤ 255 := by
  have h₁ := h.ip_lt
  have h₂ := h.domain_lt
  simp only [arrLength] at h₁ h₂
  simp only [List.length_append, List.length_cons]
  omega

theorem TableLine.text_unended (h : TableLine line) : 10 ∉ line.1 ++ 32 :: line.2 := by
  intro hc
  rcases List.mem_append.mp hc with hc | hc
  · exact (h.ip 10 hc).2.1 rfl
  · rcases List.mem_cons.mp hc with hc | hc
    · exact absurd hc (by decide)
    · exact (h.domain 10 hc).2.1 rfl

/-- A text without a last line end is loaded as the one whose last domain is one byte shorter. -/
theorem load_unended {ip domain : CString} {c : UInt8} (h : ∀ line ∈ lines, TableLine line)
    (hlast : TableLine (ip, domain ++ [c])) :
    loadDNSTableData (tableText (lines ++ [(ip, domain ++ [c])]) false) =
      loadDNSTableData (fileText (lines ++ [(ip, domain)])) := by
  have hall : ∀ line ∈ lines ++ [(ip, domain)], TableLine line := by
    intro line hline
    rcases List.mem_append.mp hline with hline | hline
    · exact h line hline
    · exact List.mem_singleton.mp hline ▸ hlast.shorten
  rw [tableText_concat, load_last h (by simp) hlast.text_unended hlast.text_lt, load_fileText hall,
    List.foldlM_append]
  simp only [List.foldlM_cons, List.foldlM_nil, loadLine_unended hlast]
  cases lines.foldlM (fun s line => loadLine s (lineText line)) emptyServer with
  | none => rfl
  | some s =>
      rw [Option.bind_some]
      cases h' : loadLine s (lineText (ip, domain)) <;> simp [h']

theorem load_noDomain {ip : CString} (h : ∀ line ∈ lines, TableLine line) (hlast : TableLine (ip, [])) :
    loadDNSTableData (tableText (lines ++ [(ip, [])]) false) = none := by
  rw [tableText_concat, load_last h (by simp) hlast.text_unended hlast.text_lt]
  simp only [loadLine_noDomain hlast]
  exact Option.bind_fun_none _

/-! ## The lines that are loaded faithfully -/

theorem mention_eq_none : mention lines name = none ↔ name ∉ lines.map Prod.snd := by
  simp only [mention, List.find?_eq_none, decide_eq_true_eq, List.mem_map, Prod.exists, not_exists, not_and]
  constructor
  · rintro h ip domain hmem rfl
    exact h _ hmem rfl
  · intro h line hline
    exact h line.1 line.2 hline

theorem mention_singleton (line : CString × CString) (name : CString) :
    mention [line] name = if line.2 = name then some line else none := by
  by_cases h : line.2 = name <;> simp [mention, h]

/-- Two last lines with one address: it takes earlier lines with both domains for them to say the same. -/
theorem mention_concat_iff {d d' : CString} (ip : CString) (hne : d ≠ d') :
    (∀ name, (mention (lines ++ [(ip, d)]) name).map Prod.fst =
        (mention (lines ++ [(ip, d')]) name).map Prod.fst) ↔
      d ∈ lines.map Prod.snd ∧ d' ∈ lines.map Prod.snd := by
  constructor
  · intro h
    constructor
    · by_contra hd
      have hname := h d
      rw [mention_append, mention_append, mention_eq_none.mpr hd] at hname
      simp [mention_singleton, Ne.symm hne] at hname
    · by_contra hd
      have hname := h d'
      rw [mention_append, mention_append, mention_eq_none.mpr hd] at hname
      simp [mention_singleton, hne] at hname
  · rintro ⟨hd, hd'⟩ name
    rw [mention_append, mention_append]
    cases hm : mention lines name with
    | some line => rfl
    | none =>
        have hname := mention_eq_none.mp hm
        have hdname : d ≠ name := by
          rintro rfl
          exact hname hd
        have hdname' : d' ≠ name := by
          rintro rfl
          exact hname hd'
        simp [mention_singleton, hdname, hdname']

/-- The line ends leave the domains whole: no domain fills its field up, and a last line without an end
stands behind lines with its domain and with what is left of its domain. -/
def KeepsDomains (lines : List (CString × CString)) (ended : Bool) : Prop :=
  if ended then ∀ line ∈ lines, line.2.length + 1 < arrLength
  else (∀ line ∈ lines.dropLast, line.2.length + 1 < arrLength) ∧
    ∀ line, lines.getLast? = some line → line.2 ≠ [] ∧
      line.2 ∈ lines.dropLast.map Prod.snd ∧ line.2.dropLast ∈ lines.dropLast.map Prod.snd

theorem loads_iff_ended (h : ∀ line ∈ lines, TableLine line) (hlen : lines.length ≤ maxAmount) :
    (∃ s, loadDNSTableData (fileText lines) = some s ∧ FindsLines lines s) ↔
      ∀ line ∈ lines, line.2.length + 1 < arrLength := by
  constructor
  · rintro ⟨s, hs, -⟩ line hline
    by_contra hlong
    have hnone := load_long h hline hlong []
    rw [List.append_nil, hs] at hnone
    cases hnone
  · intro hshort
    obtain ⟨s, hs, hloaded⟩ :=
      loaded_of_valid (fun line hline => (h line hline).valid (hshort line hline)) hlen
    exact ⟨s, hs, hloaded.finds⟩

theorem loads_iff_unended {ip domain : CString} {c : UInt8} (h : ∀ line ∈ lines, TableLine line)
    (hlast : TableLine (ip, domain ++ [c])) (hlen : lines.length < maxAmount) :
    (∃ s, loadDNSTableData (tableText (lines ++ [(ip, domain ++ [c])]) false) = some s ∧
        FindsLines (lines ++ [(ip, domain ++ [c])]) s) ↔
      (∀ line ∈ lines, line.2.length + 1 < arrLength) ∧
        domain ++ [c] ∈ lines.map Prod.snd ∧ domain ∈ lines.map Prod.snd := by
  have hne : domain ++ [c] ≠ domain := by simp
  rw [← mention_concat_iff ip hne, load_unended h hlast]
  have hload : (∀ line ∈ lines, line.2.length + 1 < arrLength) →
      ∃ s, loadDNSTableData (fileText (lines ++ [(ip, domain)])) = some s ∧
        FileLoaded (lines ++ [(ip, domain)]) s := by
    intro hshort
    refine loaded_of_valid ?_ (by rw [List.length_append, List.length_singleton]; omega)
    intro line hline
    rcases List.mem_append.mp hline with hline | hline
    · exact (h line hline).valid (hshort line hline)
    · rw [List.mem_singleton] at hline
      subst hline
      have hlt := hlast.domain_lt
      rw [List.length_append, List.length_singleton] at hlt
      exact hlast.shorten.valid hlt
  constructor
  · rintro ⟨s, hs, hfinds⟩
    have hshort : ∀ line ∈ lines, line.2.length + 1 < arrLength := by
      intro line hline
      by_contra hlong
      have htext : fileText (lines ++ [(ip, domain)]) = fileText lines ++ lineText (ip, domain) := by
        simp [fileText]
      rw [htext, load_long h hline hlong] at hs
      cases hs
    obtain ⟨s', hs', hloaded⟩ := hload hshort
    rw [hs] at hs'
    cases hs'
    exact ⟨hshort, hfinds.address hloaded.finds⟩
  · rintro ⟨hshort, heq⟩
    obtain ⟨s, hs, hloaded⟩ := hload hshort
    exact ⟨s, hs, hloaded.finds.congr heq⟩

/-- A file of at most 1024 lines is loaded as what it says exactly if the line ends leave its domains
whole. -/
theorem loads_exactly_the_lines (ended : Bool) (h : ∀ line ∈ lines, TableLine line)
    (hlen : lines.length ≤ maxAmount) :
    (∃ s, loadDNSTableData (tableText lines ended) = some s ∧ FindsLines lines s) ↔
      KeepsDomains lines ended := by
  cases ended with
  | true => exact loads_iff_ended h hlen
  | false =>
      rcases List.eq_nil_or_concat' lines with rfl | ⟨front, ⟨ip, d⟩, rfl⟩
      · exact iff_of_true ⟨emptyServer, rfl, FileLoaded.empty.finds⟩
          ⟨fun _ hline => absurd hline (List.not_mem_nil), by simp⟩
      · have hfront : ∀ line ∈ front, TableLine line :=
          fun line hline => h line (List.mem_append_left _ hline)
        have hlast : TableLine (ip, d) := h _ (by simp)
        rw [List.length_append, List.length_singleton] at hlen
        rcases List.eq_nil_or_concat' d with rfl | ⟨domain, c, rfl⟩
        · refine iff_of_false ?_ ?_
          · rintro ⟨s, hs, -⟩
            rw [load_noDomain hfront hlast] at hs
            cases hs
          · rintro ⟨-, hkept⟩
            exact (hkept (ip, []) (by simp)).1 rfl
        · rw [loads_iff_unended hfront hlast (by omega)]
          simp [KeepsDomains]

/-- The lines `1.2.3.4 ab`, `5.6.7.8 abc` and `9.9.9.9 abc`. -/
def repeatedLines : List (CString × CString) :=
  [([49, 46, 50, 46, 51, 46, 52], [97, 98]), ([53, 46, 54, 46, 55, 46, 56], [97, 98, 99]),
    ([57, 46, 57, 46, 57, 46, 57], [97, 98, 99])]

/-- The last line has no line end, and both its domain and what is left of it stand in earlier lines. -/
theorem loads_exactly_the_lines_example :
    ∃ s, loadDNSTableData (tableText repeatedLines false) = some s ∧ FindsLines repeatedLines s := by
  have hvalid : ∀ line ∈ repeatedLines, TableLine line := by
    intro line hline
    simp only [repeatedLines, List.mem_cons, List.not_mem_nil, or_false] at hline
    rcases hline with rfl | rfl | rfl
    all_goals exact ⟨by decide +kernel, by decide +kernel, by decide, by decide⟩
  refine (loads_exactly_the_lines false hvalid (by decide)).mpr ⟨by decide, ?_⟩
  rintro line ⟨⟩
  decide

/-- The line `1.2.3.4 ab`. -/
def oneLine : List (CString × CString) := [([49, 46, 50, 46, 51, 46, 52], [97, 98])]

theorem oneLine_valid : ∀ line ∈ oneLine, TableLine line := by
  intro line hline
  cases List.mem_singleton.mp hline
  exact ⟨by decide +kernel, by decide +kernel, by decide, by decide⟩

/-- Without its line end the line's domain is not found, and with one a domain of 63 bytes is not copied. -/
theorem last_domain_cut :
    (∀ line ∈ oneLine, TableLine line) ∧ TableLine ([49], List.replicate 63 97) ∧
      (¬ ∃ s, loadDNSTableData (tableText oneLine false) = some s ∧ FindsLines oneLine s) ∧
      loadDNSTableData (tableText [([49], List.replicate 63 97)] true) = none := by
  refine ⟨oneLine_valid, ⟨by decide +kernel, by decide +kernel, by decide, by decide⟩, ?_, by decide +kernel⟩
  rintro ⟨s, hs, hfinds⟩
  obtain ⟨node, row, hrow, -⟩ := hfinds.found [97, 98] _ rfl
  have hmissed : (loadDNSTableData (tableText oneLine false)).bind (lookupRow · [97, 98]) = some none := by
    decide +kernel
  rw [hs, Option.bind_some, hrow] at hmissed
  cases hmissed

end TermCollection.Dns
