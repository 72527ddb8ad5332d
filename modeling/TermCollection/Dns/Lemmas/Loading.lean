import Mathlib.Data.List.TakeWhile
import TermCollection.Lib.Lines
import TermCollection.Dns.Lemmas.Invariants

/-!
# The state that a file is loaded to
-/

namespace TermCollection.Dns

variable {s s' : Server} {line : CString × CString} {lines : List (CString × CString)}
variable {text : List UInt8}

/-! ## The text of a file -/

def lineText (line : CString × CString) : List UInt8 := line.1 ++ [32] ++ line.2 ++ [10]

def fileText (lines : List (CString × CString)) : List UInt8 := lines.flatMap lineText

/-- The text is a line of an address and a domain that fits into a row. The newline is copied into the
row as well before it is cut off. -/
structure ValidLine (line : CString × CString) : Prop where
  ip : ∀ c ∈ line.1, c ≠ 0 ∧ c ≠ 10 ∧ c ≠ 32
  domain : ∀ c ∈ line.2, c ≠ 0 ∧ c ≠ 10
  ip_lt : line.1.length < arrLength
  domain_lt : line.2.length + 1 < arrLength

/-- A line that fits into the buffer is read as a whole. -/
theorem fgets_ended (h : Ended 10 text) (hlen : text.length ≤ 255) (rest : List UInt8) :
    fgets (text ++ rest) = (text, rest) := readLine_ended h hlen rest

theorem fgets_last (h : 10 ∉ text) (hlen : text.length ≤ 255) : fgets text = (text, []) :=
  readLine_last h hlen

theorem fgets_lineText (hip : ∀ c ∈ line.1, c ≠ 10) (hdomain : ∀ c ∈ line.2, c ≠ 10)
    (hip_lt : line.1.length < arrLength) (hdomain_lt : line.2.length < arrLength) (rest : List UInt8) :
    fgets (lineText line ++ rest) = (lineText line, rest) := by
  have hbody : 10 ∉ line.1 ++ [32] ++ line.2 := by
    intro hc
    simp only [List.append_assoc, List.cons_append, List.nil_append, List.mem_append, List.mem_cons] at hc
    rcases hc with hc | hc | hc
    · exact hip 10 hc rfl
    · exact absurd hc (by decide)
    · exact hdomain 10 hc rfl
  refine fgets_ended ⟨_, hbody, rfl⟩ ?_ rest
  simp only [arrLength] at hip_lt hdomain_lt
  simp only [List.length_append, List.length_singleton]
  omega

theorem ValidLine.fgets (h : ValidLine line) (rest : List UInt8) :
    fgets (lineText line ++ rest) = (lineText line, rest) :=
  fgets_lineText (fun c hc => (h.ip c hc).2.1) (fun c hc => (h.domain c hc).2) h.ip_lt
    (Nat.lt_of_succ_lt h.domain_lt) rest

theorem loadLoop_lineText {rest : List UInt8} {fuel : Nat}
    (h : fgets (lineText line ++ rest) = (lineText line, rest)) :
    loadLoop (fuel + 1) s (lineText line ++ rest) =
      (loadLine s (lineText line)).bind fun s => loadLoop fuel s rest := by
  obtain ⟨c, text, hcons⟩ : ∃ c text, lineText line ++ rest = c :: text := by
    rw [lineText]
    cases line.1 <;> exact ⟨_, _, rfl⟩
  have hstep : loadLoop (fuel + 1) s (c :: text) =
      (loadLine s (fgets (c :: text)).1).bind fun s => loadLoop fuel s (fgets (c :: text)).2 := rfl
  rw [hcons, hstep, ← hcons, h]

/-! ## The entries of the lines -/

/-- The entries of the lines whose domains fall into a bucket. -/
def fileEntries (lines : List (CString × CString)) (b : Nat) : List (KeyRef × Nat) :=
  (lines.zipIdx.filter fun p => (elfHash p.1.2).toNat % maxAmount = b).map fun p => (.domain p.2, p.2)

/-- The chain of a bucket that holds the entries: the head of an empty one is a NULL node. -/
def asChain {α : Type} : List α → List (Option α)
  | [] => [none]
  | e :: l => (e :: l).map some

theorem insertEntry_asChain {α : Type} (e : α) (l : List α) :
    insertEntry e (asChain l) = asChain (l ++ [e]) := by
  cases l with
  | nil => rfl
  | cons x l => simp [asChain, insertEntry]

theorem fileEntries_concat (lines : List (CString × CString)) (line : CString × CString) (b : Nat) :
    fileEntries (lines ++ [line]) b = fileEntries lines b ++
      if (elfHash line.2).toNat % maxAmount = b then [(.domain lines.length, lines.length)] else [] := by
  simp only [fileEntries, List.zipIdx_append, List.filter_append, List.map_append]
  congr 1
  by_cases hb : (elfHash line.2).toNat % maxAmount = b <;> simp [hb]

theorem asChain_append_cons {α : Type} (A : List α) (e : α) (R : List α) :
    asChain (A ++ e :: R) = A.map some ++ some e :: R.map some := by
  cases A <;> simp [asChain]

/-- The entry of a line stands behind those of the lines before it. -/
theorem fileEntries_split {j : Nat} (hj : lines[j]? = some line) :
    ∃ R, fileEntries lines ((elfHash line.2).toNat % maxAmount) =
      fileEntries (lines.take j) ((elfHash line.2).toNat % maxAmount) ++ (.domain j, j) :: R := by
  obtain ⟨hlt, hline⟩ := List.getElem?_eq_some_iff.mp hj
  have hsplit : lines = lines.take j ++ line :: lines.drop (j + 1) := by
    rw [← hline, List.getElem_cons_drop, List.take_append_drop]
  have htake : (lines.take j).length = j := by rw [List.length_take]; omega
  refine ⟨(((lines.drop (j + 1)).zipIdx (j + 1)).filter fun p =>
    (elfHash p.1.2).toNat % maxAmount = (elfHash line.2).toNat % maxAmount).map fun p =>
      (.domain p.2, p.2), ?_⟩
  conv_lhs => rw [hsplit]
  simp only [fileEntries, List.zipIdx_append, htake, Nat.zero_add, List.zipIdx_cons,
    List.filter_append, List.filter_cons, decide_true, ↓reduceIte, List.map_append, List.map_cons]

theorem mem_fileEntries {e : KeyRef × Nat} {b : Nat} (h : e ∈ fileEntries lines b) :
    ∃ i line, lines[i]? = some line ∧ e = (.domain i, i) := by
  simp only [fileEntries, List.mem_map, List.mem_filter] at h
  obtain ⟨⟨line, i⟩, ⟨hmem, -⟩, rfl⟩ := h
  exact ⟨i, line, List.mem_zipIdx_iff_getElem?.mp hmem, rfl⟩

/-- The state after the lines of a file were read. -/
structure FileLoaded (lines : List (CString × CString)) (s : Server) : Prop where
  ok : s.Ok
  count : s.dnsRowCount = lines.length
  row : ∀ i line, lines[i]? = some line → s.dnsTable i = fileRow line.1 line.2
  entries : ∀ b < maxAmount, bucketEntries s.dnsHashTable b = asChain (fileEntries lines b)

/-- The first line of a domain has the first entry of the domain. -/
theorem FileLoaded.first_entry {j : Nat} {ip domain : CString} (h : FileLoaded lines s)
    (hj : lines[j]? = some (ip, domain)) (hfirst : ∀ line ∈ lines.take j, line.2 ≠ domain) :
    ∃ (A : List (KeyRef × Nat)) (R : List (Option (KeyRef × Nat))),
      bucketEntries s.dnsHashTable (bucket s.dnsHashTable domain) = A.map some ++ some (.domain j, j) :: R ∧
        ∀ e ∈ A, ∃ i, e = (.domain i, i) ∧ (s.dnsTable i).domain ≠ domain := by
  have hbucket : bucket s.dnsHashTable domain = (elfHash domain).toNat % maxAmount := by
    rw [bucket, h.ok.size]
  obtain ⟨R, hsplit⟩ := fileEntries_split hj
  refine ⟨fileEntries (lines.take j) ((elfHash domain).toNat % maxAmount), R.map some, ?_, ?_⟩
  · rw [hbucket, h.entries _ (Nat.mod_lt _ (by decide)), hsplit, asChain_append_cons]
  · intro e he
    obtain ⟨i, line, hi, rfl⟩ := mem_fileEntries he
    have hlt : i < (lines.take j).length := (List.getElem?_eq_some_iff.mp hi).1
    have hline := h.row i line (by
      rw [List.getElem?_take_of_lt (by rw [List.length_take] at hlt; omega)] at hi
      exact hi)
    exact ⟨i, rfl, by rw [hline]; exact hfirst line (List.mem_of_getElem? hi)⟩

theorem FileLoaded.empty : FileLoaded [] emptyServer := by
  refine ⟨.empty, rfl, by simp, ?_⟩
  intro b hb
  exact entries_new hb

/-- The text before the first space and the text behind it, which loses its last byte. -/
theorem loadLine_text {ip rest : List UInt8} (hip : ∀ c ∈ ip, c ≠ 0 ∧ c ≠ 32) (hrest : ∀ c ∈ rest, c ≠ 0) :
    loadLine s (ip ++ 32 :: rest) =
      if ip.length < arrLength ∧ s.dnsRowCount < maxAmount ∧ 0 < rest.length ∧ rest.length < arrLength then
        (insertHashItem
          { s with dnsTable := Function.update s.dnsTable s.dnsRowCount (fileRow ip rest.dropLast) }.str
          s.dnsHashTable (.domain s.dnsRowCount) s.dnsRowCount).map fun r =>
            { s with
              dnsTable := Function.update s.dnsTable s.dnsRowCount (fileRow ip rest.dropLast)
              dnsHashTable := r.2
              dnsRowCount := s.dnsRowCount + 1 }
      else none := by
  have htext : (ip ++ 32 :: rest).takeWhile (· ≠ 0) = ip ++ 32 :: rest := by
    rw [List.takeWhile_eq_self_iff]
    intro c hc
    simp only [List.mem_append, List.mem_cons] at hc
    rcases hc with hc | rfl | hc
    · simpa using (hip c hc).1
    · decide
    · simpa using hrest c hc
  have hidx : (ip ++ 32 :: rest).findIdx (· = 32) = ip.length :=
    findIdx_append_of_not (by simpa using fun c hc => (hip c hc).2) (by simp)
  have hdomain : (ip ++ 32 :: rest).drop (ip.length + 1) = rest := by simp [List.drop_append]
  have hlen : ip.length < (ip ++ 32 :: rest).length := by simp
  unfold loadLine
  simp only [htext, hidx, hlen, true_and, hdomain, List.take_left]
  by_cases hfit : ip.length < arrLength ∧ s.dnsRowCount < maxAmount
  · by_cases hrow : 0 < rest.length ∧ rest.length < arrLength
    · rw [if_pos hfit, if_pos hrow, if_pos ⟨hfit.1, hfit.2, hrow⟩, ← fileRow]
      cases insertHashItem
        { s with dnsTable := Function.update s.dnsTable s.dnsRowCount (fileRow ip rest.dropLast) }.str
        s.dnsHashTable (.domain s.dnsRowCount) s.dnsRowCount <;> rfl
    · rw [if_pos hfit, if_neg hrow, if_neg fun h => hrow h.2.2]
  · rw [if_neg hfit, if_neg fun h => hfit ⟨h.1, h.2.1⟩]

theorem lineText_eq (line : CString × CString) : lineText line = line.1 ++ 32 :: (line.2 ++ [10]) := by
  simp [lineText]

/-- A domain with its line end. -/
theorem ended_noNul {domain : CString} (h : ∀ c ∈ domain, c ≠ 0) : ∀ c ∈ domain ++ [10], c ≠ 0 := by
  intro c hc
  rcases List.mem_append.mp hc with hc | hc
  · exact h c hc
  · cases List.mem_singleton.mp hc
    decide

theorem loadLine_valid (h : ValidLine line) (hrow : s.dnsRowCount < maxAmount) :
    loadLine s (lineText line) = (insertHashItem
      { s with dnsTable := Function.update s.dnsTable s.dnsRowCount (fileRow line.1 line.2) }.str
      s.dnsHashTable (.domain s.dnsRowCount) s.dnsRowCount).map fun r =>
        { s with
          dnsTable := Function.update s.dnsTable s.dnsRowCount (fileRow line.1 line.2)
          dnsHashTable := r.2
          dnsRowCount := s.dnsRowCount + 1 } := by
  have hrest : ∀ c ∈ line.2 ++ [10], c ≠ 0 := ended_noNul fun c hc => (h.domain c hc).1
  rw [lineText_eq, loadLine_text (fun c hc => ⟨(h.ip c hc).1, (h.ip c hc).2.2⟩) hrest, if_pos,
    List.dropLast_concat]
  exact ⟨h.ip_lt, hrow, by simp, by simpa using h.domain_lt⟩

theorem FileLoaded.concat (h : FileLoaded lines s) (hline : ValidLine line) (hlen : lines.length < maxAmount) :
    ∃ s', loadLine s (lineText line) = some s' ∧ FileLoaded (lines ++ [line]) s' := by
  obtain ⟨t', hins, hwf, hsize, hother, hself⟩ := h.ok.wellFormed.insert h.ok.nonempty
    { s with dnsTable := Function.update s.dnsTable s.dnsRowCount (fileRow line.1 line.2) }.str
    (.domain s.dnsRowCount) s.dnsRowCount
  have hkey : Server.str
      { s with dnsTable := Function.update s.dnsTable s.dnsRowCount (fileRow line.1 line.2) }
      (.domain s.dnsRowCount) = line.2 := by
    simp [Server.str, fileRow]
  rw [hkey, bucket, h.ok.size] at hother hself
  rw [loadLine_valid hline (h.count ▸ hlen), hins]
  refine ⟨_, rfl, ⟨hwf, hsize.trans h.ok.size, h.ok.idRow⟩, by simp [h.count], ?_, ?_⟩
  · intro i line' hi
    by_cases hlt : i < lines.length
    · rw [List.getElem?_append_left hlt] at hi
      have hne : i ≠ s.dnsRowCount := by rw [h.count]; omega
      simpa [Function.update_of_ne hne] using h.row i line' hi
    · have hlast : i = lines.length := by
        have hi' := (List.getElem?_eq_some_iff.mp hi).1
        simp only [List.length_append, List.length_singleton] at hi'
        omega
      subst hlast
      simp only [List.getElem?_concat_length, Option.some.injEq] at hi
      simp [h.count, hi]
  · intro b hb
    rw [fileEntries_concat]
    by_cases hbucket : (elfHash line.2).toNat % maxAmount = b
    · subst hbucket
      rw [if_pos rfl, ← insertEntry_asChain, ← h.entries _ hb, ← h.count]
      exact hself
    · rw [if_neg hbucket, List.append_nil, ← h.entries b hb]
      exact hother b hb (Ne.symm hbucket)

/-- Lines that were read are followed by lines that are still to be read. -/
theorem FileLoaded.loop {fuel : Nat} {rest : List (CString × CString)} (h : FileLoaded lines s)
    (hvalid : ∀ line ∈ rest, ValidLine line) (hlen : lines.length + rest.length ≤ maxAmount)
    (hfuel : rest.length ≤ fuel) :
    ∃ s', loadLoop fuel s (fileText rest) = some s' ∧ FileLoaded (lines ++ rest) s' := by
  induction rest generalizing lines s fuel with
  | nil =>
      refine ⟨s, ?_, by rwa [List.append_nil]⟩
      cases fuel <;> rfl
  | cons line rest ih =>
      cases fuel with
      | zero => simp at hfuel
      | succ fuel =>
          have hline := hvalid line (by simp)
          simp only [List.length_cons] at hlen hfuel
          obtain ⟨s₁, hs₁, h₁⟩ := h.concat hline (by omega)
          have hrest : rest.length ≤ fuel := by omega
          obtain ⟨s₂, hs₂, h₂⟩ := ih h₁ (fun l hl => hvalid l (by simp [hl]))
            (by simp only [List.length_append, List.length_singleton]; omega) hrest
          refine ⟨s₂, ?_, by simpa using h₂⟩
          have htext : fileText (line :: rest) = lineText line ++ fileText rest := by simp [fileText]
          rw [htext, loadLoop_lineText (hline.fgets _), hs₁, Option.bind_some, hs₂]

theorem length_le_fileText (lines : List (CString × CString)) :
    lines.length ≤ (fileText lines).length := by
  induction lines with
  | nil => exact Nat.zero_le _
  | cons line lines ih =>
      simp only [fileText, List.flatMap_cons, List.length_append, List.length_cons, lineText] at ih ⊢
      omega

/-- A file of at most 1024 valid lines is loaded. -/
theorem loaded_of_valid (hvalid : ∀ line ∈ lines, ValidLine line) (hlen : lines.length ≤ maxAmount) :
    ∃ s, loadDNSTableData (fileText lines) = some s ∧ FileLoaded lines s := by
  obtain ⟨s, hs, h⟩ := FileLoaded.empty.loop hvalid (by simpa using hlen) (length_le_fileText lines)
  exact ⟨s, hs, h⟩

end TermCollection.Dns
