import TermCollection.Dns.NameParsing
import TermCollection.Dns.Relay

/-!
# The bounds of a response (`onReadResponse`)

The handler reads as many records as the header says, of the lengths that they say, and writes their data
into texts of 64 bytes. Here a read outside the received bytes is an overrun even if the block goes on.
-/

namespace TermCollection.Dns

variable {base : List UInt8} {i n off : Nat} {s : Server} {clock : Nat → SystemTime}

/-! ## Texts -/

/-- The words of the data in their order on the wire. -/
def wordsAt (base : List UInt8) : Nat → Nat → Option (List UInt16)
  | 0, _ => some []
  | n + 1, i => do
      let word ← read2 base i
      let words ← wordsAt base n (i + 2)
      some (nhswap_s word :: words)

/-- The text of the `AAAA` case: only the first word that is zero leaves a colon, and no colon comes
behind the last word of a length that is even. -/
def textAAAA (odd : Bool) : Bool → List UInt16 → CString
  | _, [] => []
  | firstZFlag, ipValue :: words =>
      if ipValue = 0 then (if firstZFlag then [] else [58]) ++ textAAAA odd true words
      else hexadecimal ipValue.toNat ++ (if words = [] ∧ odd = false then [] else [58]) ++
        textAAAA odd firstZFlag words

/-- The text of the `A` case. -/
def decimalText (data : List UInt8) : CString :=
  ((data.map fun b => decimal b.toNat).intersperse [46]).flatten

/-- The bytes that a text takes up: there is no zero behind a colon at its end. -/
def writtenBytes (text : CString) : Nat :=
  if text = [] ∨ text.getLast? = some 58 then text.length else text.length + 1

/-- The writes of a text have to be within its 64 bytes, and its end also for `printf`. -/
def checkedText (text : CString) : Except Overrun CString :=
  if arrLength < writtenBytes text then .error .text else orError .other (fits text)

/-! ## The handler with what goes wrong -/

/-- The data of a record by its type. -/
def checkedData (base : List UInt8) (start dataLength : Nat) (type : UInt16) (ttl : UInt32) :
    Except Overrun Answer :=
  if type = typeA then do
    let data ← orError .datagram (slice base start dataLength)
    let result ← checkedText (decimalText data)
    .ok (.a ttl result)
  else if type = typeAAAA then do
    let words ← orError .datagram (wordsAt base ((dataLength + 1) / 2) start)
    let _ ← checkedText (textAAAA (dataLength % 2 = 1) false words)
    .ok (.other type)
  else if type = typeCNAME then do
    let _ ← checkedUrl base start dataLength
    .ok (.other type)
  else .ok (.other type)

def checkedAnswer (base : List UInt8) (off : Nat) : Except Overrun (Answer × Nat) := do
  let _ ← orError .datagram (read2 base off)
  let type ← orError .datagram (read2 base (off + 2))
  let _ ← orError .datagram (read2 base (off + 4))
  let ttl ← orError .datagram (read4 base (off + 6))
  let dataLength ← orError .datagram (read2 base (off + 10))
  let answer ← checkedData base (off + 12) (nhswap_s dataLength).toNat (nhswap_s type) (nhswap_l ttl)
  .ok (answer, off + 12 + (nhswap_s dataLength).toNat)

def checkedAnswers (base : List UInt8) : Nat → Nat → Except Overrun (List Answer)
  | 0, _ => .ok []
  | n + 1, off => do
      let (answer, off) ← checkedAnswer base off
      let answers ← checkedAnswers base n off
      .ok (answer :: answers)

/-- The row of the ID table and the answers, without what is done with them, or nothing when the
response is too long or comes too late. -/
def checkedResponse (s : Server) (base : List UInt8) (clock : Nat → SystemTime) :
    Except Overrun (Option (Nat × List Answer)) :=
  if 1024 < base.length then .ok none
  else do
    let id ← orError .datagram (read2 base 0)
    let temp := (nhswap_s id).toNat
    if maxAmount ≤ temp then .error .idTable
    else if overTime (s.idTable temp) (clock 0) then .ok none
    else do
      let start ← orError .datagram (findAnswerStart base 12)
      let answerNum ← orError .datagram (read2 base 6)
      let answers ← checkedAnswers base (nhswap_s answerNum).toNat start
      .ok (some (temp, answers))

/-! ## The same results -/

theorem toOption_checkedText (text : CString) : (checkedText text).toOption = fits text := by
  unfold checkedText
  split
  · rename_i hlong
    have hwritten : writtenBytes text ≤ text.length + 1 := by
      unfold writtenBytes
      split <;> omega
    rw [fits, if_neg (by omega)]
    rfl
  · exact orError_toOption _ _

theorem textAAAALoop_done {start dataLength fuel j : Nat} {flag : Bool} (result : CString)
    (h : dataLength ≤ j) : textAAAALoop base start dataLength (fuel + 1) j flag result = fits result := by
  rw [textAAAALoop, if_neg (Nat.not_lt.mpr h)]

theorem length_wordsAt {words : List UInt16} (h : wordsAt base n i = some words) : words.length = n := by
  induction n generalizing i words with
  | zero =>
      cases h
      rfl
  | succ n ih =>
      simp only [wordsAt, Option.bind_eq_bind, Option.bind_eq_some_iff, Option.some.injEq] at h
      obtain ⟨word, -, rest, hrest, rfl⟩ := h
      rw [List.length_cons, ih hrest]

/-- The loop adds the text of the words that are left. -/
theorem textAAAALoop_eq {start dataLength fuel j n : Nat} {flag : Bool} (result : CString)
    (hn : n = (dataLength + 1 - j) / 2) (hfuel : n < fuel) (hparity : j % 2 = 0) :
    textAAAALoop base start dataLength fuel j flag result =
      (wordsAt base n (start + j)).bind fun words =>
        fits (result ++ textAAAA (dataLength % 2 = 1) flag words) := by
  induction n generalizing fuel j flag result with
  | zero =>
      obtain ⟨fuel, rfl⟩ : ∃ m, fuel = m + 1 := ⟨fuel - 1, by omega⟩
      rw [textAAAALoop_done _ (by omega), wordsAt, Option.bind_some, textAAAA, List.append_nil]
  | succ n ih =>
      obtain ⟨fuel, rfl⟩ : ∃ m, fuel = m + 1 := ⟨fuel - 1, by omega⟩
      have hj : j < dataLength := by omega
      rw [textAAAALoop, if_pos hj, wordsAt]
      cases read2 base (start + j) with
      | none => rfl
      | some word =>
          simp only [Option.bind_eq_bind, Option.bind_some, Option.bind_assoc, textAAAA]
          split
          · rw [ih _ (by omega) (by omega) (by omega)]
            refine Option.bind_congr fun words _ => ?_
            cases flag <;> simp
          · rw [ih _ (by omega) (by omega) (by omega)]
            refine Option.bind_congr fun words hwords => ?_
            have hlast : j + 2 = dataLength ↔ words = [] ∧ decide (dataLength % 2 = 1) = false := by
              rw [← List.length_eq_zero_iff, length_wordsAt hwords, decide_eq_false_iff_not]
              omega
            by_cases hend : j + 2 = dataLength
            · rw [if_neg (not_not.mpr hend), if_pos (hlast.mp hend)]
              simp
            · rw [if_pos hend, if_neg (fun h => hend (hlast.mpr h))]
              simp

/-- The data of a record in `readAnswer`. -/
def readData (base : List UInt8) (start dataLength : Nat) (type : UInt16) (ttl : UInt32) : Option Answer :=
  if type = typeA then do
    let result ← textA (← slice base start dataLength)
    some (.a ttl result)
  else if type = typeAAAA then do
    let _ ← textAAAALoop base start dataLength (dataLength + 1) 0 false []
    some (.other type)
  else if type = typeCNAME then do
    let _ ← parseUrlFromData base start dataLength
    some (.other type)
  else some (.other type)

theorem toOption_checkedData {start dataLength : Nat} {type : UInt16} {ttl : UInt32} :
    (checkedData base start dataLength type ttl).toOption = readData base start dataLength type ttl := by
  unfold checkedData readData
  split
  · refine toOption_bind (orError_toOption _ _) fun data => ?_
    exact toOption_bind (toOption_checkedText _) fun result => rfl
  · split
    · rw [textAAAALoop_eq [] rfl (by omega) rfl, Option.bind_eq_bind, Option.bind_assoc]
      refine toOption_bind (orError_toOption _ _) fun words => ?_
      exact toOption_bind (toOption_checkedText _) fun result => rfl
    · split
      · exact toOption_bind (toOption_checkedUrl _ _) fun name => rfl
      · rfl

theorem readAnswer_eq : readAnswer base off = (do
    let _ ← read2 base off
    let type ← read2 base (off + 2)
    let _ ← read2 base (off + 4)
    let ttl ← read4 base (off + 6)
    let dataLength ← read2 base (off + 10)
    let answer ← readData base (off + 12) (nhswap_s dataLength).toNat (nhswap_s type) (nhswap_l ttl)
    some (answer, off + 12 + (nhswap_s dataLength).toNat)) := by
  unfold readAnswer readData
  refine bind_congr fun _ => bind_congr fun type => bind_congr fun _ => bind_congr fun ttl =>
    bind_congr fun dataLength => ?_
  simp only [Option.bind_eq_bind]
  split
  · simp only [Option.bind_assoc]
  · split
    · simp only [Option.bind_assoc]
    · split
      · simp only [Option.bind_assoc]
      · rfl

theorem toOption_checkedAnswer : (checkedAnswer base off).toOption = readAnswer base off := by
  rw [readAnswer_eq]
  refine toOption_bind (orError_toOption _ _) fun _ => ?_
  refine toOption_bind (orError_toOption _ _) fun type => ?_
  refine toOption_bind (orError_toOption _ _) fun _ => ?_
  refine toOption_bind (orError_toOption _ _) fun ttl => ?_
  refine toOption_bind (orError_toOption _ _) fun dataLength => ?_
  exact toOption_bind toOption_checkedData fun answer => rfl

theorem toOption_checkedAnswers : (checkedAnswers base n off).toOption = readAnswers base n off := by
  induction n generalizing off with
  | zero => rfl
  | succ n ih =>
      rw [checkedAnswers, readAnswers]
      refine toOption_bind toOption_checkedAnswer fun answer => ?_
      exact toOption_bind ih fun answers => rfl

/-- What the handler does with the answers. -/
def forwardResponse (uv : LibUv) (s : Server) (base : List UInt8) (clock : Nat → SystemTime) :
    Option (Nat × List Answer) → Option (Server × List Output)
  | none => some (s, if 1024 < base.length then [.close .serverSocket] else [])
  | some (temp, answers) => do
      let row := s.idTable temp
      let (s, cached) ← cacheAnswers temp clock (s.finish temp) 1 answers
      let received := base.length
      let base ← splice base 0 (toBytes2 (nhswap_s row.prevID))
      let data ← slice base 0 received
      let client := uv.ip4Name row.client.sin_addr 16
      let dest := ⟨uv.ip4Addr client, nhswap_s (nhswap_s row.client.sin_port)⟩
      some (s, cached ++ [.toClient dest data])

/-- The handler, for a block of the received bytes. -/
theorem onReadResponse_eq (uv : LibUv) (s : Server) (base : List UInt8) (clock : Nat → SystemTime) :
    onReadResponse uv s base.length base clock =
      (checkedResponse s base clock).toOption.bind (forwardResponse uv s base clock) := by
  unfold onReadResponse checkedResponse
  by_cases hlong : 1024 < base.length
  · rw [if_pos (by omega), if_pos hlong]
    simp [Except.toOption, forwardResponse, hlong]
  · rw [if_neg (by omega), if_neg hlong]
    cases read2 base 0 with
    | none => rfl
    | some id =>
        simp only [orError_some, ok_bind, Option.bind_eq_bind, Option.bind_some]
        split
        · rfl
        · split
          · simp [Except.toOption, forwardResponse, hlong]
          · unfold responseAnswers
            cases findAnswerStart base 12 with
            | none => rfl
            | some start =>
                cases read2 base 6 with
                | none => rfl
                | some answerNum =>
                    simp only [orError_some, ok_bind, Option.bind_eq_bind, Option.bind_some,
                      ← toOption_checkedAnswers]
                    cases checkedAnswers base (nhswap_s answerNum).toNat start with
                    | error overrun => rfl
                    | ok answers => rfl

/-! ## Records that stay inside -/

def recordType (base : List UInt8) (off : Nat) : UInt16 := nhswap_s ((read2 base (off + 2)).getD 0)

def recordLength (base : List UInt8) (off : Nat) : Nat := (nhswap_s ((read2 base (off + 10)).getD 0)).toNat

def recordTTL (base : List UInt8) (off : Nat) : UInt32 := nhswap_l ((read4 base (off + 6)).getD 0)

/-- The data of a record is in the datagram as far as it is read, and its text in 64 bytes. -/
structure DataFits (base : List UInt8) (start dataLength : Nat) (type : UInt16) : Prop where
  a : type = typeA → ∃ data, slice base start dataLength = some data ∧
    writtenBytes (decimalText data) ≤ arrLength
  aaaa : type = typeAAAA → ∃ words, wordsAt base ((dataLength + 1) / 2) start = some words ∧
    writtenBytes (textAAAA (dataLength % 2 = 1) false words) ≤ arrLength
  cname : type = typeCNAME → 1 ≤ dataLength → dataLength ≤ 1024 →
    start + dataLength ≤ base.length ∧ ¬ PointsOutside base (urlCopy base start dataLength)

/-- The handler gets behind the data: its text ends with a zero, and it starts with a name. -/
structure DataEnds (base : List UInt8) (start dataLength : Nat) (type : UInt16) : Prop where
  aaaa : type = typeAAAA → ∀ words, wordsAt base ((dataLength + 1) / 2) start = some words →
    (textAAAA (dataLength % 2 = 1) false words).length < arrLength
  cname : type = typeCNAME → 1 ≤ dataLength → dataLength ≤ 1024 →
    ∃ text, Spells base (urlCopy base start dataLength) text

/-- The records from an offset on, as far as the handler gets. -/
def RecordsFit (base : List UInt8) : Nat → Nat → Prop
  | 0, _ => True
  | n + 1, off =>
      off + 12 ≤ base.length ∧
      DataFits base (off + 12) (recordLength base off) (recordType base off) ∧
      (DataEnds base (off + 12) (recordLength base off) (recordType base off) →
        RecordsFit base n (off + 12 + recordLength base off))

/-- What the response must not leave. -/
def responseBounds : List Overrun := [.datagram, .idTable, .text]

theorem avoids_checkedText {text : CString} :
    Avoids responseBounds (checkedText text) ↔ writtenBytes text ≤ arrLength := by
  unfold checkedText
  split
  · rename_i hlong
    exact iff_of_false (by simp [avoids_error, responseBounds]) (Nat.not_le.mpr hlong)
  · rename_i hshort
    exact iff_of_true (avoids_orError.mpr (by simp [responseBounds])) (Nat.not_lt.mp hshort)

theorem checkedText_ok {text : CString} : (∃ t, checkedText text = .ok t) ↔ text.length < arrLength := by
  rw [← isSome_toOption, toOption_checkedText, fits]
  split
  · rename_i h
    exact iff_of_true rfl h
  · rename_i h
    exact iff_of_false Bool.false_ne_true h

theorem decimalText_colon (data : List UInt8) : 58 ∉ decimalText data := by
  have hdigits : ∀ b : UInt8, 58 ∉ decimal b.toNat := by
    intro b hmem
    have hdigit := (decimal_byte b.toNat b.toNat_lt).2.2.1 _ hmem
    exact absurd hdigit (by decide)
  induction data with
  | nil => exact List.not_mem_nil
  | cons b data ih =>
      cases data with
      | nil => simpa [decimalText] using hdigits b
      | cons b' data =>
          have hcons : decimalText (b :: b' :: data) =
              decimal b.toNat ++ ([46] ++ decimalText (b' :: data)) := by simp [decimalText]
          rw [hcons, List.mem_append, List.mem_append]
          rintro (h | h | h)
          · exact hdigits b h
          · exact absurd h (by decide)
          · exact ih h

theorem decimalText_fits {data : List UInt8} (h : writtenBytes (decimalText data) ≤ arrLength) :
    (decimalText data).length < arrLength := by
  unfold writtenBytes at h
  split at h
  · rename_i hend
    rcases hend with hnil | hlast
    · rw [hnil]
      decide
    · exact absurd (List.mem_of_getLast? hlast) (decimalText_colon data)
  · exact h

theorem avoids_checkedUrl {start dataLength : Nat} :
    Avoids responseBounds (checkedUrl base start dataLength) ↔ (1 ≤ dataLength → dataLength ≤ 1024 →
      start + dataLength ≤ base.length ∧ ¬ PointsOutside base (urlCopy base start dataLength)) := by
  have htable : checkedUrl base start dataLength ≠ .error .idTable :=
    checkedUrl_ne (by decide) (by decide) _ _
  have htext : checkedUrl base start dataLength ≠ .error .text := checkedUrl_ne (by decide) (by decide) _ _
  by_cases hsize : 1 ≤ dataLength ∧ dataLength ≤ 1024
  · have h₁ : (1 : Int) ≤ dataLength := by omega
    have h₂ : (dataLength : Int) ≤ 1024 := by omega
    simp only [Avoids, responseBounds, List.forall_mem_cons, List.not_mem_nil, false_implies, implies_true,
      and_true, ne_eq, checkedUrl_datagram h₁ h₂, htable, htext, hsize, true_implies, not_false_eq_true,
      not_or, not_not, Int.toNat_natCast]
  · have hnull : checkedUrl base start dataLength = .ok none := if_pos (by omega)
    rw [hnull]
    exact iff_of_true (avoids_ok _ _) fun h₁ h₂ => absurd ⟨h₁, h₂⟩ hsize

theorem checkedUrl_returns {start dataLength : Nat} :
    (∃ name, checkedUrl base start dataLength = .ok name) ↔ (1 ≤ dataLength → dataLength ≤ 1024 →
      start + dataLength ≤ base.length ∧ ∃ text, Spells base (urlCopy base start dataLength) text) := by
  by_cases hsize : 1 ≤ dataLength ∧ dataLength ≤ 1024
  · rw [checkedUrl_ok (by omega) (by omega)]
    simp [hsize]
  · have hnull : checkedUrl base start dataLength = .ok none := if_pos (by omega)
    refine iff_of_true ⟨_, hnull⟩ fun h₁ h₂ => absurd ⟨h₁, h₂⟩ hsize

theorem typeA_ne : typeA ≠ typeAAAA ∧ typeA ≠ typeCNAME := by decide

theorem typeAAAA_ne : typeAAAA ≠ typeCNAME := by decide

theorem avoids_checkedData {start dataLength : Nat} {type : UInt16} {ttl : UInt32} :
    Avoids responseBounds (checkedData base start dataLength type ttl) ↔
      DataFits base start dataLength type := by
  have hmem : Overrun.datagram ∈ responseBounds := by decide
  unfold checkedData
  split
  · rename_i ha
    subst ha
    simp only [avoids_orError_bind hmem, avoids_bind, avoids_checkedText, avoids_ok, implies_true, and_true]
    exact ⟨fun h => ⟨fun _ => h, fun h => absurd h typeA_ne.1, fun h => absurd h typeA_ne.2⟩, fun h => h.a rfl⟩
  · rename_i ha
    split
    · rename_i haaaa
      subst haaaa
      simp only [avoids_orError_bind hmem, avoids_bind, avoids_checkedText, avoids_ok, implies_true,
        and_true]
      exact ⟨fun h => ⟨fun h => absurd h ha, fun _ => h, fun h => absurd h typeAAAA_ne⟩,
        fun h => h.aaaa rfl⟩
    · rename_i haaaa
      split
      · rename_i hcname
        subst hcname
        simp only [avoids_bind, avoids_checkedUrl, avoids_ok, implies_true, and_true]
        exact ⟨fun h => ⟨fun h => absurd h ha, fun h => absurd h haaaa, fun _ => h⟩, fun h => h.cname rfl⟩
      · rename_i hcname
        exact iff_of_true (avoids_ok _ _)
          ⟨fun h => absurd h ha, fun h => absurd h haaaa, fun h => absurd h hcname⟩

theorem checkedData_ok {start dataLength : Nat} {type : UInt16} {ttl : UInt32}
    (h : DataFits base start dataLength type) :
    (∃ answer, checkedData base start dataLength type ttl = .ok answer) ↔
      DataEnds base start dataLength type := by
  unfold checkedData
  split
  · rename_i ha
    obtain ⟨data, hdata, hwritten⟩ := h.a ha
    subst ha
    obtain ⟨result, hresult⟩ := checkedText_ok.mpr (decimalText_fits hwritten)
    rw [hdata, orError_some, ok_bind, hresult]
    exact iff_of_true ⟨_, rfl⟩ ⟨fun h => absurd h typeA_ne.1, fun h => absurd h typeA_ne.2⟩
  · rename_i ha
    split
    · rename_i haaaa
      obtain ⟨words, hwords, -⟩ := h.aaaa haaaa
      subst haaaa
      simp only [hwords, orError_some, ok_bind, bind_ok, Except.ok.injEq]
      constructor
      · rintro ⟨answer, text, htext, -⟩
        refine ⟨fun _ words' hwords' => ?_, fun h => absurd h typeAAAA_ne⟩
        rw [hwords, Option.some.injEq] at hwords'
        exact hwords' ▸ checkedText_ok.mp ⟨text, htext⟩
      · intro hends
        obtain ⟨text, htext⟩ := checkedText_ok.mpr (hends.aaaa rfl words hwords)
        exact ⟨_, text, htext, rfl⟩
    · rename_i haaaa
      split
      · rename_i hcname
        subst hcname
        simp only [bind_ok, Except.ok.injEq]
        constructor
        · rintro ⟨answer, name, hname, -⟩
          exact ⟨fun h => absurd h haaaa, fun _ h₁ h₂ => (checkedUrl_returns.mp ⟨name, hname⟩ h₁ h₂).2⟩
        · intro hends
          obtain ⟨name, hname⟩ := checkedUrl_returns.mpr fun h₁ h₂ =>
            ⟨(h.cname rfl h₁ h₂).1, hends.cname rfl h₁ h₂⟩
          exact ⟨_, name, hname, rfl⟩
      · rename_i hcname
        exact iff_of_true ⟨_, rfl⟩ ⟨fun h => absurd h haaaa, fun h => absurd h hcname⟩

theorem checkedAnswer_eq : checkedAnswer base off =
    if off + 12 ≤ base.length then do
      let answer ← checkedData base (off + 12) (recordLength base off) (recordType base off)
        (recordTTL base off)
      .ok (answer, off + 12 + recordLength base off)
    else .error .datagram := by
  unfold checkedAnswer
  split
  · rename_i hrange
    obtain ⟨name, hname⟩ := read2_range.mpr (show off + 2 ≤ base.length by omega)
    obtain ⟨type, htype⟩ := read2_range.mpr (show off + 2 + 2 ≤ base.length by omega)
    obtain ⟨cls, hcls⟩ := read2_range.mpr (show off + 4 + 2 ≤ base.length by omega)
    obtain ⟨ttl, httl⟩ := read4_range.mpr (show off + 6 + 4 ≤ base.length by omega)
    obtain ⟨size, hsize⟩ := read2_range.mpr (show off + 10 + 2 ≤ base.length by omega)
    rw [recordLength, recordType, recordTTL, hname, htype, hcls, httl, hsize]
    rfl
  · rename_i hrange
    have hnone : read2 base (off + 10) = none :=
      Option.eq_none_iff_forall_ne_some.mpr fun v hv => hrange (read2_range.mp ⟨v, hv⟩)
    rw [hnone]
    cases read2 base off with
    | none => rfl
    | some name =>
        cases read2 base (off + 2) with
        | none => rfl
        | some type =>
            cases read2 base (off + 4) with
            | none => rfl
            | some cls => cases read4 base (off + 6) <;> rfl

theorem avoids_checkedAnswers :
    Avoids responseBounds (checkedAnswers base n off) ↔ RecordsFit base n off := by
  induction n generalizing off with
  | zero => exact iff_of_true (avoids_ok _ _) trivial
  | succ n ih =>
      rw [checkedAnswers, RecordsFit, checkedAnswer_eq]
      split
      · rename_i hrange
        simp only [bind_assoc, ok_bind, avoids_bind, avoids_checkedData, avoids_ok, implies_true, and_true,
          ih, hrange, true_and]
        refine and_congr_right fun hfits => ?_
        rw [← checkedData_ok hfits, forall_exists_index]
      · rename_i hrange
        exact iff_of_false (fun h => h .datagram (by decide) rfl) fun h => hrange h.1

/-! ## The whole response -/

def responseID (base : List UInt8) : Nat := (nhswap_s ((read2 base 0).getD 0)).toNat

def answerCount (base : List UInt8) : Nat := (nhswap_s ((read2 base 6).getD 0)).toNat

/-- The ID is a row of the table; and when the response does not come too late, its question ends in the
datagram, and the records behind it fit. -/
def ResponseFits (s : Server) (base : List UInt8) (time : SystemTime) : Prop :=
  2 ≤ base.length ∧ responseID base < maxAmount ∧
    (overTime (s.idTable (responseID base)) time = false →
      0 ∈ base.drop 12 ∧
        RecordsFit base (answerCount base) (12 + (base.drop 12).idxOf 0 + 5))

theorem read2_getD {P : UInt16 → Prop} :
    (∃ v, read2 base i = some v ∧ P v) ↔ i + 2 ≤ base.length ∧ P ((read2 base i).getD 0) := by
  rw [← read2_range]
  cases read2 base i with
  | none => simp
  | some v => simp

theorem findAnswerStart_eq {P : Nat → Prop} :
    (∃ start, findAnswerStart base i = some start ∧ P start) ↔
      0 ∈ base.drop i ∧ P (i + (base.drop i).idxOf 0 + 5) := by
  simp only [findAnswerStart, strlen_eq, Option.bind_eq_bind]
  split
  · rename_i h
    simp [h]
  · rename_i h
    simp [h]

/-- A response stays inside the received bytes, the table of IDs and the texts of 64 bytes if and only if
its ID, its question and its records fit. -/
theorem response_stays_inside (s : Server) (base : List UInt8) (clock : Nat → SystemTime)
    (h : base.length ≤ 1024) :
    Avoids responseBounds (checkedResponse s base clock) ↔ ResponseFits s base (clock 0) := by
  have hmem : Overrun.datagram ∈ responseBounds := by decide
  rw [checkedResponse, if_neg (Nat.not_lt.mpr h), avoids_orError_bind hmem, read2_getD, ResponseFits,
    responseID, answerCount]
  refine and_congr_right fun hlength => ?_
  simp only
  split
  · rename_i hid
    exact iff_of_false (fun h => h .idTable (by decide) rfl) fun h => Nat.not_lt.mpr hid h.1
  · rename_i hid
    rw [and_iff_right (Nat.not_le.mp hid)]
    split
    · rename_i hover
      exact iff_of_true (avoids_ok _ _) fun h => absurd (hover.symm.trans h) (by decide)
    · rename_i hover
      rw [avoids_orError_bind hmem, findAnswerStart_eq, imp_iff_right (Bool.eq_false_of_not_eq_true hover)]
      refine and_congr_right fun hzero => ?_
      have hcount : 6 + 2 ≤ base.length := by
        have hpos := List.length_pos_of_mem hzero
        rw [List.length_drop] at hpos
        omega
      rw [avoids_orError_bind hmem, read2_getD, and_iff_right hcount, avoids_bind, avoids_checkedAnswers]
      exact and_iff_left fun answers _ => avoids_ok _ _

/-- A request for the name `a` waits in the first row. -/
def waiting : Server := emptyServer.fill 0 ⟨0, 0⟩ false 0 [97] jan31

/-- A response for the name `a` with one record. -/
def singleAnswer (type : UInt8) (data : List UInt8) : List UInt8 :=
  [0, 0, 0x81, 0x80, 0, 1, 0, 1, 0, 0, 0, 0, 1, 97, 0, 0, 1, 0, 1, 0xc0, 0x0c, 0, type, 0, 1, 0, 0, 0, 60, 0,
    UInt8.ofNat data.length] ++ data

/-- The address 1.2.3.4 as an answer. -/
theorem response_stays_inside_example : (singleAnswer 1 [1, 2, 3, 4]).length ≤ 1024 ∧
    (Avoids responseBounds (checkedResponse waiting (singleAnswer 1 [1, 2, 3, 4]) fun _ => jan31) ↔
      ResponseFits waiting (singleAnswer 1 [1, 2, 3, 4]) jan31) :=
  ⟨by decide, response_stays_inside _ _ _ (by decide)⟩

/-- The ID 1024 is behind the table; an address of seventeen bytes 255 takes 68 bytes as a text; and an
answer that the header counts may not be there. -/
theorem response_leaves :
    checkedResponse waiting [4, 0] (fun _ => jan31) = .error .idTable ∧
    checkedResponse waiting (singleAnswer 1 (List.replicate 17 255)) (fun _ => jan31) = .error .text ∧
    checkedResponse waiting ((singleAnswer 1 []).take 19) (fun _ => jan31) = .error .datagram := by
  have hall : failsWith .idTable (checkedResponse waiting [4, 0] (fun _ => jan31)) = true ∧
      failsWith .text (checkedResponse waiting (singleAnswer 1 (List.replicate 17 255)) fun _ => jan31) =
        true ∧
      failsWith .datagram (checkedResponse waiting ((singleAnswer 1 []).take 19) fun _ => jan31) = true := by
    decide +kernel
  rwa [failsWith_iff, failsWith_iff, failsWith_iff] at hall

end TermCollection.Dns
