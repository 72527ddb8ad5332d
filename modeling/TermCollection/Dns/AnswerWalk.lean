import TermCollection.Dns.Messages
import TermCollection.Dns.AddressText

/-!
# The walk over the answers (`onReadResponse`)

The loop takes twelve bytes for the start of each record, two of them for the name of its owner. So it
comes to the records of the message only when their owners are compression pointers.
-/

namespace TermCollection.Dns

variable {base rest : List UInt8} {q : Question} {r : Record} {rs answers : List Record}
variable {off place z i n : Nat} {ls : List Label} {stop : NameEnd} {name : Name}

/-! ## What the loop sees -/

/-- What the loop reads of a record, with the place where it reads the type. -/
structure SeenRecord where
  place : Nat
  type : UInt16
  cls : UInt16
  ttl : UInt32
  dataLength : Nat
  data : List UInt8
  deriving DecidableEq

/-- One round of the loop, and the offset after it. -/
def seeRecord (base : List UInt8) (off : Nat) : Option (SeenRecord × Nat) := do
  let _ ← read2 base off
  let type ← read2 base (off + 2)
  let cls ← read2 base (off + 4)
  let ttl ← read4 base (off + 6)
  let dataLength := (nhswap_s (← read2 base (off + 10))).toNat
  let data ← slice base (off + 12) dataLength
  some (⟨off + 2, nhswap_s type, nhswap_s cls, nhswap_l ttl, dataLength, data⟩, off + 12 + dataLength)

def seeRecords (base : List UInt8) : Nat → Nat → Option (List SeenRecord)
  | 0, _ => some []
  | n + 1, off => do
      let (seen, off) ← seeRecord base off
      let rest ← seeRecords base n off
      some (seen :: rest)

/-- The records of the message from a place on, with the places of their types. -/
def recordsAt : Nat → List Record → List SeenRecord
  | _, [] => []
  | place, r :: rs =>
      ⟨place + r.owner.bytes.length, r.type, r.cls, r.ttl, r.data.length, r.data⟩ ::
        recordsAt (place + r.bytes.length) rs

/-- The loop sees in each round the fields of the record that belongs to it. -/
def SeesRecords (base : List UInt8) (q : Question) (answers : List Record) : Prop :=
  ∃ start, findAnswerStart base 12 = some start ∧
    seeRecords base answers.length start = some (recordsAt (12 + q.bytes.length) answers)

/-- The owners take two bytes each; the first one may make up for a zero in the name of the question. -/
def Aligned (q : Question) : List Record → Prop
  | [] => True
  | r :: rs => (labels.stream q.name).length + r.owner.bytes.length = (nameBytes q.name).idxOf 0 + 2 ∧
      ∀ r' ∈ rs, r'.owner.bytes.length = 2

/-! ## The fields of a record -/

theorem record_fields (h : r.fields ++ r.data <+: base.drop i) (hi : i ≤ base.length) :
    read2 base i = some (nhswap_s r.type) ∧ read2 base (i + 2) = some (nhswap_s r.cls) ∧
      read4 base (i + 4) = some (nhswap_l r.ttl) ∧
      read2 base (i + 8) = some (nhswap_s (UInt16.ofNat r.data.length)) ∧
      slice base (i + 10) r.data.length = some r.data := by
  have hle := h.length_le
  obtain ⟨post, hpost⟩ := h
  rw [List.length_append, Record.length_fields, List.length_drop] at hle
  have hdrop : ∀ k, base.drop (i + k) = (r.fields ++ r.data ++ post).drop k := fun k => by
    rw [hpost, List.drop_drop]
  refine ⟨read2_of_net2 ?_, read2_of_net2 ?_, read4_of_net4 ?_, read2_of_net2 ?_, slice_of_start ?_ (by omega)⟩
  · rw [← hpost]
    exact ⟨_, rfl⟩
  · rw [hdrop]
    exact ⟨_, rfl⟩
  · rw [hdrop]
    exact ⟨_, rfl⟩
  · rw [hdrop]
    exact ⟨_, rfl⟩
  · rw [hdrop]
    exact ⟨post, rfl⟩

theorem toNat_data_length (r : Record) : (UInt16.ofNat r.data.length).toNat = r.data.length := by
  rw [UInt16.toNat_ofNat']
  exact Nat.mod_eq_of_lt r.short

theorem fields_of_record (h : r.bytes ++ rest <+: base.drop place) :
    r.fields ++ r.data <+: base.drop (place + r.owner.bytes.length) ∧
      place + r.bytes.length ≤ base.length := by
  have hrecord := r.le_length_bytes
  have hstart : r.bytes <+: base.drop place := (List.prefix_append _ _).trans h
  refine ⟨?_, fits_of_start hstart (by omega)⟩
  rw [Record.bytes] at hstart
  exact start_behind hstart

/-- The loop sees a record whose type it finds, and then comes to the end of the record. -/
theorem seeRecord_eq (h : r.bytes ++ rest <+: base.drop place)
    (hoff : off + 2 = place + r.owner.bytes.length) : seeRecord base off =
      some (⟨place + r.owner.bytes.length, r.type, r.cls, r.ttl, r.data.length, r.data⟩,
        place + r.bytes.length) := by
  obtain ⟨hfields, hend⟩ := fields_of_record h
  rw [Record.length_bytes] at hend
  rw [← hoff] at hfields
  obtain ⟨htype, hcls, httl, hlength, hdata⟩ := record_fields hfields (by omega)
  obtain ⟨name, hname⟩ := read2_range.mpr (show off + 2 ≤ base.length by omega)
  have hnext : off + 12 + r.data.length = place + r.bytes.length := by
    rw [Record.length_bytes]
    omega
  have hslice : slice base (off + 12) r.data.length = some r.data := hdata
  rw [seeRecord, hname, htype, hcls, httl, hlength]
  simp only [Option.bind_eq_bind, Option.bind_some, nhswap_s_nhswap_s, nhswap_l_nhswap_l,
    toNat_data_length, hslice, hnext, hoff]

theorem seeRecord_place {seen : SeenRecord} {next : Nat} (h : seeRecord base off = some (seen, next)) :
    seen.place = off + 2 := by
  simp only [seeRecord, Option.bind_eq_bind, Option.bind_eq_some_iff, Option.some.injEq,
    Prod.mk.injEq] at h
  obtain ⟨_, -, _, -, _, -, _, -, _, -, _, -, rfl, -⟩ := h
  rfl

/-- The first round is right when the loop starts two bytes before the first type. -/
theorem seeRecords_cons (h : r.bytes ++ rest <+: base.drop place) :
    seeRecords base (r :: rs).length off = some (recordsAt place (r :: rs)) ↔
      off + 2 = place + r.owner.bytes.length ∧
        seeRecords base rs.length (place + r.bytes.length) =
          some (recordsAt (place + r.bytes.length) rs) := by
  rw [List.length_cons, seeRecords, recordsAt]
  constructor
  · intro hsees
    simp only [Option.bind_eq_bind, Option.bind_eq_some_iff, Option.some.injEq, List.cons.injEq,
      Prod.exists] at hsees
    obtain ⟨seen, next, hseen, seens, hseens, rfl, rfl⟩ := hsees
    have hoff := (seeRecord_place hseen).symm
    rw [seeRecord_eq h hoff, Option.some.injEq, Prod.mk.injEq] at hseen
    rw [← hseen.2] at hseens
    exact ⟨hoff, hseens⟩
  · rintro ⟨hoff, hrest⟩
    rw [seeRecord_eq h hoff]
    simp only [Option.bind_eq_bind, Option.bind_some, hrest]

/-- The others are right when their owners take two bytes. -/
theorem seeRecords_iff (h : (r :: rs).flatMap Record.bytes <+: base.drop place) :
    seeRecords base (r :: rs).length off = some (recordsAt place (r :: rs)) ↔
      off + 2 = place + r.owner.bytes.length ∧ ∀ r' ∈ rs, r'.owner.bytes.length = 2 := by
  induction rs generalizing r off place with
  | nil =>
      rw [List.flatMap_cons] at h
      rw [seeRecords_cons h]
      simp [seeRecords, recordsAt]
  | cons r' rs ih =>
      rw [List.flatMap_cons] at h
      rw [seeRecords_cons h, ih (start_behind h), List.forall_mem_cons]
      refine and_congr_right fun _ => and_congr_left fun _ => ?_
      omega

/-- The records start behind the first zero and five bytes more. -/
theorem findAnswerStart_question (h : q.bytes ++ rest <+: base.drop 12) :
    findAnswerStart base 12 = some (12 + (nameBytes q.name).idxOf 0 + 5) := by
  obtain ⟨post, hpost⟩ := h
  have hzero : 0 ∈ nameBytes q.name := List.mem_append_right _ (List.mem_singleton_self 0)
  have hlen : strlen (base.drop 12) = some ((nameBytes q.name).idxOf 0) := by
    rw [← hpost, Question.bytes, List.append_assoc, List.append_assoc, List.append_assoc, strlen_some]
    exact ⟨List.mem_append_left _ hzero, List.idxOf_append_of_mem hzero⟩
  rw [findAnswerStart, hlen]
  rfl

/-- The loop sees the records of the message if and only if their owners are aligned. -/
theorem seesRecords_iff (h : q.bytes ++ (answers.flatMap Record.bytes ++ rest) <+: base.drop 12) :
    SeesRecords base q answers ↔ Aligned q answers := by
  have hrecords := (List.prefix_append _ _).trans (start_behind h)
  simp only [SeesRecords, findAnswerStart_question h, Option.some.injEq, exists_eq_left']
  cases answers with
  | nil => exact iff_of_true rfl trivial
  | cons r rs =>
      rw [seeRecords_iff hrecords, Aligned, Question.length_bytes]
      refine and_congr_left fun _ => ?_
      omega

/-! ## Names in the data -/

theorem length_dotted_le (ls : List Label) : (dotted ls).length ≤ (labels.stream ls).length := by
  by_cases hls : ls = []
  · rw [hls]
    exact Nat.le_refl _
  · have hdotted := length_dotted hls
    omega

/-- A zero behind a position ends the string that starts there. -/
theorem strlen_of_zero (hzero : base[z]? = some 0) (hi : i ≤ z) :
    ∃ len, strlen (base.drop i) = some len ∧ len ≤ z - i := by
  have hget : (base.drop i)[z - i]? = some 0 := by
    rw [List.getElem?_drop, Nat.add_sub_cancel' hi]
    exact hzero
  have hmem : 0 ∈ (base.drop i).take (z - i + 1) := by
    refine List.mem_of_getElem? (i := z - i) ?_
    rw [List.getElem?_take_of_lt (Nat.lt_succ_self _)]
    exact hget
  have hlen := strlen_some.mpr ⟨List.mem_of_mem_take hmem, rfl⟩
  refine ⟨_, hlen, ?_⟩
  rw [← List.take_append_drop (z - i + 1) (base.drop i)] at hlen
  have hlt := strlen_lt hmem hlen
  rw [List.take_append_drop, List.length_take] at hlt
  omega

/-- The end of a name whose pointer leads before a zero of the message. -/
theorem nameOutcome_stop (hpointer : ∀ offset, stop = .pointer offset → offset < z)
    (hzero : base[z]? = some 0) (hshort : z + (labels.stream ls).length + 2 < 1024) :
    ∃ text, nameOutcome base ls (stop.bytes ++ rest) = .ok text := by
  cases stop with
  | root =>
      refine ⟨dotted ls, ?_⟩
      rw [NameEnd.bytes, List.singleton_append, nameOutcome, if_pos rfl]
  | pointer offset =>
      obtain ⟨c, low, hbytes, hhigh, htarget⟩ := pointer_head offset
      have hbefore := hpointer offset rfl
      have hne : c ≠ 0 := by
        rintro rfl
        exact absurd hhigh (by decide)
      have hdotted := length_dotted_le ls
      obtain ⟨len, hlen, hle⟩ := strlen_of_zero hzero (Nat.succ_le_of_lt hbefore)
      have hcopy : strcpyS base (offset + 1) (bufferSize - (dotted ls).length - 2) =
          .ok ((base.drop (offset + 1)).take len) := by
        rw [strcpyS_ok, cstringAt, hlen]
        refine ⟨rfl, ?_⟩
        rw [List.length_take, bufferSize]
        omega
      rw [NameEnd.bytes, hbytes, List.cons_append, nameOutcome, if_neg hne, if_pos hhigh, List.singleton_append,
        List.head?_cons, orError_some, ok_bind, htarget, hcopy, ok_bind]
      exact ⟨_, rfl⟩

/-- Labels without a zero, up to a first label with one. -/
theorem clean_or_cut (ls : List Label) : (∀ l ∈ ls, 0 ∉ l.bytes) ∨
    ∃ before l after, ls = before ++ l :: after ∧ (∀ l ∈ before, 0 ∉ l.bytes) ∧ 0 ∈ l.bytes := by
  induction ls with
  | nil => exact .inl (by simp)
  | cons l ls ih =>
      by_cases hl : 0 ∈ l.bytes
      · exact .inr ⟨[], l, ls, rfl, by simp, hl⟩
      · rcases ih with hclean | ⟨before, l', after, rfl, hbefore, hl'⟩
        · exact .inl (List.forall_mem_cons.mpr ⟨hl, hclean⟩)
        · exact .inr ⟨l :: before, l', after, rfl, List.forall_mem_cons.mpr ⟨hl, hbefore⟩, hl'⟩

/-- The bytes of such a name start with a name that the parser can read. -/
theorem spells_name (hpointer : ∀ offset, name.stop = .pointer offset → offset < z)
    (hzero : base[z]? = some 0) (hshort : z + name.bytes.length + 2 < 1024) (hrest : 0 ∈ rest) :
    ∃ text, Spells base (name.bytes ++ rest) text := by
  have hmem : 0 ∈ name.bytes ++ rest := List.mem_append_right _ hrest
  have hlength : name.bytes.length = (labels.stream name.parts).length + name.stop.bytes.length :=
    List.length_append
  have hstop : ∃ text, nameOutcome base name.parts (name.stop.bytes ++ rest) = .ok text :=
    nameOutcome_stop hpointer hzero (by omega)
  obtain ⟨text, hend⟩ := hstop
  rcases clean_or_cut name.parts with hclean | ⟨before, l, after, hparts, hbefore, hl⟩
  · refine ⟨text, name.parts, name.stop.bytes ++ rest, ⟨?_, ?_, hmem⟩, hend⟩
    · rw [Name.bytes, List.append_assoc]
    · exact fun l hl => hclean l ((List.dropLast_sublist _).subset hl)
  · have hstart : ∀ tail, name.bytes ++ rest = labels.stream (before ++ [l]) ++ tail →
        StartsWith (name.bytes ++ rest) (before ++ [l]) tail := by
      intro tail heq
      refine ⟨heq, ?_, hmem⟩
      rw [List.dropLast_concat]
      exact hbefore
    have hsplit : name.bytes ++ rest =
        labels.stream (before ++ [l]) ++ (labels.stream after ++ (name.stop.bytes ++ rest)) := by
      rw [Name.bytes, hparts, List.append_cons, Framing.stream_append, List.append_assoc, List.append_assoc]
    cases after with
    | nil =>
        rw [← hparts] at hsplit hstart
        exact ⟨text, name.parts, _, hstart _ hsplit, hend⟩
    | cons next after =>
        rw [Framing.stream_cons, frame_label, List.cons_append, List.cons_append] at hsplit
        refine ⟨dotted (before ++ [l]) ++ [46], _, _, hstart _ hsplit, ?_⟩
        have hlow : ¬ 192 ≤ UInt8.ofNat next.bytes.length := fun h =>
          absurd (UInt8.le_trans h next.size_le) (by decide)
        rw [nameOutcome, if_neg (UInt8.pos_iff_ne_zero.mp next.size_pos), if_neg hlow,
          if_pos ⟨l, List.getLast?_concat, hl⟩]

/-- The parser returns for a name whose pointer leads before a zero that comes before the name. -/
theorem parse_name (h : name.bytes <+: base.drop place)
    (hpointer : ∀ offset, name.stop = .pointer offset → offset < z)
    (hzero : base[z]? = some 0) (hplace : z + 2 < place) (hend : place + name.bytes.length ≤ 1024) :
    ∃ text, parseUrlFromData base place name.bytes.length = some text := by
  have hstop := name.stop.length_pos
  have hlength : name.bytes.length = (labels.stream name.parts).length + name.stop.bytes.length :=
    List.length_append
  have hrest : (0 : UInt8) ∈ List.replicate (bufferSize - name.bytes.length) 0 := by
    refine List.mem_replicate.mpr ⟨?_, rfl⟩
    rw [bufferSize]
    omega
  obtain ⟨text, hspells⟩ := spells_name hpointer hzero (by omega) hrest
  have hfits := fits_of_start h (by omega)
  rw [← urlCopy_of_start h] at hspells
  exact Option.isSome_iff_exists.mp ((parse_terminates _ _ _ (by omega) (by omega)).mpr ⟨hfits, text, hspells⟩)

/-! ## The data of the records -/

/-- The data of a record that has a form of its own. -/
structure ValidData (place : Nat) (r : Record) : Prop where
  a : r.type = typeA → r.data.length = 4
  aaaa : r.type = typeAAAA → r.data.length = 16
  cname : r.type = typeCNAME → ∃ name : Name, r.data = name.bytes ∧
    ∀ offset, name.stop = .pointer offset → offset < place + r.owner.bytes.length

theorem ValidData.address (htype : r.type = typeA) (hlength : r.data.length = 4) : ValidData place r :=
  ⟨fun _ => hlength, fun h => absurd (htype.symm.trans h) typeA_ne.1,
    fun h => absurd (htype.symm.trans h) typeA_ne.2⟩

/-- The data of all the records from a place on, whose names point back to names before them. -/
def ValidRecords : Nat → List Record → Prop
  | _, [] => True
  | place, r :: rs => ValidData place r ∧ ValidRecords (place + r.bytes.length) rs

/-- What the handler keeps of a record. -/
def Record.answer (r : Record) : Answer :=
  if r.type = typeA then .a r.ttl (decimalText r.data) else .other r.type

theorem textA_of_length {data : List UInt8} (h : data.length = 4) : textA data = some (decimalText data) := by
  obtain ⟨b₀, b₁, b₂, b₃, rfl⟩ : ∃ b₀ b₁ b₂ b₃, data = [b₀, b₁, b₂, b₃] := by
    match data, h with
    | [b₀, b₁, b₂, b₃], _ => exact ⟨b₀, b₁, b₂, b₃, rfl⟩
  exact if_pos (Nat.lt_of_lt_of_le (length_decimalText_quad b₀ b₁ b₂ b₃) (by decide))

/-- The name that a CNAME record has for its data is read: the high byte of the type is a zero before it. -/
theorem parse_cname (hfields : r.fields ++ r.data <+: base.drop i) (hcname : r.type = typeCNAME)
    (hdata : r.data = name.bytes) (hpointer : ∀ offset, name.stop = .pointer offset → offset < i)
    (hend : i + 10 + r.data.length ≤ 1024) :
    ∃ text, parseUrlFromData base (i + 10) r.data.length = some text := by
  have hbytes := start_behind hfields
  rw [Record.length_fields, hdata] at hbytes
  have hzero : base[i]? = some 0 := by
    obtain ⟨post, hpost⟩ := hfields
    have hhead : (base.drop i)[0]? = some 0 := by
      rw [← hpost, Record.fields, hcname]
      rfl
    rwa [List.getElem?_drop] at hhead
  rw [hdata] at hend ⊢
  exact parse_name hbytes hpointer hzero (by omega) hend

theorem readData_valid (hvalid : ValidData place r) (h : r.bytes ++ rest <+: base.drop place)
    (hend : place + r.bytes.length ≤ 1024) :
    readData base (place + r.owner.bytes.length + 10) r.data.length r.type r.ttl = some r.answer := by
  obtain ⟨hfields, hrange⟩ := fields_of_record h
  rw [Record.length_bytes] at hend hrange
  obtain ⟨-, -, -, -, hdata⟩ := record_fields hfields (by omega)
  unfold readData Record.answer
  split
  · rename_i ha
    rw [hdata]
    simp only [Option.bind_eq_bind, Option.bind_some, textA_of_length (hvalid.a ha)]
  · split
    · rename_i haaaa
      rw [hvalid.aaaa haaaa] at hdata ⊢
      rw [(textAAAALoop_slice hdata).1]
      rfl
    · split
      · rename_i hcname
        obtain ⟨name, hname, hpointer⟩ := hvalid.cname hcname
        obtain ⟨text, htext⟩ := parse_cname hfields hcname hname hpointer (by omega)
        rw [htext]
        rfl
      · rfl

theorem readAnswer_of_seeRecord {seen : SeenRecord} {next : Nat} {answer : Answer}
    (h : seeRecord base off = some (seen, next))
    (hdata : readData base (off + 12) seen.dataLength seen.type seen.ttl = some answer) :
    readAnswer base off = some (answer, next) := by
  simp only [seeRecord, Option.bind_eq_bind, Option.bind_eq_some_iff, Option.some.injEq,
    Prod.mk.injEq] at h
  obtain ⟨name, hname, type, htype, cls, hcls, ttl, httl, size, hsize, data, -, rfl, rfl⟩ := h
  rw [readAnswer_eq, hname, htype, hcls, httl, hsize]
  simp only [Option.bind_eq_bind, Option.bind_some]
  rw [hdata]
  rfl

/-- The handler gets through the records that the loop sees. -/
theorem readAnswers_valid (hsees : seeRecords base rs.length off = some (recordsAt place rs))
    (h : rs.flatMap Record.bytes <+: base.drop place) (hvalid : ValidRecords place rs)
    (hend : place + (rs.flatMap Record.bytes).length ≤ 1024) :
    readAnswers base rs.length off = some (rs.map Record.answer) := by
  induction rs generalizing off place with
  | nil => rfl
  | cons r rs ih =>
      rw [List.flatMap_cons] at h hend
      rw [List.length_append] at hend
      obtain ⟨hdata, hrest⟩ := hvalid
      obtain ⟨hoff, hseen⟩ := (seeRecords_cons h).mp hsees
      have hread := readData_valid hdata h (by omega)
      rw [show place + r.owner.bytes.length + 10 = off + 12 by omega] at hread
      have hanswers := ih hseen (start_behind h) hrest (by omega)
      rw [List.length_cons, readAnswers, readAnswer_of_seeRecord (seeRecord_eq h hoff) hread]
      simp only [Option.bind_eq_bind, Option.bind_some, hanswers, List.map_cons]

/-! ## The cache -/

variable {uv : LibUv} {s s' : Server} {o : List Output} {clock : Nat → SystemTime} {temp : Nat}

/-- A lookup does not find the name of the request. -/
def Uncached (s : Server) (temp : Nat) : Prop :=
  findValueByKey s.str s.dnsHashTable (s.idTable temp).url = some none

instance (s : Server) (temp : Nat) : Decidable (Uncached s temp) := inferInstanceAs (Decidable (_ = _))

/-- The outputs start with the first record of type A in the next row, or there is none and nothing is
cached. -/
def FirstCached (s : Server) (temp i : Nat) (clock : Nat → SystemTime) (answers : List Record)
    (o : List Output) : Prop :=
  match answers.find? (·.type = typeA) with
  | none => ∀ row name data ttl time, .cached row name data ttl time ∉ o
  | some r => o.head? = some (.cached s.dnsRowCount (s.idTable temp).url (decimalText r.data) r.ttl
      (clock (i + answers.findIdx (·.type = typeA))))

theorem cacheAnswer_uncached (h : s.Ok) (hmiss : Uncached s temp) (hrow : s.dnsRowCount < maxAmount)
    (ttl : UInt32) (text : CString) (time : SystemTime) :
    ∃ s', cacheAnswer s temp time (.a ttl text) =
      some (s', [.cached s.dnsRowCount (s.idTable temp).url text ttl time]) := by
  obtain ⟨table, hinsert, -⟩ := h.wellFormed.insert h.nonempty
    (s.cacheRow temp ttl text time s.dnsHashTable).str (.url temp) s.dnsRowCount
  refine ⟨s.cacheRow temp ttl text time table, ?_⟩
  rw [Uncached] at hmiss
  simp only [cacheAnswer, hmiss, Option.bind_eq_bind, Option.bind_some, if_pos hrow, hinsert]

theorem cacheAnswer_step (h : s.Ok) (hrow : s.dnsRowCount < maxAmount) {answer : Answer} {time : SystemTime}
    (hs : cacheAnswer s temp time answer = some (s', o)) : s'.Ok ∧ s'.dnsRowCount < maxAmount := by
  constructor
  · have hsingle : cacheAnswers temp (fun _ => time) s 0 [answer] = some (s', o ++ []) := by
      simp [cacheAnswers, hs]
    exact h.cacheAnswers hsingle
  · rcases cacheAnswer_cases hs with ⟨rfl, -⟩ | ⟨ttl, result, r, table, -, -, -, -, rfl, -⟩
    · exact hrow
    · exact Nat.mod_lt _ (by decide)

theorem cacheAnswers_total (h : s.Ok) (hrow : s.dnsRowCount < maxAmount) (temp : Nat)
    (clock : Nat → SystemTime) (answers : List Answer) (i : Nat) :
    ∃ s' o, cacheAnswers temp clock s i answers = some (s', o) := by
  induction answers generalizing s i with
  | nil => exact ⟨s, [], rfl⟩
  | cons answer answers ih =>
      obtain ⟨s₁, o₁, h₁⟩ := (cacheAnswer_defined_iff h temp answer (clock i)).mpr fun _ => hrow
      obtain ⟨hok, hrow₁⟩ := cacheAnswer_step h hrow h₁
      obtain ⟨s₂, o₂, h₂⟩ := ih hok hrow₁ (i + 1)
      exact ⟨s₂, o₁ ++ o₂, by simp [cacheAnswers, h₁, h₂]⟩

/-- The first record of type A is cached if and only if there is none or a row of the DNS table is next. -/
theorem cacheAnswers_first (h : s.Ok) (hmiss : Uncached s temp) (clock : Nat → SystemTime)
    (answers : List Record) (i : Nat) :
    (∃ s' o, cacheAnswers temp clock s i (answers.map Record.answer) = some (s', o) ∧
      FirstCached s temp i clock answers o) ↔
    ((∃ r ∈ answers, r.type = typeA) → s.dnsRowCount < maxAmount) := by
  induction answers generalizing i with
  | nil => simp [cacheAnswers, FirstCached]
  | cons r rs ih =>
      by_cases ha : r.type = typeA
      · have hanswer : r.answer = .a r.ttl (decimalText r.data) := if_pos ha
        have hfind : (r :: rs).find? (·.type = typeA) = some r := by simp [ha]
        have hidx : (r :: rs).findIdx (·.type = typeA) = 0 := by simp [List.findIdx_cons, ha]
        have hneeds : (∃ r' ∈ r :: rs, r'.type = typeA) := ⟨r, List.mem_cons_self, ha⟩
        simp only [FirstCached, hfind, hidx, List.map_cons, hanswer, hneeds, true_implies]
        constructor
        · rintro ⟨s', o, hs, -⟩
          simp only [cacheAnswers, Option.bind_eq_bind, Option.bind_eq_some_iff, Prod.exists] at hs
          obtain ⟨s₁, o₁, h₁, -⟩ := hs
          refine (cacheAnswer_defined_iff h temp _ _).mp ⟨s₁, o₁, h₁⟩ ?_
          exact decide_eq_true hmiss
        · intro hrow
          obtain ⟨s₁, h₁⟩ := cacheAnswer_uncached h hmiss hrow r.ttl (decimalText r.data) (clock i)
          obtain ⟨hok, hrow₁⟩ := cacheAnswer_step h hrow h₁
          obtain ⟨s', o, hrest⟩ := cacheAnswers_total hok hrow₁ temp clock (rs.map Record.answer) (i + 1)
          refine ⟨s', .cached s.dnsRowCount (s.idTable temp).url (decimalText r.data) r.ttl (clock i) :: o, ?_,
            rfl⟩
          simp only [cacheAnswers, Option.bind_eq_bind, h₁, Option.bind_some, hrest, List.singleton_append]
      · have hanswer : r.answer = .other r.type := if_neg ha
        have hfirst : ∀ o, FirstCached s temp i clock (r :: rs) o ↔ FirstCached s temp (i + 1) clock rs o := by
          intro o
          have hfind : (r :: rs).find? (·.type = typeA) = rs.find? (·.type = typeA) := by simp [ha]
          have hidx : (r :: rs).findIdx (·.type = typeA) = rs.findIdx (·.type = typeA) + 1 := by
            simp [ha, List.findIdx_cons]
          simp only [FirstCached, hfind, hidx, Nat.add_assoc, Nat.add_comm 1]
        simp only [List.map_cons, hanswer, cacheAnswers, cacheAnswer, hfirst]
        simpa [ha] using ih (i + 1)

/-! ## Responses -/

variable {nread : Int} {h : DNSHeader} {s₀ : Server} {tr : List (Event × List Output)}

/-- The handler returns and has cached the first record of type A, if there is one. -/
def CachesFirst (uv : LibUv) (s : Server) (nread : Int) (base : List UInt8) (clock : Nat → SystemTime)
    (temp : Nat) (answers : List Record) : Prop :=
  ∃ s' o, onReadResponse uv s nread base clock = some (s', o) ∧ FirstCached s temp 1 clock answers o

theorem str_finish (s : Server) (temp : Nat) : (s.finish temp).str = s.str := by
  funext k
  cases k with
  | domain j => rfl
  | url j => exact (SameClient.finish s temp j).2.2.2

theorem url_finish (s : Server) (temp : Nat) : ((s.finish temp).idTable temp).url = (s.idTable temp).url :=
  (SameClient.finish s temp temp).2.2.2

theorem uncached_finish (s : Server) (temp : Nat) : Uncached (s.finish temp) temp ↔ Uncached s temp := by
  rw [Uncached, Uncached, str_finish, url_finish]
  rfl

/-- The datagram to the client comes after what is cached. -/
theorem firstCached_append (s : Server) (temp i : Nat) (dest : SockAddrIn) (data : List UInt8) :
    FirstCached s temp i clock answers (o ++ [.toClient dest data]) ↔
      FirstCached (s.finish temp) temp i clock answers o := by
  unfold FirstCached
  cases answers.find? (·.type = typeA) with
  | none => simp
  | some r =>
      rw [url_finish]
      cases o with
      | nil => simp
      | cons x o => rfl

/-- What the handler sends for the answers that it has read. -/
theorem outputs_of_answers {results : List Answer}
    (hrow : responseRow s (.response nread base clock) = some temp)
    (hanswers : responseAnswers base = some results)
    (hs : onReadResponse uv s nread base clock = some (s', o)) :
    ∃ cached dest data, cacheAnswers temp clock (s.finish temp) 1 results = some (s', cached) ∧
      o = cached ++ [.toClient dest data] := by
  cases onReadResponse_cases hs with
  | dropped _ hdropped =>
      rw [hrow] at hdropped
      cases hdropped
  | relayed temp' answers' _ cached _ hrow' _ hans hcache =>
      rw [hrow, Option.some.injEq] at hrow'
      subst hrow'
      rw [hanswers, Option.some.injEq] at hans
      subst hans
      exact ⟨cached, _, _, hcache, rfl⟩

theorem cachesFirst_iff (uv : LibUv) (hok : s.Ok)
    (hrow : responseRow s (.response nread base clock) = some temp)
    (hlen : 2 ≤ base.length ∧ nread.toNat ≤ base.length) (hmiss : Uncached s temp)
    (hanswers : responseAnswers base = some (answers.map Record.answer)) :
    CachesFirst uv s nread base clock temp answers ↔
      ((∃ r ∈ answers, r.type = typeA) → s.dnsRowCount < maxAmount) := by
  have hmiss' := (uncached_finish s temp).mpr hmiss
  refine Iff.trans ?_ (cacheAnswers_first (hok.finish temp) hmiss' clock answers 1)
  constructor
  · rintro ⟨s', o, hs, hfirst⟩
    obtain ⟨cached, dest, data, hcache, rfl⟩ := outputs_of_answers hrow hanswers hs
    exact ⟨s', cached, hcache, (firstCached_append ..).mp hfirst⟩
  · rintro ⟨s₁, cached, hcache, hfirst⟩
    have hpoints := (cacheAnswers_defined_iff (hok.finish temp) temp clock _ 1).mp ⟨s₁, cached, hcache⟩
    have hrelay : relayable s (.response nread base clock) = true := by
      simpa [relayable, eventCachePoints, hrow, hanswers] using hpoints
    obtain ⟨s', o, hs⟩ := (relayed_iff uv hok hrow hlen).mpr hrelay
    obtain ⟨cached', dest, data, hcache', rfl⟩ := outputs_of_answers hrow hanswers hs
    rw [hcache, Option.some.injEq, Prod.mk.injEq] at hcache'
    obtain ⟨-, rfl⟩ := hcache'
    exact ⟨s', _, hs, (firstCached_append ..).mpr hfirst⟩

/-! ## The walk -/

theorem question_behind (h' : h.bytes ++ rest <+: base) : rest <+: base.drop 12 := by
  have hdrop := h'.drop h.bytes.length
  rwa [List.drop_left, DNSHeader.length_bytes] at hdrop

theorem responseAnswers_of_sees
    (hmessage : h.bytes ++ (q.bytes ++ (answers.flatMap Record.bytes ++ rest)) <+: base)
    (hcount : h.answerNum.toNat = answers.length) (hvalid : ValidRecords (12 + q.bytes.length) answers)
    (hend : 12 + q.bytes.length + (answers.flatMap Record.bytes).length ≤ 1024)
    (hsees : SeesRecords base q answers) :
    responseAnswers base = some (answers.map Record.answer) := by
  obtain ⟨start, hstart, hseen⟩ := hsees
  have hrecords := (List.prefix_append _ _).trans (start_behind (question_behind hmessage))
  have hnum : read2 base 6 = some (nhswap_s h.answerNum) := by
    obtain ⟨post, hpost⟩ := hmessage
    refine read2_of_net2 ?_
    rw [← hpost]
    exact ⟨_, rfl⟩
  have hread := readAnswers_valid hseen hrecords hvalid hend
  rw [responseAnswers, hstart, hnum]
  simp only [Option.bind_eq_bind, Option.bind_some, nhswap_s_nhswap_s, hcount, hread]

/-- The loop sees the records of a response with one question, and caches the first one of type A when the
name is not cached, if and only if the owners are aligned and a record to be cached has a row. -/
theorem answer_walk (uv : LibUv) {file : List UInt8} (hload : loadDNSTableData file = some s₀)
    (hr : (serverStep uv).AnyRun s₀ s tr)
    (hrow : responseRow s (.response nread base clock) = some temp) (hlen : nread.toNat ≤ base.length)
    (hmessage : base.take nread.toNat = h.bytes ++ (q.bytes ++ (answers.flatMap Record.bytes ++ rest)))
    (hcount : h.answerNum.toNat = answers.length)
    (hvalid : ValidRecords (12 + q.bytes.length) answers) :
    (SeesRecords base q answers ∧
        (Uncached s temp → CachesFirst uv s nread base clock temp answers)) ↔
      Aligned q answers ∧
        (Uncached s temp → (∃ r ∈ answers, r.type = typeA) → s.dnsRowCount < maxAmount) := by
  have hwhole : h.bytes ++ (q.bytes ++ (answers.flatMap Record.bytes ++ rest)) <+: base := by
    rw [← hmessage]
    exact List.take_prefix _ _
  have hlength := congrArg List.length hmessage
  rw [List.length_take_of_le hlen, List.length_append, DNSHeader.length_bytes, List.length_append,
    List.length_append] at hlength
  have hrange := (responseRow_eq_some hrow).1
  have hok : s.Ok := (Server.Ok.load hload).run hr
  rw [← seesRecords_iff (question_behind hwhole)]
  refine and_congr_right fun hsees => imp_congr_right fun hmiss => ?_
  have hanswers := responseAnswers_of_sees hwhole hcount hvalid (by omega) hsees
  exact cachesFirst_iff uv hok hrow ⟨by omega, hlen⟩ hmiss hanswers

/-! ## Two responses -/

def labelAb : Label := ⟨[97, 98], by decide, by decide⟩

def questionAb : Question := ⟨[labelAb], typeA, 1⟩

def responseTo (answers : List Record) : List UInt8 :=
  (⟨0, 0x8180, 1, UInt16.ofNat answers.length, 0, 0⟩ : DNSHeader).bytes ++
    (questionAb.bytes ++ (answers.flatMap Record.bytes ++ []))

/-- The name `ab` stands for `com.ab`, which has the address 1.2.3.4. -/
def aliasAnswers : List Record :=
  [⟨⟨[], .pointer 12⟩, typeCNAME, 1, 60, (⟨[labelCom], .pointer 12⟩ : Name).bytes, by decide⟩,
    ⟨⟨[], .pointer 32⟩, typeA, 1, 60, [1, 2, 3, 4], by decide⟩]

/-- The address 1.2.3.4 with the name written out. -/
def fullAnswers : List Record := [⟨⟨[labelAb], .root⟩, typeA, 1, 60, [1, 2, 3, 4], by decide⟩]

/-- The server after a request for the name `ab`. -/
def askedServer : Server :=
  Machine.stateAfter (serverStep dottedUv) Machine.always emptyServer [queryEvent 7 97 98 client₁ jan31]

theorem askedServer_run : ∃ tr, (serverStep dottedUv).AnyRun emptyServer askedServer tr :=
  ⟨_, (Machine.run_after (serverStep dottedUv) Machine.always emptyServer _ (by decide +kernel)).1.any⟩

theorem answer_walk_example :
    loadDNSTableData [] = some emptyServer ∧ (∃ tr, (serverStep dottedUv).AnyRun emptyServer askedServer tr) ∧
      responseRow askedServer (.response 54 (received (responseTo aliasAnswers)) fun _ => jan31) = some 0 ∧
      (received (responseTo aliasAnswers)).take 54 = responseTo aliasAnswers ∧
      ValidRecords 20 aliasAnswers ∧ SeesRecords (received (responseTo aliasAnswers)) questionAb aliasAnswers ∧
      Uncached askedServer 0 ∧
      CachesFirst dottedUv askedServer 54 (received (responseTo aliasAnswers)) (fun _ => jan31) 0
        aliasAnswers := by
  obtain ⟨tr, hrun⟩ := askedServer_run
  have hload : loadDNSTableData [] = some emptyServer := rfl
  have hrow : responseRow askedServer (.response 54 (received (responseTo aliasAnswers)) fun _ => jan31) =
      some 0 := by decide +kernel
  have hmessage : (received (responseTo aliasAnswers)).take 54 = responseTo aliasAnswers := by decide
  have hvalid : ValidRecords 20 aliasAnswers := by
    refine ⟨⟨by decide, by decide, fun _ => ⟨_, rfl, ?_⟩⟩, .address rfl rfl, trivial⟩
    rintro offset ⟨⟩
    decide
  have hmiss : Uncached askedServer 0 := by decide +kernel
  have hright := (answer_walk dottedUv hload hrun hrow (by decide) hmessage rfl hvalid).mpr
    ⟨⟨by decide, by decide⟩, fun _ _ => by decide +kernel⟩
  exact ⟨hload, ⟨tr, hrun⟩, hrow, hmessage, hvalid, hright.1, hmiss, hright.2 hmiss⟩

/-- A record whose owner is written out is not seen, and its address is not cached. -/
theorem full_owner_missed :
    (∃ tr, (serverStep dottedUv).AnyRun emptyServer askedServer tr) ∧
      responseRow askedServer (.response 38 (received (responseTo fullAnswers)) fun _ => jan31) = some 0 ∧
      (received (responseTo fullAnswers)).take 38 = responseTo fullAnswers ∧ ValidRecords 20 fullAnswers ∧
      ¬ SeesRecords (received (responseTo fullAnswers)) questionAb fullAnswers ∧ Uncached askedServer 0 ∧
      ¬ CachesFirst dottedUv askedServer 38 (received (responseTo fullAnswers)) (fun _ => jan31) 0
        fullAnswers := by
  refine ⟨askedServer_run, by decide +kernel, by decide, ⟨.address rfl rfl, trivial⟩, ?_,
    by decide +kernel, ?_⟩
  · have hquestion : questionAb.bytes ++ (fullAnswers.flatMap Record.bytes ++ []) <+:
        (received (responseTo fullAnswers)).drop 12 := ⟨_, rfl⟩
    rw [seesRecords_iff hquestion]
    exact fun haligned => absurd haligned.1 (by decide)
  · rintro ⟨s', o, hs, hfirst⟩
    have hnone : (onReadResponse dottedUv askedServer 38 (received (responseTo fullAnswers))
        fun _ => jan31).map (·.2.head?.bind (cachedIn askedServer.dnsRowCount)) = some none := by decide +kernel
    have hhead : o.head? = some (.cached askedServer.dnsRowCount (askedServer.idTable 0).url
        (decimalText [1, 2, 3, 4]) 60 jan31) := hfirst
    rw [hs, Option.map_some, hhead, Option.bind_some, cachedIn, if_pos rfl] at hnone
    cases hnone

end TermCollection.Dns
