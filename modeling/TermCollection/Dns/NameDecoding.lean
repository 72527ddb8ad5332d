import Mathlib.Data.List.Infix
import Mathlib.Data.List.TakeWhile
import TermCollection.Dns.NameParsing

/-!
# Names that are read back (`ParseUrlFromData`)

A name that is written out is returned with dots between its labels. Behind a pointer the parser copies
the bytes from the first label of the target on, and so the lengths of the labels behind that one too.
-/

namespace TermCollection.Dns

variable {base url rest pre post : List UInt8} {ls ts : List Label} {l : Label} {text : CString}
variable {buffer offset : Nat}

/-! ## Names on the wire -/

/-- A name that is written out. -/
def nameBytes (ls : List Label) : List UInt8 := labels.stream ls ++ [0]

/-- A pointer to a position of the message. -/
def pointerBytes (offset : Nat) : List UInt8 := [UInt8.ofNat (192 + offset / 256), UInt8.ofNat (offset % 256)]

theorem length_nameBytes (ls : List Label) : (nameBytes ls).length = (labels.stream ls).length + 1 := by
  rw [nameBytes, List.length_append, List.length_singleton]

theorem length_pointerBytes (offset : Nat) : (pointerBytes offset).length = 2 := rfl

/-- What stands behind bytes of the message. -/
theorem start_behind {bytes : List UInt8} (h : bytes ++ rest <+: base.drop buffer) :
    rest <+: base.drop (buffer + bytes.length) := by
  have hdrop := h.drop bytes.length
  rwa [List.drop_left, List.drop_drop] at hdrop

theorem urlCopy_of_start {bytes : List UInt8} (h : bytes <+: base.drop buffer) :
    urlCopy base buffer bytes.length = bytes ++ List.replicate (bufferSize - bytes.length) 0 := by
  obtain ⟨post, hpost⟩ := h
  rw [urlCopy, ← hpost, List.take_left]

theorem fits_of_start {bytes : List UInt8} (h : bytes <+: base.drop buffer) (hpos : 0 < bytes.length) :
    buffer + bytes.length ≤ base.length := by
  have hle := h.length_le
  rw [List.length_drop] at hle
  omega

/-- What the parser returns for labels that stop. -/
theorem parse_labels {size : Int} (h₁ : 1 ≤ size) (h₂ : size ≤ 1024)
    (hfits : buffer + size.toNat ≤ base.length)
    (hurl : urlCopy base buffer size.toNat = labels.stream ls ++ rest) (hclean : ∀ l ∈ ls, 0 ∉ l.bytes)
    (hzero : 0 ∈ rest) (hstop : Stop ls rest) :
    parseUrlFromData base buffer size =
      (nameOutcome base ls rest).toOption.map fun text => some (text.takeWhile (· ≠ 0)) := by
  have hstart : StartsWith (urlCopy base buffer size.toNat) ls rest := by
    refine ⟨hurl, fun l hl => hclean l ((List.dropLast_sublist ls).subset hl), ?_⟩
    rw [hurl]
    exact List.mem_append_right _ hzero
  have hlen := strlen_some.mpr ⟨hstart.zero, rfl⟩
  rw [← toOption_checkedUrl, checkedUrl_eq h₁ h₂, if_pos hfits, hlen, orError_some, ok_bind,
    checkedUrlLoop_eq hlen (length_urlCopy buffer (by omega)) hstart hstop]
  cases nameOutcome base ls rest with
  | error overrun => rfl
  | ok text => rfl

/-! ## Texts -/

theorem takeWhile_of_clean (h : 0 ∉ text) : text.takeWhile (· ≠ 0) = text := by
  rw [List.takeWhile_eq_self_iff]
  intro c hc
  exact decide_eq_true fun hzero => h (hzero ▸ hc)

theorem dotted_cons (l : Label) (ls : List Label) :
    dotted (l :: ls) = l.bytes ++ ls.flatMap fun l => 46 :: l.bytes := by
  induction ls generalizing l with
  | nil => simp [dotted]
  | cons next ls ih =>
      rw [List.flatMap_cons, List.cons_append, ← ih next]
      simp [dotted]

theorem dotted_append (hls : ls ≠ []) (ts : List Label) :
    dotted (ls ++ ts) = dotted ls ++ ts.flatMap fun l => 46 :: l.bytes := by
  obtain ⟨l, ls, rfl⟩ := List.exists_cons_of_ne_nil hls
  rw [List.cons_append, dotted_cons, dotted_cons, List.flatMap_append, List.append_assoc]

theorem length_dotted (hls : ls ≠ []) : (dotted ls).length + 1 = (labels.stream ls).length := by
  rw [← List.dropLast_append_getLast hls]
  exact length_dotted_concat _ _

theorem zero_not_mem_dotted (hclean : ∀ l ∈ ls, 0 ∉ l.bytes) : 0 ∉ dotted ls := by
  cases ls with
  | nil => exact List.not_mem_nil
  | cons l ls =>
      rw [dotted_cons, List.mem_append]
      rintro (hmem | hmem)
      · exact hclean l List.mem_cons_self hmem
      · obtain ⟨l', hl', hzero⟩ := List.mem_flatMap.mp hmem
        rcases List.mem_cons.mp hzero with hdot | hbytes
        · exact absurd hdot (by decide)
        · exact hclean l' (List.mem_cons_of_mem _ hl') hbytes

/-! ## Names that are written out -/

def labelWww : Label := ⟨[119, 119, 119], by decide, by decide⟩

def labelCom : Label := ⟨[99, 111, 109], by decide, by decide⟩

/-- Labels without a zero, whose encoding takes at most 255 bytes, are returned with single dots between
them, and the root as the empty text. -/
theorem question_name_decodes (ls : List Label) (pre post : List UInt8) (hclean : ∀ l ∈ ls, 0 ∉ l.bytes)
    (hsize : (nameBytes ls).length ≤ 255) :
    parseUrlFromData (pre ++ (nameBytes ls ++ post)) pre.length (nameBytes ls).length =
      some (some (dotted ls)) := by
  have hpos := length_nameBytes ls
  have hname : nameBytes ls <+: (pre ++ (nameBytes ls ++ post)).drop pre.length := by
    rw [List.drop_left]
    exact List.prefix_append _ _
  have hurl : urlCopy (pre ++ (nameBytes ls ++ post)) pre.length (nameBytes ls).length =
      labels.stream ls ++ 0 :: List.replicate (bufferSize - (nameBytes ls).length) 0 := by
    rw [urlCopy_of_start hname, nameBytes, List.append_assoc, List.singleton_append]
  rw [parse_labels (by omega) (by omega) (fits_of_start hname (by omega)) hurl hclean List.mem_cons_self
    (.root _), nameOutcome, if_pos rfl, toOption_ok, Option.map_some,
    takeWhile_of_clean (zero_not_mem_dotted hclean)]

/-- The name `www.com` behind a header. -/
theorem question_name_decodes_example : (∀ l ∈ [labelWww, labelCom], 0 ∉ l.bytes) ∧
    (nameBytes [labelWww, labelCom]).length ≤ 255 ∧
    parseUrlFromData (List.replicate 12 0 ++ (nameBytes [labelWww, labelCom] ++ [0, 1, 0, 1]))
      (List.replicate 12 0).length (nameBytes [labelWww, labelCom]).length =
        some (some (dotted [labelWww, labelCom])) :=
  ⟨by decide, by decide, question_name_decodes _ _ _ (by decide) (by decide)⟩

/-! ## Names with a pointer -/

/-- At a position of the message stand labels and a pointer, and where it points, earlier in the message,
stands a name that is written out. -/
structure CompressedAt (base : List UInt8) (buffer offset : Nat) (ls ts : List Label) : Prop where
  name : labels.stream ls ++ pointerBytes offset <+: base.drop buffer
  target : nameBytes ts <+: base.drop offset
  earlier : offset + (nameBytes ts).length ≤ buffer
  short : offset < 16384
  clean : ∀ l ∈ ls ++ ts, 0 ∉ l.bytes
  nonempty : ts ≠ []

theorem two_le_stream (hne : ts ≠ []) : 2 ≤ (labels.stream ts).length := by
  obtain ⟨t, ts, rfl⟩ := List.exists_cons_of_ne_nil hne
  have hpos := t.pos
  rw [Framing.stream_cons, frame_label, List.cons_append, List.length_cons, List.length_append]
  omega

/-- What the parser makes of labels and a pointer. -/
def copiedName (ls ts : List Label) : CString := dotted ls ++ 46 :: (labels.stream ts).tail

theorem pointer_high (h : offset < 16384) : 192 ≤ UInt8.ofNat (192 + offset / 256) ∧
    (UInt8.ofNat (192 + offset / 256)).toNat = 192 + offset / 256 := by
  have hnat : (UInt8.ofNat (192 + offset / 256)).toNat = 192 + offset / 256 := by
    rw [UInt8.toNat_ofNat']
    omega
  refine ⟨?_, hnat⟩
  rw [UInt8.le_iff_toNat_le, hnat]
  exact Nat.le_add_right _ _

theorem pointer_target (h : offset < 16384) :
    ((UInt8.ofNat (192 + offset / 256)).toNat - 192) * 256 + (UInt8.ofNat (offset % 256)).toNat = offset := by
  rw [(pointer_high h).2, UInt8.toNat_ofNat']
  omega

/-- The string that a pointer leads to starts behind the length of the first label. -/
theorem cstringAt_target (hname : nameBytes ts <+: base.drop offset) (hclean : ∀ l ∈ ts, 0 ∉ l.bytes)
    (hne : ts ≠ []) : cstringAt base (offset + 1) = some (labels.stream ts).tail := by
  obtain ⟨t, ts, rfl⟩ := List.exists_cons_of_ne_nil hne
  obtain ⟨post, hpost⟩ := hname
  have hdrop : base.drop (offset + 1) = (labels.stream (t :: ts)).tail ++ 0 :: post := by
    rw [← List.drop_drop, ← hpost, nameBytes, Framing.stream_cons, frame_label]
    simp
  have hzero : 0 ∉ (labels.stream (t :: ts)).tail := fun hmem =>
    zero_not_mem_stream hclean (List.mem_of_mem_tail hmem)
  have hlen : strlen (base.drop (offset + 1)) = some (labels.stream (t :: ts)).tail.length := by
    rw [hdrop, strlen_some]
    refine ⟨by simp, ?_⟩
    rw [List.idxOf_append_of_notMem hzero, List.idxOf_cons_self, Nat.add_zero]
  rw [cstringAt, hlen, Option.bind_eq_bind, Option.bind_some, hdrop, List.take_left]

/-- The parser follows the pointer when the copied bytes fit into its result. -/
theorem nameOutcome_pointer (h : CompressedAt base buffer offset ls ts) :
    (nameOutcome base ls (pointerBytes offset ++ rest)).toOption =
      if (dotted ls).length + (labels.stream ts).length < 1023 then some (copiedName ls ts) else none := by
  have hhigh := (pointer_high h.short).1
  have hne : UInt8.ofNat (192 + offset / 256) ≠ 0 := by
    intro hzero
    rw [hzero] at hhigh
    exact absurd hhigh (by decide)
  have hcopy := cstringAt_target h.target (fun l hl => h.clean l (List.mem_append_right _ hl)) h.nonempty
  have hroom : bufferSize - (dotted ls).length - 2 = bufferSize - (dotted ls ++ [46]).length - 1 := by
    rw [List.length_append, List.length_singleton]
    omega
  have htwo := two_le_stream h.nonempty
  have hfits : (dotted ls ++ [46]).length + (labels.stream ts).tail.length + 2 ≤ bufferSize ↔
      (dotted ls).length + (labels.stream ts).length < 1023 := by
    rw [List.length_append, List.length_singleton, List.length_tail, bufferSize]
    omega
  rw [pointerBytes, List.cons_append, nameOutcome, if_neg hne, if_pos hhigh, List.singleton_append,
    List.head?_cons, orError_some, ok_bind, pointer_target h.short, hroom]
  refine (toOption_strcpyS (offset + 1)).trans ?_
  rw [hcopy, Option.bind_some, if_congr hfits rfl rfl, copiedName, List.append_assoc, List.singleton_append]

theorem room_of_dotted (h : CompressedAt base buffer offset ls ts)
    (hroom : (dotted ls).length + (labels.stream ts).length < 1023) :
    (labels.stream ls).length + 2 < 1024 := by
  have htwo := two_le_stream h.nonempty
  by_cases hls : ls = []
  · subst hls
    exact (by decide : (labels.stream []).length + 2 < 1024)
  · have hdotted := length_dotted hls
    omega

theorem zero_not_mem_copiedName (hclean : ∀ l ∈ ls ++ ts, 0 ∉ l.bytes) : 0 ∉ copiedName ls ts := by
  rw [copiedName, List.mem_append, List.mem_cons]
  rintro (hls | hdot | hts)
  · exact zero_not_mem_dotted (fun l hl => hclean l (List.mem_append_left _ hl)) hls
  · exact absurd hdot (by decide)
  · exact zero_not_mem_stream (fun l hl => hclean l (List.mem_append_right _ hl)) (List.mem_of_mem_tail hts)

/-- The lengths behind the first label of the target are dots just when each is the number of the dot. -/
theorem stream_eq_dots : (labels.stream ts = ts.flatMap fun l => 46 :: l.bytes) ↔
    ∀ l ∈ ts, l.bytes.length = 46 := by
  induction ts with
  | nil => simp [Framing.stream]
  | cons t ts ih =>
      have hsize : UInt8.ofNat t.bytes.length = 46 ↔ t.bytes.length = 46 := by
        rw [← UInt8.toNat_inj, t.size_toNat]
        rfl
      rw [Framing.stream_cons, frame_label, List.flatMap_cons, List.cons_append, List.cons_append,
        List.cons.injEq, List.append_cancel_left_eq, hsize, ih, List.forall_mem_cons]

/-- The copied bytes are the dotted name if and only if there are labels before the pointer, and each
label of the target behind the first one has 46 bytes. -/
theorem copiedName_eq (hne : ts ≠ []) : copiedName ls ts = dotted (ls ++ ts) ↔
    ls ≠ [] ∧ ∀ l ∈ ts.tail, l.bytes.length = 46 := by
  obtain ⟨t, ts, rfl⟩ := List.exists_cons_of_ne_nil hne
  by_cases hls : ls = []
  · subst hls
    have hopen := length_dotted (List.cons_ne_nil t ts)
    refine iff_of_false (fun heq => ?_) fun h => h.1 rfl
    have hlength := congrArg List.length heq
    rw [copiedName, List.nil_append, List.length_append, List.length_cons, List.length_tail] at hlength
    omega
  · rw [copiedName, dotted_append hls, List.append_cancel_left_eq, List.flatMap_cons, Framing.stream_cons,
      frame_label, List.cons_append, List.cons_append, List.tail_cons, List.cons.injEq,
      List.append_cancel_left_eq, stream_eq_dots]
    simp [hls]

/-- The parser returns the copied bytes when there is room for them. -/
theorem parse_compressed (h : CompressedAt base buffer offset ls ts) :
    parseUrlFromData base buffer ((labels.stream ls).length + 2) = some (some text) ↔
      copiedName ls ts = text ∧ (dotted ls).length + (labels.stream ts).length < 1023 ∧
        (labels.stream ls).length + 2 < 1024 := by
  have hname : (labels.stream ls ++ pointerBytes offset).length = (labels.stream ls).length + 2 := by
    rw [List.length_append, length_pointerBytes]
  have hclean : ∀ l ∈ ls, 0 ∉ l.bytes := fun l hl => h.clean l (List.mem_append_left _ hl)
  by_cases hsize : (labels.stream ls).length + 2 ≤ 1024
  · have hpos := fits_of_start h.name (by omega)
    have htoNat : ((labels.stream ls).length + 2 : Int).toNat =
        (labels.stream ls ++ pointerBytes offset).length := by omega
    have hurl : urlCopy base buffer ((labels.stream ls).length + 2 : Int).toNat = labels.stream ls ++
        (pointerBytes offset ++ List.replicate (bufferSize - ((labels.stream ls).length + 2)) 0) := by
      rw [htoNat, urlCopy_of_start h.name, hname, List.append_assoc]
    by_cases hzero : 0 ∈ pointerBytes offset ++
        List.replicate (bufferSize - ((labels.stream ls).length + 2)) 0
    · rw [parse_labels (by omega) (by omega) (by omega) hurl hclean hzero
        (.pointer _ _ (pointer_high h.short).1), nameOutcome_pointer h]
      split
      · rename_i hroom
        rw [Option.map_some, takeWhile_of_clean (zero_not_mem_copiedName h.clean), Option.some.injEq,
          Option.some.injEq]
        exact (and_iff_left ⟨hroom, room_of_dotted h hroom⟩).symm
      · rename_i hroom
        exact iff_of_false (by simp) fun hright => hroom hright.2.1
    · -- the copy fills the buffer, so that its string has no end
      refine iff_of_false (fun hparse => ?_) fun hright => hzero ?_
      · obtain ⟨-, text, ⟨ls', rest', hstart, -⟩, -⟩ :=
          (parseUrlFromData_eq_some (by omega) (by omega)).mp hparse
        have hmem := hstart.zero
        rw [hurl, List.mem_append] at hmem
        exact hmem.elim (zero_not_mem_stream hclean) hzero
      · have hleft := hright.2.2
        refine List.mem_append_right _ (List.mem_replicate.mpr ⟨?_, rfl⟩)
        rw [bufferSize]
        omega
  · rw [parseUrlFromData, if_pos (by omega)]
    exact iff_of_false (by simp) fun hright => by omega

/-- A compressed name is decoded if and only if there are labels before the pointer, each label of the
target behind the first one has 46 bytes, and both parts take less than 1024 bytes. -/
theorem compressed_name_decodes (h : CompressedAt base buffer offset ls ts) :
    parseUrlFromData base buffer ((labels.stream ls).length + 2) = some (some (dotted (ls ++ ts))) ↔
      ls ≠ [] ∧ (∀ l ∈ ts.tail, l.bytes.length = 46) ∧
        (labels.stream ls).length + (labels.stream ts).length < 1024 := by
  have htwo := two_le_stream h.nonempty
  rw [parse_compressed h, copiedName_eq h.nonempty, and_assoc]
  refine and_congr_right fun hls => and_congr_right fun _ => ?_
  have hdotted := length_dotted hls
  omega

/-- A header, a name, and the name `www` with a pointer to it. -/
def withPointer (ts : List Label) : List UInt8 :=
  List.replicate 12 0 ++ nameBytes ts ++ (labels.stream [labelWww] ++ pointerBytes 12)

theorem compressed_name_decodes_example : CompressedAt (withPointer [labelCom]) 17 12 [labelWww] [labelCom] ∧
    (parseUrlFromData (withPointer [labelCom]) 17 ((labels.stream [labelWww]).length + 2) =
        some (some (dotted [labelWww, labelCom])) ↔
      [labelWww] ≠ [] ∧ (∀ l ∈ [labelCom].tail, l.bytes.length = 46) ∧
        (labels.stream [labelWww]).length + (labels.stream [labelCom]).length < 1024) := by
  have hat : CompressedAt (withPointer [labelCom]) 17 12 [labelWww] [labelCom] :=
    ⟨by decide, by decide, by decide, by decide, by decide, by simp⟩
  exact ⟨hat, compressed_name_decodes hat⟩

/-- The name `www.com.com` comes out with the length of its last label in place of a dot, and a name that
is a pointer alone with a dot before it. -/
theorem compressed_name_garbled :
    (CompressedAt (withPointer [labelCom, labelCom]) 21 12 [labelWww] [labelCom, labelCom] ∧
      parseUrlFromData (withPointer [labelCom, labelCom]) 21 ((labels.stream [labelWww]).length + 2) ≠
        some (some (dotted [labelWww, labelCom, labelCom]))) ∧
    CompressedAt (withPointer [labelCom]) 21 12 [] [labelCom] ∧
      parseUrlFromData (withPointer [labelCom]) 21 ((labels.stream []).length + 2) ≠
        some (some (dotted [labelCom])) := by
  have hat : CompressedAt (withPointer [labelCom, labelCom]) 21 12 [labelWww] [labelCom, labelCom] :=
    ⟨by decide, by decide, by decide, by decide, by decide, by simp⟩
  have hat' : CompressedAt (withPointer [labelCom]) 21 12 [] [labelCom] :=
    ⟨by decide, by decide, by decide, by decide, by decide, by simp⟩
  refine ⟨⟨hat, fun hparse => ?_⟩, hat', fun hparse => ?_⟩
  · have hcopied := ((parse_compressed hat).mp hparse).1
    exact absurd hcopied (by decide)
  · have hcopied := ((parse_compressed hat').mp hparse).1
    exact absurd hcopied (by decide)

end TermCollection.Dns
