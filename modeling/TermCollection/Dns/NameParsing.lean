import TermCollection.Dns.Names

/-!
# The end of the parser

The parser returns if and only if the labels come to a zero or to a pointer that it can follow. It reads
outside the message if and only if a pointer leads to a string that does not end there.
-/

namespace TermCollection.Dns

variable {base url rest : List UInt8} {text : CString} {len fuel : Nat}

/-! ## The loop on a name -/

theorem getElem?_stream (pre : List UInt8) (c : UInt8) (post : List UInt8) :
    (pre ++ c :: post)[pre.length]? = some c := by
  rw [List.getElem?_append_right (Nat.le_refl _), Nat.sub_self, List.getElem?_cons_zero]

theorem checkedUrlLoop_done {i : Nat} (out : List UInt8) (h : len ≤ i) :
    checkedUrlLoop base url len (fuel + 1) i out = .ok out := by
  rw [checkedUrlLoop, if_neg (Nat.not_lt.mpr h)]

theorem checkedUrlLoop_tail {i : Nat} {c : UInt8} (out : List UInt8) (h : i < len)
    (hc : url[i]? = some c) (hlabel : ¬ (0 < c ∧ c ≤ 63)) :
    checkedUrlLoop base url len (fuel + 1) i out =
      urlTail base url (checkedUrlLoop base url len fuel) i out := by
  rw [checkedUrlLoop, if_pos h, hc, orError_some, ok_bind, if_neg hlabel]

/-- The byte under the cursor is not passed. -/
theorem checkedUrlLoop_stuck {i : Nat} {c : UInt8} (out : List UInt8) (h : i < len)
    (hc : url[i]? = some c) (hlow : 63 < c) (hhigh : c < 192) :
    checkedUrlLoop base url len fuel i out = .error .name := by
  induction fuel generalizing out with
  | zero => rfl
  | succ fuel ih =>
      have hne : c ≠ 0 := by
        rintro rfl
        exact absurd hlow (by decide)
      rw [checkedUrlLoop_tail out h hc fun hlabel => absurd hlabel.2 (UInt8.not_le.mpr hlow), urlTail, hc,
        orError_some, ok_bind, if_pos hne, if_neg (UInt8.not_le.mpr hhigh), ih, ite_self]

/-- A label that is longer than what is left. -/
theorem checkedUrlLoop_short {i : Nat} {c : UInt8} (out : List UInt8) (h : i < len)
    (hc : url[i]? = some c) (hlabel : 0 < c ∧ c ≤ 63) (hshort : url.length < i + 1 + c.toNat) :
    checkedUrlLoop base url len fuel i out = .error .name := by
  cases fuel with
  | zero => rfl
  | succ fuel =>
      have hslice : slice url (i + 1) c.toNat = none := if_neg (Nat.not_le.mpr hshort)
      rw [checkedUrlLoop, if_pos h, hc, orError_some, ok_bind, if_pos hlabel, hslice]
      rfl

/-- One label is copied. -/
theorem checkedUrlLoop_label {ls : List Label} {l : Label} {post : List UInt8}
    (hlen : strlen url = some len) (hsize : url.length ≤ bufferSize)
    (hurl : url = labels.stream (ls ++ [l]) ++ post) (hclean : ∀ l ∈ ls, 0 ∉ l.bytes) :
    checkedUrlLoop base url len (fuel + 1) (labels.stream ls).length (dottedOpen ls) =
      urlTail base url (checkedUrlLoop base url len fuel) (labels.stream (ls ++ [l])).length
        (dotted (ls ++ [l])) := by
  have hsplit : url = labels.stream ls ++ UInt8.ofNat l.bytes.length :: (l.bytes ++ post) := by
    rw [hurl, stream_concat, List.append_assoc, List.cons_append]
  have hi : (labels.stream ls).length < len := by
    rw [hsplit] at hlen
    exact lt_strlen (zero_not_mem_stream hclean) (UInt8.pos_iff_ne_zero.mp l.size_pos) hlen
  have hc : url[(labels.stream ls).length]? = some (UInt8.ofNat l.bytes.length) := by
    rw [hsplit]
    exact getElem?_stream _ _ _
  have hslice : slice url ((labels.stream ls).length + 1) (UInt8.ofNat l.bytes.length).toNat =
      some l.bytes := by
    have hcopy := slice_append (labels.stream ls ++ [UInt8.ofNat l.bytes.length]) l.bytes post
    rw [List.append_assoc, List.singleton_append, ← hsplit, List.length_append,
      List.length_singleton] at hcopy
    rw [l.size_toNat]
    exact hcopy
  have hnext : (labels.stream ls).length + 1 + (UInt8.ofNat l.bytes.length).toNat =
      (labels.stream (ls ++ [l])).length := by
    rw [l.size_toNat, stream_concat, List.length_append, List.length_cons]
    omega
  have hroom : (dottedOpen ls).length + l.bytes.length < bufferSize := by
    have hdotted := length_dotted_concat ls l
    rw [dotted_concat, List.length_append] at hdotted
    rw [hurl, List.length_append] at hsize
    omega
  rw [checkedUrlLoop, if_pos hi, hc, orError_some, ok_bind, if_pos ⟨l.size_pos, l.size_le⟩, hslice,
    orError_some, ok_bind, if_pos hroom, hnext, dotted_concat]

/-- The labels are copied up to the last one. -/
theorem checkedUrlLoop_labels {done todo : List Label} {l : Label} (hlen : strlen url = some len)
    (hsize : url.length ≤ bufferSize) (hurl : url = labels.stream (done ++ l :: todo) ++ rest)
    (hclean : ∀ l' ∈ (done ++ l :: todo).dropLast, 0 ∉ l'.bytes) :
    checkedUrlLoop base url len (fuel + todo.length + 1) (labels.stream done).length (dottedOpen done) =
      urlTail base url (checkedUrlLoop base url len fuel) (labels.stream (done ++ l :: todo)).length
        (dotted (done ++ l :: todo)) := by
  induction todo generalizing done l with
  | nil =>
      rw [List.dropLast_concat] at hclean
      exact checkedUrlLoop_label hlen hsize hurl hclean
  | cons next todo ih =>
      have hassoc : done ++ l :: next :: todo = (done ++ [l]) ++ next :: todo := List.append_cons ..
      have hcleanNext : ∀ l' ∈ done ++ [l], 0 ∉ l'.bytes := by
        intro l' hl'
        refine hclean l' ?_
        rw [hassoc, List.dropLast_append_of_ne_nil (List.cons_ne_nil _ _)]
        exact List.mem_append_left _ hl'
      rw [hassoc] at hurl hclean ⊢
      have hsplit : url = labels.stream (done ++ [l]) ++
          UInt8.ofNat next.bytes.length :: (next.bytes ++ (labels.stream todo ++ rest)) := by
        rw [hurl, Framing.stream_append, Framing.stream_cons, frame_label, List.append_assoc,
          List.append_assoc, List.cons_append]
      have hc : url[(labels.stream (done ++ [l])).length]? = some (UInt8.ofNat next.bytes.length) := by
        rw [hsplit]
        exact getElem?_stream _ _ _
      have hlow : ¬ 192 ≤ UInt8.ofNat next.bytes.length := fun h =>
        absurd (UInt8.le_trans h next.size_le) (by decide)
      have hroom : (dotted (done ++ [l])).length + 1 < bufferSize := by
        rw [hsplit, List.length_append, List.length_cons, ← length_dotted_concat] at hsize
        omega
      rw [← ih hurl hclean, List.length_cons, ← Nat.add_assoc,
        checkedUrlLoop_label hlen hsize hsplit fun l' hl' => hcleanNext l' (List.mem_append_left _ hl'),
        urlTail, hc, orError_some, ok_bind, if_pos (UInt8.pos_iff_ne_zero.mp next.size_pos), if_neg hlow,
        if_pos hroom, ← dottedOpen_concat]

/-- A zero that was copied or comes next is the end of the string. -/
theorem len_le {pre post : List UInt8} (hlen : strlen (pre ++ post) = some len)
    (hzero : 0 ∈ pre ∨ ∃ cs, post = 0 :: cs) : len ≤ pre.length := by
  rcases hzero with hmem | ⟨cs, rfl⟩
  · exact Nat.le_of_lt (strlen_lt hmem hlen)
  · rw [List.append_cons] at hlen
    have hlt := strlen_lt (by simp) hlen
    rw [List.length_append, List.length_singleton] at hlt
    omega

theorem urlTail_byte {loop : Nat → List UInt8 → Except Overrun (List UInt8)} {pre post : List UInt8}
    {c : UInt8} (out : List UInt8) (hc : c ≠ 0) (hhigh : c < 192) :
    urlTail base (pre ++ c :: post) loop pre.length out =
      if out.length + 1 < bufferSize then loop pre.length (out ++ [46]) else .error .name := by
  rw [urlTail, getElem?_stream, orError_some, ok_bind, if_pos hc, if_neg (UInt8.not_le.mpr hhigh)]

/-- Bytes that are not passed are no name. -/
theorem nameOutcome_clean {ls : List Label} {c : UInt8} (hclean : ∀ l ∈ ls, 0 ∉ l.bytes) (hc : c ≠ 0)
    (hhigh : c < 192) : nameOutcome base ls (c :: rest) = .error .name := by
  rw [nameOutcome, if_neg hc, if_neg (UInt8.not_le.mpr hhigh), if_neg]
  rintro ⟨last, hlast, hcut⟩
  exact hclean last (List.mem_of_getLast? hlast) hcut

theorem urlTail_stop {ls : List Label} (hlen : strlen url = some len) (hsize : url.length ≤ bufferSize)
    (hurl : url = labels.stream ls ++ rest) (hstop : Stop ls rest) :
    urlTail base url (checkedUrlLoop base url len (fuel + 1)) (labels.stream ls).length (dotted ls) =
      nameOutcome base ls rest := by
  subst hurl
  cases hstop with
  | nil =>
      rw [urlTail, List.getElem?_eq_none (by simp)]
      rfl
  | root post =>
      rw [urlTail, getElem?_stream, orError_some, ok_bind, if_neg (not_not.mpr rfl),
        checkedUrlLoop_done _ (len_le hlen (.inr ⟨post, rfl⟩)), nameOutcome, if_pos rfl]
  | pointer c post hhigh =>
      have hne : c ≠ 0 := by
        rintro rfl
        exact absurd hhigh (by decide)
      have hlow : (labels.stream ls ++ c :: post)[(labels.stream ls).length + 1]? = post.head? := by
        rw [List.getElem?_append_right (by omega), Nat.add_sub_cancel_left, List.getElem?_cons_succ,
          List.head?_eq_getElem?]
      have hroom : bufferSize - (dotted ls ++ [46]).length - 1 = bufferSize - (dotted ls).length - 2 := by
        rw [List.length_append, List.length_singleton]
        omega
      rw [urlTail, getElem?_stream, orError_some, ok_bind, if_pos hne, if_pos hhigh, hlow,
        nameOutcome, if_neg hne, if_pos hhigh, ← hroom]
  | cut c post last hlast hcut hzero hhigh =>
      obtain ⟨init, rfl⟩ := List.getLast?_eq_some_iff.mp hlast
      have hroom : (dotted (init ++ [last])).length + 1 < bufferSize := by
        rw [List.length_append, List.length_cons, ← length_dotted_concat] at hsize
        omega
      have hend : 0 ∈ labels.stream (init ++ [last]) := by
        rw [stream_concat]
        exact List.mem_append_right _ (List.mem_cons_of_mem _ hcut)
      rw [urlTail_byte _ hzero hhigh, if_pos hroom, checkedUrlLoop_done _ (len_le hlen (.inl hend)),
        nameOutcome, if_neg hzero, if_neg (UInt8.not_le.mpr hhigh), if_pos ⟨last, hlast, hcut⟩]
  | stuck c post hclean hlow hhigh =>
      have hne : c ≠ 0 := by
        rintro rfl
        exact absurd hlow (by decide)
      have hi := lt_strlen (zero_not_mem_stream hclean) hne hlen
      rw [urlTail_byte _ hne hhigh, checkedUrlLoop_stuck _ hi (getElem?_stream _ _ _) hlow hhigh, ite_self,
        nameOutcome_clean hclean hne hhigh]
  | short c post hclean hpos hle hshort =>
      have hne := UInt8.pos_iff_ne_zero.mp hpos
      have hhigh : c < 192 := UInt8.lt_of_le_of_lt hle (by decide)
      have hi := lt_strlen (zero_not_mem_stream hclean) hne hlen
      have hlong : (labels.stream ls ++ c :: post).length < (labels.stream ls).length + 1 + c.toNat := by
        rw [List.length_append, List.length_cons]
        omega
      rw [urlTail_byte _ hne hhigh, checkedUrlLoop_short _ hi (getElem?_stream _ _ _) ⟨hpos, hle⟩ hlong,
        ite_self, nameOutcome_clean hclean hne hhigh]

/-- Without labels. -/
theorem checkedUrlLoop_head (hlen : strlen url = some len) (hsize : url.length ≤ bufferSize)
    (hstop : Stop [] url) : checkedUrlLoop base url len (fuel + 2) 0 [] = nameOutcome base [] url := by
  have hempty : url = labels.stream [] ++ url := rfl
  have htail : ∀ {c post}, url = c :: post → c ≠ 0 → ¬ (0 < c ∧ c ≤ 63) →
      checkedUrlLoop base url len (fuel + 2) 0 [] = nameOutcome base [] url := by
    intro c post hurl hne hlabel
    have hlt : ([] : List UInt8).length < len := lt_strlen List.not_mem_nil hne (hurl ▸ hlen)
    have hi : 0 < len := hlt
    have hc : url[0]? = some c := by rw [hurl, List.getElem?_cons_zero]
    rw [checkedUrlLoop_tail [] hi hc hlabel]
    exact urlTail_stop hlen hsize hempty hstop
  cases hstop with
  | nil => cases hlen
  | root post =>
      rw [strlen, if_pos rfl, Option.some.injEq] at hlen
      exact checkedUrlLoop_done [] (Nat.le_of_eq hlen.symm)
  | pointer c post hhigh =>
      refine htail rfl ?_ fun hlabel => absurd (UInt8.le_trans hhigh hlabel.2) (by decide)
      rintro rfl
      exact absurd hhigh (by decide)
  | cut c post last hlast => cases hlast
  | stuck c post hclean hlow hhigh =>
      refine htail rfl ?_ fun hlabel => absurd hlabel.2 (UInt8.not_le.mpr hlow)
      rintro rfl
      exact absurd hlow (by decide)
  | short c post hclean hpos hle hshort =>
      have hne := UInt8.pos_iff_ne_zero.mp hpos
      have hlt : ([] : List UInt8).length < len := lt_strlen List.not_mem_nil hne hlen
      have hi : 0 < len := hlt
      rw [nameOutcome_clean hclean hne (UInt8.lt_of_le_of_lt hle (by decide))]
      refine checkedUrlLoop_short [] hi rfl ⟨hpos, hle⟩ ?_
      rw [List.length_cons]
      omega

theorem length_le_stream (ls : List Label) : ls.length ≤ (labels.stream ls).length := by
  induction ls with
  | nil => exact Nat.le_refl _
  | cons l ls ih =>
      rw [Framing.stream_cons, List.length_append, frame_label, List.length_cons, List.length_cons]
      omega

/-- What the loop comes to, for labels that stop. -/
theorem checkedUrlLoop_eq {ls : List Label} (hlen : strlen url = some len) (hsize : url.length ≤ bufferSize)
    (hstart : StartsWith url ls rest) (hstop : Stop ls rest) :
    checkedUrlLoop base url len (2 * bufferSize) 0 [] = nameOutcome base ls rest := by
  cases ls with
  | nil =>
      have hurl : url = rest := hstart.eq
      have hfuel : 2 * bufferSize = 2046 + 2 := rfl
      rw [hfuel, ← hurl]
      exact checkedUrlLoop_head hlen hsize (hurl ▸ hstop)
  | cons l todo =>
      have hcount : todo.length + 2 ≤ 2 * bufferSize := by
        have hle := length_le_stream (l :: todo)
        have hurl := congrArg List.length hstart.eq
        have hbuffer : bufferSize = 1024 := rfl
        rw [List.length_append] at hurl
        rw [List.length_cons] at hle
        omega
      obtain ⟨fuel, hfuel⟩ : ∃ fuel, 2 * bufferSize = fuel + 1 + todo.length + 1 :=
        ⟨2 * bufferSize - todo.length - 2, by omega⟩
      have hall : url = labels.stream ([] ++ l :: todo) ++ rest := hstart.eq
      rw [hfuel]
      exact (checkedUrlLoop_labels hlen hsize hall hstart.clean).trans
        (urlTail_stop hlen hsize hstart.eq hstop)

theorem checkedUrlLoop_iff {r : Except Overrun CString} (hlen : strlen url = some len)
    (hsize : url.length ≤ bufferSize) (hr : r ≠ .error .name) :
    checkedUrlLoop base url len (2 * bufferSize) 0 [] = r ↔
      ∃ ls rest, StartsWith url ls rest ∧ nameOutcome base ls rest = r := by
  constructor
  · intro h
    have hempty : url = labels.stream [] ++ url := rfl
    obtain ⟨ls, rest, hstart, hstop⟩ := exists_stop (strlen_some.mp hlen).1 hempty (by simp)
    exact ⟨ls, rest, hstart, (checkedUrlLoop_eq hlen hsize hstart hstop).symm.trans h⟩
  · rintro ⟨ls, rest, hstart, rfl⟩
    exact checkedUrlLoop_eq hlen hsize hstart (stop_of_outcome hr)

/-! ## The parser -/

/-- The copy of the bytes from a position on. -/
def urlCopy (base : List UInt8) (buffer size : Nat) : List UInt8 :=
  (base.drop buffer).take size ++ List.replicate (bufferSize - size) 0

theorem length_urlCopy (buffer : Nat) {size : Nat} (hsize : size ≤ 1024) :
    (urlCopy base buffer size).length ≤ bufferSize := by
  have hbuffer : bufferSize = 1024 := rfl
  rw [urlCopy, List.length_append, List.length_take, List.length_drop, List.length_replicate]
  omega

theorem checkedUrl_eq {buffer : Nat} {size : Int} (h₁ : 1 ≤ size) (h₂ : size ≤ 1024) :
    checkedUrl base buffer size =
      if buffer + size.toNat ≤ base.length then do
        let len ← orError .name (strlen (urlCopy base buffer size.toNat))
        let result ← checkedUrlLoop base (urlCopy base buffer size.toNat) len (2 * bufferSize) 0 []
        .ok (some (result.takeWhile (· ≠ 0)))
      else .error .datagram := by
  rw [checkedUrl, if_neg (by omega), slice]
  split
  · rename_i hfits
    have hlength : ((base.drop buffer).take size.toNat).length = size.toNat := by
      rw [List.length_take, List.length_drop]
      omega
    rw [orError_some, ok_bind, hlength]
    rfl
  · rfl

/-- The parser returns the name that the bytes start with, up to a zero in it. -/
theorem checkedUrl_eq_ok {buffer : Nat} {size : Int} {name : Option CString} (h₁ : 1 ≤ size)
    (h₂ : size ≤ 1024) :
    checkedUrl base buffer size = .ok name ↔ buffer + size.toNat ≤ base.length ∧
      ∃ text, Spells base (urlCopy base buffer size.toNat) text ∧ some (text.takeWhile (· ≠ 0)) = name := by
  rw [checkedUrl_eq h₁ h₂]
  split
  · rename_i hfits
    have hsize : (urlCopy base buffer size.toNat).length ≤ bufferSize := length_urlCopy buffer (by omega)
    simp only [bind_ok, orError_ok, Except.ok.injEq, and_iff_right hfits]
    constructor
    · rintro ⟨len, hlen, text, hloop, rfl⟩
      exact ⟨text, (checkedUrlLoop_iff hlen hsize (by simp)).mp hloop, rfl⟩
    · rintro ⟨text, ⟨ls, rest, hstart, hend⟩, rfl⟩
      have hlen := strlen_some.mpr ⟨hstart.zero, rfl⟩
      exact ⟨_, hlen, text, (checkedUrlLoop_iff hlen hsize (by simp)).mpr ⟨ls, rest, hstart, hend⟩, rfl⟩
  · rename_i hfits
    exact iff_of_false (by simp) fun h => hfits h.1

/-- The parser returns if and only if the bytes are in the message and start with a name. -/
theorem checkedUrl_ok {buffer : Nat} {size : Int} (h₁ : 1 ≤ size) (h₂ : size ≤ 1024) :
    (∃ name, checkedUrl base buffer size = .ok name) ↔
      buffer + size.toNat ≤ base.length ∧ ∃ text, Spells base (urlCopy base buffer size.toNat) text := by
  simp only [checkedUrl_eq_ok h₁ h₂]
  constructor
  · rintro ⟨name, hfits, text, hspells, -⟩
    exact ⟨hfits, text, hspells⟩
  · rintro ⟨hfits, text, hspells⟩
    exact ⟨_, hfits, text, hspells, rfl⟩

theorem parseUrlFromData_eq_some {buffer : Nat} {size : Int} {name : Option CString} (h₁ : 1 ≤ size)
    (h₂ : size ≤ 1024) :
    parseUrlFromData base buffer size = some name ↔ buffer + size.toNat ≤ base.length ∧
      ∃ text, Spells base (urlCopy base buffer size.toNat) text ∧ some (text.takeWhile (· ≠ 0)) = name := by
  rw [← checkedUrl_eq_ok h₁ h₂, ← toOption_checkedUrl, toOption_eq_some]

/-- The parser reads outside the message if and only if the bytes or a pointer among them do. -/
theorem checkedUrl_datagram {buffer : Nat} {size : Int} (h₁ : 1 ≤ size) (h₂ : size ≤ 1024) :
    checkedUrl base buffer size = .error .datagram ↔
      ¬ (buffer + size.toNat ≤ base.length) ∨ PointsOutside base (urlCopy base buffer size.toNat) := by
  rw [checkedUrl_eq h₁ h₂]
  split
  · rename_i hfits
    have hsize : (urlCopy base buffer size.toNat).length ≤ bufferSize := length_urlCopy buffer (by omega)
    simp only [bind_error, orError_error, orError_ok, reduceCtorEq, false_and, and_false, exists_false,
      or_false, false_or, not_true_eq_false, hfits]
    constructor
    · rintro ⟨len, hlen, hloop⟩
      exact (checkedUrlLoop_iff hlen hsize (by simp)).mp hloop
    · rintro ⟨ls, rest, hstart, hend⟩
      have hlen := strlen_some.mpr ⟨hstart.zero, rfl⟩
      exact ⟨_, hlen, (checkedUrlLoop_iff hlen hsize (by simp)).mpr ⟨ls, rest, hstart, hend⟩⟩
  · rename_i hfits
    exact iff_of_true rfl (.inl hfits)

/-- The parser returns within its buffers if and only if the bytes are in the message and start with a
name. -/
theorem parse_terminates (base : List UInt8) (buffer : Nat) (size : Int) (h₁ : 1 ≤ size)
    (h₂ : size ≤ 1024) :
    (parseUrlFromData base buffer size).isSome = true ↔
      buffer + size.toNat ≤ base.length ∧ ∃ text, Spells base (urlCopy base buffer size.toNat) text := by
  rw [← checkedUrl_ok h₁ h₂, ← toOption_checkedUrl, isSome_toOption]

/-- The name `a`. -/
theorem parse_terminates_example : (1 : Int) ≤ 3 ∧ (3 : Int) ≤ 1024 ∧
    ((parseUrlFromData [1, 97, 0] 0 3).isSome = true ↔
      0 + (3 : Int).toNat ≤ [1, 97, 0].length ∧
        ∃ text, Spells [1, 97, 0] (urlCopy [1, 97, 0] 0 (3 : Int).toNat) text) :=
  ⟨by decide, by decide, parse_terminates _ _ _ (by decide) (by decide)⟩

/-- A length byte of 64 keeps the parser writing dots until it leaves its result. -/
theorem parse_does_not_end : (0 : Nat) + 1 ≤ ([64] : List UInt8).length ∧
    parseUrlFromData [64] 0 1 = none := by
  have hlen : strlen (urlCopy [64] 0 1) = some 1 := by
    rw [strlen_some, urlCopy]
    exact ⟨by decide, rfl⟩
  have hbyte : (urlCopy [64] 0 1)[0]? = some 64 := rfl
  refine ⟨by decide, ?_⟩
  rw [← toOption_checkedUrl, checkedUrl_eq (by decide) (by decide), if_pos (by decide), Int.toNat_one, hlen,
    orError_some, ok_bind, checkedUrlLoop_stuck [] Nat.zero_lt_one hbyte (by decide) (by decide)]
  rfl

end TermCollection.Dns
