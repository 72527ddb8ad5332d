import Mathlib.Data.List.Basic
import TermCollection.Lib.Checked
import TermCollection.Lib.Framing
import TermCollection.Dns.Utils

/-!
# Names on the wire (`ParseUrlFromData`)

A name is a stream of labels behind their lengths, which the parser writes with dots between them. The
parser is given again here with what goes wrong when it has no result.
-/

namespace TermCollection.Dns

variable {base url rest : List UInt8} {text : CString} {len fuel : Nat}

/-! ## Strings in memory -/

theorem strlen_eq (bs : List UInt8) : strlen bs = if 0 ∈ bs then some (bs.idxOf 0) else none := by
  induction bs with
  | nil => rfl
  | cons b bs ih =>
      by_cases hb : b = 0
      · simp [strlen, hb]
      · have hne : ¬ (0 : UInt8) = b := fun h => hb h.symm
        rw [strlen, if_neg hb, ih]
        by_cases hmem : 0 ∈ bs
        · rw [if_pos hmem, if_pos (List.mem_cons_of_mem _ hmem), List.idxOf_cons_ne _ hb]
          rfl
        · rw [if_neg hmem, if_neg (by simp [hne, hmem])]
          rfl

theorem strlen_some {n : Nat} : strlen url = some n ↔ 0 ∈ url ∧ url.idxOf 0 = n := by
  rw [strlen_eq]
  split
  · rename_i h
    simp [h]
  · rename_i h
    simp [h]

/-- The string goes on behind bytes without a zero. -/
theorem le_strlen {pre post : List UInt8} {n : Nat} (hpre : 0 ∉ pre)
    (h : strlen (pre ++ post) = some n) : pre.length ≤ n := by
  rw [strlen_some, List.idxOf_append_of_notMem hpre] at h
  omega

theorem lt_strlen {pre post : List UInt8} {c : UInt8} {n : Nat} (hpre : 0 ∉ pre) (hc : c ≠ 0)
    (h : strlen (pre ++ c :: post) = some n) : pre.length < n := by
  rw [List.append_cons] at h
  have hle := le_strlen (by simp [hpre, Ne.symm hc]) h
  rw [List.length_append, List.length_singleton] at hle
  exact hle

/-- A zero ends the string. -/
theorem strlen_lt {pre post : List UInt8} {n : Nat} (hpre : 0 ∈ pre) (h : strlen (pre ++ post) = some n) :
    n < pre.length := by
  rw [strlen_some, List.idxOf_append_of_mem hpre] at h
  rw [← h.2]
  exact List.idxOf_lt_length_iff.mpr hpre

theorem slice_append (pre mid post : List UInt8) :
    slice (pre ++ (mid ++ post)) pre.length mid.length = some mid := by
  rw [slice, if_pos (by simp only [List.length_append]; omega), List.drop_left, List.take_left]

/-! ## Labels -/

structure Label where
  bytes : List UInt8
  pos : 1 ≤ bytes.length
  short : bytes.length ≤ 63

def labels : Framing Label UInt8 where
  width := 1
  size bs := (bs.headD 0).toNat
  header l := [UInt8.ofNat l.bytes.length]
  payload l := l.bytes
  header_length _ := rfl
  size_header l := by
    have hshort := l.short
    rw [List.headD_cons, UInt8.toNat_ofNat']
    omega

theorem frame_label (l : Label) : labels.frame l = UInt8.ofNat l.bytes.length :: l.bytes := rfl

theorem Label.size_toNat (l : Label) : (UInt8.ofNat l.bytes.length).toNat = l.bytes.length := by
  have hshort := l.short
  rw [UInt8.toNat_ofNat']
  omega

theorem Label.size_pos (l : Label) : 0 < UInt8.ofNat l.bytes.length := by
  rw [UInt8.lt_iff_toNat_lt, l.size_toNat]
  exact l.pos

theorem Label.size_le (l : Label) : UInt8.ofNat l.bytes.length ≤ 63 := by
  rw [UInt8.le_iff_toNat_le, l.size_toNat]
  exact l.short

/-- The labels with dots between them. -/
def dotted (ls : List Label) : CString := ((ls.map (·.bytes)).intersperse [46]).flatten

/-- The labels, each with a dot behind it. -/
def dottedOpen (ls : List Label) : CString := ls.flatMap (·.bytes ++ [46])

theorem dotted_concat (ls : List Label) (l : Label) : dotted (ls ++ [l]) = dottedOpen ls ++ l.bytes := by
  induction ls with
  | nil => simp [dotted, dottedOpen]
  | cons first ls ih =>
      rw [dottedOpen, List.flatMap_cons, List.append_assoc, ← dottedOpen, ← ih, dotted, dotted]
      cases ls <;> simp

theorem dottedOpen_concat (ls : List Label) (l : Label) :
    dottedOpen (ls ++ [l]) = dotted (ls ++ [l]) ++ [46] := by
  simp [dotted_concat, dottedOpen]

theorem stream_concat (ls : List Label) (l : Label) :
    labels.stream (ls ++ [l]) = labels.stream ls ++ UInt8.ofNat l.bytes.length :: l.bytes := by
  simp [Framing.stream, frame_label]

theorem length_dottedOpen (ls : List Label) : (dottedOpen ls).length = (labels.stream ls).length := by
  induction ls with
  | nil => rfl
  | cons l ls ih =>
      rw [dottedOpen, List.flatMap_cons, ← dottedOpen, Framing.stream_cons, List.length_append, ih,
        List.length_append, List.length_append, frame_label]
      rfl

theorem length_dotted_concat (ls : List Label) (l : Label) :
    (dotted (ls ++ [l])).length + 1 = (labels.stream (ls ++ [l])).length := by
  rw [← length_dottedOpen, dottedOpen_concat, List.length_append, List.length_singleton]

/-! ## What goes wrong -/

/-- Where a handler leaves its bounds: the received bytes, the table of IDs, a text of 64 bytes, an
address of 16, a name of 64, an answer of 1024, or the buffers of the parser, which it also leaves when
it does not end. -/
inductive Overrun where
  | datagram
  | idTable
  | text
  | address
  | url
  | reply
  | name
  | other
  deriving DecidableEq

/-- `strcpy_s` reads up to the first zero, but not more bytes than it may write. Without a zero among
them it ends the program. -/
def strcpyS (base : List UInt8) (i limit : Nat) : Except Overrun CString :=
  match strlen ((base.drop i).take limit) with
  | some n => .ok ((base.drop i).take n)
  | none => if limit ≤ (base.drop i).length then .error .name else .error .datagram

/-- The second half of a round of the loop. -/
def urlTail (base url : List UInt8) (loop : Nat → List UInt8 → Except Overrun (List UInt8)) (i : Nat)
    (out : List UInt8) : Except Overrun (List UInt8) := do
  let c ← orError .name url[i]?
  if c ≠ 0 then
    if 192 ≤ c then do
      let low ← orError .name url[i + 1]?
      let out := out ++ [46]
      let copySrc ← strcpyS base ((c.toNat - 192) * 256 + low.toNat + 1) (bufferSize - out.length - 1)
      .ok (out ++ copySrc)
    else if out.length + 1 < bufferSize then loop i (out ++ [46])
    else .error .name
  else loop i out

/-- `parseUrlLoop` with what goes wrong. -/
def checkedUrlLoop (base url : List UInt8) (len : Nat) :
    Nat → Nat → List UInt8 → Except Overrun (List UInt8)
  | 0, _, _ => .error .name
  | fuel + 1, i, out =>
      if i < len then do
        let c ← orError .name url[i]?
        if 0 < c ∧ c ≤ 63 then do
          let label ← orError .name (slice url (i + 1) c.toNat)
          if out.length + label.length < bufferSize then
            urlTail base url (checkedUrlLoop base url len fuel) (i + 1 + c.toNat) (out ++ label)
          else .error .name
        else urlTail base url (checkedUrlLoop base url len fuel) i out
      else .ok out

/-- `parseUrlFromData` with what goes wrong. -/
def checkedUrl (base : List UInt8) (buffer : Nat) (size : Int) : Except Overrun (Option CString) :=
  if 1024 < size ∨ size ≤ 0 then .ok none
  else do
    let data ← orError .datagram (slice base buffer size.toNat)
    let url := data ++ List.replicate (bufferSize - data.length) 0
    let len ← orError .name (strlen url)
    let result ← checkedUrlLoop base url len (2 * bufferSize) 0 []
    .ok (some (result.takeWhile (· ≠ 0)))

theorem strlen_take {bs : List UInt8} {limit n : Nat} :
    strlen (bs.take limit) = some n ↔ strlen bs = some n ∧ n < limit := by
  induction bs generalizing limit n with
  | nil => simp [strlen]
  | cons b bs ih =>
      cases limit with
      | zero => simp [strlen]
      | succ limit =>
          rw [List.take_succ_cons, strlen, strlen]
          by_cases hb : b = 0
          · simp only [hb, ↓reduceIte, Option.some.injEq]
            omega
          · rw [if_neg hb, if_neg hb, Option.map_eq_some_iff, Option.map_eq_some_iff]
            constructor
            · rintro ⟨m, hm, rfl⟩
              obtain ⟨hm, hlt⟩ := ih.mp hm
              exact ⟨⟨m, hm, rfl⟩, by omega⟩
            · rintro ⟨⟨m, hm, rfl⟩, hlt⟩
              exact ⟨m, ih.mpr ⟨hm, by omega⟩, rfl⟩

theorem strcpyS_ok {i limit : Nat} {src : CString} : strcpyS base i limit = .ok src ↔
    cstringAt base i = some src ∧ src.length < limit := by
  have hcstring : cstringAt base i = some src ↔
      ∃ n, strlen (base.drop i) = some n ∧ (base.drop i).take n = src := by
    simp [cstringAt, Option.bind_eq_some_iff]
  have hlength : ∀ {n}, strlen (base.drop i) = some n → ((base.drop i).take n).length = n := by
    intro n hn
    obtain ⟨hmem, rfl⟩ := strlen_some.mp hn
    exact List.length_take_of_le (List.idxOf_le_length)
  rw [hcstring, strcpyS]
  cases hn : strlen ((base.drop i).take limit) with
  | some n =>
      obtain ⟨hn, hlt⟩ := strlen_take.mp hn
      simp only [Except.ok.injEq, hn, Option.some.injEq, exists_eq_left']
      exact ⟨fun h => ⟨h, by rwa [← h, hlength hn]⟩, fun h => h.1⟩
  | none =>
      refine iff_of_false (by simp only; split <;> simp) ?_
      rintro ⟨⟨n, hlen, rfl⟩, hlt⟩
      rw [hlength hlen] at hlt
      rw [strlen_take.mpr ⟨hlen, hlt⟩] at hn
      cases hn

/-! ## The same results -/

theorem toOption_strcpyS {out : List UInt8} (i : Nat) :
    ((strcpyS base i (bufferSize - out.length - 1)).bind fun copySrc => .ok (out ++ copySrc)).toOption =
      (cstringAt base i).bind fun copySrc =>
        if out.length + copySrc.length + 2 ≤ bufferSize then some (out ++ copySrc) else none := by
  cases hcopy : strcpyS base i (bufferSize - out.length - 1) with
  | ok src =>
      obtain ⟨hsrc, hlt⟩ := strcpyS_ok.mp hcopy
      rw [hsrc, Option.bind_some, if_pos (by omega)]
      rfl
  | error overrun =>
      cases hsrc : cstringAt base i with
      | none => rfl
      | some src =>
          have hlong : ¬ out.length + src.length + 2 ≤ bufferSize := by
            intro hfits
            have hlt : src.length < bufferSize - out.length - 1 := by omega
            rw [strcpyS_ok.mpr ⟨hsrc, hlt⟩] at hcopy
            cases hcopy
          rw [Option.bind_some, if_neg hlong]
          rfl

/-- `urlTail` without the names of what goes wrong. -/
def parseUrlTail (base url : List UInt8) (len fuel i : Nat) (out : List UInt8) : Option (List UInt8) := do
  let c ← url[i]?
  if c ≠ 0 then
    if 192 ≤ c then do
      let low ← url[i + 1]?
      let copySrc ← cstringAt base ((c.toNat - 192) * 256 + low.toNat + 1)
      let out := out ++ [46]
      if out.length + copySrc.length + 2 ≤ bufferSize then some (out ++ copySrc) else none
    else if out.length + 1 < bufferSize then parseUrlLoop base url len fuel i (out ++ [46])
    else none
  else parseUrlLoop base url len fuel i out

theorem parseUrlLoop_succ (i : Nat) (out : List UInt8) :
    parseUrlLoop base url len (fuel + 1) i out =
      if i < len then do
        let c ← url[i]?
        if 0 < c ∧ c ≤ 63 then do
          let label ← slice url (i + 1) c.toNat
          if out.length + label.length < bufferSize then
            parseUrlTail base url len fuel (i + 1 + c.toNat) (out ++ label)
          else none
        else parseUrlTail base url len fuel i out
      else some out := by
  rw [parseUrlLoop]
  refine if_congr Iff.rfl (bind_congr fun c => ?_) rfl
  split
  · cases slice url (i + 1) c.toNat with
    | none => rfl
    | some label =>
        simp only [Option.bind_eq_bind, Option.bind_some]
        split <;> rfl
  · rfl

theorem toOption_urlTail {loop : Nat → List UInt8 → Except Overrun (List UInt8)} (i : Nat)
    (out : List UInt8)
    (hloop : ∀ i out, (loop i out).toOption = parseUrlLoop base url len fuel i out) :
    (urlTail base url loop i out).toOption = parseUrlTail base url len fuel i out := by
  refine toOption_bind (orError_toOption _ _) fun c => ?_
  split
  · split
    · refine toOption_bind (orError_toOption _ _) fun low => ?_
      exact toOption_strcpyS _
    · split
      · exact hloop _ _
      · rfl
  · exact hloop _ _

theorem toOption_checkedUrlLoop (i : Nat) (out : List UInt8) :
    (checkedUrlLoop base url len fuel i out).toOption = parseUrlLoop base url len fuel i out := by
  induction fuel generalizing i out with
  | zero => rfl
  | succ fuel ih =>
      rw [parseUrlLoop_succ, checkedUrlLoop]
      split
      · refine toOption_bind (orError_toOption _ _) fun c => ?_
        split
        · refine toOption_bind (orError_toOption _ _) fun label => ?_
          split
          · exact toOption_urlTail _ _ ih
          · rfl
        · exact toOption_urlTail _ _ ih
      · rfl

theorem toOption_checkedUrl (buffer : Nat) (size : Int) :
    (checkedUrl base buffer size).toOption = parseUrlFromData base buffer size := by
  unfold checkedUrl parseUrlFromData
  split
  · rfl
  · refine toOption_bind (orError_toOption _ _) fun data => ?_
    refine toOption_bind (orError_toOption _ _) fun len => ?_
    exact toOption_bind (toOption_checkedUrlLoop _ _) fun result => rfl

/-! ## What goes wrong in the parser -/

theorem strcpyS_ne {overrun : Overrun} (hdatagram : .datagram ≠ overrun) (hname : .name ≠ overrun)
    (i limit : Nat) : strcpyS base i limit ≠ .error overrun := by
  unfold strcpyS
  split
  · exact ok_ne_error
  · split
    · exact fun h => hname (Except.error.inj h)
    · exact fun h => hdatagram (Except.error.inj h)

theorem urlTail_ne {overrun : Overrun} (hdatagram : .datagram ≠ overrun) (hname : .name ≠ overrun)
    {loop : Nat → List UInt8 → Except Overrun (List UInt8)} (hloop : ∀ i out, loop i out ≠ .error overrun)
    (i : Nat) (out : List UInt8) : urlTail base url loop i out ≠ .error overrun := by
  refine bind_ne_error (orError_ne hname _) fun c => ?_
  split
  · split
    · refine bind_ne_error (orError_ne hname _) fun low => ?_
      exact bind_ne_error (strcpyS_ne hdatagram hname _ _) fun copySrc => ok_ne_error
    · split
      · exact hloop _ _
      · exact fun h => hname (Except.error.inj h)
  · exact hloop _ _

theorem checkedUrlLoop_ne {overrun : Overrun} (hdatagram : .datagram ≠ overrun) (hname : .name ≠ overrun)
    (i : Nat) (out : List UInt8) : checkedUrlLoop base url len fuel i out ≠ .error overrun := by
  induction fuel generalizing i out with
  | zero => exact fun h => hname (Except.error.inj h)
  | succ fuel ih =>
      rw [checkedUrlLoop]
      split
      · refine bind_ne_error (orError_ne hname _) fun c => ?_
        split
        · refine bind_ne_error (orError_ne hname _) fun label => ?_
          split
          · exact urlTail_ne hdatagram hname ih _ _
          · exact fun h => hname (Except.error.inj h)
        · exact urlTail_ne hdatagram hname ih _ _
      · exact ok_ne_error

/-- The parser leaves the message or its own buffers. -/
theorem checkedUrl_ne {overrun : Overrun} (hdatagram : .datagram ≠ overrun) (hname : .name ≠ overrun)
    (buffer : Nat) (size : Int) : checkedUrl base buffer size ≠ .error overrun := by
  unfold checkedUrl
  split
  · exact ok_ne_error
  · refine bind_ne_error (orError_ne hdatagram _) fun data => ?_
    refine bind_ne_error (orError_ne hname _) fun len => ?_
    exact bind_ne_error (checkedUrlLoop_ne hdatagram hname _ _) fun result => ok_ne_error

/-! ## What the parser can read -/

/-- The bytes start with labels. Only the last one may have a zero in it. -/
structure StartsWith (url : List UInt8) (ls : List Label) (rest : List UInt8) : Prop where
  eq : url = labels.stream ls ++ rest
  clean : ∀ l ∈ ls.dropLast, 0 ∉ l.bytes
  zero : 0 ∈ url

/-- What comes of the bytes behind the labels: a zero ends the name; a pointer leads to the rest of it;
and after a label with a zero in it the name also ends. -/
def nameOutcome (base : List UInt8) (ls : List Label) : List UInt8 → Except Overrun CString
  | [] => .error .name
  | c :: rest =>
      if c = 0 then .ok (dotted ls)
      else if 192 ≤ c then do
        let low ← orError .name rest.head?
        let copySrc ← strcpyS base ((c.toNat - 192) * 256 + low.toNat + 1)
          (bufferSize - (dotted ls).length - 2)
        .ok (dotted ls ++ [46] ++ copySrc)
      else if ∃ last ∈ ls.getLast?, 0 ∈ last.bytes then .ok (dotted ls ++ [46])
      else .error .name

/-- The bytes start with a name. -/
def Spells (base url : List UInt8) (text : CString) : Prop :=
  ∃ ls rest, StartsWith url ls rest ∧ nameOutcome base ls rest = .ok text

/-- The name has a pointer to a string that does not end in the message. -/
def PointsOutside (base url : List UInt8) : Prop :=
  ∃ ls rest, StartsWith url ls rest ∧ nameOutcome base ls rest = .error .datagram

/-- Where the labels come to an end. -/
inductive Stop (ls : List Label) : List UInt8 → Prop
  | nil : Stop ls []
  | root (rest : List UInt8) : Stop ls (0 :: rest)
  | pointer (c : UInt8) (rest : List UInt8) : 192 ≤ c → Stop ls (c :: rest)
  | cut (c : UInt8) (rest : List UInt8) (last : Label) : ls.getLast? = some last → 0 ∈ last.bytes →
      c ≠ 0 → c < 192 → Stop ls (c :: rest)
  | stuck (c : UInt8) (rest : List UInt8) : (∀ l ∈ ls, 0 ∉ l.bytes) → 63 < c → c < 192 → Stop ls (c :: rest)
  | short (c : UInt8) (rest : List UInt8) : (∀ l ∈ ls, 0 ∉ l.bytes) → 0 < c → c ≤ 63 →
      rest.length < c.toNat → Stop ls (c :: rest)

theorem stop_of_outcome {ls : List Label} (h : nameOutcome base ls rest ≠ .error .name) : Stop ls rest := by
  cases rest with
  | nil => exact .nil
  | cons c rest =>
      by_cases hzero : c = 0
      · exact hzero ▸ .root rest
      · by_cases hhigh : 192 ≤ c
        · exact .pointer c rest hhigh
        · rw [nameOutcome, if_neg hzero, if_neg hhigh] at h
          split at h
          · rename_i hlast
            obtain ⟨last, hlast, hcut⟩ := hlast
            exact .cut c rest last hlast hcut hzero (UInt8.not_le.mp hhigh)
          · exact absurd rfl h

theorem zero_not_mem_stream {ls : List Label} (h : ∀ l ∈ ls, 0 ∉ l.bytes) : 0 ∉ labels.stream ls := by
  intro hmem
  obtain ⟨l, hl, hzero⟩ := List.mem_flatMap.mp hmem
  rw [frame_label, List.mem_cons] at hzero
  rcases hzero with hsize | hbytes
  · exact UInt8.pos_iff_ne_zero.mp l.size_pos hsize.symm
  · exact h l hl hbytes

/-- The labels are followed until they stop. -/
theorem exists_stop {ls : List Label} (hzero : 0 ∈ url) (hurl : url = labels.stream ls ++ rest)
    (hclean : ∀ l ∈ ls, 0 ∉ l.bytes) : ∃ ls rest, StartsWith url ls rest ∧ Stop ls rest := by
  induction hn : rest.length using Nat.strongRecOn generalizing ls rest with
  | ind n ih =>
      have hstart : StartsWith url ls rest := ⟨hurl, fun l hl => hclean l ((List.dropLast_sublist _).subset hl), hzero⟩
      cases rest with
      | nil => exact ⟨ls, [], hstart, .nil⟩
      | cons c rest =>
          by_cases hroot : c = 0
          · exact ⟨ls, _, hstart, hroot ▸ .root rest⟩
          by_cases hhigh : 192 ≤ c
          · exact ⟨ls, _, hstart, .pointer c rest hhigh⟩
          by_cases hlow : 63 < c
          · exact ⟨ls, _, hstart, .stuck c rest hclean hlow (UInt8.not_le.mp hhigh)⟩
          have hpos := UInt8.pos_iff_ne_zero.mpr hroot
          by_cases hshort : rest.length < c.toNat
          · exact ⟨ls, _, hstart, .short c rest hclean hpos (UInt8.not_lt.mp hlow) hshort⟩
          have hlength : (rest.take c.toNat).length = c.toNat := List.length_take_of_le (Nat.not_lt.mp hshort)
          have hnat₁ : 0 < c.toNat := UInt8.lt_iff_toNat_lt.mp hpos
          have hnat₂ : c.toNat ≤ 63 := UInt8.le_iff_toNat_le.mp (UInt8.not_lt.mp hlow)
          let l : Label := ⟨rest.take c.toNat, by omega, by omega⟩
          have hnext : url = labels.stream (ls ++ [l]) ++ rest.drop c.toNat := by
            have hsize : UInt8.ofNat (rest.take c.toNat).length = c := by rw [hlength, UInt8.ofNat_toNat]
            rw [stream_concat, hsize, hurl, List.append_assoc, List.cons_append, List.take_append_drop]
          by_cases hcut : 0 ∈ l.bytes
          · refine ⟨ls ++ [l], rest.drop c.toNat, ⟨hnext, by rwa [List.dropLast_concat], hzero⟩, ?_⟩
            cases rest.drop c.toNat with
            | nil => exact .nil
            | cons d post =>
                by_cases hdroot : d = 0
                · exact hdroot ▸ .root post
                by_cases hdhigh : 192 ≤ d
                · exact .pointer d post hdhigh
                exact .cut d post l List.getLast?_concat hcut hdroot (UInt8.not_le.mp hdhigh)
          · refine ih (rest.drop c.toNat).length ?_ hnext (fun l' hl' => ?_) rfl
            · rw [← hn, List.length_drop, List.length_cons]
              omega
            · rcases List.mem_append.mp hl' with hold | hnew
              · exact hclean l' hold
              · exact List.mem_singleton.mp hnew ▸ hcut

end TermCollection.Dns
