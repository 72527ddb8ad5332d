import TermCollection.Lib.SelfDelimiting
import TermCollection.Dns.DottedQuad
import TermCollection.Dns.Lemmas.Bytes
import TermCollection.Dns.NameDecoding

/-!
# DNS messages

The format of a message with one question: a header, the question, and records behind it. Each record can
be told from what comes behind it.
-/

namespace TermCollection.Dns

variable {base rest : List UInt8} {v : UInt16} {n : Nat}

/-! ## The format -/

/-- A word in the order of the wire. -/
def net2 (v : UInt16) : List UInt8 := toBytes2 (nhswap_s v)

def net4 (v : UInt32) : List UInt8 := toBytes4 (nhswap_l v)

structure DNSHeader where
  id : UInt16
  flags : UInt16
  queryNum : UInt16
  answerNum : UInt16
  authorNum : UInt16
  additionNum : UInt16
  deriving DecidableEq

def DNSHeader.bytes (h : DNSHeader) : List UInt8 :=
  net2 h.id ++ net2 h.flags ++ net2 h.queryNum ++ net2 h.answerNum ++ net2 h.authorNum ++ net2 h.additionNum

/-- A question, whose name is written out. -/
structure Question where
  name : List Label
  qtype : UInt16
  qclass : UInt16

def Question.bytes (q : Question) : List UInt8 := nameBytes q.name ++ net2 q.qtype ++ net2 q.qclass

inductive NameEnd where
  | root
  | pointer (offset : Fin 16384)

def NameEnd.bytes : NameEnd → List UInt8
  | .root => [0]
  | .pointer offset => pointerBytes offset

/-- A name with an end of either form. -/
structure Name where
  parts : List Label
  stop : NameEnd

def Name.bytes (name : Name) : List UInt8 := labels.stream name.parts ++ name.stop.bytes

structure Record where
  owner : Name
  type : UInt16
  cls : UInt16
  ttl : UInt32
  data : List UInt8
  short : data.length < 65536

def Record.fields (r : Record) : List UInt8 :=
  net2 r.type ++ net2 r.cls ++ net4 r.ttl ++ net2 (UInt16.ofNat r.data.length)

def Record.bytes (r : Record) : List UInt8 := r.owner.bytes ++ (r.fields ++ r.data)

/-! ## Lengths -/

theorem net2_length (v : UInt16) : (net2 v).length = 2 := rfl

theorem DNSHeader.length_bytes (h : DNSHeader) : h.bytes.length = 12 := rfl

theorem Question.length_bytes (q : Question) : q.bytes.length = (labels.stream q.name).length + 5 := by
  rw [Question.bytes, List.length_append, List.length_append, net2_length, net2_length, length_nameBytes]

theorem Record.length_fields (r : Record) : r.fields.length = 10 := rfl

theorem Record.length_bytes (r : Record) :
    r.bytes.length = r.owner.bytes.length + 10 + r.data.length := by
  rw [Record.bytes, List.length_append, List.length_append, Record.length_fields, Nat.add_assoc]

theorem NameEnd.length_pos (stop : NameEnd) : 0 < stop.bytes.length := by
  cases stop with
  | root => exact Nat.one_pos
  | pointer offset => exact Nat.two_pos

theorem Record.le_length_bytes (r : Record) : 11 ≤ r.bytes.length := by
  have hstop := r.owner.stop.length_pos
  rw [Record.length_bytes, Name.bytes, List.length_append]
  omega

/-! ## Reading -/

theorem read2_of_start {i : Nat} (h : toBytes2 v <+: base.drop i) : read2 base i = some v := by
  obtain ⟨post, hpost⟩ := h
  have hread := read2_toBytes2 v post
  rw [hpost] at hread
  simpa [read2] using hread

theorem read2_of_net2 {i : Nat} (h : net2 v <+: base.drop i) : read2 base i = some (nhswap_s v) :=
  read2_of_start h

theorem read4_of_net4 {w : UInt32} {i : Nat} (h : net4 w <+: base.drop i) :
    read4 base i = some (nhswap_l w) := by
  obtain ⟨post, hpost⟩ := h
  have hread : read4 (net4 w ++ post) 0 = some (nhswap_l w) := by
    rw [← read4_toBytes4 (nhswap_l w)]
    rfl
  rw [hpost] at hread
  simpa [read4] using hread

theorem slice_of_start {data : List UInt8} {i : Nat} (h : data <+: base.drop i) (hi : i ≤ base.length) :
    slice base i data.length = some data := by
  have hle := h.length_le
  obtain ⟨post, hpost⟩ := h
  rw [List.length_drop] at hle
  rw [slice, if_pos (by omega), ← hpost, List.take_left]

/-! ## Unique reading -/

theorem selfDelimiting_net2 : SelfDelimiting net2 := by
  refine .of_length (fun v v' h => ?_) fun _ _ => rfl
  have hread := congrArg (read2 · 0) h
  have hv := read2_toBytes2 (nhswap_s v) []
  have hv' := read2_toBytes2 (nhswap_s v') []
  rw [List.append_nil] at hv hv'
  simp only [net2, hv, hv', Option.some.injEq] at hread
  rw [← nhswap_s_nhswap_s v, hread, nhswap_s_nhswap_s]

theorem selfDelimiting_net4 : SelfDelimiting net4 := by
  refine .of_length (fun v v' h => ?_) fun _ _ => rfl
  have hread := congrArg (read4 · 0) h
  simp only [net4, read4_toBytes4, Option.some.injEq] at hread
  rw [← nhswap_l_nhswap_l v, hread, nhswap_l_nhswap_l]

theorem selfDelimiting_header : SelfDelimiting DNSHeader.bytes := by
  rintro ⟨id, flags, queryNum, answerNum, authorNum, additionNum⟩
    ⟨id', flags', queryNum', answerNum', authorNum', additionNum'⟩ rest rest' h
  simp only [DNSHeader.bytes, List.append_assoc] at h
  obtain ⟨rfl, hflags⟩ := selfDelimiting_net2 h
  obtain ⟨rfl, hquery⟩ := selfDelimiting_net2 hflags
  obtain ⟨rfl, hanswer⟩ := selfDelimiting_net2 hquery
  obtain ⟨rfl, hauthor⟩ := selfDelimiting_net2 hanswer
  obtain ⟨rfl, haddition⟩ := selfDelimiting_net2 hauthor
  obtain ⟨rfl, hrest⟩ := selfDelimiting_net2 haddition
  exact ⟨rfl, hrest⟩

theorem selfDelimiting_label : SelfDelimiting labels.frame := by
  intro l l' rest rest' h
  rw [frame_label, frame_label, List.cons_append, List.cons_append] at h
  obtain ⟨hsize, hbytes⟩ := List.cons.inj h
  have hlength := congrArg UInt8.toNat hsize
  rw [l.size_toNat, l'.size_toNat] at hlength
  obtain ⟨hl, hrest⟩ := List.append_inj hbytes hlength
  obtain ⟨bytes, hpos, hshort⟩ := l
  obtain ⟨bytes', hpos', hshort'⟩ := l'
  obtain rfl : bytes = bytes' := hl
  exact ⟨rfl, hrest⟩

theorem pointer_head (offset : Fin 16384) :
    ∃ c low, pointerBytes offset = [c, low] ∧ 192 ≤ c ∧
      (c.toNat - 192) * 256 + low.toNat = offset :=
  ⟨_, _, rfl, (pointer_high offset.isLt).1, pointer_target offset.isLt⟩

theorem selfDelimiting_nameEnd : SelfDelimiting NameEnd.bytes := by
  have hne : ∀ (offset : Fin 16384) rest rest', pointerBytes offset ++ rest ≠ [0] ++ rest' := by
    intro offset rest rest' h
    obtain ⟨c, low, hbytes, hhigh, -⟩ := pointer_head offset
    rw [hbytes] at h
    have hc := (List.cons.inj h).1
    rw [hc] at hhigh
    exact absurd hhigh (by decide)
  intro stop stop' rest rest' h
  cases stop with
  | root =>
      cases stop' with
      | root => exact ⟨rfl, (List.cons.inj h).2⟩
      | pointer offset' => exact absurd h.symm (hne offset' _ _)
  | pointer offset =>
      cases stop' with
      | root => exact absurd h (hne offset _ _)
      | pointer offset' =>
          obtain ⟨c, low, hbytes, -, htarget⟩ := pointer_head offset
          obtain ⟨c', low', hbytes', -, htarget'⟩ := pointer_head offset'
          rw [NameEnd.bytes, NameEnd.bytes, hbytes, hbytes'] at h
          obtain ⟨rfl, htail⟩ := List.cons.inj h
          obtain ⟨rfl, hrest⟩ := List.cons.inj htail
          rw [Fin.ext (htarget.symm.trans htarget')]
          exact ⟨rfl, hrest⟩

/-- A label starts with its length, which is neither zero nor a pointer. -/
theorem label_ne_nameEnd (l : Label) (stop : NameEnd) (rest rest' : List UInt8) :
    labels.frame l ++ rest ≠ stop.bytes ++ rest' := by
  have hpos := l.size_pos
  have hle := l.size_le
  rw [frame_label]
  intro h
  cases stop with
  | root =>
      rw [(List.cons.inj h).1] at hpos
      exact absurd hpos (by decide)
  | pointer offset =>
      obtain ⟨c, low, hbytes, hhigh, -⟩ := pointer_head offset
      rw [NameEnd.bytes, hbytes] at h
      rw [← (List.cons.inj h).1] at hhigh
      exact absurd (UInt8.le_trans hhigh hle) (by decide)

theorem selfDelimiting_name : SelfDelimiting Name.bytes := by
  rintro ⟨ls, stop⟩ ⟨ls', stop'⟩ rest rest' h
  have hstream := selfDelimiting_label.stream selfDelimiting_nameEnd label_ne_nameEnd
  obtain ⟨heq, hrest⟩ := @hstream (ls, stop) (ls', stop') rest rest' h
  obtain ⟨rfl, rfl⟩ := Prod.mk.inj heq
  exact ⟨rfl, hrest⟩

/-- A record can be told from what comes behind it. -/
theorem selfDelimiting_record : SelfDelimiting Record.bytes := by
  rintro ⟨owner, type, cls, ttl, data, hshort⟩ ⟨owner', type', cls', ttl', data', hshort'⟩ rest rest' h
  simp only [Record.bytes, Record.fields, List.append_assoc] at h
  obtain ⟨rfl, htype⟩ := selfDelimiting_name h
  obtain ⟨rfl, hcls⟩ := selfDelimiting_net2 htype
  obtain ⟨rfl, httl⟩ := selfDelimiting_net2 hcls
  obtain ⟨rfl, hlen⟩ := selfDelimiting_net4 httl
  obtain ⟨hsize, hdata⟩ := selfDelimiting_net2 hlen
  have hlength := congrArg UInt16.toNat hsize
  rw [UInt16.toNat_ofNat', UInt16.toNat_ofNat', Nat.mod_eq_of_lt hshort, Nat.mod_eq_of_lt hshort'] at hlength
  obtain ⟨rfl, hrest⟩ := List.append_inj hdata hlength
  exact ⟨rfl, hrest⟩

end TermCollection.Dns
