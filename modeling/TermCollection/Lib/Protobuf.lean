import Mathlib.Data.List.Basic
import Mathlib.Data.Nat.Digits.Defs
import Mathlib.Logic.Equiv.Defs
import TermCollection.Lib.Varint

/-!
# Protocol buffers

A message is written as records, each a tag with the number of a field and a wire type, and the bytes of the
value. A codec writes the values of some fields and reads them back, record by record; the codec of a message
is put together from those of its fields.
-/

namespace TermCollection.Protobuf

variable {α β : Type}

/-! ## Records -/

inductive WireType where
  | varint
  | fixed64
  | lengthDelimited
  | startGroup
  | endGroup
  | fixed32
  deriving DecidableEq

def WireType.toNat : WireType → ℕ
  | varint => 0
  | fixed64 => 1
  | lengthDelimited => 2
  | startGroup => 3
  | endGroup => 4
  | fixed32 => 5

/-- The three lowest bits of a tag. -/
def WireType.ofTag (tag : ℕ) : Option WireType :=
  match tag % 8 with
  | 0 => some varint
  | 1 => some fixed64
  | 2 => some lengthDelimited
  | 3 => some startGroup
  | 4 => some endGroup
  | 5 => some fixed32
  | _ => none

structure Record where
  number : ℕ
  wireType : WireType
  payload : List UInt8

def Record.tag (r : Record) : ℕ := r.number * 8 + r.wireType.toNat

def Record.bytes (r : Record) : List UInt8 := varint r.tag ++ r.payload

def encode (rs : List Record) : List UInt8 := rs.flatMap Record.bytes

/-! ## Values on the wire -/

/-- The greatest size of a value that is read, which is 16 less than the greatest `int`. -/
def maxSize : ℕ := 2147483631

def readSize (bytes : List UInt8) : Option (ℕ × List UInt8) := do
  let (size, bytes) ← readVarintBytes 5 bytes
  if size ≤ maxSize then some (size, bytes) else none

/-- A number of bytes, and the others. -/
def splitBytes (n : ℕ) (bytes : List UInt8) : Option (List UInt8 × List UInt8) :=
  if n ≤ bytes.length then some (bytes.take n, bytes.drop n) else none

def delimited (bytes : List UInt8) : List UInt8 := varint bytes.length ++ bytes

def readDelimited (bytes : List UInt8) : Option (List UInt8 × List UInt8) := do
  let (size, bytes) ← readSize bytes
  splitBytes size bytes

/-- An `int32` is written as the `uint64` that its sign extends to. -/
def signExtended (v : Int32) : ℕ := (v.toInt % 18446744073709551616).toNat

def truncated (n : ℕ) : Int32 := Int32.ofInt n

def int32Size (v : Int32) : ℕ := if v.toInt < 0 then 10 else varintSize v.toInt.toNat

def longBytes (v : UInt64) : List UInt8 := [0, 1, 2, 3, 4, 5, 6, 7].map fun i => UInt8.ofNat (v.toNat / 256 ^ i)

def longValue (bytes : List UInt8) : UInt64 := UInt64.ofNat (Nat.ofDigits 256 (bytes.map UInt8.toNat))

/-- The double with these bits is neither less nor greater than zero. -/
def isZero (bits : UInt64) : Bool := bits = 0 ∨ bits = 0x8000000000000000

/-! ## Unknown fields -/

mutual

/-- A field that the message does not have is passed over. -/
def skipField : ℕ → ℕ → ℕ → List UInt8 → Option (List UInt8)
  | 0, _, _, _ => none
  | fuel + 1, depth, tag, bytes =>
      if tag / 8 = 0 then none
      else
        match WireType.ofTag tag, depth with
        | some .varint, _ => (readVarint64 bytes).map Prod.snd
        | some .fixed64, _ => (splitBytes 8 bytes).map Prod.snd
        | some .lengthDelimited, _ => (readDelimited bytes).map Prod.snd
        | some .startGroup, depth + 1 => skipGroup fuel depth (tag + 1) bytes
        | some .fixed32, _ => (splitBytes 4 bytes).map Prod.snd
        | _, _ => none

/-- The fields of a group, up to its end tag. -/
def skipGroup : ℕ → ℕ → ℕ → List UInt8 → Option (List UInt8)
  | 0, _, _, _ => none
  | fuel + 1, depth, endTag, bytes => do
      let (tag, bytes) ← readVarint32 bytes
      if tag = endTag then some bytes
      else if tag = 0 ∨ tag % 8 = 4 then none
      else do
        let bytes ← skipField fuel depth tag bytes
        skipGroup fuel depth endTag bytes

end

/-! ## Codecs -/

/-- How a record of a field with a number and a wire type changes a value; `none` when there is no such
field. The reader returns the bytes behind the record. -/
abbrev Reader (α : Type) := ℕ → WireType → Option (α → List UInt8 → Option (α × List UInt8))

/-- The records lead from one value to another, whatever bytes come behind them. -/
inductive Reads (read : Reader α) : α → List Record → α → Prop
  | nil (v : α) : Reads read v [] v
  | cons {v v' w : α} {r : Record} {rs : List Record} {f : α → List UInt8 → Option (α × List UInt8)} :
      read r.number r.wireType = some f → (∀ rest, f v (r.payload ++ rest) = some (v', rest)) →
      Reads read v' rs w → Reads read v (r :: rs) w

/-- The fields have different numbers, which leave room for the wire type in 32 bits. -/
def WellNumbered (numbers : List ℕ) : Prop := numbers.Nodup ∧ ∀ n ∈ numbers, n < 536870912

instance (numbers : List ℕ) : Decidable (WellNumbered numbers) :=
  inferInstanceAs (Decidable (numbers.Nodup ∧ ∀ n ∈ numbers, n < 536870912))

structure Codec (α : Type) where
  numbers : List ℕ
  /-- The value of a message without records. -/
  default : α
  records : α → List Record
  read : Reader α
  /-- The size that is computed before a value is written. -/
  size : α → ℕ
  /-- The values that can be told from their records. -/
  Kept : α → Prop
  mem_numbers : ∀ v, ∀ r ∈ records v, r.number ∈ numbers
  reads : WellNumbered numbers → ∀ v, Kept v → (encode (records v)).length ≤ maxSize →
    Reads read default (records v) v
  size_eq : WellNumbered numbers → ∀ v, (encode (records v)).length ≤ maxSize →
    size v = (encode (records v)).length

/-- The codec of all fields of a message. -/
structure MessageCodec (α : Type) extends Codec α where
  wellNumbered : WellNumbered numbers

namespace Codec

def serialize (c : Codec α) (v : α) : List UInt8 := encode (c.records v)

/-- The loop of a parser, with the number of groups that may be nested. -/
def parseLoop (c : Codec α) (depth : ℕ) : ℕ → α → List UInt8 → Option α
  | _, v, [] => some v
  | 0, _, _ :: _ => none
  | fuel + 1, v, b :: bytes => do
      let (tag, bytes) ← readVarint32 (b :: bytes)
      match (WireType.ofTag tag).bind (c.read (tag / 8)) with
      | some read => do
          let (v, bytes) ← read v bytes
          parseLoop c depth fuel v bytes
      | none =>
          if tag = 0 ∨ tag % 8 = 4 then none
          else do
            let bytes ← skipField (2 * bytes.length + 2) depth tag bytes
            parseLoop c depth fuel v bytes

def parse (c : Codec α) (depth : ℕ) (bytes : List UInt8) : Option α :=
  c.parseLoop depth (bytes.length + 1) c.default bytes

end Codec

/-! ## Reading what is written -/

section

variable {c : Codec α} {v w : α} {rs : List Record}

theorem ofTag_tag (r : Record) : WireType.ofTag r.tag = some r.wireType := by
  rw [WireType.ofTag, Record.tag]
  cases r.wireType <;> simp [WireType.toNat]

theorem tag_number (r : Record) : r.tag / 8 = r.number := by
  have hlt : r.wireType.toNat < 8 := by cases r.wireType <;> decide
  rw [Record.tag]
  omega

theorem encode_length_cons (r : Record) (rs : List Record) :
    (encode (r :: rs)).length = (varint r.tag).length + r.payload.length + (encode rs).length := by
  simp [encode, Record.bytes, Nat.add_assoc]

theorem length_le_encode (rs : List Record) : rs.length ≤ (encode rs).length := by
  induction rs with
  | nil => exact Nat.le_refl _
  | cons r rs ih =>
      have hpos := varint_length_pos r.tag
      rw [encode_length_cons, List.length_cons]
      omega

/-- The loop follows the records. -/
theorem parseLoop_encode (fuel depth : ℕ) (h : Reads c.read v rs w)
    (hsmall : ∀ r ∈ rs, r.number < 536870912) (rest : List UInt8) :
    c.parseLoop depth (fuel + rs.length) v (encode rs ++ rest) = c.parseLoop depth fuel w rest := by
  induction h with
  | nil v => rfl
  | @cons v v' w r rs f hread hf _ ih =>
      have htag : r.tag < 2 ^ 32 := by
        have hnumber := hsmall r List.mem_cons_self
        have hlt : r.wireType.toNat < 8 := by cases r.wireType <;> decide
        rw [Record.tag]
        omega
      have hbytes : encode (r :: rs) ++ rest = varint r.tag ++ (r.payload ++ (encode rs ++ rest)) := by
        simp [encode, Record.bytes]
      have hvarint := readVarint32_varint htag (r.payload ++ (encode rs ++ rest))
      rw [hbytes, List.length_cons, ← Nat.add_assoc]
      cases hcons : varint r.tag ++ (r.payload ++ (encode rs ++ rest)) with
      | nil =>
          have hpos := varint_length_pos r.tag
          rw [(List.append_eq_nil_iff.mp hcons).1] at hpos
          cases hpos
      | cons b bytes =>
          rw [hcons] at hvarint
          simp only [Codec.parseLoop, hvarint, Option.bind_eq_bind, Option.bind_some, ofTag_tag, tag_number,
            hread, hf]
          exact ih fun r' hr' => hsmall r' (List.mem_cons_of_mem _ hr')

theorem parseLoop_nil (c : Codec α) (depth fuel : ℕ) (v : α) : c.parseLoop depth fuel v [] = some v := by
  cases fuel <;> rfl

/-- Whatever was written is read back. -/
theorem MessageCodec.parse_serialize (c : MessageCodec α) (depth : ℕ) (v : α) (hkept : c.Kept v)
    (hsize : (c.serialize v).length ≤ maxSize) : c.parse depth (c.serialize v) = some v := by
  have hlen := length_le_encode (c.records v)
  have hfuel : (c.serialize v).length + 1 =
      (c.serialize v).length + 1 - (c.records v).length + (c.records v).length := by
    rw [Codec.serialize]
    omega
  have hloop := parseLoop_encode ((c.serialize v).length + 1 - (c.records v).length) depth
    (c.reads c.wellNumbered v hkept hsize)
    (fun r hr => c.wellNumbered.2 _ (c.mem_numbers v r hr)) []
  rw [List.append_nil, parseLoop_nil] at hloop
  rw [Codec.parse, hfuel]
  exact hloop

/-- The computed size is the number of bytes that are written. -/
theorem MessageCodec.size_serialize (c : MessageCodec α) (v : α)
    (hsize : (c.serialize v).length ≤ maxSize) : c.size v = (c.serialize v).length :=
  c.size_eq c.wellNumbered v hsize

end

end TermCollection.Protobuf
