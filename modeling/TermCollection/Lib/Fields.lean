import TermCollection.Lib.Protobuf

/-!
# Fields of protocol buffers

The codecs of single fields, and how the codec of a message is made of them. A field that has its default is
not written.
-/

namespace TermCollection.Protobuf

variable {α β γ : Type} {v w : α} {rs rs' : List Record} {read : Reader α} {read' : Reader β}

/-! ## Records of parts -/

theorem encode_append (rs rs' : List Record) : encode (rs ++ rs') = encode rs ++ encode rs' :=
  List.flatMap_append

theorem Reads.append {u : α} (h : Reads read v rs w) (h' : Reads read w rs' u) : Reads read v (rs ++ rs') u := by
  induction h with
  | nil => exact h'
  | cons hread hf _ ih => exact .cons hread hf (ih h')

/-- The reader of a whole does with the records of a part what the reader of the part does. -/
theorem Reads.lift (put : α → β) (h : Reads read v rs w)
    (hput : ∀ r ∈ rs, ∀ f, read r.number r.wireType = some f → ∃ g, read' r.number r.wireType = some g ∧
      ∀ v bytes, g (put v) bytes = (f v bytes).map fun p => (put p.1, p.2)) :
    Reads read' (put v) rs (put w) := by
  induction h with
  | nil v => exact .nil _
  | @cons v v' w r rs f hread hf _ ih =>
      obtain ⟨g, hg, hfg⟩ := hput r List.mem_cons_self f hread
      refine .cons hg (fun rest => ?_) (ih fun r' hr' => hput r' (List.mem_cons_of_mem _ hr'))
      rw [hfg, hf, Option.map_some]

/-- The number of bytes of the tags of a field. -/
def tagSize (number : ℕ) : ℕ := varintSize (number * 8)

theorem tag_length {r : Record} (h : r.number < 536870912) : (varint r.tag).length = tagSize r.number := by
  have hlt : r.wireType.toNat < 8 := by cases r.wireType <;> decide
  rw [varint_length (by rw [Record.tag]; omega), tagSize, varintSize_eq (by rw [Record.tag]; omega),
    varintSize_eq (by omega)]
  rcases Nat.eq_zero_or_pos r.number with hzero | hpos
  · rw [Record.tag, hzero, Nat.div_eq_of_lt (log2_lt (by omega) (by omega)),
      Nat.div_eq_of_lt (log2_lt (by omega) (by omega))]
  · rw [log2_div (n := r.tag) (m := 3) (by rw [Record.tag]; omega), log2_div (n := r.number * 8) (m := 3) (by omega)]
    have hdiv : r.tag / 2 ^ 3 = r.number := tag_number r
    have hdiv' : r.number * 8 / 2 ^ 3 = r.number := Nat.mul_div_cancel _ (by omega)
    rw [hdiv, hdiv']

/-! ## Values -/

/-- A value of one wire type. -/
structure Value (α : Type) where
  wireType : WireType
  write : α → List UInt8
  read : List UInt8 → Option (α × List UInt8)
  size : α → ℕ
  read_write : ∀ v rest, (write v).length ≤ maxSize → read (write v ++ rest) = some (v, rest)
  size_eq : ∀ v, (write v).length ≤ maxSize → size v = (write v).length

theorem signExtended_lt (v : Int32) : signExtended v < 2 ^ 64 := by
  rw [signExtended]
  omega

theorem truncated_signExtended (v : Int32) : truncated (signExtended v) = v := by
  have hlow := v.le_toInt
  have hhigh := v.toInt_lt
  rw [truncated, Int32.ofInt_eq_iff_bmod_eq_toInt, signExtended, Int.toNat_of_nonneg (by omega),
    Int.bmod_def]
  omega

theorem readVarint64_signExtended (v : Int32) (rest : List UInt8) :
    (readVarint64 (varint (signExtended v) ++ rest)).map (fun r => (truncated r.1, r.2)) = some (v, rest) := by
  rw [readVarint64_varint (signExtended_lt v), Option.map_some, truncated_signExtended]

theorem int32Size_eq (v : Int32) : int32Size v = (varint (signExtended v)).length := by
  have hlow := v.le_toInt
  have hhigh := v.toInt_lt
  rw [varint_length (signExtended_lt v), int32Size, signExtended]
  split
  · -- the highest bit of a negative number is set
    have hlog : (v.toInt % 18446744073709551616).toNat.log2 = 63 := by
      rw [Nat.log2_eq_iff (by omega)]
      omega
    rw [varintSize_eq (by omega), hlog]
  · rw [Int.emod_eq_of_lt (by omega) (by omega)]

def int32Value : Value Int32 where
  wireType := .varint
  write v := varint (signExtended v)
  read bytes := (readVarint64 bytes).map fun r => (truncated r.1, r.2)
  size := int32Size
  read_write v rest _ := readVarint64_signExtended v rest
  size_eq v _ := int32Size_eq v

theorem readDelimited_delimited {bytes : List UInt8} (h : bytes.length ≤ maxSize) (rest : List UInt8) :
    readDelimited (delimited bytes ++ rest) = some (bytes, rest) := by
  have hsize : readSize (delimited bytes ++ rest) = some (bytes.length, bytes ++ rest) := by
    rw [maxSize] at h
    rw [readSize, delimited, List.append_assoc, varint, varintBytes_of_lt (k := 4) (by omega) (by omega),
      readVarintBytes_varintBytes (by omega)]
    exact if_pos h
  simp [readDelimited, hsize, splitBytes]

theorem length_delimited (bytes : List UInt8) :
    (delimited bytes).length = (varint bytes.length).length + bytes.length := List.length_append

theorem delimited_length {bytes : List UInt8} (h : bytes.length ≤ maxSize) :
    (delimited bytes).length = varintSize bytes.length + bytes.length := by
  rw [maxSize] at h
  rw [length_delimited, varint_length (by omega)]

theorem length_le_delimited (bytes : List UInt8) : bytes.length ≤ (delimited bytes).length := by
  rw [length_delimited]
  exact Nat.le_add_left _ _

def bytesValue : Value (List UInt8) where
  wireType := .lengthDelimited
  write := delimited
  read := readDelimited
  size v := varintSize v.length + v.length
  read_write v rest h := readDelimited_delimited (Nat.le_trans (length_le_delimited v) h) rest
  size_eq v h := (delimited_length (Nat.le_trans (length_le_delimited v) h)).symm

theorem longValue_longBytes (v : UInt64) : longValue (longBytes v) = v := by
  have hlt := v.toNat_lt
  rw [← UInt64.toNat_inj, longValue, UInt64.toNat_ofNat']
  simp only [longBytes, List.map_cons, List.map_nil, UInt8.toNat_ofNat', Nat.ofDigits_cons, Nat.ofDigits_nil]
  omega

/-- The bits of a double. -/
def doubleValue : Value UInt64 where
  wireType := .fixed64
  write := longBytes
  read bytes := (splitBytes 8 bytes).map fun r => (longValue r.1, r.2)
  size _ := 8
  read_write v rest _ := by
    have hlen : (longBytes v).length = 8 := rfl
    rw [splitBytes, if_pos (by rw [List.length_append, hlen]; omega), Option.map_some, List.take_left' hlen,
      List.drop_left' hlen, longValue_longBytes]
  size_eq _ _ := rfl

/-! ## Fields -/

/-- A field with one value, which is not written when it counts as the default. -/
def optional (number : ℕ) (value : Value α) (default : α) (skipped : α → Bool) : Codec α where
  numbers := [number]
  default := default
  records v := if skipped v then [] else [⟨number, value.wireType, value.write v⟩]
  read n wireType := if n = number ∧ wireType = value.wireType then some fun _ bytes => value.read bytes else none
  size v := if skipped v then 0 else tagSize number + value.size v
  Kept v := skipped v = true → v = default
  mem_numbers v r hr := by
    split at hr
    · cases hr
    · rw [List.mem_singleton.mp hr]
      exact List.mem_cons_self
  reads _ v hkept hsize := by
    split
    · rename_i hskip
      rw [hkept hskip]
      exact .nil _
    · rename_i hskip
      rw [if_neg hskip, encode_length_cons] at hsize
      refine .cons (if_pos ⟨rfl, rfl⟩) (fun rest => value.read_write v rest ?_) (.nil _)
      exact Nat.le_trans (Nat.le_trans (Nat.le_add_left _ _) (Nat.le_add_right _ _)) hsize
  size_eq hnum v hsize := by
    split
    · rfl
    · rename_i hskip
      rw [if_neg hskip, encode_length_cons] at hsize
      rw [encode_length_cons, tag_length (hnum.2 number List.mem_cons_self), value.size_eq v (by
        exact Nat.le_trans (Nat.le_trans (Nat.le_add_left _ _) (Nat.le_add_right _ _)) hsize)]
      rfl

def int32 (number : ℕ) : Codec Int32 := optional number int32Value 0 (· = 0)

def bytes (number : ℕ) : Codec (List UInt8) := optional number bytesValue [] List.isEmpty

def double (number : ℕ) : Codec UInt64 := optional number doubleValue 0 isZero

/-! ## Repeated numbers -/

def packedBytes (vs : List Int32) : List UInt8 := vs.flatMap fun v => varint (signExtended v)

def readPacked : ℕ → List UInt8 → Option (List Int32)
  | _, [] => some []
  | 0, _ :: _ => none
  | fuel + 1, b :: bytes => do
      let (n, bytes) ← readVarint64 (b :: bytes)
      let vs ← readPacked fuel bytes
      some (truncated n :: vs)

theorem packedBytes_cons (v : Int32) (vs : List Int32) :
    packedBytes (v :: vs) = varint (signExtended v) ++ packedBytes vs := List.flatMap_cons

theorem packedBytes_ne_nil (v : Int32) (vs : List Int32) : packedBytes (v :: vs) ≠ [] := by
  rw [packedBytes_cons]
  exact List.append_ne_nil_of_left_ne_nil (List.ne_nil_of_length_pos (varint_length_pos _)) _

theorem readPacked_packedBytes {fuel : ℕ} (vs : List Int32) (h : vs.length ≤ fuel) :
    readPacked fuel (packedBytes vs) = some vs := by
  induction vs generalizing fuel with
  | nil => cases fuel <;> rfl
  | cons v vs ih =>
      cases fuel with
      | zero => cases h
      | succ fuel =>
          have hread := readVarint64_varint (signExtended_lt v) (packedBytes vs)
          rw [← packedBytes_cons] at hread
          cases hbytes : packedBytes (v :: vs) with
          | nil => exact absurd hbytes (packedBytes_ne_nil v vs)
          | cons b bytes =>
              rw [hbytes] at hread
              rw [readPacked, hread]
              simp [ih (Nat.le_of_succ_le_succ h), truncated_signExtended]

theorem packedBytes_length (vs : List Int32) : (packedBytes vs).length = (vs.map int32Size).sum := by
  rw [packedBytes, List.length_flatMap]
  exact congrArg List.sum (List.map_congr_left fun v _ => (int32Size_eq v).symm)

theorem length_le_packedBytes (vs : List Int32) : vs.length ≤ (packedBytes vs).length := by
  induction vs with
  | nil => exact Nat.le_refl _
  | cons v vs ih =>
      have hpos := varint_length_pos (signExtended v)
      rw [packedBytes_cons, List.length_append, List.length_cons]
      omega

/-- The numbers are written in one record, and read from records of one or more of them. -/
def repeatedInt32 (number : ℕ) : Codec (List Int32) where
  numbers := [number]
  default := []
  records vs := if vs.isEmpty then [] else [⟨number, .lengthDelimited, delimited (packedBytes vs)⟩]
  read n wireType :=
    if n = number then
      match wireType with
      | .lengthDelimited => some fun vs bytes => do
          let (data, bytes) ← readDelimited bytes
          let new ← readPacked data.length data
          some (vs ++ new, bytes)
      | .varint => some fun vs bytes => (readVarint64 bytes).map fun r => (vs ++ [truncated r.1], r.2)
      | _ => none
    else none
  size vs :=
    let dataSize := (vs.map int32Size).sum
    (if dataSize = 0 then 0 else tagSize number + varintSize dataSize) + dataSize
  Kept _ := True
  mem_numbers vs r hr := by
    split at hr
    · cases hr
    · rw [List.mem_singleton.mp hr]
      exact List.mem_cons_self
  reads _ vs _ hsize := by
    split
    · rename_i hnil
      rw [List.isEmpty_iff.mp hnil]
      exact .nil _
    · rename_i hne
      rw [if_neg hne, encode_length_cons] at hsize
      have hdata : (packedBytes vs).length ≤ maxSize := by
        have hle := length_le_delimited (packedBytes vs)
        simp only at hsize
        omega
      refine .cons (if_pos rfl) (fun rest => ?_) (.nil _)
      simp [readDelimited_delimited hdata, readPacked_packedBytes vs (length_le_packedBytes vs)]
  size_eq hnum vs hsize := by
    have hlen := packedBytes_length vs
    split
    · rename_i hnil
      rw [List.isEmpty_iff.mp hnil]
      rfl
    · rename_i hne
      rw [if_neg hne, encode_length_cons] at hsize
      have hdata : (packedBytes vs).length ≤ maxSize := by
        have hle := length_le_delimited (packedBytes vs)
        simp only at hsize
        omega
      have hpos : (vs.map int32Size).sum ≠ 0 := by
        have hle := length_le_packedBytes vs
        have hvs := List.length_pos_iff.mpr fun hnil => hne (List.isEmpty_iff.mpr hnil)
        omega
      rw [encode_length_cons, tag_length (hnum.2 number List.mem_cons_self)]
      simp only [if_neg hpos, delimited_length hdata, hlen, encode, List.flatMap_nil, List.length_nil]
      omega

/-! ## Messages in messages -/

def messageRecord (number : ℕ) (c : MessageCodec α) (v : α) : Record :=
  ⟨number, .lengthDelimited, varint (c.size v) ++ c.serialize v⟩

/-- One more message, in which a number of groups may be nested. -/
def readMessage (depth : ℕ) (c : MessageCodec α) (vs : List α) (bytes : List UInt8) : Option (List α × List UInt8) := do
  let (data, bytes) ← readDelimited bytes
  let v ← c.parse depth data
  some (vs ++ [v], bytes)

section

variable {c : MessageCodec α} {number depth : ℕ} {vs : List α}

theorem serialize_le (h : (encode ((v :: vs).map (messageRecord number c))).length ≤ maxSize) :
    (c.serialize v).length ≤ maxSize ∧ (encode (vs.map (messageRecord number c))).length ≤ maxSize := by
  rw [List.map_cons, encode_length_cons, messageRecord, List.length_append] at h
  omega

theorem messageRecord_payload (h : (c.serialize v).length ≤ maxSize) :
    (messageRecord number c v).payload = delimited (c.serialize v) := by
  rw [messageRecord, c.size_serialize v h, delimited]

theorem reads_messages {read : Reader (List α)}
    (hread : read number .lengthDelimited = some (readMessage depth c)) (vs₀ : List α)
    (hkept : ∀ v ∈ vs, c.Kept v) (hsize : (encode (vs.map (messageRecord number c))).length ≤ maxSize) :
    Reads read vs₀ (vs.map (messageRecord number c)) (vs₀ ++ vs) := by
  induction vs generalizing vs₀ with
  | nil =>
      rw [List.append_nil]
      exact .nil _
  | cons v vs ih =>
      obtain ⟨hv, hvs⟩ := serialize_le hsize
      have hrest := ih (vs₀ ++ [v]) (fun w hw => hkept w (List.mem_cons_of_mem _ hw)) hvs
      rw [List.append_assoc, List.singleton_append] at hrest
      refine .cons hread (fun rest => ?_) hrest
      rw [messageRecord_payload hv, readMessage, readDelimited_delimited hv, Option.bind_eq_bind,
        Option.bind_some]
      simp only [c.parse_serialize depth v (hkept v List.mem_cons_self) hv, Option.bind_eq_bind,
        Option.bind_some]

theorem size_messages (hnumber : number < 536870912)
    (hsize : (encode (vs.map (messageRecord number c))).length ≤ maxSize) :
    (vs.map fun v => tagSize number + (varintSize (c.size v) + c.size v)).sum =
      (encode (vs.map (messageRecord number c))).length := by
  induction vs with
  | nil => rfl
  | cons v vs ih =>
      obtain ⟨hv, hvs⟩ := serialize_le hsize
      have hhead : (encode ((v :: vs).map (messageRecord number c))).length =
          tagSize number + (delimited (c.serialize v)).length +
            (encode (vs.map (messageRecord number c))).length := by
        rw [List.map_cons, encode_length_cons, tag_length (r := messageRecord number c v) hnumber,
          messageRecord_payload hv]
        rfl
      rw [hhead, delimited_length hv, ← ih hvs, List.map_cons, List.sum_cons, c.size_serialize v hv]

end

def messages (number depth : ℕ) (c : MessageCodec α) : Codec (List α) where
  numbers := [number]
  default := []
  records vs := vs.map (messageRecord number c)
  read n wireType := if n = number ∧ wireType = .lengthDelimited then some (readMessage depth c) else none
  size vs := (vs.map fun v => tagSize number + (varintSize (c.size v) + c.size v)).sum
  Kept vs := ∀ v ∈ vs, c.Kept v
  mem_numbers vs r hr := by
    obtain ⟨v, -, rfl⟩ := List.mem_map.mp hr
    exact List.mem_cons_self
  reads _ vs hkept hsize := by
    have hreads : Reads (fun n wireType =>
        if n = number ∧ wireType = .lengthDelimited then some (readMessage depth c) else none)
        [] (vs.map (messageRecord number c)) ([] ++ vs) :=
      reads_messages (if_pos ⟨rfl, rfl⟩) [] hkept hsize
    rwa [List.nil_append] at hreads
  size_eq hnum _ hsize := size_messages (hnum.2 number List.mem_cons_self) hsize

/-! ## Several fields -/

theorem WellNumbered.left {ns ms : List ℕ} (h : WellNumbered (ns ++ ms)) : WellNumbered ns :=
  ⟨(List.nodup_append.mp h.1).1, fun n hn => h.2 n (List.mem_append_left _ hn)⟩

theorem WellNumbered.right {ns ms : List ℕ} (h : WellNumbered (ns ++ ms)) : WellNumbered ms :=
  ⟨(List.nodup_append.mp h.1).2.1, fun n hn => h.2 n (List.mem_append_right _ hn)⟩

/-- The fields of one codec, and those of another. -/
def pair (a : Codec α) (b : Codec β) : Codec (α × β) where
  numbers := a.numbers ++ b.numbers
  default := (a.default, b.default)
  records v := a.records v.1 ++ b.records v.2
  read n wireType :=
    if n ∈ a.numbers then
      (a.read n wireType).map fun f v bytes => (f v.1 bytes).map fun r => ((r.1, v.2), r.2)
    else (b.read n wireType).map fun f v bytes => (f v.2 bytes).map fun r => ((v.1, r.1), r.2)
  size v := a.size v.1 + b.size v.2
  Kept v := a.Kept v.1 ∧ b.Kept v.2
  mem_numbers v r hr := by
    rcases List.mem_append.mp hr with hr | hr
    · exact List.mem_append_left _ (a.mem_numbers v.1 r hr)
    · exact List.mem_append_right _ (b.mem_numbers v.2 r hr)
  reads hnum v hkept hsize := by
    rw [encode_append, List.length_append] at hsize
    have ha := a.reads hnum.left v.1 hkept.1 (by omega)
    have hb := b.reads hnum.right v.2 hkept.2 (by omega)
    have hapart : ∀ n ∈ b.numbers, n ∉ a.numbers := fun n hb ha =>
      (List.nodup_append.mp hnum.1).2.2 n ha n hb rfl
    refine (ha.lift (fun x => (x, b.default)) fun r hr f hf => ?_).append
      (hb.lift (fun y => (v.1, y)) fun r hr f hf => ?_)
    · exact ⟨_, by rw [if_pos (a.mem_numbers v.1 r hr), hf, Option.map_some], fun _ _ => rfl⟩
    · exact ⟨_, by rw [if_neg (hapart _ (b.mem_numbers v.2 r hr)), hf, Option.map_some], fun _ _ => rfl⟩
  size_eq hnum v hsize := by
    rw [encode_append, List.length_append] at hsize ⊢
    rw [a.size_eq hnum.left v.1 (by omega), b.size_eq hnum.right v.2 (by omega)]

/-- The fields under the names of a structure. -/
def message (c : Codec β) (e : α ≃ β) (hnum : WellNumbered c.numbers) : MessageCodec α where
  numbers := c.numbers
  default := e.symm c.default
  records v := c.records (e v)
  read n wireType :=
    (c.read n wireType).map fun f v bytes => (f (e v) bytes).map fun r => (e.symm r.1, r.2)
  size v := c.size (e v)
  Kept v := c.Kept (e v)
  mem_numbers v := c.mem_numbers (e v)
  reads hnum v hkept hsize := by
    have hreads : Reads (fun n wireType =>
        (c.read n wireType).map fun f v bytes => (f (e v) bytes).map fun r => (e.symm r.1, r.2))
        (e.symm c.default) (c.records (e v)) (e.symm (e v)) :=
      (c.reads hnum (e v) hkept hsize).lift e.symm fun r _ f hf =>
        ⟨_, by rw [hf, Option.map_some], fun w bytes => by rw [Equiv.apply_symm_apply]⟩
    rwa [Equiv.symm_apply_apply] at hreads
  size_eq hnum v := c.size_eq hnum (e v)
  wellNumbered := hnum

/-! ## What is kept -/

section

variable {number depth : ℕ}

@[simp] theorem kept_int32 (v : Int32) : (int32 number).Kept v := of_decide_eq_true

@[simp] theorem kept_bytes (v : List UInt8) : (bytes number).Kept v := List.isEmpty_iff.mp

/-- A negative zero is lost. -/
@[simp] theorem kept_double (v : UInt64) : (double number).Kept v ↔ v ≠ 0x8000000000000000 := by
  have hkept : (double number).Kept v ↔ (v = 0 ∨ v = 0x8000000000000000 → v = 0) :=
    imp_congr_left decide_eq_true_iff
  rw [hkept]
  constructor
  · rintro h rfl
    cases h (.inr rfl)
  · exact fun h hzero => hzero.resolve_right h

@[simp] theorem kept_repeatedInt32 (vs : List Int32) : (repeatedInt32 number).Kept vs := trivial

@[simp] theorem kept_messages (c : MessageCodec α) (vs : List α) :
    (messages number depth c).Kept vs ↔ ∀ v ∈ vs, c.Kept v := .rfl

@[simp] theorem kept_pair (a : Codec α) (b : Codec β) (v : α × β) :
    (pair a b).Kept v ↔ a.Kept v.1 ∧ b.Kept v.2 := .rfl

@[simp] theorem kept_message (c : Codec β) (e : α ≃ β) (hnum : WellNumbered c.numbers) (v : α) :
    (message c e hnum).Kept v ↔ c.Kept (e v) := .rfl

end

end TermCollection.Protobuf
