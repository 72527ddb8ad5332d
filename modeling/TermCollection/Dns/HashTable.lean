import TermCollection.Lib.Memory

/-!
# The chained hash table (`hash_table.c`)

The table stores pointers only: the type `κ` of its keys is that of pointers to C strings, read by a
function `str`, and the type `ν` of its values is that of pointers to rows. `size_t` has 64 bits.
-/

namespace TermCollection.Dns

/-- The bytes of a C string before its terminating zero. -/
abbrev CString := List UInt8

structure Node (κ ν : Type) where
  key : Option κ
  value : Option ν
  prev : Option Nat
  next : Option Nat

/-- The array `data` is the blocks `0 .. size - 1` of `mem`; the blocks of `malloc` come after it. -/
structure HashTable (κ ν : Type) where
  size : Nat
  mem : Mem (Node κ ν)

/-! ## ELF hash -/

def totalBits : UInt64 := 8 * 8

def threeQuarters : UInt64 := totalBits * 3 / 4

def oneEighth : UInt64 := 8

def highBits : UInt64 := (-1) <<< (totalBits - oneEighth)

/-- One iteration of the loop of `elfHash`. -/
def elfStep (hash : UInt64) (b : UInt8) : UInt64 :=
  let hash := (hash <<< oneEighth) + b.toUInt64
  let magic := hash &&& highBits
  if magic ≠ 0 then (hash ^^^ (magic >>> threeQuarters)) &&& ~~~magic else hash

def elfHash (data : CString) : UInt64 := data.foldl elfStep 0

/-! ## Operations -/

section

variable {κ ν : Type}

def newHashTable (size : Nat) : HashTable κ ν where
  size := size
  mem := Mem.array size ⟨none, none, none, none⟩

/-- The index of the bucket of a key. -/
def bucket (t : HashTable κ ν) (key : CString) : Nat := (elfHash key).toNat % t.size

/-- The loop of `findNodeByKey`. It visits every block at most once unless the chain has a cycle, so
a walk that uses up its fuel is one that does not end. -/
def findLoop (str : κ → CString) (m : Mem (Node κ ν)) (key : CString) :
    Nat → Option Nat → Option (Option Nat)
  | _, none => some none
  | 0, some _ => none
  | fuel + 1, some node => do
      let nd ← m.load node
      match nd.key, nd.value with
      | some k, some _ =>
          if key = str k then some (some node) else findLoop str m key fuel nd.next
      | _, _ => some none

/-- The outer `none` is a walk through a freed block or one without an end; the inner one is NULL. -/
def findNodeByKey (str : κ → CString) (t : HashTable κ ν) (key : CString) : Option (Option Nat) :=
  if t.size = 0 then some none
  else findLoop str t.mem key t.mem.brk (some (bucket t key))

def findValueByKey (str : κ → CString) (t : HashTable κ ν) (key : CString) : Option (Option ν) := do
  match ← findNodeByKey str t key with
  | none => some none
  | some node => do
      let nd ← t.mem.load node
      some nd.value

/-- The loop of `insertHashItem`: the last node of the chain and the value of `prev` there, which is
the node before it. -/
def lastLoop (m : Mem (Node κ ν)) : Nat → Nat → Option Nat → Option (Nat × Option Nat)
  | 0, _, _ => none
  | fuel + 1, node, prev => do
      let nd ← m.load node
      match nd.next with
      | none => some (node, prev)
      | some next => lastLoop m fuel next (some node)

def insertHashItem (str : κ → CString) (t : HashTable κ ν) (key : κ) (value : ν) :
    Option (Bool × HashTable κ ν) :=
  if t.size = 0 then some (false, t)
  else do
    let index := bucket t (str key)
    let head ← t.mem.load index
    if head.key.isNone || head.value.isNone then
      let m ← t.mem.modify index fun _ => ⟨some key, some value, none, none⟩
      some (true, { t with mem := m })
    else
      let (node, prev) ← lastLoop t.mem t.mem.brk index none
      let (temp, m) := t.mem.malloc ⟨some key, some value, prev, none⟩
      let m ← m.modify node fun nd => { nd with next := some temp }
      some (true, { t with mem := m })

/-- `node->next->prev = prev`, where `next` may be NULL. -/
def setPrev (m : Mem (Node κ ν)) (next : Option Nat) (prev : Nat) : Option (Mem (Node κ ν)) :=
  match next with
  | none => some m
  | some b => m.modify b fun nd => { nd with prev := some prev }

def removeHashItemByNode (t : HashTable κ ν) : Option Nat → Option (Bool × HashTable κ ν)
  | none => some (false, t)
  | some node => do
      let nd ← t.mem.load node
      match nd.prev with
      | none =>
          match nd.next with
          | some temp =>
              let tn ← t.mem.load temp
              let m ← t.mem.modify node fun nd => { nd with key := tn.key, value := tn.value }
              let m ← setPrev m tn.next node
              let m ← m.modify node fun nd => { nd with next := tn.next }
              let m ← m.free temp
              some (true, { t with mem := m })
          | none =>
              let m ← t.mem.modify node fun nd => { nd with key := none, value := none }
              some (true, { t with mem := m })
      | some prev =>
          let m ← t.mem.modify prev fun p => { p with next := nd.next }
          let m ← setPrev m nd.next prev
          let m ← m.free node
          some (true, { t with mem := m })

/-! ## What a bucket holds -/

/-- The key and the value of a node, when neither is NULL. -/
def Node.entry (nd : Node κ ν) : Option (κ × ν) :=
  match nd.key, nd.value with
  | some k, some v => some (k, v)
  | _, _ => none

def entriesFrom (m : Mem (Node κ ν)) : Nat → Option Nat → List (Option (κ × ν))
  | fuel + 1, some a =>
      match m.load a with
      | none => []
      | some nd => nd.entry :: entriesFrom m fuel nd.next
  | _, _ => []

/-- The entries of a bucket in the order of its chain, `none` for a node that was emptied. -/
def bucketEntries (t : HashTable κ ν) (i : Nat) : List (Option (κ × ν)) :=
  entriesFrom t.mem t.mem.brk (some i)

/-- The entries a lookup walks over: it stops at the first emptied node. -/
def visible {α : Type} : List (Option α) → List α
  | some e :: l => e :: visible l
  | _ => []

/-- The entries that lookups walk over, each with its bucket. -/
def visibleEntries (t : HashTable κ ν) : List (Nat × κ × ν) :=
  (List.range t.size).flatMap fun i => (visible (bucketEntries t i)).map fun e => (i, e)

/-- The `prev` of a node is NULL, or it is a node that links to this one. -/
def linkedBack (t : HashTable κ ν) (a : Nat) : Bool :=
  match (t.mem.load a).map Node.prev with
  | none => false
  | some none => true
  | some (some p) => (t.mem.load p).map Node.next == some (some a)

end

end TermCollection.Dns
