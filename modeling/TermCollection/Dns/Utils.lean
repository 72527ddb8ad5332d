import TermCollection.Dns.HashTable
import TermCollection.Lib.Calendar

/-!
# Data types and helpers of the DNS server (`config.h`, `utils_helper.c`)

A buffer is the whole block that `allocBuffer` returned. A read or write outside a block has no
defined result. The machine is little-endian.
-/

namespace TermCollection.Dns

/-! ## Data types -/

def arrLength : Nat := 64

def maxAmount : Nat := 1024

def bufferSize : Nat := 1024

structure SockAddrIn where
  sin_addr : UInt32
  sin_port : UInt16
  deriving DecidableEq

structure TransDNSRow where
  type : UInt16
  ttl : UInt32
  data : CString
  domain : CString

structure TransIDRow where
  prevID : UInt16
  finished : Bool
  client : SockAddrIn
  joinTime : Int
  offset : Int
  url : CString

/-- The system's broken-down local time. -/
structure SystemTime where
  wYear : Nat
  wMonth : Nat
  wDay : Nat
  wHour : Nat
  wMinute : Nat
  wSecond : Nat
  wMilliseconds : Nat
  month_range : 1 ≤ wMonth ∧ wMonth ≤ 12 := by decide
  day_range : 1 ≤ wDay ∧ wDay ≤ daysInMonth wYear wMonth := by decide
  hour_lt : wHour < 24 := by decide
  minute_lt : wMinute < 60 := by decide
  second_lt : wSecond < 60 := by decide
  milliseconds_lt : wMilliseconds < 1000 := by decide
  deriving DecidableEq

structure Time where
  day : UInt8
  hour : UInt8
  minute : UInt8
  second : UInt8
  milliseconds : UInt32

def typeA : UInt16 := 1

def typeCNAME : UInt16 := 5

def typePTR : UInt16 := 12

def typeAAAA : UInt16 := 28

/-! ## Time -/

def syncTime (sysTime : SystemTime) : Time where
  day := UInt8.ofNat sysTime.wDay
  hour := UInt8.ofNat sysTime.wHour
  minute := UInt8.ofNat sysTime.wMinute
  second := UInt8.ofNat sysTime.wSecond
  milliseconds := (UInt8.ofNat sysTime.wMilliseconds).toUInt32

def toSecond (pTime : Time) : UInt32 :=
  UInt32.ofNat (pTime.day.toNat * 24 * 60 * 60 + pTime.hour.toNat * 60 * 60 +
    pTime.minute.toNat * 60 + pTime.second.toNat)

/-! ## Bytes -/

/-- `strlen`, where the zero has to come within the block. -/
def strlen : List UInt8 → Option Nat
  | [] => none
  | b :: bs => if b = 0 then some 0 else (strlen bs).map (· + 1)

/-- The C string that starts at an offset of the block. -/
def cstringAt (base : List UInt8) (i : Nat) : Option CString := do
  let len ← strlen (base.drop i)
  some ((base.drop i).take len)

/-- `memcpy` out of a block. -/
def slice (base : List UInt8) (i n : Nat) : Option (List UInt8) :=
  if i + n ≤ base.length then some ((base.drop i).take n) else none

/-- `memcpy` into a block. -/
def splice (base : List UInt8) (i : Nat) (bytes : List UInt8) : Option (List UInt8) :=
  if i + bytes.length ≤ base.length then
    some (base.take i ++ bytes ++ base.drop (i + bytes.length))
  else none

/-- A `byte2` in memory. -/
def toBytes2 (v : UInt16) : List UInt8 := [v.toUInt8, (v >>> 8).toUInt8]

def toBytes4 (v : UInt32) : List UInt8 :=
  [v.toUInt8, (v >>> 8).toUInt8, (v >>> 16).toUInt8, (v >>> 24).toUInt8]

def read2 (base : List UInt8) (i : Nat) : Option UInt16 := do
  let b₀ ← base[i]?
  let b₁ ← base[i + 1]?
  some (b₀.toUInt16 ||| (b₁.toUInt16 <<< 8))

def read4 (base : List UInt8) (i : Nat) : Option UInt32 := do
  let b₀ ← base[i]?
  let b₁ ← base[i + 1]?
  let b₂ ← base[i + 2]?
  let b₃ ← base[i + 3]?
  some (b₀.toUInt32 ||| (b₁.toUInt32 <<< 8) ||| (b₂.toUInt32 <<< 16) ||| (b₃.toUInt32 <<< 24))

def bigLittleSwap16 (x : UInt16) : UInt16 := ((x &&& 0xFF00) >>> 8) ||| ((x &&& 0x00FF) <<< 8)

def bigLittleSwap32 (x : UInt32) : UInt32 :=
  ((x &&& 0xFF000000) >>> 24) ||| ((x &&& 0x00FF0000) >>> 8) |||
    ((x &&& 0x0000FF00) <<< 8) ||| ((x &&& 0x000000FF) <<< 24)

/-- Whether the first byte of a word is its highest one. -/
def checkCPUendian : Bool := false

def nhswap_s (value : UInt16) : UInt16 := if checkCPUendian then value else bigLittleSwap16 value

def nhswap_l (value : UInt32) : UInt32 := if checkCPUendian then value else bigLittleSwap32 value

/-! ## Names -/

/-- The loop of `parseUrlFromData`: `url` has 1024 bytes, `len` of them before the first zero, and
`out` is what was written to `result` so far. A byte from 64 to 191 is never passed, so that the loop
writes on until it leaves `result`. -/
def parseUrlLoop (base url : List UInt8) (len : Nat) :
    Nat → Nat → List UInt8 → Option (List UInt8)
  | 0, _, _ => none
  | fuel + 1, i, out =>
      if i < len then do
        let c ← url[i]?
        let (i, out) ←
          if 0 < c ∧ c ≤ 63 then do
            let label ← slice url (i + 1) c.toNat
            if out.length + label.length < bufferSize then some (i + 1 + c.toNat, out ++ label) else none
          else some (i, out)
        let c ← url[i]?
        if c ≠ 0 then
          if 192 ≤ c then do
            let low ← url[i + 1]?
            let copySrc ← cstringAt base ((c.toNat - 192) * 256 + low.toNat + 1)
            let out := out ++ [46]
            -- the size given to `strcpy_s` leaves out one byte of the buffer
            if out.length + copySrc.length + 2 ≤ bufferSize then some (out ++ copySrc) else none
          else if out.length + 1 < bufferSize then parseUrlLoop base url len fuel i (out ++ [46])
          else none
        else parseUrlLoop base url len fuel i out
      else some out

/-- The inner `none` is NULL. -/
def parseUrlFromData (base : List UInt8) (buffer : Nat) (size : Int) : Option (Option CString) :=
  if 1024 < size ∨ size ≤ 0 then some none
  else do
    let data ← slice base buffer size.toNat
    let url := data ++ List.replicate (bufferSize - data.length) 0
    let len ← strlen url
    let result ← parseUrlLoop base url len (2 * bufferSize) 0 []
    some (some (result.takeWhile (· ≠ 0)))

def findAnswerStart (base : List UInt8) (pData : Nat) : Option Nat := do
  let len ← strlen (base.drop pData)
  some (pData + len + 5)

/-! ## Numbers -/

def isSpace (c : UInt8) : Bool := c = 32 || (9 ≤ c && c ≤ 13)

def isDigit (c : UInt8) : Bool := 48 ≤ c && c ≤ 57

def digitsValue (nptr : CString) : UInt32 :=
  (nptr.takeWhile isDigit).foldl (fun total c => 10 * total + (c - 48).toUInt32) 0

def atol_t (nptr : CString) : UInt32 :=
  match nptr.dropWhile isSpace with
  | [] => 0
  | c :: rest =>
      if c = 45 then -digitsValue rest
      else if c = 43 then digitsValue rest
      else digitsValue (c :: rest)

/-- The bytes of `inet_addr_t`, in the order they have in memory. -/
def inetBytes : Nat → CString → List UInt8
  | 0, _ => []
  | n + 1, cp =>
      (atol_t cp).toUInt8 ::
        match cp.dropWhile (· ≠ 46) with
        | [] => List.replicate n 0
        | _ :: cp => inetBytes n cp

def inet_addr_t (cp : CString) : List UInt8 := inetBytes 4 cp

end TermCollection.Dns
