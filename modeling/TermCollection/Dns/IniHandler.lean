import TermCollection.Lib.Lines
import TermCollection.Dns.HashTable

/-!
# The configuration file (`ini_handler.c`)

A file is the text that is read from it or written to it in text mode. A call without a result is one that
writes behind the end of an array or uses a file that was not opened.
-/

namespace TermCollection.Dns

/-! ## Strings -/

/-- `strncmp` finds no difference in the first `n` bytes. -/
def strncmpEq (s t : CString) (n : Nat) : Bool := s.take n = t.take n

/-- The index that `strchr` points to; `none` is NULL. -/
def strchr (s : CString) (c : UInt8) : Option Nat :=
  if c ∈ s then some (s.takeWhile (· ≠ c)).length else none

/-- `strlen(s) - 1` as a `size_t`. -/
def lastIndex : CString → Nat
  | [] => 0xFFFFFFFFFFFFFFFF
  | _ :: s => s.length

/-- `fgets` into a buffer of 1024 bytes: the string that it leaves there, and the rest of the file. -/
def fgetsLine (file : List UInt8) : CString × List UInt8 :=
  ((readLine 10 1023 file).1.takeWhile (· ≠ 0), (readLine 10 1023 file).2)

/-- The title in brackets, in the 32 bytes of `sTitle`. -/
def bracketed (title : CString) : CString := [91] ++ title ++ [93]

def sprintfTitle (title : CString) : Option CString :=
  if (bracketed title).length < 32 then some (bracketed title) else none

/-! ## Files -/

structure Disk where
  file : CString → Option (List UInt8)
  /-- Whether a file can be opened to be written. -/
  creates : CString → Bool
  /-- Whether a file can be renamed. -/
  renames : CString → CString → Bool

def Disk.write (disk : Disk) (filename : CString) (text : List UInt8) : Disk :=
  { disk with file := Function.update disk.file filename (some text) }

def Disk.rename (disk : Disk) (source target : CString) : Disk :=
  { disk with file := Function.update (Function.update disk.file target (disk.file source)) source none }

/-- The name with `.tmp` behind it, in the 1024 bytes of `sLine`. -/
def sprintfTmp (filename : CString) : Option CString :=
  if filename.length + 4 < 1024 then some (filename ++ [46, 116, 109, 112]) else none

/-! ## Look-up -/

/-- The line starts with `//` or `#`. -/
def isComment (sLine : CString) : Bool := strncmpEq [47, 47] sLine 2 || sLine.head? = some 35

/-- Whether the line is taken for the one with the title. -/
def opens (sTitle sLine : CString) : Bool := strncmpEq sTitle sLine (lastIndex sLine)

def getLoop (sTitle key : CString) : Nat → Nat → List UInt8 → Option CString
  | 0, _, _ => none
  | _ + 1, _, [] => none
  | fuel + 1, flag, file =>
      let (sLine, file) := fgetsLine file
      if isComment sLine then getLoop sTitle key fuel flag file
      else
        match strchr sLine 61, flag with
        | some wTmp, 1 =>
            if strncmpEq key sLine wTmp then some (sLine.drop (wTmp + 1)).dropLast
            else getLoop sTitle key fuel flag file
        | _, _ => getLoop sTitle key fuel (if opens sTitle sLine then 1 else flag) file

/-- The inner `none` is NULL. -/
def getIniKeyString (disk : Disk) (title key filename : CString) : Option (Option CString) := do
  let sTitle ← sprintfTitle title
  match disk.file filename with
  | none => some none
  | some text => some (getLoop sTitle key text.length 0 text)

/-! ## Update -/

/-- What becomes of the flag and of a line. -/
def putLine (sTitle key val : CString) (flag : Nat) (sLine : CString) : Option (Nat × CString) :=
  match strchr sLine 61, flag with
  | _, 2 => some (flag, sLine)
  | some wTmp, 1 =>
      if strncmpEq key sLine wTmp then
        if wTmp + 1 + (val.length + 1) < 1024 then some (2, sLine.take (wTmp + 1) ++ val ++ [10]) else none
      else some (flag, sLine)
  | _, _ => some (if opens sTitle sLine then 1 else flag, sLine)

def putLoop (sTitle key val : CString) : Nat → Nat → List UInt8 → Option (List UInt8)
  | 0, _, _ => some []
  | _ + 1, _, [] => some []
  | fuel + 1, flag, file => do
      let (flag, sLine) ← putLine sTitle key val flag (fgetsLine file).1
      let text ← putLoop sTitle key val fuel flag (fgetsLine file).2
      some (sLine ++ text)

def putIniKeyString (disk : Disk) (title key val filename : CString) : Option (Int × Disk) := do
  let sTitle ← sprintfTitle title
  let text ← disk.file filename
  let tmp ← sprintfTmp filename
  if disk.creates tmp then do
    let disk := disk.write tmp (← putLoop sTitle key val text.length 0 text)
    if disk.renames tmp filename then some (0, disk.rename tmp filename) else some (-1, disk)
  else none

end TermCollection.Dns
