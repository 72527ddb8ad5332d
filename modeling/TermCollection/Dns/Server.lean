import Mathlib.Logic.Function.Basic
import TermCollection.Lib.Machine
import TermCollection.Dns.Utils

/-!
# The DNS server (`main.c`)

The state is that of the static variables, and an event is a call of one of the two receive callbacks.
A handler reads the clock several times: `clock k` is the `k`-th reading during the event. A step
without a result is one that leaves an array, reads a freed node or does not end.
-/

namespace TermCollection.Dns

/-- What the table's key pointers point to. -/
inductive KeyRef where
  | url (row : Nat)
  | domain (row : Nat)
  deriving DecidableEq

structure Server where
  idTable : Nat → TransIDRow
  dnsTable : Nat → TransDNSRow
  dnsHashTable : HashTable KeyRef Nat
  idRowCount : Nat
  dnsRowCount : Nat

/-- The string a key pointer points to at present. -/
def Server.str (s : Server) : KeyRef → CString
  | .url row => (s.idTable row).url
  | .domain row => (s.dnsTable row).domain

/-- What `uv_ip4_name` leaves in a zeroed buffer of the given size, and the address `uv_ip4_addr` sets
for a text. -/
structure LibUv where
  ip4Name : UInt32 → Nat → CString
  ip4Addr : CString → UInt32

inductive Event where
  | request (nread : Int) (base : List UInt8) (addr : SockAddrIn) (clock : Nat → SystemTime)
  | response (nread : Int) (base : List UInt8) (clock : Nat → SystemTime)

inductive Socket where
  | localSocket
  | serverSocket
  deriving DecidableEq

/-- The calls of libuv, and the filling of a row of the DNS table. -/
inductive Output where
  | toClient (dest : SockAddrIn) (data : List UInt8)
  | toServer (data : List UInt8)
  | close (socket : Socket)
  | cached (row : Nat) (domain data : CString) (ttl : UInt32) (now : SystemTime)
  deriving DecidableEq

/-! ## The ID table -/

def now (time : SystemTime) : UInt32 := toSecond (syncTime time)

/-- The state after `getNewID` has written the row `idRowCount`. -/
def Server.fill (s : Server) (oldID : UInt16) (addr : SockAddrIn) (isDone : Bool) (offset : Int)
    (url : CString) (time : SystemTime) : Server :=
  { s with
    idTable := Function.update s.idTable s.idRowCount {
      prevID := oldID
      finished := isDone
      client := addr
      joinTime := (now time).toNat
      offset := offset
      url := url }
    idRowCount := (s.idRowCount + 1) % maxAmount }

def getNewID (s : Server) (oldID : UInt16) (addr : SockAddrIn) (isDone : Bool) (offset : Int)
    (url : CString) (time : SystemTime) : Option (UInt16 × Server) :=
  if url.length < arrLength then
    let s := s.fill oldID addr isDone offset url time
    some (UInt16.ofNat ((s.idRowCount + maxAmount - 1) % maxAmount), s)
  else none

/-! ## Requests -/

/-- The sixteen bytes of an answer with the given address. -/
def answerBytes (ip : List UInt8) : List UInt8 :=
  toBytes2 (nhswap_s 0xc00c) ++ toBytes2 (nhswap_s 0x0001) ++ toBytes2 (nhswap_s 0x0001) ++
    toBytes4 (nhswap_l 0x7b) ++ toBytes2 (nhswap_s 0x0004) ++ ip

/-- The answer to a request, sent back to the client: `answerNum` goes into the header as it is. -/
def replyLocal (uv : LibUv) (s : Server) (newID : UInt16) (base : List UInt8) (nread : Nat)
    (addr : SockAddrIn) (answerNum : UInt16) (ip : List UInt8) : Option (List Output) := do
  let sender := uv.ip4Name addr.sin_addr 15
  let base ← splice base 2 (toBytes2 (nhswap_s 0x8180))
  let base ← splice base 6 (toBytes2 answerNum)
  let base ← splice base nread (answerBytes ip)
  let port := nhswap_s (s.idTable newID.toNat).client.sin_port
  if nread + 16 ≤ bufferSize then
    some [.toClient ⟨uv.ip4Addr sender, nhswap_s port⟩ (base.take (nread + 16))]
  else none

/-- The indices of the first four dots. -/
def dotIndices (pUrl : CString) : List Nat :=
  ((List.range pUrl.length).filter fun i => pUrl[i]? = some 46).take 4

/-- The four numbers before `.in-addr.arpa` in reverse order. A negative length is a huge `size_t`. -/
def ptrAddress (pUrl : CString) : Option CString :=
  let dotIndex := fun i => (dotIndices pUrl).getD i 0
  let copy := fun (result : CString) (i : Nat) =>
    if dotIndex (i - 1) < dotIndex i then
      let label := (pUrl.drop (dotIndex (i - 1) + 1)).take (dotIndex i - dotIndex (i - 1) - 1)
      if result.length + label.length < 16 then some (result ++ label ++ [46]) else none
    else none
  do
    let result ← [3, 2, 1].foldlM copy []
    let label := pUrl.take (dotIndex 0)
    if result.length + label.length < 16 then some (result ++ label) else none

def answerPTR (uv : LibUv) (s : Server) (base : List UInt8) (nread : Nat) (id : UInt16)
    (addr : SockAddrIn) (pUrl : CString) (clock : Nat → SystemTime) :
    Option (Server × List Output) := do
  let result ← ptrAddress pUrl
  let (newID, s) ← getNewID s (nhswap_s id) addr true nread pUrl (clock 1)
  let out ← replyLocal uv s newID base nread addr (nhswap_s 0x8180) (inet_addr_t result)
  some (s, out)

/-- The text `0.0.0.0`. -/
def bannedIP : CString := [48, 46, 48, 46, 48, 46, 48]

def answerLocal (uv : LibUv) (s : Server) (base : List UInt8) (nread : Nat) (id : UInt16)
    (addr : SockAddrIn) (pUrl : CString) (result : TransDNSRow) (clock : Nat → SystemTime) :
    Option (Server × List Output) := do
  let (newID, s) ← getNewID s (nhswap_s id) addr true nread pUrl (clock 1)
  let answerNum := nhswap_s (if result.data = bannedIP then 0x0000 else 0x0001)
  let out ← replyLocal uv s newID base nread addr answerNum (inet_addr_t result.data)
  some (s, out)

def forwardRequest (s : Server) (base : List UInt8) (nread : Nat) (id : UInt16) (addr : SockAddrIn)
    (pUrl : CString) (clock : Nat → SystemTime) : Option (Server × List Output) := do
  let (newID, s) ← getNewID s (nhswap_s id) addr false nread pUrl (clock 1)
  let base ← splice base 0 (toBytes2 (nhswap_s newID))
  some (s, [.toServer (base.take nread)])

/-- The row a lookup of the name gives, with its node. -/
def lookupRow (s : Server) (pUrl : CString) : Option (Option (Nat × Nat)) := do
  match ← findNodeByKey s.str s.dnsHashTable pUrl with
  | none => some none
  | some node => do
      let nd ← s.dnsHashTable.mem.load node
      some (nd.value.map fun row => (node, row))

def answerName (uv : LibUv) (s : Server) (base : List UInt8) (nread : Nat) (id : UInt16)
    (addr : SockAddrIn) (pUrl : CString) (clock : Nat → SystemTime) :
    Option (Server × List Output) := do
  match ← lookupRow s pUrl with
  | none => forwardRequest s base nread id addr pUrl clock
  | some (node, row) =>
      if now (clock 0) < (s.dnsTable row).ttl then
        answerLocal uv s base nread id addr pUrl (s.dnsTable row) clock
      else do
        let (_, table) ← removeHashItemByNode s.dnsHashTable (some node)
        forwardRequest { s with dnsHashTable := table } base nread id addr pUrl clock

/-- The ID, the name and the type of a request; the inner `none` is a name that is NULL. -/
def readRequest (base : List UInt8) (nread : Nat) : Option (Option (UInt16 × CString × UInt16)) := do
  let pUrl ← parseUrlFromData base 12 ((nread : Int) - 16)
  let id ← read2 base 0
  if nread < 4 then none
  else do
    let reqType ← read2 base (nread - 4)
    let _ ← read2 base (nread - 2)
    some (pUrl.map fun url => (id, url, nhswap_s reqType))

def onReadRequest (uv : LibUv) (s : Server) (nread : Int) (base : List UInt8) (addr : SockAddrIn)
    (clock : Nat → SystemTime) : Option (Server × List Output) :=
  if nread < 0 then some (s, [.close .localSocket])
  else if 1024 < nread then some (s, [])
  else do
    match ← readRequest base nread.toNat with
    | none => some (s, [])
    | some (id, pUrl, reqType) =>
        if reqType = typePTR then answerPTR uv s base nread.toNat id addr pUrl clock
        else answerName uv s base nread.toNat id addr pUrl clock

/-! ## Responses -/

/-- A resource record as the handler reads it. -/
inductive Answer where
  | a (ttl : UInt32) (result : CString)
  | other (type : UInt16)

def decimal (n : Nat) : CString := (Nat.toDigits 10 n).map fun c => UInt8.ofNat c.toNat

def hexadecimal (n : Nat) : CString := (Nat.toDigits 16 n).map fun c => UInt8.ofNat c.toNat

/-- A text that fits into `result[64]`. -/
def fits (text : CString) : Option CString := if text.length < arrLength then some text else none

/-- The bytes of the data in decimal, with dots between them. -/
def textA (data : List UInt8) : Option CString :=
  fits ((data.map fun b => decimal b.toNat).intersperse [46]).flatten

/-- The loop of the `AAAA` case from index `j` on. -/
def textAAAALoop (base : List UInt8) (start dataLength : Nat) :
    Nat → Nat → Bool → CString → Option CString
  | 0, _, _, _ => none
  | fuel + 1, j, firstZFlag, result =>
      if j < dataLength then do
        let ipValue := nhswap_s (← read2 base (start + j))
        if ipValue = 0 then
          textAAAALoop base start dataLength fuel (j + 2) true
            (if firstZFlag then result else result ++ [58])
        else
          let result := result ++ hexadecimal ipValue.toNat
          textAAAALoop base start dataLength fuel (j + 2) firstZFlag
            (if j + 2 ≠ dataLength then result ++ [58] else result)
      else fits result

/-- The record at an offset, and the offset after it. -/
def readAnswer (base : List UInt8) (off : Nat) : Option (Answer × Nat) := do
  let _ ← read2 base off
  let type := nhswap_s (← read2 base (off + 2))
  let _ ← read2 base (off + 4)
  let ttl := nhswap_l (← read4 base (off + 6))
  let dataLength := (nhswap_s (← read2 base (off + 10))).toNat
  let start := off + 12
  let answer ←
    if type = typeA then do
      let result ← textA (← slice base start dataLength)
      some (.a ttl result)
    else if type = typeAAAA then do
      let _ ← textAAAALoop base start dataLength (dataLength + 1) 0 false []
      some (.other type)
    else if type = typeCNAME then do
      let _ ← parseUrlFromData base start dataLength
      some (.other type)
    else some (.other type)
  some (answer, start + dataLength)

def readAnswers (base : List UInt8) : Nat → Nat → Option (List Answer)
  | 0, _ => some []
  | n + 1, off => do
      let (answer, off) ← readAnswer base off
      let answers ← readAnswers base n off
      some (answer :: answers)

/-- The answers of a response. -/
def responseAnswers (base : List UInt8) : Option (List Answer) := do
  let start ← findAnswerStart base 12
  let answerNum ← read2 base 6
  readAnswers base (nhswap_s answerNum).toNat start

/-- The state after the row `dnsRowCount` was written for the name in row `temp` of the ID table. -/
def Server.cacheRow (s : Server) (temp : Nat) (ttl : UInt32) (result : CString) (time : SystemTime)
    (table : HashTable KeyRef Nat) : Server :=
  { s with
    dnsTable := Function.update s.dnsTable s.dnsRowCount {
      type := typeA
      ttl := now time + ttl
      data := result
      domain := (s.idTable temp).url }
    dnsHashTable := table
    dnsRowCount := (s.dnsRowCount + 1) % maxAmount }

/-- The cache entry of one answer, when the name of the request is not cached yet. -/
def cacheAnswer (s : Server) (temp : Nat) (time : SystemTime) : Answer → Option (Server × List Output)
  | .other _ => some (s, [])
  | .a ttl result => do
      match ← findValueByKey s.str s.dnsHashTable (s.idTable temp).url with
      | some _ => some (s, [])
      | none =>
          if s.dnsRowCount < maxAmount then do
            let written := s.cacheRow temp ttl result time s.dnsHashTable
            let (_, table) ← insertHashItem written.str s.dnsHashTable (.url temp) s.dnsRowCount
            some (s.cacheRow temp ttl result time table,
              [.cached s.dnsRowCount (s.idTable temp).url result ttl time])
          else none

/-- The loop over the answers, the `i`-th of which reads the clock as `clock i`. -/
def cacheAnswers (temp : Nat) (clock : Nat → SystemTime) :
    Server → Nat → List Answer → Option (Server × List Output)
  | s, _, [] => some (s, [])
  | s, i, answer :: answers => do
      let (s, out) ← cacheAnswer s temp (clock i) answer
      let (s, outs) ← cacheAnswers temp clock s (i + 1) answers
      some (s, out ++ outs)

def Server.finish (s : Server) (temp : Nat) : Server :=
  { s with
    idTable := Function.update s.idTable temp { s.idTable temp with finished := true } }

/-- Whether the response to the request of a row comes more than two seconds later. -/
def overTime (row : TransIDRow) (time : SystemTime) : Bool :=
  2 < ((now time).toNat : Int) - row.joinTime

def onReadResponse (uv : LibUv) (s : Server) (nread : Int) (base : List UInt8)
    (clock : Nat → SystemTime) : Option (Server × List Output) :=
  if nread < 0 ∨ 1024 < nread then some (s, [.close .serverSocket])
  else do
    let temp := (nhswap_s (← read2 base 0)).toNat
    if maxAmount ≤ temp then none
    else
      let row := s.idTable temp
      if overTime row (clock 0) then some (s, [])
      else do
        let answers ← responseAnswers base
        let (s, cached) ← cacheAnswers temp clock (s.finish temp) 1 answers
        let base ← splice base 0 (toBytes2 (nhswap_s row.prevID))
        let data ← slice base 0 nread.toNat
        let client := uv.ip4Name row.client.sin_addr 16
        let dest := ⟨uv.ip4Addr client, nhswap_s (nhswap_s row.client.sin_port)⟩
        some (s, cached ++ [.toClient dest data])

def serverStep (uv : LibUv) : Machine Server Event Output
  | s, .request nread base addr clock => onReadRequest uv s nread base addr clock
  | s, .response nread base clock => onReadResponse uv s nread base clock

/-! ## What an event is about -/

/-- The ID, the name and the type of a request that takes a row of the ID table. -/
def acceptedRequest : Event → Option (UInt16 × CString × UInt16)
  | .request nread base _ _ =>
      if 0 ≤ nread ∧ nread ≤ 1024 then (readRequest base nread.toNat).join else none
  | .response .. => none

/-- The datagrams that go to clients. -/
def toClients (o : List Output) : List (SockAddrIn × List UInt8) :=
  o.filterMap fun
    | .toClient dest data => some (dest, data)
    | _ => none

/-- The row of the ID table that a response names, when it does not come too late. -/
def responseRow (s : Server) : Event → Option Nat
  | .response nread base clock =>
      if 0 ≤ nread ∧ nread ≤ 1024 then do
        let temp := (nhswap_s (← read2 base 0)).toNat
        if temp < maxAmount ∧ overTime (s.idTable temp) (clock 0) = false then some temp else none
      else none
  | .request .. => none

/-- The node of a row that a request finds expired, so that it is removed. -/
def expiredNode (s : Server) (e : Event) : Option Nat :=
  match acceptedRequest e, e with
  | some (_, url, type), .request _ _ _ clock =>
      if type = typePTR then none
      else
        match lookupRow s url with
        | some (some (node, row)) => if now (clock 0) < (s.dnsTable row).ttl then none else some node
        | _ => none
  | _, _ => none

def caches (s : Server) (temp : Nat) : Answer → Bool
  | .a _ _ => findValueByKey s.str s.dnsHashTable (s.idTable temp).url = some none
  | .other _ => false

/-- The states in which the loop over the answers writes a row of the DNS table. -/
def cachePoints (temp : Nat) (clock : Nat → SystemTime) : Server → Nat → List Answer → List Server
  | _, _, [] => []
  | s, i, answer :: answers =>
      (if caches s temp answer then [s] else []) ++
        match cacheAnswer s temp (clock i) answer with
        | none => []
        | some (s, _) => cachePoints temp clock s (i + 1) answers

def eventCachePoints (s : Server) : Event → List Server
  | .request .. => []
  | .response nread base clock =>
      match responseRow s (.response nread base clock), responseAnswers base with
      | some temp, some answers => cachePoints temp clock (s.finish temp) 1 answers
      | _, _ => []

/-! ## Start -/

def emptyServer : Server where
  idTable _ := ⟨0, false, ⟨0, 0⟩, 0, 0, []⟩
  dnsTable _ := ⟨0, 0, [], []⟩
  dnsHashTable := newHashTable maxAmount
  idRowCount := 0
  dnsRowCount := 0

/-- `fgets` of a buffer of 256 bytes: a line with its newline, or its first 255 bytes. -/
def fgets (file : List UInt8) : List UInt8 × List UInt8 :=
  let line := file.take 255
  let n := line.findIdx (· = 10)
  (line.take (n + 1), file.drop (min (n + 1) 255))

/-- One line of the file: the text before the first space, and the text behind it without its last
byte. -/
def loadLine (s : Server) (line : List UInt8) : Option Server := do
  let data := line.takeWhile (· ≠ 0)
  let n := data.findIdx (· = 32)
  if n < data.length ∧ n < arrLength ∧ s.dnsRowCount < maxAmount then
    let domain := data.drop (n + 1)
    if 0 < domain.length ∧ domain.length < arrLength then do
      let dnsTable := Function.update s.dnsTable s.dnsRowCount
        { type := typeA, ttl := 0x3F3F3F3F, data := data.take n, domain := domain.dropLast }
      let s := { s with dnsTable := dnsTable }
      let (_, table) ← insertHashItem s.str s.dnsHashTable (.domain s.dnsRowCount) s.dnsRowCount
      some { s with dnsHashTable := table, dnsRowCount := s.dnsRowCount + 1 }
    else none
  else none

def loadLoop : Nat → Server → List UInt8 → Option Server
  | 0, s, _ => some s
  | _ + 1, s, [] => some s
  | fuel + 1, s, file => do
      let s ← loadLine s (fgets file).1
      loadLoop fuel s (fgets file).2

/-- The file in text mode, byte by byte. -/
def loadDNSTableData (file : List UInt8) : Option Server := loadLoop file.length emptyServer file

end TermCollection.Dns
