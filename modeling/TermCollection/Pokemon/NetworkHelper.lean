import TermCollection.Lib.Framing
import TermCollection.Lib.Machine
import TermCollection.Lib.Words

/-!
# Frames on a connection (`NetworkHelper.cpp` of the server and of the client)

A socket has a buffer of bytes that have arrived and are not read. `read` takes at most as many bytes as
there are. A `QByteArray` has a length of type `int`.
-/

namespace TermCollection.Pokemon

/-! ## Frames -/

inductive MessageType where
  | userSignUpRequest | userSignUpResponse
  | userLoginRequest | userLoginResponse
  | userInfoRequest | userInfoResponse
  | pokemonDataRequest | pokemonDataResponse
  | onlineUserListRequest | onlineUserListResponse
  | battleTurnInfo | battleGiveupInfo | battleOperationInfo | battleFinishInfo
  | battleStartRequest | battleStartResponse
  | battleInviteRequest | battleInviteResponse
  | transferPokemonRequest | transferPokemonResponse
  deriving DecidableEq

/-- A message with its serialized data. -/
structure Frame where
  messageType : MessageType
  body : List UInt8
  small : body.length < 2 ^ 31 - 8

/-- `PROC_PROTODATA` of both sides, and `PROC_PROTODATA_WITH_DEST`. -/
def procProtodata (f : Frame) : List UInt8 :=
  wordBytes (f.body.length + 4) ++ (wordBytes f.messageType.ctorIdx ++ f.body)

/-- The type word and the data. -/
def Frame.payload (f : Frame) : List UInt8 := wordBytes f.messageType.ctorIdx ++ f.body

/-! ## The server -/

namespace Server

/-- The loop of `slotReadClient`. A `uint32` is never below zero, so that the branch for that is left
out. -/
def readClientLoop : ℕ → List UInt8 → List UInt8 × List (List UInt8)
  | 0, buffer => (buffer, [])
  | fuel + 1, buffer =>
      if 4 ≤ buffer.length then
        let length := wordValue (buffer.take 4)
        let buffer := buffer.drop 4
        let (rest, out) := readClientLoop fuel (buffer.drop length)
        (rest, buffer.take length :: out)
      else (buffer, [])

/-- A segment arrives; the messages are the data of `sigGetMessage`. -/
def slotReadClient (buffer segment : List UInt8) : List UInt8 × List (List UInt8) :=
  readClientLoop ((buffer ++ segment).length + 1) (buffer ++ segment)

end Server

/-! ## The client -/

namespace Client

inductive SocketState where
  | unconnected
  | connecting
  | connected
  deriving DecidableEq

/-- The socket with its state, `m_status`, and the two static variables of `readyRead` that one call
leaves to the next. -/
structure NetworkHelper where
  state : SocketState
  buffer : List UInt8
  status : Bool
  flag : Bool
  length : ℕ
  deriving DecidableEq

namespace NetworkHelper

/-- The length of the next message, unless the last one is not complete yet. -/
def readLength (helper : NetworkHelper) : NetworkHelper :=
  if helper.flag then
    { helper with length := wordValue (helper.buffer.take 4), buffer := helper.buffer.drop 4 }
  else helper

def readLoop : ℕ → NetworkHelper → NetworkHelper × List (List UInt8)
  | 0, helper => (helper, [])
  | fuel + 1, helper =>
      if 4 ≤ helper.buffer.length then
        let helper := helper.readLength
        if helper.length ≤ 0 then readLoop fuel { helper with buffer := [], flag := true }
        else if helper.length ≤ helper.buffer.length then
          let (rest, out) :=
            readLoop fuel { helper with flag := true, buffer := helper.buffer.drop helper.length }
          (rest, helper.buffer.take helper.length :: out)
        else ({ helper with flag := false }, [])
      else (helper, [])

/-- A segment arrives; the messages are the data of `sigServerMessage`. -/
def readyRead (helper : NetworkHelper) (segment : List UInt8) : NetworkHelper × List (List UInt8) :=
  readLoop ((helper.buffer ++ segment).length + 1) { helper with buffer := helper.buffer ++ segment }

/-! ## Connections -/

/-- `QAbstractSocket::abort`. -/
def abort (helper : NetworkHelper) : NetworkHelper :=
  { helper with state := .unconnected, buffer := [] }

/-- `QAbstractSocket::connectToHost` starts only when there is no connection. -/
def connect2host (helper : NetworkHelper) : NetworkHelper :=
  if helper.state = .unconnected then { helper with state := .connecting, buffer := [] } else helper

def connectionTimeout (helper : NetworkHelper) : NetworkHelper :=
  if helper.state = .connecting then helper.abort else helper

def checkAndReconnect (helper : NetworkHelper) : NetworkHelper :=
  if helper.state ≠ .connected then helper.connect2host else helper

def connected (helper : NetworkHelper) : NetworkHelper := { helper with status := true }

def closeConnection (helper : NetworkHelper) : NetworkHelper :=
  match helper.state with
  | .unconnected => { helper with status := false }
  | .connecting => { helper.abort with status := false }
  | .connected => helper.abort

end NetworkHelper

inductive Event where
  | readyRead (segment : List UInt8)
  | disconnected
  | heartBeat
  | connected
  | timeout
  deriving DecidableEq

/-- The helper after its constructor and the first `connect2host`. -/
def newNetworkHelper : NetworkHelper := ⟨.connecting, [], false, true, 0⟩

/-- The signals of the socket and of the timers, with the slots they are connected to. -/
def helperStep : Machine NetworkHelper Event (List UInt8)
  | helper, .readyRead segment =>
      if helper.state = .connected then some (helper.readyRead segment) else none
  | helper, .disconnected =>
      if helper.state = .connected then
        some ({ helper with state := .unconnected }.closeConnection, [])
      else none
  | helper, .heartBeat => some (helper.checkAndReconnect, [])
  | helper, .connected =>
      if helper.state = .connecting then some ({ helper with state := .connected }.connected, [])
      else none
  | helper, .timeout => some (helper.connectionTimeout, [])

end Client

end TermCollection.Pokemon
