import TermCollection.Pokemon.MalformedFrames
import TermCollection.Pokemon.Protocol

/-!
# Packets (`PROC_PROTODATA`, `slotGetMessage`, `slotGetServerMessage`)

A packet is the data of one message. Its sender puts the length and the type before the serialized data; its
receiver takes the type out of the first four bytes, and parses the others as the data of that type. A parser
that fails leaves a part of the data; this is left out.
-/

namespace TermCollection.Pokemon

open Protobuf UserProtocol BattleProtocol

/-! ## Blocks of data -/

/-- What `PROC_PROTODATA` is given. -/
structure DataBlock where
  messageType : MessageType
  Info : Type
  codec : MessageCodec Info
  info : Info

namespace DataBlock

variable {block : DataBlock}

def serialized (block : DataBlock) : List UInt8 := block.codec.serialize block.info

/-- The length is that of `ByteSizeLong`. -/
def procProtodata (block : DataBlock) : List UInt8 :=
  wordBytes (block.codec.size block.info + 4) ++ (wordBytes block.messageType.ctorIdx ++ block.serialized)

/-- The data can be told from their bytes, which are not too many for a parser. -/
structure Sendable (block : DataBlock) : Prop where
  kept : block.codec.Kept block.info
  size : block.serialized.length ≤ maxSize

theorem Sendable.small (h : block.Sendable) : block.serialized.length < 2 ^ 31 - 8 := by
  have hsize := h.size
  rw [maxSize] at hsize
  omega

def frame (block : DataBlock) (h : block.Sendable) : Frame :=
  ⟨block.messageType, block.serialized, h.small⟩

/-- The length word is right. -/
theorem procProtodata_eq (h : block.Sendable) :
    block.procProtodata = Pokemon.procProtodata (block.frame h) := by
  rw [procProtodata, block.codec.size_serialize block.info h.size]
  rfl

theorem Sendable.parse (h : block.Sendable) (depth : ℕ) :
    block.codec.parse depth block.serialized = some block.info :=
  block.codec.parse_serialize depth block.info h.kept h.size

end DataBlock

/-! ## Packets of the client -/

/-- An invitation goes out as the data of a battle to start. -/
inductive ClientPacket where
  | userSignUpRequest (info : UserSignUpRequestInfo)
  | userLoginRequest (info : UserLoginRequestInfo)
  | userInfoRequest (info : UserInfoRequest)
  | onlineUserListRequest (info : OnlineUserListRequestInfo)
  | pokemonDataRequest (info : UserPokemonDataRequestInfo)
  | battleInviteRequest (info : BattleStartRequest)
  | battleInviteResponse (info : BattleInviteResponse)
  | battleOperationInfo (info : BattleOperationInfo)
  | transferPokemonRequest (info : TransferPokemonRequest)
  | battleGiveupInfo (info : BattleGiveupInfo)
  deriving DecidableEq

def ClientPacket.dataBlock : ClientPacket → DataBlock
  | userSignUpRequest info => ⟨.userSignUpRequest, _, UserSignUpRequestInfo.codec, info⟩
  | userLoginRequest info => ⟨.userLoginRequest, _, UserLoginRequestInfo.codec, info⟩
  | userInfoRequest info => ⟨.userInfoRequest, _, UserInfoRequest.codec, info⟩
  | onlineUserListRequest info => ⟨.onlineUserListRequest, _, OnlineUserListRequestInfo.codec, info⟩
  | pokemonDataRequest info => ⟨.pokemonDataRequest, _, UserPokemonDataRequestInfo.codec, info⟩
  | battleInviteRequest info => ⟨.battleInviteRequest, _, BattleStartRequest.codec, info⟩
  | battleInviteResponse info => ⟨.battleInviteResponse, _, BattleInviteResponse.codec, info⟩
  | battleOperationInfo info => ⟨.battleOperationInfo, _, BattleOperationInfo.codec, info⟩
  | transferPokemonRequest info => ⟨.transferPokemonRequest, _, TransferPokemonRequest.codec, info⟩
  | battleGiveupInfo info => ⟨.battleGiveupInfo, _, BattleGiveupInfo.codec, info⟩

namespace Server

/-- The parsers of the slots that `slotGetMessage` calls. -/
def parseFromArray : MessageType → List UInt8 → Option ClientPacket
  | .userSignUpRequest, data => (UserSignUpRequestInfo.codec.parse 100 data).map .userSignUpRequest
  | .userLoginRequest, data => (UserLoginRequestInfo.codec.parse 100 data).map .userLoginRequest
  | .userInfoRequest, data => (UserInfoRequest.codec.parse 100 data).map .userInfoRequest
  | .onlineUserListRequest, data =>
      (OnlineUserListRequestInfo.codec.parse 100 data).map .onlineUserListRequest
  | .pokemonDataRequest, data => (UserPokemonDataRequestInfo.codec.parse 100 data).map .pokemonDataRequest
  | .battleInviteRequest, data => (BattleStartRequest.codec.parse 100 data).map .battleInviteRequest
  | .battleInviteResponse, data => (BattleInviteResponse.codec.parse 100 data).map .battleInviteResponse
  | .battleOperationInfo, data => (BattleOperationInfo.codec.parse 100 data).map .battleOperationInfo
  | .transferPokemonRequest, data =>
      (TransferPokemonRequest.codec.parse 100 data).map .transferPokemonRequest
  | .battleGiveupInfo, data => (BattleGiveupInfo.codec.parse 100 data).map .battleGiveupInfo
  | _, _ => none

/-- The packet that a slot handles; the inner `none` is an unknown type, for which there is no slot. -/
def slotGetMessage (data : List UInt8) : Option (Option ClientPacket) := do
  match ← callSlot data with
  | none => some none
  | some (type, data) => (parseFromArray type data).map some

end Server

/-! ## Packets of the server -/

inductive ServerPacket where
  | userSignUpResponse (info : UserSignUpResponseInfo)
  | userLoginResponse (info : UserLoginResponseInfo)
  | userInfoResponse (info : UserProtocol.UserInfoResponse)
  | onlineUserListResponse (info : OnlineUserListResponseInfo)
  | pokemonDataResponse (info : UserPokemonDataResponseInfo)
  | battleInviteRequest (info : BattleProtocol.BattleInviteRequest)
  | battleStartResponse (info : BattleProtocol.BattleStartResponse)
  | battleTurnInfo (info : BattleProtocol.BattleTurnInfo)
  | battleFinishInfo (info : BattleProtocol.BattleFinishInfo)
  | transferPokemonResponse (info : UserProtocol.TransferPokemonResponse)
  deriving DecidableEq

def ServerPacket.dataBlock : ServerPacket → DataBlock
  | userSignUpResponse info => ⟨.userSignUpResponse, _, UserSignUpResponseInfo.codec, info⟩
  | userLoginResponse info => ⟨.userLoginResponse, _, UserLoginResponseInfo.codec, info⟩
  | userInfoResponse info => ⟨.userInfoResponse, _, UserProtocol.UserInfoResponse.codec, info⟩
  | onlineUserListResponse info => ⟨.onlineUserListResponse, _, OnlineUserListResponseInfo.codec, info⟩
  | pokemonDataResponse info => ⟨.pokemonDataResponse, _, UserPokemonDataResponseInfo.codec, info⟩
  | battleInviteRequest info => ⟨.battleInviteRequest, _, BattleProtocol.BattleInviteRequest.codec, info⟩
  | battleStartResponse info => ⟨.battleStartResponse, _, BattleProtocol.BattleStartResponse.codec, info⟩
  | battleTurnInfo info => ⟨.battleTurnInfo, _, BattleProtocol.BattleTurnInfo.codec, info⟩
  | battleFinishInfo info => ⟨.battleFinishInfo, _, BattleProtocol.BattleFinishInfo.codec, info⟩
  | transferPokemonResponse info =>
      ⟨.transferPokemonResponse, _, UserProtocol.TransferPokemonResponse.codec, info⟩

namespace Client

/-- The cases of `slotGetServerMessage`. -/
def handledTypes : List MessageType :=
  [.userSignUpResponse, .userLoginResponse, .onlineUserListResponse, .pokemonDataResponse, .userInfoResponse,
    .battleInviteRequest, .battleStartResponse, .battleTurnInfo, .battleFinishInfo, .transferPokemonResponse]

def parseFromArray : MessageType → List UInt8 → Option ServerPacket
  | .userSignUpResponse, data => (UserSignUpResponseInfo.codec.parse 100 data).map .userSignUpResponse
  | .userLoginResponse, data => (UserLoginResponseInfo.codec.parse 100 data).map .userLoginResponse
  | .userInfoResponse, data =>
      (UserProtocol.UserInfoResponse.codec.parse 100 data).map .userInfoResponse
  | .onlineUserListResponse, data =>
      (OnlineUserListResponseInfo.codec.parse 100 data).map .onlineUserListResponse
  | .pokemonDataResponse, data =>
      (UserPokemonDataResponseInfo.codec.parse 100 data).map .pokemonDataResponse
  | .battleInviteRequest, data =>
      (BattleProtocol.BattleInviteRequest.codec.parse 100 data).map .battleInviteRequest
  | .battleStartResponse, data =>
      (BattleProtocol.BattleStartResponse.codec.parse 100 data).map .battleStartResponse
  | .battleTurnInfo, data => (BattleProtocol.BattleTurnInfo.codec.parse 100 data).map .battleTurnInfo
  | .battleFinishInfo, data =>
      (BattleProtocol.BattleFinishInfo.codec.parse 100 data).map .battleFinishInfo
  | .transferPokemonResponse, data =>
      (UserProtocol.TransferPokemonResponse.codec.parse 100 data).map .transferPokemonResponse
  | _, _ => none

/-- The packet that a signal is made of; the inner `none` is an unknown type, which is passed over. -/
def slotGetServerMessage (data : List UInt8) : Option (Option ServerPacket) :=
  if 4 ≤ data.length then
    match handledTypes.find? fun type => type.ctorIdx = wordValue (data.take 4) with
    | none => some none
    | some type => (parseFromArray type (data.drop 4)).map some
  else none

end Client

/-! ## Sent and received -/

section

variable {p : ClientPacket} {q : ServerPacket} {type : MessageType} {types : List MessageType} {f : Frame}

theorem ctorIdx_lt (type : MessageType) : type.ctorIdx < 2 ^ 32 := by
  cases type <;> decide

theorem find_type (h : type ∈ types) : types.find? (fun t => t.ctorIdx = type.ctorIdx) = some type := by
  induction types with
  | nil => cases h
  | cons t types ih =>
      by_cases heq : t = type
      · rw [heq, List.find?_cons_of_pos (by simp)]
      · have hne : t.ctorIdx ≠ type.ctorIdx := by
          intro hidx
          cases t <;> cases type <;> first | exact heq rfl | cases hidx
        rw [List.find?_cons_of_neg (by simpa using hne)]
        exact ih ((List.mem_cons.mp h).resolve_left fun h => heq h.symm)

theorem payload_take (f : Frame) : wordValue (f.payload.take 4) = f.messageType.ctorIdx := by
  rw [Frame.payload, List.take_left' (wordBytes_length _), wordValue_wordBytes (ctorIdx_lt _)]

theorem payload_drop (f : Frame) : f.payload.drop 4 = f.body := by
  rw [Frame.payload, List.drop_left' (wordBytes_length _)]

theorem Server.callSlot_payload (h : f.messageType ∈ handledTypes) :
    callSlot f.payload = some (some (f.messageType, f.body)) := by
  have hlen : 4 ≤ f.payload.length := by
    rw [Frame.payload, List.length_append, wordBytes_length]
    omega
  rw [callSlot, if_pos hlen, payload_take, find_type h, payload_drop, Option.map_some]

/-- Every packet of the client that is not too long can be sent. -/
theorem ClientPacket.sendable_iff : p.dataBlock.Sendable ↔ p.dataBlock.serialized.length ≤ maxSize := by
  refine ⟨DataBlock.Sendable.size, fun hsize => ⟨?_, hsize⟩⟩
  cases p <;> simp [dataBlock, UserSignUpRequestInfo.codec, UserLoginRequestInfo.codec, UserInfoRequest.codec,
    OnlineUserListRequestInfo.codec, UserPokemonDataRequestInfo.codec, BattleStartRequest.codec,
    BattleInviteResponse.codec, BattleOperationInfo.codec, TransferPokemonRequest.codec, BattleGiveupInfo.codec]

@[simp] theorem kept_userStatusInfo (info : UserStatusInfo) : UserStatusInfo.codec.Kept info := by
  simp [UserStatusInfo.codec]

@[simp] theorem kept_pokemonInfo (info : UserProtocol.PokemonInfo) :
    UserProtocol.PokemonInfo.codec.Kept info := by
  simp [UserProtocol.PokemonInfo.codec]

/-- A packet has no win rate that is a negative zero. -/
def ServerPacket.plainRate : ServerPacket → Bool
  | userInfoResponse info => info.winRate ≠ 0x8000000000000000
  | _ => true

theorem ServerPacket.sendable_iff :
    q.dataBlock.Sendable ↔ q.plainRate = true ∧ q.dataBlock.serialized.length ≤ maxSize := by
  have hkept : q.dataBlock.codec.Kept q.dataBlock.info ↔ q.plainRate = true := by
    cases q <;> simp [dataBlock, plainRate, UserSignUpResponseInfo.codec, UserLoginResponseInfo.codec,
      UserProtocol.UserInfoResponse.codec, OnlineUserListResponseInfo.codec,
      UserPokemonDataResponseInfo.codec, BattleProtocol.BattleInviteRequest.codec, BattleProtocol.BattleStartResponse.codec,
      BattleProtocol.BattleTurnInfo.codec, BattleProtocol.BattleFinishInfo.codec,
      UserProtocol.TransferPokemonResponse.codec]
  exact ⟨fun h => ⟨hkept.mp h.kept, h.size⟩, fun h => ⟨hkept.mpr h.1, h.2⟩⟩

/-- The packet is handled as it was sent. -/
theorem ClientPacket.received (h : p.dataBlock.Sendable) :
    Server.slotGetMessage (p.dataBlock.frame h).payload = some (some p) := by
  have hparse := h.parse 100
  have htype : p.dataBlock.messageType ∈ Server.handledTypes := by
    cases p <;> simp [ClientPacket.dataBlock, Server.handledTypes]
  have hslot : Server.callSlot (p.dataBlock.frame h).payload =
      some (some (p.dataBlock.messageType, p.dataBlock.serialized)) := Server.callSlot_payload htype
  have hserver : Server.parseFromArray p.dataBlock.messageType p.dataBlock.serialized = some p := by
    cases p <;> exact congrArg (Option.map _) hparse
  rw [Server.slotGetMessage, hslot]
  simp [hserver]

theorem ServerPacket.received (h : q.dataBlock.Sendable) :
    Client.slotGetServerMessage (q.dataBlock.frame h).payload = some (some q) := by
  have hparse := h.parse 100
  have htype : q.dataBlock.messageType ∈ Client.handledTypes := by
    cases q <;> simp [ServerPacket.dataBlock, Client.handledTypes]
  have hclient : Client.parseFromArray q.dataBlock.messageType q.dataBlock.serialized = some q := by
    cases q <;> exact congrArg (Option.map _) hparse
  have hlen : 4 ≤ (q.dataBlock.frame h).payload.length := by
    rw [Frame.payload, List.length_append, wordBytes_length]
    omega
  have hfind : Client.handledTypes.find?
      (fun type => type.ctorIdx = (q.dataBlock.frame h).messageType.ctorIdx) =
      some q.dataBlock.messageType := find_type htype
  rw [Client.slotGetServerMessage, if_pos hlen, payload_take, payload_drop, hfind]
  exact congrArg (Option.map some) hclient

end

/-- Both sides put the right length in front of each packet, and the other side makes the same packet of the
bytes behind it. -/
theorem packets_survive :
    (∀ p : ClientPacket, p.dataBlock.serialized.length ≤ maxSize →
      ∃ f : Frame, p.dataBlock.procProtodata = procProtodata f ∧
        Server.slotGetMessage f.payload = some (some p)) ∧
      ∀ q : ServerPacket, q.plainRate = true → q.dataBlock.serialized.length ≤ maxSize →
        ∃ f : Frame, q.dataBlock.procProtodata = procProtodata f ∧
          Client.slotGetServerMessage f.payload = some (some q) := by
  refine ⟨fun p hsize => ?_, fun q hrate hsize => ?_⟩
  · have hsend := ClientPacket.sendable_iff.mpr hsize
    exact ⟨p.dataBlock.frame hsend, DataBlock.procProtodata_eq hsend, ClientPacket.received hsend⟩
  · have hsend := ServerPacket.sendable_iff.mpr ⟨hrate, hsize⟩
    exact ⟨q.dataBlock.frame hsend, DataBlock.procProtodata_eq hsend, ServerPacket.received hsend⟩

/-- A packet with a negative number, and one with a packet in it. -/
theorem packets_survive_example :
    (∃ f : Frame, (ClientPacket.battleOperationInfo ⟨1, -1, [97]⟩).dataBlock.procProtodata = procProtodata f ∧
      Server.slotGetMessage f.payload = some (some (.battleOperationInfo ⟨1, -1, [97]⟩))) ∧
      ∃ f : Frame, (ServerPacket.onlineUserListResponse ⟨[⟨[97], 1⟩]⟩).dataBlock.procProtodata =
          procProtodata f ∧
        Client.slotGetServerMessage f.payload = some (some (.onlineUserListResponse ⟨[⟨[97], 1⟩]⟩)) :=
  ⟨packets_survive.1 (.battleOperationInfo ⟨1, -1, [97]⟩) (by decide +kernel),
    packets_survive.2 (.onlineUserListResponse ⟨[⟨[97], 1⟩]⟩) rfl (by decide +kernel)⟩

end TermCollection.Pokemon
