import TermCollection.Pokemon.ClientBackend
import TermCollection.Pokemon.Profile
import TermCollection.Pokemon.Starters
import TermCollection.Pokemon.UnknownPokemon

/-!
# The server on packets (`ServerBackend.cpp`)

Every slot of `slotGetMessage`, from the packet that it parses to the packets that it sends. Names and texts
are bytes on the wire, and numbers have 32 bits there.
-/

namespace TermCollection.Pokemon

open BattleProtocol

variable {δ : Type}

/-! ## Data on the wire -/

/-- The bits of a double, which is zero or has a full mantissa. -/
def doubleBits (q : ℚ) : UInt64 :=
  if q = 0 then 0
  else
    let k := exponent |q|
    let mantissa := (|q| / pow2 (k - 52)).num.natAbs
    UInt64.ofNat ((if q < 0 then 2 ^ 63 else 0) + (k + 1023).toNat * 2 ^ 52 + (mantissa - 2 ^ 52))

def BattleMode.toInt32 : BattleMode → Int32
  | expBattle => 0
  | duelBattle => 1
  | other value => Int32.ofInt value

def BattleMode.ofInt32 (value : Int32) : BattleMode :=
  if value = 0 then expBattle else if value = 1 then duelBattle else other value.toInt

def BattleStartStatus.toInt32 : BattleStartStatus → Int32
  | success => 0
  | refused => 1
  | alreadyStart => 2
  | destNotOnline => 3
  | other value => Int32.ofInt value

def BattleStartStatus.ofInt32 (value : Int32) : BattleStartStatus :=
  if value = 0 then success
  else if value = 1 then refused
  else if value = 2 then alreadyStart
  else if value = 3 then destNotOnline
  else other value.toInt

/-- `set_skill_1` and the others. -/
def PokemonInfo.toInfo (utf8 : Utf8) (info : PokemonInfo) : UserProtocol.PokemonInfo :=
  let text := fun (i : Nat) => info.skills.getD i ("", "")
  { id := Int32.ofInt info.pkm.id
    typeId := Int32.ofInt info.pkm.typeID
    name := utf8.toStdString info.pkm.name
    level := Int32.ofInt info.pkm.level
    type := Int32.ofNat info.pkm.pkmType.ctorIdx
    EXP := Int32.ofInt info.pkm.exp
    attr := Int32.ofInt info.pkm.pkmAttr
    ATK := Int32.ofInt info.pkm.ATK
    DEF := Int32.ofInt info.pkm.DEF
    HP := Int32.ofInt info.pkm.HP
    SPD := Int32.ofInt info.pkm.SPD
    desc := utf8.toStdString info.pkm.desc
    skill_1 := utf8.toStdString (text 0).1
    skill_2 := utf8.toStdString (text 1).1
    skill_3 := utf8.toStdString (text 2).1
    skill_4 := utf8.toStdString (text 3).1
    skill_1_desc := utf8.toStdString (text 0).2
    skill_2_desc := utf8.toStdString (text 1).2
    skill_3_desc := utf8.toStdString (text 2).2
    skill_4_desc := utf8.toStdString (text 3).2 }

def TurnInfo.toInfo (utf8 : Utf8) (info : TurnInfo) : BattleTurnInfo where
  skillName := utf8.toStdString info.skillName
  type := Int32.ofNat info.type.ctorIdx
  selfDeltaHP := Int32.ofInt info.selfDeltaHP
  destDeltaHP := Int32.ofInt info.destDeltaHP
  selfBuffID := Int32.ofInt info.selfBuff.buffId
  selfBuffLast := Int32.ofInt info.selfBuff.turnCnt
  destBuffID := Int32.ofInt info.destBuff.buffId
  destBuffLast := Int32.ofInt info.destBuff.turnCnt

def Reply.packet (utf8 : Utf8) : Reply → ServerPacket
  | userLoginResponse status => .userLoginResponse { status := Int32.ofNat status.ctorIdx }
  | battleStartResponse status isUserA urPkmId taPkmId =>
      .battleStartResponse
        { status := status.toInt32
          isUserA := Int32.ofInt isUserA
          urPkmId := Int32.ofInt urPkmId
          taPkmId := Int32.ofInt taPkmId }
  | battleInviteRequest battleMode fromUser =>
      .battleInviteRequest { battleMode := battleMode.toInt32, fromUser := utf8.toStdString fromUser }
  | battleTurnInfo info => .battleTurnInfo (info.toInfo utf8)
  | battleFinishInfo result mode =>
      .battleFinishInfo { result := Int32.ofNat result.ctorIdx, mode := Int32.ofNat mode.ctorIdx }
  | trophies userName pkmData =>
      .pokemonDataResponse
        { userName := utf8.toStdString userName
          mode := Client.PokemonDataRequestMode.trophie.toInt32
          pkmData := pkmData.map (·.toInfo utf8) }
  | transferPokemonResponse => .transferPokemonResponse { status := 0 }

/-- An invitation passes on the bytes of the name it came with. -/
def passOn (info : BattleStartRequest) : ServerPacket → ServerPacket
  | .battleInviteRequest invite => .battleInviteRequest { invite with fromUser := info.fromUser }
  | packet => packet

def Sent.packet (utf8 : Utf8) (sent : Sent) : Nat × ServerPacket := (sent.socket, sent.reply.packet utf8)

/-! ## Slots -/

/-- The random numbers of an event, and those of the Pokemon of a new user. -/
structure PacketChance extends Chance where
  starters : Nat → Nat

namespace ServerBackend

/-- The other users, with their status. -/
def slotRequestOnlineUserList (utf8 : Utf8) (s : ServerBackend δ) (info : UserProtocol.OnlineUserListRequestInfo) :
    UserProtocol.OnlineUserListResponseInfo where
  userList :=
    (s.userList.filter (·.name ≠ utf8.fromStdString info.userName)).map fun user =>
      { userName := utf8.toStdString user.name, userStatus := Int32.ofNat user.status.ctorIdx }

end ServerBackend

def ServerBackend.PokemonDataRequestType.ofInt32 (value : Int32) : ServerBackend.PokemonDataRequestType :=
  if value = Client.requestAll then all
  else if value = Client.requestSpecific then specific
  else other value.toInt

/-- `resInfo` of `slotRequestPkmInfo`. -/
def pokemonDataPacket (naming : Naming) (utf8 : Utf8) (attack : Attack) (s : ServerBackend Database)
    (info : UserProtocol.UserPokemonDataRequestInfo) : Option UserProtocol.UserPokemonDataResponseInfo := do
  let resInfo ← (s.slotRequestPkmInfo (onDatabase naming attack) (utf8.fromStdString info.userName)
    (info.pokemonId.map Int32.toInt) (.ofInt32 info.reqType) info.mode.toInt).toOption
  some { userName := info.userName, mode := info.mode, pkmData := resInfo.pkmData.map (·.toInfo utf8) }

/-- `resInfo` of `slotRequestUserInfo`, which has no data of a user who does not exist. -/
def userInfoPacket (naming : Naming) (db : Database) (utf8 : Utf8) (info : UserProtocol.UserInfoRequest) :
    UserProtocol.UserInfoResponse :=
  let resInfo := slotRequestUserInfo naming db (utf8.fromStdString info.userName)
  { userName := if resInfo.resStatus = .success then info.userName else []
    timeOfDuel := Int32.ofInt resInfo.timeOfDuel
    timeOfWins := Int32.ofInt resInfo.timeOfWins
    winRate := doubleBits resInfo.winRate
    pkmAmountBadge := Int32.ofNat resInfo.pkmAmountBadge.ctorIdx
    highLevelBadge := Int32.ofNat resInfo.highLevelBadge.ctorIdx
    pokemonId := resInfo.pokemonId.map Int32.ofInt
    resStatus := Int32.ofNat resInfo.resStatus.ctorIdx }

/-! ## Events -/

/-- What comes to a server, with the random numbers of a packet. -/
inductive PacketEvent (χ : Type) where
  | packet (client : Nat) (packet : ClientPacket) (chance : χ)
  | userDisconnected (client : Nat)

/-- The message of a packet that changes the users, the battles or the Pokemon. -/
def ClientPacket.message (utf8 : Utf8) : ClientPacket → Option Message
  | userLoginRequest info =>
      some (.userLogin (utf8.fromStdString info.userName) (utf8.fromStdString info.userPsw))
  | battleInviteRequest info =>
      some (.battleInvite (.ofInt32 info.battleMode) (utf8.fromStdString info.fromUser) info.fromUserPkmId.toInt
        (utf8.fromStdString info.destUser) info.serverPkmId.toInt)
  | battleInviteResponse info =>
      some (.battleInviteResponse (.ofInt32 info.battleMode) (utf8.fromStdString info.fromUser)
        (utf8.fromStdString info.destUser) info.destUserPkmId.toInt (.ofInt32 info.flag))
  | battleOperationInfo info =>
      some (.battleOperation info.isUserA.toInt info.skillIndex.toInt (utf8.fromStdString info.userName))
  | transferPokemonRequest info =>
      some (.transferPokemon (utf8.fromStdString info.fromUser) (utf8.fromStdString info.destUser)
        info.pkmId.toInt)
  | battleGiveupInfo info => some (.battleGiveUp (utf8.fromStdString info.userName))
  | _ => none

/-- The slots of the other packets, which leave the users and the battles as they are. -/
def answer (naming : Naming) (utf8 : Utf8) (attack : Attack) (s : ServerBackend Database)
    (chance : PacketChance) : ClientPacket → Option (ServerBackend Database × ServerPacket)
  | .userSignUpRequest info => do
      let (db, status) ← s.db.slotUserSignUp naming (utf8.fromStdString info.userName)
        (utf8.fromStdString info.userPsw) chance.starters
      some ({ s with db := db }, .userSignUpResponse { status := Int32.ofNat status.ctorIdx })
  | .userInfoRequest info => some (s, .userInfoResponse (userInfoPacket naming s.db utf8 info))
  | .onlineUserListRequest info =>
      some (s, .onlineUserListResponse (s.slotRequestOnlineUserList utf8 info))
  | .pokemonDataRequest info => do
      let resInfo ← pokemonDataPacket naming utf8 attack s info
      some (s, .pokemonDataResponse resInfo)
  | _ => none

def packetStep (naming : Naming) (utf8 : Utf8) (attack : Attack) :
    Machine (ServerBackend Database) (PacketEvent PacketChance) (Nat × ServerPacket)
  | s, .userDisconnected client => do
      let (s, out) ← s.slotUserDisconnected client
      some (s, out.map (·.packet utf8))
  | s, .packet client packet chance =>
      match packet.message utf8 with
      | some message => do
          let (s, out) ← s.slotGetMessage (onDatabase naming attack) client chance.toChance message
          let packets := out.map (·.packet utf8)
          some (s,
            match packet with
            | .battleInviteRequest info => packets.map fun sent => (sent.1, passOn info sent.2)
            | _ => packets)
      | none => do
          let (s, reply) ← answer naming utf8 attack s chance packet
          some (s, [(client, reply)])

/-! ## A sign-up -/

def plainUtf8 : Utf8 where
  toStdString text := text.toUTF8.data.toList
  fromStdString bytes := (String.fromUTF8? ⟨bytes.toArray⟩).getD ""

def noPacketChance : PacketChance := { noChance with starters := id }

abbrev plainServe : Machine (ServerBackend Database) (PacketEvent PacketChance) (Nat × ServerPacket) :=
  packetStep foldedNaming plainUtf8 noAttack

/-- The server with an empty list of users. -/
def freshServer : ServerBackend Database :=
  newServerBackend (newDatabase foldedNaming)

end TermCollection.Pokemon
