import TermCollection.Lib.Fields

/-!
# The messages of client and server (`UserProtocol.proto`, `BattleProtocol.proto`)

The generated code reads and writes the fields of a message in the order of their numbers. A field of an
enumeration holds any integer, and a double is given by its bits.
-/

namespace TermCollection.Pokemon

open Protobuf

namespace UserProtocol

structure UserSignUpRequestInfo where
  userName : List UInt8 := []
  userPsw : List UInt8 := []
  deriving DecidableEq

def UserSignUpRequestInfo.codec : MessageCodec UserSignUpRequestInfo :=
  message (pair (bytes 1) <| bytes 2)
    ⟨fun m => (m.userName, m.userPsw),
      fun ⟨userName, userPsw⟩ => ⟨userName, userPsw⟩,
      fun _ => rfl, fun _ => rfl⟩ (by decide)

structure UserSignUpResponseInfo where
  status : Int32 := 0
  deriving DecidableEq

def UserSignUpResponseInfo.codec : MessageCodec UserSignUpResponseInfo :=
  message (int32 1) ⟨fun m => m.status, fun status => ⟨status⟩, fun _ => rfl, fun _ => rfl⟩ (by decide)

structure UserLoginRequestInfo where
  userName : List UInt8 := []
  userPsw : List UInt8 := []
  deriving DecidableEq

def UserLoginRequestInfo.codec : MessageCodec UserLoginRequestInfo :=
  message (pair (bytes 1) <| bytes 2)
    ⟨fun m => (m.userName, m.userPsw),
      fun ⟨userName, userPsw⟩ => ⟨userName, userPsw⟩,
      fun _ => rfl, fun _ => rfl⟩ (by decide)

structure UserLoginResponseInfo where
  status : Int32 := 0
  deriving DecidableEq

def UserLoginResponseInfo.codec : MessageCodec UserLoginResponseInfo :=
  message (int32 1) ⟨fun m => m.status, fun status => ⟨status⟩, fun _ => rfl, fun _ => rfl⟩ (by decide)

structure UserInfoRequest where
  userName : List UInt8 := []
  deriving DecidableEq

def UserInfoRequest.codec : MessageCodec UserInfoRequest :=
  message (bytes 1)
    ⟨fun m => m.userName, fun userName => ⟨userName⟩, fun _ => rfl, fun _ => rfl⟩ (by decide)

structure UserInfoResponse where
  userName : List UInt8 := []
  timeOfDuel : Int32 := 0
  timeOfWins : Int32 := 0
  winRate : UInt64 := 0
  pkmAmountBadge : Int32 := 0
  highLevelBadge : Int32 := 0
  status : Int32 := 0
  pokemonId : List Int32 := []
  resStatus : Int32 := 0
  deriving DecidableEq

def UserInfoResponse.codec : MessageCodec UserInfoResponse :=
  message (pair (bytes 1) <| pair (int32 2) <| pair (int32 3) <| pair (double 4) <| pair (int32 5) <|
      pair (int32 6) <| pair (int32 7) <| pair (repeatedInt32 8) <| int32 9)
    ⟨fun m => (m.userName, m.timeOfDuel, m.timeOfWins, m.winRate, m.pkmAmountBadge, m.highLevelBadge,
      m.status, m.pokemonId, m.resStatus),
      fun ⟨userName, timeOfDuel, timeOfWins, winRate, pkmAmountBadge, highLevelBadge, status, pokemonId,
        resStatus⟩ =>
        ⟨userName, timeOfDuel, timeOfWins, winRate, pkmAmountBadge, highLevelBadge, status, pokemonId,
          resStatus⟩,
      fun _ => rfl, fun _ => rfl⟩ (by decide)

structure UserPokemonDataRequestInfo where
  userName : List UInt8 := []
  pokemonId : List Int32 := []
  reqType : Int32 := 0
  mode : Int32 := 0
  deriving DecidableEq

def UserPokemonDataRequestInfo.codec : MessageCodec UserPokemonDataRequestInfo :=
  message (pair (bytes 1) <| pair (repeatedInt32 2) <| pair (int32 3) <| int32 4)
    ⟨fun m => (m.userName, m.pokemonId, m.reqType, m.mode),
      fun ⟨userName, pokemonId, reqType, mode⟩ => ⟨userName, pokemonId, reqType, mode⟩,
      fun _ => rfl, fun _ => rfl⟩ (by decide)

structure PokemonInfo where
  id : Int32 := 0
  typeId : Int32 := 0
  name : List UInt8 := []
  level : Int32 := 0
  type : Int32 := 0
  EXP : Int32 := 0
  attr : Int32 := 0
  ATK : Int32 := 0
  DEF : Int32 := 0
  HP : Int32 := 0
  SPD : Int32 := 0
  desc : List UInt8 := []
  skill_1 : List UInt8 := []
  skill_2 : List UInt8 := []
  skill_3 : List UInt8 := []
  skill_4 : List UInt8 := []
  skill_1_desc : List UInt8 := []
  skill_2_desc : List UInt8 := []
  skill_3_desc : List UInt8 := []
  skill_4_desc : List UInt8 := []
  deriving DecidableEq

def PokemonInfo.codec : MessageCodec PokemonInfo :=
  message (pair (int32 1) <| pair (int32 2) <| pair (bytes 3) <| pair (int32 4) <| pair (int32 5) <|
      pair (int32 6) <| pair (int32 7) <| pair (int32 8) <| pair (int32 9) <| pair (int32 10) <|
      pair (int32 11) <| pair (bytes 12) <| pair (bytes 13) <| pair (bytes 14) <| pair (bytes 15) <|
      pair (bytes 16) <| pair (bytes 17) <| pair (bytes 18) <| pair (bytes 19) <| bytes 20)
    ⟨fun m => (m.id, m.typeId, m.name, m.level, m.type, m.EXP, m.attr, m.ATK, m.DEF, m.HP, m.SPD, m.desc,
      m.skill_1, m.skill_2, m.skill_3, m.skill_4, m.skill_1_desc, m.skill_2_desc, m.skill_3_desc,
      m.skill_4_desc),
      fun ⟨id, typeId, name, level, type, EXP, attr, ATK, DEF, HP, SPD, desc, skill_1, skill_2, skill_3,
        skill_4, skill_1_desc, skill_2_desc, skill_3_desc, skill_4_desc⟩ =>
        ⟨id, typeId, name, level, type, EXP, attr, ATK, DEF, HP, SPD, desc, skill_1, skill_2, skill_3,
          skill_4, skill_1_desc, skill_2_desc, skill_3_desc, skill_4_desc⟩,
      fun _ => rfl, fun _ => rfl⟩ (by decide)

structure UserPokemonDataResponseInfo where
  userName : List UInt8 := []
  mode : Int32 := 0
  pkmData : List PokemonInfo := []
  deriving DecidableEq

def UserPokemonDataResponseInfo.codec : MessageCodec UserPokemonDataResponseInfo :=
  message (pair (bytes 1) <| pair (int32 2) <| messages 3 99 PokemonInfo.codec)
    ⟨fun m => (m.userName, m.mode, m.pkmData),
      fun ⟨userName, mode, pkmData⟩ => ⟨userName, mode, pkmData⟩,
      fun _ => rfl, fun _ => rfl⟩ (by decide)

structure OnlineUserListRequestInfo where
  userName : List UInt8 := []
  deriving DecidableEq

def OnlineUserListRequestInfo.codec : MessageCodec OnlineUserListRequestInfo :=
  message (bytes 1)
    ⟨fun m => m.userName, fun userName => ⟨userName⟩, fun _ => rfl, fun _ => rfl⟩ (by decide)

structure UserStatusInfo where
  userName : List UInt8 := []
  userStatus : Int32 := 0
  deriving DecidableEq

def UserStatusInfo.codec : MessageCodec UserStatusInfo :=
  message (pair (bytes 1) <| int32 2)
    ⟨fun m => (m.userName, m.userStatus),
      fun ⟨userName, userStatus⟩ => ⟨userName, userStatus⟩,
      fun _ => rfl, fun _ => rfl⟩ (by decide)

structure OnlineUserListResponseInfo where
  userList : List UserStatusInfo := []
  deriving DecidableEq

def OnlineUserListResponseInfo.codec : MessageCodec OnlineUserListResponseInfo :=
  message (messages 1 99 UserStatusInfo.codec)
    ⟨fun m => m.userList, fun userList => ⟨userList⟩, fun _ => rfl, fun _ => rfl⟩ (by decide)

structure TransferPokemonRequest where
  fromUser : List UInt8 := []
  destUser : List UInt8 := []
  pkmId : Int32 := 0
  deriving DecidableEq

def TransferPokemonRequest.codec : MessageCodec TransferPokemonRequest :=
  message (pair (bytes 1) <| pair (bytes 2) <| int32 3)
    ⟨fun m => (m.fromUser, m.destUser, m.pkmId),
      fun ⟨fromUser, destUser, pkmId⟩ => ⟨fromUser, destUser, pkmId⟩,
      fun _ => rfl, fun _ => rfl⟩ (by decide)

structure TransferPokemonResponse where
  status : Int32 := 0
  deriving DecidableEq

def TransferPokemonResponse.codec : MessageCodec TransferPokemonResponse :=
  message (int32 1) ⟨fun m => m.status, fun status => ⟨status⟩, fun _ => rfl, fun _ => rfl⟩ (by decide)

end UserProtocol

namespace BattleProtocol

structure BattleTurnInfo where
  skillName : List UInt8 := []
  type : Int32 := 0
  selfDeltaHP : Int32 := 0
  destDeltaHP : Int32 := 0
  selfBuffID : Int32 := 0
  selfBuffLast : Int32 := 0
  destBuffID : Int32 := 0
  destBuffLast : Int32 := 0
  deriving DecidableEq

def BattleTurnInfo.codec : MessageCodec BattleTurnInfo :=
  message (pair (bytes 1) <| pair (int32 2) <| pair (int32 3) <| pair (int32 4) <| pair (int32 5) <|
      pair (int32 6) <| pair (int32 7) <| int32 8)
    ⟨fun m => (m.skillName, m.type, m.selfDeltaHP, m.destDeltaHP, m.selfBuffID, m.selfBuffLast,
      m.destBuffID, m.destBuffLast),
      fun ⟨skillName, type, selfDeltaHP, destDeltaHP, selfBuffID, selfBuffLast, destBuffID, destBuffLast⟩
        =>
        ⟨skillName, type, selfDeltaHP, destDeltaHP, selfBuffID, selfBuffLast, destBuffID, destBuffLast⟩,
      fun _ => rfl, fun _ => rfl⟩ (by decide)

structure BattleOperationInfo where
  isUserA : Int32 := 0
  skillIndex : Int32 := 0
  userName : List UInt8 := []
  deriving DecidableEq

def BattleOperationInfo.codec : MessageCodec BattleOperationInfo :=
  message (pair (int32 1) <| pair (int32 2) <| bytes 3)
    ⟨fun m => (m.isUserA, m.skillIndex, m.userName),
      fun ⟨isUserA, skillIndex, userName⟩ => ⟨isUserA, skillIndex, userName⟩,
      fun _ => rfl, fun _ => rfl⟩ (by decide)

structure BattleFinishInfo where
  result : Int32 := 0
  mode : Int32 := 0
  deriving DecidableEq

def BattleFinishInfo.codec : MessageCodec BattleFinishInfo :=
  message (pair (int32 1) <| int32 2)
    ⟨fun m => (m.result, m.mode),
      fun ⟨result, mode⟩ => ⟨result, mode⟩,
      fun _ => rfl, fun _ => rfl⟩ (by decide)

structure BattleStartRequest where
  battleMode : Int32 := 0
  fromUser : List UInt8 := []
  fromUserPkmId : Int32 := 0
  destUser : List UInt8 := []
  serverPkmId : Int32 := 0
  deriving DecidableEq

def BattleStartRequest.codec : MessageCodec BattleStartRequest :=
  message (pair (int32 1) <| pair (bytes 2) <| pair (int32 3) <| pair (bytes 4) <| int32 5)
    ⟨fun m => (m.battleMode, m.fromUser, m.fromUserPkmId, m.destUser, m.serverPkmId),
      fun ⟨battleMode, fromUser, fromUserPkmId, destUser, serverPkmId⟩ =>
        ⟨battleMode, fromUser, fromUserPkmId, destUser, serverPkmId⟩,
      fun _ => rfl, fun _ => rfl⟩ (by decide)

structure BattleStartResponse where
  status : Int32 := 0
  isUserA : Int32 := 0
  urPkmId : Int32 := 0
  taPkmId : Int32 := 0
  deriving DecidableEq

def BattleStartResponse.codec : MessageCodec BattleStartResponse :=
  message (pair (int32 1) <| pair (int32 2) <| pair (int32 3) <| int32 4)
    ⟨fun m => (m.status, m.isUserA, m.urPkmId, m.taPkmId),
      fun ⟨status, isUserA, urPkmId, taPkmId⟩ => ⟨status, isUserA, urPkmId, taPkmId⟩,
      fun _ => rfl, fun _ => rfl⟩ (by decide)

structure BattleInviteRequest where
  battleMode : Int32 := 0
  fromUser : List UInt8 := []
  fromUserPkmId : Int32 := 0
  deriving DecidableEq

def BattleInviteRequest.codec : MessageCodec BattleInviteRequest :=
  message (pair (int32 1) <| pair (bytes 2) <| int32 3)
    ⟨fun m => (m.battleMode, m.fromUser, m.fromUserPkmId),
      fun ⟨battleMode, fromUser, fromUserPkmId⟩ => ⟨battleMode, fromUser, fromUserPkmId⟩,
      fun _ => rfl, fun _ => rfl⟩ (by decide)

structure BattleInviteResponse where
  battleMode : Int32 := 0
  fromUser : List UInt8 := []
  destUser : List UInt8 := []
  destUserPkmId : Int32 := 0
  flag : Int32 := 0
  deriving DecidableEq

def BattleInviteResponse.codec : MessageCodec BattleInviteResponse :=
  message (pair (int32 1) <| pair (bytes 2) <| pair (bytes 3) <| pair (int32 4) <| int32 5)
    ⟨fun m => (m.battleMode, m.fromUser, m.destUser, m.destUserPkmId, m.flag),
      fun ⟨battleMode, fromUser, destUser, destUserPkmId, flag⟩ =>
        ⟨battleMode, fromUser, destUser, destUserPkmId, flag⟩,
      fun _ => rfl, fun _ => rfl⟩ (by decide)

structure BattleGiveupInfo where
  userName : List UInt8 := []
  deriving DecidableEq

def BattleGiveupInfo.codec : MessageCodec BattleGiveupInfo :=
  message (bytes 1)
    ⟨fun m => m.userName, fun userName => ⟨userName⟩, fun _ => rfl, fun _ => rfl⟩ (by decide)

end BattleProtocol

end TermCollection.Pokemon
