import TermCollection.Pokemon.Packets
import TermCollection.Pokemon.StorageHelper

/-!
# The client (`ClientBackend.cpp`)

The pages of the client call functions that send requests. Each call does nothing while the client is not
connected. The conversions between a `QString` and its UTF-8 are those of Qt.
-/

namespace TermCollection.Pokemon

open UserProtocol BattleProtocol

/-- `toStdString` and `fromStdString` of `QString`. -/
structure Utf8 where
  toStdString : QString → List UInt8
  fromStdString : List UInt8 → QString

namespace Client

/-! ## Requests -/

structure ClientBackend where
  userName : QString
  helper : NetworkHelper
  deriving DecidableEq

inductive Call where
  | sendLoginRequest (username password : QString)
  | sendSignUpRequest (username password : QString)
  | sendOnlineUserListRequest
  | sendSelfPokemonInfoRequest
  | sendSelfUserInfoRequest
  | sendUserAllPkmDataRequest (username : QString)
  | sendUserInfoRequest (username : QString)
  | sendBattleStartRequest (mode pkmId : Int32) (destName : QString) (serverPkm : Int32)
  | sendBattleInviteResponse (flag battleMode pkmId : Int32) (fromUser : QString)
  | sendBattleSkillIndex (isUserA index : Int32)
  | sendBattleGiveupInfo
  | sendBattlePokemonInfoRequest (taUserName : QString) (myPkmId taPkmId : Int32)
  | sendServerPokemonInfoRequest
  | sendTransferPokemonRequest (fromUser : QString) (pkmId : Int32)
  deriving DecidableEq

/-- `PokemonDataRequestType`. -/
def requestAll : Int32 := 0

def requestSpecific : Int32 := 1

/-- `PokemonDataRequestMode`, in its order. -/
inductive PokemonDataRequestMode where
  | battleStart
  | mainPage
  | trophie
  | serverPkmList
  | userInfoPage
  deriving DecidableEq

def PokemonDataRequestMode.toInt32 : PokemonDataRequestMode → Int32
  | battleStart => 0
  | mainPage => 1
  | trophie => 2
  | serverPkmList => 3
  | userInfoPage => 4

/-- Every mode but zero is a duel. -/
def toBattleMode (mode : Int32) : Int32 := if mode = 0 then 0 else 1

/-- The status that a flag of the user stands for; others leave the default. -/
def toBattleStartStatus (flag : Int32) : Int32 := if flag = 1 then 1 else 0

/-- The user name behind a call. -/
def Call.userName (old : QString) : Call → QString
  | sendLoginRequest username _ => username
  | sendSignUpRequest username _ => username
  | _ => old

/-- The packets of a call, with `m_userName`. -/
def Call.packets (utf8 : Utf8) (userName : QString) : Call → List ClientPacket
  | sendLoginRequest username password =>
      [.userLoginRequest { userName := utf8.toStdString username, userPsw := utf8.toStdString password }]
  | sendSignUpRequest username password =>
      [.userSignUpRequest { userName := utf8.toStdString username, userPsw := utf8.toStdString password }]
  | sendOnlineUserListRequest => [.onlineUserListRequest { userName := utf8.toStdString userName }]
  | sendSelfPokemonInfoRequest =>
      [.pokemonDataRequest
        { userName := utf8.toStdString userName
          reqType := requestAll
          mode := PokemonDataRequestMode.mainPage.toInt32 }]
  | sendSelfUserInfoRequest => [.userInfoRequest { userName := utf8.toStdString userName }]
  | sendUserAllPkmDataRequest username =>
      [.pokemonDataRequest
        { userName := utf8.toStdString username
          reqType := requestAll
          mode := PokemonDataRequestMode.userInfoPage.toInt32 }]
  | sendUserInfoRequest username => [.userInfoRequest { userName := utf8.toStdString username }]
  | sendBattleStartRequest mode pkmId destName serverPkm =>
      [.battleInviteRequest
        { battleMode := toBattleMode mode
          fromUser := utf8.toStdString userName
          destUser := utf8.toStdString destName
          fromUserPkmId := pkmId
          serverPkmId := serverPkm }]
  | sendBattleInviteResponse flag battleMode pkmId fromUser =>
      [.battleInviteResponse
        { flag := toBattleStartStatus flag
          destUser := utf8.toStdString userName
          fromUser := utf8.toStdString fromUser
          destUserPkmId := pkmId
          battleMode := toBattleMode battleMode }]
  | sendBattleSkillIndex isUserA index =>
      [.battleOperationInfo
        { isUserA := isUserA, skillIndex := index, userName := utf8.toStdString userName }]
  | sendBattleGiveupInfo => [.battleGiveupInfo { userName := utf8.toStdString userName }]
  | sendBattlePokemonInfoRequest taUserName myPkmId taPkmId =>
      [.pokemonDataRequest
        { userName := utf8.toStdString userName
          mode := PokemonDataRequestMode.battleStart.toInt32
          reqType := requestSpecific
          pokemonId := [myPkmId] },
        .pokemonDataRequest
        { userName := if taUserName = "" then "_server".toUTF8.data.toList else utf8.toStdString taUserName
          mode := PokemonDataRequestMode.battleStart.toInt32
          reqType := requestSpecific
          pokemonId := [taPkmId] }]
  | sendServerPokemonInfoRequest =>
      [.pokemonDataRequest
        { userName := "_server".toUTF8.data.toList
          reqType := requestAll
          mode := PokemonDataRequestMode.serverPkmList.toInt32 }]
  | sendTransferPokemonRequest fromUser pkmId =>
      [.transferPokemonRequest
        { pkmId := pkmId
          destUser := utf8.toStdString fromUser
          fromUser := utf8.toStdString userName }]

/-- A call, behind `CHECK_SOCKET_STATUS`. -/
def ClientBackend.call (utf8 : Utf8) (client : ClientBackend) (call : Call) :
    ClientBackend × List ClientPacket :=
  if client.helper.status then
    ({ client with userName := call.userName client.userName }, call.packets utf8 client.userName)
  else (client, [])

end Client

end TermCollection.Pokemon
