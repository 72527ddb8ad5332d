import TermCollection.Lib.Machine
import TermCollection.Pokemon.BattleField

/-!
# The game server (`ServerBackend.cpp`, `User.cpp`)

The list of users holds pointers, so that a `User*` stays valid while its entry is in the list. A
dereference of NULL, of a removed user or of a deleted battle has no defined result. The random numbers
of an event come with it.
-/

namespace TermCollection.Pokemon

variable {δ : Type}

/-! ## Data types -/

inductive UserStatus where
  | idle
  | battling
  | notOnline
  | undefined
  deriving DecidableEq

structure User where
  ptr : Nat
  name : QString
  userSocket : Nat
  status : UserStatus
  battlePkmId : Int
  pokemonList : List Int
  deriving DecidableEq

structure ServerBackend (δ : Type) where
  userList : List User
  battleFieldList : List BattleField
  db : δ
  nextPtr : Nat

/-- What the program is linked to: the database and the table of skills. -/
structure Runtime (δ : Type) where
  storage : Storage δ
  attack : Attack

/-! ## Messages -/

/-- Values of the wire beyond the named ones are kept. -/
inductive BattleMode where
  | expBattle
  | duelBattle
  | other (value : Int)
  deriving DecidableEq

inductive BattleStartStatus where
  | success
  | refused
  | alreadyStart
  | destNotOnline
  | other (value : Int)
  deriving DecidableEq

inductive LoginStatus where
  | success
  | userNotExists
  | userPswError
  | serverRefused
  deriving DecidableEq

inductive FinishMode where
  | normal
  | oppositeDisconnected
  deriving DecidableEq

inductive BattleResult where
  | win
  | lose
  deriving DecidableEq

inductive Message where
  | userLogin (userName userPsw : QString)
  | battleInvite (battleMode : BattleMode) (fromUser : QString) (fromUserPkmId : Int)
      (destUser : QString) (serverPkmId : Int)
  | battleInviteResponse (battleMode : BattleMode) (fromUser destUser : QString) (destUserPkmId : Int)
      (flag : BattleStartStatus)
  | battleOperation (isUserA skillIndex : Int) (userName : QString)
  | transferPokemon (fromUser destUser : QString) (pkmId : Int)
  | battleGiveUp (userName : QString)
  deriving DecidableEq

/-- A Pokemon with the aliases and the descriptions of its skills. -/
structure PokemonInfo where
  pkm : PokemonBase
  skills : List (QString × QString)
  deriving DecidableEq

inductive Reply where
  | userLoginResponse (status : LoginStatus)
  | battleStartResponse (status : BattleStartStatus) (isUserA urPkmId taPkmId : Int)
  | battleInviteRequest (battleMode : BattleMode) (fromUser : QString)
  | battleTurnInfo (info : TurnInfo)
  | battleFinishInfo (result : BattleResult) (mode : FinishMode)
  | trophies (userName : QString) (pkmData : List PokemonInfo)
  | transferPokemonResponse
  deriving DecidableEq

/-- `sendToClient`. -/
structure Sent where
  socket : Nat
  reply : Reply
  deriving DecidableEq

/-- The random numbers of one turn and of the result of its battle. -/
structure TurnChance where
  attack : BalanceType → Nat
  levelUp : Nat → Bool
  trophies : Nat → Nat
  transfer : Nat

/-- What stands in the memory of a user that no constructor has set. -/
structure UserMemory where
  status : Int
  battlePkmId : Int

/-- The values of `UserStatus` start with 0. A value beyond them is none that is compared with. -/
def userStatus (value : Int) : UserStatus :=
  if value = 0 then .idle else if value = 1 then .battling else if value = 2 then .notOnline else .undefined

/-- The random numbers of one event, and the memory in which the copy of a new user is built. The `k`-th
battle of the list takes its numbers at `k`. -/
structure Chance where
  serverAction : Nat → Nat
  userTurn : Nat → TurnChance
  serverTurn : Nat → TurnChance
  entry : UserMemory
  transfer : Nat

inductive Event where
  | message (client : Nat) (message : Message) (chance : Chance)
  | userDisconnected (client : Nat)

/-- `QRandomGenerator::bounded`. -/
def bounded (r highest : Nat) : Nat := r % highest

namespace ServerBackend

/-! ## Pointers -/

def userAt (s : ServerBackend δ) (p : Nat) : Option User := s.userList.find? (·.ptr = p)

def battleAt (s : ServerBackend δ) (p : Nat) : Option BattleField :=
  s.battleFieldList.find? (·.ptr = p)

def modifyUser (s : ServerBackend δ) (p : Nat) (f : User → User) : Option (ServerBackend δ) := do
  let _ ← s.userAt p
  some { s with userList := s.userList.map fun user => if user.ptr = p then f user else user }

def setStatus (s : ServerBackend δ) (p : Nat) (status : UserStatus) : Option (ServerBackend δ) :=
  s.modifyUser p fun user => { user with status := status }

def setBattlePkmId (s : ServerBackend δ) (p : Nat) (id : Int) : Option (ServerBackend δ) :=
  s.modifyUser p fun user => { user with battlePkmId := id }

/-- A message to the user a pointer points to. -/
def sendTo (s : ServerBackend δ) (p : Nat) (reply : Reply) : Option (List Sent) := do
  let user ← s.userAt p
  some [⟨user.userSocket, reply⟩]

def setBattle (s : ServerBackend δ) (battle : BattleField) : ServerBackend δ :=
  { s with battleFieldList :=
      s.battleFieldList.map fun old => if old.ptr = battle.ptr then battle else old }

def addBattle (s : ServerBackend δ) (userA : Nat) (userB : Option Nat) (pkmA pkmB : PokemonBase)
    (mode : FieldMode) : ServerBackend δ :=
  { s with
    battleFieldList := s.battleFieldList ++ [newBattleField s.nextPtr userA userB pkmA pkmB mode]
    nextPtr := s.nextPtr + 1 }

def removeBattle (s : ServerBackend δ) (p : Nat) : ServerBackend δ :=
  { s with battleFieldList := s.battleFieldList.filter fun battle => battle.ptr ≠ p }

/-! ## Users -/

/-- The Pokemon that `updateUserInfo` adds to the list of a user. -/
def updateUserInfo (rt : Runtime δ) (s : ServerBackend δ) (p : Nat) : Option (ServerBackend δ) :=
  s.modifyUser p fun user =>
    { user with pokemonList := user.pokemonList ++ rt.storage.selectPokemonIds s.db user.name }

/-- `battleWon` and `battleLose`. -/
def battleOver (rt : Runtime δ) (s : ServerBackend δ) (p : Nat) (won : Bool) :
    Option (ServerBackend δ) := do
  let user ← s.userAt p
  updateUserInfo rt { s with db := rt.storage.updateBattleTimes s.db user.name won } p

/-- The entry of the list is a copy of the new user, whose constructor sets neither the status nor the
Pokemon for battles. -/
def slotUserLogin (rt : Runtime δ) (s : ServerBackend δ) (client : Nat) (userName userPsw : QString)
    (entry : UserMemory) : ServerBackend δ × List Sent :=
  match (rt.storage.selectPassword s.db userName).getLast? with
  | none => (s, [⟨client, .userLoginResponse .userNotExists⟩])
  | some psw =>
      if psw = userPsw then
        let status := if s.userList.any (·.name = userName) then .serverRefused else .success
        let user : User :=
          { ptr := s.nextPtr
            name := userName
            userSocket := client
            status := userStatus entry.status
            battlePkmId := entry.battlePkmId
            pokemonList := rt.storage.selectPokemonIds s.db userName }
        ({ s with userList := s.userList ++ [user], nextPtr := s.nextPtr + 1 },
          [⟨client, .userLoginResponse status⟩])
      else (s, [⟨client, .userLoginResponse .userPswError⟩])

/-! ## Pokemon -/

/-- Every statement is on its own: one that fails leaves the database as it is. -/
def transferPokemon (rt : Runtime δ) (db : δ) (fromUser destUser : QString) (pkmId : Int)
    (r : Nat) : Option δ :=
  let db := rt.storage.copyPokemon db fromUser destUser pkmId
  if fromUser = "_server" then some db
  else
    let db := rt.storage.deletePokemon db fromUser pkmId
    let pokemonCnt := (rt.storage.countPokemon db fromUser).getLast?.getD 0
    if pokemonCnt < 1 then do
      let typeIdList := rt.storage.selectInfoIds db
      -- the index of an empty list
      let typeId ← typeIdList[bounded r typeIdList.length]?
      some (rt.storage.insertPokemon db fromUser typeId)
    else some db

/-- The data of the Pokemon, which need four skills that are in `skill_list`. -/
def pkmData (rt : Runtime δ) (db : δ) (userName : QString) : List Int → Option (List PokemonInfo)
  | [] => some []
  | id :: ids => do
      let pkm ← createPokemon rt.storage db userName id
      let skills := [0, 1, 2, 3].flatMap fun i => rt.storage.selectSkill db (pkm.getSkill i)
      if skills.length < 4 then none
      else do
        let rest ← pkmData rt db userName ids
        some (⟨pkm, skills.take 4⟩ :: rest)

def procAndSendPkmData (rt : Runtime δ) (s : ServerBackend δ) (pkmIdList : List Int)
    (userName : QString) (p : Nat) : Option (List Sent) := do
  s.sendTo p (.trophies userName (← pkmData rt s.db userName pkmIdList))

/-- Up to three Pokemon are drawn from a list. -/
def selectTrophies (r : Nat → Nat) : Nat → List Int → List Int
  | 0, _ => []
  | n + 1, pkmIdList =>
      let randIndex := bounded (r n) pkmIdList.length
      match pkmIdList[randIndex]? with
      | none => []
      | some id => id :: selectTrophies r n (pkmIdList.eraseIdx randIndex)

/-! ## Battles -/

/-- The information of a turn for the two users. -/
def turnInfoFor (info : TurnInfo) (isUserA : Bool) : TurnInfo :=
  if isUserA = (info.type = .aToB) then info
  else
    { info with
      selfDeltaHP := info.destDeltaHP
      destDeltaHP := info.selfDeltaHP
      selfBuff := info.destBuff
      destBuff := info.selfBuff }

def slotGetTurnInfo (s : ServerBackend δ) (battle : BattleField) (info : TurnInfo) :
    Option (List Sent) := do
  let toA ← s.sendTo battle.userA (.battleTurnInfo (turnInfoFor info true))
  let toB ←
    match battle.userB with
    | none => some []
    | some p => s.sendTo p (.battleTurnInfo (turnInfoFor info false))
  some (toA ++ toB)

/-- The statistics and the trophies of the loser of a duel. -/
def duelLost (rt : Runtime δ) (s : ServerBackend δ) (p : Nat) (chance : TurnChance) :
    Option (ServerBackend δ × List Sent) := do
  let s ← battleOver rt s p false
  let loser ← s.userAt p
  let out ← procAndSendPkmData rt s (selectTrophies chance.trophies 3 loser.pokemonList) loser.name p
  some (s, out)

/-- What a duel brings the two users, either of which may be NULL. -/
def duelResult (rt : Runtime δ) (s : ServerBackend δ) (battle : BattleField) (winner loser : Option Nat)
    (chance : TurnChance) : Option (ServerBackend δ × List Sent) := do
  match winner, loser with
  | some w, some l => do
      let s ← battleOver rt s w true
      duelLost rt s l chance
  | some w, none => do
      let s ← battleOver rt s w true
      let user ← s.userAt w
      let db ← transferPokemon rt s.db "_server" user.name battle.pkmB.id chance.transfer
      some ({ s with db := db }, [])
  | none, some l => duelLost rt s l chance
  | none, none => some (s, [])

/-- The end of a battle for one of its users, which may be NULL. -/
def finishFor (s : ServerBackend δ) (user : Option Nat) (result : BattleResult) :
    Option (ServerBackend δ × List Sent) :=
  match user with
  | none => some (s, [])
  | some p => do
      let s ← s.setStatus p .idle
      let out ← s.sendTo p (.battleFinishInfo result .normal)
      some (s, out)

/-- The experience of the winner, which is lost when the winner is NULL. -/
def awardWinner (rt : Runtime δ) (s : ServerBackend δ) (battle : BattleField) (winner : Option Nat)
    (chance : TurnChance) : Option (ServerBackend δ) :=
  match winner with
  | none => some s
  | some p => do
      let (pkm, dest) :=
        if p = battle.userA then (battle.pkmA, battle.pkmB) else (battle.pkmB, battle.pkmA)
      let (_, db) ← pkm.gainExperience rt.storage s.db ((dest.level * 3).tdiv 2) chance.levelUp
      some { s with db := db }

def slotGetBattleResult (rt : Runtime δ) (s : ServerBackend δ) (battle : BattleField)
    (winner : Option Nat) (chance : TurnChance) : Option (ServerBackend δ × List Sent) := do
  let loser := if winner = some battle.userA then battle.userB else some battle.userA
  let (s, toLoser) ← s.finishFor loser .lose
  let s ← awardWinner rt s battle winner chance
  let (s, toWinner) ← s.finishFor winner .win
  let (s, trophies) ←
    (if battle.mode = .duelBattle then duelResult rt s battle winner loser chance else some (s, []))
  some (s.removeBattle battle.ptr, toLoser ++ toWinner ++ trophies)

/-- `setAction` of a battle, with the slots that its signals are connected to. -/
def setAction (rt : Runtime δ) (s : ServerBackend δ) (p : Nat) (skillIndex : Int) (userIndex : Nat)
    (chance : TurnChance) : Option (ServerBackend δ × List Sent) := do
  let battle ← s.battleAt p
  let turn := battle.setAction rt.attack skillIndex userIndex chance.attack
  let s := s.setBattle turn.battle
  let infos ← turn.infos.mapM (s.slotGetTurnInfo battle)
  match turn.winner with
  | none => some (s, infos.flatten)
  | some winner => do
      let (s, out) ← slotGetBattleResult rt s turn.battle winner chance
      some (s, infos.flatten ++ out)

/-- The action of user A, and that of the server when it is the opponent. The battle is asked for user B
also when it was deleted at the end of its last turn. -/
def operateA (rt : Runtime δ) (s : ServerBackend δ) (battle : BattleField) (skillIndex : Int)
    (userName : QString) (chance : Chance) (i : Nat) : Option (ServerBackend δ × List Sent) := do
  let userA ← s.userAt battle.userA
  if userA.name = userName then do
    let (s, out₁) ← s.setAction rt battle.ptr skillIndex 0 (chance.userTurn i)
    let battle ← s.battleAt battle.ptr
    if battle.userB = none then do
      let (s, out₂) ← s.setAction rt battle.ptr (bounded (chance.serverAction i) 4) 1
        (chance.serverTurn i)
      some (s, out₁ ++ out₂)
    else some (s, out₁)
  else some (s, [])

def operateB (rt : Runtime δ) (s : ServerBackend δ) (battle : BattleField) (skillIndex : Int)
    (userName : QString) (chance : Chance) (i : Nat) : Option (ServerBackend δ × List Sent) := do
  let userB ← s.userAt (← battle.userB)
  if userB.name = userName then s.setAction rt battle.ptr skillIndex 1 (chance.userTurn i)
  else some (s, [])

def operationLoop (rt : Runtime δ) (isUserA skillIndex : Int) (userName : QString) (chance : Chance) :
    Nat → Nat → ServerBackend δ → Option (ServerBackend δ × List Sent)
  | 0, _, s => some (s, [])
  | fuel + 1, i, s =>
      match s.battleFieldList[i]? with
      | none => some (s, [])
      | some battle => do
          let (s, out) ←
            (if isUserA ≠ 0 then operateA rt s battle skillIndex userName chance i
              else operateB rt s battle skillIndex userName chance i)
          let (s, outs) ← operationLoop rt isUserA skillIndex userName chance fuel (i + 1) s
          some (s, out ++ outs)

def slotHandleBattleOperation (rt : Runtime δ) (s : ServerBackend δ) (isUserA skillIndex : Int)
    (userName : QString) (chance : Chance) : Option (ServerBackend δ × List Sent) :=
  operationLoop rt isUserA skillIndex userName chance s.battleFieldList.length 0 s

/-! ## Invitations -/

def fieldMode (battleMode : BattleMode) : FieldMode :=
  if battleMode = .expBattle then .expBattle else .duelBattle

def slotBattleInvite (rt : Runtime δ) (s : ServerBackend δ) (client : Nat) (battleMode : BattleMode)
    (fromUser : QString) (fromUserPkmId : Int) (destUser : QString) (serverPkmId : Int) :
    Option (ServerBackend δ × List Sent) :=
  match s.userList.find? (·.name = fromUser) with
  | none => some (s, [])
  | some userA =>
      if userA.status = .battling then some (s, [])
      else do
        let s ← s.setBattlePkmId userA.ptr fromUserPkmId
        if destUser = "_server" then do
          let pkmA ← createPokemon rt.storage s.db fromUser fromUserPkmId
          let pkmB ← createPokemon rt.storage s.db destUser serverPkmId
          let s := s.addBattle userA.ptr none pkmA pkmB (fieldMode battleMode)
          let s ← s.setStatus userA.ptr .battling
          some (s, [⟨client, .battleStartResponse .success 1 fromUserPkmId serverPkmId⟩])
        else
          match s.userList.find? (·.name = destUser) with
          | none => some (s, [⟨client, .battleStartResponse .destNotOnline 0 0 0⟩])
          | some userB =>
              if userB.status = .battling then
                some (s, [⟨client, .battleStartResponse .alreadyStart 0 0 0⟩])
              else some (s, [⟨userB.userSocket, .battleInviteRequest battleMode fromUser⟩])

/-- The two users of an answer: the last entry of each name. -/
def invitedUsers (s : ServerBackend δ) (userNameA userNameB : QString) : Option (User × User) := do
  let userA ← s.userList.reverse.find? (·.name = userNameA)
  let userB ← s.userList.reverse.find? fun user => user.name ≠ userNameA ∧ user.name = userNameB
  some (userA, userB)

/-- The socket that the answer comes from is not looked at. -/
def slotHandleBattleInviteResponse (rt : Runtime δ) (s : ServerBackend δ) (battleMode : BattleMode)
    (fromUser destUser : QString) (destUserPkmId : Int) (flag : BattleStartStatus) :
    Option (ServerBackend δ × List Sent) :=
  match s.invitedUsers fromUser destUser with
  | none => some (s, [])
  | some (userA, userB) =>
      if flag ≠ .success then
        some (s, [⟨userA.userSocket, .battleStartResponse flag 0 0 0⟩])
      else do
        let s ← s.setBattlePkmId userB.ptr destUserPkmId
        let pkmA ← createPokemon rt.storage s.db fromUser userA.battlePkmId
        let pkmB ← createPokemon rt.storage s.db destUser destUserPkmId
        let s := s.addBattle userA.ptr (some userB.ptr) pkmA pkmB (fieldMode battleMode)
        let s ← s.setStatus userA.ptr .battling
        let s ← s.setStatus userB.ptr .battling
        some (s,
          [⟨userA.userSocket, .battleStartResponse flag 1 userA.battlePkmId destUserPkmId⟩,
            ⟨userB.userSocket, .battleStartResponse flag 0 destUserPkmId userA.battlePkmId⟩])

/-! ## The end of a battle without a result -/

/-- The search for a battle of a name: the name to compare with may change with the index. The opponent
is taken without a check for NULL. The result is the battle, the user found and the other one. -/
def findBattle (s : ServerBackend δ) (name : Nat → Option QString) :
    Nat → List BattleField → Option (Option (BattleField × Nat × Option Nat))
  | _, [] => some none
  | i, battle :: battles => do
      let userA ← s.userAt battle.userA
      let wanted ← name i
      if userA.name = wanted then some (some (battle, battle.userA, battle.userB))
      else do
        let p ← battle.userB
        let userB ← s.userAt p
        if userB.name = wanted then some (some (battle, p, some battle.userA))
        else findBattle s name (i + 1) battles

/-- The other user of a battle has won. -/
def winByLeave (s : ServerBackend δ) (battle : BattleField) (dest : Option Nat) :
    Option (ServerBackend δ × List Sent) :=
  match dest with
  | none => some (s.removeBattle battle.ptr, [])
  | some p => do
      let s ← s.setStatus p .idle
      let out ← s.sendTo p (.battleFinishInfo .win .oppositeDisconnected)
      some (s.removeBattle battle.ptr, out)

def slotBattleGiveUp (s : ServerBackend δ) (giveUpUser : QString) :
    Option (ServerBackend δ × List Sent) := do
  match ← findBattle s (fun _ => some giveUpUser) 0 s.battleFieldList with
  | none => some (s, [])
  | some (battle, p, dest) => do
      let s ← s.setStatus p .idle
      s.winByLeave battle dest

/-- The search of `slotUserDisconnected`. Its index hides the one of the outer loop, so that the `i`-th
battle is compared with the `i`-th user of the list. -/
def findBattleByIndex (s : ServerBackend δ) : Option (Option (BattleField × Nat × Option Nat)) :=
  findBattle s (fun i => (s.userList[i]?).map (·.name)) 0 s.battleFieldList

/-- The battle of a user who leaves. -/
def leaveBattle (s : ServerBackend δ) (user : User) : Option (ServerBackend δ × List Sent) :=
  if user.status = .battling then do
    match ← s.findBattleByIndex with
    | none => some (s, [])
    | some (battle, _, dest) => s.winByLeave battle dest
  else some (s, [])

/-- The loop over the users, which passes over the one behind a removed one. -/
def disconnectLoop (client : Nat) :
    Nat → Nat → ServerBackend δ → Option (ServerBackend δ × List Sent)
  | 0, _, s => some (s, [])
  | fuel + 1, i, s =>
      match s.userList[i]? with
      | none => some (s, [])
      | some user =>
          if user.userSocket = client then do
            let (s, out) ← s.leaveBattle user
            let s := { s with userList := s.userList.eraseIdx i }
            let (s, outs) ← disconnectLoop client fuel (i + 1) s
            some (s, out ++ outs)
          else disconnectLoop client fuel (i + 1) s

def slotUserDisconnected (s : ServerBackend δ) (client : Nat) : Option (ServerBackend δ × List Sent) :=
  disconnectLoop client s.userList.length 0 s

/-! ## Events -/

def slotTransferPokemon (rt : Runtime δ) (s : ServerBackend δ) (client : Nat)
    (fromUser destUser : QString) (pkmId : Int) (r : Nat) : Option (ServerBackend δ × List Sent) := do
  let db ← transferPokemon rt s.db fromUser destUser pkmId r
  some ({ s with db := db }, [⟨client, .transferPokemonResponse⟩])

def slotGetMessage (rt : Runtime δ) (s : ServerBackend δ) (client : Nat) (chance : Chance) :
    Message → Option (ServerBackend δ × List Sent)
  | .userLogin userName userPsw => some (slotUserLogin rt s client userName userPsw chance.entry)
  | .battleInvite battleMode fromUser fromUserPkmId destUser serverPkmId =>
      slotBattleInvite rt s client battleMode fromUser fromUserPkmId destUser serverPkmId
  | .battleInviteResponse battleMode fromUser destUser destUserPkmId flag =>
      slotHandleBattleInviteResponse rt s battleMode fromUser destUser destUserPkmId flag
  | .battleOperation isUserA skillIndex userName =>
      slotHandleBattleOperation rt s isUserA skillIndex userName chance
  | .transferPokemon fromUser destUser pkmId =>
      slotTransferPokemon rt s client fromUser destUser pkmId chance.transfer
  | .battleGiveUp userName => slotBattleGiveUp s userName

end ServerBackend

/-- The server before the first login. -/
def newServerBackend (db : δ) : ServerBackend δ := ⟨[], [], db, 0⟩

def backendStep (rt : Runtime δ) : Machine (ServerBackend δ) Event Sent
  | s, .message client message chance => s.slotGetMessage rt client chance message
  | s, .userDisconnected client => s.slotUserDisconnected client

end TermCollection.Pokemon
