import TermCollection.Pokemon.PokemonBase

/-!
# A battle (`BattleField.cpp`)

A battle calls nobody: it says which turn information it emits, and whether it emits the end of the
battle. A user is a pointer, which is the number of its allocation.
-/

namespace TermCollection.Pokemon

/-- What `attack` returns for the attacker, the target, the name of the skill and the random numbers. -/
abbrev Attack := PokemonBase → PokemonBase → QString → Nat → AttackResult

inductive BalanceType where
  | aToB
  | bToA
  deriving DecidableEq

inductive FieldMode where
  | expBattle
  | duelBattle
  deriving DecidableEq

structure TurnInfo where
  type : BalanceType
  skillName : QString
  selfDeltaHP : Int
  destDeltaHP : Int
  selfBuff : Buff
  destBuff : Buff
  deriving DecidableEq

structure BattleField where
  ptr : Nat
  mode : FieldMode
  userA : Nat
  userB : Option Nat
  pkmA : PokemonBase
  pkmB : PokemonBase
  buffListA : List Buff
  buffListB : List Buff
  actionA : QString
  actionB : QString
  deriving DecidableEq

/-- The users that a battle refers to. -/
def BattleField.participants (battle : BattleField) : List Nat := battle.userA :: battle.userB.toList

/-! ## Buffs -/

def times1_1 : Double := ⟨2476979795053773, 51⟩
def times1_2 : Double := ⟨5404319552844595, 52⟩
def times1_3 : Double := ⟨5854679515581645, 52⟩
def times0_9 : Double := ⟨8106479329266893, 53⟩
def times0_8 : Double := ⟨3602879701896397, 52⟩
def times0_7 : Double := ⟨3152519739159347, 52⟩
def times0_15 : Double := ⟨5404319552844595, 55⟩
def times0_5 : Double := ⟨1, 1⟩
def times2 : Double := ⟨2, 0⟩

namespace PokemonBase

def scaleATK (pkm : PokemonBase) (c : Double) : PokemonBase := { pkm with curATK := c.scale pkm.curATK }

def scaleDEF (pkm : PokemonBase) (c : Double) : PokemonBase := { pkm with curDEF := c.scale pkm.curDEF }

def scaleSPD (pkm : PokemonBase) (c : Double) : PokemonBase := { pkm with curSPD := c.scale pkm.curSPD }

/-- The cases of the property buffs. -/
def applyProperty (pkm : PokemonBase) (buffId : Int) : PokemonBase :=
  match buffType buffId with
  | some .atkUpS => pkm.scaleATK times1_1
  | some .atkUpM => pkm.scaleATK times1_2
  | some .atkUpL => pkm.scaleATK times1_3
  | some .defUpS => pkm.scaleDEF times1_1
  | some .defUpM => pkm.scaleDEF times1_2
  | some .defUpL => pkm.scaleDEF times1_3
  | some .spdUpS => pkm.scaleSPD times1_1
  | some .spdUpM => pkm.scaleSPD times1_2
  | some .spdUpL => pkm.scaleSPD times1_3
  | some .atkDownS => pkm.scaleATK times0_9
  | some .atkDownM => pkm.scaleATK times0_8
  | some .atkDownL => pkm.scaleATK times0_7
  | some .defDownS => pkm.scaleDEF times0_9
  | some .defDownM => pkm.scaleDEF times0_8
  | some .defDownL => pkm.scaleDEF times0_7
  | some .spdDownS => pkm.scaleSPD times0_9
  | some .spdDownM => pkm.scaleSPD times0_8
  | some .spdDownL => pkm.scaleSPD times0_7
  | _ => pkm

/-- One case of `handleBuffList`. -/
def applyBuff (pkm : PokemonBase) (buffId : Int) : PokemonBase :=
  match buffType buffId with
  | some .revive => { pkm with curHP := min (times0_15.scaleAdd pkm.HP pkm.curHP) pkm.HP }
  | some .poisoning => { pkm with curHP := pkm.curHP - times0_15.scale pkm.HP }
  | _ => pkm.applyProperty buffId

end PokemonBase

/-- `--buff.turnCnt`. -/
def Buff.countDown (buff : Buff) : Buff := { buff with turnCnt := buff.turnCnt - 1 }

/-- The loop of `handleBuffList` from the index before the given number down. A buff that has ended is
removed, and then the one before it is passed over. -/
def handleBuffLoop : Nat → PokemonBase → List Buff → PokemonBase × List Buff
  | 0, pkm, buffList => (pkm, buffList)
  | 1, pkm, buffList =>
      let buff := (buffList.getD 0 {}).countDown
      (pkm.applyBuff buff.buffId,
        if buff.turnCnt ≤ 0 then buffList.eraseIdx 0 else buffList.set 0 buff)
  | i + 2, pkm, buffList =>
      let buff := (buffList.getD (i + 1) {}).countDown
      let pkm := pkm.applyBuff buff.buffId
      if buff.turnCnt ≤ 0 then handleBuffLoop i pkm (buffList.eraseIdx (i + 1))
      else handleBuffLoop (i + 1) pkm (buffList.set (i + 1) buff)

def handleBuffList (pkm : PokemonBase) (buffList : List Buff) : PokemonBase × List Buff :=
  handleBuffLoop buffList.length pkm buffList

def PokemonBase.resetProperties (pkm : PokemonBase) : PokemonBase :=
  { pkm with curATK := pkm.ATK, curDEF := pkm.DEF, curSPD := pkm.SPD }

namespace BattleField

def queryBuffList (battle : BattleField) : BattleField :=
  let a := handleBuffList battle.pkmA.resetProperties battle.buffListA
  let b := handleBuffList battle.pkmB.resetProperties battle.buffListB
  { battle with pkmA := a.1, buffListA := a.2, pkmB := b.1, buffListB := b.2 }

end BattleField

/-! ## Results of attacks -/

def AttackResult.scaleDest (result : AttackResult) (c : Double) : AttackResult :=
  { result with destDeltaHp := c.scale result.destDeltaHp }

/-- The damage that the buffs of the target leave. -/
def resistLoop (result : AttackResult) (destBuf : List Buff) : AttackResult :=
  destBuf.foldl (fun result buff =>
    match buffType buff.buffId with
    | some .damageHalf => result.scaleDest times0_5
    | some .damageInvalid => { result with destDeltaHp := 0 }
    | _ => result) result

/-- The loop over the attacker's buffs, which ends at one that skips the action. -/
def enhanceLoop : AttackResult → List Buff → AttackResult
  | result, [] => result
  | result, buff :: fromBuf =>
      match buffType buff.buffId with
      | some .slient | some .palsying | some .sleeping => {}
      | some .skillDamageUp => enhanceLoop (result.scaleDest times1_2) fromBuf
      | some .skillDamageDouble => enhanceLoop (result.scaleDest times2) fromBuf
      | _ => enhanceLoop result fromBuf

/-- The lambda `handleDest`: the result, the attacker and the target after it. -/
def handleDest (result : AttackResult) (attacker : PokemonBase) (fromBuf : List Buff)
    (dest : PokemonBase) (destBuf : List Buff) : AttackResult × PokemonBase × PokemonBase :=
  let dest := dest.applyProperty result.destBuf.buffId
  let result := resistLoop result destBuf
  let attacker := attacker.applyProperty result.selfBuf.buffId
  (enhanceLoop result fromBuf, attacker, dest)

namespace BattleField

def handleResult (battle : BattleField) (result : AttackResult) : BalanceType → AttackResult × BattleField
  | .aToB =>
      let buffListA := battle.buffListA ++ [result.selfBuf]
      let buffListB := battle.buffListB ++ [result.destBuf]
      let (result, pkmA, pkmB) := handleDest result battle.pkmA buffListA battle.pkmB buffListB
      (result, { battle with
        pkmA := pkmA, pkmB := pkmB, buffListA := buffListA, buffListB := buffListB })
  | .bToA =>
      let buffListB := battle.buffListB ++ [result.selfBuf]
      let buffListA := battle.buffListA ++ [result.destBuf]
      let (result, pkmB, pkmA) := handleDest result battle.pkmB buffListB battle.pkmA buffListA
      (result, { battle with
        pkmA := pkmA, pkmB := pkmB, buffListA := buffListA, buffListB := buffListB })

end BattleField

def PokemonBase.loseHP (pkm : PokemonBase) (delta : Int) : PokemonBase :=
  { pkm with curHP := min (pkm.curHP - delta) pkm.HP }

def turnInfo (result : AttackResult) (action : QString) (type : BalanceType) : TurnInfo where
  type := type
  skillName := action
  selfDeltaHP := result.selfDeltaHp
  destDeltaHP := result.destDeltaHp
  selfBuff := result.selfBuf
  destBuff := result.destBuf

namespace BattleField

/-! ## Turns -/

/-- One attack of a turn. -/
def strike (attack : Attack) (battle : BattleField) (draw : Nat) :
    BalanceType → BattleField × TurnInfo
  | .aToB =>
      let (result, battle) := battle.handleResult
        (attack battle.pkmA battle.pkmB battle.actionA draw) .aToB
      ({ battle with
          pkmA := battle.pkmA.loseHP result.selfDeltaHp
          pkmB := battle.pkmB.loseHP result.destDeltaHp },
        turnInfo result battle.actionA .aToB)
  | .bToA =>
      let (result, battle) := battle.handleResult
        (attack battle.pkmB battle.pkmA battle.actionB draw) .bToA
      ({ battle with
          pkmA := battle.pkmA.loseHP result.destDeltaHp
          pkmB := battle.pkmB.loseHP result.selfDeltaHp },
        turnInfo result battle.actionB .bToA)

/-- The winner that `sigBattleFinished` is emitted with, which may be NULL. -/
def checkBattleIsFinished (battle : BattleField) : Option (Option Nat) :=
  if battle.pkmA.curHP ≤ 0 then some battle.userB
  else if battle.pkmB.curHP ≤ 0 then some (some battle.userA)
  else none

/-- The battle after a turn, what was emitted, and the winner when the battle is over. -/
structure Turn where
  battle : BattleField
  infos : List TurnInfo
  winner : Option (Option Nat)

/-- The turn in which the attack of the first type comes before that of the second one. -/
def turnInOrder (attack : Attack) (battle : BattleField) (draw : BalanceType → Nat)
    (first second : BalanceType) : Turn :=
  let (battle, info₁) := battle.strike attack (draw first) first
  match battle.checkBattleIsFinished with
  | some winner => ⟨battle, [info₁], some winner⟩
  | none =>
      let (battle, info₂) := battle.strike attack (draw second) second
      match battle.checkBattleIsFinished with
      | some winner => ⟨battle, [info₁, info₂], some winner⟩
      | none =>
          let battle := { battle with actionA := "", actionB := "" }.queryBuffList
          ⟨battle, [info₁, info₂], battle.checkBattleIsFinished⟩

/-- With equal speeds an even one goes up by one, and an odd one down. -/
def turn (attack : Attack) (battle : BattleField) (draw : BalanceType → Nat) : Turn :=
  let spdB := battle.pkmB.curSPD
  let spdA :=
    if battle.pkmA.curSPD = spdB then
      battle.pkmA.curSPD + (if battle.pkmA.curSPD % 2 = 0 then 1 else -1)
    else battle.pkmA.curSPD
  if spdB < spdA then battle.turnInOrder attack draw .aToB .bToA
  else battle.turnInOrder attack draw .bToA .aToB

/-- A stored action, and the turn when both are there. -/
def setAction (attack : Attack) (battle : BattleField) (skillIndex : Int) (userIndex : Nat)
    (draw : BalanceType → Nat) : Turn :=
  let battle :=
    if userIndex = 0 then { battle with actionA := battle.pkmA.getSkill skillIndex }
    else { battle with actionB := battle.pkmB.getSkill skillIndex }
  if battle.actionA ≠ "" ∧ battle.actionB ≠ "" then battle.turn attack draw else ⟨battle, [], none⟩

end BattleField

def PokemonBase.enterBattle (pkm : PokemonBase) : PokemonBase :=
  { pkm with curHP := pkm.HP, curATK := pkm.ATK, curDEF := pkm.DEF, curSPD := pkm.SPD }

def newBattleField (ptr : Nat) (userA : Nat) (userB : Option Nat) (pkmA pkmB : PokemonBase)
    (mode : FieldMode) : BattleField where
  ptr := ptr
  mode := mode
  userA := userA
  userB := userB
  pkmA := pkmA.enterBattle
  pkmB := pkmB.enterBattle
  buffListA := []
  buffListB := []
  actionA := ""
  actionB := ""

end TermCollection.Pokemon
