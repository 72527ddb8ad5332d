import TermCollection.Pokemon.BattleMachine
import TermCollection.Pokemon.EndOfTurn
import TermCollection.Pokemon.Mirror
import TermCollection.Pokemon.PokemonSkill
import TermCollection.Pokemon.SkippedActions

/-!
# Battles with exact factors

The battle with two parameters: what a property buff makes of a Pokemon, and an attack that may have no
defined result. With the doubles of the source and a total attack it is the battle of `BattleField`. With
the exact factors a property is multiplied by a number of tenths and cut to an int.
-/

namespace TermCollection.Pokemon

/-- What a property buff makes of a Pokemon. -/
abbrev PropertyChange := PokemonBase → Int → PokemonBase

abbrev PartialAttack := PokemonBase → PokemonBase → QString → Nat → Option AttackResult

variable (change : PropertyChange) (attack : PartialAttack)

/-! ## The factors -/

/-- The int of a number of tenths of a property. -/
def tenths (k n : Int) : Int := (k * n).tdiv 10

theorem tenths_of_nonneg {k n : Int} (hk : 0 ≤ k) (hn : 0 ≤ n) : tenths k n = k * n / 10 :=
  Int.tdiv_eq_ediv_of_nonneg (Int.mul_nonneg hk hn)

namespace PokemonBase

def changeExactly (pkm : PokemonBase) (buffId : Int) : PokemonBase :=
  match buffType buffId with
  | some .atkUpS => { pkm with curATK := tenths 11 pkm.curATK }
  | some .atkUpM => { pkm with curATK := tenths 12 pkm.curATK }
  | some .atkUpL => { pkm with curATK := tenths 13 pkm.curATK }
  | some .defUpS => { pkm with curDEF := tenths 11 pkm.curDEF }
  | some .defUpM => { pkm with curDEF := tenths 12 pkm.curDEF }
  | some .defUpL => { pkm with curDEF := tenths 13 pkm.curDEF }
  | some .spdUpS => { pkm with curSPD := tenths 11 pkm.curSPD }
  | some .spdUpM => { pkm with curSPD := tenths 12 pkm.curSPD }
  | some .spdUpL => { pkm with curSPD := tenths 13 pkm.curSPD }
  | some .atkDownS => { pkm with curATK := tenths 9 pkm.curATK }
  | some .atkDownM => { pkm with curATK := tenths 8 pkm.curATK }
  | some .atkDownL => { pkm with curATK := tenths 7 pkm.curATK }
  | some .defDownS => { pkm with curDEF := tenths 9 pkm.curDEF }
  | some .defDownM => { pkm with curDEF := tenths 8 pkm.curDEF }
  | some .defDownL => { pkm with curDEF := tenths 7 pkm.curDEF }
  | some .spdDownS => { pkm with curSPD := tenths 9 pkm.curSPD }
  | some .spdDownM => { pkm with curSPD := tenths 8 pkm.curSPD }
  | some .spdDownL => { pkm with curSPD := tenths 7 pkm.curSPD }
  | _ => pkm

def applyBuffBy (pkm : PokemonBase) (buffId : Int) : PokemonBase :=
  match buffType buffId with
  | some .revive => { pkm with curHP := min (times0_15.scaleAdd pkm.HP pkm.curHP) pkm.HP }
  | some .poisoning => { pkm with curHP := pkm.curHP - times0_15.scale pkm.HP }
  | _ => change pkm buffId

end PokemonBase

namespace BattleField

/-! ## The battle -/

def queryBuffListBy (battle : BattleField) : BattleField :=
  let a := (buffSweep (PokemonBase.applyBuffBy change)).sweep battle.pkmA.resetProperties battle.buffListA
  let b := (buffSweep (PokemonBase.applyBuffBy change)).sweep battle.pkmB.resetProperties battle.buffListB
  { battle with pkmA := a.1, buffListA := a.2, pkmB := b.1, buffListB := b.2 }

def handleResultBy (battle : BattleField) (result : AttackResult) :
    BalanceType → AttackResult × BattleField
  | .aToB =>
      let buffListA := battle.buffListA ++ [result.selfBuf]
      let buffListB := battle.buffListB ++ [result.destBuf]
      (enhanceLoop (resistLoop result buffListB) buffListA, { battle with
        pkmA := change battle.pkmA result.selfBuf.buffId
        pkmB := change battle.pkmB result.destBuf.buffId
        buffListA := buffListA
        buffListB := buffListB })
  | .bToA =>
      let buffListB := battle.buffListB ++ [result.selfBuf]
      let buffListA := battle.buffListA ++ [result.destBuf]
      (enhanceLoop (resistLoop result buffListA) buffListB, { battle with
        pkmA := change battle.pkmA result.destBuf.buffId
        pkmB := change battle.pkmB result.selfBuf.buffId
        buffListA := buffListA
        buffListB := buffListB })

def strikeBy (battle : BattleField) (draw : Nat) : BalanceType → Option (BattleField × TurnInfo)
  | .aToB => do
      let result ← attack battle.pkmA battle.pkmB battle.actionA draw
      let (result, battle) := battle.handleResultBy change result .aToB
      some ({ battle with
          pkmA := battle.pkmA.loseHP result.selfDeltaHp
          pkmB := battle.pkmB.loseHP result.destDeltaHp },
        turnInfo result battle.actionA .aToB)
  | .bToA => do
      let result ← attack battle.pkmB battle.pkmA battle.actionB draw
      let (result, battle) := battle.handleResultBy change result .bToA
      some ({ battle with
          pkmA := battle.pkmA.loseHP result.destDeltaHp
          pkmB := battle.pkmB.loseHP result.selfDeltaHp },
        turnInfo result battle.actionB .bToA)

/-- The type of the first attack of a turn. -/
def firstAttack (battle : BattleField) : BalanceType :=
  let spdB := battle.pkmB.curSPD
  let spdA :=
    if battle.pkmA.curSPD = spdB then
      battle.pkmA.curSPD + (if battle.pkmA.curSPD % 2 = 0 then 1 else -1)
    else battle.pkmA.curSPD
  if spdB < spdA then .aToB else .bToA

/-- The attacks of a turn in order, and the winner when one of them ends the battle. -/
def attacksInOrderBy (battle : BattleField) (draw : BalanceType → Nat) (first : BalanceType) :
    Option Turn := do
  let (battle, info₁) ← battle.strikeBy change attack (draw first) first
  match battle.checkBattleIsFinished with
  | some winner => some ⟨battle, [info₁], some winner⟩
  | none => do
      let (battle, info₂) ← battle.strikeBy change attack (draw first.mirror) first.mirror
      some ⟨battle, [info₁, info₂], battle.checkBattleIsFinished⟩

def attacksBy (battle : BattleField) (draw : BalanceType → Nat) : Option Turn :=
  battle.attacksInOrderBy change attack draw battle.firstAttack

/-- What follows the attacks of a turn. -/
def endTurnBy (turn : Turn) : Turn :=
  match turn.winner with
  | some _ => turn
  | none =>
      let battle := { turn.battle with actionA := "", actionB := "" }.queryBuffListBy change
      ⟨battle, turn.infos, battle.checkBattleIsFinished⟩

def turnBy (battle : BattleField) (draw : BalanceType → Nat) : Option Turn :=
  (battle.attacksBy change attack draw).map (endTurnBy change)

def setActionBy (battle : BattleField) (call : BattleCall) : Option Turn :=
  let battle := battle.stored call.skillIndex call.userIndex
  if battle.actionA ≠ "" ∧ battle.actionB ≠ "" then battle.turnBy change attack call.draw
  else some ⟨battle, [], none⟩

end BattleField

/-- The machine of a battle; `DEBUG_FLAG` is not defined. -/
def battleStepBy : Machine BattleLife BattleCall BattleEvent := fun life call =>
  if life.deleted then none
  else (life.battle.setActionBy change attack call).map fun turn =>
    (⟨turn.battle, turn.winner.isSome⟩, turn.events)

/-- The battles of the server with exact factors. -/
def exactStep : Machine BattleLife BattleCall BattleEvent :=
  battleStepBy PokemonBase.changeExactly PokemonBase.attack

/-! ## The battle with doubles -/

section doubles

variable (attack : Attack)

/-- An attack that always has a result. -/
abbrev Attack.always : PartialAttack := fun user target skillName draw =>
  some (attack user target skillName draw)

theorem applyBuffBy_double : PokemonBase.applyBuffBy PokemonBase.applyProperty = PokemonBase.applyBuff := rfl

theorem queryBuffListBy_double (battle : BattleField) :
    battle.queryBuffListBy PokemonBase.applyProperty = battle.queryBuffList := by
  simp only [BattleField.queryBuffListBy, BattleField.queryBuffList, handleBuffList_eq_sweep,
    applyBuffBy_double]

theorem handleResultBy_double (battle : BattleField) (result : AttackResult) (type : BalanceType) :
    battle.handleResultBy PokemonBase.applyProperty result type = battle.handleResult result type := by
  cases type <;>
    simp only [BattleField.handleResultBy, BattleField.handleResult, handleDest, resistLoop_selfBuf]

theorem strikeBy_double (battle : BattleField) (draw : Nat) (type : BalanceType) :
    battle.strikeBy PokemonBase.applyProperty attack.always draw type =
      some (battle.strike attack draw type) := by
  cases type <;>
    simp only [BattleField.strikeBy, BattleField.strike, handleResultBy_double, Option.bind_eq_bind,
      Option.bind_some]

theorem turnInOrderBy_double (battle : BattleField) (draw : BalanceType → Nat) (first : BalanceType) :
    (battle.attacksInOrderBy PokemonBase.applyProperty attack.always draw first).map
        (BattleField.endTurnBy PokemonBase.applyProperty) =
      some (battle.turnInOrder attack draw first first.mirror) := by
  simp only [BattleField.attacksInOrderBy, strikeBy_double, Option.bind_eq_bind, Option.bind_some,
    BattleField.turnInOrder]
  generalize battle.strike attack (draw first) first = r₁
  cases r₁.1.checkBattleIsFinished with
  | some winner => rfl
  | none =>
      simp only
      generalize r₁.1.strike attack (draw first.mirror) first.mirror = r₂
      simp only [Option.map_some, BattleField.endTurnBy, queryBuffListBy_double]
      cases r₂.1.checkBattleIsFinished with
      | some winner => rfl
      | none => rfl

theorem turnBy_double (battle : BattleField) (draw : BalanceType → Nat) :
    battle.turnBy PokemonBase.applyProperty attack.always draw = some (battle.turn attack draw) := by
  rw [BattleField.turnBy, BattleField.attacksBy, turnInOrderBy_double]
  simp only [BattleField.firstAttack, BattleField.turn]
  generalize (if battle.pkmA.curSPD = battle.pkmB.curSPD then
    battle.pkmA.curSPD + (if battle.pkmA.curSPD % 2 = 0 then 1 else -1)
    else battle.pkmA.curSPD) = spdA
  split <;> rfl

/-- The battle of the source is the one with its doubles. -/
theorem setActionBy_double (battle : BattleField) (call : BattleCall) :
    battle.setActionBy PokemonBase.applyProperty attack.always call =
      some (battle.setAction attack call.skillIndex (if call.userIndex = 0 then 0 else 1) call.draw) := by
  simp only [BattleField.setActionBy, BattleField.setAction, BattleField.stored, turnBy_double]
  by_cases huser : call.userIndex = 0
  · simp only [huser, if_true]
    split <;> rfl
  · simp only [huser, if_false, Nat.one_ne_zero]
    split <;> rfl

theorem battleStepBy_double : battleStepBy PokemonBase.applyProperty attack.always = battleStep false attack := by
  funext life call
  simp only [battleStepBy, battleStep, BattleField.guardedSetAction, setActionBy_double, Option.map_some,
    Bool.false_eq_true, false_and, if_false]

end doubles

end TermCollection.Pokemon
