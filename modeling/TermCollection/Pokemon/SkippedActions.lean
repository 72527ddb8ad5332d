import TermCollection.Pokemon.HitPoints

/-!
# Skipped actions

A Pokemon that is silenced, paralysed or asleep does no damage. The buffs of its attack have been pushed
and have worked by then.
-/

namespace TermCollection.Pokemon

variable {attack : Attack} {battle : BattleField} {result : AttackResult} {fromBuf : List Buff}
variable {type : BalanceType} {draw : Nat}

/-- The buffs that skip the action. -/
def Buff.skipsAction (buff : Buff) : Bool :=
  match buffType buff.buffId with
  | some .slient | some .palsying | some .sleeping => true
  | _ => false

namespace BattleField

def attacker (battle : BattleField) : BalanceType → PokemonBase
  | .aToB => battle.pkmA
  | .bToA => battle.pkmB

def target (battle : BattleField) : BalanceType → PokemonBase
  | .aToB => battle.pkmB
  | .bToA => battle.pkmA

def attackerBuffs (battle : BattleField) : BalanceType → List Buff
  | .aToB => battle.buffListA
  | .bToA => battle.buffListB

def targetBuffs (battle : BattleField) : BalanceType → List Buff
  | .aToB => battle.buffListB
  | .bToA => battle.buffListA

def action (battle : BattleField) : BalanceType → QString
  | .aToB => battle.actionA
  | .bToA => battle.actionB

end BattleField

/-- The HP and the current properties of a Pokemon. -/
structure SameStats (pkm pkm' : PokemonBase) : Prop where
  curHP : pkm'.curHP = pkm.curHP
  curATK : pkm'.curATK = pkm.curATK
  curDEF : pkm'.curDEF = pkm.curDEF
  curSPD : pkm'.curSPD = pkm.curSPD

/-- An attack that leaves both sides as they were. -/
structure NoEffect (type : BalanceType) (battle battle' : BattleField) : Prop where
  attacker : SameStats (battle.attacker type) (battle'.attacker type)
  target : SameStats (battle.target type) (battle'.target type)
  attackerBuffs : battle'.attackerBuffs type = battle.attackerBuffs type
  targetBuffs : battle'.targetBuffs type = battle.targetBuffs type

theorem enhanceLoop_skips (h : ∃ buff ∈ fromBuf, buff.skipsAction = true) : enhanceLoop result fromBuf = {} := by
  induction fromBuf generalizing result with
  | nil =>
      obtain ⟨_, hmem, -⟩ := h
      cases hmem
  | cons buff fromBuf ih =>
      have hrest : buff.skipsAction = false → ∃ buff ∈ fromBuf, buff.skipsAction = true := by
        intro hbuff
        obtain ⟨skipping, hmem, hskips⟩ := h
        rcases List.mem_cons.mp hmem with rfl | hmem
        · rw [hskips] at hbuff
          cases hbuff
        · exact ⟨skipping, hmem, hskips⟩
      unfold enhanceLoop
      split
      case h_4 heq => exact ih (hrest (by rw [Buff.skipsAction, heq]))
      case h_5 heq => exact ih (hrest (by rw [Buff.skipsAction, heq]))
      case h_6 hslient hpalsying hsleeping _ _ =>
          refine ih (hrest ?_)
          unfold Buff.skipsAction
          split <;> simp_all
      all_goals rfl

theorem resistLoop_selfBuf (result : AttackResult) (destBuf : List Buff) :
    (resistLoop result destBuf).selfBuf = result.selfBuf := by
  unfold resistLoop
  induction destBuf generalizing result with
  | nil => rfl
  | cons buff destBuf ih =>
      rw [List.foldl_cons, ih]
      split <;> rfl

/-- A skipped attack as it is: the damage is zero, and the buffs stay with what they did. -/
structure Skipped (battle battle' : BattleField) (type : BalanceType) (result : AttackResult) : Prop where
  attacker : battle'.attacker type =
    ((battle.attacker type).applyProperty result.selfBuf.buffId).loseHP 0
  target : battle'.target type = ((battle.target type).applyProperty result.destBuf.buffId).loseHP 0
  attackerBuffs : battle'.attackerBuffs type = battle.attackerBuffs type ++ [result.selfBuf]
  targetBuffs : battle'.targetBuffs type = battle.targetBuffs type ++ [result.destBuf]

theorem skipped_strike (h : ∃ buff ∈ battle.attackerBuffs type, buff.skipsAction = true) :
    Skipped battle (battle.strike attack draw type).1 type
      (attack (battle.attacker type) (battle.target type) (battle.action type) draw) := by
  obtain ⟨buff, hmem, hskips⟩ := h
  have hskip : ∀ result selfBuf, enhanceLoop result (battle.attackerBuffs type ++ [selfBuf]) = {} :=
    fun _ _ => enhanceLoop_skips ⟨buff, List.mem_append_left _ hmem, hskips⟩
  cases type with
  | aToB =>
      simp only [BattleField.attackerBuffs] at hskip
      simp only [BattleField.strike, BattleField.handleResult, handleDest, hskip,
        resistLoop_selfBuf]
      exact ⟨rfl, rfl, rfl, rfl⟩
  | bToA =>
      simp only [BattleField.attackerBuffs] at hskip
      simp only [BattleField.strike, BattleField.handleResult, handleDest, hskip,
        resistLoop_selfBuf]
      exact ⟨rfl, rfl, rfl, rfl⟩

/-- A skipped action always leaves the two buffs of the attack in the lists. -/
theorem skipped_action_pushes (h : ∃ buff ∈ battle.attackerBuffs type, buff.skipsAction = true) :
    Skipped battle (battle.strike attack draw type).1 type
        (attack (battle.attacker type) (battle.target type) (battle.action type) draw) ∧
      ¬ NoEffect type battle (battle.strike attack draw type).1 := by
  have hskipped : Skipped battle (battle.strike attack draw type).1 type _ := skipped_strike h
  refine ⟨hskipped, fun hno => ?_⟩
  have hpushed := hno.attackerBuffs
  rw [hskipped.attackerBuffs] at hpushed
  have hlength := congrArg List.length hpushed
  rw [List.length_append, List.length_singleton] at hlength
  omega

/-- A battle with a Pokemon that BodySlam has paralysed. -/
def palsiedBattle : BattleField :=
  { newBattleField 2 0 (some 1) (firstLevelPokemon "a") (firstLevelPokemon "b") .expBattle with
    buffListA := [⟨27, 2⟩] }

def appleAcid : Attack := fun _ _ _ _ => ⟨{}, ⟨14, 2⟩, 0, 4⟩

theorem skipped_action_pushes_example :
    Skipped palsiedBattle (palsiedBattle.strike appleAcid 0 .aToB).1 .aToB ⟨{}, ⟨14, 2⟩, 0, 4⟩ ∧
      ¬ NoEffect .aToB palsiedBattle (palsiedBattle.strike appleAcid 0 .aToB).1 :=
  skipped_action_pushes ⟨⟨27, 2⟩, by decide, by decide⟩

/-- The attack of a paralysed Pokemon takes DEF from its target, and the buff for that stays. -/
theorem palsied_attack_weakens :
    (∃ buff ∈ palsiedBattle.attackerBuffs .aToB, buff.skipsAction = true) ∧
      ¬ NoEffect .aToB palsiedBattle (palsiedBattle.strike appleAcid 0 .aToB).1 ∧
      palsiedBattle.pkmB.curDEF = 6 ∧ (palsiedBattle.strike appleAcid 0 .aToB).1.pkmB.curDEF = 4 ∧
      (palsiedBattle.strike appleAcid 0 .aToB).1.buffListB = [⟨14, 2⟩] ∧
      (palsiedBattle.strike appleAcid 0 .aToB).1.buffListA = [⟨27, 2⟩, {}] := by
  refine ⟨⟨⟨27, 2⟩, by decide, by decide⟩, fun hno => ?_, by decide, by decide +kernel, by decide, by decide⟩
  have hbuffs := hno.targetBuffs
  revert hbuffs
  decide

end TermCollection.Pokemon
