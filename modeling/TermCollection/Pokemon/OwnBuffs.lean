import Mathlib.Data.List.Basic
import TermCollection.Pokemon.SkippedActions

/-!
# The own buffs of an attack

The two buffs of an attack are pushed before the lists are read, so that they count for its own damage. The
reference reads the lists as they were.
-/

namespace TermCollection.Pokemon

/-! ## What buffs make of a damage -/

/-- What a buff of the attacker makes of a damage. -/
def Buff.enhance (damage : Int) (buff : Buff) : Int :=
  match buffType buff.buffId with
  | some .slient | some .palsying | some .sleeping => 0
  | some .skillDamageUp => times1_2.scale damage
  | some .skillDamageDouble => times2.scale damage
  | _ => damage

/-- What a buff of the target makes of a damage. -/
def Buff.resist (damage : Int) (buff : Buff) : Int :=
  match buffType buff.buffId with
  | some .damageHalf => times0_5.scale damage
  | some .damageInvalid => 0
  | _ => damage

theorem enhance_zero (buff : Buff) : Buff.enhance 0 buff = 0 := by
  unfold Buff.enhance
  split <;> rfl

theorem resist_zero (buff : Buff) : Buff.resist 0 buff = 0 := by
  unfold Buff.resist
  split <;> rfl

theorem resistLoop_damage (result : AttackResult) (destBuf : List Buff) :
    (resistLoop result destBuf).destDeltaHp = destBuf.foldl Buff.resist result.destDeltaHp := by
  unfold resistLoop
  induction destBuf generalizing result with
  | nil => rfl
  | cons buff destBuf ih =>
      rw [List.foldl_cons, List.foldl_cons, ih, Buff.resist]
      rcases buffType buff.buffId with _ | type
      · rfl
      · cases type <;> rfl

theorem enhanceLoop_damage (result : AttackResult) (fromBuf : List Buff) :
    (enhanceLoop result fromBuf).destDeltaHp = fromBuf.foldl Buff.enhance result.destDeltaHp := by
  induction fromBuf generalizing result with
  | nil => rfl
  | cons buff fromBuf ih =>
      rw [List.foldl_cons, Buff.enhance, enhanceLoop]
      rcases buffType buff.buffId with _ | type
      · exact ih _
      · cases type with
        | slient | palsying | sleeping => exact (List.foldl_fixed' enhance_zero fromBuf).symm
        | _ => exact ih _

namespace BattleField

/-- The damage that is subtracted from the HP of the target. -/
def damageTaken (battle : BattleField) (result : AttackResult) (type : BalanceType) : Int :=
  (battle.handleResult result type).1.destDeltaHp

/-- The damage that the buffs leave that were there before the attack. -/
def earlierDamage (battle : BattleField) (result : AttackResult) (type : BalanceType) : Int :=
  (enhanceLoop (resistLoop result (battle.targetBuffs type)) (battle.attackerBuffs type)).destDeltaHp

end BattleField

theorem earlierDamage_eq (battle : BattleField) (result : AttackResult) (type : BalanceType) :
    battle.earlierDamage result type = (battle.attackerBuffs type).foldl Buff.enhance
      ((battle.targetBuffs type).foldl Buff.resist result.destDeltaHp) := by
  rw [BattleField.earlierDamage, enhanceLoop_damage, resistLoop_damage]

/-- The own buffs of an attack come last in the two lists. -/
theorem damageTaken_eq (battle : BattleField) (result : AttackResult) (type : BalanceType) :
    battle.damageTaken result type =
      Buff.enhance ((battle.attackerBuffs type).foldl Buff.enhance
        (Buff.resist ((battle.targetBuffs type).foldl Buff.resist result.destDeltaHp) result.destBuf))
        result.selfBuf := by
  cases type <;>
    simp only [BattleField.damageTaken, BattleField.handleResult, handleDest, enhanceLoop_damage,
      resistLoop_damage, List.foldl_append, List.foldl_cons, List.foldl_nil, BattleField.attackerBuffs,
      BattleField.targetBuffs]

/-! ## Idle buffs -/

/-- The buffs of an attack that have no part in its own damage. -/
structure AttackResult.OwnBuffsIdle (result : AttackResult) : Prop where
  selfBuf : buffType result.selfBuf.buffId ∉
    [some .slient, some .palsying, some .sleeping, some .skillDamageUp, some .skillDamageDouble]
  destBuf : buffType result.destBuf.buffId ∉ [some .damageHalf, some .damageInvalid]

theorem enhance_of_idle {buff : Buff} {damage : Int} (h : buffType buff.buffId ∉
    [some .slient, some .palsying, some .sleeping, some .skillDamageUp, some .skillDamageDouble]) :
    Buff.enhance damage buff = damage := by
  unfold Buff.enhance
  split <;> simp_all

theorem resist_of_idle {buff : Buff} {damage : Int}
    (h : buffType buff.buffId ∉ [some .damageHalf, some .damageInvalid]) :
    Buff.resist damage buff = damage := by
  unfold Buff.resist
  split <;> simp_all

/-! ## Lists that bring a buff out -/

theorem half_natAbs {damage : Int} (h : damage ≠ 0) :
    (Buff.resist damage ⟨21, 1⟩).natAbs = round53 damage.natAbs / 2 := by
  have hhalf : Buff.resist damage ⟨21, 1⟩ = (roundDouble (damage * 1)).tdiv 2 := rfl
  rw [hhalf, Int.natAbs_tdiv, Int.mul_one, roundDouble, Int.natAbs_mul, Int.natAbs_sign_of_ne_zero h,
    Nat.one_mul]
  rfl

/-- Enough halvings leave a damage of one. -/
theorem halved_to_one {damage : Int} (h : damage ≠ 0) :
    ∃ k, ((List.replicate k ⟨21, 1⟩).foldl Buff.resist damage).natAbs = 1 := by
  induction hn : damage.natAbs using Nat.strongRecOn generalizing damage with
  | ind n ih =>
      rcases Nat.lt_or_ge n 2 with hsmall | hbig
      · exact ⟨0, by simp only [List.replicate_zero, List.foldl_nil]; omega⟩
      · obtain ⟨hlower, hupper⟩ := round53_bounds hbig
        have hhalf := half_natAbs h
        rw [hn] at hhalf
        obtain ⟨k, hk⟩ := ih (Buff.resist damage ⟨21, 1⟩).natAbs (by omega) (by omega) rfl
        exact ⟨k + 1, hk⟩

/-- A battle in which the target halves the damage a number of times and the attacker doubles it three
times. -/
def scalingBattle (halves : Nat) : BattleField :=
  { newBattleField 2 0 (some 1) (firstLevelPokemon "a") (firstLevelPokemon "b") .expBattle with
    buffListA := List.replicate 3 ⟨24, 1⟩
    buffListB := List.replicate halves ⟨21, 1⟩ }

theorem idle_of_scaling {unit : Int} {selfBuf destBuf : Buff} (h : unit.natAbs = 1)
    (heq : Buff.enhance ((List.replicate 3 ⟨24, 1⟩).foldl Buff.enhance (Buff.resist unit destBuf)) selfBuf =
      (List.replicate 3 ⟨24, 1⟩).foldl Buff.enhance unit) :
    buffType selfBuf.buffId ∉
        [some .slient, some .palsying, some .sleeping, some .skillDamageUp, some .skillDamageDouble] ∧
      buffType destBuf.buffId ∉ [some .damageHalf, some .damageInvalid] := by
  have hunit : unit = 1 ∨ unit = -1 := by omega
  have hdest : buffType destBuf.buffId ∉ [some .damageHalf, some .damageInvalid] := by
    intro hmem
    have hzero : Buff.resist unit destBuf = 0 := by
      rw [Buff.resist]
      simp only [List.mem_cons, List.not_mem_nil, or_false] at hmem
      rcases hmem with hmem | hmem
      · rw [hmem]
        rcases hunit with rfl | rfl <;> decide
      · rw [hmem]
    rw [hzero, List.foldl_fixed' enhance_zero, enhance_zero] at heq
    rcases hunit with rfl | rfl <;> exact absurd heq (by decide)
  refine ⟨fun hmem => ?_, hdest⟩
  rw [resist_of_idle hdest] at heq
  simp only [List.mem_cons, List.not_mem_nil, or_false] at hmem
  rw [Buff.enhance] at heq
  rcases hmem with hmem | hmem | hmem | hmem | hmem <;>
    rw [hmem] at heq <;> rcases hunit with rfl | rfl <;> exact absurd heq (by decide)

/-- In every battle, the damage of an attack is what the earlier buffs leave, when the own buffs have no
part in it or when there is no damage. -/
theorem own_buffs_left_out (result : AttackResult) :
    (∀ battle : BattleField, ∀ type, battle.damageTaken result type = battle.earlierDamage result type) ↔
      result.destDeltaHp = 0 ∨ result.OwnBuffsIdle := by
  constructor
  · intro h
    by_cases hzero : result.destDeltaHp = 0
    · exact .inl hzero
    · obtain ⟨halves, hunit⟩ := halved_to_one hzero
      have heq := h (scalingBattle halves) .aToB
      rw [damageTaken_eq, earlierDamage_eq] at heq
      obtain ⟨hself, hdest⟩ := idle_of_scaling hunit heq
      exact .inr ⟨hself, hdest⟩
  · intro h battle type
    rw [damageTaken_eq, earlierDamage_eq]
    rcases h with hzero | hidle
    · rw [hzero, List.foldl_fixed' resist_zero, resist_zero, List.foldl_fixed' enhance_zero, enhance_zero]
    · rw [resist_of_idle hidle.destBuf, enhance_of_idle hidle.selfBuf]

/-- Outrage of a Pokemon of the first level: it sleeps in the turn after it. -/
def outrage : AttackResult := ⟨⟨26, 2⟩, {}, 0, 4⟩

def outrageBattle : BattleField :=
  newBattleField 2 0 (some 1) (firstLevelPokemon "a") (firstLevelPokemon "b") .expBattle

/-- Outrage does no damage, because its user is asleep at once. -/
theorem outrage_cancels_itself :
    (¬ ∀ battle : BattleField, ∀ result type,
        battle.damageTaken result type = battle.earlierDamage result type) ∧
      outrageBattle.damageTaken outrage .aToB = 0 ∧ outrageBattle.earlierDamage outrage .aToB = 4 ∧
      (outrageBattle.strike (fun _ _ _ _ => outrage) 0 .aToB).1.pkmB.curHP = outrageBattle.pkmB.curHP := by
  refine ⟨fun h => ?_, by decide, by decide, by decide⟩
  exact absurd (h outrageBattle outrage .aToB) (by decide)

end TermCollection.Pokemon
