import Mathlib.Data.List.Induction
import Mathlib.Data.List.Basic
import TermCollection.Lib.Sweep
import TermCollection.Pokemon.HitPoints

/-!
# Buffs at the end of a turn

What the pass over the buffs is for: each one works once, from the last to the first, loses one of its
turns, and stays as long as it has turns left.
-/

namespace TermCollection.Pokemon

variable {pkm : PokemonBase} {buff last : Buff} {buffList front : List Buff}

/-- The buff has a turn left after this one. -/
def Buff.Lasts (buff : Buff) : Prop := 1 < buff.turnCnt

/-- The Pokemon and the buffs after a pass in which every buff has its turn. -/
def buffPass (pkm : PokemonBase) (buffList : List Buff) : PokemonBase × List Buff :=
  (buffList.foldr (fun buff pkm => pkm.applyBuff buff.buffId) pkm,
    (buffList.map Buff.countDown).filter fun buff => 0 < buff.turnCnt)

def BattleField.buffReference (battle : BattleField) : BattleField :=
  let a := buffPass battle.pkmA.resetProperties battle.buffListA
  let b := buffPass battle.pkmB.resetProperties battle.buffListB
  { battle with pkmA := a.1, buffListA := a.2, pkmB := b.1, buffListB := b.2 }

/-! ## The loop from the back -/

instance : Inhabited Buff := ⟨{}⟩

/-- `handleBuffList` for what a buff makes of a Pokemon. -/
def buffSweep (work : PokemonBase → Int → PokemonBase) : Sweep PokemonBase Buff where
  work := fun pkm buff => work pkm buff.buffId
  tick := Buff.countDown
  ended := fun buff => buff.turnCnt ≤ 0

theorem handleBuffLoop_eq_sweep (n : Nat) (pkm : PokemonBase) (buffList : List Buff) :
    handleBuffLoop n pkm buffList = (buffSweep PokemonBase.applyBuff).loop n pkm buffList := by
  induction n, pkm, buffList using handleBuffLoop.induct with
  | case1 pkm buffList => rfl
  | case2 pkm buffList => simp only [handleBuffLoop, Sweep.loop, buffSweep, decide_eq_true_eq]; rfl
  | case3 i pkm buffList buff pkm' hcount ih =>
      have hended : (buffSweep PokemonBase.applyBuff).ended buff = true := decide_eq_true hcount
      rw [handleBuffLoop, if_pos hcount, ih]
      exact (if_pos hended).symm
  | case4 i pkm buffList buff pkm' hlasts ih =>
      have hended : ¬ (buffSweep PokemonBase.applyBuff).ended buff = true := by
        rw [buffSweep, decide_eq_true_eq]
        exact hlasts
      rw [handleBuffLoop, if_neg hlasts, ih]
      exact (if_neg hended).symm

theorem handleBuffList_eq_sweep (pkm : PokemonBase) (buffList : List Buff) :
    handleBuffList pkm buffList = (buffSweep PokemonBase.applyBuff).sweep pkm buffList :=
  handleBuffLoop_eq_sweep buffList.length pkm buffList

theorem ended_countDown (work : PokemonBase → Int → PokemonBase) (buff : Buff) :
    (buffSweep work).ended buff.countDown = true ↔ ¬ buff.Lasts := by
  simp only [buffSweep, Buff.countDown, Buff.Lasts, decide_eq_true_eq]
  omega

/-- A last buff with turns left: the others follow. -/
theorem handleBuffList_lasts (h : buff.Lasts) :
    handleBuffList pkm (front ++ [buff]) =
      ((handleBuffList (pkm.applyBuff buff.buffId) front).1,
        (handleBuffList (pkm.applyBuff buff.buffId) front).2 ++ [buff.countDown]) := by
  have hended : (buffSweep PokemonBase.applyBuff).ended buff.countDown = false := by
    rw [← Bool.not_eq_true, ended_countDown, not_not]
    exact h
  simp only [handleBuffList_eq_sweep]
  exact Sweep.sweep_lasts _ hended

/-- A last buff that ends: the one before it is passed over. -/
theorem handleBuffList_ends (h : ¬ buff.Lasts) :
    handleBuffList pkm (front ++ [last, buff]) =
      ((handleBuffList (pkm.applyBuff buff.buffId) front).1,
        (handleBuffList (pkm.applyBuff buff.buffId) front).2 ++ [last]) := by
  simp only [handleBuffList_eq_sweep]
  exact Sweep.sweep_ends _ ((ended_countDown _ buff).mpr h)

theorem handleBuffList_single (h : ¬ buff.Lasts) :
    handleBuffList pkm [buff] = (pkm.applyBuff buff.buffId, []) := by
  have hended : (buffSweep PokemonBase.applyBuff).ended ((buffSweep PokemonBase.applyBuff).tick buff) = true :=
    (ended_countDown _ buff).mpr h
  rw [handleBuffList_eq_sweep, Sweep.sweep_single, if_pos hended]
  rfl

/-! ## The pass from the back -/

theorem buffPass_lasts (h : buff.Lasts) :
    buffPass pkm (front ++ [buff]) =
      ((buffPass (pkm.applyBuff buff.buffId) front).1,
        (buffPass (pkm.applyBuff buff.buffId) front).2 ++ [buff.countDown]) := by
  have hcount : 0 < buff.countDown.turnCnt := by
    rw [Buff.Lasts] at h
    simp only [Buff.countDown]
    omega
  simp only [buffPass, List.foldr_append, List.foldr_cons, List.foldr_nil, List.map_append, List.map_cons,
    List.map_nil, List.filter_append, List.filter_cons, List.filter_nil, hcount, decide_true, if_true]

theorem buffPass_ends (h : ¬ buff.Lasts) :
    buffPass pkm (front ++ [buff]) = buffPass (pkm.applyBuff buff.buffId) front := by
  have hcount : ¬ 0 < buff.countDown.turnCnt := by
    rw [Buff.Lasts] at h
    simp only [Buff.countDown]
    omega
  simp only [buffPass, List.foldr_append, List.foldr_cons, List.foldr_nil, List.map_append, List.map_cons,
    List.map_nil, List.filter_append, List.filter_cons, List.filter_nil, hcount, decide_false,
    Bool.false_eq_true, if_false, List.append_nil]

/-- Every buff but the first has a turn left. -/
def Unbroken (buffList : List Buff) : Prop := ∀ buff ∈ buffList.tail, buff.Lasts

theorem handleBuffList_of_unbroken (h : Unbroken buffList) :
    handleBuffList pkm buffList = buffPass pkm buffList := by
  induction buffList using List.reverseRecOn generalizing pkm with
  | nil => rfl
  | append_singleton front buff ih =>
      cases front with
      | nil =>
          by_cases hlasts : buff.Lasts
          · rw [handleBuffList_lasts hlasts, buffPass_lasts hlasts]
            rfl
          · rw [buffPass_ends hlasts]
            exact handleBuffList_single hlasts
      | cons first front =>
          have hlasts : buff.Lasts := h buff (by simp)
          have hfront : Unbroken (first :: front) := fun b hb => h b (List.mem_append_left _ hb)
          rw [handleBuffList_lasts hlasts, buffPass_lasts hlasts, ih hfront]

/-! ## What a buff that is passed over leaves -/

/-- The turns that a list still has, where an entry counts as one at least. -/
def turnsLeft (buffList : List Buff) : Int := (buffList.map fun buff => max 1 buff.turnCnt).sum

theorem turnsLeft_concat (front : List Buff) (buff : Buff) :
    turnsLeft (front ++ [buff]) = turnsLeft front + max 1 buff.turnCnt := by
  rw [turnsLeft, List.map_append, List.sum_append, List.map_singleton, List.sum_singleton, turnsLeft]

/-- The loop leaves at least the turns that the pass leaves, and more when it passes over a buff. -/
theorem turnsLeft_handleBuffList (pkm : PokemonBase) (buffList : List Buff) :
    turnsLeft (buffPass pkm buffList).2 ≤ turnsLeft (handleBuffList pkm buffList).2 ∧
      (turnsLeft (handleBuffList pkm buffList).2 ≤ turnsLeft (buffPass pkm buffList).2 →
        Unbroken buffList) := by
  induction hn : buffList.length using Nat.strongRecOn generalizing pkm buffList with
  | ind n ih =>
      rcases List.eq_nil_or_concat' buffList with rfl | ⟨front, buff, rfl⟩
      · exact ⟨Int.le_refl _, fun _ b hb => by cases hb⟩
      rcases List.eq_nil_or_concat' front with rfl | ⟨front, last, rfl⟩
      · have hone : Unbroken ([] ++ [buff]) := fun b hb => by cases hb
        rw [handleBuffList_of_unbroken hone]
        exact ⟨Int.le_refl _, fun _ => hone⟩
      rw [List.length_append, List.length_append, List.length_singleton, List.length_singleton] at hn
      by_cases hlasts : buff.Lasts
      · obtain ⟨hle, hback⟩ := ih (front.length + 1) (by omega) (pkm.applyBuff buff.buffId)
          (front ++ [last]) (by simp)
        rw [handleBuffList_lasts hlasts, buffPass_lasts hlasts, turnsLeft_concat, turnsLeft_concat]
        refine ⟨by omega, fun hge b hb => ?_⟩
        rw [List.tail_append_of_ne_nil (by simp), List.mem_append, List.mem_singleton] at hb
        rcases hb with hb | rfl
        · exact hback (by omega) b hb
        · exact hlasts
      · -- the count of `last` stays as it is
        obtain ⟨hle, -⟩ := ih front.length (by omega) (pkm.applyBuff buff.buffId) front rfl
        have hlast : turnsLeft (buffPass (pkm.applyBuff buff.buffId) (front ++ [last])).2 <
            turnsLeft (buffPass (pkm.applyBuff buff.buffId) front).2 + max 1 last.turnCnt := by
          by_cases hlast : last.Lasts
          · rw [buffPass_lasts hlast, turnsLeft_concat]
            rw [Buff.Lasts] at hlast
            simp only [buffPass, Buff.countDown]
            omega
          · rw [buffPass_ends hlast]
            simp only [buffPass]
            omega
        rw [List.append_assoc, List.singleton_append, handleBuffList_ends hlasts, turnsLeft_concat,
          ← List.singleton_append, ← List.append_assoc, buffPass_ends hlasts]
        exact ⟨by omega, fun hge => absurd hge (by omega)⟩

theorem handleBuffList_eq_iff (pkm : PokemonBase) (buffList : List Buff) :
    handleBuffList pkm buffList = buffPass pkm buffList ↔ Unbroken buffList := by
  refine ⟨fun h => (turnsLeft_handleBuffList pkm buffList).2 ?_, handleBuffList_of_unbroken⟩
  rw [h]

/-- The buffs of both sides have their turn when no buff behind the first of its list ends. -/
theorem buffs_have_their_turn (battle : BattleField) :
    battle.queryBuffList = battle.buffReference ↔
      Unbroken battle.buffListA ∧ Unbroken battle.buffListB := by
  rw [← handleBuffList_eq_iff battle.pkmA.resetProperties,
    ← handleBuffList_eq_iff battle.pkmB.resetProperties]
  simp only [BattleField.queryBuffList, BattleField.buffReference, BattleField.mk.injEq, Prod.ext_iff]
  tauto


/-- Poisoning for five turns, and behind it the empty buff of an attack that has none. -/
def poisonedBattle : BattleField :=
  { newBattleField 2 0 (some 1) (firstLevelPokemon "a") (firstLevelPokemon "b") .expBattle with
    buffListB := [⟨20, 5⟩, {}] }

theorem poisoning_passed_over :
    poisonedBattle.queryBuffList ≠ poisonedBattle.buffReference ∧
      poisonedBattle.queryBuffList.pkmB.curHP = 12 ∧
      poisonedBattle.queryBuffList.buffListB = [⟨20, 5⟩] ∧
      poisonedBattle.buffReference.pkmB.curHP = 11 ∧
      poisonedBattle.buffReference.buffListB = [⟨20, 4⟩] := by decide +kernel

end TermCollection.Pokemon
