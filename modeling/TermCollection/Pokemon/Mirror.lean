import TermCollection.Pokemon.HitPoints

/-!
# The two seats of a battle

A turn does the same for both seats, up to the check which of two fallen Pokemon has lost.
-/

namespace TermCollection.Pokemon

variable {attack : Attack} {battle battle' : BattleField} {draw : BalanceType → Nat} {type : BalanceType}

/-! ## Seats -/

inductive Seat where
  | a
  | b
  deriving DecidableEq

def Seat.other : Seat → Seat
  | a => b
  | b => a

/-- The attack of the same Pokemon on the other seat. -/
def BalanceType.mirror : BalanceType → BalanceType
  | aToB => bToA
  | bToA => aToB

theorem mirror_mirror (type : BalanceType) : type.mirror.mirror = type := by
  cases type <;> rfl

def TurnInfo.mirror (info : TurnInfo) : TurnInfo := { info with type := info.type.mirror }

namespace BattleField

def userOf (battle : BattleField) : Seat → Option Nat
  | .a => some battle.userA
  | .b => battle.userB

/-- The seat that `checkBattleIsFinished` finds to have won. -/
def winnerSeat (battle : BattleField) : Option Seat :=
  if battle.pkmA.curHP ≤ 0 then some .b
  else if battle.pkmB.curHP ≤ 0 then some .a
  else none

/-- Both Pokemon have fallen. -/
def BothDown (battle : BattleField) : Prop := battle.pkmA.curHP ≤ 0 ∧ battle.pkmB.curHP ≤ 0

/-- The seats are exchanged. -/
structure Mirrored (battle battle' : BattleField) : Prop where
  pkmA : battle'.pkmA = battle.pkmB
  pkmB : battle'.pkmB = battle.pkmA
  buffListA : battle'.buffListA = battle.buffListB
  buffListB : battle'.buffListB = battle.buffListA
  actionA : battle'.actionA = battle.actionB
  actionB : battle'.actionB = battle.actionA

/-- The users are exchanged too. -/
structure UsersMirrored (battle battle' : BattleField) : Prop where
  userA : some battle'.userA = battle.userB
  userB : battle'.userB = some battle.userA

theorem checkBattleIsFinished_eq (battle : BattleField) :
    battle.checkBattleIsFinished = battle.winnerSeat.map battle.userOf := by
  unfold checkBattleIsFinished winnerSeat
  split
  · rfl
  · split <;> rfl

/-! ## Steps on both seats -/

theorem Mirrored.strike (h : Mirrored battle battle') (attack : Attack) (draw : Nat) (type : BalanceType) :
    Mirrored (battle.strike attack draw type).1 (battle'.strike attack draw type.mirror).1 ∧
      (battle'.strike attack draw type.mirror).2 = (battle.strike attack draw type).2.mirror := by
  obtain ⟨hA, hB, hlistA, hlistB, hactA, hactB⟩ := h
  cases type with
  | aToB =>
      simp only [BalanceType.mirror, BattleField.strike, handleResult, hA, hB, hlistA, hlistB, hactA,
        hactB]
      exact ⟨⟨rfl, rfl, rfl, rfl, rfl, rfl⟩, rfl⟩
  | bToA =>
      simp only [BalanceType.mirror, BattleField.strike, handleResult, hA, hB, hlistA, hlistB, hactA,
        hactB]
      exact ⟨⟨rfl, rfl, rfl, rfl, rfl, rfl⟩, rfl⟩

theorem Mirrored.queryBuffList (h : Mirrored battle battle') :
    Mirrored battle.queryBuffList battle'.queryBuffList := by
  obtain ⟨hA, hB, hlistA, hlistB, hactA, hactB⟩ := h
  simp only [BattleField.queryBuffList, hA, hB, hlistA, hlistB]
  exact ⟨rfl, rfl, rfl, rfl, hactA, hactB⟩

theorem Mirrored.bothDown (h : Mirrored battle battle') : battle'.BothDown ↔ battle.BothDown := by
  rw [BothDown, BothDown, h.pkmA, h.pkmB, And.comm]

/-- The winner changes seats with its Pokemon, unless both have fallen. -/
theorem Mirrored.winnerSeat (h : Mirrored battle battle') (hdown : ¬ battle.BothDown) :
    battle'.winnerSeat = battle.winnerSeat.map Seat.other := by
  simp only [BothDown, not_and] at hdown
  simp only [BattleField.winnerSeat, h.pkmA, h.pkmB]
  split <;> split <;> first | rfl | omega

theorem BothDown.winnerSeat (h : battle.BothDown) : battle.winnerSeat = some .b := if_pos h.1

theorem Mirrored.finished (h : Mirrored battle battle') :
    battle'.checkBattleIsFinished = none ↔ battle.checkBattleIsFinished = none := by
  simp only [checkBattleIsFinished_eq, Option.map_eq_none_iff]
  by_cases hdown : battle.BothDown
  · rw [hdown.winnerSeat, (h.bothDown.mpr hdown).winnerSeat]
  · rw [h.winnerSeat hdown, Option.map_eq_none_iff]

/-! ## Turns on both seats -/

/-- The two results of a turn. -/
structure Turn.Mirrored (turn turn' : Turn) : Prop where
  battle : turn.battle.Mirrored turn'.battle
  infos : turn'.infos = turn.infos.map TurnInfo.mirror
  winner : turn.winner = turn.battle.checkBattleIsFinished
  winner' : turn'.winner = turn'.battle.checkBattleIsFinished

theorem Mirrored.turnInOrder (h : Mirrored battle battle') (attack : Attack) (draw : BalanceType → Nat)
    (first second : BalanceType) :
    (battle.turnInOrder attack draw first second).Mirrored
      (battle'.turnInOrder attack (fun type => draw type.mirror) first.mirror second.mirror) := by
  obtain ⟨h₁, hinfo₁⟩ := h.strike attack (draw first) first
  obtain ⟨h₂, hinfo₂⟩ := h₁.strike attack (draw second) second
  simp only [BattleField.turnInOrder, mirror_mirror]
  generalize battle.strike attack (draw first) first = r₁ at *
  generalize battle'.strike attack (draw first) first.mirror = r₁' at *
  generalize r₁.1.strike attack (draw second) second = r₂ at *
  generalize r₁'.1.strike attack (draw second) second.mirror = r₂' at *
  have hpass : Mirrored { r₂.1 with actionA := "", actionB := "" }
      { r₂'.1 with actionA := "", actionB := "" } :=
    ⟨h₂.pkmA, h₂.pkmB, h₂.buffListA, h₂.buffListB, rfl, rfl⟩
  cases hcut : r₁.1.checkBattleIsFinished with
  | some winner =>
      cases hcut' : r₁'.1.checkBattleIsFinished with
      | none =>
          rw [h₁.finished.mp hcut'] at hcut
          cases hcut
      | some winner' =>
          refine ⟨h₁, ?_, hcut.symm, hcut'.symm⟩
          rw [hinfo₁]
          rfl
  | none =>
      rw [h₁.finished.mpr hcut]
      cases hlate : r₂.1.checkBattleIsFinished with
      | some winner =>
          cases hlate' : r₂'.1.checkBattleIsFinished with
          | none =>
              rw [h₂.finished.mp hlate'] at hlate
              cases hlate
          | some winner' =>
              refine ⟨h₂, ?_, hlate.symm, hlate'.symm⟩
              rw [hinfo₁, hinfo₂]
              rfl
      | none =>
          rw [h₂.finished.mpr hlate]
          refine ⟨hpass.queryBuffList, ?_, rfl, rfl⟩
          rw [hinfo₁, hinfo₂]
          rfl

theorem Mirrored.turn (h : Mirrored battle battle') (hspd : battle.pkmA.curSPD ≠ battle.pkmB.curSPD)
    (attack : Attack) (draw : BalanceType → Nat) :
    (battle.turn attack draw).Mirrored (battle'.turn attack fun type => draw type.mirror) := by
  simp only [BattleField.turn, h.pkmA, h.pkmB, if_neg hspd, if_neg hspd.symm]
  by_cases hfaster : battle.pkmB.curSPD < battle.pkmA.curSPD
  · have hslower : ¬ battle.pkmA.curSPD < battle.pkmB.curSPD := by omega
    rw [if_pos hfaster, if_neg hslower]
    exact h.turnInOrder attack draw .aToB .bToA
  · have hslower : battle.pkmA.curSPD < battle.pkmB.curSPD := by omega
    rw [if_neg hfaster, if_pos hslower]
    exact h.turnInOrder attack draw .bToA .aToB

end BattleField

/-- The two results of a turn are mirrored. The winner changes seats, and is the same user, unless both
Pokemon have fallen: then it is user B on either state. -/
structure SeatsAgree (battle battle' : BattleField) (turn turn' : BattleField.Turn) : Prop where
  battles : turn.battle.Mirrored turn'.battle
  infos : turn'.infos = turn.infos.map TurnInfo.mirror
  winner : turn.winner = turn.battle.winnerSeat.map turn.battle.userOf
  winner' : turn'.winner = turn'.battle.winnerSeat.map turn'.battle.userOf
  seat : ¬ turn.battle.BothDown → turn'.battle.winnerSeat = turn.battle.winnerSeat.map Seat.other
  user : ¬ turn.battle.BothDown → battle.UsersMirrored battle' → turn'.winner = turn.winner
  bothDown : turn.battle.BothDown → turn.battle.winnerSeat = some .b ∧ turn'.battle.winnerSeat = some .b

theorem userOf_other {b b' : BattleField} (husers : battle.UsersMirrored battle') (h : battle.Same b)
    (h' : battle'.Same b') (seat : Seat) : b'.userOf seat.other = b.userOf seat := by
  cases seat with
  | a => rw [Seat.other, BattleField.userOf, BattleField.userOf, h'.userB, husers.userB, h.userA]
  | b => rw [Seat.other, BattleField.userOf, BattleField.userOf, h'.userA, husers.userA, h.userB]

theorem seats_agree (h : battle.Mirrored battle') (hspd : battle.pkmA.curSPD ≠ battle.pkmB.curSPD)
    (attack : Attack) (draw : BalanceType → Nat) :
    SeatsAgree battle battle' (battle.turn attack draw)
      (battle'.turn attack fun type => draw type.mirror) := by
  have hturn := h.turn hspd attack draw
  have hsame := (BattleField.turnOf_turn attack battle draw).same
  have hsame' := (BattleField.turnOf_turn attack battle' fun type => draw type.mirror).same
  have hwinner := hturn.winner
  have hwinner' := hturn.winner'
  rw [BattleField.checkBattleIsFinished_eq] at hwinner hwinner'
  constructor
  case battles => exact hturn.battle
  case infos => exact hturn.infos
  case winner => exact hwinner
  case winner' => exact hwinner'
  case seat => exact hturn.battle.winnerSeat
  case user =>
    intro hdown husers
    rw [hwinner, hwinner', hturn.battle.winnerSeat hdown, Option.map_map]
    congr 1
    funext seat
    exact userOf_other husers hsame hsame' seat
  case bothDown =>
    exact fun hdown => ⟨hdown.winnerSeat, (hturn.battle.bothDown.mpr hdown).winnerSeat⟩

/-! ## DoubleEdge -/

/-- DoubleEdge between Pokemon of the first level. -/
def doubleEdge : Attack := fun _ _ _ _ => ⟨{}, {}, 2, 6⟩

/-- A battle of two users before the last attack; the Pokemon differ in their HP and their speed. -/
def lastAttack (userA userB : Nat) (hpA hpB spdA spdB : Int) : BattleField :=
  let pkm := (firstLevelPokemon "a").enterBattle
  { newBattleField 2 userA (some userB) pkm pkm .expBattle with
    pkmA := { pkm with curHP := hpA, curSPD := spdA }
    pkmB := { pkm with curHP := hpB, curSPD := spdB }
    actionA := "DoubleEdge"
    actionB := "DoubleEdge" }

theorem seats_agree_example :
    SeatsAgree (lastAttack 0 1 6 6 7 5) (lastAttack 1 0 6 6 5 7)
      ((lastAttack 0 1 6 6 7 5).turn doubleEdge fun _ => 0)
      ((lastAttack 1 0 6 6 5 7).turn doubleEdge fun _ => 0) :=
  seats_agree ⟨rfl, rfl, rfl, rfl, rfl, rfl⟩ (by decide) doubleEdge fun _ => 0

/-- The recoil takes the last HP of the attacker: the user who sits on B wins, whichever one it is. -/
theorem fallen_together :
    (lastAttack 0 1 2 6 7 5).Mirrored (lastAttack 1 0 6 2 5 7) ∧
      (lastAttack 0 1 2 6 7 5).UsersMirrored (lastAttack 1 0 6 2 5 7) ∧
      (lastAttack 0 1 2 6 7 5).pkmA.curSPD ≠ (lastAttack 0 1 2 6 7 5).pkmB.curSPD ∧
      ((lastAttack 0 1 2 6 7 5).turn doubleEdge fun _ => 0).winner = some (some 1) ∧
      ((lastAttack 1 0 6 2 5 7).turn doubleEdge fun _ => 0).winner = some (some 0) :=
  ⟨⟨rfl, rfl, rfl, rfl, rfl, rfl⟩, ⟨rfl, rfl⟩, by decide, by decide +kernel, by decide +kernel⟩

end TermCollection.Pokemon
