import Mathlib.Algebra.Ring.Int.Defs
import TermCollection.Pokemon.Lemmas.Battles

/-!
# The HP on the pages of the clients (`BattlePage.qml`)

The two pages of a battle start with the HP of the Pokemon, and subtract what the information of each
attack says. The battle itself caps the HP, and changes them once more at the end of a turn.
-/

namespace TermCollection.Pokemon

variable {attack : Attack} {battle : BattleField} {pkm : PokemonBase} {draw : BalanceType → Nat}

structure BattlePage where
  myCurHP : Int
  taCurHP : Int
  deriving DecidableEq

def BattlePage.onSigGetBattleTurnInfo (page : BattlePage) (info : TurnInfo) : BattlePage where
  myCurHP := page.myCurHP - info.selfDeltaHP
  taCurHP := page.taCurHP - info.destDeltaHP

/-- The messages of a turn, in order, for one of the two sides. -/
def BattlePage.receive (page : BattlePage) (infos : List TurnInfo) (isUserA : Bool) : BattlePage :=
  infos.foldl (fun page info => page.onSigGetBattleTurnInfo (ServerBackend.turnInfoFor info isUserA)) page

/-- A battle of two users with their pages, until it is deleted. -/
structure Duel where
  battle : BattleField
  pageA : BattlePage
  pageB : BattlePage
  finished : Bool

structure DuelAction where
  skillIndex : Int
  userIndex : Nat
  draw : BalanceType → Nat

def newDuel (ptr userA userB : Nat) (pkmA pkmB : PokemonBase) (mode : FieldMode) : Duel where
  battle := newBattleField ptr userA (some userB) pkmA pkmB mode
  pageA := ⟨pkmA.HP, pkmB.HP⟩
  pageB := ⟨pkmB.HP, pkmA.HP⟩
  finished := false

def duelStep (attack : Attack) : Machine Duel DuelAction TurnInfo := fun duel action =>
  if duel.finished then none
  else
    let turn := duel.battle.setAction attack action.skillIndex action.userIndex action.draw
    some ({
      battle := turn.battle
      pageA := duel.pageA.receive turn.infos true
      pageB := duel.pageB.receive turn.infos false
      finished := turn.winner.isSome }, turn.infos)

/-- Both pages show the HP of the battle. -/
structure Duel.Agrees (duel : Duel) : Prop where
  myA : duel.pageA.myCurHP = duel.battle.pkmA.curHP
  taA : duel.pageA.taCurHP = duel.battle.pkmB.curHP
  myB : duel.pageB.myCurHP = duel.battle.pkmB.curHP
  taB : duel.pageB.taCurHP = duel.battle.pkmA.curHP

/-! ## What the messages leave out -/

/-- What a turn information says about the two Pokemon. -/
def TurnInfo.deltaA (info : TurnInfo) : Int :=
  if info.type = .aToB then info.selfDeltaHP else info.destDeltaHP

def TurnInfo.deltaB (info : TurnInfo) : Int :=
  if info.type = .aToB then info.destDeltaHP else info.selfDeltaHP

/-- What the cap takes away from HP that a Pokemon would have after an attack. -/
def PokemonBase.capped (pkm : PokemonBase) (delta : Int) : Int := max (pkm.curHP - delta - pkm.HP) 0

/-- What the buffs add at the end of a turn. -/
def PokemonBase.buffGain (pkm : PokemonBase) (buffList : List Buff) : Int :=
  (handleBuffList pkm.resetProperties buffList).1.curHP - pkm.curHP

namespace BattleField

/-- In a turn, the buffs add to both Pokemon what the cap has taken away. -/
def balancedInOrder (attack : Attack) (battle : BattleField) (draw : BalanceType → Nat)
    (first second : BalanceType) : Bool :=
  let (battle₁, info₁) := battle.strike attack (draw first) first
  let cappedA₁ := battle.pkmA.capped info₁.deltaA
  let cappedB₁ := battle.pkmB.capped info₁.deltaB
  match battle₁.checkBattleIsFinished with
  | some _ => cappedA₁ = 0 ∧ cappedB₁ = 0
  | none =>
      let (battle₂, info₂) := battle₁.strike attack (draw second) second
      let cappedA₂ := cappedA₁ + battle₁.pkmA.capped info₂.deltaA
      let cappedB₂ := cappedB₁ + battle₁.pkmB.capped info₂.deltaB
      match battle₂.checkBattleIsFinished with
      | some _ => cappedA₂ = 0 ∧ cappedB₂ = 0
      | none =>
          cappedA₂ = battle₂.pkmA.buffGain battle₂.buffListA ∧
            cappedB₂ = battle₂.pkmB.buffGain battle₂.buffListB

def balancedTurn (attack : Attack) (battle : BattleField) (draw : BalanceType → Nat) : Bool :=
  let spdB := battle.pkmB.curSPD
  let spdA :=
    if battle.pkmA.curSPD = spdB then
      battle.pkmA.curSPD + (if battle.pkmA.curSPD % 2 = 0 then 1 else -1)
    else battle.pkmA.curSPD
  if spdB < spdA then battle.balancedInOrder attack draw .aToB .bToA
  else battle.balancedInOrder attack draw .bToA .aToB

/-- The same for the turn that an action completes, if it does. -/
def balanced (attack : Attack) (battle : BattleField) (skillIndex : Int) (userIndex : Nat)
    (draw : BalanceType → Nat) : Bool :=
  let battle :=
    if userIndex = 0 then { battle with actionA := battle.pkmA.getSkill skillIndex }
    else { battle with actionB := battle.pkmB.getSkill skillIndex }
  if battle.actionA ≠ "" ∧ battle.actionB ≠ "" then battle.balancedTurn attack draw else true

end BattleField

/-! ## The HP of the battle -/

@[simp] theorem applyProperty_curHP (pkm : PokemonBase) (buffId : Int) :
    (pkm.applyProperty buffId).curHP = pkm.curHP ∧ (pkm.applyProperty buffId).HP = pkm.HP := by
  unfold PokemonBase.applyProperty
  split <;> exact ⟨rfl, rfl⟩

theorem handleDest_curHP (result : AttackResult) (attacker : PokemonBase) (fromBuf : List Buff)
    (dest : PokemonBase) (destBuf : List Buff) :
    let r := handleDest result attacker fromBuf dest destBuf
    (r.2.1.curHP = attacker.curHP ∧ r.2.1.HP = attacker.HP) ∧ r.2.2.curHP = dest.curHP ∧ r.2.2.HP = dest.HP :=
  ⟨applyProperty_curHP .., applyProperty_curHP ..⟩

theorem loseHP_curHP (pkm : PokemonBase) (delta : Int) :
    (pkm.loseHP delta).curHP = pkm.curHP - delta - pkm.capped delta := by
  simp only [PokemonBase.loseHP, PokemonBase.capped]
  omega

namespace BattleField

theorem handleResult_curHP (battle : BattleField) (result : AttackResult) (type : BalanceType) :
    let r := battle.handleResult result type
    (r.2.pkmA.curHP = battle.pkmA.curHP ∧ r.2.pkmA.HP = battle.pkmA.HP) ∧
      r.2.pkmB.curHP = battle.pkmB.curHP ∧ r.2.pkmB.HP = battle.pkmB.HP := by
  cases type with
  | aToB =>
      exact handleDest_curHP result battle.pkmA (battle.buffListA ++ [result.selfBuf]) battle.pkmB
        (battle.buffListB ++ [result.destBuf])
  | bToA =>
      have hdest := handleDest_curHP result battle.pkmB (battle.buffListB ++ [result.selfBuf]) battle.pkmA
        (battle.buffListA ++ [result.destBuf])
      exact ⟨hdest.2, hdest.1⟩

theorem capped_congr {pkm' : PokemonBase} (h : pkm'.curHP = pkm.curHP ∧ pkm'.HP = pkm.HP) (delta : Int) :
    pkm'.capped delta = pkm.capped delta := by rw [PokemonBase.capped, h.1, h.2, PokemonBase.capped]

/-- An attack takes from both Pokemon what its information says, and what the cap takes away. -/
theorem strike_curHP (attack : Attack) (battle : BattleField) (draw : Nat) (type : BalanceType) :
    let r := battle.strike attack draw type
    r.1.pkmA.curHP = battle.pkmA.curHP - r.2.deltaA - battle.pkmA.capped r.2.deltaA ∧
      r.1.pkmB.curHP = battle.pkmB.curHP - r.2.deltaB - battle.pkmB.capped r.2.deltaB := by
  cases type with
  | aToB =>
      obtain ⟨hA, hB⟩ := battle.handleResult_curHP
        (attack battle.pkmA battle.pkmB battle.actionA draw) .aToB
      simp only [strike, turnInfo, TurnInfo.deltaA, TurnInfo.deltaB, ↓reduceIte, loseHP_curHP,
        capped_congr hA, capped_congr hB, hA.1, hB.1, and_self]
  | bToA =>
      obtain ⟨hA, hB⟩ := battle.handleResult_curHP
        (attack battle.pkmB battle.pkmA battle.actionB draw) .bToA
      simp only [strike, turnInfo, TurnInfo.deltaA, TurnInfo.deltaB, reduceCtorEq, ↓reduceIte,
        loseHP_curHP, capped_congr hA, capped_congr hB, hA.1, hB.1, and_self]

theorem queryBuffList_curHP (battle : BattleField) :
    battle.queryBuffList.pkmA.curHP = battle.pkmA.curHP + battle.pkmA.buffGain battle.buffListA ∧
      battle.queryBuffList.pkmB.curHP = battle.pkmB.curHP + battle.pkmB.buffGain battle.buffListB := by
  simp only [queryBuffList, PokemonBase.buffGain]
  omega

/-- The HP of a battle follow the information of its turn. -/
def Follows (battle : BattleField) (turn : Turn) : Prop :=
  turn.battle.pkmA.curHP = battle.pkmA.curHP - (turn.infos.map TurnInfo.deltaA).sum ∧
    turn.battle.pkmB.curHP = battle.pkmB.curHP - (turn.infos.map TurnInfo.deltaB).sum

theorem follows_inOrder (attack : Attack) (battle : BattleField) (draw : BalanceType → Nat)
    (first second : BalanceType) :
    battle.Follows (battle.turnInOrder attack draw first second) ↔
      battle.balancedInOrder attack draw first second = true := by
  have h₁ := battle.strike_curHP attack (draw first) first
  have h₂ := (battle.strike attack (draw first) first).1.strike_curHP attack (draw second) second
  simp only [Follows, turnInOrder, balancedInOrder]
  generalize battle.strike attack (draw first) first = r₁ at *
  generalize r₁.1.strike attack (draw second) second = r₂ at *
  cases r₁.1.checkBattleIsFinished with
  | some winner =>
      simp only [List.map_cons, List.map_nil, List.sum_cons, List.sum_nil, decide_eq_true_eq]
      omega
  | none =>
      cases r₂.1.checkBattleIsFinished with
      | some winner =>
          simp only [List.map_cons, List.map_nil, List.sum_cons, List.sum_nil, decide_eq_true_eq]
          omega
      | none =>
          have hbuffs := { r₂.1 with actionA := "", actionB := "" }.queryBuffList_curHP
          simp only [List.map_cons, List.map_nil, List.sum_cons, List.sum_nil, decide_eq_true_eq,
            hbuffs]
          omega

theorem follows_turn (attack : Attack) (battle : BattleField) (draw : BalanceType → Nat) :
    battle.Follows (battle.turn attack draw) ↔ battle.balancedTurn attack draw = true := by
  simp only [turn, balancedTurn]
  generalize (if battle.pkmA.curSPD = battle.pkmB.curSPD then
    battle.pkmA.curSPD + (if battle.pkmA.curSPD % 2 = 0 then 1 else -1)
    else battle.pkmA.curSPD) = spdA
  split <;> exact follows_inOrder ..

theorem follows_setAction (attack : Attack) (battle : BattleField) (skillIndex : Int) (userIndex : Nat)
    (draw : BalanceType → Nat) :
    battle.Follows (battle.setAction attack skillIndex userIndex draw) ↔
      battle.balanced attack skillIndex userIndex draw = true := by
  unfold setAction balanced
  have hstored : ∀ turn, battle.Follows turn ↔ (if userIndex = 0 then
      { battle with actionA := battle.pkmA.getSkill skillIndex }
      else { battle with actionB := battle.pkmB.getSkill skillIndex }).Follows turn := by
    intro turn
    split <;> rfl
  rw [hstored]
  generalize (if userIndex = 0 then { battle with actionA := battle.pkmA.getSkill skillIndex }
    else { battle with actionB := battle.pkmB.getSkill skillIndex }) = stored
  by_cases hboth : stored.actionA ≠ "" ∧ stored.actionB ≠ ""
  · rw [if_pos hboth, if_pos hboth]
    exact follows_turn attack stored draw
  · rw [if_neg hboth, if_neg hboth]
    simp [Follows]

end BattleField

/-! ## The pages -/

theorem turnInfoFor_deltas (info : TurnInfo) :
    (ServerBackend.turnInfoFor info true).selfDeltaHP = info.deltaA ∧
      (ServerBackend.turnInfoFor info true).destDeltaHP = info.deltaB ∧
      (ServerBackend.turnInfoFor info false).selfDeltaHP = info.deltaB ∧
      (ServerBackend.turnInfoFor info false).destDeltaHP = info.deltaA := by
  unfold ServerBackend.turnInfoFor TurnInfo.deltaA TurnInfo.deltaB
  cases info.type <;> simp

theorem receive_eq (page : BattlePage) (infos : List TurnInfo) :
    page.receive infos true = ⟨page.myCurHP - (infos.map TurnInfo.deltaA).sum,
        page.taCurHP - (infos.map TurnInfo.deltaB).sum⟩ ∧
      page.receive infos false = ⟨page.myCurHP - (infos.map TurnInfo.deltaB).sum,
        page.taCurHP - (infos.map TurnInfo.deltaA).sum⟩ := by
  induction infos generalizing page with
  | nil => simp [BattlePage.receive]
  | cons info infos ih =>
      obtain ⟨h₁, h₂, h₃, h₄⟩ := turnInfoFor_deltas info
      have hA := (ih (page.onSigGetBattleTurnInfo (ServerBackend.turnInfoFor info true))).1
      have hB := (ih (page.onSigGetBattleTurnInfo (ServerBackend.turnInfoFor info false))).2
      simp only [BattlePage.receive, List.foldl_cons, List.map_cons, List.sum_cons] at hA hB ⊢
      rw [hA, hB]
      simp only [BattlePage.onSigGetBattleTurnInfo, h₁, h₂, h₃, h₄, BattlePage.mk.injEq]
      omega

/-- The pages agree with the battle after an action if and only if the HP follow the messages. -/
theorem agrees_step {duel duel' : Duel} {action : DuelAction} {infos : List TurnInfo} (h : duel.Agrees)
    (hs : duelStep attack duel action = some (duel', infos)) :
    duel'.Agrees ↔
      duel.battle.balanced attack action.skillIndex action.userIndex action.draw = true := by
  rw [← BattleField.follows_setAction]
  unfold duelStep at hs
  split at hs
  · cases hs
  · simp only [Option.some.injEq, Prod.mk.injEq] at hs
    obtain ⟨rfl, -⟩ := hs
    generalize duel.battle.setAction attack action.skillIndex action.userIndex action.draw = turn
    obtain ⟨h₁, h₂, h₃, h₄⟩ := h
    constructor
    · rintro ⟨hmy, hta, -, -⟩
      rw [(receive_eq duel.pageA turn.infos).1] at hmy hta
      exact ⟨h₁ ▸ hmy.symm, h₂ ▸ hta.symm⟩
    · rintro ⟨hA, hB⟩
      refine ⟨?_, ?_, ?_, ?_⟩
      · rw [(receive_eq duel.pageA turn.infos).1, hA, h₁]
      · rw [(receive_eq duel.pageA turn.infos).1, hB, h₂]
      · rw [(receive_eq duel.pageB turn.infos).2, hB, h₃]
      · rw [(receive_eq duel.pageB turn.infos).2, hA, h₄]

def balancedAction (attack : Attack) (duel : Duel) (action : DuelAction) : Bool :=
  duel.battle.balanced attack action.skillIndex action.userIndex action.draw

/-- While every turn is balanced, both pages show the HP of the battle; and after the next action they
do so if and only if it is balanced too. -/
theorem pages_agree {ptr userA userB : Nat} {pkmA pkmB : PokemonBase} {mode : FieldMode} {duel : Duel}
    {tr : List (DuelAction × List TurnInfo)}
    (h : (duelStep attack).Run (balancedAction attack · ·) (newDuel ptr userA userB pkmA pkmB mode)
      duel tr) :
    duel.Agrees ∧ ∀ action duel' infos, duelStep attack duel action = some (duel', infos) →
      (duel'.Agrees ↔ balancedAction attack duel action = true) := by
  have hagrees : duel.Agrees := by
    refine h.stateInvariant (I := Duel.Agrees) ⟨rfl, rfl, rfl, rfl⟩ ?_
    intro duel action duel' infos hagrees hc hs
    exact (agrees_step hagrees hs).mpr hc
  exact ⟨hagrees, fun action duel' infos hs => agrees_step hagrees hs⟩

/-! ## The messages of the server -/

namespace ServerBackend

variable {δ : Type} {rt : Runtime δ} {s s' : ServerBackend δ} {out : List Sent} {p q : Nat}
variable {userA userB : User}

theorem slotGetTurnInfo_eq (hA : s.userAt battle.userA = some userA) (hq : battle.userB = some q)
    (hB : s.userAt q = some userB) (info : TurnInfo) :
    s.slotGetTurnInfo battle info = some [
      ⟨userA.userSocket, .battleTurnInfo (turnInfoFor info true)⟩,
      ⟨userB.userSocket, .battleTurnInfo (turnInfoFor info false)⟩] := by
  simp [slotGetTurnInfo, sendTo, hA, hq, hB]

/-- An action of the server sends the information of its turn to the two users, in order. -/
theorem setAction_sends {skillIndex : Int} {userIndex : Nat} {chance : TurnChance}
    (hbattle : s.battleAt p = some battle) (hA : s.userAt battle.userA = some userA)
    (hq : battle.userB = some q) (hB : s.userAt q = some userB)
    (h : s.setAction rt p skillIndex userIndex chance = some (s', out)) :
    ∃ rest, out = ((battle.setAction rt.attack skillIndex userIndex chance.attack).infos.flatMap
      fun info => [⟨userA.userSocket, .battleTurnInfo (turnInfoFor info true)⟩,
        ⟨userB.userSocket, .battleTurnInfo (turnInfoFor info false)⟩]) ++ rest := by
  simp only [setAction, hbattle, Option.bind_eq_bind, Option.bind_some, Option.bind_eq_some_iff] at h
  obtain ⟨infos, hinfos, h⟩ := h
  generalize battle.setAction rt.attack skillIndex userIndex chance.attack = turn at h hinfos ⊢
  have hsent : infos = turn.infos.map fun info =>
      [⟨userA.userSocket, .battleTurnInfo (turnInfoFor info true)⟩,
        ⟨userB.userSocket, .battleTurnInfo (turnInfoFor info false)⟩] := by
    rw [funext (slotGetTurnInfo_eq (s := s.setBattle turn.battle) hA hq hB)] at hinfos
    exact (Option.some.inj (List.mapM_pure.symm.trans hinfos)).symm
  rw [List.flatMap_def, ← hsent]
  split at h
  · cases h
    exact ⟨[], (List.append_nil _).symm⟩
  · simp only [Option.bind_eq_some_iff, Option.some.injEq, Prod.mk.injEq, Prod.exists] at h
    obtain ⟨s₁, rest, -, -, rfl⟩ := h
    exact ⟨rest, rfl⟩

end ServerBackend

/-! ## A poisoned Pokemon -/

/-- The skills PoisonSting, Agility and MegaDrain of a Pokemon of the first level against one with the
same properties. -/
def firstLevelAttack : Attack := fun _ _ skillName _ =>
  if skillName = "PoisonSting" then ⟨{}, ⟨20, 5⟩, 0, 3⟩
  else if skillName = "Agility" then ⟨⟨9, 3⟩, {}, 0, 0⟩
  else if skillName = "MegaDrain" then ⟨{}, {}, -2, 4⟩
  else {}

def firstLevelPokemon (curUser : QString) : PokemonBase where
  name := ""
  curUser := curUser
  desc := ""
  id := 1
  level := 1
  exp := 0
  typeID := 1
  ATK := 6
  curATK := 0
  HP := 12
  curHP := 0
  DEF := 6
  curDEF := 0
  SPD := 6
  curSPD := 0
  pkmType := .highAttack
  pkmAttr := 0
  skills := ["PoisonSting", "Agility", "MegaDrain", ""]

def exampleDuel : Duel :=
  newDuel 2 0 1 (firstLevelPokemon "a") (firstLevelPokemon "b") .expBattle

/-- The choice of a skill. -/
def choose (userIndex : Nat) (skillIndex : Int) : DuelAction := ⟨skillIndex, userIndex, fun _ => 0⟩

/-- The actions, the newest first, of a turn in which both use Agility. -/
theorem pages_agree_example :
    ∃ duel tr, (duelStep firstLevelAttack).Run (balancedAction firstLevelAttack · ·) exampleDuel duel tr ∧
      tr.map Prod.fst = [choose 1 1, choose 0 1] ∧ duel.Agrees := by
  obtain ⟨hrun, hevents⟩ := Machine.run_after (duelStep firstLevelAttack)
    (balancedAction firstLevelAttack) exampleDuel [choose 1 1, choose 0 1] (by decide +kernel)
  exact ⟨_, _, hrun, hevents, (pages_agree hrun).1⟩

/-- A poisoned Pokemon loses HP at the end of a turn, and a full one is not healed: neither page hears
of it. -/
theorem pages_disagree :
    (∃ duel tr, (duelStep firstLevelAttack).AnyRun exampleDuel duel tr ∧
      tr.map Prod.fst = [choose 1 1, choose 0 0] ∧ duel.battle.pkmB.curHP = 8 ∧
      duel.pageB.myCurHP = 9 ∧ duel.pageA.taCurHP = 9) ∧
    ∃ duel tr, (duelStep firstLevelAttack).AnyRun exampleDuel duel tr ∧
      tr.map Prod.fst = [choose 1 1, choose 0 2] ∧ duel.battle.pkmA.curHP = 12 ∧
      duel.pageA.myCurHP = 14 := by
  obtain ⟨hrun, hevents⟩ := Machine.run_after (duelStep firstLevelAttack) Machine.always exampleDuel
    [choose 1 1, choose 0 0] (by decide +kernel)
  obtain ⟨hrun', hevents'⟩ := Machine.run_after (duelStep firstLevelAttack) Machine.always exampleDuel
    [choose 1 1, choose 0 2] (by decide +kernel)
  exact ⟨⟨_, _, hrun.any, hevents, by decide +kernel, by decide +kernel, by decide +kernel⟩,
    _, _, hrun'.any, hevents', by decide +kernel, by decide +kernel⟩

end TermCollection.Pokemon
