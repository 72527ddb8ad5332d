import TermCollection.Lib.Machine
import TermCollection.Pokemon.Lemmas.Operations
import TermCollection.Pokemon.SkippedActions

/-!
# A battle as a state machine

The calls of `setAction` that a battle gets, and the signals that it emits. A battle refuses no call after
`sigBattleFinished`: it is the slot behind the signal that deletes the battle.
-/

namespace TermCollection.Pokemon

variable {attack : Attack} {battle battle' : BattleField} {pkm pkm' : PokemonBase} {draw : BalanceType → Nat}
variable {turn : BattleField.Turn} {first second : BalanceType} {skillIndex userIndex : Int} {debugFlag : Bool}
variable {infos : List TurnInfo} {winner : Option Nat} {type : BalanceType} {info : TurnInfo}

/-! ## The machine -/

inductive BattleEvent where
  | sigTurnInfoReady (info : TurnInfo)
  | sigBattleFinished (winner : Option Nat)
  deriving DecidableEq

/-- The signals of a turn, in order. -/
def BattleField.Turn.events (turn : BattleField.Turn) : List BattleEvent :=
  turn.infos.map .sigTurnInfoReady ++ (turn.winner.map .sigBattleFinished).toList

structure BattleCall where
  skillIndex : Int
  userIndex : Int
  draw : BalanceType → Nat

/-- `setAction` with its guards, which are compiled with `DEBUG_FLAG` only. -/
def BattleField.guardedSetAction (debugFlag : Bool) (attack : Attack) (battle : BattleField)
    (call : BattleCall) : BattleField.Turn :=
  if debugFlag ∧ (1 < call.userIndex ∨ call.userIndex < 0) then ⟨battle, [], none⟩
  else if debugFlag ∧ (call.skillIndex < 0 ∨ 3 < call.skillIndex) then ⟨battle, [], none⟩
  else battle.setAction attack call.skillIndex (if call.userIndex = 0 then 0 else 1) call.draw

/-- Every call has a result. -/
def callStep (debugFlag : Bool) (attack : Attack) : Machine BattleField BattleCall BattleEvent :=
  fun battle call =>
    let turn := battle.guardedSetAction debugFlag attack call
    some (turn.battle, turn.events)

structure BattleLife where
  battle : BattleField
  deleted : Bool

/-- A battle that was deleted gets no calls. -/
def battleStep (debugFlag : Bool) (attack : Attack) : Machine BattleLife BattleCall BattleEvent :=
  fun life call =>
    if life.deleted then none
    else
      let turn := life.battle.guardedSetAction debugFlag attack call
      some (⟨turn.battle, turn.winner.isSome⟩, turn.events)

/-- The signals of a history, the oldest first. -/
def emitted (tr : List (BattleCall × List BattleEvent)) : List BattleEvent := tr.reverse.flatMap Prod.snd

/-- The end of the battle is not among the signals. -/
def Unfinished (events : List BattleEvent) : Prop := ∀ winner, .sigBattleFinished winner ∉ events

namespace BattleField

/-- The order of the attacks, in the words of `turn`. -/
def attackOrder (battle : BattleField) : Option (BalanceType × BalanceType) :=
  let spdB := battle.pkmB.curSPD
  let spdA :=
    if battle.pkmA.curSPD = spdB then
      battle.pkmA.curSPD + (if battle.pkmA.curSPD % 2 = 0 then 1 else -1)
    else battle.pkmA.curSPD
  if spdB < spdA then some (.aToB, .bToA)
  else if spdA < spdB then some (.bToA, .aToB)
  else none

/-- The battle after the action of a call is stored. -/
def stored (battle : BattleField) (skillIndex userIndex : Int) : BattleField :=
  if userIndex = 0 then { battle with actionA := battle.pkmA.getSkill skillIndex }
  else { battle with actionB := battle.pkmB.getSkill skillIndex }

/-- The battle after a call and before the turn: a call that the guards refuse stores nothing. -/
def received (debugFlag : Bool) (battle : BattleField) (call : BattleCall) : BattleField :=
  if debugFlag ∧
      (1 < call.userIndex ∨ call.userIndex < 0 ∨ call.skillIndex < 0 ∨ 3 < call.skillIndex) then battle
  else battle.stored call.skillIndex call.userIndex

/-! ## What holds between calls -/

/-- No action is missing. -/
def Chosen (battle : BattleField) : Prop := battle.actionA ≠ "" ∧ battle.actionB ≠ ""

instance (battle : BattleField) : Decidable battle.Chosen := inferInstanceAs (Decidable (_ ∧ _))

def Unbeaten (battle : BattleField) : Prop := 0 < battle.pkmA.curHP ∧ 0 < battle.pkmB.curHP

/-- The Pokemon of the side that is not the winner has no HP left. -/
def LostBy (battle : BattleField) (winner : Option Nat) : Prop :=
  winner = battle.userB ∧ battle.pkmA.curHP ≤ 0 ∨
    winner = some battle.userA ∧ battle.pkmB.curHP ≤ 0

/-- Both Pokemon have at most their HP. -/
structure Bounded (battle : BattleField) : Prop where
  posA : 0 < battle.pkmA.HP
  posB : 0 < battle.pkmB.HP
  leA : battle.pkmA.curHP ≤ battle.pkmA.HP
  leB : battle.pkmB.curHP ≤ battle.pkmB.HP

/-- A battle that waits for an action. -/
structure Waiting (battle : BattleField) : Prop where
  unbeaten : battle.Unbeaten
  bounded : battle.Bounded
  missing : ¬ battle.Chosen

/-! ## What a call leads to -/

/-- One attack of a type: both Pokemon lose what its information says, and have their HP at most. -/
structure Attacked (type : BalanceType) (battle battle' : BattleField) (info : TurnInfo) : Prop where
  infoType : info.type = type
  skillName : info.skillName = battle.action type
  curHPA : battle'.pkmA.curHP = min (battle.pkmA.curHP - info.deltaA) battle.pkmA.HP
  curHPB : battle'.pkmB.curHP = min (battle.pkmB.curHP - info.deltaB) battle.pkmB.HP
  HPA : battle'.pkmA.HP = battle.pkmA.HP
  HPB : battle'.pkmB.HP = battle.pkmB.HP
  actionA : battle'.actionA = battle.actionA
  actionB : battle'.actionB = battle.actionB

/-- A turn in which one side attacks first: the first attack ends the battle, or the other side attacks too.
The battle ends with the second attack, or the actions are cleared and the buffs may end it. -/
inductive Round (first second : BalanceType) (battle : BattleField) : Turn → Prop
  | cut {battle₁ : BattleField} {info₁ : TurnInfo} {winner : Option Nat} :
      Attacked first battle battle₁ info₁ → battle₁.LostBy winner →
      Round first second battle ⟨battle₁, [info₁], some winner⟩
  | ended {battle₁ battle₂ : BattleField} {info₁ info₂ : TurnInfo} {winner : Option Nat} :
      Attacked first battle battle₁ info₁ → battle₁.Unbeaten →
      Attacked second battle₁ battle₂ info₂ → battle₂.LostBy winner →
      Round first second battle ⟨battle₂, [info₁, info₂], some winner⟩
  | completed {battle₁ battle₂ battle₃ : BattleField} {info₁ info₂ : TurnInfo} :
      Attacked first battle battle₁ info₁ → battle₁.Unbeaten →
      Attacked second battle₁ battle₂ info₂ → battle₂.Unbeaten →
      battle₃ = { battle₂ with actionA := "", actionB := "" }.queryBuffList →
      Round first second battle ⟨battle₃, [info₁, info₂], battle₃.checkBattleIsFinished⟩

/-- A call stores its action. It emits nothing while an action is missing, and leads to a turn when both are
there, whose order the speeds say. -/
structure CallSpec (received : BattleField) (turn : Turn) : Prop where
  missing : ¬ received.Chosen → turn = ⟨received, [], none⟩
  chosen : received.Chosen → ∃ first second, first ≠ second ∧
    received.attackOrder = some (first, second) ∧ Round first second received turn

end BattleField

/-- The battle waits while the end is not among the signals. The end comes once, and last. -/
structure SignalsOf (battle : BattleField) (events : List BattleEvent) : Prop where
  live : Unfinished events → battle.Waiting
  ended : ∀ winner, .sigBattleFinished winner ∈ events →
    ∃ before, events = before ++ [.sigBattleFinished winner] ∧ Unfinished before ∧ battle.LostBy winner

/-! ## HP -/

/-- The HP stay in their bounds from above, and the bound stays. -/
structure HPKept (pkm pkm' : PokemonBase) : Prop where
  hp : pkm'.HP = pkm.HP
  le : pkm.curHP ≤ pkm.HP → pkm'.curHP ≤ pkm'.HP

theorem HPKept.trans {pkm'' : PokemonBase} (h : HPKept pkm pkm') (h' : HPKept pkm' pkm'') :
    HPKept pkm pkm'' := ⟨h'.hp.trans h.hp, fun hle => h'.le (h.le hle)⟩

theorem HPKept.of_eq (h : pkm'.curHP = pkm.curHP ∧ pkm'.HP = pkm.HP) : HPKept pkm pkm' :=
  ⟨h.2, fun hle => by rw [h.1, h.2]; exact hle⟩

theorem hpKept_applyBuff (hpos : 0 ≤ pkm.HP) (buffId : Int) : HPKept pkm (pkm.applyBuff buffId) := by
  unfold PokemonBase.applyBuff
  split
  · exact ⟨rfl, fun _ => Int.min_le_right _ _⟩
  · have hscale := times0_15.scale_nonneg hpos
    refine ⟨rfl, fun hle => ?_⟩
    simp only
    omega
  · exact .of_eq (applyProperty_curHP pkm buffId)

theorem hpKept_handleBuffLoop (hpos : 0 ≤ pkm.HP) (i : Nat) (buffList : List Buff) :
    HPKept pkm (handleBuffLoop i pkm buffList).1 := by
  induction i, pkm, buffList using handleBuffLoop.induct with
  | case1 pkm buffList => exact ⟨rfl, id⟩
  | case2 pkm buffList => exact hpKept_applyBuff hpos _
  | case3 i pkm buffList buff pkm' hended ih =>
      have hkept := hpKept_applyBuff hpos buff.buffId
      rw [handleBuffLoop, if_pos hended]
      exact hkept.trans (ih (by rw [hkept.hp]; exact hpos))
  | case4 i pkm buffList buff pkm' hlasts ih =>
      have hkept := hpKept_applyBuff hpos buff.buffId
      rw [handleBuffLoop, if_neg hlasts]
      exact hkept.trans (ih (by rw [hkept.hp]; exact hpos))

namespace BattleField

theorem Bounded.queryBuffList (h : battle.Bounded) : battle.queryBuffList.Bounded := by
  have hpass : ∀ (pkm : PokemonBase) (buffList : List Buff), 0 < pkm.HP →
      HPKept pkm (handleBuffList pkm.resetProperties buffList).1 := by
    intro pkm buffList hpos
    have hreset : HPKept pkm pkm.resetProperties := ⟨rfl, id⟩
    have hreset_pos : 0 ≤ pkm.resetProperties.HP := Int.le_of_lt hpos
    exact hreset.trans (hpKept_handleBuffLoop hreset_pos _ _)
  have hA := hpass battle.pkmA battle.buffListA h.posA
  have hB := hpass battle.pkmB battle.buffListB h.posB
  exact ⟨lt_of_lt_of_eq h.posA hA.hp.symm, lt_of_lt_of_eq h.posB hB.hp.symm, hA.le h.leA, hB.le h.leB⟩

theorem Attacked.bounded (h : Attacked type battle battle' info) (hbounded : battle.Bounded) :
    battle'.Bounded := by
  constructor
  case posA =>
    rw [h.HPA]
    exact hbounded.posA
  case posB =>
    rw [h.HPB]
    exact hbounded.posB
  case leA =>
    rw [h.curHPA, h.HPA]
    exact Int.min_le_right _ _
  case leB =>
    rw [h.curHPB, h.HPB]
    exact Int.min_le_right _ _

/-! ## Turns -/

theorem attacked_strike (attack : Attack) (battle : BattleField) (draw : Nat) (type : BalanceType) :
    Attacked type battle (battle.strike attack draw type).1 (battle.strike attack draw type).2 := by
  cases type with
  | aToB =>
      obtain ⟨hA, hB⟩ := battle.handleResult_curHP
        (attack battle.pkmA battle.pkmB battle.actionA draw) .aToB
      refine ⟨rfl, rfl, ?_, ?_, hA.2, hB.2, rfl, rfl⟩
      · rw [← hA.1, ← hA.2]
        rfl
      · rw [← hB.1, ← hB.2]
        rfl
  | bToA =>
      obtain ⟨hA, hB⟩ := battle.handleResult_curHP
        (attack battle.pkmB battle.pkmA battle.actionB draw) .bToA
      refine ⟨rfl, rfl, ?_, ?_, hA.2, hB.2, rfl, rfl⟩
      · rw [← hA.1, ← hA.2]
        rfl
      · rw [← hB.1, ← hB.2]
        rfl

theorem lostBy_of_finished (h : battle.checkBattleIsFinished = some winner) : battle.LostBy winner := by
  unfold checkBattleIsFinished at h
  split at h
  · cases h
    exact .inl ⟨rfl, ‹_›⟩
  · split at h
    · cases h
      exact .inr ⟨rfl, ‹_›⟩
    · cases h

theorem unbeaten_of_not_finished (h : battle.checkBattleIsFinished = none) : battle.Unbeaten := by
  unfold checkBattleIsFinished at h
  split at h
  · cases h
  · split at h
    · cases h
    · exact ⟨by omega, by omega⟩

theorem round_inOrder (attack : Attack) (battle : BattleField) (draw : BalanceType → Nat)
    (first second : BalanceType) : Round first second battle (battle.turnInOrder attack draw first second) := by
  have h₁ := attacked_strike attack battle (draw first) first
  have h₂ := attacked_strike attack (battle.strike attack (draw first) first).1 (draw second) second
  simp only [turnInOrder]
  generalize battle.strike attack (draw first) first = r₁ at *
  generalize r₁.1.strike attack (draw second) second = r₂ at *
  cases hcut : r₁.1.checkBattleIsFinished with
  | some winner => exact .cut h₁ (lostBy_of_finished hcut)
  | none =>
      have hgoes_on := unbeaten_of_not_finished hcut
      cases hended : r₂.1.checkBattleIsFinished with
      | some winner => exact .ended h₁ hgoes_on h₂ (lostBy_of_finished hended)
      | none => exact .completed h₁ hgoes_on h₂ (unbeaten_of_not_finished hended) rfl

/-- The tie-break leaves exactly one order. -/
theorem turn_eq_order (attack : Attack) (battle : BattleField) (draw : BalanceType → Nat) :
    ∃ first second, first ≠ second ∧ battle.attackOrder = some (first, second) ∧
      battle.turn attack draw = battle.turnInOrder attack draw first second := by
  simp only [attackOrder, turn]
  generalize hspd : (if battle.pkmA.curSPD = battle.pkmB.curSPD then
    battle.pkmA.curSPD + (if battle.pkmA.curSPD % 2 = 0 then 1 else -1)
    else battle.pkmA.curSPD) = spdA
  have hne : spdA ≠ battle.pkmB.curSPD := by
    rw [← hspd]
    split
    · split <;> omega
    · assumption
  by_cases hlt : battle.pkmB.curSPD < spdA
  · exact ⟨.aToB, .bToA, by decide, if_pos hlt, if_pos hlt⟩
  · have hgt : spdA < battle.pkmB.curSPD := by omega
    exact ⟨.bToA, .aToB, by decide, by rw [if_neg hlt, if_pos hgt], if_neg hlt⟩

/-- A turn ends with a winner who has won, or the battle waits for the next actions. -/
structure Decided (turn : Turn) : Prop where
  waiting : turn.winner = none → turn.battle.Waiting
  lost : ∀ winner, turn.winner = some winner → turn.battle.LostBy winner

theorem Round.decided (h : Round first second battle turn) (hbounded : battle.Bounded) : Decided turn := by
  cases h with
  | cut _ hlost => exact ⟨fun hnone => (by cases hnone), fun _ hw => (by cases hw; exact hlost)⟩
  | ended _ _ _ hlost => exact ⟨fun hnone => (by cases hnone), fun _ hw => (by cases hw; exact hlost)⟩
  | completed h₁ _ h₂ _ hbuffs =>
      refine ⟨fun hnone => ?_, fun winner => lostBy_of_finished⟩
      have hbounded₂ := h₂.bounded (h₁.bounded hbounded)
      refine ⟨unbeaten_of_not_finished hnone, ?_, ?_⟩
      · rw [hbuffs]
        exact Bounded.queryBuffList ⟨hbounded₂.posA, hbounded₂.posB, hbounded₂.leA, hbounded₂.leB⟩
      · rw [hbuffs]
        exact fun hchosen => hchosen.1 rfl

/-! ## Calls -/

theorem received_pkm (debugFlag : Bool) (battle : BattleField) (call : BattleCall) :
    (battle.received debugFlag call).pkmA = battle.pkmA ∧
      (battle.received debugFlag call).pkmB = battle.pkmB := by
  unfold received stored
  split
  · exact ⟨rfl, rfl⟩
  · split <;> exact ⟨rfl, rfl⟩

theorem Bounded.received (h : battle.Bounded) (debugFlag : Bool) (call : BattleCall) :
    (battle.received debugFlag call).Bounded := by
  obtain ⟨hA, hB⟩ := received_pkm debugFlag battle call
  constructor <;> simp only [hA, hB]
  · exact h.posA
  · exact h.posB
  · exact h.leA
  · exact h.leB

theorem setAction_eq_stored (attack : Attack) (battle : BattleField) (call : BattleCall) :
    battle.setAction attack call.skillIndex (if call.userIndex = 0 then 0 else 1) call.draw =
      if (battle.stored call.skillIndex call.userIndex).Chosen then
        (battle.stored call.skillIndex call.userIndex).turn attack call.draw
      else ⟨battle.stored call.skillIndex call.userIndex, [], none⟩ := by
  unfold setAction stored
  by_cases huser : call.userIndex = 0
  · simp only [huser, if_true, Chosen]
  · simp only [huser, if_false, Nat.one_ne_zero, Chosen]

theorem callSpec_of_turn (attack : Attack) (received : BattleField) (draw : BalanceType → Nat) :
    CallSpec received (if received.Chosen then received.turn attack draw else ⟨received, [], none⟩) := by
  refine ⟨fun hmissing => if_neg hmissing, fun hchosen => ?_⟩
  obtain ⟨first, second, hne, horder, hturn⟩ := turn_eq_order attack received draw
  rw [if_pos hchosen, hturn]
  exact ⟨first, second, hne, horder, round_inOrder attack received draw first second⟩

theorem callSpec_guarded (h : battle.Waiting) (debugFlag : Bool) (attack : Attack) (call : BattleCall) :
    CallSpec (battle.received debugFlag call) (battle.guardedSetAction debugFlag attack call) := by
  have hrefused : CallSpec battle ⟨battle, [], none⟩ :=
    ⟨fun _ => rfl, fun hchosen => absurd hchosen h.missing⟩
  unfold guardedSetAction received
  by_cases huser : debugFlag = true ∧ (1 < call.userIndex ∨ call.userIndex < 0)
  · rw [if_pos huser, if_pos ⟨huser.1, huser.2.elim .inl fun hneg => .inr (.inl hneg)⟩]
    exact hrefused
  · rw [if_neg huser]
    by_cases hskill : debugFlag = true ∧ (call.skillIndex < 0 ∨ 3 < call.skillIndex)
    · rw [if_pos hskill, if_pos ⟨hskill.1, .inr (.inr hskill.2)⟩]
      exact hrefused
    · rw [if_neg hskill, if_neg (by tauto), setAction_eq_stored]
      exact callSpec_of_turn attack (battle.stored call.skillIndex call.userIndex) call.draw

theorem CallSpec.decided {received : BattleField} (h : CallSpec received turn) (hunbeaten : received.Unbeaten)
    (hbounded : received.Bounded) : Decided turn := by
  by_cases hchosen : received.Chosen
  · obtain ⟨first, second, -, -, hround⟩ := h.chosen hchosen
    exact hround.decided hbounded
  · rw [h.missing hchosen]
    exact ⟨fun _ => ⟨hunbeaten, hbounded, hchosen⟩, fun _ hw => (by cases hw)⟩

theorem decided_guarded (h : battle.Waiting) (debugFlag : Bool) (attack : Attack) (call : BattleCall) :
    Decided (battle.guardedSetAction debugFlag attack call) := by
  obtain ⟨hA, hB⟩ := received_pkm debugFlag battle call
  have hunbeaten : (battle.received debugFlag call).Unbeaten := by
    rw [Unbeaten, hA, hB]
    exact h.unbeaten
  exact (callSpec_guarded h debugFlag attack call).decided hunbeaten (h.bounded.received debugFlag call)

end BattleField

/-! ## Runs -/

theorem emitted_cons (call : BattleCall) (events : List BattleEvent)
    (tr : List (BattleCall × List BattleEvent)) : emitted ((call, events) :: tr) = emitted tr ++ events := by
  rw [emitted, List.reverse_cons, List.flatMap_append, List.flatMap_singleton, emitted]

theorem unfinished_append {events events' : List BattleEvent} :
    Unfinished (events ++ events') ↔ Unfinished events ∧ Unfinished events' := by
  simp only [Unfinished, List.mem_append, not_or, forall_and]

theorem unfinished_infos (infos : List TurnInfo) : Unfinished (infos.map .sigTurnInfoReady) := by
  intro winner hmem
  obtain ⟨_, -, hinfo⟩ := List.mem_map.mp hmem
  cases hinfo

/-- The signals of a turn come after those of a battle that waits. -/
theorem signalsOf_turn {events : List BattleEvent} (h : Unfinished events)
    (hdecided : BattleField.Decided turn) : SignalsOf turn.battle (events ++ turn.events) := by
  have hbefore : Unfinished (events ++ turn.infos.map .sigTurnInfoReady) :=
    unfinished_append.mpr ⟨h, unfinished_infos turn.infos⟩
  rw [BattleField.Turn.events, ← List.append_assoc]
  cases hwinner : turn.winner with
  | none =>
      rw [Option.map_none, Option.toList_none, List.append_nil]
      exact ⟨fun _ => hdecided.waiting hwinner, fun winner hmem => absurd hmem (hbefore winner)⟩
  | some winner =>
      have hlast : BattleEvent.sigBattleFinished winner ∈
          events ++ turn.infos.map .sigTurnInfoReady ++ [.sigBattleFinished winner] :=
        List.mem_append_right _ (List.mem_singleton_self _)
      refine ⟨fun hnone => absurd hlast (hnone winner), fun w hmem => ?_⟩
      rcases List.mem_append.mp hmem with hmem | hmem
      · exact absurd hmem (hbefore w)
      · cases List.mem_singleton.mp hmem
        exact ⟨_, rfl, hbefore, hdecided.lost winner hwinner⟩

theorem waiting_newBattleField {ptr userA : Nat} {userB : Option Nat} {pkmA pkmB : PokemonBase}
    {mode : FieldMode} (hA : 0 < pkmA.HP) (hB : 0 < pkmB.HP) :
    (newBattleField ptr userA userB pkmA pkmB mode).Waiting :=
  ⟨⟨hA, hB⟩, ⟨hA, hB, Int.le_refl _, Int.le_refl _⟩, fun hchosen => hchosen.1 rfl⟩

theorem waiting_of_run {battle₀ : BattleField} {tr : List (BattleCall × List BattleEvent)}
    (h₀ : battle₀.Waiting) (h : (callStep debugFlag attack).AnyRun battle₀ battle tr)
    (hlive : Unfinished (emitted tr)) : battle.Waiting := by
  refine h.invariant (I := fun battle tr => Unfinished (emitted tr) → battle.Waiting) (fun _ => h₀) ?_ hlive
  intro battle tr call battle' events _ hwaits _ hs hlive
  cases hs
  rw [emitted_cons] at hlive
  have hwaiting := hwaits (unfinished_append.mp hlive).1
  have hsignals := signalsOf_turn (unfinished_append.mp hlive).1
    (BattleField.decided_guarded hwaiting debugFlag attack call)
  exact hsignals.live hlive

/-- As long as the end of the battle was not emitted, both Pokemon have HP between calls and an action is
missing. The next call stores its action, or leads to a turn in which each side attacks once when the first
attack does not end it; and the end of the battle is emitted once and last. -/
theorem battle_state_machine {ptr userA : Nat} {userB : Option Nat} {pkmA pkmB : PokemonBase}
    {mode : FieldMode} {tr : List (BattleCall × List BattleEvent)} (hA : 0 < pkmA.HP) (hB : 0 < pkmB.HP)
    (h : (callStep debugFlag attack).AnyRun (newBattleField ptr userA userB pkmA pkmB mode) battle tr)
    (hlive : Unfinished (emitted tr)) :
    battle.Waiting ∧
      ∀ call, BattleField.CallSpec (battle.received debugFlag call)
          (battle.guardedSetAction debugFlag attack call) ∧
        ∀ battle' events, callStep debugFlag attack battle call = some (battle', events) →
          SignalsOf battle' (emitted ((call, events) :: tr)) := by
  have hwaiting := waiting_of_run (waiting_newBattleField hA hB) h hlive
  refine ⟨hwaiting, fun call => ⟨BattleField.callSpec_guarded hwaiting debugFlag attack call, ?_⟩⟩
  intro battle' events hs
  cases hs
  rw [emitted_cons]
  exact signalsOf_turn hlive (BattleField.decided_guarded hwaiting debugFlag attack call)

/-- The calls of a turn, the newest first; the one in the middle names no user. -/
def exampleCalls : List BattleCall := [⟨1, 1, fun _ => 0⟩, ⟨0, 2, fun _ => 0⟩, ⟨2, 0, fun _ => 0⟩]

def exampleBattle : BattleField :=
  newBattleField 2 0 (some 1) (firstLevelPokemon "a") (firstLevelPokemon "b") .expBattle

theorem battle_state_machine_example :
    ∃ battle tr, (callStep true firstLevelAttack).AnyRun exampleBattle battle tr ∧
      tr.map Prod.fst = exampleCalls ∧ (emitted tr).length = 2 ∧ battle.Waiting ∧
      ∀ call, BattleField.CallSpec (battle.received true call)
          (battle.guardedSetAction true firstLevelAttack call) ∧
        ∀ battle' events, callStep true firstLevelAttack battle call = some (battle', events) →
          SignalsOf battle' (emitted ((call, events) :: tr)) := by
  obtain ⟨hrun, hevents⟩ := Machine.run_after (callStep true firstLevelAttack) Machine.always
    exampleBattle exampleCalls (by decide +kernel)
  have hlive : Unfinished (emitted (Machine.historyAfter (callStep true firstLevelAttack) Machine.always
      exampleBattle exampleCalls)) := by
    have hinfos : emitted (Machine.historyAfter (callStep true firstLevelAttack) Machine.always
        exampleBattle exampleCalls) = [⟨.aToB, "MegaDrain", -2, 4, {}, {}⟩,
          ⟨.bToA, "Agility", 0, 0, ⟨9, 3⟩, {}⟩].map .sigTurnInfoReady := by decide +kernel
    rw [hinfos]
    exact unfinished_infos _
  exact ⟨_, _, hrun.any, hevents, by decide +kernel,
    battle_state_machine (by decide) (by decide) hrun.any hlive⟩

/-- An attack that leaves its target nothing. -/
def lethalAttack : Attack := fun _ _ _ _ => ⟨{}, {}, 0, 12⟩

/-- The attack that ended the battle leaves both actions where they are, and the next call attacks again. -/
theorem finished_battle_goes_on :
    ∃ battle tr, (callStep true lethalAttack).AnyRun exampleBattle battle tr ∧
      tr.map Prod.fst = ⟨0, 0, fun _ => 0⟩ :: exampleCalls ∧
      emitted tr = [.sigTurnInfoReady ⟨.aToB, "MegaDrain", 0, 12, {}, {}⟩, .sigBattleFinished (some 0),
        .sigTurnInfoReady ⟨.aToB, "PoisonSting", 0, 12, {}, {}⟩, .sigBattleFinished (some 0)] := by
  obtain ⟨hrun, hevents⟩ := Machine.run_after (callStep true lethalAttack) Machine.always exampleBattle
    (⟨0, 0, fun _ => 0⟩ :: exampleCalls) (by decide +kernel)
  exact ⟨_, _, hrun.any, hevents, by decide +kernel⟩

/-! ## The battle in the server -/

/-- The step of a battle that was not deleted is a call, after which the end of the battle deletes it. -/
theorem battleStep_eq_callStep (debugFlag : Bool) (attack : Attack) (battle : BattleField) (call : BattleCall) :
    ∃ battle' events deleted, callStep debugFlag attack battle call = some (battle', events) ∧
      battleStep debugFlag attack ⟨battle, false⟩ call = some (⟨battle', deleted⟩, events) ∧
      (deleted = false ↔ Unfinished events) := by
  refine ⟨_, _, _, rfl, rfl, ?_⟩
  generalize battle.guardedSetAction debugFlag attack call = turn
  have hinfos := unfinished_infos turn.infos
  cases hwinner : turn.winner with
  | none => simpa [BattleField.Turn.events, hwinner] using hinfos
  | some winner => simp [BattleField.Turn.events, hwinner, Unfinished]

namespace ServerBackend

variable {δ : Type} {rt : Runtime δ} {s s' : ServerBackend δ} {out : List Sent} {chance : TurnChance} {i : Nat}

/-- The server takes a step of the machine with the battle of its list, and drops a battle that the step
deletes. -/
theorem setAction_battleStep (hptrs : (s.battleFieldList.map BattleField.ptr).Nodup)
    (hi : s.battleFieldList[i]? = some battle) {userIndex : Nat}
    (h : s.setAction rt battle.ptr skillIndex userIndex chance = some (s', out)) :
    ∃ life events, battleStep false rt.attack ⟨battle, false⟩ ⟨skillIndex, userIndex, chance.attack⟩ =
        some (life, events) ∧
      s'.battleFieldList =
        if life.deleted then s.battleFieldList.eraseIdx i else s.battleFieldList.set i life.battle := by
  obtain ⟨-, hbattles⟩ := entries_setAction hptrs hi h
  have hindex : battle.setAction rt.attack skillIndex (if (userIndex : Int) = 0 then 0 else 1) chance.attack =
      battle.setAction rt.attack skillIndex userIndex chance.attack := by
    rcases Nat.eq_zero_or_pos userIndex with rfl | hpos
    · rfl
    · have hne : (userIndex : Int) ≠ 0 := by omega
      simp only [BattleField.setAction, if_neg hne, if_neg (Nat.ne_of_gt hpos), Nat.one_ne_zero, if_false]
  refine ⟨_, _, rfl, ?_⟩
  simp only [BattleField.guardedSetAction, Bool.false_eq_true, false_and, if_false, hindex]
  exact hbattles

end ServerBackend

end TermCollection.Pokemon
