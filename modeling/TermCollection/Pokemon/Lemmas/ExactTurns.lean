import TermCollection.Pokemon.ExactBattle
import TermCollection.Pokemon.Lemmas.Skills

/-!
# Turns with exact factors

What the attacks of a turn do to the DEF and the buffs of the two sides, and what a call leads to.
-/

namespace TermCollection.Pokemon

variable {battle battle' : BattleField} {user dest : PokemonBase} {result : AttackResult}
variable {type : BalanceType} {draw : BalanceType → Nat} {skillName : QString} {turn : BattleField.Turn}
variable {info : TurnInfo} {life life' : BattleLife} {call : BattleCall} {p : BattleField → Bool}

/-! ## Attacks and ends of turns -/

abbrev exactStrike (battle : BattleField) (draw : Nat) (type : BalanceType) : Option (BattleField × TurnInfo) :=
  battle.strikeBy PokemonBase.changeExactly PokemonBase.attack draw type

abbrev exactAttacks (battle : BattleField) (draw : BalanceType → Nat) : Option BattleField.Turn :=
  battle.attacksBy PokemonBase.changeExactly PokemonBase.attack draw

abbrev exactSweep : Sweep PokemonBase Buff := buffSweep (PokemonBase.applyBuffBy PokemonBase.changeExactly)

/-- The DEF of the targets of a turn, each when its damage is calculated. -/
def BattleField.attackedDEFs (battle : BattleField) (draw : BalanceType → Nat) : List Int :=
  let first := battle.firstAttack
  (battle.target first).curDEF ::
    match exactStrike battle (draw first) first with
    | none => []
    | some (battle, _) =>
        match battle.checkBattleIsFinished with
        | some _ => []
        | none => [(battle.target first.mirror).curDEF]

/-- Both actions are there after a call. -/
def BattleCall.completes (call : BattleCall) (battle : BattleField) : Bool :=
  let battle := battle.stored call.skillIndex call.userIndex
  battle.actionA ≠ "" ∧ battle.actionB ≠ ""

/-- The DEF of the targets of the turn that a call leads to. -/
def BattleField.callDEFs (battle : BattleField) (call : BattleCall) : List Int :=
  if call.completes battle then (battle.stored call.skillIndex call.userIndex).attackedDEFs call.draw else []

/-- The battle meets a condition at the end of the turn of a call, before the pass over the buffs. -/
def atEndOfTurn (p : BattleField → Bool) (life : BattleLife) (call : BattleCall) : Bool :=
  if call.completes life.battle then
    match exactAttacks (life.battle.stored call.skillIndex call.userIndex) call.draw with
    | some ⟨battle, _, none⟩ => p battle
    | _ => true
  else true

/-! ## Buffs of attacks -/

/-- The buff lowers the DEF. -/
def Buff.lowersDEF (buff : Buff) : Bool :=
  match buffType buff.buffId with
  | some .defDownS | some .defDownM | some .defDownL => true
  | _ => false

/-- The buffs of an attack: the user's own does not lower the DEF, and the target's has a small factor and
three turns at most. -/
structure AttackResult.Mild (result : AttackResult) : Prop where
  selfBuf : result.selfBuf.lowersDEF = false
  destBuf : result.destBuf.lowersDEF = true →
    buffType result.destBuf.buffId ≠ some .defDownL ∧ result.destBuf.turnCnt ≤ 3

theorem mild_of_skill {draw : Nat} (h : PokemonSkill.useSkillByName skillName user dest draw = some result) :
    result.Mild ∧ (HighHpPkm.raises result.selfBuf.buffId = true →
      Buff.lowersDEF ⟨result.selfBuf.buffId + 1, result.selfBuf.turnCnt + 1⟩ = false) := by
  have hpair := PokemonSkill.of_skillBuffs (P := fun _ pair =>
    (pair.1.lowersDEF = false ∧
      (pair.2.lowersDEF = true → buffType pair.2.buffId ≠ some .defDownL ∧ pair.2.turnCnt ≤ 3)) ∧
      (HighHpPkm.raises pair.1.buffId = true →
        Buff.lowersDEF ⟨pair.1.buffId + 1, pair.1.turnCnt + 1⟩ = false)) (fun _ => by decide) (by decide) h
  exact ⟨⟨hpair.1.1, hpair.1.2⟩, hpair.2⟩

theorem debuff_mild (draw : Nat) : buffType (HighDefPkm.debuff draw).buffId ≠ some .defDownL := by
  rw [buffType_buffId]
  unfold HighDefPkm.debuff
  split
  · split
    · split <;> decide
    · decide
  · decide

theorem mild_attack {draw : Nat} (h : user.attack dest skillName draw = some result) : result.Mild := by
  unfold PokemonBase.attack at h
  split at h <;> obtain ⟨plain, hplain, rfl⟩ := Option.map_eq_some_iff.mp h
  all_goals
    obtain ⟨hmild, hamplified⟩ := mild_of_skill hplain
  · split
    · exact ⟨hmild.selfBuf, hmild.destBuf⟩
    · exact hmild
  · rw [HighHpPkm.amplify]
    split
    · split
      · exact ⟨hamplified ‹_›, hmild.destBuf⟩
      · exact hmild
    · exact hmild
  · split
    · exact ⟨hmild.selfBuf, fun _ => ⟨debuff_mild draw, (by decide : (1 : Int) ≤ 3)⟩⟩
    · exact hmild
  · split
    · exact ⟨rfl, hmild.destBuf⟩
    · exact hmild

theorem AttackResult.Mild.small (h : result.Mild) :
    buffType result.selfBuf.buffId ≠ some .defDownL ∧ buffType result.destBuf.buffId ≠ some .defDownL := by
  constructor
  · intro heq
    have hself := h.selfBuf
    rw [Buff.lowersDEF, heq] at hself
    cases hself
  · intro heq
    refine (h.destBuf ?_).1 heq
    rw [Buff.lowersDEF, heq]

/-! ## Strikes -/

theorem changeExactly_DEF (pkm : PokemonBase) (buffId : Int) : (pkm.changeExactly buffId).DEF = pkm.DEF := by
  unfold PokemonBase.changeExactly
  split <;> rfl

/-- What an attack does to the DEF and the buffs of the two sides. -/
structure Struck (battle battle' : BattleField) (type : BalanceType) (result : AttackResult) : Prop where
  attackerDEF : (battle'.attacker type).DEF = (battle.attacker type).DEF
  targetDEF : (battle'.target type).DEF = (battle.target type).DEF
  attackerBuffs : battle'.attackerBuffs type = battle.attackerBuffs type ++ [result.selfBuf]
  targetBuffs : battle'.targetBuffs type = battle.targetBuffs type ++ [result.destBuf]
  curDEF : (battle'.attacker type).curDEF =
    ((battle.attacker type).changeExactly result.selfBuf.buffId).curDEF

theorem struck_of_exactStrike {draw : Nat} (h : exactStrike battle draw type = some (battle', info)) :
    ∃ result, result.Mild ∧ Struck battle battle' type result := by
  cases type with
  | aToB =>
      obtain ⟨result, hattack, hbattle⟩ := Option.bind_eq_some_iff.mp h
      cases hbattle
      exact ⟨result, mild_attack hattack, changeExactly_DEF _ _, changeExactly_DEF _ _, rfl, rfl, rfl⟩
  | bToA =>
      obtain ⟨result, hattack, hbattle⟩ := Option.bind_eq_some_iff.mp h
      cases hbattle
      exact ⟨result, mild_attack hattack, changeExactly_DEF _ _, changeExactly_DEF _ _, rfl, rfl, rfl⟩

theorem target_eq (battle : BattleField) (type : BalanceType) :
    battle.target type = battle.attacker type.mirror ∧
      battle.targetBuffs type = battle.attackerBuffs type.mirror := by
  cases type <;> exact ⟨rfl, rfl⟩

/-! ## Turns -/

/-- The attacks of a turn that goes on, in their order. -/
theorem struck_of_exactAttacks (h : exactAttacks battle draw = some turn) (hnone : turn.winner = none) :
    ∃ first battle₁ result₁ result₂, AttackResult.Mild result₁ ∧ AttackResult.Mild result₂ ∧
      Struck battle battle₁ first result₁ ∧ Struck battle₁ turn.battle first.mirror result₂ := by
  rw [exactAttacks, BattleField.attacksBy] at h
  generalize battle.firstAttack = first at h
  obtain ⟨⟨battle₁, info₁⟩, hstrike₁, hturn⟩ := Option.bind_eq_some_iff.mp h
  obtain ⟨result₁, hmild₁, hstruck₁⟩ := struck_of_exactStrike hstrike₁
  simp only at hturn
  cases hcut : battle₁.checkBattleIsFinished with
  | some winner =>
      rw [hcut] at hturn
      cases hturn
      cases hnone
  | none =>
      rw [hcut] at hturn
      obtain ⟨⟨battle₂, info₂⟩, hstrike₂, hturn⟩ := Option.bind_eq_some_iff.mp hturn
      obtain ⟨result₂, hmild₂, hstruck₂⟩ := struck_of_exactStrike hstrike₂
      cases hturn
      exact ⟨first, battle₁, result₁, result₂, hmild₁, hmild₂, hstruck₁, hstruck₂⟩

/-- A property of both sides with their buffs. -/
abbrev BothSides (P : PokemonBase → List Buff → Prop) (battle : BattleField) : Prop :=
  ∀ type : BalanceType, P (battle.attacker type) (battle.attackerBuffs type)

/-- What the attacks of a turn make of a property of both sides: each side gets a buff of its own attack and
one of the other's, in either order. -/
theorem BothSides.attacks {P Q : PokemonBase → List Buff → Prop} (h : BothSides P battle)
    (hpush : ∀ pkm pkm' buffList result result', pkm'.DEF = pkm.DEF → AttackResult.Mild result →
      AttackResult.Mild result' → P pkm buffList →
      Q pkm' (buffList ++ [result.selfBuf] ++ [result'.destBuf]) ∧
        Q pkm' (buffList ++ [result'.destBuf] ++ [result.selfBuf]))
    (hturn : exactAttacks battle draw = some turn) (hnone : turn.winner = none) :
    BothSides Q turn.battle := by
  obtain ⟨first, battle₁, result₁, result₂, hmild₁, hmild₂, h₁, h₂⟩ := struck_of_exactAttacks hturn hnone
  have hfirst : Q (turn.battle.attacker first) (turn.battle.attackerBuffs first) := by
    have hDEF := h₂.targetDEF
    have hbuffs := h₂.targetBuffs
    rw [(target_eq _ _).1, (target_eq _ _).1, mirror_mirror] at hDEF
    rw [(target_eq _ _).2, (target_eq _ _).2, mirror_mirror, h₁.attackerBuffs] at hbuffs
    rw [hbuffs]
    exact (hpush _ _ _ _ _ (hDEF.trans h₁.attackerDEF) hmild₁ hmild₂ (h first)).1
  have hsecond : Q (turn.battle.attacker first.mirror) (turn.battle.attackerBuffs first.mirror) := by
    have hDEF := h₁.targetDEF
    have hbuffs := h₁.targetBuffs
    rw [(target_eq _ _).1, (target_eq _ _).1] at hDEF
    rw [(target_eq _ _).2, (target_eq _ _).2] at hbuffs
    rw [h₂.attackerBuffs, hbuffs]
    exact (hpush _ _ _ _ _ (h₂.attackerDEF.trans hDEF) hmild₂ hmild₁ (h first.mirror)).2
  intro type
  cases first <;> cases type <;> first | exact hfirst | exact hsecond

theorem BothSides.stored {P : PokemonBase → List Buff → Prop} (h : BothSides P battle)
    (skillIndex userIndex : Int) : BothSides P (battle.stored skillIndex userIndex) := by
  intro type
  have hside := h type
  unfold BattleField.stored
  cases type <;> split <;> exact hside

theorem atEndOfTurn_iff : atEndOfTurn p life call = true ↔ (call.completes life.battle = true →
    ∀ turn, exactAttacks (life.battle.stored call.skillIndex call.userIndex) call.draw = some turn →
      turn.winner = none → p turn.battle = true) := by
  unfold atEndOfTurn
  by_cases hboth : call.completes life.battle = true
  · rw [if_pos hboth]
    cases hturn : exactAttacks (life.battle.stored call.skillIndex call.userIndex) call.draw with
    | none => exact ⟨fun _ _ _ hsome => (by cases hsome), fun _ => rfl⟩
    | some turn =>
        obtain ⟨battle, infos, winner⟩ := turn
        cases winner with
        | none => exact ⟨fun h _ _ hsome _ => (by cases hsome; exact h), fun h => h hboth _ rfl rfl⟩
        | some winner => exact ⟨fun _ _ _ hsome hnone => (by cases hsome; cases hnone), fun _ => rfl⟩
  · rw [if_neg hboth]
    exact ⟨fun _ h => absurd h hboth, fun _ => rfl⟩

/-- A call that leaves the battle alive stores an action, or leads to a turn up to its end. -/
theorem exactStep_cases {events : List BattleEvent} (hs : exactStep life call = some (life', events))
    (hlive : life'.deleted = false) :
    life'.battle = life.battle.stored call.skillIndex call.userIndex ∨
      ∃ turn, call.completes life.battle = true ∧
        exactAttacks (life.battle.stored call.skillIndex call.userIndex) call.draw = some turn ∧
        turn.winner = none ∧
        life'.battle = { turn.battle with actionA := "", actionB := "" }.queryBuffListBy
          PokemonBase.changeExactly := by
  unfold exactStep battleStepBy at hs
  split at hs
  · cases hs
  · obtain ⟨turn, hturn, hlife⟩ := Option.map_eq_some_iff.mp hs
    cases hlife
    unfold BattleField.setActionBy at hturn
    simp only at hturn
    split at hturn
    · rename_i hactions
      obtain ⟨attacks, hattacks, rfl⟩ := Option.map_eq_some_iff.mp hturn
      obtain ⟨battle, infos, winner⟩ := attacks
      cases winner with
      | none => exact .inr ⟨_, decide_eq_true hactions, hattacks, rfl, rfl⟩
      | some winner => cases hlive
    · cases hturn
      exact .inl rfl

theorem live_of_step {events : List BattleEvent} (hs : exactStep life call = some (life', events)) :
    life.deleted = false := by
  unfold exactStep battleStepBy at hs
  split at hs
  · cases hs
  · rename_i hlive
    rw [Bool.not_eq_true] at hlive
    exact hlive

/-- What holds of both sides between the calls, when the attacks of a turn and the pass at its end keep it. -/
theorem BothSides.step {P Q : PokemonBase → List Buff → Prop} {events : List BattleEvent}
    (h : life.deleted = false → BothSides P life.battle)
    (hattacks : ∀ {battle draw turn}, BothSides P battle → exactAttacks battle draw = some turn →
      turn.winner = none → BothSides Q turn.battle)
    (hpass : ∀ turn : BattleField.Turn, p turn.battle = true → BothSides Q turn.battle →
      BothSides P (turn.battle.queryBuffListBy PokemonBase.changeExactly))
    (hc : atEndOfTurn p life call = true) (hs : exactStep life call = some (life', events)) :
    life'.deleted = false → BothSides P life'.battle := by
  intro hlive
  have hstored := BothSides.stored (h (live_of_step hs)) call.skillIndex call.userIndex
  rcases exactStep_cases hs hlive with hbattle | ⟨turn, hboth, hturn, hnone, hbattle⟩
  · rw [hbattle]
    exact hstored
  · have hend := hpass turn (atEndOfTurn_iff.mp hc hboth turn hturn hnone) (hattacks hstored hturn hnone)
    rw [hbattle]
    intro type
    have hside := hend type
    cases type <;> exact hside

end TermCollection.Pokemon
