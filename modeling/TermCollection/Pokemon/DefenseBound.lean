import Mathlib.Logic.Function.Iterate
import TermCollection.Pokemon.Lemmas.ExactTurns

/-!
# The DEF that a damage is divided by

The DEF is computed anew from the buffs at the end of every turn. At most one buff that lowers it comes in a
turn, and has three turns at most; but a buff that is passed over stays longer.
-/

namespace TermCollection.Pokemon

variable {battle : BattleField} {pkm : PokemonBase} {buff : Buff} {buffList : List Buff}
variable {draw : BalanceType → Nat} {turn : BattleField.Turn} {life : BattleLife} {k : Nat} {ptr userA : Nat}
variable {userB : Option Nat} {pkmA pkmB : PokemonBase} {mode : FieldMode}
variable {tr : List (BattleCall × List BattleEvent)}

/-! ## Few buffs that lower the DEF -/

/-- The base DEF, multiplied by 0.8 for every buff that lowers it, is one at least. -/
def enoughDEF (pkm : PokemonBase) (buffList : List Buff) : Bool :=
  1 ≤ (tenths 8)^[buffList.countP Buff.lowersDEF] pkm.DEF

/-- Both Pokemon have few buffs that lower their DEF. -/
def fewLowered (battle : BattleField) : Bool :=
  enoughDEF battle.pkmA battle.buffListA && enoughDEF battle.pkmB battle.buffListB

/-- The pass over the buffs passes over none that lowers the DEF. -/
def noDownPassed (buffList : List Buff) : Bool :=
  (exactSweep.passed buffList.reverse).all (!·.lowersDEF)

def downsHaveTheirTurn (battle : BattleField) : Bool :=
  noDownPassed battle.buffListA && noDownPassed battle.buffListB

/-! ## Factors -/

theorem tenths_mono {a b c : Int} (hc : 0 ≤ c) (hab : a ≤ b) : tenths c a ≤ tenths c b :=
  Int.tdiv_le_tdiv (by decide) (Int.mul_le_mul_of_nonneg_left hab hc)

theorem tenths_eight {n : Int} (h : 0 ≤ n) : 0 ≤ tenths 8 n ∧ tenths 8 n ≤ n := by
  rw [tenths_of_nonneg (by decide) h]
  omega

theorem iterate_nonneg {c : Int} (h : 0 ≤ c) (n : Nat) : 0 ≤ (tenths 8)^[n] c := by
  induction n generalizing c with
  | zero => exact h
  | succ n ih => exact ih (tenths_eight h).1

theorem iterate_mono {a b : Int} (h : a ≤ b) (n : Nat) : (tenths 8)^[n] a ≤ (tenths 8)^[n] b := by
  induction n generalizing a b with
  | zero => exact h
  | succ n ih => exact ih (tenths_mono (by decide) h)

/-- More factors leave no more. -/
theorem iterate_le {c : Int} (h : 0 ≤ c) {m n : Nat} (hmn : m ≤ n) :
    (tenths 8)^[n] c ≤ (tenths 8)^[m] c := by
  induction n, hmn using Nat.le_induction with
  | base => exact Int.le_refl _
  | succ n _ ih =>
      rw [Function.iterate_succ_apply']
      exact Int.le_trans (tenths_eight (iterate_nonneg h n)).2 ih

/-- A buff that does not lower the DEF keeps it or raises it. -/
theorem curDEF_le_changeExactly (h : buff.lowersDEF = false) (hpos : 0 ≤ pkm.curDEF) :
    pkm.curDEF ≤ (pkm.changeExactly buff.buffId).curDEF := by
  have hraise : ∀ c : Int, 10 ≤ c → pkm.curDEF ≤ tenths c pkm.curDEF := by
    intro c hc
    rw [tenths_of_nonneg (by omega) hpos]
    have := Int.mul_le_mul_of_nonneg_right hc hpos
    omega
  unfold PokemonBase.changeExactly
  split <;> first | exact Int.le_refl _ | exact hraise _ (by decide) | skip
  all_goals
    rename_i heq
    rw [Buff.lowersDEF, heq] at h
    cases h

/-- No factor but the one of a large fall is less than 0.8. -/
theorem tenths_le_changeExactly (h : buffType buff.buffId ≠ some .defDownL) (hpos : 0 ≤ pkm.curDEF) :
    tenths 8 pkm.curDEF ≤ (pkm.changeExactly buff.buffId).curDEF := by
  have hfactor : ∀ c : Int, 8 ≤ c → tenths 8 pkm.curDEF ≤ tenths c pkm.curDEF := by
    intro c hc
    rw [tenths_of_nonneg (by decide) hpos, tenths_of_nonneg (by omega) hpos]
    have := Int.mul_le_mul_of_nonneg_right hc hpos
    omega
  unfold PokemonBase.changeExactly
  split <;> first | exact (tenths_eight hpos).2 | exact hfactor _ (by decide) | skip
  rename_i heq
  exact absurd heq h

theorem applyBuffBy_curDEF (pkm : PokemonBase) (buffId : Int) :
    (pkm.applyBuffBy PokemonBase.changeExactly buffId).curDEF = (pkm.changeExactly buffId).curDEF := by
  unfold PokemonBase.applyBuffBy PokemonBase.changeExactly
  split <;> rename_i heq
  · rw [heq]
  · rw [heq]
  · rfl

/-- Each buff of a pass that lowers the DEF takes at most one factor. -/
theorem iterate_le_foldl (hsmall : ∀ buff ∈ buffList, buffType buff.buffId ≠ some .defDownL)
    (hpos : 0 ≤ pkm.curDEF) :
    (tenths 8)^[buffList.countP Buff.lowersDEF] pkm.curDEF ≤ (buffList.foldl exactSweep.work pkm).curDEF := by
  induction buffList generalizing pkm with
  | nil => exact Int.le_refl _
  | cons buff buffList ih =>
      have hwork : (exactSweep.work pkm buff).curDEF = (pkm.changeExactly buff.buffId).curDEF :=
        applyBuffBy_curDEF pkm buff.buffId
      have hfactor := tenths_le_changeExactly (hsmall buff List.mem_cons_self) hpos
      have hnonneg : 0 ≤ (exactSweep.work pkm buff).curDEF := by
        rw [hwork]
        exact Int.le_trans (tenths_eight hpos).1 hfactor
      refine Int.le_trans ?_ (ih (fun b hb => hsmall b (List.mem_cons_of_mem _ hb)) hnonneg)
      rw [hwork]
      cases hlowers : buff.lowersDEF with
      | true =>
          rw [List.countP_cons_of_pos hlowers, Function.iterate_succ_apply]
          exact iterate_mono hfactor _
      | false =>
          have hnot : ¬ buff.lowersDEF = true := by rw [hlowers]; decide
          rw [List.countP_cons_of_neg hnot]
          exact iterate_mono (curDEF_le_changeExactly hlowers hpos) _

theorem applyBuffBy_DEF (pkm : PokemonBase) (buffId : Int) :
    (pkm.applyBuffBy PokemonBase.changeExactly buffId).DEF = pkm.DEF := by
  unfold PokemonBase.applyBuffBy
  split
  · rfl
  · rfl
  · exact changeExactly_DEF pkm buffId

theorem foldl_work_DEF (pkm : PokemonBase) (buffList : List Buff) :
    (buffList.foldl exactSweep.work pkm).DEF = pkm.DEF := by
  induction buffList generalizing pkm with
  | nil => rfl
  | cons buff buffList ih =>
      rw [List.foldl_cons, ih]
      exact applyBuffBy_DEF pkm buff.buffId

/-! ## Runs with few buffs that lower the DEF -/

/-- What holds of a Pokemon and its buffs between the calls. -/
structure Sturdy (pkm : PokemonBase) (buffList : List Buff) : Prop where
  curDEF : 1 ≤ pkm.curDEF
  small : ∀ buff ∈ buffList, buffType buff.buffId ≠ some .defDownL

/-- The attacker of the first attack is the target of the second one, with no less DEF. -/
theorem attackedDEFs_pos (h : BothSides Sturdy battle) : ∀ d ∈ battle.attackedDEFs draw, 1 ≤ d := by
  intro d hd
  rw [BattleField.attackedDEFs] at hd
  generalize battle.firstAttack = first at hd
  rcases List.mem_cons.mp hd with rfl | hd
  · rw [(target_eq battle first).1]
    exact (h first.mirror).curDEF
  · cases hstrike : exactStrike battle (draw first) first with
    | none =>
        rw [hstrike] at hd
        cases hd
    | some struck =>
        obtain ⟨battle', info⟩ := struck
        rw [hstrike] at hd
        obtain ⟨result, hmild, hstruck⟩ := struck_of_exactStrike hstrike
        simp only at hd
        split at hd
        · cases hd
        · rw [List.mem_singleton.mp hd, (target_eq battle' first.mirror).1, mirror_mirror, hstruck.curDEF]
          have hpos := (h first).curDEF
          exact Int.le_trans hpos (curDEF_le_changeExactly hmild.selfBuf (by omega))

theorem small_attacks (h : BothSides Sturdy battle) (hturn : exactAttacks battle draw = some turn)
    (hnone : turn.winner = none) :
    BothSides (fun _ buffList => ∀ buff ∈ buffList, buffType buff.buffId ≠ some .defDownL) turn.battle := by
  refine h.attacks ?_ hturn hnone
  intro _ _ buffList result result' _ hmild hmild' hsturdy
  simp only [List.forall_mem_append, List.forall_mem_singleton]
  exact ⟨⟨⟨hsturdy.small, hmild.small.1⟩, hmild'.small.2⟩, ⟨hsturdy.small, hmild'.small.2⟩, hmild.small.1⟩

/-- The pass visits at most all the buffs that lower the DEF. -/
theorem countP_visited_le (buffList : List Buff) :
    (exactSweep.visited buffList.reverse).countP Buff.lowersDEF ≤ buffList.countP Buff.lowersDEF := by
  calc (exactSweep.visited buffList.reverse).countP Buff.lowersDEF
      ≤ (buffList.reverse.map Buff.countDown).countP Buff.lowersDEF :=
        Nat.le.intro (Sweep.countP_visited _ _ _)
    _ = buffList.countP Buff.lowersDEF := by
        rw [List.map_reverse, List.countP_reverse, List.countP_map]
        rfl

theorem sturdy_pass (hsmall : ∀ buff ∈ buffList, buffType buff.buffId ≠ some .defDownL)
    (henough : enoughDEF pkm buffList = true) :
    Sturdy (exactSweep.sweep pkm.resetProperties buffList).1
      (exactSweep.sweep pkm.resetProperties buffList).2 := by
  rw [Sweep.sweep_eq]
  have henough := of_decide_eq_true henough
  have hpos : 0 ≤ pkm.DEF := by
    by_contra hneg
    have hle := iterate_mono (Int.le_of_lt (Int.not_le.mp hneg)) (buffList.countP Buff.lowersDEF)
    have hzero : (tenths 8)^[buffList.countP Buff.lowersDEF] 0 = 0 := Function.iterate_fixed rfl _
    omega
  constructor
  case curDEF =>
    have hvisited : ∀ buff ∈ exactSweep.visited buffList.reverse, buffType buff.buffId ≠ some .defDownL := by
      intro buff hmem
      obtain ⟨counted, hcounted, rfl⟩ := Sweep.mem_visited _ hmem
      exact hsmall counted (List.mem_reverse.mp hcounted)
    have hreset : 0 ≤ pkm.resetProperties.curDEF := hpos
    exact Int.le_trans (Int.le_trans henough (iterate_le hpos (countP_visited_le buffList)))
      (iterate_le_foldl hvisited hreset)
  case small =>
    intro buff hmem
    obtain ⟨b, hb, rfl | rfl⟩ := Sweep.mem_kept _ (List.mem_reverse.mp hmem)
    · exact hsmall buff (List.mem_reverse.mp hb)
    · exact hsmall b (List.mem_reverse.mp hb)

theorem sturdy_endOfTurn (h : fewLowered battle = true)
    (hsmall : BothSides (fun _ buffList => ∀ buff ∈ buffList, buffType buff.buffId ≠ some .defDownL) battle) :
    BothSides Sturdy (battle.queryBuffListBy PokemonBase.changeExactly) := by
  rw [fewLowered, Bool.and_eq_true] at h
  intro type
  cases type with
  | aToB => exact sturdy_pass (hsmall .aToB) h.1
  | bToA => exact sturdy_pass (hsmall .bToA) h.2

theorem callDEFs_pos (hA : 6 ≤ pkmA.DEF) (hB : 6 ≤ pkmB.DEF)
    (h : exactStep.Run (atEndOfTurn fewLowered · · = true)
      ⟨newBattleField ptr userA userB pkmA pkmB mode, false⟩ life tr) (hlive : life.deleted = false)
    (call : BattleCall) : ∀ d ∈ life.battle.callDEFs call, 1 ≤ d := by
  have hnew : BothSides Sturdy (newBattleField ptr userA userB pkmA pkmB mode) := by
    intro type
    cases type with
    | aToB => exact ⟨Int.le_trans (by decide) hA, fun buff hmem => (by cases hmem)⟩
    | bToA => exact ⟨Int.le_trans (by decide) hB, fun buff hmem => (by cases hmem)⟩
  have hsturdy := h.stateInvariant (I := fun life => life.deleted = false → BothSides Sturdy life.battle)
    (fun _ => hnew) fun _ _ _ _ hi hc hs =>
      BothSides.step hi small_attacks (fun _ => sturdy_endOfTurn) hc hs
  intro d hd
  rw [BattleField.callDEFs] at hd
  split at hd
  · exact attackedDEFs_pos ((hsturdy hlive).stored _ _) d hd
  · cases hd

/-! ## Runs in which every such buff has its turn -/

/-- The buff lowers the DEF and has more turns than the number, where it counts as one at least. -/
def Buff.lowersFor (n : Nat) (buff : Buff) : Bool := buff.lowersDEF && decide ((n : Int) < max 1 buff.turnCnt)

/-- At most `k` buffs lower the DEF, and one less for each turn that they are to stay. -/
def FewDowns (k : Nat) (buffList : List Buff) : Prop := ∀ n : Nat, buffList.countP (Buff.lowersFor n) ≤ k - n

theorem lowersFor_zero : Buff.lowersFor 0 = Buff.lowersDEF := by
  funext buff
  have hpos : ((0 : Nat) : Int) < max 1 buff.turnCnt := by omega
  rw [Buff.lowersFor, decide_eq_true hpos, Bool.and_true]

theorem FewDowns.push (h : FewDowns k buffList) (hbuff : buff.lowersDEF = false) :
    FewDowns k (buffList ++ [buff]) := by
  intro n
  have hnot : ¬ buff.lowersFor n = true := by rw [Buff.lowersFor, hbuff, Bool.false_and]; decide
  rw [List.countP_append, List.countP_cons_of_neg hnot, List.countP_nil, Nat.add_zero]
  exact h n

theorem FewDowns.pushDown (h : FewDowns k buffList) (hbuff : buff.lowersDEF = true → buff.turnCnt ≤ k + 1) :
    FewDowns (k + 1) (buffList ++ [buff]) := by
  intro n
  have hn := h n
  rw [List.countP_append, List.countP_singleton]
  split
  · rename_i hlowers
    rw [Buff.lowersFor, Bool.and_eq_true, decide_eq_true_eq] at hlowers
    have hcnt := hbuff hlowers.1
    omega
  · omega

/-- A pass takes a turn from every buff that lowers the DEF. -/
theorem FewDowns.sweep (h : FewDowns (k + 1) buffList) (hpass : noDownPassed buffList = true)
    (pkm : PokemonBase) :
    FewDowns k (exactSweep.sweep pkm buffList).2 := by
  intro n
  simp only [noDownPassed, List.all_eq_true, Bool.not_eq_true'] at hpass
  have hpassed : (exactSweep.passed buffList.reverse).countP
      (Buff.lowersFor n) = 0 := by
    refine List.countP_eq_zero.mpr fun buff hmem => ?_
    rw [Buff.lowersFor, hpass buff hmem, Bool.false_and]
    decide
  have htick : ∀ buff : Buff, (buff.countDown.lowersFor n && !decide (buff.countDown.turnCnt ≤ 0)) = true →
      buff.lowersFor (n + 1) = true := by
    intro buff hbuff
    simp only [Buff.lowersFor, Bool.and_eq_true, Bool.not_eq_true', decide_eq_true_eq,
      decide_eq_false_iff_not] at hbuff ⊢
    obtain ⟨⟨hlowers, hcnt⟩, hlasts⟩ := hbuff
    have hcount : buff.countDown.turnCnt = buff.turnCnt - 1 := rfl
    exact ⟨hlowers, by omega⟩
  have hvisited := Sweep.countP_visited exactSweep
    (fun buff => buff.lowersFor n && !decide (buff.turnCnt ≤ 0)) buffList.reverse
  calc (exactSweep.sweep pkm buffList).2.countP (Buff.lowersFor n)
      = (exactSweep.visited buffList.reverse).countP
          (fun buff => buff.lowersFor n && !decide (buff.turnCnt ≤ 0)) := by
        rw [Sweep.sweep_eq, List.countP_reverse, Sweep.countP_kept, hpassed]
        rfl
    _ ≤ (buffList.reverse.map Buff.countDown).countP
          (fun buff => buff.lowersFor n && !decide (buff.turnCnt ≤ 0)) := Nat.le.intro hvisited
    _ ≤ buffList.reverse.countP (Buff.lowersFor (n + 1)) := by
        rw [List.countP_map]
        exact List.countP_mono_left fun buff _ => htick buff
    _ ≤ k - n := by
        have hn := h (n + 1)
        rw [List.countP_reverse]
        omega

/-- A Pokemon of the first level at least, and its buffs. -/
structure Guarded (k : Nat) (pkm : PokemonBase) (buffList : List Buff) : Prop where
  base : 6 ≤ pkm.DEF
  few : FewDowns k buffList

theorem Guarded.enoughDEF (h : Guarded 3 pkm buffList) : enoughDEF pkm buffList = true := by
  have hfew : buffList.countP Buff.lowersDEF ≤ 3 := by
    rw [← lowersFor_zero]
    exact h.few 0
  refine decide_eq_true ?_
  calc (1 : Int) ≤ (tenths 8)^[3] 6 := by decide
    _ ≤ (tenths 8)^[3] pkm.DEF := iterate_mono h.base 3
    _ ≤ (tenths 8)^[buffList.countP Buff.lowersDEF] pkm.DEF :=
      iterate_le (Int.le_trans (by decide) h.base) hfew

theorem guarded_attacks (h : BothSides (Guarded 2) battle) (hturn : exactAttacks battle draw = some turn)
    (hnone : turn.winner = none) : BothSides (Guarded 3) turn.battle := by
  refine h.attacks ?_ hturn hnone
  intro pkm pkm' buffList result result' hDEF hmild hmild' hguarded
  have hbase : 6 ≤ pkm'.DEF := by
    rw [hDEF]
    exact hguarded.base
  have hdown : result'.destBuf.lowersDEF = true → result'.destBuf.turnCnt ≤ 3 := fun hlowers =>
    (hmild'.destBuf hlowers).2
  exact ⟨⟨hbase, (hguarded.few.push hmild.selfBuf).pushDown hdown⟩,
    ⟨hbase, (hguarded.few.pushDown hdown).push hmild.selfBuf⟩⟩

theorem guarded_pass (h : Guarded 3 pkm buffList) (hpass : noDownPassed buffList = true) :
    Guarded 2 (exactSweep.sweep pkm.resetProperties buffList).1
      (exactSweep.sweep pkm.resetProperties buffList).2 := by
  refine ⟨?_, h.few.sweep hpass _⟩
  have hDEF : (exactSweep.sweep pkm.resetProperties buffList).1.DEF = pkm.resetProperties.DEF := by
    rw [Sweep.sweep_eq]
    exact foldl_work_DEF _ _
  rw [hDEF]
  exact h.base

theorem guarded_endOfTurn (h : downsHaveTheirTurn battle = true) (hguarded : BothSides (Guarded 3) battle) :
    BothSides (Guarded 2) (battle.queryBuffListBy PokemonBase.changeExactly) := by
  rw [downsHaveTheirTurn, Bool.and_eq_true] at h
  intro type
  cases type with
  | aToB => exact guarded_pass (hguarded .aToB) h.1
  | bToA => exact guarded_pass (hguarded .bToA) h.2

/-- At most three buffs lower a DEF as long as none of them is passed over, so that the DEF is enough. -/
theorem few_of_turns (hA : 6 ≤ pkmA.DEF) (hB : 6 ≤ pkmB.DEF)
    (h : exactStep.Run (atEndOfTurn downsHaveTheirTurn · · = true)
      ⟨newBattleField ptr userA userB pkmA pkmB mode, false⟩ life tr) :
    exactStep.Run (atEndOfTurn fewLowered · · = true)
      ⟨newBattleField ptr userA userB pkmA pkmB mode, false⟩ life tr := by
  have hnew : BothSides (Guarded 2) (newBattleField ptr userA userB pkmA pkmB mode) := by
    intro type
    cases type with
    | aToB => exact ⟨hA, fun n => Nat.zero_le _⟩
    | bToA => exact ⟨hB, fun n => Nat.zero_le _⟩
  have hinv := h.invariant (I := fun life tr => (life.deleted = false → BothSides (Guarded 2) life.battle) ∧
    exactStep.Run (atEndOfTurn fewLowered · · = true)
      ⟨newBattleField ptr userA userB pkmA pkmB mode, false⟩ life tr) ⟨fun _ => hnew, .init⟩ ?_
  · exact hinv.2
  · intro life tr call life' events _ hi hc hs
    refine ⟨BothSides.step hi.1 guarded_attacks (fun _ => guarded_endOfTurn) hc hs, hi.2.next ?_ hs⟩
    refine atEndOfTurn_iff.mpr fun _ turn hturn hnone => ?_
    have hguarded := guarded_attacks ((hi.1 (live_of_step hs)).stored _ _) hturn hnone
    rw [fewLowered, Bool.and_eq_true]
    exact ⟨(hguarded .aToB).enoughDEF, (hguarded .bToA).enoughDEF⟩

/-! ## Liquidation -/

/-- In every run in which few buffs lower the DEF at the end of each turn, a damage is always divided by a
DEF of one at least. A run in which none of these buffs is passed over is such a run. -/
theorem attacked_DEF_pos (hA : 6 ≤ pkmA.DEF) (hB : 6 ≤ pkmB.DEF) :
    (∀ life tr, exactStep.Run (atEndOfTurn fewLowered · · = true)
        ⟨newBattleField ptr userA userB pkmA pkmB mode, false⟩ life tr →
      life.deleted = false → ∀ call, ∀ d ∈ life.battle.callDEFs call, 1 ≤ d) ∧
    ∀ life tr, exactStep.Run (atEndOfTurn downsHaveTheirTurn · · = true)
        ⟨newBattleField ptr userA userB pkmA pkmB mode, false⟩ life tr →
      exactStep.Run (atEndOfTurn fewLowered · · = true)
        ⟨newBattleField ptr userA userB pkmA pkmB mode, false⟩ life tr :=
  ⟨fun _ _ => callDEFs_pos hA hB, fun _ _ => few_of_turns hA hB⟩

/-- A Pokemon with the DEF of the first level. -/
def skilledPokemon (curUser : QString) (skills : List QString) : PokemonBase :=
  { firstLevelPokemon curUser with HP := 200, skills := skills }

def liquidationBattle : BattleLife where
  battle := newBattleField 2 0 (some 1) (skilledPokemon "a" ["Liquidation"])
    (skilledPokemon "b" ["Pound", "Outrage", "IcyWind", "QuickAttack"]) .expBattle
  deleted := false

/-- The calls of a turn, the newest first. Bit 0 of the draw says whether Liquidation lowers the DEF. -/
def liquidationTurn (skillB : Int) (draw : Nat) : List BattleCall :=
  [⟨0, 0, fun type => if type = .aToB then draw else 0⟩, ⟨skillB, 1, fun _ => 0⟩]

/-- Six turns with Liquidation; in the fourth one, the lowered SPD lets the other Pokemon attack first. -/
def liquidationCalls : List BattleCall :=
  [liquidationTurn 3 1, liquidationTurn 0 1, liquidationTurn 0 1, liquidationTurn 2 1, liquidationTurn 1 0,
    liquidationTurn 0 1].flatten

theorem attacked_DEF_pos_example :
    ∃ life tr, exactStep.Run (atEndOfTurn fewLowered · · = true) liquidationBattle life tr ∧
      tr.map Prod.fst = liquidationCalls.drop 2 ∧ ∀ call, ∀ d ∈ life.battle.callDEFs call, 1 ≤ d := by
  obtain ⟨hrun, hevents⟩ := Machine.run_after exactStep (atEndOfTurn fewLowered) liquidationBattle
    (liquidationCalls.drop 2) (by decide +kernel)
  exact ⟨_, _, hrun, hevents,
    (attacked_DEF_pos (by decide) (by decide)).1 _ _ hrun (by decide +kernel)⟩

/-- After six turns the DEF of the target is zero, and the next Liquidation divides by it. -/
theorem liquidation_divides_by_zero :
    ∃ life tr, exactStep.AnyRun liquidationBattle life tr ∧ life.deleted = false ∧
      ∃ call, 0 ∈ life.battle.callDEFs call ∧ exactStep life call = none := by
  obtain ⟨hrun, -⟩ := Machine.run_after exactStep Machine.always liquidationBattle
    (⟨0, 1, fun _ => 0⟩ :: liquidationCalls) (by decide +kernel)
  exact ⟨_, _, hrun.any, by decide +kernel, ⟨0, 0, fun _ => 0⟩, by decide +kernel, by decide +kernel⟩

end TermCollection.Pokemon
