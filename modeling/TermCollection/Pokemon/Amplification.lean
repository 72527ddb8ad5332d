import TermCollection.Pokemon.ExactBattle
import TermCollection.Pokemon.Lemmas.Skills

/-!
# Amplified buffs

The attack of the type with many hit points may count up the ID of the buff that its user gets. The
enumeration goes from a small rise to a large one, and from a large rise to the next property.
-/

namespace TermCollection.Pokemon

variable {battle : BattleField} {type : BalanceType} {skillName : QString} {draw : Nat}
variable {plain amplified result : AttackResult} {user dest : PokemonBase}

/-! ## What the amplification is for -/

/-- What happens to a battle after an attack. -/
inductive FieldEvent where
  | handleResult (result : AttackResult) (type : BalanceType)
  | queryBuffList

def BattleField.after (battle : BattleField) : FieldEvent → BattleField
  | .handleResult result type => (battle.handleResultBy PokemonBase.changeExactly result type).2
  | .queryBuffList => battle.queryBuffListBy PokemonBase.changeExactly

def BattleField.afterAll (battle : BattleField) (events : List FieldEvent) : BattleField :=
  events.foldl BattleField.after battle

/-- The current properties are at least those of the first Pokemon. -/
structure StatsLe (pkm pkm' : PokemonBase) : Prop where
  curATK : pkm.curATK ≤ pkm'.curATK
  curDEF : pkm.curDEF ≤ pkm'.curDEF
  curSPD : pkm.curSPD ≤ pkm'.curSPD

/-- The second result is no worse for the attacker than the first: at once, and behind every end of a turn
that follows the same events, whether or not the buff is still there. -/
structure NoWorse (battle : BattleField) (type : BalanceType) (plain amplified : AttackResult) : Prop where
  atOnce : StatsLe ((battle.after (.handleResult plain type)).attacker type)
    ((battle.after (.handleResult amplified type)).attacker type)
  later : ∀ events,
    StatsLe
      ((((battle.after (.handleResult plain type)).afterAll events).after .queryBuffList).attacker type)
      ((((battle.after (.handleResult amplified type)).afterAll events).after .queryBuffList).attacker type)

/-- The attack with the amplification against the skill alone. -/
def NeverHurts (battle : BattleField) (type : BalanceType) (skillName : QString) (draw : Nat) : Prop :=
  judge draw 8 = true → ∀ plain amplified,
    PokemonSkill.useSkillByName skillName (battle.attacker type) (battle.target type) draw = some plain →
    HighHpPkm.attack (battle.attacker type) (battle.target type) skillName draw = some amplified →
    NoWorse battle type plain amplified

/-- The skills whose buff is amplified. All of them give a large rise. -/
def amplifiedSkills : List QString := ["Agility", "MaxSteelspike", "QuickAttack", "SwordsDance"]

/-- The amplification is taken, the damage is defined, and a factor of 1.3 changes each property. -/
structure Exposed (battle : BattleField) (type : BalanceType) (draw : Nat) : Prop where
  taken : judge draw 8 = true
  curATK : 4 ≤ (battle.attacker type).curATK
  curDEF : 4 ≤ (battle.attacker type).curDEF
  curSPD : 4 ≤ (battle.attacker type).curSPD
  target : (battle.target type).curDEF ≠ 0

/-! ## Skills that are not amplified -/

theorem StatsLe.refl (pkm : PokemonBase) : StatsLe pkm pkm := ⟨Int.le_refl _, Int.le_refl _, Int.le_refl _⟩

theorem NoWorse.refl (battle : BattleField) (type : BalanceType) (result : AttackResult) :
    NoWorse battle type result result := ⟨.refl _, fun _ => .refl _⟩

/-- Only the skills of the list have a buff that is amplified. -/
theorem raises_of_skill (h : PokemonSkill.useSkillByName skillName user dest draw = some result) :
    HighHpPkm.raises result.selfBuf.buffId = true → skillName ∈ amplifiedSkills := by
  refine PokemonSkill.of_skillBuffs
    (P := fun name pair => HighHpPkm.raises pair.1.buffId = true → name ∈ amplifiedSkills) ?_ ?_ h
  · intro _ hraises
    cases hraises
  · decide

theorem neverHurts_of_notMem (h : skillName ∉ amplifiedSkills) : NeverHurts battle type skillName draw := by
  intro _ plain amplified hplain hattack
  have hraises : ¬ HighHpPkm.raises plain.selfBuf.buffId = true := fun hraises => h (raises_of_skill hplain hraises)
  rw [HighHpPkm.attack, hplain, Option.map_some, HighHpPkm.amplify, if_neg hraises, ite_self] at hattack
  cases hattack
  exact .refl battle type plain

/-! ## Skills that are amplified -/

theorem attacker_after (battle : BattleField) (result : AttackResult) (type : BalanceType) :
    (battle.after (.handleResult result type)).attacker type =
      (battle.attacker type).changeExactly result.selfBuf.buffId := by
  cases type <;> rfl

theorem amplify_buffId (h : HighHpPkm.raises plain.selfBuf.buffId = true) :
    (HighHpPkm.amplify plain).selfBuf.buffId = plain.selfBuf.buffId + 1 := by
  rw [HighHpPkm.amplify, if_pos h]

/-- The large rise is more than the next buff makes of the same property. -/
theorem not_noWorse (h : Exposed battle type draw) (hself : plain.selfBuf.buffId ∈ [3, 6, 9]) :
    ¬ NoWorse battle type plain (HighHpPkm.amplify plain) := by
  intro hno
  have hbeaten : ∀ n : Int, 4 ≤ n → n < tenths 13 n := by
    intro n hn
    rw [tenths_of_nonneg (by decide) (by omega)]
    omega
  obtain ⟨hATK, hDEF, hSPD⟩ := hno.atOnce
  simp only [List.mem_cons, List.not_mem_nil, or_false] at hself
  rcases hself with hself | hself | hself
  · rw [attacker_after, attacker_after, amplify_buffId (by rw [hself]; rfl), hself] at hATK
    have hATK' : tenths 13 (battle.attacker type).curATK ≤ (battle.attacker type).curATK := hATK
    exact absurd (hbeaten _ h.curATK) (by omega)
  · rw [attacker_after, attacker_after, amplify_buffId (by rw [hself]; rfl), hself] at hDEF
    have hDEF' : tenths 13 (battle.attacker type).curDEF ≤ (battle.attacker type).curDEF := hDEF
    exact absurd (hbeaten _ h.curDEF) (by omega)
  · rw [attacker_after, attacker_after, amplify_buffId (by rw [hself]; rfl), hself] at hSPD
    have hSPD' : tenths 13 (battle.attacker type).curSPD ≤ (battle.attacker type).curSPD := hSPD
    exact absurd (hbeaten _ h.curSPD) (by omega)

theorem hit_defined (power : Int) (result : AttackResult) (h : dest.curDEF ≠ 0) :
    ∃ d, PokemonSkill.hit power result user dest = some { result with destDeltaHp := d } := by
  rw [PokemonSkill.hit, PokemonSkill.damage, calDamage, if_neg h]
  exact ⟨_, rfl⟩

theorem useSkillByName_amplified (draw : Nat) (h : skillName ∈ amplifiedSkills) (hdest : dest.curDEF ≠ 0) :
    ∃ plain, PokemonSkill.useSkillByName skillName user dest draw = some plain ∧
      plain.selfBuf.buffId ∈ [3, 6, 9] := by
  have hself : ∀ type ∈ [BuffType.atkUpL, .defUpL, .spdUpL], type.buffId ∈ ([3, 6, 9] : List Int) := by decide
  simp only [amplifiedSkills, List.mem_cons, List.not_mem_nil, or_false] at h
  rcases h with rfl | rfl | rfl | rfl
  · exact ⟨_, rfl, hself .spdUpL (by decide)⟩
  · obtain ⟨d, hhit⟩ := hit_defined 100 { selfBuf := ⟨BuffType.defUpL.buffId, 2⟩ } hdest
    exact ⟨_, hhit, hself .defUpL (by decide)⟩
  · obtain ⟨d, hhit⟩ := hit_defined 70 { selfBuf := ⟨BuffType.spdUpL.buffId, 2⟩ } hdest
    exact ⟨_, hhit, hself .spdUpL (by decide)⟩
  · exact ⟨_, rfl, hself .atkUpL (by decide)⟩

theorem neverHurts_iff (h : Exposed battle type draw) :
    NeverHurts battle type skillName draw ↔ skillName ∉ amplifiedSkills := by
  refine ⟨fun hnever hmem => ?_, neverHurts_of_notMem⟩
  obtain ⟨plain, hplain, hself⟩ := useSkillByName_amplified draw hmem h.target
  refine not_noWorse h hself (hnever h.taken plain _ hplain ?_)
  rw [HighHpPkm.attack, hplain, Option.map_some, if_pos h.taken]

/-! ## SwordsDance -/

/-- A battle between Pokemon of the first level. -/
def exactBattle : BattleField :=
  newBattleField 2 0 (some 1) (firstLevelPokemon "a") (firstLevelPokemon "b") .expBattle

theorem exposed_exactBattle : Exposed exactBattle .aToB 256 := by
  constructor <;> decide

/-- For every user, target and draw, the amplification is no worse than the skill alone, unless the skill
is one whose buff is amplified. From properties of four on, such a skill is worse at once. -/
theorem amplification_never_hurts (skillName : QString) :
    ((∀ battle type draw, NeverHurts battle type skillName draw) ↔ skillName ∉ amplifiedSkills) ∧
      ∀ battle type draw, Exposed battle type draw →
        (NeverHurts battle type skillName draw ↔ skillName ∉ amplifiedSkills) := by
  refine ⟨⟨fun h => ?_, fun h _ _ _ => neverHurts_of_notMem h⟩, fun _ _ _ => neverHurts_iff⟩
  exact (neverHurts_iff exposed_exactBattle).mp (h exactBattle .aToB 256)

/-- SwordsDance would raise the ATK from 6 to 7 for three turns; amplified, it leaves the ATK. -/
theorem swordsDance_hurts :
    ¬ NeverHurts exactBattle .aToB "SwordsDance" 256 ∧
      ((exactBattle.after (.handleResult ⟨⟨3, 3⟩, {}, 0, 0⟩ .aToB)).attacker .aToB).curATK = 7 ∧
      ((exactBattle.after (.handleResult ⟨⟨4, 4⟩, {}, 0, 0⟩ .aToB)).attacker .aToB).curATK = 6 := by
  refine ⟨fun hnever => ?_, by decide, by decide⟩
  have hno := hnever (by decide) ⟨⟨3, 3⟩, {}, 0, 0⟩ ⟨⟨4, 4⟩, {}, 0, 0⟩ rfl rfl
  exact absurd hno.atOnce.curATK (by decide)

end TermCollection.Pokemon
