import TermCollection.Pokemon.Experience
import TermCollection.Pokemon.HitPoints

/-!
# Levels

An award passes as many levels as it reaches. What a Pokemon has afterwards depends on its total alone, so
that awards can be put together.
-/

namespace TermCollection.Pokemon

variable {δ : Type} {st : Storage δ} {db : δ} {pkm pkm' : PokemonBase} {bonus : Nat → Bool}

namespace PokemonBase

/-! ## The steps of the loop -/

inductive LevelEvent where
  | read (index : Int)
  | levelUp
  deriving DecidableEq

/-- `LEVEL_UP_EXP` at an index, which has to be one of the table. -/
def readLevelUpExp (index : Int) : Option Int := if index < 0 then none else levelUpExp[index.toNat]?

/-- `levelLoop` with what it reads and calls. -/
def levelTrace (st : Storage δ) (db : δ) (bonus : Nat → Bool) :
    Nat → Nat → PokemonBase → Option (PokemonBase × List LevelEvent)
  | 0, _, _ => none
  | fuel + 1, k, pkm =>
      if pkm.level < maxLevel then do
        let index := pkm.level - 1
        let need ← readLevelUpExp index
        if need ≤ pkm.exp then
          let pkm := pkm.levelUp st db (bonus k)
          let spent ← readLevelUpExp (pkm.level - 1)
          let (pkm, events) ← levelTrace st db bonus fuel (k + 1)
            { pkm with exp := pkm.exp - spent, level := pkm.level + 1 }
          some (pkm, .read index :: .levelUp :: .read index :: events)
        else some (pkm, [.read index])
      else some (pkm, [])

/-- `gainExperience` with what its loop reads and calls. -/
def gainTrace (st : Storage δ) (db : δ) (pkm : PokemonBase) (exp : Int) (bonus : Nat → Bool) :
    Option (PokemonBase × List LevelEvent) :=
  if pkm.exp + exp ≤ pkm.exp then some (pkm, [])
  else levelTrace st db bonus 16 0 { pkm with exp := pkm.exp + exp }

/-- A level of the table, with experience that is not negative. -/
structure ValidLevel (pkm : PokemonBase) : Prop where
  one_le : 1 ≤ pkm.level
  le_max : pkm.level ≤ maxLevel
  exp_nonneg : 0 ≤ pkm.exp

/-- No level is left to be reached. -/
structure Settled (pkm : PokemonBase) : Prop extends ValidLevel pkm where
  exp_lt : pkm.level < maxLevel → pkm.exp < levelUpExp.getD (pkm.level - 1).toNat 0

/-- The events of a loop between two levels. -/
structure LevelsGained (pkm pkm' : PokemonBase) (events : List LevelEvent) : Prop where
  reads : ∀ index, .read index ∈ events → 0 ≤ index ∧ index < maxLevel - 1
  levelUps : (events.count .levelUp : Int) = pkm'.level - pkm.level

theorem readLevelUpExp_eq {level : Int} (h₁ : 1 ≤ level) (h₂ : level < maxLevel) :
    readLevelUpExp (level - 1) = some (levelUpExp.getD (level - 1).toNat 0) := by
  have hlt : (level - 1).toNat < levelUpExp.length := by
    have hlength : levelUpExp.length = 14 := rfl
    have hmax : maxLevel = 15 := rfl
    omega
  rw [readLevelUpExp, if_neg (by omega), List.getD_eq_getElem?_getD, List.getElem?_eq_getElem hlt,
    Option.getD_some]

theorem levelLoop_settles (st : Storage δ) (db : δ) (bonus : Nat → Bool) (fuel k : Nat)
    (hvalid : pkm.ValidLevel) (hfuel : maxLevel - pkm.level < fuel) :
    ∃ pkm' events, levelLoop st db bonus fuel k pkm = some pkm' ∧
      levelTrace st db bonus fuel k pkm = some (pkm', events) ∧ pkm'.Settled ∧
      LevelsGained pkm pkm' events := by
  induction fuel generalizing k pkm with
  | zero =>
      have := hvalid.le_max
      omega
  | succ fuel ih =>
      have hone := hvalid.one_le
      have hexp := hvalid.exp_nonneg
      by_cases hmax : pkm.level < maxLevel
      · have hread := readLevelUpExp_eq hone hmax
        by_cases hneed : levelUpExp.getD (pkm.level - 1).toNat 0 ≤ pkm.exp
        · -- one more level
          have hnext : ValidLevel { pkm.levelUp st db (bonus k) with
              exp := pkm.exp - levelUpExp.getD (pkm.level - 1).toNat 0, level := pkm.level + 1 } := by
            constructor <;> simp only <;> omega
          obtain ⟨pkm', events, hloop, htrace, hsettled, hgained⟩ :=
            ih (k + 1) hnext (by simp only; omega)
          refine ⟨pkm', .read (pkm.level - 1) :: .levelUp :: .read (pkm.level - 1) :: events, ?_, ?_,
            hsettled, ?_, ?_⟩
          · rw [levelLoop, if_pos hmax, if_neg (by omega), if_pos hneed]
            exact hloop
          · simp only [levelTrace, if_pos hmax, hread, Option.bind_eq_bind, Option.bind_some, if_pos hneed]
            simp only [levelUp] at htrace ⊢
            rw [hread, Option.bind_some, htrace, Option.bind_some]
          · intro index hmem
            simp only [List.mem_cons, LevelEvent.read.injEq, reduceCtorEq, false_or] at hmem
            rcases hmem with rfl | rfl | hmem
            · omega
            · omega
            · exact hgained.reads index hmem
          · have hups := hgained.levelUps
            simp only [List.count_cons, beq_iff_eq, reduceCtorEq, if_false, if_true] at hups ⊢
            omega
        · refine ⟨pkm, [.read (pkm.level - 1)], ?_, ?_, ⟨hvalid, fun _ => by omega⟩, ?_, ?_⟩
          · rw [levelLoop, if_pos hmax, if_neg (by omega), if_neg hneed]
          · simp only [levelTrace, if_pos hmax, hread, Option.bind_eq_bind, Option.bind_some, if_neg hneed]
          · intro index hmem
            rw [List.mem_singleton, LevelEvent.read.injEq] at hmem
            omega
          · rw [List.count_singleton]
            simp
      · refine ⟨pkm, [], ?_, ?_, ⟨hvalid, fun h => absurd h hmax⟩, ?_, ?_⟩
        · rw [levelLoop, if_neg hmax]
        · rw [levelTrace, if_neg hmax]
        · intro index hmem
          cases hmem
        · simp

/-! ## Settled Pokemon -/

/-- All experience of a level is spent before the next one. -/
theorem take_sum_le {level level' : Int} (h₁ : 1 ≤ level) (h : level < level') (h₂ : level' ≤ maxLevel) :
    (levelUpExp.take (level - 1).toNat).sum + levelUpExp.getD (level - 1).toNat 0 ≤
      (levelUpExp.take (level' - 1).toNat).sum := by
  have htable : ∀ n m : Fin 15, n < m →
      (levelUpExp.take n).sum + levelUpExp.getD n 0 ≤ (levelUpExp.take m).sum := by decide
  have hmax : maxLevel = 15 := rfl
  exact htable ⟨(level - 1).toNat, by omega⟩ ⟨(level' - 1).toNat, by omega⟩ (by
    rw [Fin.mk_lt_mk]
    omega)

theorem Settled.level_le (h : pkm.Settled) (h' : pkm'.Settled) (htotal : pkm.total = pkm'.total) :
    pkm'.level ≤ pkm.level := by
  by_contra hlt
  have hle := h'.le_max
  have hexp := h.exp_lt (by omega)
  have hnonneg := h'.exp_nonneg
  have hsum := take_sum_le h.one_le (Int.not_le.mp hlt) hle
  simp only [total, levelTotal] at htotal
  omega

/-- The total of a settled Pokemon says its level and its experience. -/
theorem Settled.unique (h : pkm.Settled) (h' : pkm'.Settled) (htotal : pkm.total = pkm'.total) :
    pkm.level = pkm'.level ∧ pkm.exp = pkm'.exp := by
  have hlevel : pkm.level = pkm'.level :=
    Int.le_antisymm (h'.level_le h htotal.symm) (h.level_le h' htotal)
  refine ⟨hlevel, ?_⟩
  simp only [total, levelTotal, hlevel] at htotal
  omega

/-! ## Awards -/

/-- What an award makes of a Pokemon. -/
structure Awarded (st : Storage δ) (db : δ) (bonus : Nat → Bool) (exp : Int) (pkm pkm' : PokemonBase)
    (db' : δ) : Prop where
  gain : pkm.gainExperience st db exp bonus = some (pkm', db')
  total : pkm'.total = pkm.total + exp
  settled : pkm'.Settled
  trace : ∃ events, pkm.gainTrace st db exp bonus = some (pkm', events) ∧ LevelsGained pkm pkm' events

theorem awarded (st : Storage δ) (db : δ) (bonus : Nat → Bool) {exp : Int} (hvalid : pkm.ValidLevel) (hexp : 1 ≤ exp) :
    ∃ pkm' db', Awarded st db bonus exp pkm pkm' db' := by
  have hone := hvalid.one_le
  have hnonneg := hvalid.exp_nonneg
  have hguard : ¬ pkm.exp + exp ≤ pkm.exp := by omega
  have hvalid' : ValidLevel { pkm with exp := pkm.exp + exp } :=
    ⟨hone, hvalid.le_max, by simp only; omega⟩
  have hfuel : maxLevel - pkm.level < (16 : Nat) := by
    have hmax : maxLevel = 15 := rfl
    omega
  obtain ⟨pkm', events, hloop, htrace, hsettled, hgained⟩ :=
    levelLoop_settles st db bonus 16 0 hvalid' hfuel
  refine ⟨pkm', st.updatePokemon db pkm'.curUser pkm'.row, ?_, ?_, hsettled, events, ?_,
    hgained.reads, hgained.levelUps⟩
  · rw [gainExperience, if_neg hguard, hloop]
    rfl
  · rw [(levelLoop_total hloop).2]
    simp only [PokemonBase.total, levelTotal]
    omega
  · rw [gainTrace, if_neg hguard, htrace]

/-- Two awards one after the other, and both at once. -/
theorem experience_is_conserved {exp₁ exp₂ : Int} {bonus₁ bonus₂ : Nat → Bool} (h₁ : 1 ≤ pkm.level)
    (h₂ : pkm.level ≤ maxLevel) (hexp : 0 ≤ pkm.exp) (he₁ : 1 ≤ exp₁) (he₂ : 1 ≤ exp₂) :
    ∃ pkm₁ db₁ pkm₂ db₂ pkm₃ db₃, Awarded st db bonus₁ exp₁ pkm pkm₁ db₁ ∧
      Awarded st db₁ bonus₂ exp₂ pkm₁ pkm₂ db₂ ∧ Awarded st db bonus (exp₁ + exp₂) pkm pkm₃ db₃ ∧
      pkm₂.level = pkm₃.level ∧ pkm₂.exp = pkm₃.exp := by
  have hvalid : pkm.ValidLevel := ⟨h₁, h₂, hexp⟩
  obtain ⟨pkm₁, db₁, hfirst⟩ := awarded st db bonus₁ hvalid he₁
  obtain ⟨pkm₂, db₂, hsecond⟩ :=
    awarded st db₁ bonus₂ hfirst.settled.toValidLevel he₂
  obtain ⟨pkm₃, db₃, hboth⟩ :=
    awarded st db bonus hvalid (show 1 ≤ exp₁ + exp₂ by omega)
  have htotal : pkm₂.total = pkm₃.total := by
    rw [hsecond.total, hfirst.total, hboth.total]
    omega
  exact ⟨pkm₁, db₁, pkm₂, db₂, pkm₃, db₃, hfirst, hsecond, hboth,
    hsecond.settled.unique hboth.settled htotal⟩

/-- An award over two levels, and one over four more. -/
theorem experience_is_conserved_example :
    ∃ pkm₁ db₁ pkm₂ db₂ pkm₃ db₃,
      Awarded tablesStorage smallTables (fun _ => true) 4 (firstLevelPokemon "a") pkm₁ db₁ ∧
      Awarded tablesStorage db₁ (fun _ => false) 40 pkm₁ pkm₂ db₂ ∧
      Awarded tablesStorage smallTables (fun _ => false) (4 + 40) (firstLevelPokemon "a") pkm₃ db₃ ∧
      pkm₂.level = pkm₃.level ∧ pkm₂.exp = pkm₃.exp :=
  experience_is_conserved (by decide) (by decide) (by decide) (by decide) (by decide)

end PokemonBase

end TermCollection.Pokemon
