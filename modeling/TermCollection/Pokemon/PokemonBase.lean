import TermCollection.Lib.Double
import TermCollection.Pokemon.StorageHelper

/-!
# Pokemon (`PokemonBase.h`, `PokemonBase.cpp`, `VariousPokemon.cpp`, `PokemonFactory.h`)
-/

namespace TermCollection.Pokemon

variable {δ : Type}

/-! ## Data types -/

inductive BuffType where
  | atkUpS | atkUpM | atkUpL | defUpS | defUpM | defUpL | spdUpS | spdUpM | spdUpL
  | atkDownS | atkDownM | atkDownL | defDownS | defDownM | defDownL | spdDownS | spdDownM | spdDownL
  | revive | poisoning | damageHalf | damageInvalid | skillDamageUp | skillDamageDouble
  | slient | sleeping | palsying
  deriving DecidableEq

/-- The type of a buff with an ID; the IDs start with 1. -/
def buffType (buffId : Int) : Option BuffType :=
  if buffId < 1 then none
  else [.atkUpS, .atkUpM, .atkUpL, .defUpS, .defUpM, .defUpL, .spdUpS, .spdUpM, .spdUpL,
    .atkDownS, .atkDownM, .atkDownL, .defDownS, .defDownM, .defDownL, .spdDownS, .spdDownM, .spdDownL,
    .revive, .poisoning, .damageHalf, .damageInvalid, .skillDamageUp, .skillDamageDouble,
    .slient, .sleeping, .palsying][(buffId - 1).toNat]?

structure Buff where
  buffId : Int := 0
  turnCnt : Int := 0
  deriving DecidableEq

structure AttackResult where
  selfBuf : Buff := {}
  destBuf : Buff := {}
  selfDeltaHp : Int := 0
  destDeltaHp : Int := 0
  deriving DecidableEq

inductive PokemonType where
  | highAttack
  | highHitpoint
  | highDefense
  | highSpeed
  deriving DecidableEq

structure PokemonBase where
  name : QString
  curUser : QString
  desc : QString
  id : Int
  level : Int
  exp : Int
  typeID : Int
  ATK : Int
  curATK : Int
  HP : Int
  curHP : Int
  DEF : Int
  curDEF : Int
  SPD : Int
  curSPD : Int
  pkmType : PokemonType
  pkmAttr : Int
  skills : List QString
  deriving DecidableEq

def maxLevel : Int := 15

def levelUpExp : List Int := [1, 2, 3, 5, 7, 11, 17, 25, 31, 39, 48, 61, 76, 83]

namespace PokemonBase

def getSkill (pkm : PokemonBase) (slot : Int) : QString :=
  if slot < 4 ∧ 0 ≤ slot then pkm.skills.getD slot.toNat "" else ""

/-! ## Experience -/

/-- `levelUp` of the four types: `bonus` is the outcome of `JUDGE_OZ`. -/
def levelUp (st : Storage δ) (db : δ) (pkm : PokemonBase) (bonus : Bool) : PokemonBase :=
  let inc := (st.selectInfo db pkm.typeID).getLast?
  let extra := fun type : PokemonType => if bonus ∧ pkm.pkmType = type then 1 else 0
  { pkm with
    ATK := pkm.ATK + ((inc.map (·.ATK_INC)).getD 0 + extra .highAttack)
    DEF := pkm.DEF + ((inc.map (·.DEF_INC)).getD 0 + extra .highDefense)
    SPD := pkm.SPD + ((inc.map (·.SPD_INC)).getD 0 + extra .highSpeed)
    HP := pkm.HP + ((inc.map (·.HP_INC)).getD 0 + extra .highHitpoint) }

/-- The loop of `gainExperience`. There is no entry of the table for a level below 1. -/
def levelLoop (st : Storage δ) (db : δ) (bonus : Nat → Bool) :
    Nat → Nat → PokemonBase → Option PokemonBase
  | 0, _, _ => none
  | fuel + 1, k, pkm =>
      if pkm.level < maxLevel then
        if pkm.level < 1 then none
        else
          let need := levelUpExp.getD (pkm.level - 1).toNat 0
          if need ≤ pkm.exp then
            let pkm := pkm.levelUp st db (bonus k)
            levelLoop st db bonus fuel (k + 1)
              { pkm with exp := pkm.exp - need, level := pkm.level + 1 }
          else some pkm
      else some pkm

def row (pkm : PokemonBase) : PokemonRow where
  PKM_ID := pkm.id
  PKM_TYPEID := pkm.typeID
  PKM_LEVEL := pkm.level
  PKM_EXP := pkm.exp
  PKM_ATK := pkm.ATK
  PKM_DEF := pkm.DEF
  PKM_HP := pkm.HP
  PKM_SPD := pkm.SPD

def gainExperience (st : Storage δ) (db : δ) (pkm : PokemonBase) (exp : Int) (bonus : Nat → Bool) :
    Option (PokemonBase × δ) :=
  if pkm.exp + exp ≤ pkm.exp then some (pkm, db)
  else do
    let pkm ← levelLoop st db bonus 16 0 { pkm with exp := pkm.exp + exp }
    some (pkm, st.updatePokemon db pkm.curUser pkm.row)

end PokemonBase

/-! ## The factory -/

def pokemonType (type : Int) : Option PokemonType :=
  if type = 0 then some .highAttack
  else if type = 1 then some .highHitpoint
  else if type = 2 then some .highDefense
  else if type = 3 then some .highSpeed
  else none

/-- The Pokemon of a user with an ID. `set_desc` is called before the pointer is compared with NULL, so
that a type that does not exist has no defined result. -/
def createPokemon (st : Storage δ) (db : δ) (userName : QString) (id : Int) : Option PokemonBase := do
  let row := (st.selectPokemon db userName id).getLast?
  let typeId := (row.map (·.PKM_TYPEID)).getD 0
  let info := (st.selectInfo db typeId).getLast?
  let type ← pokemonType ((info.map (·.PKM_TYPE)).getD (-1))
  some {
    name := (info.map (·.PKM_NAME)).getD ""
    curUser := userName
    desc := (info.map (·.DESCRIPTION)).getD ""
    id := id
    level := (row.map (·.PKM_LEVEL)).getD 0
    exp := (row.map (·.PKM_EXP)).getD 0
    typeID := typeId
    ATK := (row.map (·.PKM_ATK)).getD 0
    curATK := 0
    HP := (row.map (·.PKM_HP)).getD 0
    curHP := 0
    DEF := (row.map (·.PKM_DEF)).getD 0
    curDEF := 0
    SPD := (row.map (·.PKM_SPD)).getD 0
    curSPD := 0
    pkmType := type
    pkmAttr := (info.map (·.PKM_ATTR)).getD 0
    skills := [(info.map (·.PKM_SKILL_1)).getD "", (info.map (·.PKM_SKILL_2)).getD "",
      (info.map (·.PKM_SKILL_3)).getD "", (info.map (·.PKM_SKILL_4)).getD ""] }

end TermCollection.Pokemon
