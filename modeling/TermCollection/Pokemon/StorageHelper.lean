import Mathlib.Data.Int.Notation

/-!
# The statements on the database (`StorageHelper.h`)

The database is not part of the repository. A storage says what each statement of the server gives or
does: the rows that `process` is called with in turn, or the database after the statement.
-/

namespace TermCollection.Pokemon

abbrev QString := String

/-- A row of a table `user_<name>`. -/
structure PokemonRow where
  PKM_ID : Int
  PKM_TYPEID : Int
  PKM_LEVEL : Int
  PKM_EXP : Int
  PKM_ATK : Int
  PKM_DEF : Int
  PKM_HP : Int
  PKM_SPD : Int
  deriving DecidableEq

/-- A row of the table `pokemon_info`. -/
structure PokemonInfoRow where
  PKM_ID : Int
  PKM_NAME : QString
  PKM_TYPE : Int
  PKM_ATTR : Int
  ATK_INC : Int
  DEF_INC : Int
  HP_INC : Int
  SPD_INC : Int
  PKM_SKILL_1 : QString
  PKM_SKILL_2 : QString
  PKM_SKILL_3 : QString
  PKM_SKILL_4 : QString
  DESCRIPTION : QString

structure Storage (δ : Type) where
  /-- The passwords of a name in `user_list`. -/
  selectPassword : δ → QString → List QString
  /-- The rows of `user_<name>` with an ID. -/
  selectPokemon : δ → QString → Int → List PokemonRow
  /-- The IDs of all rows of `user_<name>`. -/
  selectPokemonIds : δ → QString → List Int
  /-- The values of `count(*)` of `user_<name>`. -/
  countPokemon : δ → QString → List Int
  /-- The rows of `pokemon_info` with an ID. -/
  selectInfo : δ → Int → List PokemonInfoRow
  /-- The IDs of all rows of `pokemon_info`. -/
  selectInfoIds : δ → List Int
  /-- The alias and the description of a name in `skill_list`. -/
  selectSkill : δ → QString → List (QString × QString)
  /-- The row of `user_<name>` with the ID of the given one is set to it, but for its type. -/
  updatePokemon : δ → QString → PokemonRow → δ
  /-- `TOTAL_BATTLE_TIME` of a name goes up by one, and `WINNER_TIME` too when the flag is set. -/
  updateBattleTimes : δ → QString → Bool → δ
  /-- A row with default values and the given type is added to `user_<name>`. -/
  insertPokemon : δ → QString → Int → δ
  /-- The row of `user_<from>` with an ID is added to `user_<dest>` under a new ID. -/
  copyPokemon : δ → QString → QString → Int → δ
  /-- The row of `user_<name>` with an ID is deleted. -/
  deletePokemon : δ → QString → Int → δ

end TermCollection.Pokemon
