import TermCollection.Pokemon.ServerBackend

/-!
# A database of tables

The statements of the server on lists of rows. A statement on a table that does not exist does nothing.
-/

namespace TermCollection.Pokemon

structure UserRow where
  USERNAME : QString
  PASSWORD : QString
  TOTAL_BATTLE_TIME : Int
  WINNER_TIME : Int

structure SkillRow where
  NAME : QString
  ALIAS : QString
  DESCRIPTION : QString

/-- A table `user_<name>` with the value of its AUTO_INCREMENT. -/
structure UserTable where
  name : QString
  nextId : Int
  rows : List PokemonRow

structure Tables where
  user_list : List UserRow
  users : List UserTable
  pokemon_info : List PokemonInfoRow
  skill_list : List SkillRow

namespace Tables

def userRows (db : Tables) (name : QString) : List PokemonRow :=
  ((db.users.find? (·.name = name)).map (·.rows)).getD []

def modifyTable (db : Tables) (name : QString) (f : UserTable → UserTable) : Tables :=
  { db with users := db.users.map fun table => if table.name = name then f table else table }

def insertRow (db : Tables) (name : QString) (row : PokemonRow) : Tables :=
  db.modifyTable name fun table =>
    { table with
      nextId := table.nextId + 1
      rows := table.rows ++ [{ row with PKM_ID := table.nextId }] }

end Tables

open Tables in
def tablesStorage : Storage Tables where
  selectPassword := fun db name =>
    (db.user_list.filter (·.USERNAME = name)).map (·.PASSWORD)
  selectPokemon := fun db name id => (db.userRows name).filter (·.PKM_ID = id)
  selectPokemonIds := fun db name => (db.userRows name).map (·.PKM_ID)
  countPokemon := fun db name =>
    if db.users.any (·.name = name) then [((db.userRows name).length : Int)] else []
  selectInfo := fun db id => db.pokemon_info.filter (·.PKM_ID = id)
  selectInfoIds := fun db => db.pokemon_info.map (·.PKM_ID)
  selectSkill := fun db name =>
    (db.skill_list.filter (·.NAME = name)).map fun row => (row.ALIAS, row.DESCRIPTION)
  updatePokemon := fun db name new => db.modifyTable name fun table =>
    { table with rows := table.rows.map fun row =>
        if row.PKM_ID = new.PKM_ID then { new with PKM_TYPEID := row.PKM_TYPEID } else row }
  updateBattleTimes := fun db name won =>
    { db with user_list := db.user_list.map fun row =>
        if row.USERNAME = name then
          { row with
            TOTAL_BATTLE_TIME := row.TOTAL_BATTLE_TIME + 1
            WINNER_TIME := row.WINNER_TIME + if won then 1 else 0 }
        else row }
  insertPokemon := fun db name typeId => db.insertRow name ⟨0, typeId, 1, 0, 6, 6, 12, 6⟩
  copyPokemon := fun db fromUser destUser id =>
    ((db.userRows fromUser).filter (·.PKM_ID = id)).foldl (·.insertRow destUser ·) db
  deletePokemon := fun db name id => db.modifyTable name fun table =>
    { table with rows := table.rows.filter (·.PKM_ID ≠ id) }

/-! ## A small database -/

def newTable (name : QString) : UserTable := ⟨name, 2, [⟨1, 1, 1, 0, 6, 6, 12, 6⟩]⟩

/-- Three users with one Pokemon each, and one of the server. -/
def smallTables : Tables where
  user_list := [⟨"a", "", 0, 0⟩, ⟨"b", "", 0, 0⟩, ⟨"c", "", 0, 0⟩]
  users := [newTable "a", newTable "b", newTable "c", newTable "_server"]
  pokemon_info := [⟨1, "", 0, 0, 1, 1, 1, 1, "s", "s", "s", "s", ""⟩]
  skill_list := [⟨"s", "", ""⟩]

def smallRuntime : Runtime Tables := ⟨tablesStorage, fun _ _ _ _ => {}⟩

def noTurnChance : TurnChance := ⟨fun _ => 0, fun _ => false, fun _ => 0, 0⟩

def noChance : Chance := ⟨fun _ => 0, fun _ => noTurnChance, fun _ => noTurnChance, ⟨0, 0⟩, 0⟩

def login (client : Nat) (userName : QString) : Event :=
  .message client (.userLogin userName "") noChance

/-- An invitation to a duel, of the first Pokemon of the user. -/
def invite (client : Nat) (fromUser destUser : QString) : Event :=
  .message client (.battleInvite .duelBattle fromUser 1 destUser 1) noChance

def accept (client : Nat) (fromUser destUser : QString) : Event :=
  .message client (.battleInviteResponse .duelBattle fromUser destUser 1 .success) noChance

end TermCollection.Pokemon
