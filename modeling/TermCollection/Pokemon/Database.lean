import TermCollection.Pokemon.StorageLaws

/-!
# The database that the server builds (`StorageHelper.cpp`, `createUserTable`)

The name of a table is glued from `user_` and the name of its user. Names are of word characters, which
mean the same in a statement with quotes and without. A statement on a table that is missing or that has
other columns fails, and a statement that fails does nothing. Which names the database takes for the same,
and which are too long for it, depends on its settings.
-/

namespace TermCollection.Pokemon

variable {name user dest : QString} {id : Int} {row : PokemonRow}

/-! ## Single tables -/

namespace Tables

variable {db : Tables}

def names (db : Tables) : List QString := db.users.map (·.name)

/-- The number of the next row of a table. -/
def nextId (db : Tables) (name : QString) : Int :=
  ((db.users.find? (·.name = name)).map (·.nextId)).getD 1

theorem isSome_find_iff : (db.users.find? (·.name = name)).isSome = true ↔ name ∈ db.names := by
  rw [List.find?_isSome, names, List.mem_map]
  constructor
  · rintro ⟨table, htable, hname⟩
    exact ⟨table, htable, of_decide_eq_true hname⟩
  · rintro ⟨table, htable, hname⟩
    exact ⟨table, htable, decide_eq_true hname⟩

theorem find_eq_none (h : name ∉ db.names) : db.users.find? (·.name = name) = none := by
  rwa [← isSome_find_iff, Bool.not_eq_true, Option.isSome_eq_false_iff, Option.isNone_iff_eq_none] at h

theorem userRows_of_not_mem (h : name ∉ db.names) : db.userRows name = [] := by
  rw [userRows, find_eq_none h]
  rfl

theorem names_modifyTable {f : UserTable → UserTable} (hf : ∀ table, (f table).name = table.name) :
    (db.modifyTable name f).names = db.names := by
  rw [names, modifyTable, List.map_map]
  refine List.map_congr_left fun table _ => ?_
  rw [Function.comp_apply]
  split
  · exact hf table
  · rfl

@[simp] theorem names_insertRow : (db.insertRow name row).names = db.names :=
  names_modifyTable fun _ => rfl

theorem names_insertRows (rows : List PokemonRow) :
    (rows.foldl (·.insertRow name ·) db).names = db.names := by
  induction rows generalizing db with
  | nil => rfl
  | cons row rows ih => exact ih.trans names_insertRow

/-- The row comes to the end of its table, if there is one, with the next number. -/
theorem userRows_insertRow_eq : (db.insertRow name row).userRows user = db.userRows user ++
    if user = name ∧ name ∈ db.names then [{ row with PKM_ID := db.nextId name }] else [] := by
  by_cases huser : user = name
  · subst huser
    rw [insertRow, userRows, find_modifyTable]
    · by_cases hname : user ∈ db.names
      · obtain ⟨table, htable⟩ := Option.isSome_iff_exists.mp (isSome_find_iff.mpr hname)
        rw [if_pos ⟨rfl, hname⟩, userRows, nextId, htable]
        simp
      · rw [if_neg fun h => hname h.2, userRows, find_eq_none hname]
        rfl
    · exact fun _ => rfl
  · rw [if_neg fun h => huser h.1, List.append_nil, insertRow, userRows_other _ _ ?_ huser]
    exact fun _ => rfl

theorem nextId_insertRow : (db.insertRow name row).nextId user =
    db.nextId user + if user = name ∧ name ∈ db.names then 1 else 0 := by
  rw [insertRow, nextId, find_modifyTable, nextId]
  · by_cases huser : user = name
    · subst huser
      by_cases hname : user ∈ db.names
      · obtain ⟨table, htable⟩ := Option.isSome_iff_exists.mp (isSome_find_iff.mpr hname)
        rw [if_pos ⟨rfl, hname⟩, htable]
        simp
      · rw [if_neg fun h => hname h.2, find_eq_none hname]
        rfl
    · rw [if_neg fun h => huser h.1, Int.add_zero]
      simp [huser]
  · exact fun _ => rfl

/-- The rows that a statement `DELETE` leaves. -/
theorem userRows_delete : (tablesStorage.deletePokemon db name id).userRows user =
    if user = name then (db.userRows user).filter (·.PKM_ID ≠ id) else db.userRows user := by
  split
  · rename_i huser
    subst huser
    exact userRows_rows db user rfl
  · rename_i huser
    refine userRows_other db _ ?_ huser
    exact fun _ => rfl

theorem names_delete : (tablesStorage.deletePokemon db name id).names = db.names :=
  names_modifyTable fun _ => rfl

theorem nextId_delete : (tablesStorage.deletePokemon db name id).nextId user = db.nextId user := by
  have hfind := find_modifyTable db name user
    (fun table => { table with rows := table.rows.filter (·.PKM_ID ≠ id) }) fun _ => rfl
  refine (congrArg (fun found => (found.map (·.nextId)).getD 1) hfind).trans ?_
  rw [nextId]
  cases db.users.find? (·.name = user) with
  | none => rfl
  | some table =>
      rw [Option.map_some, Option.map_some]
      split <;> rfl

theorem Keyed.lt_nextId (h : db.Keyed) (hrow : row ∈ db.userRows name) : row.PKM_ID < db.nextId name := by
  rw [userRows] at hrow
  rw [nextId]
  cases hfind : db.users.find? (·.name = name) with
  | none =>
      rw [hfind] at hrow
      cases hrow
  | some table =>
      rw [hfind] at hrow
      exact (h table (List.mem_of_find?_eq_some hfind)).fresh row hrow

end Tables

/-! ## Names -/

/-- What a database makes of names. Names with the same key are the same name, and the key is the one that
the table of a user is stored under. The names of the tables that the server starts with are keys. -/
structure Naming where
  key : QString → QString
  /-- The name and the password fit into a row of `user_list`. -/
  fitsRow : QString → QString → Bool
  /-- The name is not too long for a table. -/
  fitsTable : QString → Bool
  key_list : key "list" = "list"
  key_server : key "_server" = "_server"
  fits_server : fitsTable "_server" = true

/-- Names of 128 characters and tables of 64, with large and small letters apart. -/
def exactNaming : Naming where
  key userName := userName
  fitsRow userName userPsw := userName.length ≤ 128 ∧ userPsw.length ≤ 128
  fitsTable userName := userName.length ≤ 59
  key_list := rfl
  key_server := rfl
  fits_server := by decide

/-- Large letters are taken for small ones. -/
def foldedNaming : Naming :=
  { exactNaming with
    key := fun userName => String.ofList (userName.toList.map Char.toLower)
    key_list := by decide
    key_server := by decide }

/-! ## All tables -/

def systemTables : List QString := ["skill_list", "user_list", "pokemon_info"]

def userTableName (name : QString) : QString := "user_" ++ name

/-- A database with the columns that the server gives its tables: no two tables have one name. A table of a
user is stored under the key of his name. -/
structure Database extends KeyedTables where
  nodup : tables.names.Nodup
  apart : ∀ name ∈ tables.names, userTableName name ∉ systemTables

namespace Database

variable {db : Database}

/-- The rows of the table that is stored under a name. -/
def rows (db : Database) (name : QString) : List PokemonRow := db.tables.userRows name

/-- The keys of the names in `user_list`. -/
def accounts (naming : Naming) (db : Database) : List QString :=
  db.tables.user_list.map fun row => naming.key row.USERNAME

def Registered (naming : Naming) (db : Database) (name : QString) : Prop := naming.key name ∈ db.accounts naming

def typeIds (db : Database) : List Int := db.tables.pokemon_info.map (·.PKM_ID)

/-- The same tables with other rows. -/
def alter (db : Database) (new : KeyedTables) (h : new.tables.names = db.tables.names) : Database where
  toKeyedTables := new
  nodup := h ▸ db.nodup
  apart := h ▸ db.apart

/-- The tables `skill_list` and `pokemon_info` are filled by hand. -/
def fresh (skill_list : List SkillRow) (pokemon_info : List PokemonInfoRow) : Database where
  tables := ⟨[], [], pokemon_info, skill_list⟩
  keyed _ h := by cases h
  nodup := List.nodup_nil
  apart _ h := by cases h

/-- `CREATE TABLE IF NOT EXISTS`. -/
def createUserTable (naming : Naming) (db : Database) (userName : QString) : Database :=
  if h : naming.fitsTable userName = true ∧
      userTableName (naming.key userName) ∉ systemTables ++ db.tables.names.map userTableName then
    { tables := { db.tables with users := db.tables.users ++ [⟨naming.key userName, 1, []⟩] }
      keyed := by
        intro table htable
        rcases List.mem_append.mp htable with hold | hnew
        · exact db.keyed table hold
        · rw [List.mem_singleton.mp hnew]
          exact ⟨List.nodup_nil, fun _ hrow => by cases hrow⟩
      nodup := by
        rw [Tables.names, List.map_append, List.map_singleton]
        refine db.nodup.append (List.nodup_singleton _) (List.disjoint_singleton.mpr fun hname => h.2 ?_)
        exact List.mem_append_right _ (List.mem_map_of_mem hname)
      apart := by
        intro name hname
        rw [Tables.names, List.map_append, List.map_singleton] at hname
        rcases List.mem_append.mp hname with hold | hnew
        · exact db.apart name hold
        · rw [List.mem_singleton.mp hnew]
          exact fun hsystem => h.2 (List.mem_append_left _ hsystem) }
  else db

/-- `INSERT INTO user_list`, which refuses a name that is there. -/
def insertUser (naming : Naming) (db : Database) (userName userPsw : QString) : Database :=
  if naming.fitsRow userName userPsw = true ∧ naming.key userName ∉ db.accounts naming then
    { db with tables := { db.tables with
        user_list := db.tables.user_list ++ [⟨userName, userPsw, 0, 0⟩] } }
  else db

end Database

open Database

/-- `QString::toInt` of a name. -/
def nameToInt (name : QString) : Int :=
  let n : Nat := name.toList.foldl (fun n c => 10 * n + (c.toNat - 48)) 0
  if name ≠ "" ∧ name.toList.all Char.isDigit ∧ n < 2 ^ 31 then n else 0

/-- The statements on the tables by the names that they are stored under. The rows of `user_list` can be
counted and read like those of any table; their first column is the name. -/
def storedStorage : Storage Database where
  selectPassword := fun db => keyedStorage.selectPassword db.toKeyedTables
  selectPokemon := fun db => keyedStorage.selectPokemon db.toKeyedTables
  selectPokemonIds := fun db name =>
    if userTableName name = "user_list" then db.tables.user_list.map fun row => nameToInt row.USERNAME
    else keyedStorage.selectPokemonIds db.toKeyedTables name
  countPokemon := fun db name =>
    if userTableName name = "user_list" then [(db.tables.user_list.length : Int)]
    else keyedStorage.countPokemon db.toKeyedTables name
  selectInfo := fun db => keyedStorage.selectInfo db.toKeyedTables
  selectInfoIds := fun db => keyedStorage.selectInfoIds db.toKeyedTables
  selectSkill := fun db => keyedStorage.selectSkill db.toKeyedTables
  updatePokemon := fun db name new =>
    db.alter (keyedStorage.updatePokemon db.toKeyedTables name new)
      (Tables.names_modifyTable fun _ => rfl)
  updateBattleTimes := fun db name won =>
    db.alter (keyedStorage.updateBattleTimes db.toKeyedTables name won) rfl
  insertPokemon := fun db name typeId =>
    db.alter (keyedStorage.insertPokemon db.toKeyedTables name typeId) Tables.names_insertRow
  copyPokemon := fun db fromUser destUser id =>
    db.alter (keyedStorage.copyPokemon db.toKeyedTables fromUser destUser id) (Tables.names_insertRows _)
  deletePokemon := fun db name id =>
    db.alter (keyedStorage.deletePokemon db.toKeyedTables name id) Tables.names_delete

/-- The statements with names as they stand in them. -/
def databaseStorage (naming : Naming) : Storage Database where
  selectPassword db name :=
    (db.tables.user_list.filter fun row => naming.key row.USERNAME = naming.key name).map (·.PASSWORD)
  selectPokemon db name := storedStorage.selectPokemon db (naming.key name)
  selectPokemonIds db name := storedStorage.selectPokemonIds db (naming.key name)
  countPokemon db name := storedStorage.countPokemon db (naming.key name)
  selectInfo := storedStorage.selectInfo
  selectInfoIds := storedStorage.selectInfoIds
  selectSkill db name :=
    (db.tables.skill_list.filter fun row => naming.key row.NAME = naming.key name).map fun row =>
      (row.ALIAS, row.DESCRIPTION)
  updatePokemon db name := storedStorage.updatePokemon db (naming.key name)
  updateBattleTimes db name won :=
    { db with tables := { db.tables with
        user_list := db.tables.user_list.map fun row =>
          if naming.key row.USERNAME = naming.key name then
            { row with
              TOTAL_BATTLE_TIME := row.TOTAL_BATTLE_TIME + 1
              WINNER_TIME := row.WINNER_TIME + if won then 1 else 0 }
          else row } }
  insertPokemon db name := storedStorage.insertPokemon db (naming.key name)
  copyPokemon db fromUser destUser :=
    storedStorage.copyPokemon db (naming.key fromUser) (naming.key destUser)
  deletePokemon db name := storedStorage.deletePokemon db (naming.key name)

/-- The server on the database that it builds. -/
abbrev onDatabase (naming : Naming) (attack : Attack) : Runtime Database := ⟨databaseStorage naming, attack⟩

/-- The database of a new server. -/
def serverDatabase (naming : Naming) (skill_list : List SkillRow) (pokemon_info : List PokemonInfoRow) :
    Database :=
  (fresh skill_list pokemon_info).createUserTable naming "_server"

/-! ## The statements on a stored table -/

namespace Database

variable {db : Database} {fromUser destUser : QString} {typeId : Int}

theorem systemTables_iff : userTableName name ∈ systemTables ↔ name = "list" := by
  have hskill : userTableName name ≠ "skill_list" := by
    intro h
    have hfirst := congrArg (fun s : String => s.toList.head?) h
    simp [userTableName] at hfirst
  have hinfo : userTableName name ≠ "pokemon_info" := by
    intro h
    have hfirst := congrArg (fun s : String => s.toList.head?) h
    simp [userTableName] at hfirst
  have huser : userTableName name = "user_list" ↔ name = "list" :=
    (String.append_right_inj "user_" : "user_" ++ name = "user_" ++ "list" ↔ _)
  simp [systemTables, hskill, hinfo, huser]

/-- The row that a new Pokemon gets by default. -/
def starter (typeId id : Int) : PokemonRow := ⟨id, typeId, 1, 0, 6, 6, 12, 6⟩

theorem rows_insert : (storedStorage.insertPokemon db name typeId).rows user = db.rows user ++
    if user = name ∧ name ∈ db.tables.names then [starter typeId (db.tables.nextId name)] else [] :=
  Tables.userRows_insertRow_eq

theorem rows_delete : (storedStorage.deletePokemon db name id).rows user =
    if user = name then (db.rows user).filter (·.PKM_ID ≠ id) else db.rows user :=
  Tables.userRows_delete

/-- A row with the ID is copied, under the next number of the other table. -/
theorem tables_copy (destUser : QString) (hrow : row ∈ db.rows fromUser) :
    (storedStorage.copyPokemon db fromUser destUser row.PKM_ID).tables =
      db.tables.insertRow destUser row := by
  have hone := filter_of_mem (db.keyed.userRows_nodup fromUser) hrow
  have hfold : (storedStorage.copyPokemon db fromUser destUser row.PKM_ID).tables =
    ((db.tables.userRows fromUser).filter (·.PKM_ID = row.PKM_ID)).foldl (·.insertRow destUser ·)
      db.tables := rfl
  rw [hfold, hone, List.foldl_cons, List.foldl_nil]

/-- Without a row there is no copy. -/
theorem tables_copy_none (destUser : QString) (h : ∀ row ∈ db.rows fromUser, row.PKM_ID ≠ id) :
    (storedStorage.copyPokemon db fromUser destUser id).tables = db.tables := by
  have hnone : (db.tables.userRows fromUser).filter (·.PKM_ID = id) = [] :=
    List.filter_eq_nil_iff.mpr fun row hrow => by simpa using h row hrow
  have hfold : (storedStorage.copyPokemon db fromUser destUser id).tables =
    ((db.tables.userRows fromUser).filter (·.PKM_ID = id)).foldl (·.insertRow destUser ·)
      db.tables := rfl
  rw [hfold, hnone, List.foldl_nil]

theorem rows_of_not_mem (h : name ∉ db.tables.names) : db.rows name = [] :=
  Tables.userRows_of_not_mem h

theorem mem_names (hrow : row ∈ db.rows name) : name ∈ db.tables.names := by
  by_contra h
  rw [rows_of_not_mem h] at hrow
  cases hrow

theorem count_of_mem (hname : name ∈ db.tables.names) :
    storedStorage.countPokemon db name = [((db.rows name).length : Int)] := by
  have hsystem : userTableName name ≠ "user_list" := fun h => db.apart name hname (by simp [h, systemTables])
  obtain ⟨table, htable, rfl⟩ := List.mem_map.mp hname
  have hany : db.tables.users.any (·.name = table.name) = true :=
    List.any_eq_true.mpr ⟨table, htable, decide_eq_true rfl⟩
  refine (if_neg hsystem).trans ?_
  exact if_pos hany

theorem rows_nodup (db : Database) (name : QString) : ((db.rows name).map (·.PKM_ID)).Nodup :=
  db.keyed.userRows_nodup name

/-- What `SELECT *` reads from the table of a user. -/
theorem selectPokemonIds_rows (naming : Naming) (db : Database) (name : QString) :
    let ids := (databaseStorage naming).selectPokemonIds db name
    let owned := (db.rows (naming.key name)).map (·.PKM_ID)
    (ids = owned ∨ owned = []) ∧
      (ids = owned ↔ (userTableName (naming.key name) = "user_list" → db.tables.user_list = [])) := by
  intro ids owned
  by_cases hlist : userTableName (naming.key name) = "user_list"
  case neg =>
    have hsame : ids = owned := if_neg hlist
    exact ⟨.inl hsame, iff_of_true hsame fun h => absurd h hlist⟩
  case pos =>
    have hnone : owned = [] := by
      have hrows : db.rows (naming.key name) = [] := rows_of_not_mem fun hname =>
        db.apart _ hname (by rw [hlist]; decide)
      exact congrArg (List.map _) hrows
    have hids : ids = db.tables.user_list.map fun row => nameToInt row.USERNAME := if_pos hlist
    refine ⟨.inr hnone, ?_⟩
    rw [hnone, hids, List.map_eq_nil_iff]
    exact ⟨fun h _ => h, fun h => h hlist⟩

end Database

/-! ## A small database -/

/-- The database of a new server, with one type. -/
def newDatabase (naming : Naming) : Database := serverDatabase naming [] smallTables.pokemon_info

def addUser (naming : Naming) (db : Database) (name : QString) : Database :=
  (databaseStorage naming).insertPokemon ((db.insertUser naming name "").createUserTable naming name) name 1

/-- Two users with one Pokemon each. -/
def smallDatabase : Database :=
  addUser foldedNaming (addUser foldedNaming
    (serverDatabase foldedNaming smallTables.skill_list smallTables.pokemon_info) "a") "b"

def noAttack : Attack := fun _ _ _ _ => {}

end TermCollection.Pokemon
