import TermCollection.Pokemon.Database

/-!
# Signing up (`slotUserSignUp`)

A new user gets a table, if there is none with its name, and three Pokemon in it. No user whose name the
database takes for `list` or `_server` can have a table of its own, and one whose name is too long for a
table has none.
-/

namespace TermCollection.Pokemon

variable {naming : Naming} {db db' : Database} {name userName userPsw user : QString} {r : Nat → Nat}

inductive SignUpStatus where
  | success
  | userAlreadyExists
  deriving DecidableEq

namespace Database

/-- The Pokemon of a new user. The draw from an empty list is not defined. -/
def insertStarters (naming : Naming) (userName : QString) (typeIdList : List Int) (r : Nat → Nat)
    (db : Database) : List Nat → Option Database
  | [] => some db
  | i :: is => do
      let typeId ← typeIdList[bounded (r i) typeIdList.length]?
      insertStarters naming userName typeIdList r
        ((databaseStorage naming).insertPokemon db userName typeId) is

def slotUserSignUp (naming : Naming) (db : Database) (userName userPsw : QString) (r : Nat → Nat) :
    Option (Database × SignUpStatus) :=
  let count :=
    (db.tables.user_list.filter fun row => naming.key row.USERNAME = naming.key userName).length
  if count > 0 then some (db, .userAlreadyExists)
  else do
    let db := (db.insertUser naming userName userPsw).createUserTable naming userName
    let db ← insertStarters naming userName ((databaseStorage naming).selectInfoIds db) r db [0, 1, 2]
    some (db, .success)

/-! ## Its statements -/

theorem rows_createUserTable : (db.createUserTable naming userName).rows name = db.rows name := by
  unfold createUserTable
  split
  · rename_i hnew
    have hname : naming.key userName ∉ db.tables.names :=
      fun h => hnew.2 (List.mem_append_right _ (List.mem_map_of_mem h))
    simp only [rows, Tables.userRows, List.find?_append]
    cases hfind : db.tables.users.find? (·.name = name) with
    | some table => rfl
    | none =>
        rw [Option.none_or, List.find?_singleton]
        split <;> rfl
  · rfl

theorem mem_names_createUserTable : name ∈ (db.createUserTable naming userName).tables.names ↔
    name ∈ db.tables.names ∨
      name = naming.key userName ∧ naming.fitsTable userName = true ∧ naming.key userName ≠ "list" := by
  unfold createUserTable
  split
  · rename_i hnew
    obtain ⟨hfits, hname⟩ := hnew
    rw [List.mem_append, not_or, systemTables_iff] at hname
    rw [Tables.names, List.map_append, List.mem_append, List.map_singleton, List.mem_singleton]
    exact or_congr_right (and_iff_left ⟨hfits, hname.1⟩).symm
  · rename_i hold
    refine ⟨.inl, fun h => h.elim id ?_⟩
    rintro ⟨rfl, hfits, hlist⟩
    by_contra hname
    refine hold ⟨hfits, ?_⟩
    rw [List.mem_append, not_or, systemTables_iff]
    refine ⟨hlist, fun hmem => hname ?_⟩
    obtain ⟨name, hmem, heq⟩ := List.mem_map.mp hmem
    rw [userTableName, userTableName, String.append_right_inj] at heq
    exact heq ▸ hmem

theorem mem_accounts_insertUser : name ∈ (db.insertUser naming userName userPsw).accounts naming ↔
    name ∈ db.accounts naming ∨ name = naming.key userName ∧ naming.fitsRow userName userPsw = true := by
  unfold insertUser
  split
  · rename_i hnew
    simp [accounts, hnew.1]
  · rename_i hold
    refine ⟨.inl, fun h => h.elim id ?_⟩
    rintro ⟨rfl, hfits⟩
    by_contra hname
    exact hold ⟨hfits, hname⟩

/-- The tables that are not touched by the creation of another one. -/
theorem lists_createUserTable :
    (db.createUserTable naming userName).tables.user_list = db.tables.user_list ∧
      (db.createUserTable naming userName).tables.skill_list = db.tables.skill_list ∧
      (db.createUserTable naming userName).tables.pokemon_info = db.tables.pokemon_info := by
  unfold createUserTable
  split <;> exact ⟨rfl, rfl, rfl⟩

/-- Some Pokemon come to a stored table, if there is one. -/
structure Gains (db db' : Database) (name : QString) (n : Nat) : Prop where
  user_list : db'.tables.user_list = db.tables.user_list
  skill_list : db'.tables.skill_list = db.tables.skill_list
  pokemon_info : db'.tables.pokemon_info = db.tables.pokemon_info
  names : db'.tables.names = db.tables.names
  others : ∀ other ≠ name, db'.rows other = db.rows other
  rows : ∃ new : List PokemonRow, db'.rows name = db.rows name ++ new ∧
    new.length = (if name ∈ db.tables.names then n else 0) ∧
    ∀ row ∈ new, ∃ typeId ∈ db.typeIds, row = starter typeId row.PKM_ID

theorem gains_insertPokemon (name : QString) {typeId : Int} (h : typeId ∈ db.typeIds) :
    db.Gains (storedStorage.insertPokemon db name typeId) name 1 where
  user_list := rfl
  skill_list := rfl
  pokemon_info := rfl
  names := Tables.names_insertRow
  others := fun other hother => by rw [rows_insert, if_neg fun h => hother h.1, List.append_nil]
  rows := by
    rw [rows_insert]
    by_cases hname : name ∈ db.tables.names
    · refine ⟨_, rfl, ?_, ?_⟩
      · rw [if_pos ⟨rfl, hname⟩, if_pos hname]
        rfl
      · intro row hrow
        rw [if_pos ⟨rfl, hname⟩] at hrow
        rw [List.mem_singleton.mp hrow]
        exact ⟨typeId, h, rfl⟩
    · rw [if_neg fun h => hname h.2, if_neg hname]
      exact ⟨[], rfl, rfl, fun row hrow => by cases hrow⟩

theorem Gains.trans {db₁ : Database} {m n : Nat} (h : db.Gains db₁ name m)
    (h' : db₁.Gains db' name n) : db.Gains db' name (m + n) where
  user_list := h'.user_list.trans h.user_list
  skill_list := h'.skill_list.trans h.skill_list
  pokemon_info := h'.pokemon_info.trans h.pokemon_info
  names := h'.names.trans h.names
  others := fun other hother => (h'.others other hother).trans (h.others other hother)
  rows := by
    obtain ⟨new, hrows, hlength, htypes⟩ := h.rows
    obtain ⟨new', hrows', hlength', htypes'⟩ := h'.rows
    rw [hrows, List.append_assoc] at hrows'
    rw [h.names] at hlength'
    rw [typeIds, h.pokemon_info] at htypes'
    refine ⟨new ++ new', hrows', ?_, fun row hrow => ?_⟩
    · rw [List.length_append, hlength, hlength']
      split <;> rfl
    · rcases List.mem_append.mp hrow with hold | hnew
      · exact htypes row hold
      · exact htypes' row hnew

theorem gains_insertStarters {is : List Nat}
    (h : insertStarters naming userName db.typeIds r db is = some db') :
    db.Gains db' (naming.key userName) is.length := by
  suffices ∀ typeIdList, typeIdList = db.typeIds →
      insertStarters naming userName typeIdList r db is = some db' →
      db.Gains db' (naming.key userName) is.length from this _ rfl h
  clear h
  intro typeIdList htypes h
  induction is generalizing db with
  | nil =>
      cases h
      refine ⟨rfl, rfl, rfl, rfl, fun _ _ => rfl, [], (List.append_nil _).symm, ?_, ?_⟩
      · exact (ite_self 0).symm
      · intro row hrow
        cases hrow
  | cons i is ih =>
      simp only [insertStarters, Option.bind_eq_bind, Option.bind_eq_some_iff] at h
      obtain ⟨typeId, htype, h⟩ := h
      have hfirst := gains_insertPokemon (naming.key userName) (htypes ▸ List.mem_of_getElem? htype)
      have hrest := ih (htypes.trans (congrArg (List.map _) hfirst.pokemon_info.symm)) h
      rw [List.length_cons, Nat.add_comm]
      exact hfirst.trans hrest

theorem insertStarters_isSome (naming : Naming) (userName : QString) (r : Nat → Nat) (db : Database)
    {typeIdList : List Int} (h : typeIdList ≠ []) (is : List Nat) :
    (insertStarters naming userName typeIdList r db is).isSome = true := by
  induction is generalizing db with
  | nil => rfl
  | cons i is ih =>
      have hlt : bounded (r i) typeIdList.length < typeIdList.length :=
        Nat.mod_lt _ (List.length_pos_of_ne_nil h)
      rw [insertStarters, List.getElem?_eq_getElem hlt]
      exact ih _

/-! ## A new user -/

/-- The database with the new user and an empty table. -/
def withUser (naming : Naming) (db : Database) (userName userPsw : QString) : Database :=
  (db.insertUser naming userName userPsw).createUserTable naming userName

theorem slotUserSignUp_eq : slotUserSignUp naming db userName userPsw r =
    if naming.key userName ∈ db.accounts naming then some (db, .userAlreadyExists)
    else (insertStarters naming userName (db.withUser naming userName userPsw).typeIds r
      (db.withUser naming userName userPsw) [0, 1, 2]).map (·, .success) := by
  have hcount : (db.tables.user_list.filter fun row =>
      naming.key row.USERNAME = naming.key userName).length > 0 ↔
        naming.key userName ∈ db.accounts naming := by
    simp [accounts, List.length_pos_iff_exists_mem, List.mem_filter]
  rw [slotUserSignUp, Option.map_eq_bind]
  simp only [hcount]
  rfl

theorem slotUserSignUp_success : slotUserSignUp naming db userName userPsw r = some (db', .success) ↔
    ¬ db.Registered naming userName ∧
      insertStarters naming userName (db.withUser naming userName userPsw).typeIds r
        (db.withUser naming userName userPsw) [0, 1, 2] = some db' := by
  rw [slotUserSignUp_eq, Registered]
  split
  · rename_i hold
    simp [hold]
  · rename_i hnew
    simp [hnew]

theorem user_list_withUser (hnew : ¬ db.Registered naming userName) :
    (db.withUser naming userName userPsw).tables.user_list = db.tables.user_list ++
      if naming.fitsRow userName userPsw = true then [⟨userName, userPsw, 0, 0⟩] else [] := by
  rw [Registered] at hnew
  rw [withUser, lists_createUserTable.1, insertUser]
  by_cases hfits : naming.fitsRow userName userPsw = true
  · rw [if_pos ⟨hfits, hnew⟩, if_pos hfits]
  · rw [if_neg fun h => hfits h.1, if_neg hfits, List.append_nil]

theorem tables_insertUser (name : QString) :
    (db.insertUser naming userName userPsw).tables.skill_list = db.tables.skill_list ∧
      (db.insertUser naming userName userPsw).tables.pokemon_info = db.tables.pokemon_info ∧
      (db.insertUser naming userName userPsw).tables.names = db.tables.names ∧
      (db.insertUser naming userName userPsw).rows name = db.rows name := by
  unfold insertUser
  split <;> exact ⟨rfl, rfl, rfl, rfl⟩

theorem typeIds_withUser : (db.withUser naming userName userPsw).typeIds = db.typeIds := by
  rw [typeIds, withUser, lists_createUserTable.2.2, (tables_insertUser userName).2.1, typeIds]

theorem rows_withUser : (db.withUser naming userName userPsw).rows name = db.rows name :=
  rows_createUserTable.trans (tables_insertUser name).2.2.2

theorem mem_names_withUser : name ∈ (db.withUser naming userName userPsw).tables.names ↔
    name ∈ db.tables.names ∨
      name = naming.key userName ∧ naming.fitsTable userName = true ∧ naming.key userName ≠ "list" := by
  rw [withUser, mem_names_createUserTable, (tables_insertUser userName).2.2.1]

theorem mem_accounts_withUser : name ∈ (db.withUser naming userName userPsw).accounts naming ↔
    name ∈ db.accounts naming ∨ name = naming.key userName ∧ naming.fitsRow userName userPsw = true := by
  rw [accounts, withUser, lists_createUserTable.1]
  exact mem_accounts_insertUser

theorem gains_signUp (h : slotUserSignUp naming db userName userPsw r = some (db', .success)) :
    (db.withUser naming userName userPsw).Gains db' (naming.key userName) 3 :=
  gains_insertStarters (slotUserSignUp_success.mp h).2

/-! ## Isolation -/

/-- The server has a table, and every user but the one whose table would be `user_list`. -/
def Built (naming : Naming) (db : Database) : Prop :=
  ∀ name, name ∈ db.tables.names ↔ name = "_server" ∨ name ∈ db.accounts naming ∧ name ≠ "list"

/-- The new user has three Pokemon, and nothing else has changed but for the row of the user. -/
structure Isolated (naming : Naming) (db db' : Database) (userName userPsw : QString) : Prop where
  starters : (db'.rows (naming.key userName)).length = 3 ∧
    ∀ row ∈ db'.rows (naming.key userName), ∃ typeId ∈ db.typeIds, row = starter typeId row.PKM_ID
  others : ∀ name ≠ naming.key userName, db'.rows name = db.rows name
  server : db'.rows "_server" = db.rows "_server"
  user_list : db'.tables.user_list = db.tables.user_list ++ [⟨userName, userPsw, 0, 0⟩]
  skill_list : db'.tables.skill_list = db.tables.skill_list
  pokemon_info : db'.tables.pokemon_info = db.tables.pokemon_info

/-- The statements that create the user and the table of the user succeed, and the table is a new one. -/
structure OwnTable (naming : Naming) (userName userPsw : QString) : Prop where
  fitsRow : naming.fitsRow userName userPsw = true
  fitsTable : naming.fitsTable userName = true
  ne_list : naming.key userName ≠ "list"
  ne_server : naming.key userName ≠ "_server"

theorem built_serverDatabase (naming : Naming) (skill_list : List SkillRow)
    (pokemon_info : List PokemonInfoRow) : (serverDatabase naming skill_list pokemon_info).Built naming := by
  intro name
  rw [serverDatabase, mem_names_createUserTable, accounts, lists_createUserTable.1, naming.key_server]
  simp [fresh, Tables.names, naming.fits_server]

/-- A sign-up with statements that succeed leaves a built database. -/
theorem built_signUp {status : SignUpStatus} (h : db.Built naming) (hown : OwnTable naming userName userPsw)
    (hsign : slotUserSignUp naming db userName userPsw r = some (db', status)) : db'.Built naming := by
  rw [slotUserSignUp_eq] at hsign
  split at hsign
  · cases hsign
    exact h
  · obtain ⟨_, hstarters, heq⟩ := Option.map_eq_some_iff.mp hsign
    cases heq
    have hgains := gains_insertStarters hstarters
    intro name
    have haccounts : name ∈ db'.accounts naming ↔ name ∈ db.accounts naming ∨ name = naming.key userName := by
      rw [accounts, hgains.user_list]
      refine mem_accounts_withUser.trans (or_congr_right (and_iff_left hown.fitsRow))
    rw [hgains.names, mem_names_withUser, h, haccounts]
    have hlist := hown.ne_list
    have hfits := hown.fitsTable
    grind

/-- An isolated sign-up has made a table for the user, and not that of the server. -/
theorem Isolated.ownTable (hisolated : db.Isolated naming db' userName userPsw) (hbuilt : db.Built naming)
    (hnew : ¬ db.Registered naming userName)
    (h : slotUserSignUp naming db userName userPsw r = some (db', .success)) :
    OwnTable naming userName userPsw := by
  have hgains := gains_signUp h
  obtain ⟨new, hrows, hlength, -⟩ := hgains.rows
  rw [rows_withUser] at hrows
  have hmem : naming.key userName ∈ (db.withUser naming userName userPsw).tables.names := by
    by_contra hnone
    have hold : naming.key userName ∉ db.tables.names := fun h => hnone (mem_names_withUser.mpr (.inl h))
    have hthree := hisolated.starters.1
    rw [hrows, rows_of_not_mem hold, List.nil_append, hlength, if_neg hnone] at hthree
    cases hthree
  rw [if_pos hmem] at hlength
  have hserver : naming.key userName ≠ "_server" := by
    intro hkey
    have hsame := hisolated.server
    rw [← hkey, hrows, List.append_right_eq_self] at hsame
    rw [hsame] at hlength
    cases hlength
  have hcreated := (mem_names_withUser.mp hmem).resolve_left fun hold =>
    ((hbuilt _).mp hold).elim hserver fun hold => hnew hold.1
  refine ⟨?_, hcreated.2.1, hcreated.2.2, hserver⟩
  by_contra hfits
  have hlist := hisolated.user_list
  rw [hgains.user_list, user_list_withUser hnew, if_neg hfits] at hlist
  simp at hlist

theorem OwnTable.isolated (hown : OwnTable naming userName userPsw) (hbuilt : db.Built naming)
    (hnew : ¬ db.Registered naming userName)
    (h : slotUserSignUp naming db userName userPsw r = some (db', .success)) :
    db.Isolated naming db' userName userPsw := by
  have hgains := gains_signUp h
  have hname : naming.key userName ∉ db.tables.names := by
    rw [hbuilt]
    rintro (heq | hold)
    · exact hown.ne_server heq
    · exact hnew hold.1
  have hmem : naming.key userName ∈ (db.withUser naming userName userPsw).tables.names :=
    mem_names_withUser.mpr (.inr ⟨rfl, hown.fitsTable, hown.ne_list⟩)
  obtain ⟨new, hrows, hlength, hstarters⟩ := hgains.rows
  rw [rows_withUser, rows_of_not_mem hname, List.nil_append] at hrows
  rw [if_pos hmem] at hlength
  rw [typeIds_withUser] at hstarters
  exact
    { starters := hrows ▸ ⟨hlength, hstarters⟩
      others := fun other hother => (hgains.others other hother).trans rows_withUser
      server := (hgains.others _ (Ne.symm hown.ne_server)).trans rows_withUser
      user_list := by rw [hgains.user_list, user_list_withUser hnew, if_pos hown.fitsRow]
      skill_list := by
        rw [hgains.skill_list, withUser, lists_createUserTable.2.1, (tables_insertUser userName).1]
      pokemon_info := by
        rw [hgains.pokemon_info, withUser, lists_createUserTable.2.2, (tables_insertUser userName).2.1] }

/-- A sign-up is isolated if and only if the database has a row and a table for the user, and does not take
his name for that of a table of the server. -/
theorem sign_up_isolated (naming : Naming) (db : Database) (userName userPsw : QString) (r : Nat → Nat)
    (hbuilt : db.Built naming) (hnew : ¬ db.Registered naming userName) :
    (∀ db', slotUserSignUp naming db userName userPsw r = some (db', .success) →
      db.Isolated naming db' userName userPsw) ↔
    db.typeIds = [] ∨ OwnTable naming userName userPsw := by
  by_cases htypes : db.typeIds = []
  · refine iff_of_true (fun db' h => ?_) (.inl htypes)
    have hnone := (slotUserSignUp_success.mp h).2
    rw [typeIds_withUser, htypes] at hnone
    cases hnone
  · constructor
    · intro h
      obtain ⟨db', hdb⟩ := Option.isSome_iff_exists.mp
        (insertStarters_isSome naming userName r (db.withUser naming userName userPsw)
          (typeIds_withUser ▸ htypes) [0, 1, 2])
      have hsign := slotUserSignUp_success.mpr ⟨hnew, hdb⟩
      exact .inr ((h db' hsign).ownTable hbuilt hnew hsign)
    · intro h db' hsign
      exact (h.resolve_left htypes).isolated hbuilt hnew hsign

theorem sign_up_isolated_example :
    (newDatabase foldedNaming).Built foldedNaming ∧ ¬ (newDatabase foldedNaming).Registered foldedNaming "A" ∧
      OwnTable foldedNaming "A" "" ∧
      ∀ db', slotUserSignUp foldedNaming (newDatabase foldedNaming) "A" "" id = some (db', .success) →
        (newDatabase foldedNaming).Isolated foldedNaming db' "A" "" := by
  have hbuilt : (newDatabase foldedNaming).Built foldedNaming := built_serverDatabase _ _ _
  have hnew : ¬ (newDatabase foldedNaming).Registered foldedNaming "A" := by
    rw [Registered]
    decide
  have hown : OwnTable foldedNaming "A" "" := ⟨by decide, by decide, by decide, by decide⟩
  exact ⟨hbuilt, hnew, hown, (sign_up_isolated _ _ _ _ _ hbuilt hnew).mpr (.inr hown)⟩

/-- The user `list` has no Pokemon, and those of the user `_server` are those of the server; so it is with
the names in large letters, if they are taken for the same. -/
theorem sign_up_under_names_of_tables :
    (∃ db', slotUserSignUp exactNaming (newDatabase exactNaming) "list" "" id = some (db', .success) ∧
        db'.rows "list" = [] ∧ ¬ (newDatabase exactNaming).Isolated exactNaming db' "list" "") ∧
      (∃ db', slotUserSignUp exactNaming (newDatabase exactNaming) "_server" "" id = some (db', .success) ∧
        db'.rows "_server" = [starter 1 1, starter 1 2, starter 1 3] ∧
          ¬ (newDatabase exactNaming).Isolated exactNaming db' "_server" "") ∧
      (∃ db', slotUserSignUp foldedNaming (newDatabase foldedNaming) "LIST" "" id = some (db', .success) ∧
        ¬ (newDatabase foldedNaming).Isolated foldedNaming db' "LIST" "") ∧
      ∃ db', slotUserSignUp foldedNaming (newDatabase foldedNaming) "_SERVER" "" id = some (db', .success) ∧
        ¬ (newDatabase foldedNaming).Isolated foldedNaming db' "_SERVER" "" := by
  refine ⟨⟨_, rfl, by decide, fun h => ?_⟩, ⟨_, rfl, by decide, fun h => ?_⟩, ⟨_, rfl, fun h => ?_⟩, _, rfl,
    fun h => ?_⟩
  · exact absurd h.starters.1 (by decide)
  · exact absurd h.server (by decide)
  · exact absurd h.starters.1 (by decide)
  · exact absurd h.server (by decide)

end Database

end TermCollection.Pokemon
