import TermCollection.Pokemon.Lemmas.Users
import TermCollection.Pokemon.Tables

/-!
# What the statements do to single rows

The laws that the database keeps for a row with a given ID: the IDs are primary keys, and a new row gets
an ID that no row of its table has.
-/

namespace TermCollection.Pokemon

variable {δ : Type} {st : Storage δ} {db db' : δ} {name dest : QString} {id : Int} {row : PokemonRow}

/-- The user and the ID of a Pokemon. -/
structure Place where
  user : QString
  id : Int
  deriving DecidableEq

namespace Storage

/-- The row that `CreatePokemon` reads. -/
def rowAt (st : Storage δ) (db : δ) (place : Place) : Option PokemonRow :=
  (st.selectPokemon db place.user place.id).getLast?

/-- The ID of a row that has come to a table. -/
def newId (st : Storage δ) (db db' : δ) (name : QString) : Option Int :=
  (st.selectPokemonIds db' name).find? (· ∉ st.selectPokemonIds db name)

/-- No row is changed or lost. -/
def Keeps (st : Storage δ) (db db' : δ) : Prop :=
  ∀ place row, st.rowAt db place = some row → st.rowAt db' place = some row

theorem Keeps.refl (st : Storage δ) (db : δ) : st.Keeps db db := fun _ _ h => h

theorem Keeps.trans {db₁ : δ} (h : st.Keeps db db₁) (h' : st.Keeps db₁ db') : st.Keeps db db' :=
  fun place row hrow => h' place row (h place row hrow)

end Storage

structure LawfulStorage (st : Storage δ) : Prop where
  ids : ∀ db name id row, st.rowAt db ⟨name, id⟩ = some row → id ∈ st.selectPokemonIds db name
  update : ∀ db name new row, st.rowAt db ⟨name, new.PKM_ID⟩ = some row →
    st.rowAt (st.updatePokemon db name new) ⟨name, new.PKM_ID⟩ =
      some { new with PKM_TYPEID := row.PKM_TYPEID }
  update_other : ∀ db name new place, place ≠ ⟨name, new.PKM_ID⟩ →
    st.rowAt (st.updatePokemon db name new) place = st.rowAt db place
  battleTimes : ∀ db name won, st.Keeps db (st.updateBattleTimes db name won)
  insert_keeps : ∀ db name typeId, st.Keeps db (st.insertPokemon db name typeId)
  copy_keeps : ∀ db fromUser destUser id, st.Keeps db (st.copyPokemon db fromUser destUser id)
  copy_new : ∀ db fromUser destUser id row newId, st.rowAt db ⟨fromUser, id⟩ = some row →
    st.newId db (st.copyPokemon db fromUser destUser id) destUser = some newId →
    st.rowAt (st.copyPokemon db fromUser destUser id) ⟨destUser, newId⟩ =
      some { row with PKM_ID := newId }
  delete_other : ∀ db name id place, place ≠ ⟨name, id⟩ →
    st.rowAt (st.deletePokemon db name id) place = st.rowAt db place

/-! ## Tables with keys -/

structure UserTable.Keyed (table : UserTable) : Prop where
  nodup : (table.rows.map (·.PKM_ID)).Nodup
  fresh : ∀ row ∈ table.rows, row.PKM_ID < table.nextId

namespace Tables

variable {db : Tables} {f : UserTable → UserTable}

def Keyed (db : Tables) : Prop := ∀ table ∈ db.users, table.Keyed

theorem Keyed.modifyTable (h : db.Keyed) (hf : ∀ table : UserTable, table.Keyed → (f table).Keyed) :
    (db.modifyTable name f).Keyed := by
  intro table htable
  obtain ⟨old, hold, rfl⟩ := List.mem_map.mp htable
  split
  · exact hf old (h old hold)
  · exact h old hold

theorem keyed_append {table : UserTable} (h : table.Keyed) (row : PokemonRow) :
    UserTable.Keyed { table with
      nextId := table.nextId + 1
      rows := table.rows ++ [{ row with PKM_ID := table.nextId }] } := by
  refine ⟨?_, ?_⟩
  · rw [List.map_append]
    refine h.nodup.append (List.nodup_singleton _) ?_
    intro id hold hnew
    obtain ⟨old, hmem, rfl⟩ := List.mem_map.mp hold
    exact Int.ne_of_lt (h.fresh old hmem) (List.mem_singleton.mp hnew)
  · intro other hother
    rcases List.mem_append.mp hother with hold | hnew
    · exact Int.lt_trans (h.fresh other hold) (Int.lt_add_one_of_le (Int.le_refl _))
    · rw [List.mem_singleton.mp hnew]
      exact Int.lt_add_one_of_le (Int.le_refl _)

theorem Keyed.insertRow (h : db.Keyed) (row : PokemonRow) : (db.insertRow name row).Keyed :=
  h.modifyTable fun _ htable => keyed_append htable row

theorem Keyed.insertRows (h : db.Keyed) (rows : List PokemonRow) :
    (rows.foldl (·.insertRow name ·) db).Keyed := by
  induction rows generalizing db with
  | nil => exact h
  | cons row rows ih => exact ih (h.insertRow row)

theorem Keyed.mapRows (h : db.Keyed) {g : PokemonRow → PokemonRow} (hg : ∀ row, (g row).PKM_ID = row.PKM_ID) :
    (db.modifyTable name fun table => { table with rows := table.rows.map g }).Keyed := by
  refine h.modifyTable fun table htable => ⟨?_, ?_⟩
  · have hids : (table.rows.map g).map (·.PKM_ID) = table.rows.map (·.PKM_ID) := by
      rw [List.map_map]
      exact List.map_congr_left fun row _ => hg row
    rw [hids]
    exact htable.nodup
  · intro row hrow
    obtain ⟨old, hold, rfl⟩ := List.mem_map.mp hrow
    rw [hg]
    exact htable.fresh old hold

theorem Keyed.filterRows (h : db.Keyed) (keep : PokemonRow → Bool) :
    (db.modifyTable name fun table => { table with rows := table.rows.filter keep }).Keyed :=
  h.modifyTable fun _ htable => ⟨htable.nodup.sublist ((List.filter_sublist).map _),
    fun row hrow => htable.fresh row (List.mem_of_mem_filter hrow)⟩

end Tables

/-- A database whose IDs are keys. -/
structure KeyedTables where
  tables : Tables
  keyed : tables.Keyed

def keyedStorage : Storage KeyedTables where
  selectPassword := fun db => tablesStorage.selectPassword db.tables
  selectPokemon := fun db => tablesStorage.selectPokemon db.tables
  selectPokemonIds := fun db => tablesStorage.selectPokemonIds db.tables
  countPokemon := fun db => tablesStorage.countPokemon db.tables
  selectInfo := fun db => tablesStorage.selectInfo db.tables
  selectInfoIds := fun db => tablesStorage.selectInfoIds db.tables
  selectSkill := fun db => tablesStorage.selectSkill db.tables
  updatePokemon := fun db name new =>
    ⟨tablesStorage.updatePokemon db.tables name new, db.keyed.mapRows fun row => by split <;> simp [*]⟩
  updateBattleTimes := fun db name won => ⟨tablesStorage.updateBattleTimes db.tables name won, db.keyed⟩
  insertPokemon := fun db name typeId =>
    ⟨tablesStorage.insertPokemon db.tables name typeId, db.keyed.insertRow _⟩
  copyPokemon := fun db fromUser destUser id =>
    ⟨tablesStorage.copyPokemon db.tables fromUser destUser id, db.keyed.insertRows _⟩
  deletePokemon := fun db name id =>
    ⟨tablesStorage.deletePokemon db.tables name id, db.keyed.filterRows _⟩

/-! ## The laws of tables with keys -/

namespace Tables

variable {db : Tables} {f : UserTable → UserTable} {place : Place}

theorem find_modifyTable (db : Tables) (name user : QString) (f : UserTable → UserTable)
    (hf : ∀ table, (f table).name = table.name) :
    (db.modifyTable name f).users.find? (·.name = user) =
      (db.users.find? (·.name = user)).map fun table => if user = name then f table else table := by
  have hkey : ((fun table : UserTable => decide (table.name = user)) ∘
      fun table => if table.name = name then f table else table) = fun table => decide (table.name = user) := by
    funext table
    rw [Function.comp_apply]
    split
    · rw [hf]
    · rfl
  rw [modifyTable, List.find?_map, hkey]
  cases hfind : db.users.find? (·.name = user) with
  | none => rfl
  | some table =>
      have hname := List.find?_some hfind
      rw [decide_eq_true_eq] at hname
      rw [Option.map_some, Option.map_some, hname]

/-- A table with another name does not change. -/
theorem userRows_other (db : Tables) (f : UserTable → UserTable) (hf : ∀ table, (f table).name = table.name)
    {user : QString} (h : user ≠ name) : (db.modifyTable name f).userRows user = db.userRows user := by
  rw [userRows, find_modifyTable db name user f hf, userRows]
  simp only [if_neg h, Option.map_id']

/-- A function on the rows of a table. -/
theorem userRows_rows (db : Tables) (name : QString) {g : List PokemonRow → List PokemonRow}
    (hg : g [] = []) :
    (db.modifyTable name fun table => { table with rows := g table.rows }).userRows name =
      g (db.userRows name) := by
  rw [userRows, find_modifyTable, userRows]
  · cases db.users.find? (·.name = name) with
    | none => exact hg.symm
    | some table => simp
  · intro table
    rfl

theorem userRows_insertRow (db : Tables) (name : QString) (row : PokemonRow) :
    (db.insertRow name row).userRows name = db.userRows name ∨
      ∃ nextId, (db.insertRow name row).userRows name =
        db.userRows name ++ [{ row with PKM_ID := nextId }] := by
  rw [userRows, insertRow, find_modifyTable, userRows]
  · cases db.users.find? (·.name = name) with
    | none => exact .inl rfl
    | some table => exact .inr ⟨table.nextId, by simp⟩
  · intro table
    rfl

theorem Keyed.userRows_nodup (h : db.Keyed) (name : QString) :
    ((db.userRows name).map (·.PKM_ID)).Nodup := by
  unfold userRows
  cases hfind : db.users.find? (·.name = name) with
  | none => exact List.nodup_nil
  | some table => exact (h table (List.mem_of_find?_eq_some hfind)).nodup

theorem Keyed.rowAt_iff (h : db.Keyed) :
    tablesStorage.rowAt db place = some row ↔ row ∈ db.userRows place.user ∧ row.PKM_ID = place.id := by
  have hselect : tablesStorage.rowAt db place =
      ((db.userRows place.user).filter (·.PKM_ID = place.id)).getLast? := rfl
  rw [hselect]
  constructor
  · intro hlast
    have hmem := List.mem_filter.mp (List.mem_of_getLast? hlast)
    exact ⟨hmem.1, of_decide_eq_true hmem.2⟩
  · rintro ⟨hmem, hid⟩
    have hone := filter_of_mem (h.userRows_nodup place.user) hmem
    rw [hid] at hone
    rw [hone]
    rfl

theorem keeps_of_subset {db' : Tables} (h : db.Keyed) (h' : db'.Keyed)
    (hrows : ∀ name, db.userRows name ⊆ db'.userRows name) : tablesStorage.Keeps db db' := by
  intro place row hrow
  obtain ⟨hmem, hid⟩ := h.rowAt_iff.mp hrow
  exact h'.rowAt_iff.mpr ⟨hrows place.user hmem, hid⟩

theorem Keyed.keeps_insertRow (h : db.Keyed) (name : QString) (row : PokemonRow) :
    tablesStorage.Keeps db (db.insertRow name row) := by
  refine keeps_of_subset h (h.insertRow row) fun user => ?_
  by_cases huser : user = name
  · subst huser
    rcases userRows_insertRow db user row with heq | ⟨nextId, heq⟩
    · rw [heq]
      exact List.Subset.refl _
    · rw [heq]
      exact List.subset_append_left _ _
  · rw [Tables.insertRow, userRows_other _ _ ?_ huser]
    · exact List.Subset.refl _
    · intro table
      rfl

theorem Keyed.keeps_insertRows (h : db.Keyed) (name : QString) (rows : List PokemonRow) :
    tablesStorage.Keeps db (rows.foldl (·.insertRow name ·) db) := by
  induction rows generalizing db with
  | nil => exact .refl _ _
  | cons row rows ih => exact (h.keeps_insertRow name row).trans (ih (h.insertRow row))

theorem rowAt_congr {db' : Tables} (h : db.Keyed) (h' : db'.Keyed)
    (hrows : ∀ row : PokemonRow, row.PKM_ID = place.id →
      (row ∈ db'.userRows place.user ↔ row ∈ db.userRows place.user)) :
    tablesStorage.rowAt db' place = tablesStorage.rowAt db place := by
  apply Option.ext
  intro row
  rw [h.rowAt_iff, h'.rowAt_iff]
  exact and_congr_left fun hid => hrows row hid

end Tables

open Tables

theorem keyedStorage_update (db : KeyedTables) (name : QString) (new row : PokemonRow)
    (h : keyedStorage.rowAt db ⟨name, new.PKM_ID⟩ = some row) :
    keyedStorage.rowAt (keyedStorage.updatePokemon db name new) ⟨name, new.PKM_ID⟩ =
      some { new with PKM_TYPEID := row.PKM_TYPEID } := by
  obtain ⟨hmem, hid⟩ := db.keyed.rowAt_iff.mp h
  refine (keyedStorage.updatePokemon db name new).keyed.rowAt_iff.mpr ⟨?_, rfl⟩
  have hrows := userRows_rows db.tables name (g := List.map fun old =>
    if old.PKM_ID = new.PKM_ID then { new with PKM_TYPEID := old.PKM_TYPEID } else old) rfl
  refine hrows.symm ▸ List.mem_map.mpr ⟨row, hmem, ?_⟩
  rw [if_pos hid]

theorem keyedStorage_update_other (db : KeyedTables) (name : QString) (new : PokemonRow) (place : Place)
    (h : place ≠ ⟨name, new.PKM_ID⟩) :
    keyedStorage.rowAt (keyedStorage.updatePokemon db name new) place = keyedStorage.rowAt db place := by
  refine rowAt_congr db.keyed (keyedStorage.updatePokemon db name new).keyed fun row hid => ?_
  by_cases huser : place.user = name
  · have hne : place.id ≠ new.PKM_ID := fun heq => h (by rw [← huser, ← heq])
    have hrows := userRows_rows db.tables name (g := List.map fun old =>
      if old.PKM_ID = new.PKM_ID then { new with PKM_TYPEID := old.PKM_TYPEID } else old) rfl
    rw [huser]
    refine (iff_of_eq (congrArg (row ∈ ·) hrows)).trans (List.mem_map.trans ⟨?_, ?_⟩)
    · rintro ⟨old, hold, rfl⟩
      split at hid
      · exact absurd hid.symm hne
      · rename_i hother
        rwa [if_neg hother]
    · intro hrow
      exact ⟨row, hrow, if_neg (hid ▸ hne)⟩
  · refine iff_of_eq (congrArg (row ∈ ·) (userRows_other db.tables _ ?_ huser))
    intro table
    rfl

theorem keyedStorage_delete_other (db : KeyedTables) (name : QString) (id : Int) (place : Place)
    (h : place ≠ ⟨name, id⟩) :
    keyedStorage.rowAt (keyedStorage.deletePokemon db name id) place = keyedStorage.rowAt db place := by
  refine rowAt_congr db.keyed (keyedStorage.deletePokemon db name id).keyed fun row hid => ?_
  by_cases huser : place.user = name
  · have hne : place.id ≠ id := fun heq => h (by rw [← huser, ← heq])
    have hrows := userRows_rows db.tables name (g := List.filter (·.PKM_ID ≠ id)) rfl
    rw [huser]
    refine (iff_of_eq (congrArg (row ∈ ·) hrows)).trans (List.mem_filter.trans ?_)
    simp [hid, hne]
  · refine iff_of_eq (congrArg (row ∈ ·) (userRows_other db.tables _ ?_ huser))
    intro table
    rfl

theorem keyedStorage_copy_new (db : KeyedTables) (fromUser destUser : QString) (id : Int)
    (row : PokemonRow) (newId : Int) (h : keyedStorage.rowAt db ⟨fromUser, id⟩ = some row)
    (hnew : keyedStorage.newId db (keyedStorage.copyPokemon db fromUser destUser id) destUser =
      some newId) :
    keyedStorage.rowAt (keyedStorage.copyPokemon db fromUser destUser id) ⟨destUser, newId⟩ =
      some { row with PKM_ID := newId } := by
  obtain ⟨hmem, hid⟩ := db.keyed.rowAt_iff.mp h
  have hone := filter_of_mem (db.keyed.userRows_nodup fromUser) hmem
  simp only at hid
  have hcopy : (keyedStorage.copyPokemon db fromUser destUser id).tables =
      db.tables.insertRow destUser row := by
    have hfold : (keyedStorage.copyPokemon db fromUser destUser id).tables =
      ((db.tables.userRows fromUser).filter (·.PKM_ID = id)).foldl (·.insertRow destUser ·) db.tables := rfl
    rw [hfold, ← hid, hone, List.foldl_cons, List.foldl_nil]
  have hfound := List.find?_some hnew
  have hids : newId ∈ ((db.tables.insertRow destUser row).userRows destUser).map (·.PKM_ID) :=
    hcopy ▸ List.mem_of_find?_eq_some hnew
  have hfresh : newId ∉ (db.tables.userRows destUser).map (·.PKM_ID) := of_decide_eq_true hfound
  refine (keyedStorage.copyPokemon db fromUser destUser id).keyed.rowAt_iff.mpr ⟨?_, rfl⟩
  rw [hcopy]
  rcases userRows_insertRow db.tables destUser row with heq | ⟨nextId, heq⟩
  · exact absurd (heq ▸ hids) hfresh
  · rw [heq, List.map_append, List.mem_append] at hids
    rw [heq, List.mem_singleton.mp (hids.resolve_left hfresh)]
    exact List.mem_append_right _ (List.mem_singleton_self _)

theorem keyedStorage_lawful : LawfulStorage keyedStorage where
  ids := fun db _ _ row h => by
    obtain ⟨hmem, hid⟩ := db.keyed.rowAt_iff.mp h
    exact List.mem_map.mpr ⟨row, hmem, hid⟩
  update := keyedStorage_update
  update_other := keyedStorage_update_other
  battleTimes := fun _ _ _ => .refl _ _
  insert_keeps := fun db name _ => db.keyed.keeps_insertRow name _
  copy_keeps := fun db _ destUser _ => db.keyed.keeps_insertRows destUser _
  copy_new := keyedStorage_copy_new
  delete_other := keyedStorage_delete_other

end TermCollection.Pokemon
