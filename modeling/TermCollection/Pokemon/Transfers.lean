import TermCollection.Pokemon.Database

/-!
# Transfers with statements that fail

A transfer copies a row and deletes it, in two statements whose errors nobody looks at, and the answer
says that it has succeeded. A Pokemon is lost or doubled when one of the two fails.
-/

namespace TermCollection.Pokemon

/-! ## Statements that fail -/

/-- Which statements of a transfer succeed. -/
structure Outcomes where
  copied : Bool
  deleted : Bool
  counted : Bool
  selected : Bool
  inserted : Bool

/-- A statement that fails changes nothing and has no rows. -/
def Storage.withOutcomes {δ : Type} (st : Storage δ) (ok : Outcomes) : Storage δ :=
  { st with
    copyPokemon := fun db fromUser destUser id =>
      if ok.copied then st.copyPokemon db fromUser destUser id else db
    deletePokemon := fun db name id => if ok.deleted then st.deletePokemon db name id else db
    countPokemon := fun db name => if ok.counted then st.countPokemon db name else []
    selectInfoIds := fun db => if ok.selected then st.selectInfoIds db else []
    insertPokemon := fun db name typeId => if ok.inserted then st.insertPokemon db name typeId else db }

variable {db db' : Database} {fromUser destUser user : QString} {pkmId : Int} {row : PokemonRow}
variable {naming : Naming} {ok : Outcomes} {attack : Attack} {r : Nat}

def databaseRuntime (naming : Naming) (attack : Attack) (ok : Outcomes) : Runtime Database :=
  ⟨(databaseStorage naming).withOutcomes ok, attack⟩

/-! ## All or nothing -/

namespace Database

/-- The rows without a Pokemon of one user, and with a copy of it, under a new ID, for another. -/
def movedRows (db : Database) (fromUser destUser : QString) (row : PokemonRow) (newId : Int)
    (user : QString) : List PokemonRow :=
  (if user = fromUser then (db.rows user).filter (·.PKM_ID ≠ row.PKM_ID) else db.rows user) ++
    if user = destUser then [{ row with PKM_ID := newId }] else []

/-- A Pokemon has moved. A user without any other may have been given a new one. -/
structure Moved (db db' : Database) (fromUser destUser : QString) (row : PokemonRow) (newId : Int) :
    Prop where
  gone : ∀ other ∈ db'.rows fromUser, other.PKM_ID ≠ row.PKM_ID
  others : ∀ user ≠ fromUser, db'.rows user = db.movedRows fromUser destUser row newId user
  giver : db'.rows fromUser = db.movedRows fromUser destUser row newId fromUser ∨
    db.movedRows fromUser destUser row newId fromUser = [] ∧
      ∃ typeId ∈ db.typeIds, ∃ id, db'.rows fromUser = [starter typeId id]

def Transferred (db db' : Database) (fromUser destUser : QString) (pkmId : Int) : Prop :=
  ∃ row ∈ db.rows fromUser, row.PKM_ID = pkmId ∧ ∃ newId, db.Moved db' fromUser destUser row newId

def Untouched (db db' : Database) : Prop := ∀ user, db'.rows user = db.rows user

/-- The transfer is done or not done, and it is done when the answer says so. -/
def AllOrNothing (naming : Naming) (attack : Attack) (ok : Outcomes) (s : ServerBackend Database)
    (client : Nat) (fromUser destUser : QString) (pkmId : Int) (r : Nat) : Prop :=
  match s.slotTransferPokemon (databaseRuntime naming attack ok) client fromUser destUser pkmId r with
  | none => False
  | some (s', out) =>
      (Untouched s.db s'.db ∨
          Transferred s.db s'.db (naming.key fromUser) (naming.key destUser) pkmId) ∧
        (⟨client, .transferPokemonResponse⟩ ∈ out →
          Transferred s.db s'.db (naming.key fromUser) (naming.key destUser) pkmId)

/-! ## When a transfer succeeds -/

/-- The type of the Pokemon that a user without one is given. -/
def drawn (db : Database) (ok : Outcomes) (r : Nat) : Option Int :=
  let typeIdList := if ok.selected then db.typeIds else []
  typeIdList[bounded r typeIdList.length]?

/-- The user has no other Pokemon. -/
def Only (db : Database) (user : QString) (row : PokemonRow) : Prop :=
  ∀ other ∈ db.rows user, other.PKM_ID = row.PKM_ID

/-- The two statements succeed on tables that exist. A new Pokemon, for which there has to be a type, is
given to a user without one only. -/
structure Succeeds (db : Database) (ok : Outcomes) (fromUser destUser : QString) (row : PokemonRow)
    (r : Nat) : Prop where
  dest : destUser ∈ db.tables.names
  copied : ok.copied = true
  deleted : ok.deleted = true
  emptied : db.Only fromUser row → fromUser ≠ destUser → (db.drawn ok r).isSome = true
  uncounted : ¬ (db.Only fromUser row ∧ fromUser ≠ destUser) → ok.counted = false →
    (db.drawn ok r).isSome = true ∧ ok.inserted = false

/-- The Pokemon is lost, and the new one is like it. -/
structure Replaced (db : Database) (ok : Outcomes) (fromUser destUser : QString) (row : PokemonRow)
    (r : Nat) : Prop where
  dest : destUser = fromUser
  lost : ok.copied = false
  deleted : ok.deleted = true
  emptied : db.Only fromUser row ∨ ok.counted = false
  inserted : ok.inserted = true
  like : ∃ typeId, db.drawn ok r = some typeId ∧ row = starter typeId row.PKM_ID

/-! ## The first two statements -/

/-- The database after the copy and the deletion. -/
def move (db : Database) (ok : Outcomes) (fromUser destUser : QString) (pkmId : Int) : Database :=
  (storedStorage.withOutcomes ok).deletePokemon
    ((storedStorage.withOutcomes ok).copyPokemon db fromUser destUser pkmId) fromUser pkmId

theorem tables_withOutcomes_copy (hrow : row ∈ db.rows fromUser) :
    ((storedStorage.withOutcomes ok).copyPokemon db fromUser destUser row.PKM_ID).tables =
      if ok.copied then db.tables.insertRow destUser row else db.tables := by
  simp only [Storage.withOutcomes]
  split
  · exact tables_copy destUser hrow
  · rfl

theorem tables_withOutcomes_delete : ((storedStorage.withOutcomes ok).deletePokemon db user pkmId).tables =
    if ok.deleted then tablesStorage.deletePokemon db.tables user pkmId else db.tables := by
  simp only [Storage.withOutcomes]
  split <;> rfl

/-- The copy, if it comes into being. -/
def arriving (db : Database) (ok : Outcomes) (destUser : QString) (row : PokemonRow) : List PokemonRow :=
  if destUser ∈ db.tables.names ∧ ok.copied = true then [{ row with PKM_ID := db.tables.nextId destUser }]
  else []

theorem rows_copied (ok : Outcomes) (destUser user : QString) (hrow : row ∈ db.rows fromUser) :
    ((storedStorage.withOutcomes ok).copyPokemon db fromUser destUser row.PKM_ID).rows user =
      db.rows user ++ if user = destUser then db.arriving ok destUser row else [] := by
  rw [rows, tables_withOutcomes_copy hrow, arriving]
  cases ok.copied with
  | true =>
      rw [if_pos rfl, Tables.userRows_insertRow_eq, ← ite_and]
      simp only [and_true, rows]
  | false => simp [rows]

/-- The new ID of the copy is not the one that is deleted. -/
theorem filter_arriving (hrow : row ∈ db.rows fromUser) :
    (if fromUser = destUser then db.arriving ok destUser row else []).filter (·.PKM_ID ≠ row.PKM_ID) =
      if fromUser = destUser then db.arriving ok destUser row else [] := by
  refine List.filter_eq_self.mpr fun copy hcopy => ?_
  split at hcopy
  · rename_i hdest
    subst hdest
    unfold arriving at hcopy
    split at hcopy
    · rw [List.mem_singleton.mp hcopy]
      have hlt := db.keyed.lt_nextId hrow
      exact decide_eq_true (Int.ne_of_lt hlt).symm
    · cases hcopy
  · cases hcopy

theorem rows_move (hrow : row ∈ db.rows fromUser) :
    (db.move ok fromUser destUser row.PKM_ID).rows user =
      (if user = fromUser ∧ ok.deleted = true then (db.rows user).filter (·.PKM_ID ≠ row.PKM_ID)
        else db.rows user) ++ if user = destUser then db.arriving ok destUser row else [] := by
  have hcopied := rows_copied ok destUser user hrow
  rw [move, rows, tables_withOutcomes_delete]
  by_cases hdeleted : ok.deleted = true
  · rw [if_pos hdeleted, Tables.userRows_delete]
    by_cases huser : user = fromUser
    · subst huser
      rw [if_pos rfl, if_pos ⟨rfl, hdeleted⟩, ← filter_arriving hrow, ← List.filter_append]
      exact congrArg _ hcopied
    · rw [if_neg huser, if_neg fun h => huser h.1]
      exact hcopied
  · rw [if_neg hdeleted, if_neg fun h => hdeleted h.2]
    exact hcopied

theorem names_move (hrow : row ∈ db.rows fromUser) :
    (db.move ok fromUser destUser row.PKM_ID).tables.names = db.tables.names := by
  rw [move, tables_withOutcomes_delete, apply_ite Tables.names, Tables.names_delete, ite_self,
    tables_withOutcomes_copy hrow, apply_ite Tables.names, Tables.names_insertRow, ite_self]

theorem typeIds_move (ok : Outcomes) (destUser : QString) (hrow : row ∈ db.rows fromUser) :
    (db.move ok fromUser destUser row.PKM_ID).typeIds = db.typeIds := by
  have hinfo : (db.move ok fromUser destUser row.PKM_ID).tables.pokemon_info = db.tables.pokemon_info := by
    rw [move, tables_withOutcomes_delete, tables_withOutcomes_copy hrow]
    cases ok.copied <;> cases ok.deleted <;> rfl
  rw [typeIds, hinfo, typeIds]

theorem lt_nextId_move (hrow : row ∈ db.rows fromUser) :
    row.PKM_ID < (db.move ok fromUser destUser row.PKM_ID).tables.nextId fromUser := by
  have hlt := db.keyed.lt_nextId hrow
  rw [move, tables_withOutcomes_delete, apply_ite (Tables.nextId · fromUser), Tables.nextId_delete,
    ite_self, tables_withOutcomes_copy hrow, apply_ite (Tables.nextId · fromUser), Tables.nextId_insertRow]
  split
  · split <;> omega
  · exact hlt

/-! ## The Pokemon that is given -/

/-- The server thinks that the user has no Pokemon. -/
def Refills (db : Database) (ok : Outcomes) (fromUser destUser : QString) (pkmId : Int) : Prop :=
  (db.move ok fromUser destUser pkmId).rows fromUser = [] ∨ ok.counted = false

/-- The Pokemon that is given, and the rows afterwards. -/
structure Ends (db db' : Database) (ok : Outcomes) (fromUser destUser : QString) (row : PokemonRow)
    (r : Nat) (given : List PokemonRow) : Prop where
  rows : ∀ user, db'.rows user = (db.move ok fromUser destUser row.PKM_ID).rows user ++
    if user = fromUser then given else []
  given : given = [] ∧ (db.Refills ok fromUser destUser row.PKM_ID →
      (db.drawn ok r).isSome = true ∧ ok.inserted = false) ∨
    db.Refills ok fromUser destUser row.PKM_ID ∧ ok.inserted = true ∧ ∃ typeId,
      db.drawn ok r = some typeId ∧
        given = [starter typeId ((db.move ok fromUser destUser row.PKM_ID).tables.nextId fromUser)]

theorem count_lt_one (hname : user ∈ db.tables.names) :
    (((storedStorage.withOutcomes ok).countPokemon db user).getLast?.getD 0 < 1) ↔
      db.rows user = [] ∨ ok.counted = false := by
  simp only [Storage.withOutcomes, count_of_mem hname]
  cases ok.counted with
  | false => simp
  | true =>
      rw [← List.length_eq_zero_iff]
      simp only [↓reduceIte, List.getLast?_singleton, Option.getD_some, Bool.true_eq_false, or_false]
      omega

/-- The transfer works on the tables that are stored under the keys of the names. -/
theorem transferPokemon_eq (hrow : row ∈ db.rows (naming.key fromUser)) (hfrom : fromUser ≠ "_server") :
    ServerBackend.transferPokemon (databaseRuntime naming attack ok) db fromUser destUser row.PKM_ID r =
      if ((storedStorage.withOutcomes ok).countPokemon
          (db.move ok (naming.key fromUser) (naming.key destUser) row.PKM_ID)
          (naming.key fromUser)).getLast?.getD 0 < 1 then
        (db.drawn ok r).map fun typeId => (storedStorage.withOutcomes ok).insertPokemon
          (db.move ok (naming.key fromUser) (naming.key destUser) row.PKM_ID) (naming.key fromUser) typeId
      else some (db.move ok (naming.key fromUser) (naming.key destUser) row.PKM_ID) := by
  have hids : (storedStorage.withOutcomes ok).selectInfoIds
      (db.move ok (naming.key fromUser) (naming.key destUser) row.PKM_ID) =
        if ok.selected then db.typeIds else [] := by
    rw [← typeIds_move ok (naming.key destUser) hrow]
    rfl
  have hdrawn : db.drawn ok r = ((storedStorage.withOutcomes ok).selectInfoIds
      (db.move ok (naming.key fromUser) (naming.key destUser) row.PKM_ID))[bounded r
        ((storedStorage.withOutcomes ok).selectInfoIds
          (db.move ok (naming.key fromUser) (naming.key destUser) row.PKM_ID)).length]? := by
    rw [hids]
    rfl
  rw [hdrawn, ServerBackend.transferPokemon, if_neg hfrom, Option.map_eq_bind]
  rfl

theorem refills_iff (hrow : row ∈ db.rows fromUser) :
    ((storedStorage.withOutcomes ok).countPokemon (db.move ok fromUser destUser row.PKM_ID)
      fromUser).getLast?.getD 0 < 1 ↔ db.Refills ok fromUser destUser row.PKM_ID :=
  count_lt_one ((names_move hrow).symm ▸ mem_names hrow)

theorem transferPokemon_isSome (hrow : row ∈ db.rows (naming.key fromUser)) (hfrom : fromUser ≠ "_server") :
    (ServerBackend.transferPokemon (databaseRuntime naming attack ok) db fromUser destUser row.PKM_ID
      r).isSome = true ↔
    (db.Refills ok (naming.key fromUser) (naming.key destUser) row.PKM_ID → (db.drawn ok r).isSome = true) := by
  rw [transferPokemon_eq hrow hfrom, ← refills_iff hrow]
  split
  · rename_i hcount
    rw [Option.isSome_map]
    exact ⟨fun h _ => h, fun h => h hcount⟩
  · rename_i hcount
    exact ⟨fun _ h => absurd h hcount, fun _ => rfl⟩

theorem ends_of_transfer (hrow : row ∈ db.rows (naming.key fromUser)) (hfrom : fromUser ≠ "_server")
    (h : ServerBackend.transferPokemon (databaseRuntime naming attack ok) db fromUser destUser row.PKM_ID r =
      some db') :
    ∃ given, db.Ends db' ok (naming.key fromUser) (naming.key destUser) row r given := by
  have hname : naming.key fromUser ∈
      (db.move ok (naming.key fromUser) (naming.key destUser) row.PKM_ID).tables.names :=
    (names_move hrow).symm ▸ mem_names hrow
  rw [transferPokemon_eq hrow hfrom] at h
  split at h
  · rename_i hcount
    have hrefills := (refills_iff hrow).mp hcount
    obtain ⟨typeId, hdrawn, rfl⟩ := Option.map_eq_some_iff.mp h
    cases hinserted : ok.inserted with
    | true =>
        refine ⟨_, fun user => ?_, .inr ⟨hrefills, hinserted, typeId, hdrawn, rfl⟩⟩
        simp only [Storage.withOutcomes, hinserted, ↓reduceIte, rows_insert, hname, and_true]
    | false =>
        refine ⟨[], fun user => ?_, .inl ⟨rfl, fun _ => ⟨by rw [hdrawn]; rfl, hinserted⟩⟩⟩
        simp only [Storage.withOutcomes, hinserted, Bool.false_eq_true, ↓reduceIte, ite_self,
          List.append_nil]
  · rename_i hcount
    cases h
    refine ⟨[], fun user => ?_, .inl ⟨rfl, fun h => absurd ((refills_iff hrow).mpr h) hcount⟩⟩
    rw [ite_self, List.append_nil]

/-! ## What a transfer comes to -/

theorem filter_eq_nil_iff_only :
    (db.rows fromUser).filter (·.PKM_ID ≠ row.PKM_ID) = [] ↔ db.Only fromUser row := by
  simp [List.filter_eq_nil_iff, Only]

theorem arriving_eq_nil : db.arriving ok destUser row = [] ↔
    ¬ (destUser ∈ db.tables.names ∧ ok.copied = true) := by
  unfold arriving
  split <;> simp_all

/-- A Pokemon that is gone was deleted. -/
theorem Ends.deleted {given : List PokemonRow} (h : db.Ends db' ok fromUser destUser row r given)
    (hrow : row ∈ db.rows fromUser) (hgone : ∀ other ∈ db'.rows fromUser, other.PKM_ID ≠ row.PKM_ID) :
    ok.deleted = true := by
  by_contra hdeleted
  refine hgone row ?_ rfl
  rw [h.rows, rows_move hrow, if_neg fun h => hdeleted h.2]
  exact List.mem_append_left _ (List.mem_append_left _ hrow)

/-- The rows of the giver after the deletion. -/
theorem Ends.rows_giver {given : List PokemonRow} (h : db.Ends db' ok fromUser destUser row r given)
    (hrow : row ∈ db.rows fromUser) (hdeleted : ok.deleted = true) :
    db'.rows fromUser = (db.rows fromUser).filter (·.PKM_ID ≠ row.PKM_ID) ++
      ((if fromUser = destUser then db.arriving ok destUser row else []) ++ given) := by
  rw [h.rows, rows_move hrow, if_pos ⟨rfl, hdeleted⟩, if_pos rfl, List.append_assoc]

/-- The rows of another user. -/
theorem Ends.rows_other {given : List PokemonRow} (h : db.Ends db' ok fromUser destUser row r given)
    (hrow : row ∈ db.rows fromUser) (huser : user ≠ fromUser) :
    db'.rows user = db.rows user ++ if user = destUser then db.arriving ok destUser row else [] := by
  rw [h.rows, rows_move hrow, if_neg fun h => huser h.1, if_neg huser, List.append_nil]

theorem refills_of_deleted (destUser : QString) (hrow : row ∈ db.rows fromUser) (hdeleted : ok.deleted = true) :
    db.Refills ok fromUser destUser row.PKM_ID ↔
      (db.Only fromUser row ∧ ¬ (fromUser = destUser ∧ ok.copied = true)) ∨ ok.counted = false := by
  rw [Refills, rows_move hrow, if_pos ⟨rfl, hdeleted⟩, List.append_eq_nil_iff, filter_eq_nil_iff_only]
  refine or_congr_left (and_congr_right fun _ => ?_)
  by_cases hdest : fromUser = destUser
  · subst hdest
    rw [if_pos rfl, arriving_eq_nil]
    simp [mem_names hrow]
  · simp [hdest]

/-- Among the rows of one user, the copy is the only one that comes. -/
theorem Moved.condition_self {given : List PokemonRow} {newId : Int}
    (h : db.Moved db' fromUser fromUser row newId) (hrow : row ∈ db.rows fromUser)
    (hends : db.Ends db' ok fromUser fromUser row r given) :
    db.Succeeds ok fromUser fromUser row r ∨ db.Replaced ok fromUser fromUser row r := by
  have hdeleted := hends.deleted hrow h.gone
  have hrefills := refills_of_deleted fromUser hrow hdeleted
  have hcome : db.arriving ok fromUser row ++ given = [{ row with PKM_ID := newId }] := by
    have hgiver := h.giver
    rw [hends.rows_giver hrow hdeleted, movedRows, if_pos rfl, if_pos rfl, if_pos rfl] at hgiver
    rcases hgiver with hrows | ⟨hnone, -⟩
    · exact List.append_cancel_left hrows
    · simp at hnone
  cases hcopied : ok.copied with
  | true =>
      have hgiven : given = [] := by
        rw [arriving, if_pos ⟨mem_names hrow, hcopied⟩, List.singleton_append] at hcome
        exact (List.cons.inj hcome).2
      refine .inl ⟨mem_names hrow, hcopied, hdeleted, fun _ hne => absurd rfl hne, fun _ hcounted => ?_⟩
      rcases hends.given with ⟨-, hnone⟩ | ⟨-, -, _, -, hsome⟩
      · exact hnone (hrefills.mpr (.inr hcounted))
      · rw [hgiven] at hsome
        cases hsome
  | false =>
      have harriving : db.arriving ok fromUser row = [] := arriving_eq_nil.mpr (by simp [hcopied])
      rw [harriving, List.nil_append] at hcome
      rcases hends.given with ⟨hnone, -⟩ | ⟨hrefill, hinserted, typeId, hdrawn, hgiven⟩
      · rw [hnone] at hcome
        cases hcome
      · refine .inr ⟨rfl, hcopied, hdeleted, ?_, hinserted, typeId, hdrawn, ?_⟩
        · exact (hrefills.mp hrefill).imp And.left id
        · rw [hgiven] at hcome
          have hlike := (List.cons.inj hcome).1
          exact (congrArg (fun other : PokemonRow => { other with PKM_ID := row.PKM_ID }) hlike).symm

theorem Moved.condition_other {given : List PokemonRow} {newId : Int} (hdest : fromUser ≠ destUser)
    (h : db.Moved db' fromUser destUser row newId) (hrow : row ∈ db.rows fromUser)
    (hends : db.Ends db' ok fromUser destUser row r given) : db.Succeeds ok fromUser destUser row r := by
  have hdeleted := hends.deleted hrow h.gone
  have hrefills := refills_of_deleted destUser hrow hdeleted
  have harriving : destUser ∈ db.tables.names ∧ ok.copied = true := by
    have hrows := h.others destUser (Ne.symm hdest)
    rw [hends.rows_other hrow (Ne.symm hdest), movedRows, if_neg (Ne.symm hdest), if_pos rfl,
      if_pos rfl] at hrows
    have hcome := List.append_cancel_left hrows
    by_contra hnone
    rw [arriving_eq_nil.mpr hnone] at hcome
    cases hcome
  refine ⟨harriving.1, harriving.2, hdeleted, fun honly _ => ?_, fun hothers hcounted => ?_⟩
  · have hrefill := hrefills.mpr (.inl ⟨honly, fun h => hdest h.1⟩)
    rcases hends.given with ⟨-, hnone⟩ | ⟨-, -, typeId, hdrawn, -⟩
    · exact (hnone hrefill).1
    · rw [hdrawn]
      rfl
  · rcases hends.given with ⟨-, hnone⟩ | ⟨-, -, typeId, -, hgiven⟩
    · exact hnone (hrefills.mpr (.inr hcounted))
    · -- a new Pokemon comes although the user has others
      have hgiver := h.giver
      rw [hends.rows_giver hrow hdeleted, movedRows, if_pos rfl, if_neg hdest, if_neg hdest,
        List.nil_append, List.append_nil, hgiven, filter_eq_nil_iff_only] at hgiver
      rcases hgiver with hrows | ⟨honly, -⟩
      · simp at hrows
      · exact absurd ⟨honly, hdest⟩ hothers

/-- A Pokemon that comes has a new ID. -/
theorem Ends.gone {given : List PokemonRow} (h : db.Ends db' ok fromUser destUser row r given)
    (hrow : row ∈ db.rows fromUser) (hdeleted : ok.deleted = true) :
    ∀ other ∈ db'.rows fromUser, other.PKM_ID ≠ row.PKM_ID := by
  intro other hother
  rw [h.rows_giver hrow hdeleted, ← filter_arriving hrow, List.mem_append, List.mem_append,
    List.mem_filter, List.mem_filter] at hother
  rcases hother with hold | hcopy | hgiven
  · exact of_decide_eq_true hold.2
  · exact of_decide_eq_true hcopy.2
  · rcases h.given with ⟨hnone, -⟩ | ⟨-, -, typeId, -, hsome⟩
    · rw [hnone] at hgiven
      cases hgiven
    · rw [hsome] at hgiven
      rw [List.mem_singleton.mp hgiven]
      exact (Int.ne_of_lt (lt_nextId_move hrow)).symm

theorem mem_typeIds {typeId : Int} (h : db.drawn ok r = some typeId) : typeId ∈ db.typeIds := by
  have hmem := List.mem_of_getElem? h
  split at hmem
  · exact hmem
  · cases hmem

/-- After a transfer that succeeds, the giver gets a new Pokemon only for the last one. -/
theorem Succeeds.refills (h : db.Succeeds ok fromUser destUser row r) (hrow : row ∈ db.rows fromUser)
    (hrefill : db.Refills ok fromUser destUser row.PKM_ID) :
    (db.Only fromUser row ∧ fromUser ≠ destUser) ∨ (db.drawn ok r).isSome = true ∧ ok.inserted = false := by
  by_cases hempty : db.Only fromUser row ∧ fromUser ≠ destUser
  · exact .inl hempty
  · rcases (refills_of_deleted destUser hrow h.deleted).mp hrefill with ⟨honly, hdest⟩ | hcounted
    · exact absurd ⟨honly, fun heq => hdest ⟨heq, h.copied⟩⟩ hempty
    · exact .inr (h.uncounted hempty hcounted)

theorem Succeeds.drawn (h : db.Succeeds ok fromUser destUser row r) (hrow : row ∈ db.rows fromUser)
    (hrefill : db.Refills ok fromUser destUser row.PKM_ID) : (db.drawn ok r).isSome = true := by
  rcases h.refills hrow hrefill with hempty | hdrawn
  · exact h.emptied hempty.1 hempty.2
  · exact hdrawn.1

theorem Succeeds.moved {given : List PokemonRow} (h : db.Succeeds ok fromUser destUser row r)
    (hrow : row ∈ db.rows fromUser) (hends : db.Ends db' ok fromUser destUser row r given) :
    db.Moved db' fromUser destUser row (db.tables.nextId destUser) := by
  have harriving : db.arriving ok destUser row = [{ row with PKM_ID := db.tables.nextId destUser }] :=
    if_pos ⟨h.dest, h.copied⟩
  refine ⟨hends.gone hrow h.deleted, fun user huser => ?_, ?_⟩
  · rw [hends.rows_other hrow huser, movedRows, if_neg huser, harriving]
  · have hrows := hends.rows_giver hrow h.deleted
    rw [harriving] at hrows
    rcases hends.given with ⟨hnone, -⟩ | ⟨hrefill, hinserted, typeId, hdrawn, hgiven⟩
    · left
      rw [hrows, hnone, movedRows, if_pos rfl, List.append_nil]
    · right
      have hempty : db.Only fromUser row ∧ fromUser ≠ destUser := by
        rcases h.refills hrow hrefill with hempty | ⟨-, hfailed⟩
        · exact hempty
        · rw [hinserted] at hfailed
          cases hfailed
      rw [filter_eq_nil_iff_only.mpr hempty.1, if_neg hempty.2, List.nil_append, List.nil_append,
        hgiven] at hrows
      refine ⟨?_, typeId, mem_typeIds hdrawn, _, hrows⟩
      rw [movedRows, if_pos rfl, if_neg hempty.2, filter_eq_nil_iff_only.mpr hempty.1, List.nil_append]

theorem Replaced.moved {given : List PokemonRow} (h : db.Replaced ok fromUser destUser row r)
    (hrow : row ∈ db.rows fromUser) (hends : db.Ends db' ok fromUser destUser row r given) :
    db.Moved db' fromUser destUser row
      ((db.move ok fromUser destUser row.PKM_ID).tables.nextId fromUser) := by
  have harriving : db.arriving ok destUser row = [] := arriving_eq_nil.mpr (by simp [h.lost])
  refine ⟨hends.gone hrow h.deleted, fun user huser => ?_, .inl ?_⟩
  · rw [hends.rows_other hrow huser, movedRows, if_neg huser, h.dest, if_neg huser, if_neg huser]
  · rcases hends.given with ⟨-, hnone⟩ | ⟨-, -, typeId, hdrawn, hgiven⟩
    · have hrefill := (refills_of_deleted destUser hrow h.deleted).mpr
        (h.emptied.imp (fun honly => ⟨honly, by simp [h.lost]⟩) id)
      have hfailed := (hnone hrefill).2
      rw [h.inserted] at hfailed
      cases hfailed
    · obtain ⟨likeId, hlikeId, hlike⟩ := h.like
      rw [hdrawn, Option.some.injEq] at hlikeId
      rw [hends.rows_giver hrow h.deleted, harriving, ite_self, List.nil_append, hgiven, movedRows,
        if_pos rfl, if_pos h.dest.symm, hlikeId]
      congr 2
      exact (congrArg (fun other : PokemonRow => { other with
        PKM_ID := (db.move ok fromUser destUser row.PKM_ID).tables.nextId fromUser }) hlike).symm

theorem allOrNothing_iff {s : ServerBackend Database} {client : Nat} :
    AllOrNothing naming attack ok s client fromUser destUser pkmId r ↔
      ∃ db', ServerBackend.transferPokemon (databaseRuntime naming attack ok) s.db fromUser destUser pkmId r =
          some db' ∧
        s.db.Transferred db' (naming.key fromUser) (naming.key destUser) pkmId := by
  unfold AllOrNothing ServerBackend.slotTransferPokemon
  cases ServerBackend.transferPokemon (databaseRuntime naming attack ok) s.db fromUser destUser pkmId r with
  | none => simp
  | some db' =>
      simp only [Option.bind_eq_bind, Option.bind_some, List.mem_singleton, forall_const,
        Option.some.injEq, exists_eq_left']
      exact ⟨fun h => h.2, fun h => ⟨.inr h, h⟩⟩

/-- The answer is right if and only if the Pokemon is there, goes to a table that exists, and both
statements succeed. -/
theorem transfer_all_or_nothing (naming : Naming) (attack : Attack) (ok : Outcomes)
    (s : ServerBackend Database) (client : Nat) (fromUser destUser : QString) (pkmId : Int) (r : Nat)
    (hfrom : fromUser ≠ "_server") :
    AllOrNothing naming attack ok s client fromUser destUser pkmId r ↔
      ∃ row ∈ s.db.rows (naming.key fromUser), row.PKM_ID = pkmId ∧
        (s.db.Succeeds ok (naming.key fromUser) (naming.key destUser) row r ∨
          s.db.Replaced ok (naming.key fromUser) (naming.key destUser) row r) := by
  rw [allOrNothing_iff]
  constructor
  · rintro ⟨db', hdb, row, hrow, rfl, newId, hmoved⟩
    obtain ⟨given, hends⟩ := ends_of_transfer hrow hfrom hdb
    refine ⟨row, hrow, rfl, ?_⟩
    by_cases hdest : naming.key fromUser = naming.key destUser
    · rw [← hdest] at hmoved hends ⊢
      exact hmoved.condition_self hrow hends
    · exact .inl (hmoved.condition_other hdest hrow hends)
  · rintro ⟨row, hrow, rfl, hcondition⟩
    have hdefined : (ServerBackend.transferPokemon (databaseRuntime naming attack ok) s.db fromUser destUser
        row.PKM_ID r).isSome = true := by
      refine (transferPokemon_isSome hrow hfrom).mpr fun hrefill => ?_
      rcases hcondition with h | h
      · exact h.drawn hrow hrefill
      · obtain ⟨typeId, hdrawn, -⟩ := h.like
        rw [hdrawn]
        rfl
    obtain ⟨db', hdb⟩ := Option.isSome_iff_exists.mp hdefined
    obtain ⟨given, hends⟩ := ends_of_transfer hrow hfrom hdb
    refine ⟨db', hdb, row, hrow, rfl, ?_⟩
    rcases hcondition with h | h
    · exact ⟨_, h.moved hrow hends⟩
    · exact ⟨_, h.moved hrow hends⟩

def allSucceed : Outcomes := ⟨true, true, true, true, true⟩

theorem transfer_all_or_nothing_example :
    "a" ≠ "_server" ∧
      (AllOrNothing foldedNaming noAttack allSucceed (newServerBackend smallDatabase) 0 "a" "b" 1 0 ↔
        ∃ row ∈ smallDatabase.rows (foldedNaming.key "a"), row.PKM_ID = 1 ∧
          (smallDatabase.Succeeds allSucceed (foldedNaming.key "a") (foldedNaming.key "b") row 0 ∨
            smallDatabase.Replaced allSucceed (foldedNaming.key "a") (foldedNaming.key "b") row 0)) :=
  ⟨by decide, transfer_all_or_nothing _ _ _ _ _ _ _ _ _ (by decide)⟩

/-- A Pokemon that is given to a user who does not exist is lost. -/
theorem transfer_to_nobody :
    ¬ AllOrNothing foldedNaming noAttack allSucceed (newServerBackend smallDatabase) 0 "a" "z" 1 0 ∧
      ((newServerBackend smallDatabase).slotTransferPokemon (databaseRuntime foldedNaming noAttack allSucceed)
        0 "a" "z" 1 0).map (fun after => (after.1.db.rows "a", after.1.db.rows "z", after.2)) =
          some ([starter 1 2], [], [⟨0, .transferPokemonResponse⟩]) := by
  refine ⟨fun h => ?_, by decide⟩
  obtain ⟨db', hdb, row, hrow, -, newId, hmoved⟩ := allOrNothing_iff.mp h
  have hlost : (ServerBackend.transferPokemon (databaseRuntime foldedNaming noAttack allSucceed)
      (newServerBackend smallDatabase).db "a" "z" 1 0).map (·.rows "z") = some [] := by decide
  have hrows := hmoved.others "z" (by decide)
  have hkey : foldedNaming.key "z" = "z" := by decide
  rw [hdb, Option.map_some, Option.some.injEq] at hlost
  rw [hlost, movedRows, if_pos hkey.symm] at hrows
  simp at hrows

end Database

end TermCollection.Pokemon
