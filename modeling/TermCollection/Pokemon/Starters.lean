import TermCollection.Pokemon.Experience
import TermCollection.Pokemon.SignUp

/-!
# Nobody without a Pokemon

Every user has a Pokemon, whatever the users do: a new user gets three, battles only write to rows, and a
user who has given the last one away gets another.
-/

namespace TermCollection.Pokemon

/-! ## The database behind a step -/

section Steps

variable {δ : Type} {rt : Runtime δ} {R : δ → δ → Prop} {s s' : ServerBackend δ} {out : List Sent}

open ServerBackend

/-- The relation also holds across the award of a battle and across a transfer. -/
structure RespectsAll (rt : Runtime δ) (R : δ → δ → Prop) : Prop extends Respects rt R where
  update : ∀ db name row, R db (rt.storage.updatePokemon db name row)
  transfer : ∀ db fromUser destUser pkmId r db',
    transferPokemon rt db fromUser destUser pkmId r = some db' → R db db'

namespace RespectsAll

theorem writes {v : Victory} {db db' : δ} (hR : RespectsAll rt R) (h : v.Writes rt.storage db db') :
    R db db' := by
  rcases h with ⟨-, rfl⟩ | ⟨-, -, pkm, -, -, rfl⟩
  · exact hR.refl _
  · exact hR.update _ _ _

theorem activity {activity : Activity} (hR : RespectsAll rt R)
    (h : activityStep rt s activity = some (s', out)) : R s.db s'.db := by
  cases activity with
  | action p skillIndex userIndex chance =>
      have hdb := writes_setAction hR.toRespects h
      cases hv : s.victory rt p skillIndex userIndex chance with
      | none =>
          rw [hv] at hdb
          exact hdb ▸ hR.refl _
      | some v =>
          rw [hv] at hdb
          obtain ⟨db₁, hwrites, hrest⟩ := hdb
          exact hR.trans (hR.writes hwrites) hrest
  | event e =>
      cases e with
      | userDisconnected client => exact db_disconnectLoop h ▸ hR.refl _
      | message client message chance =>
          cases message with
          | userLogin userName userPsw =>
              have hs' : s'.db = s.db :=
                (congrArg (·.1.db) (Option.some.inj h)).symm.trans db_slotUserLogin
              exact hs' ▸ hR.refl _
          | battleInvite => exact db_slotBattleInvite h ▸ hR.refl _
          | battleInviteResponse => exact db_slotHandleBattleInviteResponse h ▸ hR.refl _
          | battleOperation => cases h
          | battleGiveUp => exact db_slotBattleGiveUp h ▸ hR.refl _
          | transferPokemon fromUser destUser pkmId =>
              simp only [activityStep, backendStep, slotGetMessage, slotTransferPokemon,
                Option.bind_eq_bind, Option.bind_eq_some_iff, Option.some.injEq, Prod.mk.injEq] at h
              obtain ⟨db, hdb, rfl, -⟩ := h
              exact hR.transfer _ _ _ _ _ _ hdb

theorem step {e : Event} (hR : RespectsAll rt R) (h : backendStep rt s e = some (s', out)) :
    R s.db s'.db := by
  obtain ⟨tr, hrun, -⟩ := performs_step h
  exact hrun.stateInvariant (I := fun after => R s.db after.db) (hR.refl _)
    fun _ _ _ _ hbefore _ hstep => hR.trans hbefore (hR.activity hstep)

end RespectsAll

end Steps

/-! ## The statements -/

variable {naming : Naming} {db db' : Database} {fromUser destUser userName userPsw user : QString}
variable {pkmId : Int} {r : Nat} {attack : Attack} {row : PokemonRow}

namespace Database

/-- The same users and the same tables, with a Pokemon where there was one. -/
structure Provides (db db' : Database) : Prop where
  names : db'.tables.names = db.tables.names
  users : db'.tables.user_list.map (·.USERNAME) = db.tables.user_list.map (·.USERNAME)
  typeIds : db'.typeIds = db.typeIds
  rows : ∀ user, db.rows user ≠ [] → db'.rows user ≠ []

theorem Provides.refl (db : Database) : db.Provides db := ⟨rfl, rfl, rfl, fun _ h => h⟩

theorem Provides.trans {db₁ : Database} (h : db.Provides db₁) (h' : db₁.Provides db') : db.Provides db' :=
  ⟨h'.names.trans h.names, h'.users.trans h.users, h'.typeIds.trans h.typeIds,
    fun user hrows => h'.rows user (h.rows user hrows)⟩

theorem provides_insert {typeId : Int} :
    db.Provides (storedStorage.insertPokemon db user typeId) where
  names := Tables.names_insertRow
  users := rfl
  typeIds := rfl
  rows := fun other hrows => by
    rw [rows_insert]
    exact List.append_ne_nil_of_left_ne_nil hrows _

theorem provides_update : db.Provides (storedStorage.updatePokemon db user row) where
  names := Tables.names_modifyTable fun _ => rfl
  users := rfl
  typeIds := rfl
  rows := fun other hrows => by
    by_cases hother : other = user
    · subst hother
      have hmap := Tables.userRows_rows db.tables other (g := List.map fun old =>
        if old.PKM_ID = row.PKM_ID then { row with PKM_TYPEID := old.PKM_TYPEID } else old) rfl
      refine fun hnil => hrows (List.map_eq_nil_iff.mp (hmap.symm.trans hnil))
    · refine fun hnil => hrows (Eq.trans (Eq.symm ?_) hnil)
      refine Tables.userRows_other db.tables _ ?_ hother
      exact fun _ => rfl

theorem provides_battleTimes {won : Bool} :
    db.Provides ((databaseStorage naming).updateBattleTimes db user won) where
  names := rfl
  users := by
    refine (List.map_map ..).trans (List.map_congr_left fun row _ => ?_)
    rw [Function.comp_apply]
    split <;> rfl
  typeIds := rfl
  rows := fun _ h => h

/-- The new owner may get a row. -/
theorem provides_copy : db.Provides (storedStorage.copyPokemon db fromUser destUser pkmId) := by
  by_cases hrow : ∃ row ∈ db.rows fromUser, row.PKM_ID = pkmId
  · obtain ⟨row, hrow, rfl⟩ := hrow
    have htables := tables_copy destUser hrow
    refine ⟨Tables.names_insertRows _, congrArg (·.user_list.map (·.USERNAME)) htables,
      congrArg (·.pokemon_info.map (·.PKM_ID)) htables, fun user hrows => ?_⟩
    rw [rows, htables, Tables.userRows_insertRow_eq]
    exact List.append_ne_nil_of_left_ne_nil hrows _
  · have hnone : ∀ row ∈ db.rows fromUser, row.PKM_ID ≠ pkmId :=
      fun row hmem hid => hrow ⟨row, hmem, hid⟩
    have htables := tables_copy_none destUser hnone
    refine ⟨congrArg Tables.names htables, congrArg (·.user_list.map (·.USERNAME)) htables,
      congrArg (·.pokemon_info.map (·.PKM_ID)) htables, fun user hrows => ?_⟩
    rw [rows, htables]
    exact hrows

/-! ## Transfers -/

/-- What the giver has after the first two statements of a transfer. -/
def left (db : Database) (fromUser destUser : QString) (pkmId : Int) : Database :=
  storedStorage.deletePokemon (storedStorage.copyPokemon db fromUser destUser pkmId) fromUser pkmId

theorem names_left : (db.left fromUser destUser pkmId).tables.names = db.tables.names :=
  Tables.names_delete.trans (Tables.names_insertRows _)

theorem typeIds_left (db : Database) (fromUser destUser : QString) (pkmId : Int) :
    (db.left fromUser destUser pkmId).typeIds = db.typeIds :=
  provides_copy.typeIds

theorem users_left : (db.left fromUser destUser pkmId).tables.user_list.map (·.USERNAME) =
    db.tables.user_list.map (·.USERNAME) :=
  provides_copy.users

/-- A transfer works on the tables that are stored under the keys of the names. -/
theorem transferPokemon_left (hfrom : fromUser ≠ "_server") :
    ServerBackend.transferPokemon (onDatabase naming attack) db fromUser destUser pkmId r =
      if (storedStorage.countPokemon (db.left (naming.key fromUser) (naming.key destUser) pkmId)
          (naming.key fromUser)).getLast?.getD 0 < 1 then
        (db.typeIds[bounded r db.typeIds.length]?).map
          (storedStorage.insertPokemon (db.left (naming.key fromUser) (naming.key destUser) pkmId)
            (naming.key fromUser))
      else some (db.left (naming.key fromUser) (naming.key destUser) pkmId) := by
  rw [ServerBackend.transferPokemon, if_neg hfrom, Option.map_eq_bind,
    ← typeIds_left db (naming.key fromUser) (naming.key destUser) pkmId]
  rfl

theorem transferPokemon_defined (naming : Naming) (attack : Attack) (fromUser destUser : QString) (pkmId : Int)
    (r : Nat) (htypes : db.typeIds ≠ []) :
    (ServerBackend.transferPokemon (onDatabase naming attack) db fromUser destUser pkmId r).isSome = true := by
  by_cases hfrom : fromUser = "_server"
  · rw [ServerBackend.transferPokemon, if_pos hfrom]
    rfl
  · rw [transferPokemon_left hfrom]
    split
    · have hlt : bounded r db.typeIds.length < db.typeIds.length :=
        Nat.mod_lt _ (List.length_pos_of_ne_nil htypes)
      rw [List.getElem?_eq_getElem hlt]
      rfl
    · rfl

theorem rows_left_of_ne (huser : user ≠ fromUser) (hrows : db.rows user ≠ []) :
    (db.left fromUser destUser pkmId).rows user ≠ [] := by
  rw [left, rows_delete, if_neg huser]
  exact provides_copy.rows user hrows

/-- The giver of the last Pokemon gets one of a type of the list, and other rows are not lost. -/
structure Refilled (db db' : Database) (fromUser destUser : QString) (pkmId : Int) : Prop where
  provides : db.Provides db'
  refill : fromUser ∈ db.tables.names → (db.left fromUser destUser pkmId).rows fromUser = [] →
    ∃ typeId ∈ db.typeIds, ∃ id, db'.rows fromUser = [starter typeId id]

theorem refilled_of_transfer (hfrom : fromUser ≠ "_server")
    (h : ServerBackend.transferPokemon (onDatabase naming attack) db fromUser destUser pkmId r = some db') :
    db.Refilled db' (naming.key fromUser) (naming.key destUser) pkmId := by
  rw [transferPokemon_left hfrom] at h
  generalize naming.key fromUser = fromUser, naming.key destUser = destUser at h ⊢
  split at h
  · rename_i hcount
    obtain ⟨typeId, htype, rfl⟩ := Option.map_eq_some_iff.mp h
    have hrefill : fromUser ∈ db.tables.names → (storedStorage.insertPokemon
        (db.left fromUser destUser pkmId) fromUser typeId).rows fromUser =
          (db.left fromUser destUser pkmId).rows fromUser ++
            [starter typeId ((db.left fromUser destUser pkmId).tables.nextId fromUser)] := by
      intro hname
      rw [rows_insert, if_pos ⟨rfl, names_left.symm ▸ hname⟩]
    refine ⟨⟨?_, ?_, ?_, fun user hrows => ?_⟩, fun hname hempty => ?_⟩
    · exact provides_insert.names.trans names_left
    · exact provides_insert.users.trans users_left
    · exact provides_insert.typeIds.trans (typeIds_left ..)
    · by_cases huser : user = fromUser
      · subst huser
        obtain ⟨row, hrow⟩ := List.exists_mem_of_ne_nil _ hrows
        rw [hrefill (mem_names hrow)]
        exact List.append_ne_nil_of_right_ne_nil _ (List.cons_ne_nil _ _)
      · exact provides_insert.rows user (rows_left_of_ne huser hrows)
    · refine ⟨typeId, List.mem_of_getElem? htype,
        (db.left fromUser destUser pkmId).tables.nextId fromUser, ?_⟩
      rw [hrefill hname, hempty, List.nil_append]
  · rename_i hcount
    cases h
    have hfull : fromUser ∈ db.tables.names → (db.left fromUser destUser pkmId).rows fromUser ≠ [] := by
      intro hname hempty
      refine hcount ?_
      rw [count_of_mem (names_left.symm ▸ hname), hempty]
      decide
    refine ⟨⟨names_left, users_left, typeIds_left .., fun user hrows => ?_⟩,
      fun hname hempty => absurd hempty (hfull hname)⟩
    by_cases huser : user = fromUser
    · subst huser
      obtain ⟨row, hrow⟩ := List.exists_mem_of_ne_nil _ hrows
      exact hfull (mem_names hrow)
    · exact rows_left_of_ne huser hrows

theorem provides_transfer
    (h : ServerBackend.transferPokemon (onDatabase naming attack) db fromUser destUser pkmId r = some db') :
    db.Provides db' := by
  by_cases hfrom : fromUser = "_server"
  · rw [ServerBackend.transferPokemon, if_pos hfrom, Option.some.injEq] at h
    subst h
    exact provides_copy
  · exact (refilled_of_transfer hfrom h).provides

theorem respectsAll_provides (naming : Naming) (attack : Attack) :
    RespectsAll (onDatabase naming attack) Provides where
  refl := .refl
  trans := .trans
  battleTimes _ _ _ := provides_battleTimes
  gift _ _ _ := provides_copy
  update _ _ _ := provides_update
  transfer _ _ _ _ _ _ := provides_transfer

/-! ## Runs -/

/-- Every user has a Pokemon, and there are types to draw from. -/
structure Supplied (naming : Naming) (db : Database) : Prop where
  types : db.typeIds ≠ []
  rows : ∀ name ∈ db.accounts naming, db.rows name ≠ []

theorem Provides.supplied (h : db.Provides db') (hdb : db.Supplied naming) : db'.Supplied naming := by
  have haccounts : db'.accounts naming = db.accounts naming := by
    have hkeys := congrArg (List.map naming.key) h.users
    rwa [List.map_map, List.map_map] at hkeys
  refine ⟨h.typeIds ▸ hdb.types, fun name hname => ?_⟩
  exact h.rows name (hdb.rows name (haccounts ▸ hname))

theorem signUp_defined (naming : Naming) (userName userPsw : QString) (r : Nat → Nat)
    (htypes : db.typeIds ≠ []) : (slotUserSignUp naming db userName userPsw r).isSome = true := by
  rw [slotUserSignUp_eq]
  split
  · rfl
  · rw [Option.isSome_map]
    exact insertStarters_isSome _ _ _ _ (by rwa [typeIds_withUser]) _

/-- The new user has three Pokemon. -/
theorem Supplied.signUp {r : Nat → Nat} {status : SignUpStatus} (hdb : db.Supplied naming)
    (hfits : naming.fitsTable userName = true) (hlist : naming.key userName ≠ "list")
    (h : slotUserSignUp naming db userName userPsw r = some (db', status)) : db'.Supplied naming := by
  rw [slotUserSignUp_eq] at h
  split at h
  · cases h
    exact hdb
  · obtain ⟨_, hstarters, heq⟩ := Option.map_eq_some_iff.mp h
    cases heq
    have hgains := gains_insertStarters hstarters
    have hmem : naming.key userName ∈ (db.withUser naming userName userPsw).tables.names :=
      mem_names_withUser.mpr (.inr ⟨rfl, hfits, hlist⟩)
    refine ⟨?_, fun name hname => ?_⟩
    · rw [typeIds, hgains.pokemon_info]
      exact fun hnone => hdb.types (typeIds_withUser.symm.trans hnone)
    · by_cases hnew : name = naming.key userName
      · subst hnew
        obtain ⟨new, hrows, hlength, -⟩ := hgains.rows
        rw [if_pos hmem] at hlength
        rw [hrows]
        refine List.append_ne_nil_of_right_ne_nil _ fun hnil => ?_
        rw [hnil] at hlength
        cases hlength
      · rw [hgains.others name hnew, rows_withUser]
        rw [accounts, hgains.user_list] at hname
        exact hdb.rows name ((mem_accounts_withUser.mp hname).resolve_right fun h => hnew h.1)

end Database

/-- A sign-up, or another event. -/
inductive Request where
  | signUp (userName userPsw : QString) (r : Nat → Nat)
  | event (e : Event)

/-- The answer to a sign-up is not listed. -/
def serviceStep (naming : Naming) (attack : Attack) : Machine (ServerBackend Database) Request Sent
  | s, .signUp userName userPsw r =>
      (s.db.slotUserSignUp naming userName userPsw r).map fun after => ({ s with db := after.1 }, [])
  | s, .event e => backendStep (onDatabase naming attack) s e

/-- The tables `user_list` and `user__server` belong to the server, and the table of a new user can be
created. -/
def nameAllowed (naming : Naming) (_ : ServerBackend Database) : Request → Bool
  | .signUp userName .. =>
      naming.key userName ≠ "list" ∧ naming.key userName ≠ "_server" ∧ naming.fitsTable userName = true
  | .event _ => true

variable {s s₀ : ServerBackend Database} {tr : List (Request × List Sent)}

open Database

theorem supplied_serverDatabase (naming : Naming) (skill_list : List SkillRow)
    {pokemon_info : List PokemonInfoRow} (h : pokemon_info ≠ []) :
    (serverDatabase naming skill_list pokemon_info).Supplied naming where
  types := by
    rw [typeIds, serverDatabase, lists_createUserTable.2.2]
    exact fun hnil => h (List.map_eq_nil_iff.mp hnil)
  rows := fun name hname => by
    rw [accounts, serverDatabase, lists_createUserTable.1] at hname
    cases hname

theorem supplied_run (h₀ : s₀.db.Supplied naming)
    (h : (serviceStep naming attack).Run (fun s e => nameAllowed naming s e = true) s₀ s tr) :
    s.db.Supplied naming := by
  refine h.stateInvariant (I := fun s => s.db.Supplied naming) h₀ fun s request s' out hs hallowed hstep => ?_
  cases request with
  | signUp userName userPsw r =>
      obtain ⟨⟨db, status⟩, hsign, heq⟩ := Option.map_eq_some_iff.mp hstep
      cases heq
      obtain ⟨hlist, -, hfits⟩ := of_decide_eq_true hallowed
      exact hs.signUp hfits hlist hsign
  | event e => exact ((respectsAll_provides naming attack).step hstep).supplied hs

/-- In every state that is reached, every user has a Pokemon, sign-ups and transfers can be handled, and a
user whose last Pokemon is transferred gets one of a type of the list. -/
theorem nobody_runs_out (naming : Naming) (attack : Attack) (s₀ s : ServerBackend Database)
    (tr : List (Request × List Sent)) (h₀ : s₀.db.Supplied naming)
    (h : (serviceStep naming attack).Run (fun s e => nameAllowed naming s e = true) s₀ s tr) :
    (∀ user, s.db.Registered naming user → s.db.rows (naming.key user) ≠ []) ∧
      (∀ userName userPsw r, ∃ s' out,
        serviceStep naming attack s (.signUp userName userPsw r) = some (s', out)) ∧
      ∀ client fromUser destUser pkmId chance, ∃ s' out,
        serviceStep naming attack s
            (.event (.message client (.transferPokemon fromUser destUser pkmId) chance)) = some (s', out) ∧
        (fromUser ≠ "_server" → s.db.Registered naming fromUser →
          (s.db.left (naming.key fromUser) (naming.key destUser) pkmId).rows (naming.key fromUser) = [] →
          ∃ typeId ∈ s.db.typeIds, ∃ id, s'.db.rows (naming.key fromUser) = [starter typeId id]) := by
  have hs := supplied_run h₀ h
  refine ⟨fun user huser => hs.rows _ huser, fun userName userPsw r => ?_,
    fun client fromUser destUser pkmId chance => ?_⟩
  · obtain ⟨⟨db, status⟩, hsign⟩ := Option.isSome_iff_exists.mp
      (signUp_defined naming userName userPsw r hs.types)
    exact ⟨{ s with db := db }, [], by rw [serviceStep, hsign]; rfl⟩
  · obtain ⟨db, hdb⟩ := Option.isSome_iff_exists.mp (transferPokemon_defined naming attack fromUser destUser
      pkmId chance.transfer hs.types)
    refine ⟨{ s with db := db }, [⟨client, .transferPokemonResponse⟩], ?_, fun hfrom huser hempty => ?_⟩
    · simp only [serviceStep, backendStep, ServerBackend.slotGetMessage,
        ServerBackend.slotTransferPokemon, hdb, Option.bind_eq_bind, Option.bind_some]
    · obtain ⟨row, hrow⟩ := List.exists_mem_of_ne_nil _ (hs.rows _ huser)
      exact (refilled_of_transfer hfrom hdb).refill (mem_names hrow) hempty

/-- The Pokemon of `a` are given away one by one. -/
def givenAway : List Request :=
  [3, 2, 1].map (fun pkmId => .event (.message 1 (.transferPokemon "a" "B" pkmId) noChance)) ++
    [.signUp "b" "" id, .signUp "a" "" id]

theorem nobody_runs_out_example :
    ∃ s tr, (serviceStep foldedNaming noAttack).Run (fun s e => nameAllowed foldedNaming s e = true)
        (newServerBackend (newDatabase foldedNaming)) s tr ∧
      tr.map Prod.fst = givenAway ∧ s.db.rows (foldedNaming.key "a") = [starter 1 4] ∧
      (s.db.rows (foldedNaming.key "b")).length = 6 ∧
      ∀ user, s.db.Registered foldedNaming user → s.db.rows (foldedNaming.key user) ≠ [] := by
  obtain ⟨hrun, hevents⟩ := Machine.run_after (serviceStep foldedNaming noAttack) (nameAllowed foldedNaming)
    (newServerBackend (newDatabase foldedNaming)) givenAway (by decide +kernel)
  exact ⟨_, _, hrun, hevents, by decide +kernel, by decide +kernel,
    (nobody_runs_out _ _ _ _ _ (supplied_serverDatabase _ _ (by simp [smallTables])) hrun).1⟩

end TermCollection.Pokemon
