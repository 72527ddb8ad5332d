import TermCollection.Pokemon.Starters

/-!
# The list of users (`user_list`)

A user who has signed up stays in the list with his password, and only the ends of duels change his row.
-/

namespace TermCollection.Pokemon

variable {naming : Naming} {attack : Attack} {db db' db₁ : Database} {userName userPsw user : QString}

/-! ## Rows -/

/-- The row of a user who has fought some duels more. -/
structure UserRow.PlaysOn (row row' : UserRow) : Prop where
  name : row'.USERNAME = row.USERNAME
  psw : row'.PASSWORD = row.PASSWORD
  wins : row.WINNER_TIME ≤ row'.WINNER_TIME
  defeats : row.TOTAL_BATTLE_TIME - row.WINNER_TIME ≤ row'.TOTAL_BATTLE_TIME - row'.WINNER_TIME

namespace UserRow.PlaysOn

variable {row row' row'' : UserRow}

theorem refl (row : UserRow) : PlaysOn row row := ⟨rfl, rfl, Int.le_refl _, Int.le_refl _⟩

theorem trans (h : PlaysOn row row') (h' : PlaysOn row' row'') : PlaysOn row row'' :=
  ⟨h'.name.trans h.name, h'.psw.trans h.psw, Int.le_trans h.wins h'.wins, Int.le_trans h.defeats h'.defeats⟩

/-- The end of a duel. -/
theorem battle (row : UserRow) (won : Bool) :
    PlaysOn row { row with
      TOTAL_BATTLE_TIME := row.TOTAL_BATTLE_TIME + 1
      WINNER_TIME := row.WINNER_TIME + if won then 1 else 0 } := by
  have hgain : 0 ≤ (if won then 1 else 0 : Int) ∧ (if won then 1 else 0 : Int) ≤ 1 := by
    split <;> decide
  refine ⟨rfl, rfl, ?_, ?_⟩
  · exact Int.le_add_of_nonneg_right hgain.1
  · show _ ≤ row.TOTAL_BATTLE_TIME + 1 - (row.WINNER_TIME + _)
    omega

end UserRow.PlaysOn

namespace Database

/-! ## Steps -/

/-- The same users, in the same order. -/
def PlaysOn (db db' : Database) : Prop := List.Forall₂ UserRow.PlaysOn db.tables.user_list db'.tables.user_list

theorem PlaysOn.of_eq (h : db'.tables.user_list = db.tables.user_list) : db.PlaysOn db' := by
  rw [PlaysOn, h]
  exact List.forall₂_same.mpr fun row _ => .refl row

theorem PlaysOn.trans (h : db.PlaysOn db₁) (h' : db₁.PlaysOn db') : db.PlaysOn db' := by
  rw [PlaysOn] at *
  generalize db.tables.user_list = rows, db₁.tables.user_list = rows₁, db'.tables.user_list = rows' at h h'
  induction h generalizing rows' with
  | nil =>
      cases h'
      exact .nil
  | cons hrow _ ih =>
      cases h' with
      | cons hrow' hrows' => exact .cons (hrow.trans hrow') (ih _ hrows')

theorem PlaysOn.accounts (h : db.PlaysOn db') (naming : Naming) : db'.accounts naming = db.accounts naming := by
  rw [Database.accounts, Database.accounts]
  rw [PlaysOn] at h
  generalize db.tables.user_list = rows, db'.tables.user_list = rows' at h ⊢
  induction h with
  | nil => rfl
  | cons hrow _ ih => rw [List.map_cons, List.map_cons, hrow.name, ih]

theorem playsOn_battleTimes {won : Bool} :
    db.PlaysOn ((databaseStorage naming).updateBattleTimes db userName won) := by
  refine List.forall₂_map_right_iff.mpr (List.forall₂_same.mpr fun row _ => ?_)
  split
  · exact .battle row won
  · exact .refl row

theorem user_list_copy (db : Database) (fromUser destUser : QString) (pkmId : Int) :
    (storedStorage.copyPokemon db fromUser destUser pkmId).tables.user_list = db.tables.user_list := by
  by_cases hrow : ∃ row ∈ db.rows fromUser, row.PKM_ID = pkmId
  · obtain ⟨row, hrow, rfl⟩ := hrow
    exact congrArg (·.user_list) (tables_copy destUser hrow)
  · exact congrArg (·.user_list) (tables_copy_none destUser fun row hmem hid => hrow ⟨row, hmem, hid⟩)

theorem playsOn_transfer {fromUser destUser : QString} {pkmId : Int} {r : Nat}
    (h : ServerBackend.transferPokemon (onDatabase naming attack) db fromUser destUser pkmId r = some db') :
    db.PlaysOn db' := by
  have hcopy := user_list_copy db (naming.key fromUser) (naming.key destUser) pkmId
  by_cases hfrom : fromUser = "_server"
  · rw [ServerBackend.transferPokemon, if_pos hfrom, Option.some.injEq] at h
    exact .of_eq (h ▸ hcopy)
  · rw [transferPokemon_left hfrom] at h
    split at h
    · obtain ⟨typeId, -, rfl⟩ := Option.map_eq_some_iff.mp h
      exact .of_eq hcopy
    · cases h
      exact .of_eq hcopy

theorem respectsAll_playsOn (naming : Naming) (attack : Attack) :
    RespectsAll (onDatabase naming attack) PlaysOn where
  refl _ := .of_eq rfl
  trans := .trans
  battleTimes _ _ _ := playsOn_battleTimes
  gift _ _ _ := .of_eq (user_list_copy _ _ _ _)
  update _ _ _ := .of_eq rfl
  transfer _ _ _ _ _ _ := playsOn_transfer

/-- A sign-up puts a new user at the end of the list, if the name and the password fit, or changes nothing. -/
theorem signUp_list {r : Nat → Nat} {status : SignUpStatus}
    (h : slotUserSignUp naming db userName userPsw r = some (db', status)) :
    db.Registered naming userName ∧ db' = db ∧ status = .userAlreadyExists ∨
      ¬db.Registered naming userName ∧ status = .success ∧
        db'.tables.user_list = db.tables.user_list ++
          if naming.fitsRow userName userPsw = true then [⟨userName, userPsw, 0, 0⟩] else [] := by
  rw [slotUserSignUp_eq] at h
  split at h
  · rename_i hold
    cases h
    exact .inl ⟨hold, rfl, rfl⟩
  · rename_i hnew
    obtain ⟨_, hstarters, heq⟩ := Option.map_eq_some_iff.mp h
    cases heq
    exact .inr ⟨hnew, rfl, (gains_insertStarters hstarters).user_list.trans (user_list_withUser hnew)⟩

/-! ## Passwords -/

/-- The password of a user. -/
def Account (naming : Naming) (db : Database) (userName userPsw : QString) : Prop :=
  (databaseStorage naming).selectPassword db userName = [userPsw]

theorem PlaysOn.passwords (h : db.PlaysOn db') (naming : Naming) (userName : QString) :
    (databaseStorage naming).selectPassword db' userName =
      (databaseStorage naming).selectPassword db userName := by
  simp only [databaseStorage]
  rw [PlaysOn] at h
  generalize db.tables.user_list = rows, db'.tables.user_list = rows' at h ⊢
  induction h with
  | nil => rfl
  | @cons row row' _ _ hrow _ ih =>
      rw [List.filter_cons, List.filter_cons, hrow.name]
      split
      · rw [List.map_cons, List.map_cons, hrow.psw, ih]
      · exact ih

theorem passwords_nil (h : ¬db.Registered naming userName) :
    (databaseStorage naming).selectPassword db userName = [] := by
  refine List.map_eq_nil_iff.mpr (List.filter_eq_nil_iff.mpr fun row hrow hname => h ?_)
  exact List.mem_map.mpr ⟨row, hrow, of_decide_eq_true hname⟩

theorem passwords_append {rows : List UserRow} (h : db'.tables.user_list = db.tables.user_list ++ rows) :
    (databaseStorage naming).selectPassword db' userName =
      (databaseStorage naming).selectPassword db userName ++
        (rows.filter fun row => naming.key row.USERNAME = naming.key userName).map (·.PASSWORD) := by
  simp only [databaseStorage]
  rw [h, List.filter_append, List.map_append]

/-- Nobody else gets the name. -/
theorem Account.signUp {psw : QString} {r : Nat → Nat} {status : SignUpStatus}
    (h : db.Account naming user psw) (hsign : slotUserSignUp naming db userName userPsw r = some (db', status)) :
    db'.Account naming user psw := by
  rcases signUp_list hsign with ⟨-, rfl, -⟩ | ⟨hnew, -, hlist⟩
  · exact h
  · have hother : naming.key userName ≠ naming.key user := by
      intro hkey
      rw [Registered, hkey] at hnew
      rw [Account, passwords_nil hnew] at h
      cases h
    rw [Account, passwords_append hlist, h]
    split <;> simp [hother]

theorem Account.playsOn (hdb : db.PlaysOn db') (h : db.Account naming userName userPsw) :
    db'.Account naming userName userPsw :=
  (hdb.passwords naming userName).trans h

end Database

end TermCollection.Pokemon
