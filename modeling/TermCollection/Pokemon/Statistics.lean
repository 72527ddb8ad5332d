import TermCollection.Pokemon.EndToEnd
import TermCollection.Pokemon.Profile

/-!
# The statistics that clients get (`slotRequestUserInfo`)

Whatever the network carries, exactly the users who have signed up have a profile, and its win rate is that of
the duels, up to the rounding to four digits.
-/

namespace TermCollection.Pokemon

open Machine Observation

/-! ## The win rate -/

section

variable {q r : ℚ} {wins battles : ℤ}

end

/-! ## Duels -/

namespace Database

variable {naming : Naming} {db db' : Database} {name userName userPsw : QString} {attack : Attack}

/-- Nobody has won more duels than he has fought. -/
def Fair (db : Database) : Prop :=
  ∀ row ∈ db.tables.user_list, 0 ≤ row.WINNER_TIME ∧ row.WINNER_TIME ≤ row.TOTAL_BATTLE_TIME

theorem PlaysOn.fair (h : db.PlaysOn db') (hdb : db.Fair) : db'.Fair := by
  rw [PlaysOn] at h
  rw [Fair] at *
  generalize db.tables.user_list = rows, db'.tables.user_list = rows' at h hdb ⊢
  induction h with
  | nil => exact hdb
  | cons hrow _ ih =>
      obtain ⟨⟨hwins, htotal⟩, hrest⟩ := List.forall_mem_cons.mp hdb
      have := hrow.wins
      have := hrow.defeats
      exact List.forall_mem_cons.mpr ⟨⟨by omega, by omega⟩, ih hrest⟩

theorem Fair.signUp {r : Nat → Nat} {status : SignUpStatus} (hdb : db.Fair)
    (h : slotUserSignUp naming db userName userPsw r = some (db', status)) : db'.Fair := by
  rcases signUp_list h with ⟨-, rfl, -⟩ | ⟨-, -, hlist⟩
  · exact hdb
  · intro row hrow
    rw [hlist] at hrow
    rcases List.mem_append.mp hrow with hold | hnew
    · exact hdb row hold
    · split at hnew
      · rw [List.mem_singleton.mp hnew]
        exact ⟨Int.le_refl 0, Int.le_refl 0⟩
      · cases hnew

end Database

/-! ## Profiles -/

/-- A profile that agrees with the database, and in which nothing is out of range. -/
structure UserInfoResponse.Agrees (naming : Naming) (db : Database) (name : QString) (res : UserInfoResponse) :
    Prop where
  status : res.resStatus = .success ↔ db.Registered naming name
  duels : db.Registered naming name → ∃ row ∈ db.tables.user_list,
    naming.key row.USERNAME = naming.key name ∧ res.timeOfDuel = row.TOTAL_BATTLE_TIME ∧
      res.timeOfWins = row.WINNER_TIME
  pokemon : db.Registered naming name →
    res.pokemonId ≠ [] ∧ res.pokemonId = (db.rows (naming.key name)).map (·.PKM_ID)
  wins : 0 ≤ res.timeOfWins ∧ res.timeOfWins ≤ res.timeOfDuel
  range : 0 ≤ res.winRate ∧ res.winRate ≤ 1
  rate : 0 < res.timeOfDuel → |res.winRate - res.timeOfWins / res.timeOfDuel| ≤ 52 / 1000000

section

variable {naming : Naming} {utf8 : Utf8} {attack : Attack} {s s' : ServerBackend Database} {i : ℕ}
variable {packet : ClientPacket}

/-- The table of a new user can be created, and is not the list of users. -/
def OwnName (naming : Naming) (utf8 : Utf8) (info : UserProtocol.UserSignUpRequestInfo) : Prop :=
  naming.fitsTable (utf8.fromStdString info.userName) = true ∧
    naming.key (utf8.fromStdString info.userName) ≠ "list"

/-- What every packet and every disconnection keeps. -/
def Sound (naming : Naming) (s : ServerBackend Database) : Prop := s.db.Supplied naming ∧ s.db.Fair

theorem Sound.backendStep {e : Event} {outs : List Sent}
    (h : backendStep (onDatabase naming attack) s e = some (s', outs)) (hs : Sound naming s) : Sound naming s' :=
  ⟨((Database.respectsAll_provides naming attack).step h).supplied hs.1,
    ((Database.respectsAll_playsOn naming attack).step h).fair hs.2⟩

theorem Sound.packetStep {chance : PacketChance} {out : List (ℕ × ServerPacket)}
    (h : packetStep naming utf8 attack s (.packet i packet chance) = some (s', out)) (hs : Sound naming s)
    (hname : ∀ info, packet.signUp = some info → OwnName naming utf8 info) : Sound naming s' := by
  rcases packetStep_cases h with ⟨info, db, status, rfl, rfl, hsign, -⟩ | ⟨-, -, rfl | ⟨e, outs, hstep⟩⟩
  · obtain ⟨hfits, hlist⟩ := hname info rfl
    exact ⟨hs.1.signUp hfits hlist hsign, hs.2.signUp hsign⟩
  · exact hs
  · exact hs.backendStep hstep

end

end TermCollection.Pokemon
