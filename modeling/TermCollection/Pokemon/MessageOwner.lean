import TermCollection.Pokemon.Lemmas.Battles
import TermCollection.Pokemon.Lemmas.Leaving
import TermCollection.Pokemon.Tables

/-!
# The user a message acts for

A message names the user it acts for, and no handler compares the name with the socket that the message
comes from.
-/

namespace TermCollection.Pokemon

variable {δ : Type} {rt : Runtime δ} {s s' : ServerBackend δ} {out : List Sent} {i : Nat}
variable {name : QString} {message : Message} {chance : Chance}

/-- The field of a message that says who sent it. -/
def Message.actor : Message → Option QString
  | .userLogin .. => none
  | .battleInvite _ fromUser .. => some fromUser
  | .battleInviteResponse _ _ destUser .. => some destUser
  | .battleOperation _ _ userName => some userName
  | .transferPokemon fromUser .. => some fromUser
  | .battleGiveUp userName => some userName

def Message.isTransfer : Message → Bool
  | .transferPokemon .. => true
  | _ => false

namespace ServerBackend

/-- Nobody is logged in under the name, from whichever socket. -/
def Absent (s : ServerBackend δ) (name : QString) : Prop := ∀ user ∈ s.userList, user.name ≠ name

instance (s : ServerBackend δ) (name : QString) : Decidable (s.Absent name) :=
  inferInstanceAs (Decidable (∀ user ∈ s.userList, user.name ≠ name))

/-! ## Names that nobody has -/

theorem Absent.userAt (h : s.Absent name) {p : Nat} {user : User} (hp : s.userAt p = some user) :
    user.name ≠ name := h user (List.mem_of_find?_eq_some hp)

theorem Absent.find? (h : s.Absent name) : s.userList.find? (·.name = name) = none := by
  rw [List.find?_eq_none]
  intro user hu
  rw [decide_eq_true_eq]
  exact h user hu

theorem Absent.invitedUsers (h : s.Absent name) (fromUser : QString) :
    s.invitedUsers fromUser name = none := by
  have hnone : (s.userList.reverse.find? fun user => user.name ≠ fromUser ∧ user.name = name) = none := by
    rw [List.find?_eq_none]
    intro user hu
    rw [decide_eq_true_eq]
    exact fun hname => h user (List.mem_reverse.mp hu) hname.2
  simp only [ServerBackend.invitedUsers, hnone, Option.bind_eq_bind, Option.bind_none,
    Option.bind_fun_none]

theorem Absent.operateA {battle : BattleField} {skillIndex : Int} (h : s.Absent name)
    (hop : operateA rt s battle skillIndex name chance i = some (s', out)) : s' = s := by
  simp only [ServerBackend.operateA, Option.bind_eq_bind, Option.bind_eq_some_iff] at hop
  obtain ⟨userA, hA, hop⟩ := hop
  rw [if_neg (h.userAt hA)] at hop
  cases hop
  rfl

theorem Absent.operateB {battle : BattleField} {skillIndex : Int} (h : s.Absent name)
    (hop : operateB rt s battle skillIndex name chance i = some (s', out)) : s' = s := by
  simp only [ServerBackend.operateB, Option.bind_eq_bind, Option.bind_eq_some_iff] at hop
  obtain ⟨_, -, userB, hB, hop⟩ := hop
  rw [if_neg (h.userAt hB)] at hop
  cases hop
  rfl

theorem Absent.operationLoop {isUserA skillIndex : Int} {fuel : Nat} (h : s.Absent name)
    (hop : operationLoop rt isUserA skillIndex name chance fuel i s = some (s', out)) : s' = s := by
  induction fuel generalizing i out with
  | zero => cases hop; rfl
  | succ fuel ih =>
      unfold ServerBackend.operationLoop at hop
      split at hop
      · cases hop; rfl
      · simp only [Option.bind_eq_bind, Option.bind_eq_some_iff, Option.some.injEq, Prod.mk.injEq,
          Prod.exists] at hop
        obtain ⟨s₁, out₁, h₁, s₂, out₂, h₂, rfl, -⟩ := hop
        have hone : s₁ = s := by
          split at h₁
          · exact h.operateA h₁
          · exact h.operateB h₁
        subst hone
        exact ih h₂

theorem Absent.findBattle (h : s.Absent name) {battles : List BattleField}
    {found : Option (BattleField × Nat × Option Nat)}
    (hfind : findBattle s (fun _ => some name) i battles = some found) : found = none := by
  induction battles generalizing i with
  | nil => cases hfind; rfl
  | cons battle battles ih =>
      simp only [ServerBackend.findBattle, Option.bind_eq_bind, Option.bind_eq_some_iff,
        Option.some.injEq, exists_eq_left'] at hfind
      obtain ⟨userA, hA, hfind⟩ := hfind
      rw [if_neg (h.userAt hA), Option.bind_eq_some_iff] at hfind
      obtain ⟨p, -, hfind⟩ := hfind
      rw [Option.bind_eq_some_iff] at hfind
      obtain ⟨userB, hB, hfind⟩ := hfind
      rw [if_neg (h.userAt hB)] at hfind
      exact ih hfind

theorem Absent.slotBattleGiveUp (h : s.Absent name)
    (hslot : slotBattleGiveUp s name = some (s', out)) : s' = s := by
  rcases slotBattleGiveUp_cases hslot with ⟨rfl, -⟩ | ⟨battle, p, dest, s₁, hfound, -, -⟩
  · rfl
  · cases h.findBattle hfound

/-! ## Messages -/

/-- A message in the name of a user who is not logged in changes nothing, unless it transfers a
Pokemon. -/
theorem Absent.slotGetMessage {client : Nat} (h : s.Absent name) (hactor : message.actor = some name)
    (htransfer : message.isTransfer = false)
    (hslot : s.slotGetMessage rt client chance message = some (s', out)) : s' = s := by
  cases message with
  | userLogin => cases hactor
  | battleInvite =>
      cases hactor
      simp only [ServerBackend.slotGetMessage, slotBattleInvite, h.find?] at hslot
      cases hslot
      rfl
  | battleInviteResponse =>
      cases hactor
      simp only [ServerBackend.slotGetMessage, slotHandleBattleInviteResponse, h.invitedUsers] at hslot
      cases hslot
      rfl
  | battleOperation =>
      cases hactor
      exact h.operationLoop hslot
  | transferPokemon => cases htransfer
  | battleGiveUp =>
      cases hactor
      exact h.slotBattleGiveUp hslot

/-- An answer to an invitation goes to the socket of its message, and changes the same as any other. -/
theorem slotBattleInvite_client (client client' : Nat) (battleMode : BattleMode)
    (fromUser destUser : QString) (fromUserPkmId serverPkmId : Int) :
    (slotBattleInvite rt s client battleMode fromUser fromUserPkmId destUser serverPkmId).map Prod.fst =
      (slotBattleInvite rt s client' battleMode fromUser fromUserPkmId destUser serverPkmId).map
        Prod.fst := by
  unfold slotBattleInvite
  split
  · rfl
  · split
    · rfl
    · simp only [Option.bind_eq_bind, Option.map_bind]
      congr 1
      funext s₁
      simp only [Function.comp_apply]
      split
      · simp only [Option.map_bind, Function.comp_def, Option.map_some]
      · split
        · rfl
        · split <;> rfl

theorem slotTransferPokemon_client (client client' : Nat) (fromUser destUser : QString) (pkmId : Int)
    (r : Nat) :
    (slotTransferPokemon rt s client fromUser destUser pkmId r).map Prod.fst =
      (slotTransferPokemon rt s client' fromUser destUser pkmId r).map Prod.fst := by
  simp only [slotTransferPokemon, Option.bind_eq_bind, Option.map_bind, Function.comp_def,
    Option.map_some]

theorem slotTransferPokemon_lists {client : Nat} {fromUser destUser : QString} {pkmId : Int} {r : Nat}
    (h : slotTransferPokemon rt s client fromUser destUser pkmId r = some (s', out)) :
    s'.userList = s.userList ∧ s'.battleFieldList = s.battleFieldList := by
  simp only [slotTransferPokemon, Option.bind_eq_bind, Option.bind_eq_some_iff, Option.some.injEq,
    Prod.mk.injEq] at h
  obtain ⟨db, -, rfl, -⟩ := h
  exact ⟨rfl, rfl⟩

end ServerBackend

open ServerBackend

/-- The socket of a message does not matter for the state after it. In the name of a user who is logged
in nowhere, a message about battles changes nothing, and a transfer changes no user and no battle. -/
theorem messages_ignore_socket (rt : Runtime δ) (s : ServerBackend δ) (chance : Chance)
    (hactor : message.actor = some name) :
    (∀ client client', (s.slotGetMessage rt client chance message).map Prod.fst =
        (s.slotGetMessage rt client' chance message).map Prod.fst) ∧
      ∀ client s' out, s.slotGetMessage rt client chance message = some (s', out) →
        (message.isTransfer = false → s.Absent name → s' = s) ∧
          (message.isTransfer = true →
            s'.userList = s.userList ∧ s'.battleFieldList = s.battleFieldList) := by
  refine ⟨fun client client' => ?_, fun client s' out h => ⟨fun ht ha => ?_, fun ht => ?_⟩⟩
  · cases message with
    | userLogin => cases hactor
    | battleInvite => exact slotBattleInvite_client ..
    | battleInviteResponse => rfl
    | battleOperation => rfl
    | transferPokemon => exact slotTransferPokemon_client ..
    | battleGiveUp => rfl
  · exact ha.slotGetMessage hactor ht h
  · cases message with
    | transferPokemon => exact slotTransferPokemon_lists h
    | _ => cases ht

/-- The server after `a` has logged in from socket 1 and has started a battle with the server. -/
def fightingServer : ServerBackend Tables :=
  Machine.stateAfter (backendStep smallRuntime) Machine.always (newServerBackend smallTables)
    [invite 1 "a" "_server", login 1 "a"]

/-- The user `a` gives up from either socket with one result, and `b`, who is not logged in, changes
nothing. -/
theorem messages_ignore_socket_example :
    fightingServer.userList.map (fun user => (user.name, user.userSocket, user.status)) =
        [("a", 1, .battling)] ∧
      fightingServer.battleFieldList.map BattleField.participants = [[0]] ∧
      (fightingServer.slotGetMessage smallRuntime 1 noChance (.battleGiveUp "a")).map Prod.fst =
        (fightingServer.slotGetMessage smallRuntime 9 noChance (.battleGiveUp "a")).map Prod.fst ∧
      ∀ client s' out,
        fightingServer.slotGetMessage smallRuntime client noChance (.battleGiveUp "b") = some (s', out) →
          s' = fightingServer := by
  have hactor_a : (Message.battleGiveUp "a").actor = some "a" := rfl
  have hfrom_a := messages_ignore_socket smallRuntime fightingServer noChance hactor_a
  have hactor_b : (Message.battleGiveUp "b").actor = some "b" := rfl
  have hfrom_b := messages_ignore_socket smallRuntime fightingServer noChance hactor_b
  refine ⟨by decide +kernel, by decide +kernel, hfrom_a.1 1 9, fun client s' out h => ?_⟩
  exact (hfrom_b.2 client s' out h).1 rfl (by decide +kernel)

/-- The user `a` fights the server from socket 1, and gives up from socket 9, where nobody is logged
in. The Pokemon of `b`, who is logged in nowhere, goes to `c`, and `b` gets another one. -/
theorem giveUp_from_other_socket :
    ∃ s tr, (backendStep smallRuntime).AnyRun (newServerBackend smallTables) s tr ∧
      tr.map Prod.fst = [invite 1 "a" "_server", login 1 "a"] ∧
      (∀ user ∈ s.userList, user.userSocket = 9 → user.name ≠ "a") ∧
      s.userList.map (fun user => (user.name, user.status)) = [("a", .battling)] ∧
      s.battleFieldList.length = 1 ∧
      (s.slotGetMessage smallRuntime 9 noChance (.battleGiveUp "a")).map (fun r =>
        (r.1.userList.map fun user => (user.name, user.status), r.1.battleFieldList)) =
          some ([("a", .idle)], []) ∧
      s.Absent "b" ∧ tablesStorage.selectPokemonIds s.db "b" = [1] ∧
      (s.slotGetMessage smallRuntime 9 noChance (.transferPokemon "b" "c" 1)).map (fun r =>
        tablesStorage.selectPokemonIds r.1.db "b") = some [2] := by
  obtain ⟨hrun, hevents⟩ := Machine.run_after (backendStep smallRuntime) Machine.always
    (newServerBackend smallTables) [invite 1 "a" "_server", login 1 "a"] (by decide +kernel)
  exact ⟨_, _, hrun.any, hevents, by decide +kernel, by decide +kernel, by decide +kernel,
    by decide +kernel, by decide +kernel, by decide +kernel, by decide +kernel⟩

end TermCollection.Pokemon
