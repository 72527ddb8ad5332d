import TermCollection.Pokemon.Lemmas.Operations
import TermCollection.Pokemon.Lemmas.Pointers
import TermCollection.Pokemon.Tables

/-!
# Battles of two users

An answer starts a battle whether or not there was an invitation. The mode and the Pokemon of the user
who answers come with it, and the other Pokemon is the last one that was set for the other user.
-/

namespace TermCollection.Pokemon

variable {δ : Type} {rt : Runtime δ} {s s' : ServerBackend δ} {out : List Sent} {i q : Nat}
variable {battle : BattleField} {user : User} {chance : Chance} {choices : List (Nat × Int)}

/-- A message whose handler sets a Pokemon for battles. -/
def Message.setsPokemon : Message → Bool
  | .userLogin .. | .battleInvite .. | .battleInviteResponse .. => true
  | _ => false

namespace ServerBackend

/-- The Pokemon for battles that a step sets, each with the pointer to its user. -/
def chosen (rt : Runtime δ) (s : ServerBackend δ) : Event → List (Nat × Int)
  | .message _ (.userLogin userName userPsw) chance =>
      if (rt.storage.selectPassword s.db userName).getLast? = some userPsw then
        [(s.nextPtr, chance.entry.battlePkmId)]
      else []
  | .message _ (.battleInvite _ fromUser fromUserPkmId _ _) _ =>
      match s.userList.find? (·.name = fromUser) with
      | none => []
      | some userA => if userA.status = .battling then [] else [(userA.ptr, fromUserPkmId)]
  | .message _ (.battleInviteResponse _ fromUser destUser destUserPkmId flag) _ =>
      match s.invitedUsers fromUser destUser with
      | none => []
      | some (_, userB) => if flag = .success then [(userB.ptr, destUserPkmId)] else []
  | _ => []

/-- The choice that counts for a user. -/
def lastChoice (choices : List (Nat × Int)) (p : Nat) : Option Int :=
  (choices.find? (·.1 = p)).map Prod.snd

theorem lastChoice_self (p : Nat) (id : Int) : lastChoice ((p, id) :: choices) p = some id := by
  simp [lastChoice]

theorem lastChoice_of_ne {p p' : Nat} (id : Int) (h : p' ≠ p) :
    lastChoice ((p', id) :: choices) p = lastChoice choices p := by
  rw [lastChoice, List.find?_cons_of_neg (by simpa using h), lastChoice]

/-- The Pokemon of every user is the one chosen last. -/
def Recorded (entries : List UserEntry) (choices : List (Nat × Int)) : Prop :=
  ∀ entry ∈ entries, lastChoice choices entry.ptr = some entry.battlePkmId

theorem Recorded.choose {entries : List UserEntry} (h : Recorded entries choices) (p : Nat) (id : Int) :
    Recorded (entries.map fun entry => if entry.ptr = p then { entry with battlePkmId := id } else entry)
      ((p, id) :: choices) := by
  intro entry hentry
  obtain ⟨old, hold, rfl⟩ := List.mem_map.mp hentry
  split
  · rename_i hptr
    rw [← hptr]
    exact lastChoice_self ..
  · rename_i hptr
    rw [lastChoice_of_ne id (Ne.symm hptr)]
    exact h old hold

theorem Recorded.append {entries : List UserEntry} (h : Recorded entries choices) {entry : UserEntry}
    (hlt : ∀ old ∈ entries, old.ptr < entry.ptr) :
    Recorded (entries ++ [entry]) ((entry.ptr, entry.battlePkmId) :: choices) := by
  intro new hnew
  rcases List.mem_append.mp hnew with hnew | hnew
  · rw [lastChoice_of_ne _ (Nat.ne_of_gt (hlt new hnew))]
    exact h new hnew
  · rw [List.mem_singleton.mp hnew]
    exact lastChoice_self ..

theorem Recorded.subset {entries entries' : List UserEntry} (h : Recorded entries choices)
    (hsub : ∀ entry ∈ entries', entry ∈ entries) : Recorded entries' choices :=
  fun entry hentry => h entry (hsub entry hentry)

/-! ## What a step does with the entries and the battles -/

/-- A step that starts no battle between two users. -/
structure Quiet (s s' : ServerBackend δ) : Prop where
  entries : ∀ entry ∈ s'.entries, entry ∈ s.entries
  battles : ∀ p ∈ s'.battleFieldList.map BattleField.ptr, p ∈ s.battleFieldList.map BattleField.ptr

theorem Quiet.of_eq (hentries : s'.entries = s.entries) (hbattles : s'.battleFieldList = s.battleFieldList) :
    Quiet s s' := by
  refine ⟨fun entry hentry => hentries ▸ hentry, fun p hp => hbattles ▸ hp⟩

theorem Quiet.trans {s₁ s₂ s₃ : ServerBackend δ} (h : Quiet s₁ s₂) (h' : Quiet s₂ s₃) : Quiet s₁ s₃ :=
  ⟨fun entry hentry => h.entries entry (h'.entries entry hentry),
    fun p hp => h.battles p (h'.battles p hp)⟩

theorem entries_setBattlePkmId {p : Nat} {id : Int} (h : s.setBattlePkmId p id = some s') :
    s'.entries = (s.entries.map fun entry =>
        if entry.ptr = p then { entry with battlePkmId := id } else entry) ∧
      s'.battleFieldList = s.battleFieldList := by
  obtain ⟨-, rfl⟩ := modifyUser_eq_some h
  refine ⟨?_, rfl⟩
  simp only [entries, List.map_map]
  apply List.map_congr_left
  intro user _
  by_cases hptr : user.ptr = p <;> simp [User.entry, hptr]

theorem quiet_operation {isUserA skillIndex : Int} {userName : QString}
    (hptrs : (s.battleFieldList.map BattleField.ptr).Nodup)
    (h : slotHandleBattleOperation rt s isUserA skillIndex userName chance = some (s', out)) :
    Quiet s s' := by
  have hloop := checkedOperationLoop_toOption rt isUserA skillIndex userName chance
    s.battleFieldList.length 0 s
  rw [slotHandleBattleOperation] at h
  rw [h] at hloop
  cases hchecked : checkedOperationLoop rt isUserA skillIndex userName chance
      s.battleFieldList.length 0 s with
  | error fault =>
      rw [hchecked] at hloop
      cases hloop
  | ok r =>
      rw [hchecked] at hloop
      obtain ⟨s₁, out₁, ptrs⟩ := r
      simp only [Except.toOption, Option.map_some, Option.some.injEq, Prod.mk.injEq] at hloop
      obtain ⟨rfl, -⟩ := hloop
      obtain ⟨hentries, hsublist, -⟩ := checkedOperationLoop_keeps hptrs hchecked
      exact ⟨fun entry hentry => hentries ▸ hentry, fun p hp => hsublist.subset hp⟩

theorem battles_winByLeave {dest : Option Nat} (h : s.winByLeave battle dest = some (s', out)) :
    s'.battleFieldList = s.battleFieldList.filter (·.ptr ≠ battle.ptr) := by
  rcases winByLeave_cases h with ⟨-, rfl⟩ | ⟨p, s₁, -, h₁, rfl⟩
  · rfl
  · rw [removeBattle, (entries_setStatus h₁).2]

theorem quiet_winByLeave {dest : Option Nat} (h : s.winByLeave battle dest = some (s', out)) :
    Quiet s s' := by
  refine ⟨fun entry hentry => entries_winByLeave h ▸ hentry, ?_⟩
  rw [battles_winByLeave h]
  intro p hp
  obtain ⟨other, hother, rfl⟩ := List.mem_map.mp hp
  exact List.mem_map_of_mem (List.mem_of_mem_filter hother)

theorem quiet_slotBattleGiveUp {giveUpUser : QString} (h : slotBattleGiveUp s giveUpUser = some (s', out)) :
    Quiet s s' := by
  rcases slotBattleGiveUp_cases h with ⟨rfl, -⟩ | ⟨battle, p, dest, s₁, -, h₁, h⟩
  · exact .of_eq rfl rfl
  · obtain ⟨hentries, hbattles⟩ := entries_setStatus h₁
    exact (Quiet.of_eq hentries hbattles).trans (quiet_winByLeave h)

theorem quiet_leaveBattle (h : s.leaveBattle user = some (s', out)) : Quiet s s' := by
  rcases leaveBattle_cases h with ⟨rfl, -, -⟩ | ⟨battle, p, dest, -, -, h⟩
  · exact .of_eq rfl rfl
  · exact quiet_winByLeave h

theorem quiet_disconnectLoop {client fuel : Nat} (h : disconnectLoop client fuel i s = some (s', out)) :
    Quiet s s' := by
  refine disconnectLoop_rule (P := Quiet s) ?_ (.of_eq rfl rfl) h
  intro r r' out user i hr _ hleave
  have herase : Quiet r' { r' with userList := r'.userList.eraseIdx i } := by
    refine ⟨fun entry hentry => ?_, fun p hp => hp⟩
    rw [entries, ← List.eraseIdx_map] at hentry
    exact List.mem_of_mem_eraseIdx hentry
  exact (hr.trans (quiet_leaveBattle hleave)).trans herase

/-! ## Logins, invitations and answers -/

theorem slotUserLogin_spec (rt : Runtime δ) (s : ServerBackend δ) (client : Nat)
    (userName userPsw : QString) (entry : UserMemory) :
    let result := slotUserLogin rt s client userName userPsw entry
    result.1.battleFieldList = s.battleFieldList ∧
      if (rt.storage.selectPassword s.db userName).getLast? = some userPsw then
        result.1.entries = s.entries ++ [⟨s.nextPtr, userName, client, entry.battlePkmId⟩]
      else result.1.entries = s.entries := by
  simp only [slotUserLogin]
  cases hpsw : (rt.storage.selectPassword s.db userName).getLast? with
  | none => exact ⟨rfl, rfl⟩
  | some psw =>
      by_cases heq : psw = userPsw
      · simp [heq, entries, User.entry]
      · simp [heq]

theorem slotBattleInvite_spec {client : Nat} {battleMode : BattleMode} {fromUser destUser : QString}
    {fromUserPkmId serverPkmId : Int} (chance : Chance)
    (h : slotBattleInvite rt s client battleMode fromUser fromUserPkmId destUser serverPkmId =
      some (s', out)) :
    let choices := chosen rt s
      (.message client (.battleInvite battleMode fromUser fromUserPkmId destUser serverPkmId) chance)
    (choices = [] ∧ s' = s) ∨ ∃ p, choices = [(p, fromUserPkmId)] ∧
      s'.entries = (s.entries.map fun entry =>
        if entry.ptr = p then { entry with battlePkmId := fromUserPkmId } else entry) ∧
      ∀ battle ∈ s'.battleFieldList, battle ∈ s.battleFieldList ∨ battle.userB = none := by
  cases hfind : s.userList.find? (·.name = fromUser) with
  | none =>
      simp only [slotBattleInvite, hfind, Option.some.injEq, Prod.mk.injEq] at h
      exact .inl ⟨by simp only [chosen, hfind], h.1.symm⟩
  | some userA =>
      simp only [slotBattleInvite, hfind] at h
      split at h
      · rename_i hstatus
        cases h
        exact .inl ⟨by simp only [chosen, hfind, hstatus, ↓reduceIte], rfl⟩
      · rename_i hstatus
        simp only [Option.bind_eq_bind, Option.bind_eq_some_iff] at h
        obtain ⟨s₁, h₁, h⟩ := h
        obtain ⟨hentries, hbattles⟩ := entries_setBattlePkmId h₁
        refine .inr ⟨userA.ptr, by simp only [chosen, hfind, hstatus, ↓reduceIte], ?_⟩
        rw [← hentries, ← hbattles]
        split at h
        · simp only [Option.bind_eq_some_iff, Option.some.injEq, Prod.mk.injEq] at h
          obtain ⟨pkmA, -, pkmB, -, s₂, h₂, rfl, -⟩ := h
          obtain ⟨hentries₂, hbattles₂⟩ := entries_setStatus h₂
          refine ⟨hentries₂, fun battle hb => ?_⟩
          rw [hbattles₂] at hb
          rcases List.mem_append.mp hb with hb | hb
          · exact .inl hb
          · rw [List.mem_singleton.mp hb]
            exact .inr rfl
        · split at h
          · cases h
            exact ⟨rfl, fun _ hb => .inl hb⟩
          · split at h
            · cases h
              exact ⟨rfl, fun _ hb => .inl hb⟩
            · cases h
              exact ⟨rfl, fun _ hb => .inl hb⟩

theorem slotHandleBattleInviteResponse_spec {battleMode : BattleMode} {fromUser destUser : QString}
    {destUserPkmId : Int} {flag : BattleStartStatus} (client : Nat) (chance : Chance)
    (h : slotHandleBattleInviteResponse rt s battleMode fromUser destUser destUserPkmId flag =
      some (s', out)) :
    let choices := chosen rt s
      (.message client (.battleInviteResponse battleMode fromUser destUser destUserPkmId flag) chance)
    (choices = [] ∧ s' = s) ∨ ∃ userA userB pkmA pkmB, flag = .success ∧
      s.invitedUsers fromUser destUser = some (userA, userB) ∧
      createPokemon rt.storage s.db fromUser userA.battlePkmId = some pkmA ∧
      createPokemon rt.storage s.db destUser destUserPkmId = some pkmB ∧
      choices = [(userB.ptr, destUserPkmId)] ∧
      s'.entries = (s.entries.map fun entry =>
        if entry.ptr = userB.ptr then { entry with battlePkmId := destUserPkmId } else entry) ∧
      s'.battleFieldList = s.battleFieldList ++
        [newBattleField s.nextPtr userA.ptr (some userB.ptr) pkmA pkmB (fieldMode battleMode)] := by
  unfold slotHandleBattleInviteResponse at h
  simp only [chosen]
  split at h
  · rename_i hnone
    cases h
    rw [hnone]
    exact .inl ⟨rfl, rfl⟩
  · rename_i userA userB husers
    rw [husers]
    split at h
    · rename_i hflag
      cases h
      exact .inl ⟨if_neg hflag, rfl⟩
    · rename_i hflag
      rw [ne_eq, Decidable.not_not] at hflag
      simp only [Option.bind_eq_bind, Option.bind_eq_some_iff, Option.some.injEq, Prod.mk.injEq] at h
      obtain ⟨s₁, h₁, pkmA, hA, pkmB, hB, s₂, h₂, s₃, h₃, rfl, -⟩ := h
      obtain ⟨hentries, hbattles⟩ := entries_setBattlePkmId h₁
      have hrest : s₁.db = s.db ∧ s₁.nextPtr = s.nextPtr := by
        obtain ⟨-, rfl⟩ := modifyUser_eq_some h₁
        exact ⟨rfl, rfl⟩
      rw [hrest.1] at hA hB
      refine .inr ⟨userA, userB, pkmA, pkmB, hflag, rfl, hA, hB, if_pos hflag, ?_, ?_⟩
      · rw [(entries_setStatus h₃).1, (entries_setStatus h₂).1, ← hentries]
        rfl
      · rw [(entries_setStatus h₃).2, (entries_setStatus h₂).2, addBattle, hbattles, hrest.2]

/-! ## Steps -/

theorem entries_lt (hp : s.sessions.Pointers) : ∀ entry ∈ s.entries, entry.ptr < s.nextPtr := by
  intro entry hentry
  obtain ⟨user, hu, rfl⟩ := List.mem_map.mp hentry
  exact hp.user_lt _ (mem_users hu)

/-- The steps that set no Pokemon. -/
theorem quiet_step {e : Event} (hptrs : (s.battleFieldList.map BattleField.ptr).Nodup)
    (hs : backendStep rt s e = some (s', out)) : (chosen rt s e = [] ∧ Quiet s s') ∨
      ∃ client message chance, e = .message client message chance ∧ message.setsPokemon = true := by
  cases e with
  | userDisconnected client => exact .inl ⟨rfl, quiet_disconnectLoop hs⟩
  | message client message chance =>
      cases message with
      | battleOperation => exact .inl ⟨rfl, quiet_operation hptrs hs⟩
      | battleGiveUp => exact .inl ⟨rfl, quiet_slotBattleGiveUp hs⟩
      | transferPokemon =>
          simp only [backendStep, slotGetMessage, slotTransferPokemon, Option.bind_eq_bind,
            Option.bind_eq_some_iff, Option.some.injEq, Prod.mk.injEq] at hs
          obtain ⟨db, -, rfl, -⟩ := hs
          exact .inl ⟨rfl, .of_eq rfl rfl⟩
      | _ => exact .inr ⟨_, _, _, rfl, rfl⟩

/-- The record stays true. -/
theorem recorded_step {e : Event} (hp : s.sessions.Pointers) (h : Recorded s.entries choices)
    (hs : backendStep rt s e = some (s', out)) : Recorded s'.entries (chosen rt s e ++ choices) := by
  rcases quiet_step (battlePtrs_nodup hp) hs with ⟨hnone, hquiet⟩ | ⟨client, message, chance, rfl, hsets⟩
  · rw [hnone]
    exact h.subset hquiet.entries
  · cases message with
    | userLogin userName userPsw =>
        obtain ⟨-, hentries⟩ := slotUserLogin_spec rt s client userName userPsw chance.entry
        rw [show slotUserLogin rt s client userName userPsw chance.entry = (s', out) from
          Option.some.inj hs] at hentries
        simp only [chosen]
        split at hentries
        · rename_i hpsw
          rw [if_pos hpsw, hentries]
          exact h.append (entries_lt hp)
        · rename_i hpsw
          rw [if_neg hpsw, hentries]
          exact h
    | battleInvite battleMode fromUser fromUserPkmId destUser serverPkmId =>
        rcases slotBattleInvite_spec chance hs with ⟨hnone, rfl⟩ | ⟨p, hchosen, hentries, -⟩
        · rw [hnone]
          exact h
        · rw [hchosen, hentries]
          exact h.choose p fromUserPkmId
    | battleInviteResponse battleMode fromUser destUser destUserPkmId flag =>
        rcases slotHandleBattleInviteResponse_spec client chance hs with
          ⟨hnone, rfl⟩ | ⟨userA, userB, pkmA, pkmB, -, -, -, -, hchosen, hentries, -⟩
        · rw [hnone]
          exact h
        · rw [hchosen, hentries]
          exact h.choose userB.ptr destUserPkmId
    | _ => cases hsets

/-- A battle of two users that is started by the answer of the second one. -/
structure AnswerStarts (rt : Runtime δ) (s : ServerBackend δ) (choices : List (Nat × Int))
    (battleMode : BattleMode) (fromUser destUser : QString) (destUserPkmId : Int) (userA userB : User)
    (battle : BattleField) : Prop where
  onlineA : userA ∈ s.userList ∧ userA.name = fromUser
  onlineB : userB ∈ s.userList ∧ userB.name = destUser
  names : fromUser ≠ destUser
  users : battle.userA = userA.ptr ∧ battle.userB = some userB.ptr
  mode : battle.mode = fieldMode battleMode
  pkmA : ∃ id pkm, lastChoice choices userA.ptr = some id ∧
    createPokemon rt.storage s.db fromUser id = some pkm ∧ battle.pkmA = pkm.enterBattle
  pkmB : ∃ pkm, createPokemon rt.storage s.db destUser destUserPkmId = some pkm ∧
    battle.pkmB = pkm.enterBattle

/-- A new battle of two users comes with an answer. -/
theorem started_step {e : Event} (hp : s.sessions.Pointers) (h : Recorded s.entries choices)
    (hs : backendStep rt s e = some (s', out)) (hb : battle ∈ s'.battleFieldList)
    (hnew : battle.ptr ∉ s.battleFieldList.map BattleField.ptr) (hB : battle.userB ≠ none) :
    ∃ client battleMode fromUser destUser destUserPkmId chance userA userB,
      e = .message client
        (.battleInviteResponse battleMode fromUser destUser destUserPkmId .success) chance ∧
      AnswerStarts rt s choices battleMode fromUser destUser destUserPkmId userA userB battle := by
  have hold : battle ∉ s.battleFieldList := fun hmem => hnew (List.mem_map_of_mem hmem)
  rcases quiet_step (battlePtrs_nodup hp) hs with ⟨-, hquiet⟩ | ⟨client, message, chance, rfl, hsets⟩
  · exact absurd (hquiet.battles _ (List.mem_map_of_mem hb)) hnew
  · cases message with
    | userLogin userName userPsw =>
        obtain ⟨hbattles, -⟩ := slotUserLogin_spec rt s client userName userPsw chance.entry
        rw [show slotUserLogin rt s client userName userPsw chance.entry = (s', out) from
          Option.some.inj hs] at hbattles
        exact absurd (hbattles ▸ hb) hold
    | battleInvite battleMode fromUser fromUserPkmId destUser serverPkmId =>
        rcases slotBattleInvite_spec chance hs with ⟨-, rfl⟩ | ⟨p, -, -, hbattles⟩
        · exact absurd hb hold
        · exact absurd ((hbattles battle hb).resolve_left hold) hB
    | battleInviteResponse battleMode fromUser destUser destUserPkmId flag =>
        rcases slotHandleBattleInviteResponse_spec client chance hs with
          ⟨-, rfl⟩ | ⟨userA, userB, pkmA, pkmB, rfl, husers, hpkmA, hpkmB, -, -, hbattles⟩
        · exact absurd hb hold
        · rw [hbattles, List.mem_append, List.mem_singleton] at hb
          obtain rfl := hb.resolve_left hold
          obtain ⟨hmemA, hmemB, hnameA, hneB, hnameB⟩ := invitedUsers_spec husers
          refine ⟨client, battleMode, fromUser, destUser, destUserPkmId, chance, userA, userB, rfl,
            ⟨hmemA, hnameA⟩, ⟨hmemB, hnameB⟩, ?_, ⟨rfl, rfl⟩, rfl, ?_, pkmB, hpkmB, rfl⟩
          · rw [← hnameB]
            exact Ne.symm hneB
          · exact ⟨userA.battlePkmId, pkmA, h _ (List.mem_map_of_mem hmemA), hpkmA, rfl⟩
    | _ => cases hsets

end ServerBackend

open ServerBackend

/-! ## Every run -/

theorem recorded_run {db : δ} {tr : List (Event × List Sent)}
    (h : (Machine.record (backendStep rt) (chosen rt)).AnyRun (newServerBackend db, []) (s, choices) tr) :
    s.sessions.Pointers ∧ Recorded s.entries choices := by
  refine h.stateInvariant (I := fun r => r.1.sessions.Pointers ∧ Recorded r.1.entries r.2)
    ⟨(newServerBackend_consistent db).1, fun entry hentry => by cases hentry⟩ ?_
  rintro ⟨s, choices⟩ e ⟨s', choices'⟩ out ⟨hp, hrecorded⟩ - hrecord
  obtain ⟨hs, rfl⟩ := Machine.record_eq_some.mp hrecord
  exact ⟨pointers_step hp hs, recorded_step hp hrecorded hs⟩

/-- In every run, a new battle of two users is started by a positive answer of the second one in the name
of the first one. Its mode and the Pokemon of the second user are those of the answer; the Pokemon of the
first user is the one that was last chosen for this user, in whichever invitation or answer. -/
theorem battle_from_answer {db : δ} {tr : List (Event × List Sent)} {e : Event}
    (h : (Machine.record (backendStep rt) (chosen rt)).AnyRun (newServerBackend db, []) (s, choices) tr)
    (hs : backendStep rt s e = some (s', out)) (hb : battle ∈ s'.battleFieldList)
    (hnew : battle.ptr ∉ s.battleFieldList.map BattleField.ptr) (hB : battle.userB ≠ none) :
    ∃ client battleMode fromUser destUser destUserPkmId chance userA userB,
      e = .message client
        (.battleInviteResponse battleMode fromUser destUser destUserPkmId .success) chance ∧
      AnswerStarts rt s choices battleMode fromUser destUser destUserPkmId userA userB battle := by
  obtain ⟨hp, hrecorded⟩ := recorded_run h
  exact started_step hp hrecorded hs hb hnew hB

def recordedStep : Machine (ServerBackend Tables × List (Nat × Int)) Event Sent :=
  Machine.record (backendStep smallRuntime) (chosen smallRuntime)

/-- The user `b` accepts the invitation of `a`. -/
theorem battle_from_answer_example :
    ∃ s choices tr, recordedStep.AnyRun (newServerBackend smallTables, []) (s, choices) tr ∧
      tr.map Prod.fst = [invite 1 "a" "b", login 2 "b", login 1 "a"] ∧
      ∃ s' out, backendStep smallRuntime s (accept 2 "a" "b") = some (s', out) ∧
        ∃ battle ∈ s'.battleFieldList, ∃ client battleMode fromUser destUser destUserPkmId chance
          userA userB, accept 2 "a" "b" = .message client
              (.battleInviteResponse battleMode fromUser destUser destUserPkmId .success) chance ∧
            AnswerStarts smallRuntime s choices battleMode fromUser destUser destUserPkmId userA userB
              battle := by
  obtain ⟨hrun, hevents⟩ := Machine.run_after recordedStep Machine.always
    (newServerBackend smallTables, []) [invite 1 "a" "b", login 2 "b", login 1 "a"] (by decide +kernel)
  have hstep := Machine.step_eq_after (backendStep smallRuntime)
    (Machine.stateAfter recordedStep Machine.always (newServerBackend smallTables, [])
      [invite 1 "a" "b", login 2 "b", login 1 "a"]).1 (accept 2 "a" "b") (by decide +kernel)
  obtain ⟨battle, hb, hnew, hB⟩ : ∃ battle ∈ (Machine.stateAfter (backendStep smallRuntime) Machine.always
      (Machine.stateAfter recordedStep Machine.always (newServerBackend smallTables, [])
        [invite 1 "a" "b", login 2 "b", login 1 "a"]).1 [accept 2 "a" "b"]).battleFieldList,
      battle.ptr ∉ (Machine.stateAfter recordedStep Machine.always (newServerBackend smallTables, [])
        [invite 1 "a" "b", login 2 "b", login 1 "a"]).1.battleFieldList.map BattleField.ptr ∧
        battle.userB ≠ none := by decide +kernel
  exact ⟨_, _, _, hrun.any, hevents, _, _, hstep, battle, hb, battle_from_answer hrun.any hstep hb hnew hB⟩

/-- A login after which the first Pokemon is the one for battles. -/
def loginWithFirst (client : Nat) (userName : QString) : Event :=
  .message client (.userLogin userName "") { noChance with entry := ⟨0, 1⟩ }

/-- The first Pokemon of `a` has the number 1 and the second one 2. -/
def twoPokemon : Tables := tablesStorage.insertPokemon smallTables "a" 1

/-- An answer without an invitation starts a battle. And behind two invitations of `a`, an answer to the
first one starts a battle in the mode of the answer, with the Pokemon of the second invitation. -/
theorem answer_without_invitation :
    (∃ s tr, (backendStep smallRuntime).AnyRun (newServerBackend smallTables) s tr ∧
      tr.map Prod.fst = [accept 2 "a" "b", login 2 "b", loginWithFirst 1 "a"] ∧
      s.battleFieldList.map BattleField.participants = [[0, 1]]) ∧
    ∃ s tr, (backendStep smallRuntime).AnyRun (newServerBackend twoPokemon) s tr ∧
      tr.map Prod.fst =
        [.message 2 (.battleInviteResponse .expBattle "a" "b" 1 .success) noChance,
          .message 1 (.battleInvite .duelBattle "a" 2 "c" 0) noChance,
          .message 1 (.battleInvite .duelBattle "a" 1 "b" 0) noChance,
          login 3 "c", login 2 "b", login 1 "a"] ∧
      s.battleFieldList.map (fun battle => (battle.participants, battle.mode, battle.pkmA.id)) =
        [([0, 1], .expBattle, 2)] := by
  obtain ⟨hrun, hevents⟩ := Machine.run_after (backendStep smallRuntime) Machine.always
    (newServerBackend smallTables) [accept 2 "a" "b", login 2 "b", loginWithFirst 1 "a"] (by decide +kernel)
  obtain ⟨hrun', hevents'⟩ := Machine.run_after (backendStep smallRuntime) Machine.always
    (newServerBackend twoPokemon)
    [.message 2 (.battleInviteResponse .expBattle "a" "b" 1 .success) noChance,
      .message 1 (.battleInvite .duelBattle "a" 2 "c" 0) noChance,
      .message 1 (.battleInvite .duelBattle "a" 1 "b" 0) noChance,
      login 3 "c", login 2 "b", login 1 "a"] (by decide +kernel)
  exact ⟨⟨_, _, hrun.any, hevents, by decide +kernel⟩, _, _, hrun'.any, hevents', by decide +kernel⟩

end TermCollection.Pokemon
