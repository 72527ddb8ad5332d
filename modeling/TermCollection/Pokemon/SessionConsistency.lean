import Mathlib.Data.List.InsertIdx
import TermCollection.Pokemon.Lemmas.Battles
import TermCollection.Pokemon.Lemmas.Leaving
import TermCollection.Pokemon.Tables

/-!
# Sessions and battles agree

Each handler is a sequence of moves of the lobby of the users, as long as an accepted invitation finds
both users free and a disconnection finds the battle of the user who leaves.
-/

namespace TermCollection.Pokemon

variable {δ : Type} {rt : Runtime δ} {s s' : ServerBackend δ} {out : List Sent} {p i : Nat}
variable {battle : BattleField} {user : User} {client : Nat} {chance : Chance}

/-! ## The condition -/

/-- An invitation is accepted by two users of whom none is in a battle. -/
def acceptsFree (s : ServerBackend δ) (fromUser destUser : QString) (flag : BattleStartStatus) : Bool :=
  match s.invitedUsers fromUser destUser with
  | none => true
  | some (userA, userB) => flag ≠ .success || (userA.status ≠ .battling && userB.status ≠ .battling)

/-- The search of a disconnection stops at the user's own battle, at the user's own side. -/
def findsOwnBattle (s : ServerBackend δ) (user : User) : Bool :=
  user.status ≠ .battling ||
    match s.findBattleByIndex with
    | some (some (_, p, _)) => p = user.ptr
    | _ => false

/-- The same for every user whom a disconnection removes. -/
def leavesOwnBattles (client : Nat) : Nat → Nat → ServerBackend δ → Bool
  | 0, _, _ => true
  | fuel + 1, i, s =>
      match s.userList[i]? with
      | none => true
      | some user =>
          if user.userSocket = client then
            findsOwnBattle s user &&
              match s.leaveBattle user with
              | none => true
              | some (s, _) =>
                  leavesOwnBattles client fuel (i + 1) { s with userList := s.userList.eraseIdx i }
          else leavesOwnBattles client fuel (i + 1) s

def keepsSessions (s : ServerBackend δ) : Event → Bool
  | .message _ (.userLogin ..) chance => userStatus chance.entry.status ≠ .battling
  | .message _ (.battleInviteResponse _ fromUser destUser _ flag) _ =>
      acceptsFree s fromUser destUser flag
  | .message .. => true
  | .userDisconnected client => leavesOwnBattles client s.userList.length 0 s

/-! ## Moves -/

/-- The users and battles of a state become those of another one by moves of their lobby. -/
def Evolves (s s' : ServerBackend δ) : Prop :=
  s.sessions.Pointers → s'.sessions.Pointers ∧ Lobby.Moves s.sessions.lobby s'.sessions.lobby

namespace Evolves

theorem refl (s : ServerBackend δ) : Evolves s s := fun h => ⟨h, .refl⟩

theorem trans {s₁ s₂ s₃ : ServerBackend δ} (h₁ : Evolves s₁ s₂) (h₂ : Evolves s₂ s₃) :
    Evolves s₁ s₃ := fun h => by
  obtain ⟨hp, hm⟩ := h₁ h
  obtain ⟨hp', hm'⟩ := h₂ hp
  exact ⟨hp', hm.trans hm'⟩

theorem of_eq (h : s'.sessions = s.sessions) : Evolves s s' := fun hp => by
  rw [h]
  exact ⟨hp, .refl⟩

theorem endBattle {ps : List Nat} (hb : (p, ps) ∈ s.sessions.battles)
    (h : s'.sessions = s.sessions.endBattle p ps) : Evolves s s' := fun hp => by
  rw [h]
  exact ⟨hp.endBattle p ps, .single (Sessions.endBattle_move hp hb)⟩

theorem setAction {skillIndex : Int} {userIndex : Nat} {chance : TurnChance}
    (h : s.setAction rt p skillIndex userIndex chance = some (s', out)) : Evolves s s' := fun hp => by
  rcases ServerBackend.sessions_setAction hp h with hsame | ⟨ps, hb, hend⟩
  · exact of_eq hsame hp
  · exact endBattle hb hend hp

end Evolves

/-! ## Battle operations -/

open ServerBackend

theorem evolves_operateA {skillIndex : Int} {userName : QString}
    (h : operateA rt s battle skillIndex userName chance i = some (s', out)) : Evolves s s' := by
  simp only [operateA, Option.bind_eq_bind, Option.bind_eq_some_iff] at h
  obtain ⟨userA, -, h⟩ := h
  split at h
  · simp only [Option.bind_eq_some_iff, Prod.exists] at h
    obtain ⟨s₁, out₁, h₁, battle', -, h⟩ := h
    split at h
    · simp only [Option.bind_eq_some_iff, Option.some.injEq, Prod.mk.injEq, Prod.exists] at h
      obtain ⟨s₂, out₂, h₂, rfl, -⟩ := h
      exact (Evolves.setAction h₁).trans (.setAction h₂)
    · cases h
      exact .setAction h₁
  · cases h
    exact .refl _

theorem evolves_operateB {skillIndex : Int} {userName : QString}
    (h : operateB rt s battle skillIndex userName chance i = some (s', out)) : Evolves s s' := by
  simp only [operateB, Option.bind_eq_bind, Option.bind_eq_some_iff] at h
  obtain ⟨q, -, userB, -, h⟩ := h
  split at h
  · exact .setAction h
  · cases h
    exact .refl _

theorem evolves_operationLoop {isUserA skillIndex : Int} {userName : QString} {fuel : Nat}
    (h : operationLoop rt isUserA skillIndex userName chance fuel i s = some (s', out)) :
    Evolves s s' := by
  induction fuel generalizing s i out with
  | zero => cases h; exact .refl _
  | succ fuel ih =>
      unfold operationLoop at h
      split at h
      · cases h; exact .refl _
      · simp only [Option.bind_eq_bind, Option.bind_eq_some_iff, Option.some.injEq, Prod.mk.injEq,
          Prod.exists] at h
        obtain ⟨s₁, out₁, h₁, s₂, out₂, h₂, rfl, -⟩ := h
        have hone : Evolves s s₁ := by
          split at h₁
          · exact evolves_operateA h₁
          · exact evolves_operateB h₁
        exact hone.trans (ih h₂)

/-! ## Leaving a battle -/

/-- The battle that a search finds is in the list, and its users are the one found and the other one. -/
theorem findBattle_spec {name : Nat → Option QString} {battles : List BattleField} {dest : Option Nat}
    (h : findBattle s name i battles = some (some (battle, p, dest))) :
    battle ∈ battles ∧ ∀ q, q ∈ battle.participants ↔ q = p ∨ q ∈ dest.toList := by
  induction battles generalizing i with
  | nil => cases h
  | cons b battles ih =>
      simp only [findBattle, Option.bind_eq_bind, Option.bind_eq_some_iff] at h
      obtain ⟨userA, -, wanted, -, h⟩ := h
      split at h
      · simp only [Option.some.injEq, Prod.mk.injEq] at h
        obtain ⟨rfl, rfl, rfl⟩ := h
        exact ⟨List.mem_cons_self, fun q => by rw [BattleField.participants, List.mem_cons]⟩
      · simp only [Option.bind_eq_some_iff] at h
        obtain ⟨pB, hB, userB, -, h⟩ := h
        split at h
        · simp only [Option.some.injEq, Prod.mk.injEq] at h
          obtain ⟨rfl, rfl, rfl⟩ := h
          refine ⟨List.mem_cons_self, fun q => ?_⟩
          simp [BattleField.participants, hB, or_comm]
        · obtain ⟨hmem, hps⟩ := ih h
          exact ⟨List.mem_cons_of_mem _ hmem, hps⟩

theorem sessions_winByLeave {dest : Option Nat} (h : s.winByLeave battle dest = some (s', out)) :
    s'.sessions = (s.sessions.idle dest.toList).removeBattle battle.ptr := by
  rcases winByLeave_cases h with ⟨rfl, rfl⟩ | ⟨p, s₁, rfl, h₁, rfl⟩
  · rw [sessions_removeBattle, Option.toList_none, Sessions.idle_nil]
  · rw [sessions_removeBattle, (sessions_setStatus h₁).2, Option.toList_some, Sessions.idle_singleton]

theorem mem_battles (hb : battle ∈ s.battleFieldList) :
    (battle.ptr, battle.participants) ∈ s.sessions.battles :=
  List.mem_map_of_mem (f := fun battle : BattleField => (battle.ptr, battle.participants)) hb

theorem evolves_slotBattleGiveUp {giveUpUser : QString}
    (h : slotBattleGiveUp s giveUpUser = some (s', out)) : Evolves s s' := by
  rcases slotBattleGiveUp_cases h with ⟨rfl, -⟩ | ⟨battle, p, dest, s₁, hfound, h₁, h⟩
  · exact .refl _
  · obtain ⟨hmem, hps⟩ := findBattle_spec hfound
    apply Evolves.endBattle (mem_battles hmem)
    rw [sessions_winByLeave h, (sessions_setStatus h₁).2, ← Sessions.idle_singleton,
      Sessions.idle_idle, Sessions.endBattle]
    congr 1
    apply Sessions.idle_congr
    intro q
    rw [hps q, List.singleton_append, List.mem_cons]

/-! ## Logins and invitations -/

theorem evolves_addUser {status : UserStatus} (hstatus : status ≠ .battling)
    (h : s'.sessions = s.sessions.addUser status) : Evolves s s' := fun hp => by
  rw [h, Sessions.lobby_addUser _ hstatus]
  exact ⟨hp.addUser status, .single (.join _ _)⟩

theorem sessions_slotUserLogin (rt : Runtime δ) (s : ServerBackend δ) (client : Nat)
    (userName userPsw : QString) (entry : UserMemory) :
    let result := slotUserLogin rt s client userName userPsw entry
    result.1.sessions = s.sessions ∨ result.1.sessions = s.sessions.addUser (userStatus entry.status) := by
  simp only [slotUserLogin]
  split
  · exact .inl rfl
  · split
    · exact .inr (by simp [sessions, Sessions.addUser])
    · exact .inl rfl

theorem evolves_slotUserLogin (rt : Runtime δ) (s : ServerBackend δ) (client : Nat)
    (userName userPsw : QString) {entry : UserMemory} (hstatus : userStatus entry.status ≠ .battling) :
    Evolves s (slotUserLogin rt s client userName userPsw entry).1 := by
  rcases sessions_slotUserLogin rt s client userName userPsw entry with hsame | hjoined
  · exact .of_eq hsame
  · exact evolves_addUser hstatus hjoined

/-- A battle of free users starts: they become busy one after the other. -/
theorem evolves_startBattle (ps : List Nat) (hnodup : ps.Nodup)
    (hfree : ∀ p ∈ ps, p ∈ s.sessions.lobby.online ∧ p ∉ s.sessions.lobby.busy)
    (h : s'.sessions = (s.sessions.addBattle ps).engage ps) : Evolves s s' := fun hp => by
  have honline : ∀ p ∈ ps, p ∈ (s.sessions.addBattle ps).lobby.online := fun p hmem => by
    rw [Sessions.lobby_addBattle]
    exact (hfree p hmem).1
  rw [h, Sessions.lobby_engage honline, Sessions.lobby_addBattle]
  exact ⟨(hp.addBattle ps).engage ps, .single (.start _ ps hnodup hfree)⟩

theorem mem_users {user : User} (hu : user ∈ s.userList) :
    (user.ptr, user.status) ∈ s.sessions.users :=
  List.mem_map_of_mem (f := fun user : User => (user.ptr, user.status)) hu

/-- A user who is not in a battle is online and not busy. -/
theorem free_of_mem (hp : s.sessions.Pointers) (hu : user ∈ s.userList) (hs : user.status ≠ .battling) :
    user.ptr ∈ s.sessions.lobby.online ∧ user.ptr ∉ s.sessions.lobby.busy :=
  ⟨List.mem_map_of_mem (f := Prod.fst) (mem_users hu), hp.not_busy (mem_users hu) hs⟩

theorem sessions_addBattle (s : ServerBackend δ) (userA : Nat) (userB : Option Nat)
    (pkmA pkmB : PokemonBase) (mode : FieldMode) :
    (s.addBattle userA userB pkmA pkmB mode).sessions =
      s.sessions.addBattle (userA :: userB.toList) := by
  simp [sessions, addBattle, Sessions.addBattle, newBattleField, BattleField.participants]

theorem evolves_slotBattleInvite {battleMode : BattleMode} {fromUser destUser : QString}
    {fromUserPkmId serverPkmId : Int}
    (h : slotBattleInvite rt s client battleMode fromUser fromUserPkmId destUser serverPkmId =
      some (s', out)) : Evolves s s' := by
  unfold slotBattleInvite at h
  split at h
  · cases h; exact .refl _
  · rename_i userA hA
    split at h
    · cases h; exact .refl _
    · rename_i hstatus
      simp only [Option.bind_eq_bind, Option.bind_eq_some_iff] at h
      obtain ⟨s₁, h₁, h⟩ := h
      have hset := sessions_setBattlePkmId h₁
      split at h
      · simp only [Option.bind_eq_some_iff, Option.some.injEq, Prod.mk.injEq] at h
        obtain ⟨pkmA, -, pkmB, -, s₂, h₂, rfl, -⟩ := h
        intro hp
        have hfree := free_of_mem hp (List.mem_of_find?_eq_some hA) hstatus
        refine evolves_startBattle [userA.ptr] (List.nodup_singleton _) ?_ ?_ hp
        · intro p hmem
          rw [List.mem_singleton.mp hmem]
          exact hfree
        · rw [(sessions_setStatus h₂).2, sessions_addBattle, hset]
          rfl
      · split at h
        · cases h; exact .of_eq hset
        · split at h
          · cases h; exact .of_eq hset
          · cases h; exact .of_eq hset

theorem invitedUsers_spec {fromUser destUser : QString} {userA userB : User}
    (h : s.invitedUsers fromUser destUser = some (userA, userB)) :
    userA ∈ s.userList ∧ userB ∈ s.userList ∧ userA.name = fromUser ∧ userB.name ≠ fromUser ∧
      userB.name = destUser := by
  simp only [invitedUsers, Option.bind_eq_bind, Option.bind_eq_some_iff, Option.some.injEq,
    Prod.mk.injEq] at h
  obtain ⟨_, hA, _, hB, rfl, rfl⟩ := h
  have hAname := List.find?_some hA
  have hBname := List.find?_some hB
  simp only [decide_eq_true_eq] at hAname hBname
  exact ⟨List.mem_reverse.mp (List.mem_of_find?_eq_some hA),
    List.mem_reverse.mp (List.mem_of_find?_eq_some hB), hAname, hBname.1, hBname.2⟩

theorem evolves_slotHandleBattleInviteResponse {battleMode : BattleMode} {fromUser destUser : QString}
    {destUserPkmId : Int} {flag : BattleStartStatus} (hc : acceptsFree s fromUser destUser flag = true)
    (h : slotHandleBattleInviteResponse rt s battleMode fromUser destUser destUserPkmId flag =
      some (s', out)) : Evolves s s' := by
  unfold slotHandleBattleInviteResponse at h
  unfold acceptsFree at hc
  split at h
  · cases h; exact .refl _
  · rename_i userA userB husers
    rw [husers] at hc
    split at h
    · cases h; exact .refl _
    · rename_i hflag
      simp only [hflag, decide_false, Bool.false_or, Bool.and_eq_true, decide_eq_true_eq] at hc
      simp only [Option.bind_eq_bind, Option.bind_eq_some_iff, Option.some.injEq, Prod.mk.injEq] at h
      obtain ⟨s₁, h₁, pkmA, -, pkmB, -, s₂, h₂, s₃, h₃, rfl, -⟩ := h
      obtain ⟨hA, hB, hAname, hBname, -⟩ := invitedUsers_spec husers
      intro hp
      have hfreeA := free_of_mem hp hA hc.1
      have hfreeB := free_of_mem hp hB hc.2
      have hne : userA.ptr ≠ userB.ptr := by
        intro hptr
        have hnodup : (s.userList.map User.ptr).Nodup := by
          have hnodup := hp.users
          rw [sessions, List.map_map] at hnodup
          exact hnodup
        exact hBname (List.inj_on_of_nodup_map hnodup hA hB hptr ▸ hAname)
      refine evolves_startBattle [userA.ptr, userB.ptr] ?_ ?_ ?_ hp
      · simpa using hne
      · intro p hmem
        simp only [List.mem_cons, List.not_mem_nil, or_false] at hmem
        rcases hmem with rfl | rfl
        · exact hfreeA
        · exact hfreeB
      · rw [(sessions_setStatus h₃).2, (sessions_setStatus h₂).2, sessions_addBattle,
          sessions_setBattlePkmId h₁]
        rfl

/-! ## Disconnections -/

theorem sessions_eraseIdx (s : ServerBackend δ) (i : Nat) :
    ServerBackend.sessions { s with userList := s.userList.eraseIdx i } = s.sessions.removeUser i := by
  simp [sessions, Sessions.removeUser, List.eraseIdx_map]

theorem sessions_userAt {user : User} (hi : s.userList[i]? = some user) :
    s.sessions.users[i]? = some (user.ptr, user.status) := by
  simp [sessions, hi]

/-- The users who are idle after a removal are those who were made idle before it. -/
theorem removeBattle_idle (v : Sessions) (ps qs : List Nat) (p : Nat) :
    ((v.idle ps).removeBattle p).idle qs = (v.idle (ps ++ qs)).removeBattle p := by
  rw [← Sessions.idle_idle]
  rfl

/-- A user whom a disconnection removes leaves the lobby, after the end of the battle. -/
theorem evolves_leave {s₁ : ServerBackend δ} (hi : s.userList[i]? = some user)
    (hc : findsOwnBattle s user = true) (h : s.leaveBattle user = some (s₁, out)) :
    Evolves s { s₁ with userList := s₁.userList.eraseIdx i } := fun hp => by
  rw [sessions_eraseIdx]
  have huser := sessions_userAt hi
  rcases leaveBattle_cases h with ⟨rfl, -, hnone⟩ | ⟨battle, p, dest, hstatus, hfound, h⟩
  · have hidle : user.status ≠ .battling := by
      intro hstatus
      simp [findsOwnBattle, hstatus, hnone hstatus] at hc
    refine ⟨hp.removeUser i, .single ?_⟩
    have hleave := Sessions.removeUser_move hp huser
    have hfree := hp.not_busy (List.mem_of_getElem? huser) hidle
    rw [Sessions.lobby_idle] at hleave
    have hsame : s₁.sessions.lobby.busy \ {p | p ∈ [user.ptr]} = s₁.sessions.lobby.busy := by
      ext q
      simp only [List.mem_singleton, Set.mem_sdiff, Set.mem_ofPred_eq, and_iff_left_iff_imp]
      rintro hq rfl
      exact hfree hq
    rwa [hsame] at hleave
  · obtain rfl : p = user.ptr := by simpa [findsOwnBattle, hstatus, hfound] using hc
    obtain ⟨hmem, hps⟩ := findBattle_spec hfound
    have hleft := sessions_winByLeave h
    have hend : s.sessions.endBattle battle.ptr battle.participants =
        s₁.sessions.idle [user.ptr] := by
      rw [hleft, removeBattle_idle, Sessions.endBattle]
      congr 1
      apply Sessions.idle_congr
      intro q
      rw [hps q, List.mem_append, List.mem_singleton, or_comm]
    have hp₁ : s₁.sessions.Pointers := by
      rw [hleft, Sessions.idle_eq]
      exact (hp.mapStatus _).removeBattle _
    obtain ⟨status, huser₁⟩ : ∃ status, s₁.sessions.users[i]? = some (user.ptr, status) := by
      rw [hleft, Sessions.idle_eq]
      simp [Sessions.removeBattle, huser]
    refine ⟨hp₁.removeUser i, .tail (.single (Sessions.endBattle_move hp (mem_battles hmem))) ?_⟩
    rw [hend]
    exact Sessions.removeUser_move hp₁ huser₁

theorem evolves_disconnectLoop {fuel : Nat} (hc : leavesOwnBattles client fuel i s = true)
    (h : disconnectLoop client fuel i s = some (s', out)) : Evolves s s' := by
  induction fuel generalizing s i out with
  | zero => cases h; exact .refl _
  | succ fuel ih =>
      unfold disconnectLoop at h
      unfold leavesOwnBattles at hc
      split at h
      · cases h; exact .refl _
      · rename_i user hi
        simp only [hi] at hc
        split at h
        · rename_i hsocket
          simp only [Option.bind_eq_bind, Option.bind_eq_some_iff, Option.some.injEq, Prod.mk.injEq,
            Prod.exists] at h
          obtain ⟨s₁, out₁, h₁, s₂, out₂, h₂, rfl, -⟩ := h
          simp only [hsocket, ↓reduceIte, Bool.and_eq_true, h₁] at hc
          exact (evolves_leave hi hc.1 h₁).trans (ih hc.2 h₂)
        · rename_i hsocket
          simp only [hsocket, ↓reduceIte] at hc
          exact ih hc h

/-! ## Every run -/

theorem evolves_step {e : Event} (hc : keepsSessions s e = true)
    (h : backendStep rt s e = some (s', out)) : Evolves s s' := by
  cases e with
  | userDisconnected client => exact evolves_disconnectLoop hc h
  | message client message chance =>
      cases message with
      | userLogin userName userPsw =>
          have hlogin := evolves_slotUserLogin rt s client userName userPsw (of_decide_eq_true hc)
          rw [Option.some.inj h] at hlogin
          exact hlogin
      | battleInvite => exact evolves_slotBattleInvite h
      | battleInviteResponse => exact evolves_slotHandleBattleInviteResponse hc h
      | battleOperation => exact evolves_operationLoop h
      | transferPokemon =>
          simp only [backendStep, slotGetMessage, slotTransferPokemon, Option.bind_eq_bind,
            Option.bind_eq_some_iff, Option.some.injEq, Prod.mk.injEq] at h
          obtain ⟨db, -, rfl, -⟩ := h
          exact .of_eq rfl
      | battleGiveUp => exact evolves_slotBattleGiveUp h

/-- The users of a server come about by moves of a lobby that starts empty. -/
theorem evolves_run {s₀ : ServerBackend δ} {tr : List (Event × List Sent)}
    (h : (backendStep rt).Run (keepsSessions · ·) s₀ s tr) : Evolves s₀ s :=
  h.stateInvariant (I := Evolves s₀) (.refl _) fun _ _ _ _ hI hc hs => hI.trans (evolves_step hc hs)

theorem mem_games {v : Sessions} : p ∈ v.lobby.games.flatten ↔ ∃ battle ∈ v.battles, p ∈ battle.2 := by
  simp only [Sessions.lobby, List.mem_flatten, List.mem_map, exists_exists_and_eq_and]

theorem mem_games_sessions : p ∈ s.sessions.lobby.games.flatten ↔
    ∃ battle ∈ s.battleFieldList, p ∈ battle.participants := by
  simp only [mem_games, sessions, List.mem_map, exists_exists_and_eq_and]

/-- The server without users is consistent. -/
theorem newServerBackend_consistent (db : δ) :
    (newServerBackend db).sessions.Pointers ∧ (newServerBackend db).sessions.lobby.Consistent := by
  refine ⟨⟨List.nodup_nil, List.nodup_nil, ?_, ?_⟩, ?_, List.nodup_nil, ?_⟩
  · intro user hu
    cases hu
  · intro battle hb
    cases hb
  · intro p hp
    cases hp
  · ext p
    constructor
    · intro hp
      cases hp
    · intro hp
      cases hp

/-- While no new user is BATTLING, accepted invitations find both users free and disconnections find the battle
of the user who leaves, every battle refers to users of the list, every user takes part in at most one battle, and the
users in battle are those whose status is BATTLING. -/
theorem sessions_agree_with_battles (rt : Runtime δ) (db : δ) {tr : List (Event × List Sent)}
    (h : (backendStep rt).Run (keepsSessions · ·) (newServerBackend db) s tr) :
    (∀ battle ∈ s.battleFieldList, ∀ p ∈ battle.participants, ∃ user ∈ s.userList, user.ptr = p) ∧
      (∀ user ∈ s.userList,
        (s.battleFieldList.filter fun battle => user.ptr ∈ battle.participants).length ≤ 1) ∧
      ∀ user ∈ s.userList, user.status = .battling ↔
        ∃ battle ∈ s.battleFieldList, user.ptr ∈ battle.participants := by
  obtain ⟨hnew, hempty⟩ := newServerBackend_consistent db
  obtain ⟨hp, hmoves⟩ := evolves_run h hnew
  have hc := hempty.moves hmoves
  refine ⟨?_, ?_, ?_⟩
  · intro battle hb p hmem
    have honline := hc.online p (mem_games_sessions.mpr ⟨battle, hb, hmem⟩)
    simp only [sessions, Sessions.lobby, Set.mem_ofPred_eq, List.map_map, List.mem_map] at honline
    exact honline
  · intro user hu
    have honce := hc.game_unique user.ptr
    simp only [sessions, Sessions.lobby, List.map_map, List.filter_map, List.length_map] at honce
    exact honce
  · intro user hu
    rw [← mem_games_sessions]
    have hbusy : user.ptr ∈ s.sessions.lobby.busy ↔ user.ptr ∈ s.sessions.lobby.games.flatten := by
      rw [hc.busy, Set.mem_ofPred_eq]
    rw [← hbusy]
    constructor
    · intro hs
      have hmem := mem_users hu
      rw [hs] at hmem
      exact hmem
    · exact fun hmem => hp.eq_of_mem (mem_users hu) hmem

/-- The user `a` invites `b` and `c`, and both accept. The newest event comes first. -/
def twoInvitations : List Event :=
  [accept 3 "a" "c", accept 2 "a" "b", invite 1 "a" "c", invite 1 "a" "b",
    login 3 "c", login 2 "b", login 1 "a"]

theorem sessions_agree_with_battles_example :
    ∃ s tr, (backendStep smallRuntime).Run (keepsSessions · ·) (newServerBackend smallTables) s tr ∧
      tr.map Prod.fst = twoInvitations.tail ∧ s.battleFieldList.map (·.participants) = [[0, 1]] ∧
      ∀ user ∈ s.userList, user.status = .battling ↔
        ∃ battle ∈ s.battleFieldList, user.ptr ∈ battle.participants := by
  obtain ⟨hrun, hevents⟩ := Machine.run_after (backendStep smallRuntime) keepsSessions
    (newServerBackend smallTables) twoInvitations.tail (by decide +kernel)
  exact ⟨_, _, hrun, hevents, by decide +kernel,
    (sessions_agree_with_battles smallRuntime smallTables hrun).2.2⟩

/-- Nobody checks the status of a user whose invitation is accepted: `a` takes part in two battles. -/
theorem second_invitation_accepted :
    ∃ s tr, (backendStep smallRuntime).AnyRun (newServerBackend smallTables) s tr ∧
      tr.map Prod.fst = twoInvitations ∧ ∃ user ∈ s.userList, user.name = "a" ∧
        (s.battleFieldList.filter fun battle => user.ptr ∈ battle.participants).length = 2 := by
  obtain ⟨hrun, hevents⟩ := Machine.run_after (backendStep smallRuntime) Machine.always
    (newServerBackend smallTables) twoInvitations (by decide +kernel)
  exact ⟨_, _, hrun.any, hevents, by decide +kernel⟩

end TermCollection.Pokemon
