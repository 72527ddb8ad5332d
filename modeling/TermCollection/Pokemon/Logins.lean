import TermCollection.Pokemon.Lemmas.Frames
import TermCollection.Pokemon.Tables

/-!
# Logins (`slotUserLogin`, `User.cpp`)

A login appends a copy of a new user to the list. The hand-written copy constructor leaves out the status
and the Pokemon for battles, which are then what was in memory before.
-/

namespace TermCollection.Pokemon

variable {δ : Type} {rt : Runtime δ} {s s' : ServerBackend δ} {out : List Sent} {i client : Nat}
variable {user : User} {userName userPsw : QString}

inductive LoginEvent where
  | userLogin (client : Nat) (userName userPsw : QString) (stack entry : UserMemory)
  | userDisconnected (client : Nat)

/-- `User(QString, QTcpSocket*)`, at no address of the list. -/
def constructUser (rt : Runtime δ) (s : ServerBackend δ) (userName : QString) (client : Nat)
    (memory : UserMemory) : User :=
  let pokemonList := rt.storage.selectPokemonIds s.db userName
  { ptr := s.nextPtr
    name := userName
    userSocket := client
    status := .idle
    battlePkmId := pokemonList.head?.getD memory.battlePkmId
    pokemonList := pokemonList }

/-- `User(const User&)`. -/
def copyUser (source : User) (memory : UserMemory) : User :=
  { source with status := userStatus memory.status, battlePkmId := memory.battlePkmId }

namespace ServerBackend

/-- `slotUserLogin` with the memory that the new user is constructed in, and that of its copy. -/
def slotUserLoginInto (rt : Runtime δ) (s : ServerBackend δ) (client : Nat) (userName userPsw : QString)
    (stack entry : UserMemory) : ServerBackend δ × List Sent :=
  match (rt.storage.selectPassword s.db userName).getLast? with
  | none => (s, [⟨client, .userLoginResponse .userNotExists⟩])
  | some psw =>
      if psw = userPsw then
        let status := if s.userList.any (·.name = userName) then .serverRefused else .success
        let curUser := constructUser rt s userName client stack
        ({ s with userList := s.userList ++ [copyUser curUser entry], nextPtr := s.nextPtr + 1 },
          [⟨client, .userLoginResponse status⟩])
      else (s, [⟨client, .userLoginResponse .userPswError⟩])

/-- The memory of the new user is not seen in its copy. -/
theorem slotUserLoginInto_eq (stack entry : UserMemory) :
    slotUserLoginInto rt s client userName userPsw stack entry =
      slotUserLogin rt s client userName userPsw entry := rfl

end ServerBackend

def loginStep (rt : Runtime δ) : Machine (ServerBackend δ) LoginEvent Sent
  | s, .userLogin client userName userPsw stack entry =>
      some (s.slotUserLoginInto rt client userName userPsw stack entry)
  | s, .userDisconnected client => s.slotUserDisconnected client

/-! ## What a login is to do -/

/-- An entry in the state in which a new user is constructed. -/
structure NewEntry (rt : Runtime δ) (s : ServerBackend δ) (client : Nat) (userName : QString)
    (user : User) : Prop where
  name : user.name = userName
  userSocket : user.userSocket = client
  status : user.status = .idle
  pokemonList : user.pokemonList = rt.storage.selectPokemonIds s.db userName
  battlePkmId : ∀ id ∈ user.pokemonList.head?, user.battlePkmId = id

/-- The list of users changes with a success only, and then by a new entry. -/
structure AtomicLogin (rt : Runtime δ) (s : ServerBackend δ) (client : Nat) (userName : QString)
    (result : ServerBackend δ × List Sent) (status : LoginStatus) : Prop where
  answer : result.2 = [⟨client, .userLoginResponse status⟩]
  refused : status ≠ .success → result.1.userList = s.userList
  appended : status = .success →
    ∃ user, result.1.userList = s.userList ++ [user] ∧ NewEntry rt s client userName user

/-- A right password comes with a name that nobody is logged in with, and the memory of the entry holds
what the copy constructor leaves out. -/
def cleanLogin (rt : Runtime δ) (s : ServerBackend δ) : LoginEvent → Bool
  | .userLogin _ userName userPsw _ entry =>
      (rt.storage.selectPassword s.db userName).getLast? ≠ some userPsw ||
        (!s.userList.any (·.name = userName) && userStatus entry.status = .idle &&
          (rt.storage.selectPokemonIds s.db userName).head?.all (· = entry.battlePkmId))
  | .userDisconnected _ => true

namespace ServerBackend

/-! ## Logins -/

theorem slotUserLoginInto_failed (client : Nat) (stack entry : UserMemory)
    (h : (rt.storage.selectPassword s.db userName).getLast? ≠ some userPsw) :
    ∃ status, status ≠ .success ∧ slotUserLoginInto rt s client userName userPsw stack entry =
      (s, [⟨client, .userLoginResponse status⟩]) := by
  unfold slotUserLoginInto
  split
  · exact ⟨.userNotExists, fun heq => (by cases heq), rfl⟩
  · rename_i psw hpsw
    have hne : psw ≠ userPsw := by
      rintro rfl
      exact h hpsw
    rw [if_neg hne]
    exact ⟨.userPswError, fun heq => (by cases heq), rfl⟩

theorem slotUserLoginInto_passed {stack entry : UserMemory}
    (h : (rt.storage.selectPassword s.db userName).getLast? = some userPsw) :
    slotUserLoginInto rt s client userName userPsw stack entry =
      ({ s with
          userList := s.userList ++ [copyUser (constructUser rt s userName client stack) entry]
          nextPtr := s.nextPtr + 1 },
        [⟨client, .userLoginResponse
          (if s.userList.any (·.name = userName) then .serverRefused else .success)⟩]) := by
  rw [slotUserLoginInto, h]
  exact if_pos rfl

theorem newEntry_copy {stack entry : UserMemory} :
    NewEntry rt s client userName (copyUser (constructUser rt s userName client stack) entry) ↔
      userStatus entry.status = .idle ∧
        (rt.storage.selectPokemonIds s.db userName).head?.all (· = entry.battlePkmId) = true := by
  rw [Option.all_eq_true]
  constructor
  · intro h
    refine ⟨h.status, fun id hid => ?_⟩
    rw [decide_eq_true_eq]
    exact (h.battlePkmId id hid).symm
  · rintro ⟨hstatus, hid⟩
    refine ⟨rfl, rfl, hstatus, rfl, fun id hmem => ?_⟩
    have heq := hid id hmem
    rw [decide_eq_true_eq] at heq
    exact heq.symm

/-- A login does what it is to do exactly when it is clean. -/
theorem atomicLogin_iff {stack entry : UserMemory} :
    (∃ status, AtomicLogin rt s client userName
      (slotUserLoginInto rt s client userName userPsw stack entry) status) ↔
      cleanLogin rt s (.userLogin client userName userPsw stack entry) = true := by
  by_cases hpsw : (rt.storage.selectPassword s.db userName).getLast? = some userPsw
  · rw [slotUserLoginInto_passed hpsw]
    simp only [cleanLogin, hpsw, ne_eq, not_true_eq_false, decide_false, Bool.false_or, Bool.and_eq_true,
      decide_eq_true_eq, and_assoc]
    have hentry := @newEntry_copy _ rt s client userName stack entry
    rw [← hentry]
    generalize copyUser (constructUser rt s userName client stack) entry = appended
    cases hany : s.userList.any (·.name = userName) with
    | true =>
        simp only [↓reduceIte, Bool.not_true, Bool.false_eq_true, false_and, iff_false]
        rintro ⟨status, h⟩
        have hanswer := h.answer
        simp only [List.cons.injEq, Sent.mk.injEq, Reply.userLoginResponse.injEq, true_and,
          and_true] at hanswer
        have hlength := congrArg List.length (h.refused (by rw [← hanswer]; exact fun heq => by cases heq))
        simp at hlength
    | false =>
        simp only [Bool.false_eq_true, ↓reduceIte, Bool.not_false, true_and]
        constructor
        · rintro ⟨status, h⟩
          have hanswer := h.answer
          simp only [List.cons.injEq, Sent.mk.injEq, Reply.userLoginResponse.injEq, true_and,
            and_true] at hanswer
          obtain ⟨user, hlist, hnew⟩ := h.appended hanswer.symm
          have huser : appended = user := by simpa using hlist
          exact huser ▸ hnew
        · intro hnew
          exact ⟨.success, rfl, fun hne => absurd rfl hne, fun _ => ⟨appended, rfl, hnew⟩⟩
  · simp only [cleanLogin, hpsw, ne_eq, not_false_eq_true, decide_true, Bool.true_or, iff_true]
    obtain ⟨status, hne, hfailed⟩ := slotUserLoginInto_failed client stack entry hpsw
    rw [hfailed]
    exact ⟨status, rfl, fun _ => rfl, fun heq => absurd heq hne⟩

/-! ## Names -/

theorem names_entries (s : ServerBackend δ) : s.userList.map User.name = s.entries.map UserEntry.name := by
  rw [entries, List.map_map]
  rfl

theorem names_disconnectLoop {fuel : Nat} (h : disconnectLoop client fuel i s = some (s', out)) :
    List.Sublist (s'.userList.map User.name) (s.userList.map User.name) := by
  refine disconnectLoop_rule (P := fun r => List.Sublist (r.userList.map User.name)
    (s.userList.map User.name)) ?_ (List.Sublist.refl _) h
  intro r r' out user i hr _ hleave
  refine List.Sublist.trans ?_ hr
  rw [names_entries r, ← entries_leaveBattle hleave, ← names_entries r']
  exact (List.eraseIdx_sublist ..).map _

theorem names_slotUserLoginInto {stack entry : UserMemory}
    (hnames : (s.userList.map User.name).Nodup)
    (hc : cleanLogin rt s (.userLogin client userName userPsw stack entry) = true) :
    ((slotUserLoginInto rt s client userName userPsw stack entry).1.userList.map User.name).Nodup := by
  by_cases hpsw : (rt.storage.selectPassword s.db userName).getLast? = some userPsw
  · rw [slotUserLoginInto_passed hpsw, List.map_append]
    simp only [cleanLogin, hpsw, ne_eq, not_true_eq_false, decide_false, Bool.false_or, Bool.and_eq_true,
      Bool.not_eq_true', List.any_eq_false, decide_eq_true_eq] at hc
    refine hnames.append (List.nodup_singleton _) ?_
    intro name hname hnew
    obtain ⟨user, hu, rfl⟩ := List.mem_map.mp hname
    exact hc.1.1 user hu (List.mem_singleton.mp hnew)
  · obtain ⟨status, -, hfailed⟩ := slotUserLoginInto_failed client stack entry hpsw
    rw [hfailed]
    exact hnames

end ServerBackend

open ServerBackend

/-- In every run of clean logins and of disconnections no two users have one name; and of the next login,
whichever it is, the list changes by a new entry and with a success only if and only if it is clean. -/
theorem login_atomic {db : δ} {tr : List (LoginEvent × List Sent)}
    (h : (loginStep rt).Run (cleanLogin rt · ·) (newServerBackend db) s tr) :
    (s.userList.map User.name).Nodup ∧ ∀ client userName userPsw stack entry,
      (∃ status, AtomicLogin rt s client userName
        (slotUserLoginInto rt s client userName userPsw stack entry) status) ↔
        cleanLogin rt s (.userLogin client userName userPsw stack entry) = true := by
  refine ⟨?_, fun client userName userPsw stack entry => atomicLogin_iff⟩
  refine h.stateInvariant (I := fun s => (s.userList.map User.name).Nodup) List.nodup_nil ?_
  intro s e s' out hnames hc hs
  cases e with
  | userLogin client userName userPsw stack entry =>
      have hlogin := names_slotUserLoginInto hnames hc
      rw [Option.some.inj hs] at hlogin
      exact hlogin
  | userDisconnected client => exact hnames.sublist (names_disconnectLoop hs)

/-- The memory of a user whose first Pokemon is the one of the number 1. -/
def cleanMemory : UserMemory := ⟨0, 1⟩

def loginInto (client : Nat) (userName : QString) (entry : UserMemory) : LoginEvent :=
  .userLogin client userName "" ⟨0, 0⟩ entry

theorem login_atomic_example :
    ∃ s tr, (loginStep smallRuntime).Run (cleanLogin smallRuntime · ·) (newServerBackend smallTables) s tr ∧
      tr.map Prod.fst = [loginInto 2 "b" cleanMemory, .userDisconnected 1, loginInto 1 "a" cleanMemory] ∧
      s.userList.map User.name = ["b"] ∧ (s.userList.map User.name).Nodup ∧
      ∃ status, AtomicLogin smallRuntime s 3 "a"
        (slotUserLoginInto smallRuntime s 3 "a" "" ⟨0, 0⟩ cleanMemory) status := by
  obtain ⟨hrun, hevents⟩ := Machine.run_after (loginStep smallRuntime) (cleanLogin smallRuntime)
    (newServerBackend smallTables)
    [loginInto 2 "b" cleanMemory, .userDisconnected 1, loginInto 1 "a" cleanMemory] (by decide +kernel)
  obtain ⟨hnames, hatomic⟩ := login_atomic hrun
  exact ⟨_, _, hrun, hevents, by decide +kernel, hnames,
    (hatomic 3 "a" "" ⟨0, 0⟩ cleanMemory).mpr (by decide +kernel)⟩

/-- A second login of `a` is refused, and yet `a` has two entries. And the first one is in the state that
was in memory: BATTLING, with the Pokemon 9. -/
theorem refused_login_appends :
    ∃ s tr, (loginStep smallRuntime).AnyRun (newServerBackend smallTables) s tr ∧
      tr = [(loginInto 2 "a" cleanMemory, [⟨2, .userLoginResponse .serverRefused⟩]),
        (loginInto 1 "a" ⟨1, 9⟩, [⟨1, .userLoginResponse .success⟩])] ∧
      s.userList.map (fun user => (user.name, user.userSocket, user.status, user.battlePkmId)) =
        [("a", 1, .battling, 9), ("a", 2, .idle, 1)] ∧
      tablesStorage.selectPokemonIds s.db "a" = [1] := by
  obtain ⟨hrun, hevents⟩ := Machine.run_after (loginStep smallRuntime) Machine.always
    (newServerBackend smallTables) [loginInto 2 "a" cleanMemory, loginInto 1 "a" ⟨1, 9⟩] (by decide +kernel)
  exact ⟨_, _, hrun.any, rfl, by decide +kernel, by decide +kernel⟩

end TermCollection.Pokemon
