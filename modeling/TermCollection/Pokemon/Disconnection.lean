import Mathlib.Data.List.InsertIdx
import Mathlib.Data.List.Pairwise
import TermCollection.Pokemon.Lemmas.Leaving
import TermCollection.Pokemon.Lemmas.Users
import TermCollection.Pokemon.Tables

/-!
# What a disconnection does

In a consistent state, a user who leaves takes the user's battle along, and the opponent has won. The
handler looks for the battle at the place of the user in the list of users.
-/

namespace TermCollection.Pokemon

variable {δ : Type} {s s₁ s' : ServerBackend δ} {out : List Sent} {client p i u : Nat}
variable {user other : User} {battle : BattleField}

/-- The other side of a battle. -/
def BattleField.opponent (battle : BattleField) (p : Nat) : Option Nat :=
  if battle.userA = p then battle.userB else some battle.userA

namespace ServerBackend

/-- Nobody has two entries, and the users in battle are those whose status is BATTLING. -/
structure ConsistentServer (s : ServerBackend δ) : Prop where
  userPtrs : (s.userList.map User.ptr).Nodup
  battlePtrs : (s.battleFieldList.map BattleField.ptr).Nodup
  sockets : (s.userList.map User.userSocket).Nodup
  names : (s.userList.map User.name).Nodup
  once : (s.battleFieldList.flatMap BattleField.participants).Nodup
  battling : ∀ user ∈ s.userList, user.status = .battling ↔
    ∃ battle ∈ s.battleFieldList, user.ptr ∈ battle.participants
  online : ∀ battle ∈ s.battleFieldList, ∀ p ∈ battle.participants, ∃ user ∈ s.userList, user.ptr = p
  opponents : ∀ battle ∈ s.battleFieldList, battle.userB.isSome = true

/-- The state without the user and the user's battle, whose other side has won. -/
def withoutUser (s : ServerBackend δ) (user : User) : ServerBackend δ × List Sent :=
  let users := s.userList.filter (·.ptr ≠ user.ptr)
  match s.battleFieldList.find? (user.ptr ∈ ·.participants) with
  | none => ({ s with userList := users }, [])
  | some battle =>
      let dest := battle.opponent user.ptr
      ({ s with
          userList := users.map fun other =>
            if dest = some other.ptr then { other with status := .idle } else other
          battleFieldList := s.battleFieldList.filter (·.ptr ≠ battle.ptr) },
        (users.filter fun other => dest = some other.ptr).map fun other =>
          ⟨other.userSocket, .battleFinishInfo .win .oppositeDisconnected⟩)

/-- The first position at which the user of the one list takes part in the battle of the other list. -/
def firstPlace (s : ServerBackend δ) : Option (User × BattleField) :=
  (s.userList.zip s.battleFieldList).find? fun e => e.1.ptr ∈ e.2.participants

/-! ## The search -/

theorem same_name_iff (h : s.ConsistentServer) {user other : User} (hu : user ∈ s.userList)
    (ho : other ∈ s.userList) : other.name = user.name ↔ other.ptr = user.ptr := by
  constructor
  · intro heq
    rw [List.inj_on_of_nodup_map h.names ho hu heq]
  · intro heq
    rw [List.inj_on_of_nodup_map h.userPtrs ho hu heq]

/-- The search compares the users of one position each. -/
theorem findBattle_zip (h : s.ConsistentServer) {users : List User} {battles : List BattleField}
    {name : Nat → Option QString} (husers : ∀ user ∈ users, user ∈ s.userList)
    (hbattles : ∀ battle ∈ battles, battle ∈ s.battleFieldList)
    (hname : ∀ j, name (i + j) = (users[j]?).map User.name) :
    findBattle s name i battles =
      match (users.zip battles).find? fun e => e.1.ptr ∈ e.2.participants with
      | some (user, battle) => some (some (battle, user.ptr, battle.opponent user.ptr))
      | none => if battles.length ≤ users.length then some none else none := by
  induction battles generalizing users i with
  | nil => simp [findBattle]
  | cons battle battles ih =>
      have hb := hbattles battle List.mem_cons_self
      have honline := h.online battle hb
      obtain ⟨userA, huA, hptrA⟩ := honline battle.userA List.mem_cons_self
      obtain ⟨q, hq⟩ := Option.isSome_iff_exists.mp (h.opponents battle hb)
      obtain ⟨userB, huB, hptrB⟩ := honline q (by simp [BattleField.participants, hq])
      have hA : s.userAt battle.userA = some userA := hptrA ▸ userAt_of_mem h.userPtrs huA
      have hB : s.userAt q = some userB := hptrB ▸ userAt_of_mem h.userPtrs huB
      have hwanted := hname 0
      rw [Nat.add_zero] at hwanted
      cases users with
      | nil => simp [findBattle, hA, hwanted]
      | cons user users =>
          have hu := husers user List.mem_cons_self
          have hnameA : userA.name = user.name ↔ battle.userA = user.ptr := hptrA ▸ same_name_iff h hu huA
          have hnameB : userB.name = user.name ↔ q = user.ptr := hptrB ▸ same_name_iff h hu huB
          have hname' : ∀ j, name (i + 1 + j) = (users[j]?).map User.name := by
            intro j
            have hj := hname (j + 1)
            rwa [← Nat.add_assoc, Nat.add_right_comm, List.getElem?_cons_succ] at hj
          have hrest := ih (fun user hu => husers user (List.mem_cons_of_mem _ hu))
            (fun battle hb => hbattles battle (List.mem_cons_of_mem _ hb)) hname'
          have hmem : user.ptr ∈ battle.participants ↔ battle.userA = user.ptr ∨ q = user.ptr := by
            simp [BattleField.participants, hq, eq_comm]
          simp only [findBattle, hA, hwanted, List.getElem?_cons_zero, Option.map_some, hnameA, hq, hB,
            hnameB, Option.bind_eq_bind, Option.bind_some, List.zip_cons_cons, List.find?_cons, hmem]
          by_cases heqA : battle.userA = user.ptr
          · simp [heqA, BattleField.opponent, hq]
          · by_cases heqB : q = user.ptr
            · simp [heqA, heqB, BattleField.opponent]
            · simp only [heqA, heqB, or_self, decide_false, ↓reduceIte, hrest, List.length_cons,
                Nat.add_le_add_iff_right]

theorem findBattleByIndex_eq (h : s.ConsistentServer) :
    s.findBattleByIndex = match s.firstPlace with
      | some (user, battle) => some (some (battle, user.ptr, battle.opponent user.ptr))
      | none => if s.battleFieldList.length ≤ s.userList.length then some none else none :=
  findBattle_zip h (fun _ hu => hu) (fun _ hb => hb) fun j => by rw [Nat.zero_add]

theorem firstPlace_spec (h : s.firstPlace = some (user, battle)) :
    user ∈ s.userList ∧ battle ∈ s.battleFieldList ∧ user.ptr ∈ battle.participants := by
  have hmem := List.of_mem_zip (List.mem_of_find?_eq_some h)
  have hpart := List.find?_some h
  rw [decide_eq_true_eq] at hpart
  exact ⟨hmem.1, hmem.2, hpart⟩

/-! ## Battles of consistent states -/

theorem battle_unique (h : s.ConsistentServer) {battle' : BattleField} (hb : battle ∈ s.battleFieldList)
    (hb' : battle' ∈ s.battleFieldList) (hp : p ∈ battle.participants) (hp' : p ∈ battle'.participants) :
    battle = battle' := by
  by_contra hne
  have hsymm : Std.Symm (Function.onFun List.Disjoint BattleField.participants) :=
    ⟨fun _ _ hd => List.disjoint_symm hd⟩
  exact (List.nodup_flatMap.mp h.once).2.forall hb hb' hne hp hp'

theorem opponent_spec (h : s.ConsistentServer) (hb : battle ∈ s.battleFieldList)
    (hp : p ∈ battle.participants) :
    ∃ other ∈ s.userList, battle.opponent p = some other.ptr ∧ other.ptr ≠ p ∧
      ∀ q ∈ battle.participants, q = p ∨ q = other.ptr := by
  obtain ⟨q, hq⟩ := Option.isSome_iff_exists.mp (h.opponents battle hb)
  have hnodup := (List.nodup_flatMap.mp h.once).1 battle hb
  have honline := h.online battle hb
  simp only [BattleField.participants, hq, Option.toList_some, List.mem_cons, List.not_mem_nil,
    or_false, List.nodup_cons, not_false_eq_true, List.nodup_nil, and_true] at hp hnodup honline ⊢
  rcases hp with rfl | rfl
  · obtain ⟨other, hu, rfl⟩ := honline q (.inr rfl)
    exact ⟨other, hu, by simp [BattleField.opponent, hq], fun heq => hnodup heq.symm, fun r hr => hr⟩
  · obtain ⟨other, hu, hptr⟩ := honline battle.userA (.inl rfl)
    refine ⟨other, hu, ?_, ?_, fun r hr => ?_⟩
    · rw [BattleField.opponent, if_neg hnodup, hptr]
    · rw [hptr]
      exact hnodup
    · rw [hptr]
      exact hr.symm

/-! ## The loop over the users -/

theorem winByLeave_of_mem (h : (s.userList.map User.ptr).Nodup) (ho : other ∈ s.userList) :
    s.winByLeave battle (some other.ptr) =
      some ({ s with
          userList := s.userList.map fun user =>
            if user.ptr = other.ptr then { user with status := .idle } else user
          battleFieldList := s.battleFieldList.filter (·.ptr ≠ battle.ptr) },
        [⟨other.userSocket, .battleFinishInfo .win .oppositeDisconnected⟩]) := by
  have hptr : ∀ user : User,
      (if user.ptr = other.ptr then { user with status := .idle } else user).ptr = user.ptr := by
    intro user
    split <;> rfl
  rw [winByLeave, setStatus_of_mem ho, Option.bind_eq_bind, Option.bind_some, sendTo, userAt_map _ hptr,
    userAt_of_mem h ho]
  simp [removeBattle]

theorem winByLeave_sockets {dest : Option Nat} (h : s.winByLeave battle dest = some (s', out)) :
    s'.userList.map User.userSocket = s.userList.map User.userSocket := by
  rcases winByLeave_cases h with ⟨-, rfl⟩ | ⟨p, s₁, -, h₁, rfl⟩
  · rfl
  · simp only [setStatus, modifyUser, Option.bind_eq_bind, Option.bind_eq_some_iff, Option.some.injEq] at h₁
    obtain ⟨_, -, rfl⟩ := h₁
    simp only [removeBattle, List.map_map]
    apply List.map_congr_left
    intro user _
    rw [Function.comp_apply]
    split <;> rfl

theorem leaveBattle_sockets (h : s.leaveBattle user = some (s', out)) :
    s'.userList.map User.userSocket = s.userList.map User.userSocket := by
  rcases leaveBattle_cases h with ⟨rfl, -, -⟩ | ⟨battle, p, dest, -, -, h⟩
  · rfl
  · exact winByLeave_sockets h

theorem disconnectLoop_skip {fuel : Nat} (h : ∀ user ∈ s.userList, user.userSocket ≠ client) :
    disconnectLoop client fuel i s = some (s, []) := by
  induction fuel generalizing i with
  | zero => rfl
  | succ fuel ih =>
      unfold disconnectLoop
      split
      · rfl
      · rename_i user hi
        rw [if_neg (h user (List.mem_of_getElem? hi)), ih]

/-- The loop comes to the only entry of the socket. -/
theorem disconnectLoop_at {fuel : Nat} (hu : s.userList[u]? = some user)
    (hsocket : user.userSocket = client) (hi : i ≤ u) (hfuel : u - i < fuel)
    (hbefore : ∀ j < u, ∀ other, s.userList[j]? = some other → other.userSocket ≠ client) :
    ∃ fuel', disconnectLoop client fuel i s = (s.leaveBattle user).bind fun r =>
      (disconnectLoop client fuel' (u + 1) { r.1 with userList := r.1.userList.eraseIdx u }).map
        fun r' => (r'.1, r.2 ++ r'.2) := by
  induction fuel generalizing i with
  | zero => cases hfuel
  | succ fuel ih =>
      rcases Nat.lt_or_eq_of_le hi with hlt | rfl
      · obtain ⟨hj, _⟩ := List.getElem?_eq_some_iff.mp hu
        obtain ⟨other, hother⟩ : ∃ other, s.userList[i]? = some other :=
          ⟨_, List.getElem?_eq_getElem (Nat.lt_trans hlt hj)⟩
        obtain ⟨fuel', hloop⟩ := ih (i := i + 1) hlt (by omega)
        refine ⟨fuel', ?_⟩
        rw [disconnectLoop, hother]
        simp only [hbefore i hlt other hother, ↓reduceIte, hloop]
      · refine ⟨fuel, ?_⟩
        rw [disconnectLoop, hu]
        simp only [hsocket, ↓reduceIte, Option.bind_eq_bind, Option.map_eq_bind, Function.comp_def]

theorem slotUserDisconnected_eq (h : (s.userList.map User.userSocket).Nodup)
    (hu : s.userList[u]? = some user) :
    s.slotUserDisconnected user.userSocket = (s.leaveBattle user).map fun r =>
      ({ r.1 with userList := r.1.userList.eraseIdx u }, r.2) := by
  obtain ⟨hlt, -⟩ := List.getElem?_eq_some_iff.mp hu
  have hsocket : (s.userList.map User.userSocket)[u]? = some user.userSocket := by
    rw [List.getElem?_map, hu]
    rfl
  have hbefore : ∀ j < u, ∀ other, s.userList[j]? = some other →
      other.userSocket ≠ user.userSocket := by
    intro j hj other hother heq
    refine List.nodup_iff_getElem?_ne_getElem?.mp h j u hj (by simpa using hlt) ?_
    rw [hsocket, List.getElem?_map, hother, Option.map_some, heq]
  obtain ⟨fuel, hloop⟩ := disconnectLoop_at hu rfl (Nat.zero_le u) hlt hbefore
  rw [slotUserDisconnected, hloop]
  cases hleave : s.leaveBattle user with
  | none => rfl
  | some r =>
      have hskip : ∀ other ∈ r.1.userList.eraseIdx u, other.userSocket ≠ user.userSocket := by
        intro other hother
        have hmem : other.userSocket ∈ (s.userList.map User.userSocket).eraseIdx u := by
          rw [← leaveBattle_sockets hleave, List.eraseIdx_map]
          exact List.mem_map_of_mem hother
        obtain ⟨hlt', hget⟩ := List.getElem?_eq_some_iff.mp hsocket
        rw [← h.erase_getElem u hlt', h.mem_erase_iff, hget] at hmem
        exact hmem.1
      rw [Option.bind_some, disconnectLoop_skip hskip]
      simp

/-! ## The effect -/

theorem find_battle_eq (h : s.ConsistentServer) (hb : battle ∈ s.battleFieldList)
    (hp : p ∈ battle.participants) : s.battleFieldList.find? (p ∈ ·.participants) = some battle := by
  cases hfind : s.battleFieldList.find? (p ∈ ·.participants) with
  | none => exact absurd (List.find?_eq_none.mp hfind battle hb) (by simpa using hp)
  | some found =>
      have hfound := List.find?_some hfind
      rw [decide_eq_true_eq] at hfound
      rw [battle_unique h (List.mem_of_find?_eq_some hfind) hb hfound hp]

theorem withoutUser_idle (h : s.ConsistentServer) (hu : user ∈ s.userList)
    (hstatus : user.status ≠ .battling) :
    s.withoutUser user = ({ s with userList := s.userList.filter (·.ptr ≠ user.ptr) }, []) := by
  have hnone : s.battleFieldList.find? (user.ptr ∈ ·.participants) = none := by
    rw [List.find?_eq_none]
    intro battle hb
    rw [decide_eq_true_eq]
    exact fun hp => hstatus ((h.battling user hu).mpr ⟨battle, hb, hp⟩)
  rw [withoutUser, hnone]

/-- The battle and the opponent of a user in battle. -/
theorem withoutUser_battling (h : s.ConsistentServer) (hb : battle ∈ s.battleFieldList)
    (hp : user.ptr ∈ battle.participants) (ho : other ∈ s.userList)
    (hopponent : battle.opponent user.ptr = some other.ptr) (hne : other.ptr ≠ user.ptr) :
    s.withoutUser user =
      ({ s with
          userList := (s.userList.filter (·.ptr ≠ user.ptr)).map fun user =>
            if user.ptr = other.ptr then { user with status := .idle } else user
          battleFieldList := s.battleFieldList.filter (·.ptr ≠ battle.ptr) },
        [⟨other.userSocket, .battleFinishInfo .win .oppositeDisconnected⟩]) := by
  have hsingle : (s.userList.filter (·.ptr ≠ user.ptr)).filter (fun user => other.ptr = user.ptr) =
      [other] := by
    rw [List.filter_filter, ← filter_of_mem h.userPtrs ho]
    apply List.filter_congr
    intro entry _
    by_cases heq : other.ptr = entry.ptr
    · simp [← heq, hne]
    · simp [heq, Ne.symm heq]
  rw [withoutUser, find_battle_eq h hb hp]
  simp only [hopponent, Option.some.injEq, hsingle, List.map_cons, List.map_nil, eq_comm]

theorem slotUserDisconnected_idle (h : s.ConsistentServer) (hu : user ∈ s.userList)
    (hstatus : user.status ≠ .battling) :
    s.slotUserDisconnected user.userSocket = some (s.withoutUser user) := by
  obtain ⟨u, hi⟩ := List.mem_iff_getElem?.mp hu
  rw [slotUserDisconnected_eq h.sockets hi, leaveBattle, if_neg hstatus, withoutUser_idle h hu hstatus,
    ← eraseIdx_eq_filter h.userPtrs hi]
  rfl

/-- The battle that the search finds ends, whoever is in it. -/
theorem slotUserDisconnected_battling (h : s.ConsistentServer) (hu : user ∈ s.userList)
    (hstatus : user.status = .battling) {found : User} (hfound : s.firstPlace = some (found, battle))
    (ho : other ∈ s.userList) (hopponent : battle.opponent found.ptr = some other.ptr) :
    s.slotUserDisconnected user.userSocket =
      some ({ s with
          userList := (s.userList.filter (·.ptr ≠ user.ptr)).map fun user =>
            if user.ptr = other.ptr then { user with status := .idle } else user
          battleFieldList := s.battleFieldList.filter (·.ptr ≠ battle.ptr) },
        [⟨other.userSocket, .battleFinishInfo .win .oppositeDisconnected⟩]) := by
  obtain ⟨u, hi⟩ := List.mem_iff_getElem?.mp hu
  rw [slotUserDisconnected_eq h.sockets hi, leaveBattle, if_pos hstatus, findBattleByIndex_eq h, hfound]
  simp only [Option.bind_eq_bind, Option.bind_some, hopponent, winByLeave_of_mem h.userPtrs ho,
    Option.map_some, List.eraseIdx_map, eraseIdx_eq_filter h.userPtrs hi]

end ServerBackend

open ServerBackend

/-- In a consistent state, a user who leaves takes exactly the own battle along if and only if the user is
in none, or is at the first position at which the lists of users and of battles match. -/
theorem disconnect_exact (h : s.ConsistentServer) (hu : user ∈ s.userList) :
    s.slotUserDisconnected user.userSocket = some (s.withoutUser user) ↔
      user.status ≠ .battling ∨ s.firstPlace.map Prod.fst = some user := by
  by_cases hstatus : user.status = .battling
  · obtain ⟨own, hb, hp⟩ := (h.battling user hu).mp hstatus
    obtain ⟨other, ho, hopponent, hne, -⟩ := opponent_spec h hb hp
    have hwithout := withoutUser_battling h hb hp ho hopponent hne
    cases hfound : s.firstPlace with
    | none =>
        -- the search fails, or leaves the indices of the list
        simp only [hstatus, ne_eq, not_true_eq_false, Option.map_none, reduceCtorEq, or_self, iff_false]
        intro heq
        obtain ⟨u, hi⟩ := List.mem_iff_getElem?.mp hu
        rw [slotUserDisconnected_eq h.sockets hi, leaveBattle, if_pos hstatus, findBattleByIndex_eq h,
          hfound, hwithout] at heq
        simp only at heq
        by_cases hlen : s.battleFieldList.length ≤ s.userList.length <;> simp [hlen] at heq
    | some found =>
        obtain ⟨found, battle⟩ := found
        obtain ⟨hfu, hfb, hfp⟩ := firstPlace_spec hfound
        obtain ⟨winner, hw, hwinner, hwne, hsides⟩ := opponent_spec h hfb hfp
        have hslot := slotUserDisconnected_battling h hu hstatus hfound hw hwinner
        simp only [hstatus, ne_eq, not_true_eq_false, false_or, Option.map_some, Option.some.injEq]
        constructor
        · intro heq
          rw [hslot, hwithout] at heq
          simp only [Option.some.injEq, Prod.mk.injEq, ServerBackend.mk.injEq, List.cons.injEq,
            Sent.mk.injEq, and_true] at heq
          obtain ⟨⟨-, hbattles⟩, hsocket⟩ := heq
          have hwon : winner = other := List.inj_on_of_nodup_map h.sockets hw ho hsocket
          have hptr : own.ptr = battle.ptr := by
            by_contra hptr
            have hkept : own ∈ s.battleFieldList.filter (·.ptr ≠ battle.ptr) :=
              List.mem_filter.mpr ⟨hb, by simpa using hptr⟩
            rw [hbattles] at hkept
            simpa using (List.mem_filter.mp hkept).2
          have hsame : own = battle := List.inj_on_of_nodup_map h.battlePtrs hb hfb hptr
          rcases hsides user.ptr (hsame ▸ hp) with hfoundPtr | hwinnerPtr
          · exact (List.inj_on_of_nodup_map h.userPtrs hu hfu hfoundPtr).symm
          · exact absurd (hwon ▸ hwinnerPtr.symm) hne
        · rintro rfl
          obtain rfl := battle_unique h hfb hb hfp hp
          have hsame : winner = other := List.inj_on_of_nodup_map h.userPtrs hw ho
            (Option.some.inj (hwinner.symm.trans hopponent))
          rw [hslot, hwithout, hsame]
  · simp only [ne_eq, hstatus, not_false_eq_true, true_or, iff_true]
    exact slotUserDisconnected_idle h hu hstatus

/-- Three users are logged in, and the first two or the last two of them fight. -/
def threeUsers (duel : List Event) : ServerBackend Tables :=
  Machine.stateAfter (backendStep smallRuntime) Machine.always (newServerBackend smallTables)
    (duel ++ [login 3 "c", login 2 "b", login 1 "a"])

/-- The user `a` leaves the battle with `b`. -/
theorem disconnect_exact_example :
    (threeUsers [accept 2 "a" "b", invite 1 "a" "b"]).ConsistentServer ∧
      ∃ user ∈ (threeUsers [accept 2 "a" "b", invite 1 "a" "b"]).userList, user.name = "a" ∧
        (threeUsers [accept 2 "a" "b", invite 1 "a" "b"]).slotUserDisconnected user.userSocket =
          some ((threeUsers [accept 2 "a" "b", invite 1 "a" "b"]).withoutUser user) := by
  have h : (threeUsers [accept 2 "a" "b", invite 1 "a" "b"]).ConsistentServer :=
    ⟨by decide +kernel, by decide +kernel, by decide +kernel, by decide +kernel, by decide +kernel,
      by decide +kernel, by decide +kernel, by decide +kernel⟩
  refine ⟨h, ⟨0, "a", 1, .battling, 1, [1]⟩, by decide +kernel, rfl, ?_⟩
  exact (disconnect_exact h (by decide +kernel)).mpr (by decide +kernel)

/-- The battle of `b` and `c` stays when `b` leaves, because the user at its position is `a`, and `c`
hears nothing. -/
theorem disconnect_leaves_battle :
    (threeUsers [accept 3 "b" "c", invite 2 "b" "c"]).ConsistentServer ∧
      ⟨1, "b", 2, .battling, 1, [1]⟩ ∈ (threeUsers [accept 3 "b" "c", invite 2 "b" "c"]).userList ∧
      ((threeUsers [accept 3 "b" "c", invite 2 "b" "c"]).slotUserDisconnected 2).map (fun r =>
          (r.1.userList.map fun user => (user.name, user.status),
            r.1.battleFieldList.map BattleField.participants, r.2)) =
        some ([("a", .idle), ("c", .battling)], [[1, 2]], []) ∧
      (threeUsers [accept 3 "b" "c", invite 2 "b" "c"]).slotUserDisconnected 2 ≠
        some ((threeUsers [accept 3 "b" "c", invite 2 "b" "c"]).withoutUser
          ⟨1, "b", 2, .battling, 1, [1]⟩) := by
  have h : (threeUsers [accept 3 "b" "c", invite 2 "b" "c"]).ConsistentServer :=
    ⟨by decide +kernel, by decide +kernel, by decide +kernel, by decide +kernel, by decide +kernel,
      by decide +kernel, by decide +kernel, by decide +kernel⟩
  refine ⟨h, by decide +kernel, by decide +kernel, ?_⟩
  intro heq
  have hbattles := congrArg (Option.map fun r => r.1.battleFieldList.length) heq
  revert hbattles
  decide +kernel

end TermCollection.Pokemon
