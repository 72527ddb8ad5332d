import TermCollection.Pokemon.EndToEnd
import TermCollection.Pokemon.Lemmas.Frames

/-!
# Who is online

The list of users grows by logins only. So whoever is in it, or is shown to a client, has logged in over his
connection, with the password of the sign-up of his name.
-/

namespace TermCollection.Pokemon

open Machine Observation

/-! ## The names and sockets of the users -/

namespace ServerBackend

variable {δ : Type} {rt : Runtime δ} {s s' : ServerBackend δ} {out : List Sent} {p i client : Nat}
variable {battle : BattleField} {chance : Chance} {skillIndex : Int} {userName : QString}

def logins (s : ServerBackend δ) : List (QString × Nat) :=
  s.userList.map fun user => (user.name, user.userSocket)

theorem logins_of_entries (h : s'.entries = s.entries) : s'.logins = s.logins := by
  have hmap := congrArg (List.map fun entry : UserEntry => (entry.name, entry.userSocket)) h
  rwa [entries, entries, List.map_map, List.map_map] at hmap

theorem logins_setBattlePkmId {id : Int} (h : s.setBattlePkmId p id = some s') : s'.logins = s.logins := by
  obtain ⟨-, rfl⟩ := modifyUser_eq_some h
  rw [logins, List.map_map, logins]
  refine List.map_congr_left fun user _ => ?_
  rw [Function.comp_apply]
  split <;> rfl

theorem logins_setStatus {status : UserStatus} (h : s.setStatus p status = some s') : s'.logins = s.logins :=
  logins_of_entries (entries_setStatus h).1

theorem logins_setAction {userIndex : Nat} {turnChance : TurnChance}
    (h : s.setAction rt p skillIndex userIndex turnChance = some (s', out)) : s'.logins = s.logins := by
  simp only [setAction, Option.bind_eq_bind, Option.bind_eq_some_iff] at h
  obtain ⟨battle, -, infos, -, h⟩ := h
  split at h
  · cases h
    rfl
  · simp only [Option.bind_eq_some_iff, Option.some.injEq, Prod.mk.injEq, Prod.exists] at h
    obtain ⟨s₁, _, h₁, rfl, -⟩ := h
    exact logins_of_entries (entries_slotGetBattleResult h₁).1

theorem logins_operateA (h : operateA rt s battle skillIndex userName chance i = some (s', out)) :
    s'.logins = s.logins := by
  simp only [operateA, Option.bind_eq_bind, Option.bind_eq_some_iff] at h
  obtain ⟨userA, -, h⟩ := h
  split at h
  · simp only [Option.bind_eq_some_iff, Prod.exists] at h
    obtain ⟨s₁, out₁, h₁, battle', -, h⟩ := h
    split at h
    · simp only [Option.bind_eq_some_iff, Option.some.injEq, Prod.mk.injEq, Prod.exists] at h
      obtain ⟨s₂, out₂, h₂, rfl, -⟩ := h
      exact (logins_setAction h₂).trans (logins_setAction h₁)
    · cases h
      exact logins_setAction h₁
  · cases h
    rfl

theorem logins_operateB (h : operateB rt s battle skillIndex userName chance i = some (s', out)) :
    s'.logins = s.logins := by
  simp only [operateB, Option.bind_eq_bind, Option.bind_eq_some_iff] at h
  obtain ⟨q, -, userB, -, h⟩ := h
  split at h
  · exact logins_setAction h
  · cases h
    rfl

theorem logins_operationLoop {isUserA : Int} {fuel : Nat}
    (h : operationLoop rt isUserA skillIndex userName chance fuel i s = some (s', out)) :
    s'.logins = s.logins := by
  induction fuel generalizing s i out with
  | zero =>
      cases h
      rfl
  | succ fuel ih =>
      unfold operationLoop at h
      split at h
      · cases h
        rfl
      · simp only [Option.bind_eq_bind, Option.bind_eq_some_iff, Option.some.injEq, Prod.mk.injEq,
          Prod.exists] at h
        obtain ⟨s₁, out₁, h₁, s₂, out₂, h₂, rfl, -⟩ := h
        have hone : s₁.logins = s.logins := by
          split at h₁
          · exact logins_operateA h₁
          · exact logins_operateB h₁
        exact (ih h₂).trans hone

theorem logins_slotBattleInvite {battleMode : BattleMode} {fromUser destUser : QString}
    {fromUserPkmId serverPkmId : Int}
    (h : slotBattleInvite rt s client battleMode fromUser fromUserPkmId destUser serverPkmId = some (s', out)) :
    s'.logins = s.logins := by
  unfold slotBattleInvite at h
  split at h
  · cases h
    rfl
  · split at h
    · cases h
      rfl
    · simp only [Option.bind_eq_bind, Option.bind_eq_some_iff] at h
      obtain ⟨s₁, h₁, h⟩ := h
      have hset := logins_setBattlePkmId h₁
      split at h
      · simp only [Option.bind_eq_some_iff, Option.some.injEq, Prod.mk.injEq] at h
        obtain ⟨pkmA, -, pkmB, -, s₂, h₂, rfl, -⟩ := h
        exact (logins_setStatus h₂).trans hset
      · split at h
        · cases h
          exact hset
        · split at h
          · cases h
            exact hset
          · cases h
            exact hset

theorem logins_slotHandleBattleInviteResponse {battleMode : BattleMode} {fromUser destUser : QString}
    {destUserPkmId : Int} {flag : BattleStartStatus}
    (h : slotHandleBattleInviteResponse rt s battleMode fromUser destUser destUserPkmId flag = some (s', out)) :
    s'.logins = s.logins := by
  unfold slotHandleBattleInviteResponse at h
  split at h
  · cases h
    rfl
  · split at h
    · cases h
      rfl
    · simp only [Option.bind_eq_bind, Option.bind_eq_some_iff, Option.some.injEq, Prod.mk.injEq] at h
      obtain ⟨s₁, h₁, pkmA, -, pkmB, -, s₂, h₂, s₃, h₃, rfl, -⟩ := h
      have hset := logins_setBattlePkmId h₁
      exact (logins_setStatus h₃).trans ((logins_setStatus h₂).trans hset)

theorem logins_slotBattleGiveUp {giveUpUser : QString} (h : s.slotBattleGiveUp giveUpUser = some (s', out)) :
    s'.logins = s.logins := by
  simp only [slotBattleGiveUp, Option.bind_eq_bind, Option.bind_eq_some_iff] at h
  obtain ⟨found, -, h⟩ := h
  split at h
  · cases h
    rfl
  · simp only [Option.bind_eq_some_iff] at h
    obtain ⟨s₁, h₁, h₂⟩ := h
    exact (logins_of_entries (entries_winByLeave h₂)).trans (logins_setStatus h₁)

theorem logins_disconnectLoop {fuel : Nat} (h : disconnectLoop client fuel i s = some (s', out)) :
    s'.logins ⊆ s.logins := by
  refine disconnectLoop_rule (P := fun r => r.logins ⊆ s.logins) ?_ (List.Subset.refl _) h
  intro r r' out user i hr _ hleave
  rw [← logins_of_entries (entries_leaveBattle hleave)] at hr
  exact List.Subset.trans ((List.eraseIdx_sublist ..).map _).subset hr

/-- A message adds the name of a login with the right password, or none. -/
theorem logins_slotGetMessage {message : Message}
    (h : s.slotGetMessage rt client chance message = some (s', out)) :
    s'.logins = s.logins ∨ ∃ name psw, message = .userLogin name psw ∧
      (rt.storage.selectPassword s.db name).getLast? = some psw ∧ s'.logins = s.logins ++ [(name, client)] := by
  cases message with
  | userLogin name psw =>
      rw [slotGetMessage, Option.some.injEq, slotUserLogin] at h
      split at h
      · cases h
        exact .inl rfl
      · rename_i found hfound
        split at h
        · rename_i hpsw
          cases h
          refine .inr ⟨name, psw, rfl, hpsw ▸ hfound, ?_⟩
          rw [logins, List.map_append]
          rfl
        · cases h
          exact .inl rfl
  | battleInvite => exact .inl (logins_slotBattleInvite h)
  | battleInviteResponse => exact .inl (logins_slotHandleBattleInviteResponse h)
  | battleOperation => exact .inl (logins_operationLoop h)
  | transferPokemon =>
      simp only [slotGetMessage, slotTransferPokemon, Option.bind_eq_bind, Option.bind_eq_some_iff,
        Option.some.injEq, Prod.mk.injEq] at h
      obtain ⟨db, -, rfl, -⟩ := h
      exact .inl rfl
  | battleGiveUp => exact .inl (logins_slotBattleGiveUp h)

end ServerBackend

/-! ## Steps -/

section

variable {naming : Naming} {utf8 : Utf8} {attack : Attack} {s s' : ServerBackend Database} {i : ℕ}
variable {packet : ClientPacket} {chance : PacketChance} {out : List (ℕ × ServerPacket)}
variable {o o' : List Observation} {name : QString}

/-- The name, as the database compares it, was signed up, from some client, with the password. -/
def SignedUp (naming : Naming) (utf8 : Utf8) (o : List Observation) (userName userPsw : QString) : Prop :=
  ∃ j info, .requested j (.userSignUpRequest info) ∈ o ∧
    naming.key (utf8.fromStdString info.userName) = naming.key userName ∧
    utf8.fromStdString info.userPsw = userPsw

/-- The client has sent a login for the name, with the password of its sign-up. -/
def Authenticated (naming : Naming) (utf8 : Utf8) (o : List Observation) (i : ℕ) (userName : QString) : Prop :=
  ∃ info, .requested i (.userLoginRequest info) ∈ o ∧ utf8.fromStdString info.userName = userName ∧
    SignedUp naming utf8 o userName (utf8.fromStdString info.userPsw)

theorem SignedUp.mono {userName userPsw : QString} (h : SignedUp naming utf8 o userName userPsw)
    (hsub : o ⊆ o') : SignedUp naming utf8 o' userName userPsw := by
  obtain ⟨j, info, hrequested, hinfo⟩ := h
  exact ⟨j, info, hsub hrequested, hinfo⟩

theorem Authenticated.mono (h : Authenticated naming utf8 o i name) (hsub : o ⊆ o') :
    Authenticated naming utf8 o' i name := by
  obtain ⟨info, hrequested, hname, hsigned⟩ := h
  exact ⟨info, hsub hrequested, hname, hsigned.mono hsub⟩

/-- The passwords in the database are those of sign-ups, and the users of the list have logged in with theirs. -/
structure Checked (naming : Naming) (utf8 : Utf8) (s : ServerBackend Database) (o : List Observation) :
    Prop where
  rows : ∀ row ∈ s.db.tables.user_list, SignedUp naming utf8 o row.USERNAME row.PASSWORD
  logins : ∀ login ∈ s.logins, Authenticated naming utf8 o login.2 login.1

theorem Checked.mono (h : Checked naming utf8 s o) (hsub : o ⊆ o') : Checked naming utf8 s o' :=
  ⟨fun row hrow => (h.rows row hrow).mono hsub, fun login hlogin => (h.logins login hlogin).mono hsub⟩

theorem Checked.playsOn {db : Database} (h : Checked naming utf8 s o) (hdb : s.db.PlaysOn db) :
    ∀ row ∈ db.tables.user_list, SignedUp naming utf8 o row.USERNAME row.PASSWORD := by
  have hrows := h.rows
  rw [Database.PlaysOn] at hdb
  generalize s.db.tables.user_list = before, db.tables.user_list = rows at hdb hrows
  induction hdb with
  | nil => exact hrows
  | cons hrow _ ih =>
      obtain ⟨hfirst, hrest⟩ := List.forall_mem_cons.mp hrows
      refine List.forall_mem_cons.mpr ⟨?_, ih hrest⟩
      rw [hrow.name, hrow.psw]
      exact hfirst

/-- A password that is found is one of a sign-up. -/
theorem Checked.password {psw : QString} (h : Checked naming utf8 s o)
    (hpsw : ((databaseStorage naming).selectPassword s.db name).getLast? = some psw) :
    SignedUp naming utf8 o name psw := by
  obtain ⟨row, hrow, rfl⟩ := List.mem_map.mp (List.mem_of_getLast? hpsw)
  obtain ⟨hrow, hname⟩ := List.mem_filter.mp hrow
  obtain ⟨j, info, hrequested, hsame, hinfo⟩ := h.rows row hrow
  exact ⟨j, info, hrequested, hsame.trans (of_decide_eq_true hname), hinfo⟩

/-- A packet is handled by the rest of the server, or leaves the list of users as it is. -/
theorem packetStep_logins (h : packetStep naming utf8 attack s (.packet i packet chance) = some (s', out)) :
    s'.logins = s.logins ∨ ∃ info, packet = .userLoginRequest info ∧
      ((databaseStorage naming).selectPassword s.db (utf8.fromStdString info.userName)).getLast? =
        some (utf8.fromStdString info.userPsw) ∧
      s'.logins = s.logins ++ [(utf8.fromStdString info.userName, i)] := by
  rw [packetStep] at h
  split at h
  · rename_i message hmessage
    simp only [Option.bind_eq_bind, Option.bind_eq_some_iff, Prod.exists, Option.some.injEq, Prod.mk.injEq] at h
    obtain ⟨_, outs, hslot, rfl, -⟩ := h
    rcases ServerBackend.logins_slotGetMessage hslot with hsame | ⟨name, psw, rfl, hpsw, hlogins⟩
    · exact .inl hsame
    · cases packet <;> cases hmessage
      exact .inr ⟨_, rfl, hpsw, hlogins⟩
  · simp only [Option.bind_eq_bind, Option.bind_eq_some_iff, Prod.exists, Option.some.injEq, Prod.mk.injEq] at h
    obtain ⟨_, reply, hanswer, rfl, -⟩ := h
    refine .inl ?_
    cases packet <;>
      simp only [answer, Option.bind_eq_bind, Option.bind_eq_some_iff, Prod.exists, Option.some.injEq,
        Prod.mk.injEq, reduceCtorEq] at hanswer
    case userSignUpRequest info =>
      obtain ⟨db, status, -, rfl, -⟩ := hanswer
      rfl
    case userInfoRequest info => rw [← hanswer.1]
    case onlineUserListRequest info => rw [← hanswer.1]
    case pokemonDataRequest info =>
      obtain ⟨_, -, rfl, -⟩ := hanswer
      rfl

theorem Checked.packetStep (h : Checked naming utf8 s o)
    (hstep : packetStep naming utf8 attack s (.packet i packet chance) = some (s', out))
    (hrequested : .requested i packet ∈ o') (hsub : o ⊆ o') : Checked naming utf8 s' o' := by
  have hold := h.mono hsub
  constructor
  case rows =>
    rcases packetStep_cases hstep with ⟨info, db, status, rfl, rfl, hsign, -⟩ | ⟨-, -, rfl | ⟨e, outs, he⟩⟩
    · intro row hrow
      rcases Database.signUp_list hsign with ⟨-, rfl, -⟩ | ⟨-, -, hlist⟩
      · exact hold.rows row hrow
      · rw [hlist] at hrow
        rcases List.mem_append.mp hrow with hrow | hrow
        · exact hold.rows row hrow
        · split at hrow
          · rw [List.mem_singleton.mp hrow]
            exact ⟨i, info, hrequested, rfl, rfl⟩
          · cases hrow
    · exact hold.rows
    · exact hold.playsOn ((Database.respectsAll_playsOn naming attack).step he)
  case logins =>
    rcases packetStep_logins hstep with hsame | ⟨info, rfl, hpsw, hlogins⟩
    · exact hsame ▸ hold.logins
    · intro login hlogin
      rw [hlogins] at hlogin
      rcases List.mem_append.mp hlogin with hlogin | hlogin
      · exact hold.logins login hlogin
      · rw [List.mem_singleton.mp hlogin]
        exact ⟨info, hrequested, rfl, hold.password hpsw⟩

theorem Checked.leave (h : Checked naming utf8 s o)
    (hstep : Pokemon.packetStep naming utf8 attack s (.userDisconnected i) = some (s', out)) :
    Checked naming utf8 s' o := by
  obtain ⟨-, outs, hleave⟩ := packetStep_leave hstep
  constructor
  case rows => exact h.playsOn ((Database.respectsAll_playsOn naming attack).step hleave)
  case logins => exact fun login hlogin => h.logins login (ServerBackend.logins_disconnectLoop hleave hlogin)

end

/-! ## What clients are shown -/

section

variable {naming : Naming} {utf8 : Utf8} {attack : Attack} {s s' : ServerBackend Database} {i : ℕ}
variable {packet : ClientPacket} {chance : PacketChance} {out : List (ℕ × ServerPacket)}
variable {o o' : List Observation} {name : QString}

theorem eq_of_requestedAt {x : Observation} {j : ℕ} {request : ClientPacket} (h : x.requestedAt j = some request) :
    x = .requested j request := by
  cases x <;> simp_all [requestedAt]

theorem eq_of_repliedAt {x : Observation} {j : ℕ} {sent : ServerPacket} (h : x.repliedAt j = some sent) :
    x = .replied j sent := by
  cases x <;> simp_all [repliedAt]

/-- What was handled was requested, and what was received was sent. -/
theorem QueueNetwork.Queued.mem {q : QueueNetwork (ServerBackend Database)} (h : q.Queued o) (j : ℕ) :
    (∀ request, .handled j request ∈ o → .requested j request ∈ o) ∧
      ∀ sent, .received j sent ∈ o → .replied j sent ∈ o := by
  obtain ⟨hrequests, hreplies⟩ := h j
  constructor
  · intro request hhandled
    have hmem : request ∈ o.filterMap (requestedAt j) := by
      rw [hrequests]
      exact List.mem_append_left _ (List.mem_filterMap.mpr ⟨_, hhandled, if_pos rfl⟩)
    obtain ⟨x, hx, hat⟩ := List.mem_filterMap.mp hmem
    rwa [← eq_of_requestedAt hat]
  · intro sent hreceived
    have hmem : sent ∈ o.filterMap (repliedAt j) := by
      rw [hreplies]
      exact List.mem_append_left _ (List.mem_filterMap.mpr ⟨_, hreceived, if_pos rfl⟩)
    obtain ⟨x, hx, hat⟩ := List.mem_filterMap.mp hmem
    rwa [← eq_of_repliedAt hat]

end

end TermCollection.Pokemon
