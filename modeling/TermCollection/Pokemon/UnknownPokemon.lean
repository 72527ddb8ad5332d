import TermCollection.Lib.Checked
import TermCollection.Pokemon.Lemmas.Users
import TermCollection.Pokemon.Tables

/-!
# Pokemon that do not exist

The factory gives NULL for a type that it does not know, and dereferences it at once. The handlers that
ask the factory, once more with the name of what goes wrong.
-/

namespace TermCollection.Pokemon

variable {δ : Type} {rt : Runtime δ} {st : Storage δ} {db : δ} {s s' : ServerBackend δ}
variable {userName : QString} {id : Int} {ids : List Int} {pkm : PokemonBase} {client : Nat}

inductive PokemonFault where
  /-- A member of a Pokemon that is NULL. -/
  | nullPokemon
  /-- Anything else without a defined result. -/
  | other
  deriving DecidableEq

def checkedCreatePokemon (st : Storage δ) (db : δ) (userName : QString) (id : Int) :
    Except PokemonFault PokemonBase :=
  orError .nullPokemon (createPokemon st db userName id)

namespace ServerBackend

/-- The skills of a Pokemon that are in `skill_list`. -/
def skillRows (rt : Runtime δ) (db : δ) (pkm : PokemonBase) : List (QString × QString) :=
  [0, 1, 2, 3].flatMap fun i => rt.storage.selectSkill db (pkm.getSkill i)

def checkedPkmData (rt : Runtime δ) (db : δ) (userName : QString) :
    List Int → Except PokemonFault (List PokemonInfo)
  | [] => .ok []
  | id :: ids => do
      let pkm ← checkedCreatePokemon rt.storage db userName id
      if (skillRows rt db pkm).length < 4 then .error .other
      else do
        let rest ← checkedPkmData rt db userName ids
        .ok (⟨pkm, (skillRows rt db pkm).take 4⟩ :: rest)

theorem checkedPkmData_toOption (rt : Runtime δ) (db : δ) (userName : QString) (ids : List Int) :
    (checkedPkmData rt db userName ids).toOption = pkmData rt db userName ids := by
  induction ids with
  | nil => rfl
  | cons id ids ih =>
      refine toOption_bind (orError_toOption ..) fun pkm => ?_
      by_cases hskills : (skillRows rt db pkm).length < 4
      · rw [if_pos hskills]
        exact (if_pos hskills).symm
      · rw [if_neg hskills]
        refine Eq.trans ?_ (if_neg hskills).symm
        exact toOption_bind ih fun rest => rfl

/-! ## Data of Pokemon -/

inductive PokemonDataRequestType where
  | all
  | specific
  | other (value : Int)
  deriving DecidableEq

structure PokemonDataResponse where
  mode : Int
  userName : QString
  pkmData : List PokemonInfo
  deriving DecidableEq

/-- The IDs that a request asks for. -/
def requestedIds (rt : Runtime δ) (db : δ) (userName : QString) (reqType : PokemonDataRequestType)
    (pokemonId : List Int) : List Int :=
  match reqType with
  | .all => rt.storage.selectPokemonIds db userName
  | .specific => pokemonId
  | .other _ => []

def slotRequestPkmInfo (rt : Runtime δ) (s : ServerBackend δ) (userName : QString) (pokemonId : List Int)
    (reqType : PokemonDataRequestType) (mode : Int) : Except PokemonFault PokemonDataResponse := do
  let pkmData ← checkedPkmData rt s.db userName (requestedIds rt s.db userName reqType pokemonId)
  .ok ⟨mode, userName, pkmData⟩

/-! ## Battles -/

def checkedBattleInvite (rt : Runtime δ) (s : ServerBackend δ) (client : Nat) (battleMode : BattleMode)
    (fromUser : QString) (fromUserPkmId : Int) (destUser : QString) (serverPkmId : Int) :
    Except PokemonFault (ServerBackend δ × List Sent) :=
  match s.userList.find? (·.name = fromUser) with
  | none => .ok (s, [])
  | some userA =>
      if userA.status = .battling then .ok (s, [])
      else do
        let s ← orError .other (s.setBattlePkmId userA.ptr fromUserPkmId)
        if destUser = "_server" then do
          let pkmA ← checkedCreatePokemon rt.storage s.db fromUser fromUserPkmId
          let pkmB ← checkedCreatePokemon rt.storage s.db destUser serverPkmId
          let s := s.addBattle userA.ptr none pkmA pkmB (fieldMode battleMode)
          let s ← orError .other (s.setStatus userA.ptr .battling)
          .ok (s, [⟨client, .battleStartResponse .success 1 fromUserPkmId serverPkmId⟩])
        else
          match s.userList.find? (·.name = destUser) with
          | none => .ok (s, [⟨client, .battleStartResponse .destNotOnline 0 0 0⟩])
          | some userB =>
              if userB.status = .battling then
                .ok (s, [⟨client, .battleStartResponse .alreadyStart 0 0 0⟩])
              else .ok (s, [⟨userB.userSocket, .battleInviteRequest battleMode fromUser⟩])

def checkedBattleInviteResponse (rt : Runtime δ) (s : ServerBackend δ) (battleMode : BattleMode)
    (fromUser destUser : QString) (destUserPkmId : Int) (flag : BattleStartStatus) :
    Except PokemonFault (ServerBackend δ × List Sent) :=
  match s.invitedUsers fromUser destUser with
  | none => .ok (s, [])
  | some (userA, userB) =>
      if flag ≠ .success then
        .ok (s, [⟨userA.userSocket, .battleStartResponse flag 0 0 0⟩])
      else do
        let s ← orError .other (s.setBattlePkmId userB.ptr destUserPkmId)
        let pkmA ← checkedCreatePokemon rt.storage s.db fromUser userA.battlePkmId
        let pkmB ← checkedCreatePokemon rt.storage s.db destUser destUserPkmId
        let s := s.addBattle userA.ptr (some userB.ptr) pkmA pkmB (fieldMode battleMode)
        let s ← orError .other (s.setStatus userA.ptr .battling)
        let s ← orError .other (s.setStatus userB.ptr .battling)
        .ok (s,
          [⟨userA.userSocket, .battleStartResponse flag 1 userA.battlePkmId destUserPkmId⟩,
            ⟨userB.userSocket, .battleStartResponse flag 0 destUserPkmId userA.battlePkmId⟩])

theorem checkedBattleInvite_toOption (rt : Runtime δ) (s : ServerBackend δ) (client : Nat)
    (battleMode : BattleMode) (fromUser : QString) (fromUserPkmId : Int) (destUser : QString)
    (serverPkmId : Int) :
    (checkedBattleInvite rt s client battleMode fromUser fromUserPkmId destUser serverPkmId).toOption =
      slotBattleInvite rt s client battleMode fromUser fromUserPkmId destUser serverPkmId := by
  unfold checkedBattleInvite slotBattleInvite
  cases s.userList.find? (·.name = fromUser) with
  | none => rfl
  | some userA =>
      by_cases hbattling : userA.status = .battling
      · simp only [if_pos hbattling]
        rfl
      · simp only [if_neg hbattling]
        refine toOption_bind (orError_toOption ..) fun s => ?_
        by_cases hserver : destUser = "_server"
        · simp only [if_pos hserver]
          refine toOption_bind (orError_toOption ..) fun pkmA => ?_
          refine toOption_bind (orError_toOption ..) fun pkmB => ?_
          exact toOption_bind (orError_toOption ..) fun s => rfl
        · simp only [if_neg hserver]
          cases s.userList.find? (·.name = destUser) with
          | none => rfl
          | some userB => by_cases hB : userB.status = .battling <;> simp [hB, Except.toOption]

theorem checkedBattleInviteResponse_toOption (rt : Runtime δ) (s : ServerBackend δ)
    (battleMode : BattleMode) (fromUser destUser : QString) (destUserPkmId : Int)
    (flag : BattleStartStatus) :
    (checkedBattleInviteResponse rt s battleMode fromUser destUser destUserPkmId flag).toOption =
      slotHandleBattleInviteResponse rt s battleMode fromUser destUser destUserPkmId flag := by
  unfold checkedBattleInviteResponse slotHandleBattleInviteResponse
  cases s.invitedUsers fromUser destUser with
  | none => rfl
  | some users =>
      obtain ⟨userA, userB⟩ := users
      by_cases hflag : flag ≠ .success
      · simp only [if_pos hflag]
        rfl
      · simp only [if_neg hflag]
        refine toOption_bind (orError_toOption ..) fun s => ?_
        refine toOption_bind (orError_toOption ..) fun pkmA => ?_
        refine toOption_bind (orError_toOption ..) fun pkmB => ?_
        refine toOption_bind (orError_toOption ..) fun s => ?_
        exact toOption_bind (orError_toOption ..) fun s => rfl

/-! ## Messages that name Pokemon -/

inductive PokemonMessage where
  | battleInvite (battleMode : BattleMode) (fromUser : QString) (fromUserPkmId : Int)
      (destUser : QString) (serverPkmId : Int)
  | battleInviteResponse (battleMode : BattleMode) (fromUser destUser : QString) (destUserPkmId : Int)
      (flag : BattleStartStatus)
  | pokemonDataRequest (userName : QString) (pokemonId : List Int) (reqType : PokemonDataRequestType)
      (mode : Int)
  deriving DecidableEq

/-- The state, the messages and the data that a message leads to. -/
def handlePokemonMessage (rt : Runtime δ) (s : ServerBackend δ) (client : Nat) :
    PokemonMessage → Except PokemonFault (ServerBackend δ × List Sent × Option PokemonDataResponse)
  | .battleInvite battleMode fromUser fromUserPkmId destUser serverPkmId => do
      let (s, out) ←
        checkedBattleInvite rt s client battleMode fromUser fromUserPkmId destUser serverPkmId
      .ok (s, out, none)
  | .battleInviteResponse battleMode fromUser destUser destUserPkmId flag => do
      let (s, out) ← checkedBattleInviteResponse rt s battleMode fromUser destUser destUserPkmId flag
      .ok (s, out, none)
  | .pokemonDataRequest userName pokemonId reqType mode => do
      let response ← slotRequestPkmInfo rt s userName pokemonId reqType mode
      .ok (s, [], some response)

end ServerBackend

/-! ## What the factory knows -/

/-- A Pokemon that a message asks for. -/
structure Asked where
  userName : QString
  id : Int
  deriving DecidableEq

/-- The row of `pokemon_info` for a Pokemon; without a row of its own, its type is 0. -/
def Asked.info (asked : Asked) (st : Storage δ) (db : δ) : Option PokemonInfoRow :=
  (st.selectInfo db
    (((st.selectPokemon db asked.userName asked.id).getLast?.map (·.PKM_TYPEID)).getD 0)).getLast?

/-- The type is one of the four kinds of Pokemon. -/
def Asked.Known (asked : Asked) (st : Storage δ) (db : δ) : Prop :=
  ∃ info ∈ asked.info st db, 0 ≤ info.PKM_TYPE ∧ info.PKM_TYPE ≤ 3

/-- The four skills are in `skill_list`. -/
def Asked.skilled (asked : Asked) (st : Storage δ) (db : δ) : Bool :=
  match asked.info st db with
  | none => false
  | some info =>
      4 ≤ ([info.PKM_SKILL_1, info.PKM_SKILL_2, info.PKM_SKILL_3, info.PKM_SKILL_4].flatMap
        (st.selectSkill db)).length

/-- The Pokemon of a request up to the first whose skills are missing. -/
def askedIds (st : Storage δ) (db : δ) (userName : QString) : List Int → List Asked
  | [] => []
  | id :: ids =>
      ⟨userName, id⟩ ::
        if Asked.skilled ⟨userName, id⟩ st db then askedIds st db userName ids else []

/-- The Pokemon that a message makes the server create. -/
def askedPokemon (rt : Runtime δ) (s : ServerBackend δ) : ServerBackend.PokemonMessage → List Asked
  | .battleInvite _ fromUser fromUserPkmId destUser serverPkmId =>
      match s.userList.find? (·.name = fromUser) with
      | none => []
      | some userA =>
          if userA.status ≠ .battling ∧ destUser = "_server" then
            [⟨fromUser, fromUserPkmId⟩, ⟨destUser, serverPkmId⟩]
          else []
  | .battleInviteResponse _ fromUser destUser destUserPkmId flag =>
      match s.invitedUsers fromUser destUser with
      | none => []
      | some (userA, _) =>
          if flag = .success then [⟨fromUser, userA.battlePkmId⟩, ⟨destUser, destUserPkmId⟩] else []
  | .pokemonDataRequest userName pokemonId reqType _ =>
      askedIds rt.storage s.db userName
        (ServerBackend.requestedIds rt s.db userName reqType pokemonId)

theorem pokemonType_isSome (type : Int) : (pokemonType type).isSome = true ↔ 0 ≤ type ∧ type ≤ 3 := by
  unfold pokemonType
  repeat' split
  all_goals simp only [Option.isSome_some, Option.isSome_none, true_iff, Bool.false_eq_true, false_iff]
  all_goals omega

theorem createPokemon_isSome (st : Storage δ) (db : δ) (userName : QString) (id : Int) :
    (createPokemon st db userName id).isSome = true ↔ Asked.Known ⟨userName, id⟩ st db := by
  have htype : (createPokemon st db userName id).isSome =
      (pokemonType (((Asked.info ⟨userName, id⟩ st db).map (·.PKM_TYPE)).getD (-1))).isSome := by
    simp only [createPokemon, Asked.info, Option.bind_eq_bind]
    cases pokemonType _ <;> rfl
  rw [htype, pokemonType_isSome, Asked.Known]
  cases Asked.info ⟨userName, id⟩ st db with
  | none => simp
  | some info => simp

theorem checkedCreatePokemon_error :
    checkedCreatePokemon st db userName id = .error .nullPokemon ↔ ¬ Asked.Known ⟨userName, id⟩ st db := by
  rw [checkedCreatePokemon, orError_error, ← createPokemon_isSome, Option.not_isSome_iff_eq_none]
  exact and_iff_right rfl

/-- Two Pokemon in turn, and then nothing that dereferences NULL. -/
theorem checkedCreate_pair {α : Type} {userA userB : QString} {idA idB : Int}
    {f : PokemonBase → PokemonBase → Except PokemonFault α} (hf : ∀ a b, f a b ≠ .error .nullPokemon) :
    (checkedCreatePokemon st db userA idA >>= fun a =>
        checkedCreatePokemon st db userB idB >>= fun b => f a b) ≠ .error .nullPokemon ↔
      ∀ asked ∈ [Asked.mk userA idA, Asked.mk userB idB], asked.Known st db := by
  simp only [ne_eq, bind_error, checkedCreatePokemon_error, List.forall_mem_cons, List.not_mem_nil,
    false_implies, implies_true, and_true]
  constructor
  · intro h
    have hA : Asked.Known ⟨userA, idA⟩ st db := by
      by_contra hA
      exact h (.inl hA)
    refine ⟨hA, ?_⟩
    by_contra hB
    obtain ⟨a, ha⟩ := Option.isSome_iff_exists.mp ((createPokemon_isSome ..).mpr hA)
    exact h (.inr ⟨a, by rw [checkedCreatePokemon, ha]; rfl, .inl hB⟩)
  · rintro ⟨hA, hB⟩ (h | ⟨a, -, h | ⟨b, -, h⟩⟩)
    · exact h hA
    · exact h hB
    · exact hf a b h

namespace ServerBackend

theorem skillRows_length (h : createPokemon rt.storage db userName id = some pkm) :
    Asked.skilled ⟨userName, id⟩ rt.storage db = true ↔ ¬ (skillRows rt db pkm).length < 4 := by
  simp only [createPokemon, Option.bind_eq_bind, Option.bind_eq_some_iff, Option.some.injEq] at h
  obtain ⟨type, htype, rfl⟩ := h
  simp only [Asked.skilled, Asked.info]
  generalize (rt.storage.selectInfo db _).getLast? = info at htype ⊢
  cases info with
  | none => cases htype
  | some info =>
      simp only [skillRows, PokemonBase.getSkill, Option.map_some, Option.getD_some]
      simp

theorem checkedPkmData_null (rt : Runtime δ) (db : δ) (userName : QString) (ids : List Int) :
    checkedPkmData rt db userName ids ≠ .error .nullPokemon ↔
      ∀ asked ∈ askedIds rt.storage db userName ids, asked.Known rt.storage db := by
  induction ids with
  | nil => simp [checkedPkmData, askedIds]
  | cons id ids ih =>
      rw [askedIds, List.forall_mem_cons, checkedPkmData]
      cases hcreate : createPokemon rt.storage db userName id with
      | none =>
          have hunknown : ¬ Asked.Known ⟨userName, id⟩ rt.storage db := by
            rw [← createPokemon_isSome, hcreate]
            exact Bool.false_ne_true
          have herror := checkedCreatePokemon_error.mpr hunknown
          rw [herror]
          exact iff_of_false (fun h => h rfl) fun h => hunknown h.1
      | some pkm =>
          have hknown : Asked.Known ⟨userName, id⟩ rt.storage db := by
            rw [← createPokemon_isSome, hcreate]
            rfl
          have hok : checkedCreatePokemon rt.storage db userName id = .ok pkm := by
            rw [checkedCreatePokemon, hcreate]
            rfl
          have hskilled := skillRows_length hcreate
          rw [hok, and_iff_right hknown]
          simp only [bind, Except.bind]
          by_cases hskills : (skillRows rt db pkm).length < 4
          · rw [if_pos hskills, if_neg fun h => hskilled.mp h hskills]
            simp
          · rw [if_neg hskills, if_pos (hskilled.mpr hskills), ← ih]
            cases checkedPkmData rt db userName ids <;> simp

/-! ## The messages -/

theorem setBattlePkmId_of_mem {user : User} (hu : user ∈ s.userList) (id : Int) :
    ∃ s', s.setBattlePkmId user.ptr id = some s' ∧ s'.db = s.db := by
  obtain ⟨found, hfound⟩ := Option.isSome_iff_exists.mp (userAt_isSome hu rfl)
  refine ⟨{ s with userList := s.userList.map fun other =>
      if other.ptr = user.ptr then { other with battlePkmId := id } else other }, ?_, rfl⟩
  rw [setBattlePkmId, modifyUser, hfound]
  rfl

theorem checkedBattleInvite_null (rt : Runtime δ) (s : ServerBackend δ) (client : Nat)
    (battleMode : BattleMode) (fromUser : QString) (fromUserPkmId : Int) (destUser : QString)
    (serverPkmId : Int) :
    checkedBattleInvite rt s client battleMode fromUser fromUserPkmId destUser serverPkmId ≠
        .error .nullPokemon ↔
      ∀ asked ∈ askedPokemon rt s (.battleInvite battleMode fromUser fromUserPkmId destUser serverPkmId),
        asked.Known rt.storage s.db := by
  unfold checkedBattleInvite askedPokemon
  cases hfind : s.userList.find? (·.name = fromUser) with
  | none => simp [hfind]
  | some userA =>
      by_cases hbattling : userA.status = .battling
      · simp [hfind, hbattling]
      · obtain ⟨s₁, hs₁, hdb⟩ := setBattlePkmId_of_mem (List.mem_of_find?_eq_some hfind) fromUserPkmId
        simp only [hfind, hs₁, orError_some, ok_bind, ne_eq, hbattling, not_false_eq_true, true_and, if_false]
        by_cases hserver : destUser = "_server"
        · simp only [if_pos hserver, ← hdb]
          refine checkedCreate_pair fun pkmA pkmB => ?_
          exact bind_ne_error (orError_ne (by decide) _) fun _ => by simp
        · simp only [if_neg hserver]
          cases s₁.userList.find? (·.name = destUser) with
          | none => simp
          | some userB => by_cases hB : userB.status = .battling <;> simp [hB]

theorem checkedBattleInviteResponse_null (rt : Runtime δ) (s : ServerBackend δ)
    (battleMode : BattleMode) (fromUser destUser : QString) (destUserPkmId : Int)
    (flag : BattleStartStatus) :
    checkedBattleInviteResponse rt s battleMode fromUser destUser destUserPkmId flag ≠
        .error .nullPokemon ↔
      ∀ asked ∈ askedPokemon rt s (.battleInviteResponse battleMode fromUser destUser destUserPkmId flag),
        asked.Known rt.storage s.db := by
  unfold checkedBattleInviteResponse askedPokemon
  cases hfound : s.invitedUsers fromUser destUser with
  | none => simp [hfound]
  | some users =>
      obtain ⟨userA, userB⟩ := users
      have hmem : userB ∈ s.userList := by
        simp only [invitedUsers, Option.bind_eq_bind, Option.bind_eq_some_iff, Option.some.injEq,
          Prod.mk.injEq] at hfound
        obtain ⟨_, -, _, hB, -, rfl⟩ := hfound
        exact List.mem_reverse.mp (List.mem_of_find?_eq_some hB)
      by_cases hflag : flag = .success
      · obtain ⟨s₁, hs₁, hdb⟩ := setBattlePkmId_of_mem hmem destUserPkmId
        simp only [hfound, ne_eq, hflag, not_true_eq_false, if_false, if_true, hs₁, orError_some, ok_bind, ← hdb]
        refine checkedCreate_pair fun pkmA pkmB => ?_
        refine bind_ne_error (orError_ne (by decide) _) fun s₂ => ?_
        exact bind_ne_error (orError_ne (by decide) _) fun _ => by simp
      · simp [hfound, hflag]

/-- No handler dereferences a Pokemon that is NULL exactly when the factory knows all that it asks for. -/
theorem no_null_pokemon (rt : Runtime δ) (s : ServerBackend δ) (client : Nat)
    (message : PokemonMessage) :
    handlePokemonMessage rt s client message ≠ .error .nullPokemon ↔
      ∀ asked ∈ askedPokemon rt s message, asked.Known rt.storage s.db := by
  cases message with
  | battleInvite battleMode fromUser fromUserPkmId destUser serverPkmId =>
      rw [← checkedBattleInvite_null rt s client, handlePokemonMessage]
      cases checkedBattleInvite rt s client battleMode fromUser fromUserPkmId destUser serverPkmId <;>
        simp [bind, Except.bind]
  | battleInviteResponse battleMode fromUser destUser destUserPkmId flag =>
      rw [← checkedBattleInviteResponse_null, handlePokemonMessage]
      cases checkedBattleInviteResponse rt s battleMode fromUser destUser destUserPkmId flag <;>
        simp [bind, Except.bind]
  | pokemonDataRequest userName pokemonId reqType mode =>
      rw [askedPokemon, ← checkedPkmData_null, handlePokemonMessage, slotRequestPkmInfo]
      cases checkedPkmData rt s.db userName (requestedIds rt s.db userName reqType pokemonId) <;>
        simp [bind, Except.bind]

/-- A request for a Pokemon that its user does not have, and a battle with one. -/
theorem unknown_pokemon_dereferenced :
    handlePokemonMessage smallRuntime (newServerBackend smallTables) 0
        (.pokemonDataRequest "a" [99] .specific 0) = .error .nullPokemon ∧
      handlePokemonMessage smallRuntime
        (Machine.stateAfter (backendStep smallRuntime) Machine.always (newServerBackend smallTables)
          [login 0 "a"]) 0
        (.battleInvite .expBattle "a" 1 "_server" 99) = .error .nullPokemon := by
  rw [← failsWith_iff, ← failsWith_iff]
  decide +kernel

end ServerBackend

end TermCollection.Pokemon
