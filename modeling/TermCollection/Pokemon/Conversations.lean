import TermCollection.Pokemon.Lemmas.Endings
import TermCollection.Pokemon.Tables

/-!
# What the players are told

A battle is a conversation: its players are told of its start, and those who did not leave it are told once
of its end. Every step starts one battle, or ends some, or does not say anything of a battle.
-/

namespace TermCollection.Pokemon

variable {δ : Type} {rt : Runtime δ} {s s' : ServerBackend δ} {out : List Sent} {client : Nat}
variable {e : Event} {tr : List (Event × List Sent)} {chance : Chance}

/-! ## Steps that start a battle -/

structure Opens (s s' : ServerBackend δ) (out : List Sent) (seats : Seats) (bout : Bout) : Prop where
  starts : startsIn out = bout.begins
  finishes : endsIn out = []
  seated : s.Seated seats bout.toPair
  ptr : seats.ptr = s.nextPtr
  seats : s'.seats = s.seats ++ [seats]
  roster : s'.roster = s.roster
  nextPtr : s'.nextPtr = s.nextPtr + 1

/-- A user logs in. -/
structure Joins (e : Event) (s s' : ServerBackend δ) (out : List Sent) (player : Player) : Prop where
  silent : Silent out
  event : ∃ userPsw chance, e = .message player.socket (.userLogin player.name userPsw) chance
  seats : s'.seats = s.seats
  roster : s'.roster = s.roster ++ [(s.nextPtr, player)]
  nextPtr : s'.nextPtr = s.nextPtr + 1

/-- What a step does to the battles, and what is said of it. -/
inductive BattleStep (e : Event) (s s' : ServerBackend δ) (out : List Sent) : Prop
  | settles (closings : List Closing) : Settles e s s' out closings → BattleStep e s s' out
  | opens (seats : Seats) (bout : Bout) : Opens s s' out seats bout → BattleStep e s s' out
  | joins (player : Player) : Joins e s s' out player → BattleStep e s s' out

namespace BattleStep

theorem silent (hout : Silent out) (hroster : s'.roster = s.roster)
    (hbattles : s'.battleFieldList = s.battleFieldList) (hptr : s'.nextPtr = s.nextPtr) :
    BattleStep e s s' out := by
  refine .settles [] (.silent hout ?_ (fun entry hmem => hroster ▸ hmem) hptr)
  rw [ServerBackend.seats, hbattles, ServerBackend.seats]

end BattleStep

namespace ServerBackend

theorem battleStep_slotUserLogin (userPsw : QString) (entry : UserMemory) {userName : QString}
    (h : slotUserLogin rt s client userName userPsw entry = (s', out)) :
    BattleStep (.message client (.userLogin userName userPsw) chance) s s' out := by
  unfold slotUserLogin at h
  split at h
  · cases h
    exact .silent ⟨rfl, rfl⟩ rfl rfl rfl
  · split at h
    · cases h
      refine .joins ⟨userName, client⟩ ⟨⟨rfl, rfl⟩, ⟨userPsw, chance, rfl⟩, rfl, ?_, rfl⟩
      simp [roster, User.player]
    · cases h
      exact .silent ⟨rfl, rfl⟩ rfl rfl rfl

/-- A battle is added and its users become BATTLING. -/
theorem seats_addBattle (s : ServerBackend δ) (userA : Nat) (userB : Option Nat) (pkmA pkmB : PokemonBase)
    (mode : FieldMode) :
    (s.addBattle userA userB pkmA pkmB mode).seats = s.seats ++ [⟨s.nextPtr, userA, userB⟩] := by
  simp [seats, addBattle, newBattleField, BattleField.seats]

theorem seats_of_battles (h : s'.battleFieldList = s.battleFieldList) : s'.seats = s.seats := by
  rw [seats, h, seats]

theorem battleStep_slotBattleInvite {battleMode : BattleMode} {fromUser destUser : QString}
    {fromUserPkmId serverPkmId : Int}
    (h : slotBattleInvite rt s client battleMode fromUser fromUserPkmId destUser serverPkmId =
      some (s', out)) : BattleStep e s s' out := by
  unfold slotBattleInvite at h
  split at h
  · cases h
    exact .silent .nil rfl rfl rfl
  · rename_i userA huserA
    have hA : (userA.ptr, userA.player) ∈ s.roster :=
      List.mem_map_of_mem (f := fun user : User => (user.ptr, user.player)) (List.mem_of_find?_eq_some huserA)
    split at h
    · cases h
      exact .silent .nil rfl rfl rfl
    · simp only [Option.bind_eq_bind, Option.bind_eq_some_iff] at h
      obtain ⟨s₁, h₁, h⟩ := h
      obtain ⟨hroster, hbattles, hptr⟩ := roster_setBattlePkmId h₁
      split at h
      · simp only [Option.bind_eq_some_iff, Option.some.injEq, Prod.mk.injEq] at h
        obtain ⟨pkmA, -, pkmB, -, s₂, h₂, rfl, rfl⟩ := h
        obtain ⟨hroster₂, hbattles₂, hptr₂⟩ := roster_setStatus h₂
        refine .opens ⟨s.nextPtr, userA.ptr, none⟩ ⟨⟨userA.player, none⟩, client, fun hB => (by cases hB)⟩
          ⟨rfl, rfl, ⟨hA, .none⟩, rfl, ?_, hroster₂.trans hroster, ?_⟩
        · rw [seats_of_battles hbattles₂, seats_addBattle, hptr, seats_of_battles hbattles]
        · rw [hptr₂, ← hptr]
          rfl
      · split at h
        · cases h
          exact .silent ⟨rfl, rfl⟩ hroster hbattles hptr
        · split at h
          · cases h
            exact .silent ⟨rfl, rfl⟩ hroster hbattles hptr
          · cases h
            exact .silent ⟨rfl, rfl⟩ hroster hbattles hptr

/-- Another answer than SUCCESS is passed on. -/
theorem silent_refusal {flag : BattleStartStatus} (h : flag ≠ .success) (socket : Nat) :
    Silent [⟨socket, .battleStartResponse flag 0 0 0⟩] := by
  cases flag with
  | success => exact absurd rfl h
  | refused | alreadyStart | destNotOnline | other => exact ⟨rfl, rfl⟩

theorem battleStep_slotHandleBattleInviteResponse {battleMode : BattleMode} {fromUser destUser : QString}
    {destUserPkmId : Int} {flag : BattleStartStatus}
    (h : slotHandleBattleInviteResponse rt s battleMode fromUser destUser destUserPkmId flag =
      some (s', out)) : BattleStep e s s' out := by
  unfold slotHandleBattleInviteResponse at h
  split at h
  · cases h
    exact .silent .nil rfl rfl rfl
  · rename_i userA userB husers
    split at h
    · rename_i hflag
      cases h
      exact .silent (silent_refusal hflag _) rfl rfl rfl
    · rename_i hflag
      rw [ne_eq, Decidable.not_not] at hflag
      subst hflag
      simp only [Option.bind_eq_bind, Option.bind_eq_some_iff, Option.some.injEq, Prod.mk.injEq] at h
      obtain ⟨s₁, h₁, pkmA, -, pkmB, -, s₂, h₂, s₃, h₃, rfl, rfl⟩ := h
      obtain ⟨huserA, huserB, -⟩ := invitedUsers_spec husers
      obtain ⟨hroster, hbattles, hptr⟩ := roster_setBattlePkmId h₁
      obtain ⟨hroster₂, hbattles₂, hptr₂⟩ := roster_setStatus h₂
      obtain ⟨hroster₃, hbattles₃, hptr₃⟩ := roster_setStatus h₃
      have hA : (userA.ptr, userA.player) ∈ s.roster :=
        List.mem_map_of_mem (f := fun user : User => (user.ptr, user.player)) huserA
      have hB : (userB.ptr, userB.player) ∈ s.roster :=
        List.mem_map_of_mem (f := fun user : User => (user.ptr, user.player)) huserB
      refine .opens ⟨s.nextPtr, userA.ptr, some userB.ptr⟩
        ⟨⟨userA.player, some userB.player⟩, userA.userSocket, fun _ => rfl⟩
        ⟨rfl, rfl, ⟨hA, .some hB⟩, rfl, ?_, hroster₃.trans (hroster₂.trans hroster), ?_⟩
      · rw [seats_of_battles hbattles₃, seats_of_battles hbattles₂, seats_addBattle, hptr,
          seats_of_battles hbattles]
      · rw [hptr₃, hptr₂, ← hptr]
        rfl

theorem battleStep (hp : s.sessions.Pointers) (h : backendStep rt s e = some (s', out)) :
    BattleStep e s s' out := by
  cases e with
  | userDisconnected client =>
      obtain ⟨closings, hsettles⟩ := settles_disconnectLoop hp h
      exact .settles closings hsettles
  | message client message chance =>
      cases message with
      | userLogin userName userPsw => exact battleStep_slotUserLogin userPsw _ (Option.some.inj h)
      | battleInvite => exact battleStep_slotBattleInvite h
      | battleInviteResponse => exact battleStep_slotHandleBattleInviteResponse h
      | battleOperation isUserA skillIndex userName =>
          have he : (Event.message client (.battleOperation isUserA skillIndex userName) chance).isOperation =
            true := rfl
          obtain ⟨closings, hsettles⟩ := settles_operationLoop hp he h
          exact .settles closings hsettles
      | transferPokemon =>
          simp only [backendStep, slotGetMessage, slotTransferPokemon, Option.bind_eq_bind,
            Option.bind_eq_some_iff, Option.some.injEq, Prod.mk.injEq] at h
          obtain ⟨db, -, rfl, rfl⟩ := h
          exact .silent ⟨rfl, rfl⟩ rfl rfl rfl
      | battleGiveUp =>
          obtain ⟨closings, hsettles⟩ := settles_slotBattleGiveUp hp h
          exact .settles closings hsettles

end ServerBackend

/-! ## Every run -/

/-- The player asked to be logged in. -/
def AskedLogin (tr : List (Event × List Sent)) (player : Player) : Prop :=
  ∃ userPsw chance, .message player.socket (.userLogin player.name userPsw) chance ∈ tr.map Prod.fst

theorem AskedLogin.cons {player : Player} {x : Event × List Sent} (h : AskedLogin tr player) :
    AskedLogin (x :: tr) player := by
  obtain ⟨userPsw, chance, hmem⟩ := h
  exact ⟨userPsw, chance, List.mem_cons_of_mem _ hmem⟩

variable {book : Nat → Bout} {ended : List (Nat × Ending)}

/-- The battles that were started: those that ended and those in the list. -/
def startedBattles (s : ServerBackend δ) (ended : List (Nat × Ending)) : List Nat :=
  ended.map Prod.fst ++ s.seats.map Seats.ptr

/-- Every battle is known by its players. Nothing was said but the start of each battle and, of those that are
no more in the list, one end. -/
structure Conversations (s : ServerBackend δ) (tr : List (Event × List Sent)) (book : Nat → Bout)
    (ended : List (Nat × Ending)) : Prop where
  once : (startedBattles s ended).Nodup
  starts : (startsIn (replies tr)).Perm ((startedBattles s ended).flatMap fun p => (book p).begins)
  finishes : endsIn (replies tr) = ended.flatMap fun x => (book x.1).ends x.2
  ends : ∀ x ∈ ended, ∃ e ∈ tr.map Prod.fst, e.Ends (book x.1).toPair x.2
  asked : ∀ p ∈ startedBattles s ended, ∀ player ∈ (book p).players, AskedLogin tr player
  seated : ∀ seats ∈ s.seats, ∀ pair, s.Seated seats pair → (book seats.ptr).toPair = pair

theorem startsIn_cons (e : Event) (out : List Sent) (tr : List (Event × List Sent)) :
    startsIn (replies ((e, out) :: tr)) = startsIn out ++ startsIn (replies tr) := by
  rw [replies, List.flatMap_cons, startsIn_append]
  rfl

theorem endsIn_cons (e : Event) (out : List Sent) (tr : List (Event × List Sent)) :
    endsIn (replies ((e, out) :: tr)) = endsIn out ++ endsIn (replies tr) := by
  rw [replies, List.flatMap_cons, endsIn_append]
  rfl

theorem Conversations.ends_cons (h : Conversations s tr book ended) {x : Nat × Ending} (hx : x ∈ ended) :
    ∃ e' ∈ ((e, out) :: tr).map Prod.fst, e'.Ends (book x.1).toPair x.2 := by
  obtain ⟨e', he', hends⟩ := h.ends x hx
  exact ⟨e', List.mem_cons_of_mem _ he', hends⟩

/-- The pointers of the users were given out before. -/
structure Seats.Below (seats : Seats) (n : Nat) : Prop where
  userA : seats.userA < n
  userB : ∀ q, seats.userB = some q → q < n

theorem Seats.Below.mono {seats : Seats} {n m : Nat} (h : seats.Below n) (hlt : n < m) : seats.Below m :=
  ⟨Nat.lt_trans h.userA hlt, fun q hq => Nat.lt_trans (h.userB q hq) hlt⟩

/-- Pointers are not given out twice. -/
structure Kept (s : ServerBackend δ) (tr : List (Event × List Sent)) (book : Nat → Bout)
    (ended : List (Nat × Ending)) : Prop extends Conversations s tr book ended where
  pointers : s.sessions.Pointers
  battle_lt : ∀ p ∈ startedBattles s ended, p < s.nextPtr
  user_lt : ∀ seats ∈ s.seats, seats.Below s.nextPtr
  online : ∀ entry ∈ s.roster, AskedLogin tr entry.2

namespace ServerBackend

theorem roster_unique {p : Nat} {x y : Player} (hp : s.sessions.Pointers) (hx : (p, x) ∈ s.roster)
    (hy : (p, y) ∈ s.roster) : x = y := by
  have hnodup : (s.roster.map Prod.fst).Nodup := by
    have hnodup := hp.users
    rw [sessions, List.map_map] at hnodup
    rw [roster, List.map_map]
    exact hnodup
  exact congrArg Prod.snd (List.inj_on_of_nodup_map hnodup hx hy rfl)

theorem roster_lt (hp : s.sessions.Pointers) : ∀ entry ∈ s.roster, entry.1 < s.nextPtr := by
  intro entry hentry
  obtain ⟨user, hu, rfl⟩ := List.mem_map.mp hentry
  exact hp.user_lt _ (mem_users hu)

theorem Seated.unique {seats : Seats} {pair pair' : Pair} (hp : s.sessions.Pointers) (h : s.Seated seats pair)
    (h' : s.Seated seats pair') : pair = pair' := by
  obtain ⟨p, userA, userB⟩ := seats
  obtain ⟨a, b⟩ := pair
  obtain ⟨a', b'⟩ := pair'
  obtain ⟨hA, hB⟩ := h
  obtain ⟨hA', hB'⟩ := h'
  obtain rfl := roster_unique hp hA hA'
  congr 1
  cases hB with
  | some hB =>
      cases hB' with
      | some hB' => rw [roster_unique hp hB hB']
  | none =>
      cases hB'
      rfl

/-- The players of a battle are online. -/
theorem Seated.players {seats : Seats} {pair : Pair} (h : s.Seated seats pair) :
    ∀ player ∈ pair.players, ∃ p, (p, player) ∈ s.roster := by
  obtain ⟨p, userA, userB⟩ := seats
  obtain ⟨a, b⟩ := pair
  obtain ⟨hA, hB⟩ := h
  intro player hmem
  rcases List.mem_cons.mp hmem with rfl | hmem
  · exact ⟨_, hA⟩
  · cases hB with
    | some hB =>
        obtain rfl := List.mem_singleton.mp hmem
        exact ⟨_, hB⟩
    | none => cases hmem

theorem Seated.below {seats : Seats} {pair : Pair} (hp : s.sessions.Pointers) (h : s.Seated seats pair) :
    seats.Below s.nextPtr := by
  obtain ⟨p, userA, userB⟩ := seats
  obtain ⟨a, b⟩ := pair
  obtain ⟨hA, hB⟩ := h
  refine ⟨roster_lt hp _ hA, fun q hq => ?_⟩
  obtain rfl : userB = some q := hq
  cases hB with
  | some hB => exact roster_lt hp _ hB

/-- Players whose pointers were given out before stay the same. -/
theorem Seated.before {seats : Seats} {pair : Pair} (h : s'.Seated seats pair) (hlt : seats.Below s.nextPtr)
    (hsub : ∀ entry ∈ s'.roster, entry.1 < s.nextPtr → entry ∈ s.roster) : s.Seated seats pair := by
  obtain ⟨p, userA, userB⟩ := seats
  obtain ⟨a, b⟩ := pair
  obtain ⟨hA, hB⟩ := h
  refine ⟨hsub _ hA hlt.userA, ?_⟩
  cases hB with
  | some hB => exact .some (hsub _ hB (hlt.userB _ rfl))
  | none => exact .none

end ServerBackend

namespace Kept

theorem settles {closings : List Closing} (h : Kept s tr book ended) (hp' : s'.sessions.Pointers)
    (hs : Settles e s s' out closings) :
    Kept s' ((e, out) :: tr) book (closings.map Closing.entry ++ ended) := by
  have hbattles : (startedBattles s' (closings.map Closing.entry ++ ended)).Perm (startedBattles s ended) := by
    have hptrs := (hs.seats.map Seats.ptr).append_left (ended.map Prod.fst)
    rw [startedBattles, startedBattles, List.map_append, List.map_map, List.append_assoc]
    rw [List.map_append, List.map_map] at hptrs
    refine List.Perm.trans ?_ hptrs.symm
    rw [← List.append_assoc, ← List.append_assoc]
    exact List.perm_append_comm.append_right _
  have hsub : ∀ seats ∈ s'.seats, seats ∈ s.seats := fun seats hmem =>
    hs.seats.mem_iff.mpr (List.mem_append_right _ hmem)
  have hpair : ∀ closing ∈ closings, (book closing.seats.ptr).toPair = closing.pair := fun closing hmem =>
    h.seated _ (hs.seats.mem_iff.mpr (List.mem_append_left _ (List.mem_map_of_mem hmem))) _
      (hs.closed closing hmem).1
  refine ⟨⟨hbattles.nodup_iff.mpr h.once, ?_, ?_, ?_, ?_, ?_⟩, hp', ?_, ?_, ?_⟩
  · rw [startsIn_cons, hs.starts, List.nil_append]
    exact h.starts.trans (hbattles.flatMap_right _).symm
  · rw [endsIn_cons, hs.finishes, h.finishes, List.flatMap_append, List.flatMap_map]
    congr 1
    refine List.flatMap_congr fun closing hmem => ?_
    rw [Closing.entry, hpair closing hmem]
  · intro x hx
    rcases List.mem_append.mp hx with hx | hx
    · obtain ⟨closing, hmem, rfl⟩ := List.mem_map.mp hx
      refine ⟨e, List.mem_cons_self, ?_⟩
      rw [Closing.entry, hpair closing hmem]
      exact (hs.closed closing hmem).2
    · exact h.ends_cons hx
  · exact fun p hp player hplayer => (h.asked p (hbattles.mem_iff.mp hp) player hplayer).cons
  · exact fun seats hmem pair hseated => h.seated seats (hsub seats hmem) pair (hseated.mono hs.roster)
  · intro p hp
    rw [hs.nextPtr]
    exact h.battle_lt p (hbattles.mem_iff.mp hp)
  · intro seats hmem
    rw [hs.nextPtr]
    exact h.user_lt seats (hsub seats hmem)
  · exact fun entry hmem => (h.online entry (hs.roster entry hmem)).cons

theorem opens {seats : Seats} {bout : Bout} (h : Kept s tr book ended) (hp' : s'.sessions.Pointers)
    (hs : Opens s s' out seats bout) :
    Kept s' ((e, out) :: tr) (Function.update book s.nextPtr bout) ended := by
  have hold : ∀ p ∈ startedBattles s ended, Function.update book s.nextPtr bout p = book p := fun p hp =>
    Function.update_of_ne (Nat.ne_of_lt (h.battle_lt p hp)) ..
  have hended : ∀ x ∈ ended, Function.update book s.nextPtr bout x.1 = book x.1 := fun x hx =>
    hold x.1 (List.mem_append_left _ (List.mem_map_of_mem hx))
  have hbattles : startedBattles s' ended = startedBattles s ended ++ [s.nextPtr] := by
    rw [startedBattles, hs.seats, List.map_append, ← List.append_assoc, ← startedBattles, List.map_singleton,
      hs.ptr]
  have hlt : s.nextPtr < s'.nextPtr := by
    rw [hs.nextPtr]
    exact Nat.lt_succ_self _
  refine ⟨⟨?_, ?_, ?_, ?_, ?_, ?_⟩, hp', ?_, ?_, ?_⟩
  · rw [hbattles]
    refine h.once.append (List.nodup_singleton _) fun p hp hnew => ?_
    exact Nat.ne_of_lt (h.battle_lt p hp) (List.mem_singleton.mp hnew)
  · rw [startsIn_cons, hs.starts, hbattles, List.flatMap_append, List.flatMap_singleton, Function.update_self]
    refine List.perm_append_comm.trans (List.Perm.append_right _ ?_)
    rw [List.flatMap_congr fun p hp => congrArg Bout.begins (hold p hp)]
    exact h.starts
  · rw [endsIn_cons, hs.finishes, List.nil_append, h.finishes]
    refine List.flatMap_congr fun x hx => ?_
    rw [hended x hx]
  · intro x hx
    rw [hended x hx]
    exact h.ends_cons hx
  · intro p hp player hplayer
    rw [hbattles] at hp
    rcases List.mem_append.mp hp with hp | hp
    · rw [hold p hp] at hplayer
      exact (h.asked p hp player hplayer).cons
    · rw [List.mem_singleton.mp hp, Function.update_self] at hplayer
      obtain ⟨q, hq⟩ := hs.seated.players player hplayer
      exact (h.online _ hq).cons
  · intro seats' hmem pair hseated
    have hseated := hseated.mono fun entry hentry => hs.roster ▸ hentry
    rw [hs.seats] at hmem
    rcases List.mem_append.mp hmem with hmem | hmem
    · rw [hold _ (List.mem_append_right _ (List.mem_map_of_mem hmem))]
      exact h.seated seats' hmem pair hseated
    · obtain rfl := List.mem_singleton.mp hmem
      rw [hs.ptr, Function.update_self]
      exact hs.seated.unique h.pointers hseated
  · intro p hp
    rw [hbattles] at hp
    rcases List.mem_append.mp hp with hp | hp
    · exact Nat.lt_trans (h.battle_lt p hp) hlt
    · rw [List.mem_singleton.mp hp]
      exact hlt
  · intro seats' hmem
    rw [hs.seats] at hmem
    rcases List.mem_append.mp hmem with hmem | hmem
    · exact (h.user_lt seats' hmem).mono hlt
    · obtain rfl := List.mem_singleton.mp hmem
      exact (hs.seated.below h.pointers).mono hlt
  · intro entry hmem
    rw [hs.roster] at hmem
    exact (h.online entry hmem).cons

theorem joins {player : Player} (h : Kept s tr book ended) (hp' : s'.sessions.Pointers)
    (hs : Joins e s s' out player) : Kept s' ((e, out) :: tr) book ended := by
  have hbattles : startedBattles s' ended = startedBattles s ended := by
    rw [startedBattles, hs.seats, startedBattles]
  have hlt : s.nextPtr < s'.nextPtr := by
    rw [hs.nextPtr]
    exact Nat.lt_succ_self _
  refine ⟨⟨hbattles ▸ h.once, ?_, ?_, ?_, ?_, ?_⟩, hp', ?_, ?_, ?_⟩
  · rw [startsIn_cons, hs.silent.starts, List.nil_append, hbattles]
    exact h.starts
  · rw [endsIn_cons, hs.silent.finishes, List.nil_append]
    exact h.finishes
  · exact fun x hx => h.ends_cons hx
  · exact fun p hp player hplayer => (h.asked p (hbattles ▸ hp) player hplayer).cons
  · intro seats hmem pair hseated
    rw [hs.seats] at hmem
    refine h.seated seats hmem pair (hseated.before (h.user_lt seats hmem) fun entry hentry hne => ?_)
    rw [hs.roster] at hentry
    rcases List.mem_append.mp hentry with hentry | hentry
    · exact hentry
    · rw [List.mem_singleton.mp hentry] at hne
      exact absurd hne (Nat.lt_irrefl _)
  · intro p hp
    exact Nat.lt_trans (h.battle_lt p (hbattles ▸ hp)) hlt
  · intro seats hmem
    rw [hs.seats] at hmem
    exact (h.user_lt seats hmem).mono hlt
  · intro entry hmem
    rw [hs.roster] at hmem
    rcases List.mem_append.mp hmem with hmem | hmem
    · exact (h.online entry hmem).cons
    · rw [List.mem_singleton.mp hmem]
      obtain ⟨userPsw, chance, rfl⟩ := hs.event
      exact ⟨userPsw, chance, List.mem_cons_self⟩

theorem step (h : Kept s tr book ended) (hs : backendStep rt s e = some (s', out)) :
    ∃ book ended, Kept s' ((e, out) :: tr) book ended := by
  have hp' := pointers_step h.pointers hs
  cases ServerBackend.battleStep h.pointers hs with
  | settles closings hsettles => exact ⟨_, _, h.settles hp' hsettles⟩
  | opens seats bout hopens => exact ⟨_, _, h.opens hp' hopens⟩
  | joins player hjoins => exact ⟨_, _, h.joins hp' hjoins⟩

end Kept

def noBout : Bout := ⟨⟨⟨"", 0⟩, none⟩, 0, fun h => (by cases h)⟩

theorem kept_newServerBackend (db : δ) : Kept (newServerBackend db) [] (fun _ => noBout) [] := by
  refine ⟨⟨List.nodup_nil, .refl _, rfl, ?_, ?_, ?_⟩, (newServerBackend_consistent db).1, ?_, ?_, ?_⟩
  all_goals
    intro x hx
    cases hx

/-- In every run, whatever clients send and whenever they disconnect, the starts and ends that the server tells
of are those of the battles: each battle is started once, to both of its players, and ended at most once, by
telling each of its players who did not leave whether he has won. -/
theorem battles_are_conversations (rt : Runtime δ) (db : δ)
    (h : (backendStep rt).AnyRun (newServerBackend db) s tr) :
    ∃ book ended, Conversations s tr book ended := by
  obtain ⟨book, ended, hkept⟩ := h.invariant (I := fun s tr => ∃ book ended, Kept s tr book ended)
    ⟨_, _, kept_newServerBackend db⟩ fun _ _ _ _ _ _ ⟨_, _, hkept⟩ _ hs => hkept.step hs
  exact ⟨book, ended, hkept.toConversations⟩

/-- A battle that is given up, and one that goes on. -/
def twoBattles : List Event :=
  [accept 2 "a" "b", .message 1 (.battleGiveUp "a") noChance, accept 2 "a" "b", invite 1 "a" "b",
    login 2 "b", login 1 "a"]

theorem battles_are_conversations_example :
    ∃ s tr, (backendStep smallRuntime).AnyRun (newServerBackend smallTables) s tr ∧
      tr.map Prod.fst = twoBattles ∧ startsIn (replies tr) = [(1, 1), (2, 0), (1, 1), (2, 0)] ∧
      endsIn (replies tr) = [(2, .win, .oppositeDisconnected)] ∧
      ∃ book ended, Conversations s tr book ended := by
  obtain ⟨hrun, hevents⟩ := Machine.run_after (backendStep smallRuntime) Machine.always
    (newServerBackend smallTables) twoBattles (by decide +kernel)
  exact ⟨_, _, hrun.any, hevents, by decide +kernel, by decide +kernel,
    battles_are_conversations smallRuntime smallTables hrun.any⟩

end TermCollection.Pokemon
