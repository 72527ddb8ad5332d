import TermCollection.Lib.Lobby
import TermCollection.Pokemon.ServerBackend

/-!
# Sessions and battles

What a handler does to the users, their status and the battles they take part in, all else left out.
-/

namespace TermCollection.Pokemon

variable {δ : Type} {rt : Runtime δ} {s s' : ServerBackend δ} {out : List Sent} {p q i : Nat}
variable {status : UserStatus} {battle : BattleField} {ps : List Nat}

/-- The users with their status, and the battles with those who take part. -/
structure Sessions where
  users : List (Nat × UserStatus)
  battles : List (Nat × List Nat)
  nextPtr : Nat

def ServerBackend.sessions (s : ServerBackend δ) : Sessions where
  users := s.userList.map fun user => (user.ptr, user.status)
  battles := s.battleFieldList.map fun battle => (battle.ptr, battle.participants)
  nextPtr := s.nextPtr

namespace Sessions

variable {v v' : Sessions}

/-! ## Operations -/

def setStatus (v : Sessions) (p : Nat) (status : UserStatus) : Sessions :=
  { v with users := v.users.map fun user => if user.1 = p then (user.1, status) else user }

def addBattle (v : Sessions) (ps : List Nat) : Sessions :=
  { v with battles := v.battles ++ [(v.nextPtr, ps)], nextPtr := v.nextPtr + 1 }

def removeBattle (v : Sessions) (p : Nat) : Sessions :=
  { v with battles := v.battles.filter fun battle => battle.1 ≠ p }

def addUser (v : Sessions) (status : UserStatus) : Sessions :=
  { v with users := v.users ++ [(v.nextPtr, status)], nextPtr := v.nextPtr + 1 }

def removeUser (v : Sessions) (i : Nat) : Sessions := { v with users := v.users.eraseIdx i }

/-- The users of the list become idle. -/
def idle (v : Sessions) (ps : List Nat) : Sessions :=
  { v with users := v.users.map fun user => if user.1 ∈ ps then (user.1, .idle) else user }

/-- The battle `p` of the users `ps` ends. -/
def endBattle (v : Sessions) (p : Nat) (ps : List Nat) : Sessions := (v.idle ps).removeBattle p

theorem idle_nil (v : Sessions) : v.idle [] = v := by simp [idle]

theorem idle_singleton (v : Sessions) (p : Nat) : v.idle [p] = v.setStatus p .idle := by
  simp [idle, setStatus]

theorem idle_idle (v : Sessions) (ps qs : List Nat) : (v.idle ps).idle qs = v.idle (ps ++ qs) := by
  simp only [idle, List.map_map, Sessions.mk.injEq, and_true]
  apply List.map_congr_left
  intro user _
  by_cases hp : user.1 ∈ ps <;> by_cases hq : user.1 ∈ qs <;> simp [hp, hq]

theorem idle_congr {qs : List Nat} (v : Sessions) (h : ∀ q, q ∈ ps ↔ q ∈ qs) : v.idle ps = v.idle qs := by
  simp only [idle, h]

/-! ## Pointers -/

/-- Every pointer belongs to one user or one battle, and was given out before. -/
structure Pointers (v : Sessions) : Prop where
  users : (v.users.map Prod.fst).Nodup
  battles : (v.battles.map Prod.fst).Nodup
  user_lt : ∀ user ∈ v.users, user.1 < v.nextPtr
  battle_lt : ∀ battle ∈ v.battles, battle.1 < v.nextPtr

theorem fst_map {f : Nat × UserStatus → UserStatus} (l : List (Nat × UserStatus)) :
    (l.map fun user => (user.1, f user)).map Prod.fst = l.map Prod.fst := by
  rw [List.map_map]; rfl

theorem setStatus_eq (v : Sessions) (p : Nat) (status : UserStatus) :
    v.setStatus p status = { v with users := v.users.map fun user =>
      (user.1, if user.1 = p then status else user.2) } := by
  rw [setStatus]
  congr 1
  apply List.map_congr_left
  intro user _
  split <;> rfl

theorem idle_eq (v : Sessions) (ps : List Nat) :
    v.idle ps = { v with
      users := v.users.map fun user => (user.1, if user.1 ∈ ps then .idle else user.2) } := by
  rw [idle]
  congr 1
  apply List.map_congr_left
  intro user _
  split <;> rfl

theorem Pointers.mapStatus (h : v.Pointers) (f : Nat × UserStatus → UserStatus) :
    Pointers { v with users := v.users.map fun user => (user.1, f user) } := by
  refine ⟨by rw [fst_map]; exact h.users, h.battles, ?_, h.battle_lt⟩
  intro user huser
  obtain ⟨old, hold, rfl⟩ := List.mem_map.mp huser
  exact h.user_lt old hold

theorem Pointers.setStatus (h : v.Pointers) (p : Nat) (status : UserStatus) :
    (v.setStatus p status).Pointers := by
  rw [setStatus_eq]
  exact h.mapStatus _

theorem Pointers.removeBattle (h : v.Pointers) (p : Nat) : (v.removeBattle p).Pointers :=
  ⟨h.users, h.battles.sublist (List.filter_sublist.map _), h.user_lt,
    fun battle hb => h.battle_lt battle (List.mem_of_mem_filter hb)⟩

theorem Pointers.endBattle (h : v.Pointers) (p : Nat) (ps : List Nat) : (v.endBattle p ps).Pointers := by
  rw [Sessions.endBattle, idle_eq]
  exact (h.mapStatus _).removeBattle p

theorem Pointers.addBattle (h : v.Pointers) (ps : List Nat) : (v.addBattle ps).Pointers := by
  refine ⟨h.users, ?_, fun user hu => Nat.lt_succ_of_lt (h.user_lt user hu), ?_⟩
  · simp only [Sessions.addBattle, List.map_append, List.map_cons, List.map_nil]
    refine h.battles.append (List.nodup_singleton _) ?_
    intro q hq hnew
    obtain ⟨battle, hb, rfl⟩ := List.mem_map.mp hq
    rw [List.mem_singleton] at hnew
    exact Nat.ne_of_lt (h.battle_lt battle hb) hnew
  · intro battle hb
    rcases List.mem_append.mp hb with hb | hb
    · exact Nat.lt_succ_of_lt (h.battle_lt battle hb)
    · rw [List.mem_singleton.mp hb]
      exact Nat.lt_succ_self _

theorem Pointers.addUser (h : v.Pointers) (status : UserStatus) : (v.addUser status).Pointers := by
  refine ⟨?_, h.battles, ?_, fun battle hb => Nat.lt_succ_of_lt (h.battle_lt battle hb)⟩
  · simp only [Sessions.addUser, List.map_append, List.map_cons, List.map_nil]
    refine h.users.append (List.nodup_singleton _) ?_
    intro q hq hnew
    obtain ⟨user, hu, rfl⟩ := List.mem_map.mp hq
    rw [List.mem_singleton] at hnew
    exact Nat.ne_of_lt (h.user_lt user hu) hnew
  · intro user hu
    rcases List.mem_append.mp hu with hu | hu
    · exact Nat.lt_succ_of_lt (h.user_lt user hu)
    · rw [List.mem_singleton.mp hu]
      exact Nat.lt_succ_self _

theorem Pointers.removeUser (h : v.Pointers) (i : Nat) : (v.removeUser i).Pointers :=
  ⟨h.users.sublist ((List.eraseIdx_sublist ..).map _), h.battles,
    fun user hu => h.user_lt user (List.mem_of_mem_eraseIdx hu), h.battle_lt⟩

/-! ## The lobby -/

def lobby (v : Sessions) : Lobby Nat where
  online := {p | p ∈ v.users.map Prod.fst}
  busy := {p | (p, .battling) ∈ v.users}
  games := v.battles.map Prod.snd

theorem Pointers.eq_of_mem (h : v.Pointers) {status' : UserStatus} (hp : (p, status) ∈ v.users)
    (hp' : (p, status') ∈ v.users) : status = status' :=
  congrArg Prod.snd (List.inj_on_of_nodup_map h.users hp hp' rfl)

theorem Pointers.not_busy (h : v.Pointers) (hp : (p, status) ∈ v.users) (hs : status ≠ .battling) :
    p ∉ v.lobby.busy := fun hbusy => hs (h.eq_of_mem hp hbusy)

theorem lobby_idle (v : Sessions) (ps : List Nat) :
    (v.idle ps).lobby = { v.lobby with busy := v.lobby.busy \ {p | p ∈ ps} } := by
  rw [idle_eq]
  simp only [lobby, fst_map, Lobby.mk.injEq, true_and, and_true]
  ext q
  simp only [Set.mem_ofPred_eq, Set.mem_sdiff, List.mem_map, Prod.mk.injEq]
  constructor
  · rintro ⟨⟨r, st⟩, hmem, rfl, hst⟩
    split at hst
    · cases hst
    · rename_i hne
      cases hst
      exact ⟨hmem, hne⟩
  · rintro ⟨hmem, hne⟩
    exact ⟨_, hmem, rfl, if_neg hne⟩

theorem lobby_setStatus_battling (hp : p ∈ v.lobby.online) :
    (v.setStatus p .battling).lobby = { v.lobby with busy := insert p v.lobby.busy } := by
  rw [setStatus_eq]
  simp only [lobby, fst_map, Lobby.mk.injEq, true_and, and_true]
  ext q
  simp only [Set.mem_ofPred_eq, Set.mem_insert_iff, List.mem_map, Prod.mk.injEq]
  constructor
  · rintro ⟨⟨r, st⟩, hmem, rfl, hst⟩
    split at hst
    · exact .inl ‹_›
    · cases hst
      exact .inr hmem
  · rintro (rfl | hmem)
    · obtain ⟨user, hu, rfl⟩ := List.mem_map.mp hp
      exact ⟨user, hu, rfl, if_pos rfl⟩
    · exact ⟨_, hmem, rfl, by split <;> rfl⟩

/-- The users of the list become busy. -/
def engage (v : Sessions) (ps : List Nat) : Sessions := ps.foldl (fun v p => v.setStatus p .battling) v

theorem Pointers.engage (h : v.Pointers) (ps : List Nat) : (v.engage ps).Pointers := by
  induction ps generalizing v with
  | nil => exact h
  | cons p ps ih => exact ih (h.setStatus p .battling)

theorem lobby_engage (h : ∀ p ∈ ps, p ∈ v.lobby.online) :
    (v.engage ps).lobby = { v.lobby with busy := v.lobby.busy ∪ {p | p ∈ ps} } := by
  induction ps generalizing v with
  | nil => simp [Sessions.engage]
  | cons p ps ih =>
      have hp := lobby_setStatus_battling (h p List.mem_cons_self)
      have hps := ih (v := v.setStatus p .battling) fun q hq => by
        rw [hp]
        exact h q (List.mem_cons_of_mem p hq)
      rw [Sessions.engage, List.foldl_cons, ← Sessions.engage, hps, hp]
      simp only [Lobby.mk.injEq, true_and, and_true]
      ext q
      simp only [Set.mem_union, Set.mem_insert_iff, Set.mem_ofPred_eq, List.mem_cons]
      tauto

theorem lobby_addBattle (v : Sessions) (ps : List Nat) :
    (v.addBattle ps).lobby = { v.lobby with games := v.lobby.games ++ [ps] } := by
  simp [lobby, addBattle]

theorem lobby_addUser (v : Sessions) (h : status ≠ .battling) :
    (v.addUser status).lobby = { v.lobby with online := insert v.nextPtr v.lobby.online } := by
  simp only [lobby, addUser, Lobby.mk.injEq, and_true, List.map_append, List.map_cons, List.map_nil]
  constructor
  · ext q
    simp [or_comm]
  · ext q
    simp [Ne.symm h]

theorem mem_removeUser (h : v.Pointers) (hi : v.users[i]? = some (p, status)) (user : Nat × UserStatus) :
    user ∈ v.users.eraseIdx i ↔ user ∈ v.users ∧ user.1 ≠ p := by
  obtain ⟨hlt, hget⟩ := List.getElem?_eq_some_iff.mp hi
  have hnodup := h.users.of_map
  rw [← hnodup.erase_getElem i hlt, hnodup.mem_erase_iff, hget, and_comm]
  refine and_congr_right fun hu => not_congr ⟨fun heq => congrArg Prod.fst heq, fun heq => ?_⟩
  exact List.inj_on_of_nodup_map h.users hu (List.mem_of_getElem? hi) heq

theorem lobby_removeUser (h : v.Pointers) (hi : v.users[i]? = some (p, status)) :
    (v.removeUser i).lobby =
      { v.lobby with online := v.lobby.online \ {p}, busy := v.lobby.busy \ {p} } := by
  have hmem := mem_removeUser h hi
  simp only [lobby, removeUser, Lobby.mk.injEq, and_true]
  constructor
  · ext q
    simp only [Set.mem_ofPred_eq, Set.mem_sdiff, Set.mem_singleton_iff, List.mem_map, hmem]
    constructor
    · rintro ⟨user, ⟨hu, hne⟩, rfl⟩
      exact ⟨⟨user, hu, rfl⟩, hne⟩
    · rintro ⟨⟨user, hu, rfl⟩, hne⟩
      exact ⟨user, ⟨hu, hne⟩, rfl⟩
  · ext q
    simp only [Set.mem_ofPred_eq, Set.mem_sdiff, Set.mem_singleton_iff, hmem]

/-- A user who is made idle can leave. -/
theorem removeUser_move (h : v.Pointers) (hi : v.users[i]? = some (p, status)) :
    Lobby.Move (v.idle [p]).lobby (v.removeUser i).lobby := by
  have hidle : (v.idle [p]).lobby = { v.lobby with busy := v.lobby.busy \ {p} } := by
    rw [lobby_idle]
    simp
  rw [lobby_removeUser h hi, hidle]
  exact .leave _ p fun hbusy => hbusy.2 rfl

theorem removeBattle_split (h : v.Pointers) (hb : (p, ps) ∈ v.battles) :
    ∃ A B : List (List Nat), v.lobby.games = A ++ ps :: B ∧ (v.removeBattle p).lobby.games = A ++ B := by
  obtain ⟨A, B, hsplit⟩ := List.append_of_mem hb
  have hnodup := h.battles
  rw [hsplit, List.map_append, List.map_cons, List.nodup_middle, List.nodup_cons, ← List.map_append]
    at hnodup
  have hkeep : ∀ battle ∈ A ++ B, decide (battle.1 ≠ p) = true := by
    intro battle hmem
    rw [decide_eq_true_eq]
    rintro rfl
    exact hnodup.1 (List.mem_map.mpr ⟨battle, hmem, rfl⟩)
  refine ⟨A.map Prod.snd, B.map Prod.snd, by simp [lobby, hsplit], ?_⟩
  have hA := List.filter_eq_self.mpr fun battle hb => hkeep battle (List.mem_append_left B hb)
  have hB := List.filter_eq_self.mpr fun battle hb => hkeep battle (List.mem_append_right A hb)
  simp only [lobby, removeBattle, hsplit, List.filter_append, List.filter_cons, hA, hB]
  simp

/-- The end of a battle is the end of its game. -/
theorem endBattle_move (h : v.Pointers) (hb : (p, ps) ∈ v.battles) :
    Lobby.Move v.lobby (v.endBattle p ps).lobby := by
  obtain ⟨A, B, hgames, hremoved⟩ := removeBattle_split h hb
  have hafter : (v.endBattle p ps).lobby = ⟨v.lobby.online, v.lobby.busy \ {p | p ∈ ps}, A ++ B⟩ := by
    have hidle := lobby_idle v ps
    rw [← hremoved]
    simp only [lobby, Lobby.mk.injEq] at hidle ⊢
    exact ⟨hidle.1, hidle.2.1, rfl⟩
  have hbefore : v.lobby = ⟨v.lobby.online, v.lobby.busy, A ++ ps :: B⟩ := by rw [← hgames]
  rw [hafter, hbefore]
  exact .finish _ _ A ps B

end Sessions

end TermCollection.Pokemon
