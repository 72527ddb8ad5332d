import TermCollection.Pokemon.Lemmas.Sessions
import TermCollection.Pokemon.Lemmas.Users

/-!
# Turns and results of battles

A turn keeps the users of its battle, and the result of a battle ends it for both of them.
-/

namespace TermCollection.Pokemon

variable {δ : Type} {rt : Runtime δ} {s s' : ServerBackend δ} {out : List Sent} {p : Nat}
variable {attack : Attack} {battle : BattleField} {user winner loser : Option Nat} {chance : TurnChance}

/-! ## Turns -/

namespace BattleField

/-- The battles are the same one, at different times. -/
structure Same (battle battle' : BattleField) : Prop where
  ptr : battle'.ptr = battle.ptr
  userA : battle'.userA = battle.userA
  userB : battle'.userB = battle.userB

theorem Same.trans {b₁ b₂ b₃ : BattleField} (h : Same b₁ b₂) (h' : Same b₂ b₃) : Same b₁ b₃ :=
  ⟨h'.ptr.trans h.ptr, h'.userA.trans h.userA, h'.userB.trans h.userB⟩

theorem Same.participants {b₁ b₂ : BattleField} (h : Same b₁ b₂) : b₂.participants = b₁.participants := by
  rw [BattleField.participants, BattleField.participants, h.userA, h.userB]

theorem same_strike (attack : Attack) (battle : BattleField) (draw : Nat) (type : BalanceType) :
    Same battle (battle.strike attack draw type).1 := by
  cases type <;> exact ⟨rfl, rfl, rfl⟩

theorem checkBattleIsFinished_winner (h : battle.checkBattleIsFinished = some winner) :
    winner = battle.userB ∨ winner = some battle.userA := by
  unfold checkBattleIsFinished at h
  split at h
  · cases h; exact .inl rfl
  · split at h
    · cases h; exact .inr rfl
    · cases h

/-- A turn keeps the users, and the winner is one of them. -/
structure TurnOf (battle : BattleField) (turn : Turn) : Prop where
  same : Same battle turn.battle
  winner : ∀ winner, turn.winner = some winner → winner = battle.userB ∨ winner = some battle.userA

theorem TurnOf.finished {battle' : BattleField} {infos : List TurnInfo} (h : Same battle battle') :
    TurnOf battle ⟨battle', infos, battle'.checkBattleIsFinished⟩ := by
  refine ⟨h, fun winner hw => ?_⟩
  rw [← h.userA, ← h.userB]
  exact checkBattleIsFinished_winner hw

theorem turnOf_inOrder (attack : Attack) (battle : BattleField) (draw : BalanceType → Nat) (first second : BalanceType) :
    TurnOf battle (battle.turnInOrder attack draw first second) := by
  have h₁ := same_strike attack battle (draw first) first
  have h₂ := h₁.trans (same_strike attack (battle.strike attack (draw first) first).1
    (draw second) second)
  simp only [turnInOrder]
  split
  · rename_i winner hw
    rw [← hw]
    exact .finished h₁
  · split
    · rename_i winner hw
      rw [← hw]
      exact .finished h₂
    · exact .finished (h₂.trans ⟨rfl, rfl, rfl⟩)

theorem turnOf_turn (attack : Attack) (battle : BattleField) (draw : BalanceType → Nat) :
    TurnOf battle (battle.turn attack draw) :=
  iteInduction (fun _ => turnOf_inOrder attack battle draw .aToB .bToA)
    fun _ => turnOf_inOrder attack battle draw .bToA .aToB

theorem turnOf_setAction (attack : Attack) (battle : BattleField) (skillIndex : Int) (userIndex : Nat)
    (draw : BalanceType → Nat) : TurnOf battle (battle.setAction attack skillIndex userIndex draw) := by
  have hturn : ∀ battle' : BattleField, Same battle battle' →
      TurnOf battle (battle'.turn attack draw) := by
    intro battle' h
    have h' := turnOf_turn attack battle' draw
    exact ⟨h.trans h'.same, by rw [← h.userA, ← h.userB]; exact h'.winner⟩
  simp only [setAction]
  split <;> split
  · exact hturn _ ⟨rfl, rfl, rfl⟩
  · exact ⟨⟨rfl, rfl, rfl⟩, fun _ h => by cases h⟩
  · exact hturn _ ⟨rfl, rfl, rfl⟩
  · exact ⟨⟨rfl, rfl, rfl⟩, fun _ h => by cases h⟩

end BattleField

namespace ServerBackend

/-! ## Users -/

theorem modifyUser_eq_some {f : User → User} (h : s.modifyUser p f = some s') :
    (∃ user ∈ s.userList, user.ptr = p) ∧
      s' = { s with userList := s.userList.map fun user => if user.ptr = p then f user else user } := by
  simp only [modifyUser, Option.bind_eq_bind, Option.bind_eq_some_iff, Option.some.injEq] at h
  obtain ⟨user, huser, rfl⟩ := h
  exact ⟨⟨user, userAt_spec huser⟩, rfl⟩

theorem sessions_modifyUser {f : User → User} (h : s.modifyUser p f = some s')
    (hf : ∀ user, (f user).ptr = user.ptr ∧ (f user).status = user.status) :
    s'.sessions = s.sessions := by
  obtain ⟨-, rfl⟩ := modifyUser_eq_some h
  simp only [sessions, List.map_map, Sessions.mk.injEq, and_true]
  apply List.map_congr_left
  intro user _
  simp only [Function.comp_apply]
  split
  · rw [(hf user).1, (hf user).2]
  · rfl

theorem sessions_setStatus {status : UserStatus} (h : s.setStatus p status = some s') :
    p ∈ s.sessions.lobby.online ∧ s'.sessions = s.sessions.setStatus p status := by
  obtain ⟨⟨user, huser, hptr⟩, rfl⟩ := modifyUser_eq_some h
  refine ⟨?_, ?_⟩
  · simp only [sessions, Sessions.lobby, Set.mem_ofPred_eq, List.map_map, List.mem_map]
    exact ⟨user, huser, hptr⟩
  · simp only [sessions, Sessions.setStatus, List.map_map, Sessions.mk.injEq, and_true]
    apply List.map_congr_left
    intro user _
    simp only [Function.comp_apply]
    split <;> rfl

theorem sessions_setBattlePkmId {id : Int} (h : s.setBattlePkmId p id = some s') :
    s'.sessions = s.sessions := sessions_modifyUser h fun _ => ⟨rfl, rfl⟩

theorem sessions_updateUserInfo (h : updateUserInfo rt s p = some s') : s'.sessions = s.sessions :=
  sessions_modifyUser h fun _ => ⟨rfl, rfl⟩

theorem sessions_battleOver {won : Bool} (h : battleOver rt s p won = some s') :
    s'.sessions = s.sessions := by
  simp only [battleOver, Option.bind_eq_bind, Option.bind_eq_some_iff] at h
  obtain ⟨user, -, h⟩ := h
  have hinfo := sessions_updateUserInfo h
  exact hinfo

/-! ## Results -/

theorem sessions_duelLost (h : duelLost rt s p chance = some (s', out)) :
    s'.sessions = s.sessions := by
  simp only [duelLost, Option.bind_eq_bind, Option.bind_eq_some_iff, Option.some.injEq,
    Prod.mk.injEq] at h
  obtain ⟨s₁, h₁, _, -, _, -, rfl, -⟩ := h
  exact sessions_battleOver h₁

theorem sessions_duelResult (h : duelResult rt s battle winner loser chance = some (s', out)) :
    s'.sessions = s.sessions := by
  unfold duelResult at h
  split at h
  · simp only [Option.bind_eq_bind, Option.bind_eq_some_iff] at h
    obtain ⟨s₁, h₁, h⟩ := h
    exact (sessions_duelLost h).trans (sessions_battleOver h₁)
  · simp only [Option.bind_eq_bind, Option.bind_eq_some_iff, Option.some.injEq, Prod.mk.injEq] at h
    obtain ⟨s₁, h₁, _, -, _, -, rfl, -⟩ := h
    have hwon := sessions_battleOver h₁
    exact hwon
  · exact sessions_duelLost h
  · cases h; rfl

theorem sessions_awardWinner (h : awardWinner rt s battle winner chance = some s') :
    s'.sessions = s.sessions := by
  unfold awardWinner at h
  split at h
  · cases h; rfl
  · simp only [Option.bind_eq_bind, Option.bind_eq_some_iff, Option.some.injEq, Prod.exists] at h
    obtain ⟨_, _, -, rfl⟩ := h
    rfl

theorem sessions_finishFor {result : BattleResult} (h : s.finishFor user result = some (s', out)) :
    s'.sessions = s.sessions.idle user.toList := by
  unfold finishFor at h
  split at h
  · cases h; rw [Option.toList_none, Sessions.idle_nil]
  · simp only [Option.bind_eq_bind, Option.bind_eq_some_iff, Option.some.injEq, Prod.mk.injEq] at h
    obtain ⟨s₁, h₁, _, -, rfl, -⟩ := h
    rw [(sessions_setStatus h₁).2, Option.toList_some, Sessions.idle_singleton]

theorem sessions_removeBattle (s : ServerBackend δ) (p : Nat) :
    (s.removeBattle p).sessions = s.sessions.removeBattle p := by
  simp only [sessions, removeBattle, Sessions.removeBattle, List.filter_map, Sessions.mk.injEq,
    true_and, and_true]
  rfl

theorem sessions_slotGetBattleResult
    (h : slotGetBattleResult rt s battle winner chance = some (s', out))
    (hw : winner = battle.userB ∨ winner = some battle.userA) :
    s'.sessions = s.sessions.endBattle battle.ptr battle.participants := by
  simp only [slotGetBattleResult, Option.bind_eq_bind, Option.bind_eq_some_iff, Option.some.injEq,
    Prod.mk.injEq, Prod.exists] at h
  obtain ⟨s₁, _, h₁, s₂, h₂, s₃, _, h₃, s₄, _, h₄, rfl, -⟩ := h
  have hduel : s₄.sessions = s₃.sessions := by
    split at h₄
    · exact sessions_duelResult h₄
    · cases h₄; rfl
  rw [sessions_removeBattle, hduel, sessions_finishFor h₃, sessions_awardWinner h₂,
    sessions_finishFor h₁, Sessions.idle_idle, Sessions.endBattle]
  congr 1
  apply Sessions.idle_congr
  intro q
  rw [List.mem_append, BattleField.participants, List.mem_cons]
  by_cases hA : winner = some battle.userA
  · simp [hA, or_comm]
  · have hB := hw.resolve_right hA
    subst hB
    simp [hA]

/-- A battle keeps its entry when it is replaced by itself at a later time. -/
theorem sessions_setBattle (hp : s.sessions.Pointers) (hb : battle ∈ s.battleFieldList)
    {battle' : BattleField} (h : battle.Same battle') : (s.setBattle battle').sessions = s.sessions := by
  simp only [sessions, setBattle, List.map_map, Sessions.mk.injEq, true_and, and_true]
  apply List.map_congr_left
  intro old hold
  simp only [Function.comp_apply]
  split
  · rename_i hptr
    have hnodup : (s.battleFieldList.map BattleField.ptr).Nodup := by
      have hnodup := hp.battles
      rw [sessions, List.map_map] at hnodup
      exact hnodup
    have heq : old = battle := List.inj_on_of_nodup_map hnodup hold hb (hptr.trans h.ptr)
    rw [heq, h.ptr, h.participants]
  · rfl

/-- The battle of a user ended, or nothing about the users and their battles changed. -/
theorem sessions_setAction {skillIndex : Int} {userIndex : Nat} (hp : s.sessions.Pointers)
    (h : s.setAction rt p skillIndex userIndex chance = some (s', out)) :
    s'.sessions = s.sessions ∨
      ∃ ps, (p, ps) ∈ s.sessions.battles ∧ s'.sessions = s.sessions.endBattle p ps := by
  simp only [setAction, Option.bind_eq_bind, Option.bind_eq_some_iff] at h
  obtain ⟨battle, hbattle, infos, -, h⟩ := h
  obtain ⟨hmem, hptr⟩ := battleAt_spec hbattle
  have hturn := BattleField.turnOf_setAction rt.attack battle skillIndex userIndex
    chance.attack
  have hset := sessions_setBattle hp hmem hturn.same
  split at h
  · cases h
    exact .inl hset
  · rename_i winner hwinner
    simp only [Option.bind_eq_some_iff, Option.some.injEq, Prod.mk.injEq, Prod.exists] at h
    obtain ⟨s₁, _, h₁, rfl, -⟩ := h
    have hw := hturn.winner winner hwinner
    rw [← hturn.same.userA, ← hturn.same.userB] at hw
    refine .inr ⟨battle.participants, ?_, ?_⟩
    · rw [← hptr]
      exact List.mem_map_of_mem (f := fun battle : BattleField => (battle.ptr, battle.participants)) hmem
    · rw [sessions_slotGetBattleResult h₁ hw, hset, hturn.same.participants, hturn.same.ptr, hptr]

end ServerBackend

end TermCollection.Pokemon
