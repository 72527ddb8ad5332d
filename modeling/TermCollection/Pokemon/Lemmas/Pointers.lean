import TermCollection.Pokemon.SessionConsistency

/-!
# Pointers of every run

Whatever the clients send, no two users and no two battles have one address.
-/

namespace TermCollection.Pokemon

variable {δ : Type} {rt : Runtime δ} {s s' : ServerBackend δ} {out : List Sent} {i : Nat}
variable {user : User} {client : Nat}

open ServerBackend

theorem pointers_slotHandleBattleInviteResponse {battleMode : BattleMode} {fromUser destUser : QString}
    {destUserPkmId : Int} {flag : BattleStartStatus} (hp : s.sessions.Pointers)
    (h : slotHandleBattleInviteResponse rt s battleMode fromUser destUser destUserPkmId flag =
      some (s', out)) : s'.sessions.Pointers := by
  unfold slotHandleBattleInviteResponse at h
  split at h
  · cases h
    exact hp
  · split at h
    · cases h
      exact hp
    · simp only [Option.bind_eq_bind, Option.bind_eq_some_iff, Option.some.injEq, Prod.mk.injEq] at h
      obtain ⟨s₁, h₁, pkmA, -, pkmB, -, s₂, h₂, s₃, h₃, rfl, -⟩ := h
      rw [(sessions_setStatus h₃).2, (sessions_setStatus h₂).2, sessions_addBattle,
        sessions_setBattlePkmId h₁]
      exact ((hp.addBattle _).setStatus _ _).setStatus _ _

theorem pointers_slotUserLogin {userName userPsw : QString} {entry : UserMemory} (hp : s.sessions.Pointers)
    (h : slotUserLogin rt s client userName userPsw entry = (s', out)) : s'.sessions.Pointers := by
  have hlogin := sessions_slotUserLogin rt s client userName userPsw entry
  simp only [h] at hlogin
  rcases hlogin with hsame | hjoined
  · rw [hsame]
    exact hp
  · rw [hjoined]
    exact hp.addUser _

theorem pointers_leaveBattle (hp : s.sessions.Pointers) (h : s.leaveBattle user = some (s', out)) :
    s'.sessions.Pointers := by
  rcases leaveBattle_cases h with ⟨rfl, -, -⟩ | ⟨battle, p, dest, -, -, h⟩
  · exact hp
  · rw [sessions_winByLeave h, Sessions.idle_eq]
    exact (hp.mapStatus _).removeBattle _

theorem pointers_disconnectLoop {fuel : Nat} (hp : s.sessions.Pointers)
    (h : disconnectLoop client fuel i s = some (s', out)) : s'.sessions.Pointers := by
  refine disconnectLoop_rule (P := fun s => s.sessions.Pointers) ?_ hp h
  intro s s' out user i hp _ hleave
  rw [sessions_eraseIdx]
  exact (pointers_leaveBattle hp hleave).removeUser i

theorem pointers_step {e : Event} (hp : s.sessions.Pointers) (h : backendStep rt s e = some (s', out)) :
    s'.sessions.Pointers := by
  cases e with
  | userDisconnected client => exact pointers_disconnectLoop hp h
  | message client message chance =>
      cases message with
      | userLogin => exact pointers_slotUserLogin hp (Option.some.inj h)
      | battleInviteResponse => exact pointers_slotHandleBattleInviteResponse hp h
      | _ => exact (evolves_step rfl h hp).1

theorem pointers_run {db : δ} {tr : List (Event × List Sent)}
    (h : (backendStep rt).AnyRun (newServerBackend db) s tr) : s.sessions.Pointers :=
  h.stateInvariant (I := fun s => s.sessions.Pointers) (newServerBackend_consistent db).1
    fun _ _ _ _ hp _ hs => pointers_step hp hs

theorem battlePtrs_nodup (h : s.sessions.Pointers) : (s.battleFieldList.map BattleField.ptr).Nodup := by
  have hnodup := h.battles
  rwa [sessions, List.map_map] at hnodup

end TermCollection.Pokemon
