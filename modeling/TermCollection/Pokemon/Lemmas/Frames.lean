import TermCollection.Pokemon.Lemmas.Battles
import TermCollection.Pokemon.Lemmas.Leaving

/-!
# What battles leave alone

The turns and the results of battles change no entry of the list of users but for its status and its
Pokemon, and of the list of battles only the battle itself.
-/

namespace TermCollection.Pokemon

variable {δ : Type} {rt : Runtime δ} {s s' : ServerBackend δ} {out : List Sent} {p i : Nat}
variable {battle : BattleField} {user winner loser : Option Nat} {chance : TurnChance}

/-- The members of a user that no battle changes. -/
structure UserEntry where
  ptr : Nat
  name : QString
  userSocket : Nat
  battlePkmId : Int
  deriving DecidableEq

def User.entry (user : User) : UserEntry := ⟨user.ptr, user.name, user.userSocket, user.battlePkmId⟩

namespace ServerBackend

def entries (s : ServerBackend δ) : List UserEntry := s.userList.map User.entry

theorem userAt_entry (h : s'.entries = s.entries) (p : Nat) :
    (s'.userAt p).map User.entry = (s.userAt p).map User.entry := by
  have hfind : ∀ s : ServerBackend δ,
      (s.userAt p).map User.entry = s.entries.find? fun entry => entry.ptr = p := by
    intro s
    rw [entries, List.find?_map]
    rfl
  rw [hfind, hfind, h]

theorem userAt_name (h : s'.entries = s.entries) (p : Nat) :
    (s'.userAt p).map User.name = (s.userAt p).map User.name := by
  have hentry := congrArg (Option.map UserEntry.name) (userAt_entry h p)
  rwa [Option.map_map, Option.map_map] at hentry

/-! ## Users -/

theorem entries_modifyUser {f : User → User} (h : s.modifyUser p f = some s')
    (hf : ∀ user, (f user).entry = user.entry) :
    s'.entries = s.entries ∧ s'.battleFieldList = s.battleFieldList := by
  obtain ⟨-, rfl⟩ := modifyUser_eq_some h
  refine ⟨?_, rfl⟩
  rw [entries, List.map_map, entries]
  apply List.map_congr_left
  intro user _
  rw [Function.comp_apply]
  split
  · exact hf user
  · rfl

theorem entries_setStatus {status : UserStatus} (h : s.setStatus p status = some s') :
    s'.entries = s.entries ∧ s'.battleFieldList = s.battleFieldList :=
  entries_modifyUser h fun _ => rfl

theorem entries_battleOver {won : Bool} (h : battleOver rt s p won = some s') :
    s'.entries = s.entries ∧ s'.battleFieldList = s.battleFieldList := by
  simp only [battleOver, Option.bind_eq_bind, Option.bind_eq_some_iff] at h
  obtain ⟨user, -, h⟩ := h
  have hinfo := entries_modifyUser h fun _ => rfl
  exact hinfo

/-! ## Results -/

theorem entries_duelLost (h : duelLost rt s p chance = some (s', out)) :
    s'.entries = s.entries ∧ s'.battleFieldList = s.battleFieldList := by
  simp only [duelLost, Option.bind_eq_bind, Option.bind_eq_some_iff, Option.some.injEq,
    Prod.mk.injEq] at h
  obtain ⟨s₁, h₁, _, -, _, -, rfl, -⟩ := h
  exact entries_battleOver h₁

theorem entries_duelResult (h : duelResult rt s battle winner loser chance = some (s', out)) :
    s'.entries = s.entries ∧ s'.battleFieldList = s.battleFieldList := by
  unfold duelResult at h
  split at h
  · simp only [Option.bind_eq_bind, Option.bind_eq_some_iff] at h
    obtain ⟨s₁, h₁, h⟩ := h
    obtain ⟨hentries, hbattles⟩ := entries_duelLost h
    obtain ⟨hentries₁, hbattles₁⟩ := entries_battleOver h₁
    exact ⟨hentries.trans hentries₁, hbattles.trans hbattles₁⟩
  · simp only [Option.bind_eq_bind, Option.bind_eq_some_iff, Option.some.injEq, Prod.mk.injEq] at h
    obtain ⟨s₁, h₁, _, -, _, -, rfl, -⟩ := h
    have hwon := entries_battleOver h₁
    exact hwon
  · exact entries_duelLost h
  · cases h
    exact ⟨rfl, rfl⟩

theorem entries_awardWinner (h : awardWinner rt s battle winner chance = some s') :
    s'.entries = s.entries ∧ s'.battleFieldList = s.battleFieldList := by
  unfold awardWinner at h
  split at h
  · cases h
    exact ⟨rfl, rfl⟩
  · simp only [Option.bind_eq_bind, Option.bind_eq_some_iff, Option.some.injEq, Prod.exists] at h
    obtain ⟨_, _, -, rfl⟩ := h
    exact ⟨rfl, rfl⟩

theorem entries_finishFor {result : BattleResult} (h : s.finishFor user result = some (s', out)) :
    s'.entries = s.entries ∧ s'.battleFieldList = s.battleFieldList := by
  unfold finishFor at h
  split at h
  · cases h
    exact ⟨rfl, rfl⟩
  · simp only [Option.bind_eq_bind, Option.bind_eq_some_iff, Option.some.injEq, Prod.mk.injEq] at h
    obtain ⟨s₁, h₁, _, -, rfl, -⟩ := h
    exact entries_setStatus h₁

theorem entries_slotGetBattleResult
    (h : slotGetBattleResult rt s battle winner chance = some (s', out)) :
    s'.entries = s.entries ∧
      s'.battleFieldList = s.battleFieldList.filter (·.ptr ≠ battle.ptr) := by
  simp only [slotGetBattleResult, Option.bind_eq_bind, Option.bind_eq_some_iff, Option.some.injEq,
    Prod.mk.injEq, Prod.exists] at h
  obtain ⟨s₁, _, h₁, s₂, h₂, s₃, _, h₃, s₄, _, h₄, rfl, -⟩ := h
  obtain ⟨hentries₁, hbattles₁⟩ := entries_finishFor h₁
  obtain ⟨hentries₂, hbattles₂⟩ := entries_awardWinner h₂
  obtain ⟨hentries₃, hbattles₃⟩ := entries_finishFor h₃
  have hduel : s₄.entries = s₃.entries ∧ s₄.battleFieldList = s₃.battleFieldList := by
    split at h₄
    · exact entries_duelResult h₄
    · cases h₄
      exact ⟨rfl, rfl⟩
  refine ⟨hduel.1.trans (hentries₃.trans (hentries₂.trans hentries₁)), ?_⟩
  rw [removeBattle, hduel.2, hbattles₃, hbattles₂, hbattles₁]

theorem entries_winByLeave {dest : Option Nat} (h : s.winByLeave battle dest = some (s', out)) :
    s'.entries = s.entries := by
  rcases winByLeave_cases h with ⟨-, rfl⟩ | ⟨p, s₁, -, h₁, rfl⟩
  · rfl
  · exact (entries_setStatus h₁).1

theorem entries_leaveBattle {user : User} (h : s.leaveBattle user = some (s', out)) :
    s'.entries = s.entries := by
  rcases leaveBattle_cases h with ⟨rfl, -, -⟩ | ⟨battle, p, dest, -, -, h⟩
  · rfl
  · exact entries_winByLeave h

/-! ## Actions -/

/-- The entries stay, and of the battles one is in its next state or over. -/
theorem entries_setAction {skillIndex : Int} {userIndex : Nat}
    (hptrs : (s.battleFieldList.map BattleField.ptr).Nodup) (hi : s.battleFieldList[i]? = some battle)
    (h : s.setAction rt battle.ptr skillIndex userIndex chance = some (s', out)) :
    s'.entries = s.entries ∧ s'.battleFieldList =
      if (battle.setAction rt.attack skillIndex userIndex chance.attack).winner.isSome then
        s.battleFieldList.eraseIdx i
      else s.battleFieldList.set i
        (battle.setAction rt.attack skillIndex userIndex chance.attack).battle := by
  have hat := battleAt_of_mem hptrs (List.mem_of_getElem? hi)
  simp only [setAction, hat, Option.bind_eq_bind, Option.bind_some, Option.bind_eq_some_iff] at h
  obtain ⟨infos, -, h⟩ := h
  have hptr := (BattleField.turnOf_setAction rt.attack battle skillIndex userIndex chance.attack).same.ptr
  generalize battle.setAction rt.attack skillIndex userIndex chance.attack = turn at h hptr ⊢
  have hset : (s.setBattle turn.battle).battleFieldList = s.battleFieldList.set i turn.battle := by
    rw [setBattle, hptr]
    exact map_eq_set hptrs hi
  cases hwinner : turn.winner with
  | none =>
      rw [hwinner] at h
      cases h
      rw [Option.isSome_none, if_neg Bool.false_ne_true]
      exact ⟨rfl, hset⟩
  | some winner =>
      rw [hwinner] at h
      simp only [Option.bind_eq_some_iff, Option.some.injEq, Prod.mk.injEq, Prod.exists] at h
      obtain ⟨s₁, _, h₁, rfl, -⟩ := h
      obtain ⟨hentries, hbattles⟩ := entries_slotGetBattleResult h₁
      rw [Option.isSome_some, if_pos rfl, hbattles, hset]
      refine ⟨hentries, ?_⟩
      have hptrs' : ((s.battleFieldList.set i turn.battle).map BattleField.ptr).Nodup := by
        rw [map_set_key hi hptr]
        exact hptrs
      have hi' : (s.battleFieldList.set i turn.battle)[i]? = some turn.battle := by
        obtain ⟨hlt, -⟩ := List.getElem?_eq_some_iff.mp hi
        rw [List.getElem?_set_self hlt]
      rw [← eraseIdx_eq_filter hptrs' hi', List.eraseIdx_set_eq]

end ServerBackend

end TermCollection.Pokemon
