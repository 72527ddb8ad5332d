import TermCollection.Pokemon.ServerBackend

/-!
# Users who leave (`slotBattleGiveUp`, `slotUserDisconnected`)

Whoever leaves, by giving up or by a disconnection, ends a battle that the server finds, or nothing
happens to the battles.
-/

namespace TermCollection.Pokemon

variable {δ : Type} {s s' : ServerBackend δ} {out : List Sent} {client i fuel : Nat} {user : User}
variable {battle : BattleField} {dest : Option Nat}

namespace ServerBackend

/-- The other user of the battle is idle afterwards, if there is one, and the battle is over. -/
theorem winByLeave_cases (h : s.winByLeave battle dest = some (s', out)) :
    (dest = none ∧ s' = s.removeBattle battle.ptr) ∨
      ∃ p s₁, dest = some p ∧ s.setStatus p .idle = some s₁ ∧ s' = s₁.removeBattle battle.ptr := by
  unfold winByLeave at h
  cases dest with
  | none =>
      cases h
      exact .inl ⟨rfl, rfl⟩
  | some p =>
      simp only [Option.bind_eq_bind, Option.bind_eq_some_iff, Option.some.injEq, Prod.mk.injEq] at h
      obtain ⟨s₁, h₁, _, -, rfl, -⟩ := h
      exact .inr ⟨p, s₁, rfl, h₁, rfl⟩

theorem leaveBattle_cases (h : s.leaveBattle user = some (s', out)) :
    (s' = s ∧ out = [] ∧ (user.status = .battling → s.findBattleByIndex = some none)) ∨
      ∃ battle p dest, user.status = .battling ∧ s.findBattleByIndex = some (some (battle, p, dest)) ∧
        s.winByLeave battle dest = some (s', out) := by
  unfold leaveBattle at h
  split at h
  · rename_i hstatus
    rw [Option.bind_eq_bind, Option.bind_eq_some_iff] at h
    obtain ⟨found, hfound, h⟩ := h
    cases found with
    | none =>
        cases h
        exact .inl ⟨rfl, rfl, fun _ => hfound⟩
    | some found =>
        obtain ⟨battle, p, dest⟩ := found
        exact .inr ⟨battle, p, dest, hstatus, hfound, h⟩
  · rename_i hstatus
    cases h
    exact .inl ⟨rfl, rfl, fun hbattling => absurd hbattling hstatus⟩

theorem slotBattleGiveUp_cases {giveUpUser : QString} (h : s.slotBattleGiveUp giveUpUser = some (s', out)) :
    (s' = s ∧ out = []) ∨ ∃ battle p dest s₁,
      findBattle s (fun _ => some giveUpUser) 0 s.battleFieldList = some (some (battle, p, dest)) ∧
      s.setStatus p .idle = some s₁ ∧ s₁.winByLeave battle dest = some (s', out) := by
  simp only [slotBattleGiveUp, Option.bind_eq_bind, Option.bind_eq_some_iff] at h
  obtain ⟨found, hfound, h⟩ := h
  cases found with
  | none =>
      cases h
      exact .inl ⟨rfl, rfl⟩
  | some found =>
      obtain ⟨battle, p, dest⟩ := found
      simp only [Option.bind_eq_some_iff] at h
      obtain ⟨s₁, h₁, h⟩ := h
      exact .inr ⟨battle, p, dest, s₁, hfound, h₁, h⟩

/-- What every removal of a user keeps is kept by the loop. -/
theorem disconnectLoop_rule {P : ServerBackend δ → Prop}
    (hleave : ∀ {s s' : ServerBackend δ} {out : List Sent} {user : User} {i : Nat}, P s →
      s.userList[i]? = some user → s.leaveBattle user = some (s', out) →
      P { s' with userList := s'.userList.eraseIdx i })
    (hs : P s) (h : disconnectLoop client fuel i s = some (s', out)) : P s' := by
  induction fuel generalizing s i out with
  | zero =>
      cases h
      exact hs
  | succ fuel ih =>
      unfold disconnectLoop at h
      split at h
      · cases h
        exact hs
      · rename_i user hi
        split at h
        · simp only [Option.bind_eq_bind, Option.bind_eq_some_iff, Option.some.injEq, Prod.mk.injEq,
            Prod.exists] at h
          obtain ⟨s₁, out₁, h₁, s₂, out₂, h₂, rfl, -⟩ := h
          exact ih (hleave hs hi h₁) h₂
        · exact ih hs h

end ServerBackend

end TermCollection.Pokemon
