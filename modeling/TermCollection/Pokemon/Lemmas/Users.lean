import Mathlib.Data.List.Nodup
import TermCollection.Pokemon.ServerBackend

/-!
# Entries of the lists

While no two entries have one address, a pointer gives back the entry that it was taken from.
-/

namespace TermCollection.Pokemon

variable {δ : Type} {s s' : ServerBackend δ} {out : List Sent} {p i : Nat} {user : User}
variable {battle : BattleField} {status : UserStatus}

/-- An entry of a list without repeated keys is found by its key. -/
theorem find_of_mem {α κ : Type} [DecidableEq κ] {key : α → κ} {l : List α} {a : α}
    (h : (l.map key).Nodup) (ha : a ∈ l) : l.find? (key · = key a) = some a := by
  cases hfind : l.find? (key · = key a) with
  | none => exact absurd (List.find?_eq_none.mp hfind a ha) (by simp)
  | some b =>
      have hkey := List.find?_some hfind
      rw [decide_eq_true_eq] at hkey
      rw [List.inj_on_of_nodup_map h (List.mem_of_find?_eq_some hfind) ha hkey]

theorem filter_of_mem {α κ : Type} [DecidableEq κ] {key : α → κ} {l : List α} {a : α}
    (h : (l.map key).Nodup) (ha : a ∈ l) : l.filter (key · = key a) = [a] := by
  induction l with
  | nil => cases ha
  | cons b l ih =>
      rw [List.map_cons, List.nodup_cons] at h
      rcases List.mem_cons.mp ha with rfl | hmem
      · have hrest : l.filter (key · = key a) = [] := by
          rw [List.filter_eq_nil_iff]
          intro c hc
          rw [decide_eq_true_eq]
          intro heq
          exact h.1 (heq ▸ List.mem_map_of_mem hc)
        rw [List.filter_cons_of_pos (by simp), hrest]
      · have hne : key b ≠ key a := by
          intro heq
          exact h.1 (heq ▸ List.mem_map_of_mem hmem)
        rw [List.filter_cons_of_neg (by simpa using hne), ih h.2 hmem]

/-- To remove an entry is to filter its key out. -/
theorem eraseIdx_eq_filter {α κ : Type} [DecidableEq κ] {key : α → κ} {l : List α} {a : α}
    (h : (l.map key).Nodup) (hi : l[i]? = some a) : l.eraseIdx i = l.filter (key · ≠ key a) := by
  induction l generalizing i with
  | nil => cases hi
  | cons b l ih =>
      rw [List.map_cons, List.nodup_cons] at h
      cases i with
      | zero =>
          rw [List.getElem?_cons_zero, Option.some.injEq] at hi
          subst hi
          rw [List.eraseIdx_cons_zero, List.filter_cons_of_neg (by simp), List.filter_eq_self.mpr]
          intro c hc
          rw [decide_eq_true_eq]
          intro heq
          exact h.1 (heq ▸ List.mem_map_of_mem hc)
      | succ i =>
          rw [List.getElem?_cons_succ] at hi
          have hne : key b ≠ key a := by
            intro heq
            exact h.1 (heq ▸ List.mem_map_of_mem (List.mem_of_getElem? hi))
          rw [List.eraseIdx_cons_succ, ih h.2 hi, List.filter_cons_of_pos (by simpa using hne)]

/-- To replace the entries of a key is to set the only one. -/
theorem map_eq_set {α κ : Type} [DecidableEq κ] {key : α → κ} {l : List α} {a b : α}
    (h : (l.map key).Nodup) (hi : l[i]? = some a) :
    (l.map fun c => if key c = key a then b else c) = l.set i b := by
  induction l generalizing i with
  | nil => cases hi
  | cons c l ih =>
      rw [List.map_cons, List.nodup_cons] at h
      cases i with
      | zero =>
          rw [List.getElem?_cons_zero, Option.some.injEq] at hi
          subst hi
          rw [List.map_cons, if_pos rfl, List.set_cons_zero]
          congr 1
          conv_rhs => rw [← List.map_id l]
          apply List.map_congr_left
          intro d hd
          have hne : key d ≠ key c := by
            intro heq
            exact h.1 (heq ▸ List.mem_map_of_mem hd)
          rw [if_neg hne, id_eq]
      | succ i =>
          rw [List.getElem?_cons_succ] at hi
          have hne : key c ≠ key a := by
            intro heq
            exact h.1 (heq ▸ List.mem_map_of_mem (List.mem_of_getElem? hi))
          rw [List.map_cons, if_neg hne, ih h.2 hi, List.set_cons_succ]

/-- An entry that keeps its key keeps all keys. -/
theorem map_set_key {α κ : Type} {key : α → κ} {l : List α} {a b : α} (hi : l[i]? = some a)
    (hkey : key b = key a) : (l.set i b).map key = l.map key := by
  have hkeys : (l.map key)[i]? = some (key a) := by rw [List.getElem?_map, hi, Option.map_some]
  obtain ⟨hlt, hget⟩ := List.getElem?_eq_some_iff.mp hkeys
  rw [List.map_set, hkey, ← hget, List.set_getElem_self]

namespace ServerBackend

theorem userAt_of_mem (h : (s.userList.map User.ptr).Nodup) (hu : user ∈ s.userList) :
    s.userAt user.ptr = some user := find_of_mem h hu

theorem battleAt_of_mem (h : (s.battleFieldList.map BattleField.ptr).Nodup)
    (hb : battle ∈ s.battleFieldList) : s.battleAt battle.ptr = some battle := find_of_mem h hb

theorem userAt_spec (h : s.userAt p = some user) : user ∈ s.userList ∧ user.ptr = p := by
  have hptr := List.find?_some h
  rw [decide_eq_true_eq] at hptr
  exact ⟨List.mem_of_find?_eq_some h, hptr⟩

theorem battleAt_spec (h : s.battleAt p = some battle) :
    battle ∈ s.battleFieldList ∧ battle.ptr = p := by
  have hptr := List.find?_some h
  rw [decide_eq_true_eq] at hptr
  exact ⟨List.mem_of_find?_eq_some h, hptr⟩

theorem userAt_isSome (hu : user ∈ s.userList) (hp : user.ptr = p) : (s.userAt p).isSome = true := by
  rw [userAt, List.find?_isSome]
  exact ⟨user, hu, by simpa using hp⟩

/-- A pointer is valid as long as it was, when only the contents of entries change. -/
theorem userAt_map (f : User → User) (hptr : ∀ user, (f user).ptr = user.ptr) (p : Nat) :
    ({ s with userList := s.userList.map f } : ServerBackend δ).userAt p = (s.userAt p).map f := by
  have hkey : ((fun user : User => decide (user.ptr = p)) ∘ f) = fun user => decide (user.ptr = p) := by
    funext user
    rw [Function.comp_apply, hptr]
  rw [userAt, List.find?_map, hkey, userAt]

theorem setStatus_of_mem (hu : user ∈ s.userList) (status : UserStatus) :
    s.setStatus user.ptr status = some { s with userList := s.userList.map fun other =>
      if other.ptr = user.ptr then { other with status := status } else other } := by
  obtain ⟨found, hfound⟩ := Option.isSome_iff_exists.mp (userAt_isSome hu rfl)
  rw [setStatus, modifyUser, hfound]
  rfl

end ServerBackend

end TermCollection.Pokemon
