import Mathlib.Data.List.InsertIdx
import TermCollection.Pokemon.Faults
import TermCollection.Pokemon.Lemmas.Frames

/-!
# The battles that an operation examines

What the loop over the battles does with the battle of one index: nothing, an action, or its end. A
battle that ends is removed from the list, and the one that takes its place is passed over.
-/

namespace TermCollection.Pokemon

variable {δ : Type} {rt : Runtime δ} {s s' : ServerBackend δ} {out : List Sent} {i : Nat}
variable {battle : BattleField} {isUserA skillIndex : Int} {userName : QString} {chance : Chance}

namespace ServerBackend

def nameAt (s : ServerBackend δ) (user : Option Nat) : Option QString :=
  (user.bind s.userAt).map User.name

theorem nameAt_entries (h : s'.entries = s.entries) (user : Option Nat) :
    s'.nameAt user = s.nameAt user := by
  cases user with
  | none => rfl
  | some p => exact userAt_name h p

/-- The action of user A ends the battle. -/
def endsByA (rt : Runtime δ) (s : ServerBackend δ) (skillIndex : Int) (userName : QString)
    (chance : Chance) (i : Nat) (battle : BattleField) : Bool :=
  s.nameAt (some battle.userA) = some userName &&
    (battle.setAction rt.attack skillIndex 0 (chance.userTurn i).attack).winner.isSome

/-- The action of the server, behind that of user A, ends the battle. -/
def endsByServer (rt : Runtime δ) (s : ServerBackend δ) (skillIndex : Int) (userName : QString)
    (chance : Chance) (i : Nat) (battle : BattleField) : Bool :=
  s.nameAt (some battle.userA) = some userName && battle.userB = none &&
    ((battle.setAction rt.attack skillIndex 0 (chance.userTurn i).attack).battle.setAction rt.attack
      (bounded (chance.serverAction i) 4) 1 (chance.serverTurn i).attack).winner.isSome

/-- The action of user B ends the battle. -/
def endsByB (rt : Runtime δ) (s : ServerBackend δ) (skillIndex : Int) (userName : QString)
    (chance : Chance) (i : Nat) (battle : BattleField) : Bool :=
  s.nameAt battle.userB = some userName &&
    (battle.setAction rt.attack skillIndex 1 (chance.userTurn i).attack).winner.isSome

/-- The operation ends the battle, by its last action. -/
def operationEnds (rt : Runtime δ) (s : ServerBackend δ) (isUserA skillIndex : Int)
    (userName : QString) (chance : Chance) (i : Nat) (battle : BattleField) : Bool :=
  if isUserA ≠ 0 then endsByServer rt s skillIndex userName chance i battle
  else endsByB rt s skillIndex userName chance i battle

/-- The battles that the loop examines from an index on, each with the index of its time. The flag says
that the first battle of the list has taken the place of one that ended. -/
def examined (rt : Runtime δ) (s : ServerBackend δ) (isUserA skillIndex : Int) (userName : QString)
    (chance : Chance) : Nat → Bool → List BattleField → List (Nat × BattleField)
  | _, _, [] => []
  | i, true, _ :: battles => examined rt s isUserA skillIndex userName chance i false battles
  | i, false, battle :: battles =>
      (i, battle) :: examined rt s isUserA skillIndex userName chance (i + 1)
        (operationEnds rt s isUserA skillIndex userName chance i battle) battles

theorem operationEnds_entries (h : s'.entries = s.entries) :
    operationEnds rt s' isUserA skillIndex userName chance i battle =
      operationEnds rt s isUserA skillIndex userName chance i battle := by
  simp only [operationEnds, endsByServer, endsByB, nameAt_entries h]

theorem checkedSetAction_ok {userIndex : Nat} {turnChance : TurnChance}
    (hptrs : (s.battleFieldList.map BattleField.ptr).Nodup) (hi : s.battleFieldList[i]? = some battle)
    (h : s.checkedSetAction rt battle.ptr skillIndex userIndex turnChance = .ok (s', out)) :
    s'.entries = s.entries ∧ s'.battleFieldList =
      if (battle.setAction rt.attack skillIndex userIndex turnChance.attack).winner.isSome then
        s.battleFieldList.eraseIdx i
      else s.battleFieldList.set i
        (battle.setAction rt.attack skillIndex userIndex turnChance.attack).battle := by
  have hset := checkedSetAction_toOption rt s battle.ptr skillIndex userIndex turnChance
  rw [h] at hset
  exact entries_setAction hptrs hi hset.symm

/-- A state whose list of battles differs at one index at most. -/
theorem set_self (hi : s.battleFieldList[i]? = some battle) :
    s.battleFieldList = s.battleFieldList.set i battle := by
  obtain ⟨hlt, hget⟩ := List.getElem?_eq_some_iff.mp hi
  rw [← hget, List.set_getElem_self]

/-- Behind an action the battle is there exactly when it has not ended. -/
theorem battleAt_checkedSetAction {userIndex : Nat} {turnChance : TurnChance}
    (hptrs : (s.battleFieldList.map BattleField.ptr).Nodup) (hi : s.battleFieldList[i]? = some battle)
    (h : s.checkedSetAction rt battle.ptr skillIndex userIndex turnChance = .ok (s', out)) :
    s'.battleAt battle.ptr =
      if (battle.setAction rt.attack skillIndex userIndex turnChance.attack).winner.isSome then none
      else some (battle.setAction rt.attack skillIndex userIndex turnChance.attack).battle := by
  obtain ⟨-, hbattles⟩ := checkedSetAction_ok hptrs hi h
  have hptr := (BattleField.turnOf_setAction rt.attack battle skillIndex userIndex
    turnChance.attack).same.ptr
  split at hbattles
  · rename_i hended
    rw [if_pos hended, battleAt, hbattles, List.find?_eq_none, eraseIdx_eq_filter hptrs hi]
    intro other hother
    simpa using (List.mem_filter.mp hother).2
  · rename_i hended
    obtain ⟨hlt, -⟩ := List.getElem?_eq_some_iff.mp hi
    rw [if_neg hended, ← hptr]
    apply battleAt_of_mem
    · rw [hbattles, map_set_key hi hptr]
      exact hptrs
    · rw [hbattles]
      exact List.mem_of_getElem? (List.getElem?_set_self hlt)

theorem nameAt_some {p : Nat} {user : User} (h : s.userAt p = some user) :
    s.nameAt (some p) = some user.name := by rw [nameAt, Option.bind_some, h, Option.map_some]

theorem checkedUser_name {user : Option Nat} {found : User} (h : s.checkedUser user = .ok found) :
    s.nameAt user = some found.name := by
  have hopt := s.checkedUser_toOption user
  rw [h] at hopt
  rw [nameAt, ← hopt]
  rfl

theorem checkedOperateA_ok (hptrs : (s.battleFieldList.map BattleField.ptr).Nodup)
    (hi : s.battleFieldList[i]? = some battle)
    (h : s.checkedOperateA rt battle skillIndex userName chance i = .ok (s', out)) :
    s'.entries = s.entries ∧ ∃ battle', battle.Same battle' ∧ s'.battleFieldList =
      if endsByServer rt s skillIndex userName chance i battle then s.battleFieldList.eraseIdx i
      else s.battleFieldList.set i battle' := by
  simp only [checkedOperateA, bind_ok, liveBattle, checkedUser, orFault_ok] at h
  obtain ⟨_, -, userA, hA, h⟩ := h
  rw [endsByServer, nameAt_some hA]
  split at h
  · rename_i heq
    simp only [bind_ok, orFault_ok, Prod.exists] at h
    obtain ⟨s₁, out₁, h₁, live, hlive, h⟩ := h
    obtain ⟨hentries, hbattles⟩ := checkedSetAction_ok hptrs hi h₁
    rw [battleAt_checkedSetAction hptrs hi h₁] at hlive
    have hsame := (BattleField.turnOf_setAction rt.attack battle skillIndex 0
      (chance.userTurn i).attack).same
    generalize battle.setAction rt.attack skillIndex 0 (chance.userTurn i).attack = first at *
    -- behind the end of the battle there is no opponent to ask for
    split at hlive
    · cases hlive
    · rename_i hended
      rw [if_neg hended] at hbattles
      rw [← Option.some.inj hlive, hsame.userB] at h
      obtain ⟨hlt, -⟩ := List.getElem?_eq_some_iff.mp hi
      split at h
      · rename_i hserver
        simp only [bind_ok, Prod.exists] at h
        obtain ⟨s₂, out₂, h₂, h⟩ := h
        cases h
        have hi₁ : s₁.battleFieldList[i]? = some first.battle := by
          rw [hbattles]
          exact List.getElem?_set_self hlt
        have hptrs₁ : (s₁.battleFieldList.map BattleField.ptr).Nodup := by
          rw [hbattles, map_set_key hi hsame.ptr]
          exact hptrs
        obtain ⟨hentries₂, hbattles₂⟩ := checkedSetAction_ok hptrs₁ hi₁ h₂
        refine ⟨hentries₂.trans hentries, _, hsame.trans (BattleField.turnOf_setAction rt.attack
          first.battle (bounded (chance.serverAction i) 4) 1 (chance.serverTurn i).attack).same, ?_⟩
        rw [hbattles₂, hbattles, List.eraseIdx_set_eq, List.set_set]
        simp only [heq, hserver, decide_true, Bool.true_and]
      · rename_i hserver
        cases h
        refine ⟨hentries, first.battle, hsame, ?_⟩
        simp [hbattles, hserver]
  · rename_i hne
    cases h
    refine ⟨rfl, battle, ⟨rfl, rfl, rfl⟩, ?_⟩
    simp only [Option.some.injEq, hne, decide_false, Bool.false_and, Bool.false_eq_true, ↓reduceIte]
    exact set_self hi

theorem checkedOperateB_ok (hptrs : (s.battleFieldList.map BattleField.ptr).Nodup)
    (hi : s.battleFieldList[i]? = some battle)
    (h : s.checkedOperateB rt battle skillIndex userName chance i = .ok (s', out)) :
    s'.entries = s.entries ∧ ∃ battle', battle.Same battle' ∧ s'.battleFieldList =
      if endsByB rt s skillIndex userName chance i battle then s.battleFieldList.eraseIdx i
      else s.battleFieldList.set i battle' := by
  simp only [checkedOperateB, bind_ok, liveBattle, orFault_ok] at h
  obtain ⟨_, -, userB, hB, h⟩ := h
  rw [endsByB, checkedUser_name hB]
  split at h
  · rename_i heq
    obtain ⟨hentries, hbattles⟩ := checkedSetAction_ok hptrs hi h
    refine ⟨hentries, _, (BattleField.turnOf_setAction rt.attack battle skillIndex 1
      (chance.userTurn i).attack).same, ?_⟩
    simp only [hbattles, heq, decide_true, Bool.true_and]
  · rename_i hne
    cases h
    refine ⟨rfl, battle, ⟨rfl, rfl, rfl⟩, ?_⟩
    simp only [Option.some.injEq, hne, decide_false, Bool.false_and, Bool.false_eq_true, ↓reduceIte]
    exact set_self hi

/-- An operation that goes well leaves the other battles alone, and ends the battle of the index or
brings it to a later state. -/
theorem checkedOperate_ok (hptrs : (s.battleFieldList.map BattleField.ptr).Nodup)
    (hi : s.battleFieldList[i]? = some battle)
    (h : s.checkedOperate rt isUserA battle skillIndex userName chance i = .ok (s', out)) :
    s'.entries = s.entries ∧ ∃ battle', battle.Same battle' ∧ s'.battleFieldList =
      if operationEnds rt s isUserA skillIndex userName chance i battle then
        s.battleFieldList.eraseIdx i
      else s.battleFieldList.set i battle' := by
  unfold checkedOperate at h
  unfold operationEnds
  split at h
  · rename_i hside
    rw [if_pos hside]
    exact checkedOperateA_ok hptrs hi h
  · rename_i hside
    rw [if_neg hside]
    exact checkedOperateB_ok hptrs hi h

/-- The pointers stay different from each other, and of the battles behind the index one is gone when
that of the index has ended. -/
theorem checkedOperate_behind (hptrs : (s.battleFieldList.map BattleField.ptr).Nodup)
    (hi : s.battleFieldList[i]? = some battle)
    (h : s.checkedOperate rt isUserA battle skillIndex userName chance i = .ok (s', out)) :
    (s'.battleFieldList.map BattleField.ptr).Nodup ∧ s'.battleFieldList.drop (i + 1) =
      if operationEnds rt s isUserA skillIndex userName chance i battle then
        s.battleFieldList.drop (i + 2)
      else s.battleFieldList.drop (i + 1) := by
  obtain ⟨-, battle', hsame, hbattles⟩ := checkedOperate_ok hptrs hi h
  obtain ⟨hlt, -⟩ := List.getElem?_eq_some_iff.mp hi
  split at hbattles
  · rename_i hended
    rw [hbattles, if_pos hended]
    refine ⟨hptrs.sublist ((List.eraseIdx_sublist ..).map _), ?_⟩
    apply List.ext_getElem?
    intro j
    rw [List.getElem?_drop, List.getElem?_drop, List.getElem?_eraseIdx_of_ge (by omega)]
    congr 1
    omega
  · rename_i hended
    rw [hbattles, if_neg hended, map_set_key hi hsame.ptr]
    exact ⟨hptrs, List.drop_set_of_lt (Nat.lt_succ_self i)⟩

/-! ## The loop -/

theorem examined_entries (h : s'.entries = s.entries) (ended : Bool) (battles : List BattleField) :
    examined rt s' isUserA skillIndex userName chance i ended battles =
      examined rt s isUserA skillIndex userName chance i ended battles := by
  induction battles generalizing i ended with
  | nil => cases ended <;> rfl
  | cons battle battles ih =>
      cases ended with
      | true => exact ih false
      | false => rw [examined, examined, operationEnds_entries h, ih]

theorem examined_behind (ended : Bool) (battles : List BattleField) :
    examined rt s isUserA skillIndex userName chance i ended battles =
      examined rt s isUserA skillIndex userName chance i false
        (if ended then battles.drop 1 else battles) := by
  cases ended with
  | false => rfl
  | true => cases battles <;> rfl

/-- The state in which the loop comes to a battle. -/
structure Reaches (s s₁ : ServerBackend δ) (e : Nat × BattleField) : Prop where
  entries : s₁.entries = s.entries
  ptrs : (s₁.battleFieldList.map BattleField.ptr).Nodup
  battle : s₁.battleFieldList[e.1]? = some e.2

theorem drop_of_getElem (hi : s.battleFieldList[i]? = some battle) :
    s.battleFieldList.drop i = battle :: s.battleFieldList.drop (i + 1) := by
  obtain ⟨hlt, hget⟩ := List.getElem?_eq_some_iff.mp hi
  rw [List.drop_eq_getElem_cons hlt, hget]

theorem examined_step (hptrs : (s.battleFieldList.map BattleField.ptr).Nodup)
    (hi : s.battleFieldList[i]? = some battle)
    (h : s.checkedOperate rt isUserA battle skillIndex userName chance i = .ok (s', out)) :
    examined rt s isUserA skillIndex userName chance i false (s.battleFieldList.drop i) =
      (i, battle) :: examined rt s' isUserA skillIndex userName chance (i + 1) false
        (s'.battleFieldList.drop (i + 1)) := by
  obtain ⟨hentries, -⟩ := checkedOperate_ok hptrs hi h
  obtain ⟨-, hdrop⟩ := checkedOperate_behind hptrs hi h
  rw [drop_of_getElem hi, examined, examined_behind, hdrop, examined_entries hentries, List.drop_drop]

/-- Every battle examined goes well, and the loop says which these were. -/
theorem checkedOperationLoop_ok {fuel : Nat} {ptrs : List Nat}
    (hptrs : (s.battleFieldList.map BattleField.ptr).Nodup)
    (hfuel : s.battleFieldList.length ≤ i + fuel)
    (h : checkedOperationLoop rt isUserA skillIndex userName chance fuel i s = .ok (s', out, ptrs)) :
    ptrs = (examined rt s isUserA skillIndex userName chance i false
        (s.battleFieldList.drop i)).map (·.2.ptr) ∧
      ∀ e ∈ examined rt s isUserA skillIndex userName chance i false (s.battleFieldList.drop i),
        ∃ s₁ r, Reaches s s₁ e ∧
          s₁.checkedOperate rt isUserA e.2 skillIndex userName chance e.1 = .ok r := by
  induction fuel generalizing s i out ptrs with
  | zero =>
      rw [Nat.add_zero] at hfuel
      rw [List.drop_eq_nil_of_le hfuel]
      cases h
      exact ⟨rfl, fun e he => by cases he⟩
  | succ fuel ih =>
      unfold checkedOperationLoop at h
      cases hi : s.battleFieldList[i]? with
      | none =>
          rw [hi] at h
          cases h
          rw [List.drop_eq_nil_of_le (List.getElem?_eq_none_iff.mp hi)]
          exact ⟨rfl, fun e he => by cases he⟩
      | some battle =>
          simp only [hi, bind_ok, Prod.exists] at h
          obtain ⟨s₁, out₁, h₁, s₂, out₂, ptrs₂, h₂, h⟩ := h
          cases h
          obtain ⟨hentries, battle', -, hbattles⟩ := checkedOperate_ok hptrs hi h₁
          obtain ⟨hptrs₁, -⟩ := checkedOperate_behind hptrs hi h₁
          have hlength : s₁.battleFieldList.length ≤ i + 1 + fuel := by
            have hle : s₁.battleFieldList.length ≤ s.battleFieldList.length := by
              rw [hbattles]
              split
              · exact (List.eraseIdx_sublist ..).length_le
              · rw [List.length_set]
            omega
          obtain ⟨hexamined, hgood⟩ := ih hptrs₁ hlength h₂
          rw [examined_step hptrs hi h₁]
          refine ⟨by rw [hexamined]; rfl, ?_⟩
          intro e he
          rcases List.mem_cons.mp he with rfl | he
          · exact ⟨s, _, ⟨rfl, hptrs, hi⟩, h₁⟩
          · obtain ⟨s₃, r, hreach, hr⟩ := hgood e he
            exact ⟨s₃, r, ⟨hreach.entries.trans hentries, hreach.ptrs, hreach.battle⟩, hr⟩

/-- A fault of the loop is one of a battle that it examines. -/
theorem checkedOperationLoop_error {fuel : Nat} {fault : Fault}
    (hptrs : (s.battleFieldList.map BattleField.ptr).Nodup)
    (h : checkedOperationLoop rt isUserA skillIndex userName chance fuel i s = .error fault) :
    ∃ e ∈ examined rt s isUserA skillIndex userName chance i false (s.battleFieldList.drop i),
      ∃ s₁, Reaches s s₁ e ∧
        s₁.checkedOperate rt isUserA e.2 skillIndex userName chance e.1 = .error fault := by
  induction fuel generalizing s i with
  | zero => cases h
  | succ fuel ih =>
      unfold checkedOperationLoop at h
      cases hi : s.battleFieldList[i]? with
      | none =>
          rw [hi] at h
          cases h
      | some battle =>
          simp only [hi, bind_error] at h
          rcases h with h | ⟨⟨s₁, out₁⟩, h₁, h | ⟨⟨s₂, out₂, ptrs₂⟩, -, h⟩⟩
          · refine ⟨(i, battle), ?_, s, ⟨rfl, hptrs, hi⟩, h⟩
            rw [drop_of_getElem hi, examined]
            exact List.mem_cons_self
          · obtain ⟨hentries, -⟩ := checkedOperate_ok hptrs hi h₁
            obtain ⟨hptrs₁, -⟩ := checkedOperate_behind hptrs hi h₁
            obtain ⟨e, he, s₃, hreach, hfault⟩ := ih hptrs₁ h
            refine ⟨e, ?_, s₃, ⟨hreach.entries.trans hentries, hreach.ptrs, hreach.battle⟩, hfault⟩
            rw [examined_step hptrs hi h₁]
            exact List.mem_cons_of_mem _ he
          · cases h

theorem checkedOperate_sublist (hptrs : (s.battleFieldList.map BattleField.ptr).Nodup)
    (hi : s.battleFieldList[i]? = some battle)
    (h : s.checkedOperate rt isUserA battle skillIndex userName chance i = .ok (s', out)) :
    List.Sublist (s'.battleFieldList.map BattleField.ptr) (s.battleFieldList.map BattleField.ptr) := by
  obtain ⟨-, battle', hsame, hbattles⟩ := checkedOperate_ok hptrs hi h
  rw [hbattles]
  split
  · exact (List.eraseIdx_sublist ..).map _
  · rw [map_set_key hi hsame.ptr]

theorem checkedOperate_take (hptrs : (s.battleFieldList.map BattleField.ptr).Nodup)
    (hi : s.battleFieldList[i]? = some battle)
    (h : s.checkedOperate rt isUserA battle skillIndex userName chance i = .ok (s', out)) :
    s'.battleFieldList.take i = s.battleFieldList.take i := by
  obtain ⟨-, battle', -, hbattles⟩ := checkedOperate_ok hptrs hi h
  rw [hbattles]
  split
  · exact List.take_eraseIdx_eq_take_of_le _ _ _ (Nat.le_refl i)
  · exact List.take_set_of_le (Nat.le_refl i)

/-- The loop leaves the entries alone, adds no battle, and is done with those before its index. -/
theorem checkedOperationLoop_keeps {fuel : Nat} {ptrs : List Nat}
    (hptrs : (s.battleFieldList.map BattleField.ptr).Nodup)
    (h : checkedOperationLoop rt isUserA skillIndex userName chance fuel i s = .ok (s', out, ptrs)) :
    s'.entries = s.entries ∧
      List.Sublist (s'.battleFieldList.map BattleField.ptr) (s.battleFieldList.map BattleField.ptr) ∧
      s'.battleFieldList.take i = s.battleFieldList.take i := by
  induction fuel generalizing s i out ptrs with
  | zero =>
      cases h
      exact ⟨rfl, List.Sublist.refl _, rfl⟩
  | succ fuel ih =>
      unfold checkedOperationLoop at h
      cases hi : s.battleFieldList[i]? with
      | none =>
          rw [hi] at h
          cases h
          exact ⟨rfl, List.Sublist.refl _, rfl⟩
      | some battle =>
          simp only [hi, bind_ok, Prod.exists] at h
          obtain ⟨s₁, out₁, h₁, s₂, out₂, ptrs₂, h₂, h⟩ := h
          cases h
          obtain ⟨hentries, hsublist, htake⟩ := ih (checkedOperate_behind hptrs hi h₁).1 h₂
          refine ⟨hentries.trans (checkedOperate_ok hptrs hi h₁).1, hsublist.trans (checkedOperate_sublist hptrs hi h₁), ?_⟩
          have hshort := congrArg (List.take i) htake
          rw [List.take_take, List.take_take, Nat.min_eq_left (Nat.le_succ i)] at hshort
          rw [hshort, checkedOperate_take hptrs hi h₁]

end ServerBackend

end TermCollection.Pokemon
