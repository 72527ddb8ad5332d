import TermCollection.Pokemon.Lemmas.Operations
import TermCollection.Pokemon.Lemmas.Pointers

/-!
# Battles that end during an operation

The end of a battle deletes it and takes it out of the list that the loop goes through.
-/

namespace TermCollection.Pokemon

variable {δ : Type} {rt : Runtime δ} {s s' : ServerBackend δ} {out : List Sent} {i : Nat}
variable {battle : BattleField} {isUserA skillIndex : Int} {userName : QString} {chance : Chance}

namespace ServerBackend

/-! ## The condition -/

/-- No battle ends by the action of its user A, and none but the last one ends by another action. -/
def finishesLast (rt : Runtime δ) (s : ServerBackend δ) (isUserA skillIndex : Int) (userName : QString)
    (chance : Chance) : Nat → List BattleField → Bool
  | _, [] => true
  | i, battle :: battles =>
      !(isUserA ≠ 0 && endsByA rt s skillIndex userName chance i battle) &&
        (!operationEnds rt s isUserA skillIndex userName chance i battle || battles.isEmpty) &&
        finishesLast rt s isUserA skillIndex userName chance (i + 1) battles

theorem finishesLast_entries (h : s'.entries = s.entries) (battles : List BattleField) :
    finishesLast rt s' isUserA skillIndex userName chance i battles =
      finishesLast rt s isUserA skillIndex userName chance i battles := by
  induction battles generalizing i with
  | nil => rfl
  | cons battle battles ih =>
      simp only [finishesLast, endsByA, nameAt_entries h, operationEnds_entries h, ih]

/-- When the condition holds, all battles are examined. -/
theorem examined_all {battles : List BattleField}
    (h : finishesLast rt s isUserA skillIndex userName chance i battles = true) :
    (examined rt s isUserA skillIndex userName chance i false battles).map Prod.snd = battles ∧
      ∀ e ∈ examined rt s isUserA skillIndex userName chance i false battles, isUserA ≠ 0 →
        endsByA rt s skillIndex userName chance e.1 e.2 = false := by
  induction battles generalizing i with
  | nil => exact ⟨rfl, fun e he => by cases he⟩
  | cons battle battles ih =>
      simp only [finishesLast, Bool.and_eq_true, Bool.not_eq_true', Bool.and_eq_false_iff,
        decide_eq_false_iff_not, Bool.or_eq_true, List.isEmpty_iff] at h
      obtain ⟨⟨hA, hends⟩, hrest⟩ := h
      obtain ⟨hall, hnone⟩ := ih hrest
      have hbehind : examined rt s isUserA skillIndex userName chance (i + 1)
          (operationEnds rt s isUserA skillIndex userName chance i battle) battles =
            examined rt s isUserA skillIndex userName chance (i + 1) false battles := by
        rcases hends with hends | rfl
        · rw [hends]
        · rw [examined_behind, List.drop_nil, ite_self]
      rw [examined, hbehind]
      refine ⟨by rw [List.map_cons, hall], ?_⟩
      intro e he hside
      rcases List.mem_cons.mp he with rfl | he
      · exact hA.resolve_left fun hnot => hnot hside
      · exact hnone e he hside

/-! ## Uses of a deleted battle -/

theorem endsByA_entries (h : s'.entries = s.entries) :
    endsByA rt s' skillIndex userName chance i battle =
      endsByA rt s skillIndex userName chance i battle := by
  simp only [endsByA, nameAt_entries h]

theorem checkedSetAction_live {p userIndex : Nat} {turnChance : TurnChance}
    (hlive : (s.battleAt p).isSome = true) :
    s.checkedSetAction rt p skillIndex userIndex turnChance ≠ .error .deletedBattle := by
  rw [checkedSetAction_eq hlive, ne_eq, orFault_error]
  exact fun heq => by cases heq.1

theorem checkedUser_not_deleted {user : Option Nat} : s.checkedUser user ≠ .error .deletedBattle := by
  cases user with
  | none => exact fun heq => by cases heq
  | some p =>
      rw [checkedUser, ne_eq, orFault_error]
      exact fun heq => by cases heq.1

/-- A deleted battle is used exactly behind an action of user A that ended it. -/
theorem checkedOperateA_deleted (hptrs : (s.battleFieldList.map BattleField.ptr).Nodup)
    (hi : s.battleFieldList[i]? = some battle)
    (h : s.checkedOperateA rt battle skillIndex userName chance i = .error .deletedBattle) :
    endsByA rt s skillIndex userName chance i battle = true := by
  have hat := battleAt_of_mem hptrs (List.mem_of_getElem? hi)
  simp only [checkedOperateA, bind_error, liveBattle, orFault_error, hat, reduceCtorEq, and_false,
    false_or] at h
  obtain ⟨_, -, h | ⟨userA, hA, h⟩⟩ := h
  · exact absurd h checkedUser_not_deleted
  · rw [checkedUser, orFault_ok] at hA
    split at h
    · rename_i heq
      simp only [bind_error, orFault_error, orFault_ok] at h
      rcases h with h | ⟨⟨s₁, out₁⟩, h₁, ⟨-, hgone⟩ | ⟨live, hlive, h⟩⟩
      · exact absurd h (checkedSetAction_live (by rw [hat]; rfl))
      · rw [battleAt_checkedSetAction hptrs hi h₁] at hgone
        rw [endsByA, nameAt_some hA, heq]
        split at hgone
        · simpa using ‹_›
        · cases hgone
      · split at h
        · rw [bind_error] at h
          rcases h with h | ⟨r, -, h⟩
          · exact absurd h (checkedSetAction_live (by rw [(battleAt_spec hlive).2, hlive]; rfl))
          · cases h
        · cases h
    · cases h

theorem checkedOperateA_used (hptrs : (s.battleFieldList.map BattleField.ptr).Nodup)
    (hi : s.battleFieldList[i]? = some battle)
    (h : s.checkedOperateA rt battle skillIndex userName chance i = .ok (s', out)) :
    endsByA rt s skillIndex userName chance i battle = false := by
  simp only [checkedOperateA, bind_ok, liveBattle, checkedUser, orFault_ok] at h
  obtain ⟨_, -, userA, hA, h⟩ := h
  rw [endsByA, nameAt_some hA]
  split at h
  · simp only [bind_ok, orFault_ok, Prod.exists] at h
    obtain ⟨s₁, out₁, h₁, live, hlive, -⟩ := h
    rw [battleAt_checkedSetAction hptrs hi h₁] at hlive
    split at hlive
    · cases hlive
    · rename_i hended
      simp [hended]
  · rename_i hne
    simp [hne]

theorem checkedOperateB_not_deleted (hi : s.battleFieldList[i]? = some battle) :
    s.checkedOperateB rt battle skillIndex userName chance i ≠ .error .deletedBattle := by
  intro h
  obtain ⟨live, hlive⟩ := liveBattle_of_mem (List.mem_of_getElem? hi)
  simp only [checkedOperateB, hlive, bind_error, reduceCtorEq, false_or] at h
  obtain ⟨_, -, h | ⟨userB, -, h⟩⟩ := h
  · exact checkedUser_not_deleted h
  · split at h
    · rw [liveBattle, orFault_ok] at hlive
      exact checkedSetAction_live (by rw [hlive]; rfl) h
    · cases h

theorem checkedBattleOperation_live (hptrs : (s.battleFieldList.map BattleField.ptr).Nodup)
    (h : finishesLast rt s isUserA skillIndex userName chance 0 s.battleFieldList = true) :
    s.checkedBattleOperation rt isUserA skillIndex userName chance ≠ .error .deletedBattle := by
  intro heq
  obtain ⟨e, he, s₁, hreach, hfault⟩ := checkedOperationLoop_error hptrs heq
  rw [List.drop_zero] at he
  unfold checkedOperate at hfault
  split at hfault
  · rename_i hside
    have hended := checkedOperateA_deleted hreach.ptrs hreach.battle hfault
    rw [endsByA_entries hreach.entries, (examined_all h).2 e he hside] at hended
    cases hended
  · exact checkedOperateB_not_deleted hreach.battle hfault

theorem checkedBattleOperation_all {ptrs : List Nat}
    (hptrs : (s.battleFieldList.map BattleField.ptr).Nodup)
    (h : finishesLast rt s isUserA skillIndex userName chance 0 s.battleFieldList = true)
    (hloop : s.checkedBattleOperation rt isUserA skillIndex userName chance = .ok (s', out, ptrs)) :
    ptrs = s.battleFieldList.map BattleField.ptr := by
  obtain ⟨hexamined, -⟩ := checkedOperationLoop_ok hptrs (Nat.le_add_left _ 0) hloop
  rw [hexamined, List.drop_zero]
  conv_rhs => rw [← (examined_all h).1, List.map_map]
  rfl

/-! ## Battles that are passed over -/

/-- The pointers that the loop examines from an index on belong to battles from this index on. -/
theorem examined_ptrs (ended : Bool) (battles : List BattleField) :
    ∀ e ∈ examined rt s isUserA skillIndex userName chance i ended battles, e.2 ∈ battles := by
  induction battles generalizing i ended with
  | nil =>
      intro e he
      cases ended <;> cases he
  | cons battle battles ih =>
      intro e he
      cases ended with
      | true => exact List.mem_cons_of_mem _ (ih false e he)
      | false =>
          rcases List.mem_cons.mp he with rfl | he
          · exact List.mem_cons_self
          · exact List.mem_cons_of_mem _ (ih _ e he)

theorem getElem?_of_take {l l' : List BattleField} (h : l'.take (i + 1) = l.take (i + 1)) :
    l'[i]? = l[i]? := by
  have hi := congrArg (·[i]?) h
  simpa only [List.getElem?_take_of_lt (Nat.lt_succ_self i)] using hi

theorem ptr_ne_of_drop (hptrs : (s.battleFieldList.map BattleField.ptr).Nodup)
    (hi : s.battleFieldList[i]? = some battle) {other : BattleField}
    (ho : other ∈ s.battleFieldList.drop (i + 1)) : other.ptr ≠ battle.ptr := by
  have hnodup := hptrs.sublist ((List.drop_sublist i s.battleFieldList).map BattleField.ptr)
  rw [drop_of_getElem hi, List.map_cons, List.nodup_cons] at hnodup
  intro heq
  exact hnodup.1 (heq ▸ List.mem_map_of_mem ho)

/-- The action of user A has not ended the battle when the operation goes well. -/
theorem checkedOperate_used (hptrs : (s.battleFieldList.map BattleField.ptr).Nodup)
    (hi : s.battleFieldList[i]? = some battle)
    (h : s.checkedOperate rt isUserA battle skillIndex userName chance i = .ok (s', out)) :
    (isUserA ≠ 0 && endsByA rt s skillIndex userName chance i battle) = false := by
  by_cases hside : isUserA ≠ 0
  · rw [checkedOperate, if_pos hside] at h
    rw [checkedOperateA_used hptrs hi h, Bool.and_false]
  · simp [hside]

/-- The battle that takes the place of one that ended is passed over. -/
theorem checkedOperationLoop_skips {fuel : Nat} {ptrs : List Nat} {s₁ : ServerBackend δ}
    {next : BattleField} (hptrs : (s.battleFieldList.map BattleField.ptr).Nodup)
    (hi : s.battleFieldList[i]? = some battle) (hnext : s.battleFieldList[i + 1]? = some next)
    (hends : s₁.battleFieldList = s.battleFieldList.eraseIdx i)
    (hfuel : s₁.battleFieldList.length ≤ i + 1 + fuel)
    (h : checkedOperationLoop rt isUserA skillIndex userName chance fuel (i + 1) s₁ =
      .ok (s', out, ptrs)) :
    next ∈ s'.battleFieldList.drop i ∧ next.ptr ∉ battle.ptr :: ptrs := by
  have hptrs₁ : (s₁.battleFieldList.map BattleField.ptr).Nodup := by
    rw [hends]
    exact hptrs.sublist ((List.eraseIdx_sublist ..).map _)
  have hi₁ : s₁.battleFieldList[i]? = some next := by
    rw [hends, List.getElem?_eraseIdx_of_ge (Nat.le_refl i), hnext]
  have hkept : s'.battleFieldList[i]? = some next := by
    rw [getElem?_of_take (checkedOperationLoop_keeps hptrs₁ h).2.2, hi₁]
  constructor
  · rw [drop_of_getElem hkept]
    exact List.mem_cons_self
  · intro hmem
    rcases List.mem_cons.mp hmem with heq | hmem
    · exact ptr_ne_of_drop hptrs hi (drop_of_getElem hnext ▸ List.mem_cons_self) heq
    · rw [(checkedOperationLoop_ok hptrs₁ hfuel h).1] at hmem
      obtain ⟨e, he, hptr⟩ := List.mem_map.mp hmem
      exact ptr_ne_of_drop hptrs₁ hi₁ (examined_ptrs false _ e he) hptr

/-- When the condition fails, a loop that comes to its end has passed a battle over. -/
theorem checkedOperationLoop_passes {fuel : Nat} {ptrs : List Nat}
    (hptrs : (s.battleFieldList.map BattleField.ptr).Nodup)
    (hfuel : s.battleFieldList.length ≤ i + fuel)
    (hc : finishesLast rt s isUserA skillIndex userName chance i (s.battleFieldList.drop i) = false)
    (h : checkedOperationLoop rt isUserA skillIndex userName chance fuel i s = .ok (s', out, ptrs)) :
    ∃ battle ∈ s'.battleFieldList.drop i, battle.ptr ∉ ptrs := by
  induction fuel generalizing s i out ptrs with
  | zero =>
      rw [Nat.add_zero] at hfuel
      rw [List.drop_eq_nil_of_le hfuel] at hc
      cases hc
  | succ fuel ih =>
      unfold checkedOperationLoop at h
      cases hi : s.battleFieldList[i]? with
      | none =>
          rw [List.drop_eq_nil_of_le (List.getElem?_eq_none_iff.mp hi)] at hc
          cases hc
      | some battle =>
          simp only [hi, bind_ok, Prod.exists] at h
          obtain ⟨s₁, out₁, h₁, s₂, out₂, ptrs₂, h₂, h⟩ := h
          cases h
          obtain ⟨hptrs₁, hdrop⟩ := checkedOperate_behind hptrs hi h₁
          obtain ⟨hentries, battle', hsame, hbattles⟩ := checkedOperate_ok hptrs hi h₁
          have hlength : s₁.battleFieldList.length ≤ i + 1 + fuel := by
            have hle := (checkedOperate_sublist hptrs hi h₁).length_le
            rw [List.length_map, List.length_map] at hle
            omega
          rw [drop_of_getElem hi, finishesLast, checkedOperate_used hptrs hi h₁, Bool.not_false,
            Bool.true_and] at hc
          cases hends : operationEnds rt s isUserA skillIndex userName chance i battle with
          | true =>
              rw [hends, if_pos rfl] at hbattles
              cases hnext : s.battleFieldList[i + 1]? with
              | none =>
                  rw [List.drop_eq_nil_of_le (List.getElem?_eq_none_iff.mp hnext), hends] at hc
                  cases hc
              | some next =>
                  exact ⟨next, checkedOperationLoop_skips hptrs hi hnext hbattles hlength h₂⟩
          | false =>
              rw [hends, if_neg Bool.false_ne_true] at hbattles hdrop
              rw [hends, Bool.not_false, Bool.true_or, Bool.true_and, ← hdrop,
                ← finishesLast_entries hentries] at hc
              obtain ⟨other, hother, hpassed⟩ := ih hptrs₁ hlength hc h₂
              obtain ⟨-, hsublist, htake⟩ := checkedOperationLoop_keeps hptrs₁ h₂
              obtain ⟨hlt, -⟩ := List.getElem?_eq_some_iff.mp hi
              have hkept : s'.battleFieldList[i]? = some battle' := by
                rw [getElem?_of_take htake, hbattles, List.getElem?_set_self hlt]
              have hne := ptr_ne_of_drop (hptrs₁.sublist hsublist) hkept hother
              rw [hsame.ptr] at hne
              refine ⟨other, ?_, ?_⟩
              · rw [drop_of_getElem hkept]
                exact List.mem_cons_of_mem _ hother
              · intro hmem
                rcases List.mem_cons.mp hmem with heq | hmem
                · exact hne heq
                · exact hpassed hmem

end ServerBackend

open ServerBackend

/-! ## Every run -/

/-- In every state that a run reaches, an operation uses no deleted battle and examines every battle that
stays, when no battle ends by the action of its user A and none but the last one by another action.
Otherwise it has no defined result, or it passes a battle over. -/
theorem finished_battles_left_alone {db : δ} {tr : List (Event × List Sent)}
    (h : (backendStep rt).AnyRun (newServerBackend db) s tr) (isUserA skillIndex : Int)
    (userName : QString) (chance : Chance) :
    (finishesLast rt s isUserA skillIndex userName chance 0 s.battleFieldList = true →
        s.checkedBattleOperation rt isUserA skillIndex userName chance ≠ .error .deletedBattle ∧
          ∀ s' out ptrs, s.checkedBattleOperation rt isUserA skillIndex userName chance =
            .ok (s', out, ptrs) → ∀ battle ∈ s'.battleFieldList, battle.ptr ∈ ptrs) ∧
      (finishesLast rt s isUserA skillIndex userName chance 0 s.battleFieldList = false →
        ∀ s' out ptrs, s.checkedBattleOperation rt isUserA skillIndex userName chance =
          .ok (s', out, ptrs) → ∃ battle ∈ s'.battleFieldList, battle.ptr ∉ ptrs) := by
  have hptrs := battlePtrs_nodup (pointers_run h)
  refine ⟨fun hc => ⟨checkedBattleOperation_live hptrs hc, ?_⟩, ?_⟩
  · intro s' out ptrs hloop battle hb
    rw [checkedBattleOperation_all hptrs hc hloop]
    exact (checkedOperationLoop_keeps hptrs hloop).2.1.subset (List.mem_map_of_mem hb)
  · intro hc s' out ptrs hloop
    exact checkedOperationLoop_passes hptrs (Nat.le_add_left _ 0) hc hloop

/-- Every attack takes all HP of the target. -/
def deadlyRuntime : Runtime Tables := ⟨tablesStorage, fun _ _ _ _ => ⟨{}, {}, 0, 100⟩⟩

def operate (client : Nat) (isUserA : Int) (userName : QString) : Event :=
  .message client (.battleOperation isUserA 0 userName) noChance

/-- The users `a` and `b` fight, and `b` has chosen a skill. -/
def halfTurn : List Event :=
  [operate 2 0 "b", accept 2 "a" "b", invite 1 "a" "b", login 2 "b", login 1 "a"]

/-- The users `a` and `b` fight, and `a` has chosen a skill: `b` ends the battle. -/
def otherHalfTurn : List Event :=
  [operate 1 1 "a", accept 2 "a" "b", invite 1 "a" "b", login 2 "b", login 1 "a"]

theorem finished_battles_left_alone_example :
    ∃ s tr, (backendStep deadlyRuntime).AnyRun (newServerBackend smallTables) s tr ∧
      tr.map Prod.fst = otherHalfTurn ∧
      s.checkedBattleOperation deadlyRuntime 0 0 "b" noChance ≠ .error .deletedBattle := by
  obtain ⟨hrun, hevents⟩ := Machine.run_after (backendStep deadlyRuntime) Machine.always
    (newServerBackend smallTables) otherHalfTurn (by decide +kernel)
  exact ⟨_, _, hrun.any, hevents,
    ((finished_battles_left_alone hrun.any 0 0 "b" noChance).1 (by decide +kernel)).1⟩

/-- When `a` ends the battle, it is asked for its user B after it was deleted. -/
theorem deleted_battle_used :
    ∃ s tr, (backendStep deadlyRuntime).AnyRun (newServerBackend smallTables) s tr ∧
      tr.map Prod.fst = halfTurn ∧
      s.checkedBattleOperation deadlyRuntime 1 0 "a" noChance = .error .deletedBattle := by
  obtain ⟨hrun, hevents⟩ := Machine.run_after (backendStep deadlyRuntime) Machine.always
    (newServerBackend smallTables) halfTurn (by decide +kernel)
  exact ⟨_, _, hrun.any, hevents, isFault_iff.mp (by decide +kernel)⟩

end TermCollection.Pokemon
