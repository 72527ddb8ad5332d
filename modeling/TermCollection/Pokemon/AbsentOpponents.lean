import TermCollection.Pokemon.Lemmas.Operations
import TermCollection.Pokemon.Lemmas.Pointers

/-!
# The absent opponent of a battle with the server

A battle with the server has no user B. The searches through the list of battles ask for the name of the
user B of every battle that they pass, and so do the operations of a user B.
-/

namespace TermCollection.Pokemon

variable {δ : Type} {rt : Runtime δ} {s s' : ServerBackend δ} {out : List Sent} {i client : Nat}
variable {battle : BattleField} {isUserA skillIndex : Int} {userName : QString} {chance : Chance}
variable {name : Nat → Option QString} {fault : Fault}

namespace ServerBackend

/-! ## The condition -/

/-- The search for the battle of a name comes to no battle without a user B before it ends. -/
def searchesOpponents (s : ServerBackend δ) (name : Nat → Option QString) : Nat → List BattleField → Bool
  | _, [] => true
  | i, battle :: battles =>
      match name i with
      | none => true
      | some wanted =>
          s.nameAt (some battle.userA) = some wanted ||
            battle.userB.isSome &&
              (s.nameAt battle.userB = some wanted || searchesOpponents s name (i + 1) battles)

/-- The same for every search of a disconnection. -/
def leavesOpponents (client : Nat) : Nat → Nat → ServerBackend δ → Bool
  | 0, _, _ => true
  | fuel + 1, i, s =>
      match s.userList[i]? with
      | none => true
      | some user =>
          if user.userSocket = client then
            (user.status ≠ .battling ||
              s.searchesOpponents (fun i => (s.userList[i]?).map (·.name)) 0 s.battleFieldList) &&
              match s.leaveBattle user with
              | none => true
              | some (s, _) =>
                  leavesOpponents client fuel (i + 1) { s with userList := s.userList.eraseIdx i }
          else leavesOpponents client fuel (i + 1) s

/-- Every battle that an operation of a user B examines has a user B. -/
def facesOpponents (rt : Runtime δ) (s : ServerBackend δ) (isUserA skillIndex : Int)
    (userName : QString) (chance : Chance) : Bool :=
  isUserA ≠ 0 ||
    (examined rt s isUserA skillIndex userName chance 0 false s.battleFieldList).all (·.2.userB.isSome)

def meetsOpponents (rt : Runtime δ) (s : ServerBackend δ) : Event → Bool
  | .message _ (.battleOperation isUserA skillIndex userName) chance =>
      facesOpponents rt s isUserA skillIndex userName chance
  | .message _ (.battleGiveUp userName) _ =>
      s.searchesOpponents (fun _ => some userName) 0 s.battleFieldList
  | .message .. => true
  | .userDisconnected client => leavesOpponents client s.userList.length 0 s

/-! ## Searches -/

theorem checkedUser_of_isSome {user : Option Nat} (h : user.isSome = true) :
    s.checkedUser user ≠ .error .nullUser := by
  obtain ⟨p, rfl⟩ := Option.isSome_iff_exists.mp h
  rw [checkedUser, ne_eq, orFault_error]
  exact fun heq => by cases heq.1

theorem checkedFindBattle_opponents {battles : List BattleField}
    (h : s.searchesOpponents name i battles = true) :
    s.checkedFindBattle name i battles ≠ .error .nullUser := by
  induction battles generalizing i with
  | nil => exact fun heq => by cases heq
  | cons battle battles ih =>
      intro heq
      simp only [checkedFindBattle, bind_error, orFault_error] at heq
      rcases heq with heq | ⟨userA, hA, ⟨heq, -⟩ | ⟨wanted, hwanted, heq⟩⟩
      · exact checkedUser_of_isSome rfl heq
      · cases heq
      · split at heq
        · cases heq
        · rename_i hneA
          rw [orFault_ok] at hwanted
          simp only [searchesOpponents, hwanted, checkedUser_name hA, Option.some.injEq, hneA, decide_false,
            Bool.false_or, Bool.and_eq_true, Bool.or_eq_true, decide_eq_true_eq] at h
          rw [bind_error] at heq
          rcases heq with heq | ⟨userB, hB, heq⟩
          · exact checkedUser_of_isSome h.1 heq
          · split at heq
            · cases heq
            · rename_i hneB
              rw [checkedUser_name hB, Option.some.injEq] at h
              exact ih (h.2.resolve_left hneB) heq

/-- A search that comes to a battle without a user B has no defined result. -/
theorem checkedFindBattle_absent {battles : List BattleField}
    (h : s.searchesOpponents name i battles = false) :
    ∃ fault, s.checkedFindBattle name i battles = .error fault := by
  induction battles generalizing i with
  | nil => cases h
  | cons battle battles ih =>
      rw [searchesOpponents] at h
      cases hwanted : name i with
      | none =>
          rw [hwanted] at h
          cases h
      | some wanted =>
          simp only [hwanted, Bool.or_eq_false_iff, decide_eq_false_iff_not] at h
          obtain ⟨hA, h⟩ := h
          rw [checkedFindBattle, hwanted]
          cases huserA : s.checkedUser (some battle.userA) with
          | error fault => exact ⟨fault, rfl⟩
          | ok userA =>
              rw [checkedUser_name huserA, Option.some.injEq] at hA
              simp only [orFault, bind, Except.bind, hA, ↓reduceIte]
              cases huserB : s.checkedUser battle.userB with
              | error fault => exact ⟨fault, rfl⟩
              | ok userB =>
                  have hsome : battle.userB.isSome = true := by
                    cases hB : battle.userB with
                    | none =>
                        rw [hB] at huserB
                        cases huserB
                    | some p => rfl
                  simp only [hsome, Bool.true_and, Bool.or_eq_false_iff, decide_eq_false_iff_not,
                    checkedUser_name huserB, Option.some.injEq] at h
                  simp only [h.1, ↓reduceIte]
                  exact ih h.2

/-! ## Giving up and disconnections -/

theorem orFault_dangling {α : Type} (x : Option α) : orFault .danglingUser x ≠ .error .nullUser := by
  rw [ne_eq, orFault_error]
  exact fun heq => by cases heq.1

theorem checkedBattleGiveUp_opponents
    (h : s.searchesOpponents (fun _ => some userName) 0 s.battleFieldList = true) :
    s.checkedBattleGiveUp userName ≠ .error .nullUser := by
  intro heq
  rw [checkedBattleGiveUp, bind_error] at heq
  rcases heq with heq | ⟨found, -, heq⟩
  · exact checkedFindBattle_opponents h heq
  · cases found with
    | none => cases heq
    | some found =>
        rw [bind_error] at heq
        rcases heq with heq | ⟨s₁, -, heq⟩
        · exact orFault_dangling _ heq
        · exact orFault_dangling _ heq

theorem checkedBattleGiveUp_absent
    (h : s.searchesOpponents (fun _ => some userName) 0 s.battleFieldList = false) :
    ∃ fault, s.checkedBattleGiveUp userName = .error fault := by
  obtain ⟨fault, hfault⟩ := checkedFindBattle_absent h
  exact ⟨fault, by rw [checkedBattleGiveUp, hfault]; rfl⟩

theorem checkedLeaveBattle_opponents {user : User} (h : user.status ≠ .battling ∨
      s.searchesOpponents (fun i => (s.userList[i]?).map (·.name)) 0 s.battleFieldList = true) :
    s.checkedLeaveBattle user ≠ .error .nullUser := by
  intro heq
  unfold checkedLeaveBattle at heq
  split at heq
  · rename_i hstatus
    rw [bind_error] at heq
    rcases heq with heq | ⟨found, -, heq⟩
    · exact checkedFindBattle_opponents (h.resolve_left fun hne => hne hstatus) heq
    · cases found with
      | none => cases heq
      | some found => exact orFault_dangling _ heq
  · cases heq

theorem checkedDisconnectLoop_opponents {fuel : Nat} (h : leavesOpponents client fuel i s = true) :
    checkedDisconnectLoop client fuel i s ≠ .error .nullUser := by
  induction fuel generalizing s i with
  | zero => exact fun heq => by cases heq
  | succ fuel ih =>
      intro heq
      unfold checkedDisconnectLoop at heq
      unfold leavesOpponents at h
      cases hi : s.userList[i]? with
      | none =>
          rw [hi] at heq
          cases heq
      | some user =>
          simp only [hi] at h heq
          split at heq
          · rename_i hsocket
            simp only [hsocket, ↓reduceIte, Bool.and_eq_true, Bool.or_eq_true, decide_eq_true_eq] at h
            simp only [bind_error] at heq
            rcases heq with heq | ⟨⟨s₁, out₁⟩, h₁, heq | ⟨r, -, heq⟩⟩
            · exact checkedLeaveBattle_opponents h.1 heq
            · have hleave := checkedLeaveBattle_toOption s user
              rw [h₁] at hleave
              rw [← hleave] at h
              exact ih h.2 heq
            · cases heq
          · rename_i hsocket
            simp only [hsocket, ↓reduceIte] at h
            exact ih h heq

theorem checkedDisconnectLoop_absent {fuel : Nat} (h : leavesOpponents client fuel i s = false) :
    ∃ fault, checkedDisconnectLoop client fuel i s = .error fault := by
  induction fuel generalizing s i with
  | zero => cases h
  | succ fuel ih =>
      unfold checkedDisconnectLoop
      unfold leavesOpponents at h
      cases hi : s.userList[i]? with
      | none =>
          rw [hi] at h
          cases h
      | some user =>
          simp only [hi] at h
          split at h
          · rename_i hsocket
            simp only [hsocket, ↓reduceIte]
            have hleave := checkedLeaveBattle_toOption s user
            cases h₁ : s.checkedLeaveBattle user with
            | error fault => exact ⟨fault, rfl⟩
            | ok r =>
                rw [h₁] at hleave
                simp only [← hleave, Except.toOption, Bool.and_eq_false_iff] at h
                rcases h with h | h
                · simp only [Bool.or_eq_false_iff, decide_eq_false_iff_not, ne_eq,
                    Decidable.not_not] at h
                  obtain ⟨fault, hfault⟩ := checkedFindBattle_absent h.2
                  rw [checkedLeaveBattle, if_pos h.1, hfault] at h₁
                  cases h₁
                · obtain ⟨fault, hfault⟩ := ih h
                  exact ⟨fault, by simp only [bind, Except.bind, hfault]⟩
          · rename_i hsocket
            simp only [hsocket, ↓reduceIte]
            exact ih h

/-! ## Operations -/

theorem checkedSetAction_not_null {p userIndex : Nat} {turnChance : TurnChance} :
    s.checkedSetAction rt p skillIndex userIndex turnChance ≠ .error .nullUser := by
  cases hbattle : s.battleAt p with
  | none =>
      rw [checkedSetAction, liveBattle, hbattle]
      exact fun heq => by cases heq
  | some battle =>
      rw [checkedSetAction_eq (by rw [hbattle]; rfl), ne_eq, orFault_error]
      exact fun heq => by cases heq.1

/-- The opponent of user A is compared with NULL. -/
theorem checkedOperateA_not_null :
    s.checkedOperateA rt battle skillIndex userName chance i ≠ .error .nullUser := by
  intro heq
  simp only [checkedOperateA, bind_error, liveBattle, orFault_error] at heq
  rcases heq with ⟨heq, -⟩ | ⟨_, -, heq | ⟨userA, -, heq⟩⟩
  · cases heq
  · exact checkedUser_of_isSome rfl heq
  · split at heq
    · simp only [bind_error, orFault_error] at heq
      rcases heq with heq | ⟨r, -, ⟨heq, -⟩ | ⟨live, -, heq⟩⟩
      · exact checkedSetAction_not_null heq
      · cases heq
      · split at heq
        · rw [bind_error] at heq
          rcases heq with heq | ⟨r, -, heq⟩
          · exact checkedSetAction_not_null heq
          · cases heq
        · cases heq
    · cases heq

theorem checkedOperateB_null
    (h : s.checkedOperateB rt battle skillIndex userName chance i = .error .nullUser) :
    battle.userB.isSome = false := by
  simp only [checkedOperateB, bind_error, liveBattle, orFault_error] at h
  rcases h with ⟨h, -⟩ | ⟨_, -, h | ⟨userB, -, h⟩⟩
  · cases h
  · cases hB : battle.userB.isSome with
    | false => rfl
    | true => exact absurd h (checkedUser_of_isSome hB)
  · split at h
    · exact absurd h checkedSetAction_not_null
    · cases h

theorem checkedOperateB_ok_isSome
    (h : s.checkedOperateB rt battle skillIndex userName chance i = .ok (s', out)) :
    battle.userB.isSome = true := by
  simp only [checkedOperateB, bind_ok] at h
  obtain ⟨_, -, userB, hB, -⟩ := h
  cases huser : battle.userB with
  | none =>
      rw [huser] at hB
      cases hB
  | some p => rfl

theorem checkedBattleOperation_opponents (hptrs : (s.battleFieldList.map BattleField.ptr).Nodup)
    (h : facesOpponents rt s isUserA skillIndex userName chance = true) :
    s.checkedBattleOperation rt isUserA skillIndex userName chance ≠ .error .nullUser := by
  intro heq
  obtain ⟨e, he, s₁, -, hfault⟩ := checkedOperationLoop_error hptrs heq
  unfold checkedOperate at hfault
  split at hfault
  · exact checkedOperateA_not_null hfault
  · rename_i hside
    simp only [facesOpponents, hside, decide_false, Bool.false_or, List.all_eq_true] at h
    rw [List.drop_zero] at he
    exact absurd (h e he) (by rw [checkedOperateB_null hfault]; exact Bool.false_ne_true)

theorem checkedBattleOperation_absent (hptrs : (s.battleFieldList.map BattleField.ptr).Nodup)
    (h : facesOpponents rt s isUserA skillIndex userName chance = false) :
    ∃ fault, s.checkedBattleOperation rt isUserA skillIndex userName chance = .error fault := by
  cases hloop : s.checkedBattleOperation rt isUserA skillIndex userName chance with
  | error fault => exact ⟨fault, rfl⟩
  | ok r =>
      simp only [facesOpponents, Bool.or_eq_false_iff, decide_eq_false_iff_not, List.all_eq_false] at h
      obtain ⟨hside, e, he, hnone⟩ := h
      obtain ⟨-, hgood⟩ := checkedOperationLoop_ok hptrs (Nat.le_add_left _ 0) hloop
      rw [List.drop_zero] at hgood
      obtain ⟨s₁, r₁, -, hr⟩ := hgood e he
      rw [checkedOperate, if_neg hside] at hr
      exact absurd (checkedOperateB_ok_isSome hr) hnone

end ServerBackend

open ServerBackend

/-! ## Every run -/

/-- In every state that a run reaches, a step asks no absent opponent when every search and every
operation comes to battles with a user B only. Otherwise it has no defined result. -/
theorem opponents_present {db : δ} {tr : List (Event × List Sent)}
    (h : (backendStep rt).AnyRun (newServerBackend db) s tr) (e : Event) :
    (meetsOpponents rt s e = true → checkedStep rt s e ≠ .error .nullUser) ∧
      (meetsOpponents rt s e = false → ∃ fault, checkedStep rt s e = .error fault) := by
  have hptrs := battlePtrs_nodup (pointers_run h)
  constructor
  · intro hc heq
    cases e with
    | userDisconnected client => exact checkedDisconnectLoop_opponents hc heq
    | message client message chance =>
        cases message with
        | battleOperation isUserA skillIndex userName =>
            simp only [checkedStep, bind_error] at heq
            rcases heq with heq | ⟨r, -, heq⟩
            · exact checkedBattleOperation_opponents hptrs hc heq
            · cases heq
        | battleGiveUp userName => exact checkedBattleGiveUp_opponents hc heq
        | _ => simp [checkedStep, orFault_error] at heq
  · intro hc
    cases e with
    | userDisconnected client => exact checkedDisconnectLoop_absent hc
    | message client message chance =>
        cases message with
        | battleOperation isUserA skillIndex userName =>
            obtain ⟨fault, hfault⟩ := checkedBattleOperation_absent hptrs hc
            exact ⟨fault, by simp only [checkedStep, hfault, bind, Except.bind]⟩
        | battleGiveUp userName => exact checkedBattleGiveUp_absent hc
        | _ => cases hc

/-- The users `a` and `b` are logged in, and `a` fights the server. -/
def againstServer : List Event := [invite 1 "a" "_server", login 2 "b", login 1 "a"]

/-- The user `a` gives the battle with the server up. -/
theorem opponents_present_example :
    ∃ s tr, (backendStep smallRuntime).AnyRun (newServerBackend smallTables) s tr ∧
      tr.map Prod.fst = againstServer ∧ s.battleFieldList.map (·.userB) = [none] ∧
      checkedStep smallRuntime s (.message 1 (.battleGiveUp "a") noChance) ≠ .error .nullUser := by
  obtain ⟨hrun, hevents⟩ := Machine.run_after (backendStep smallRuntime) Machine.always
    (newServerBackend smallTables) againstServer (by decide +kernel)
  exact ⟨_, _, hrun.any, hevents, by decide +kernel,
    (opponents_present hrun.any (.message 1 (.battleGiveUp "a") noChance)).1 (by decide +kernel)⟩

/-- The battle of `a` with the server is asked for the name of its user B when `b` gives up, and when `b`
acts as a user B. -/
theorem absent_opponent_asked :
    ∃ s tr, (backendStep smallRuntime).AnyRun (newServerBackend smallTables) s tr ∧
      tr.map Prod.fst = againstServer ∧
      checkedStep smallRuntime s (.message 2 (.battleGiveUp "b") noChance) = .error .nullUser ∧
      checkedStep smallRuntime s (.message 2 (.battleOperation 0 0 "b") noChance) =
        .error .nullUser := by
  obtain ⟨hrun, hevents⟩ := Machine.run_after (backendStep smallRuntime) Machine.always
    (newServerBackend smallTables) againstServer (by decide +kernel)
  exact ⟨_, _, hrun.any, hevents, isFault_iff.mp (by decide +kernel), isFault_iff.mp (by decide +kernel)⟩

end TermCollection.Pokemon
