import TermCollection.Lib.Checked
import TermCollection.Pokemon.Lemmas.Battles

/-!
# Undefined behaviour by its name

The handlers that walk over the list of battles once more: a step without a defined result says what
went wrong, and every use of a battle is checked. Where nothing goes wrong they do the same.
-/

namespace TermCollection.Pokemon

variable {δ : Type} {rt : Runtime δ} {s s' : ServerBackend δ} {out : List Sent} {p i : Nat}
variable {battle : BattleField} {chance : TurnChance}

inductive Fault where
  /-- A member of a `User*` that is NULL. -/
  | nullUser
  /-- A member of a user who was removed. -/
  | danglingUser
  /-- A member of a battle that was deleted. -/
  | deletedBattle
  /-- An index behind the end of the list of users. -/
  | outOfRange
  /-- Anything else without a defined result. -/
  | other
  deriving DecidableEq

def orFault {α : Type} (fault : Fault) : Option α → Except Fault α
  | none => .error fault
  | some a => .ok a

@[simp] theorem orFault_toOption {α : Type} (fault : Fault) (x : Option α) :
    (orFault fault x).toOption = x := by cases x <;> rfl

theorem orFault_ok {α : Type} {fault : Fault} {x : Option α} {a : α} :
    orFault fault x = .ok a ↔ x = some a := by cases x <;> simp [orFault]

theorem orFault_error {α : Type} {fault fault' : Fault} {x : Option α} :
    orFault fault x = .error fault' ↔ fault' = fault ∧ x = none := by
  cases x <;> simp [orFault, eq_comm]

def isFault {α : Type} (fault : Fault) : Except Fault α → Bool
  | .error fault' => fault' = fault
  | .ok _ => false

theorem isFault_iff {α : Type} {fault : Fault} {x : Except Fault α} :
    isFault fault x = true ↔ x = .error fault := by cases x <;> simp [isFault]

/-! ## The uses of a battle in a turn -/

/-- A battle uses one of its members, or it emits a signal. -/
inductive TurnAction where
  | use
  | turnInfoReady (info : TurnInfo)
  | battleFinished (winner : Option Nat)
  deriving DecidableEq

namespace TurnAction

def info : TurnAction → Option TurnInfo
  | .turnInfoReady info => some info
  | _ => none

def isFinish : TurnAction → Bool
  | .battleFinished _ => true
  | _ => false

end TurnAction

namespace BattleField

def checkActions (battle : BattleField) : List TurnAction :=
  .use :: (battle.checkBattleIsFinished.map .battleFinished).toList

/-- The members are used for the attack, and for the HP behind the signal. -/
def strikeActions (battle : BattleField) (info : TurnInfo) : List TurnAction :=
  .use :: .turnInfoReady info :: .use :: battle.checkActions

def turnActionsInOrder (attack : Attack) (battle : BattleField) (draw : BalanceType → Nat)
    (first second : BalanceType) : List TurnAction :=
  let (battle, info₁) := battle.strike attack (draw first) first
  battle.strikeActions info₁ ++
    match battle.checkBattleIsFinished with
    | some _ => []
    | none =>
        let (battle, info₂) := battle.strike attack (draw second) second
        battle.strikeActions info₂ ++
          match battle.checkBattleIsFinished with
          | some _ => []
          | none => .use :: { battle with actionA := "", actionB := "" }.queryBuffList.checkActions

def turnActions (attack : Attack) (battle : BattleField) (draw : BalanceType → Nat) : List TurnAction :=
  let spdB := battle.pkmB.curSPD
  let spdA :=
    if battle.pkmA.curSPD = spdB then
      battle.pkmA.curSPD + (if battle.pkmA.curSPD % 2 = 0 then 1 else -1)
    else battle.pkmA.curSPD
  .use ::
    if spdB < spdA then battle.turnActionsInOrder attack draw .aToB .bToA
    else battle.turnActionsInOrder attack draw .bToA .aToB

def setActionActions (attack : Attack) (battle : BattleField) (skillIndex : Int) (userIndex : Nat)
    (draw : BalanceType → Nat) : List TurnAction :=
  let battle :=
    if userIndex = 0 then { battle with actionA := battle.pkmA.getSkill skillIndex }
    else { battle with actionB := battle.pkmB.getSkill skillIndex }
  .use :: if battle.actionA ≠ "" ∧ battle.actionB ≠ "" then battle.turnActions attack draw else []

/-- The actions are those of the turn, and none comes behind the end of the battle. -/
structure ActionsOf (turn : Turn) (actions : List TurnAction) : Prop where
  infos : actions.filterMap TurnAction.info = turn.infos
  finish : ∃ before, actions = before ++ (turn.winner.map TurnAction.battleFinished).toList ∧
    ∀ action ∈ before, action.isFinish = false

theorem ActionsOf.use {turn : Turn} {actions : List TurnAction} (h : ActionsOf turn actions) :
    ActionsOf turn (.use :: actions) := by
  obtain ⟨before, hactions, hbefore⟩ := h.finish
  refine ⟨h.infos, .use :: before, by rw [hactions, List.cons_append], ?_⟩
  intro action haction
  rcases List.mem_cons.mp haction with rfl | haction
  · rfl
  · exact hbefore action haction

theorem ActionsOf.info {infos : List TurnInfo} {winner : Option (Option Nat)}
    {actions : List TurnAction} (h : ActionsOf ⟨battle, infos, winner⟩ actions) (info : TurnInfo) :
    ActionsOf ⟨battle, info :: infos, winner⟩ (.turnInfoReady info :: actions) := by
  obtain ⟨before, hactions, hbefore⟩ := h.finish
  refine ⟨congrArg (info :: ·) h.infos, .turnInfoReady info :: before,
    by rw [hactions, List.cons_append], ?_⟩
  intro action haction
  rcases List.mem_cons.mp haction with rfl | haction
  · rfl
  · exact hbefore action haction

theorem ActionsOf.finished (battle : BattleField) (winner : Option (Option Nat)) :
    ActionsOf ⟨battle, [], winner⟩ (winner.map TurnAction.battleFinished).toList := by
  refine ⟨?_, [], rfl, fun _ h => by cases h⟩
  cases winner <;> rfl

theorem actionsOf_inOrder (attack : Attack) (battle : BattleField) (draw : BalanceType → Nat)
    (first second : BalanceType) :
    ActionsOf (battle.turnInOrder attack draw first second)
      (battle.turnActionsInOrder attack draw first second) := by
  simp only [turnInOrder, turnActionsInOrder, strikeActions, checkActions]
  split
  · rename_i winner hw
    rw [hw]
    exact ((ActionsOf.finished _ (some winner)).use.use.info _).use
  · rename_i hw
    rw [hw]
    split
    · rename_i winner hw₂
      rw [hw₂]
      exact (((((ActionsOf.finished _ (some winner)).use.use.info _).use).use.use.info _).use)
    · rename_i hw₂
      rw [hw₂]
      exact ((((((ActionsOf.finished _ _).use.use.use.use.info _).use).use.use.info _).use))

theorem actionsOf_turn (attack : Attack) (battle : BattleField) (draw : BalanceType → Nat) :
    ActionsOf (battle.turn attack draw) (battle.turnActions attack draw) := by
  simp only [turn, turnActions]
  apply ActionsOf.use
  generalize (if battle.pkmA.curSPD = battle.pkmB.curSPD then
    battle.pkmA.curSPD + (if battle.pkmA.curSPD % 2 = 0 then 1 else -1)
    else battle.pkmA.curSPD) = spdA
  split <;> exact actionsOf_inOrder ..

theorem actionsOf_setAction (attack : Attack) (battle : BattleField) (skillIndex : Int)
    (userIndex : Nat) (draw : BalanceType → Nat) :
    ActionsOf (battle.setAction attack skillIndex userIndex draw)
      (battle.setActionActions attack skillIndex userIndex draw) := by
  unfold setAction setActionActions
  generalize (if userIndex = 0 then { battle with actionA := battle.pkmA.getSkill skillIndex }
    else { battle with actionB := battle.pkmB.getSkill skillIndex }) = stored
  apply ActionsOf.use
  by_cases hboth : stored.actionA ≠ "" ∧ stored.actionB ≠ ""
  · rw [if_pos hboth, if_pos hboth]
    exact actionsOf_turn attack stored draw
  · rw [if_neg hboth, if_neg hboth]
    exact .finished _ none

end BattleField

namespace ServerBackend

/-! ## Checked pointers -/

def checkedUser (s : ServerBackend δ) : Option Nat → Except Fault User
  | none => .error .nullUser
  | some p => orFault .danglingUser (s.userAt p)

def liveBattle (s : ServerBackend δ) (p : Nat) : Except Fault BattleField :=
  orFault .deletedBattle (s.battleAt p)

theorem checkedUser_toOption (s : ServerBackend δ) (user : Option Nat) :
    (s.checkedUser user).toOption = user.bind s.userAt := by
  cases user with
  | none => rfl
  | some p => exact orFault_toOption ..

/-! ## Operations -/

/-- The slots that a turn calls; they use the battle too. -/
def perform (rt : Runtime δ) (battle : BattleField) (chance : TurnChance) :
    List TurnAction → ServerBackend δ → Except Fault (ServerBackend δ × List Sent)
  | [], s => .ok (s, [])
  | .use :: actions, s => do
      let _ ← s.liveBattle battle.ptr
      perform rt battle chance actions s
  | .turnInfoReady info :: actions, s => do
      let out ← orFault .other (s.slotGetTurnInfo battle info)
      let (s, outs) ← perform rt battle chance actions s
      .ok (s, out ++ outs)
  | .battleFinished winner :: actions, s => do
      let (s, out) ← orFault .other (slotGetBattleResult rt s battle winner chance)
      let (s, outs) ← perform rt battle chance actions s
      .ok (s, out ++ outs)

def checkedSetAction (rt : Runtime δ) (s : ServerBackend δ) (p : Nat) (skillIndex : Int)
    (userIndex : Nat) (chance : TurnChance) : Except Fault (ServerBackend δ × List Sent) := do
  let battle ← s.liveBattle p
  let turn := battle.setAction rt.attack skillIndex userIndex chance.attack
  perform rt turn.battle chance (battle.setActionActions rt.attack skillIndex userIndex chance.attack)
    (s.setBattle turn.battle)

def checkedOperateA (rt : Runtime δ) (s : ServerBackend δ) (battle : BattleField) (skillIndex : Int)
    (userName : QString) (chance : Chance) (i : Nat) : Except Fault (ServerBackend δ × List Sent) := do
  let _ ← s.liveBattle battle.ptr
  let userA ← s.checkedUser (some battle.userA)
  if userA.name = userName then do
    let (s, out₁) ← s.checkedSetAction rt battle.ptr skillIndex 0 (chance.userTurn i)
    let battle ← s.liveBattle battle.ptr
    if battle.userB = none then do
      let (s, out₂) ← s.checkedSetAction rt battle.ptr (bounded (chance.serverAction i) 4) 1
        (chance.serverTurn i)
      .ok (s, out₁ ++ out₂)
    else .ok (s, out₁)
  else .ok (s, [])

def checkedOperateB (rt : Runtime δ) (s : ServerBackend δ) (battle : BattleField) (skillIndex : Int)
    (userName : QString) (chance : Chance) (i : Nat) : Except Fault (ServerBackend δ × List Sent) := do
  let _ ← s.liveBattle battle.ptr
  let userB ← s.checkedUser battle.userB
  if userB.name = userName then s.checkedSetAction rt battle.ptr skillIndex 1 (chance.userTurn i)
  else .ok (s, [])

def checkedOperate (rt : Runtime δ) (s : ServerBackend δ) (isUserA : Int) (battle : BattleField)
    (skillIndex : Int) (userName : QString) (chance : Chance) (i : Nat) :
    Except Fault (ServerBackend δ × List Sent) :=
  if isUserA ≠ 0 then s.checkedOperateA rt battle skillIndex userName chance i
  else s.checkedOperateB rt battle skillIndex userName chance i

/-- The battles that the loop examines come with the result. -/
def checkedOperationLoop (rt : Runtime δ) (isUserA skillIndex : Int) (userName : QString)
    (chance : Chance) :
    Nat → Nat → ServerBackend δ → Except Fault (ServerBackend δ × List Sent × List Nat)
  | 0, _, s => .ok (s, [], [])
  | fuel + 1, i, s =>
      match s.battleFieldList[i]? with
      | none => .ok (s, [], [])
      | some battle => do
          let (s, out) ← s.checkedOperate rt isUserA battle skillIndex userName chance i
          let (s, outs, examined) ←
            checkedOperationLoop rt isUserA skillIndex userName chance fuel (i + 1) s
          .ok (s, out ++ outs, battle.ptr :: examined)

def checkedBattleOperation (rt : Runtime δ) (s : ServerBackend δ) (isUserA skillIndex : Int)
    (userName : QString) (chance : Chance) : Except Fault (ServerBackend δ × List Sent × List Nat) :=
  checkedOperationLoop rt isUserA skillIndex userName chance s.battleFieldList.length 0 s

/-! ## The end of a battle without a result -/

def checkedFindBattle (s : ServerBackend δ) (name : Nat → Option QString) :
    Nat → List BattleField → Except Fault (Option (BattleField × Nat × Option Nat))
  | _, [] => .ok none
  | i, battle :: battles => do
      let userA ← s.checkedUser (some battle.userA)
      let wanted ← orFault .outOfRange (name i)
      if userA.name = wanted then .ok (some (battle, battle.userA, battle.userB))
      else do
        let userB ← s.checkedUser battle.userB
        if userB.name = wanted then .ok (some (battle, userB.ptr, some battle.userA))
        else checkedFindBattle s name (i + 1) battles

def checkedBattleGiveUp (s : ServerBackend δ) (giveUpUser : QString) :
    Except Fault (ServerBackend δ × List Sent) := do
  match ← checkedFindBattle s (fun _ => some giveUpUser) 0 s.battleFieldList with
  | none => .ok (s, [])
  | some (battle, p, dest) => do
      let s ← orFault .danglingUser (s.setStatus p .idle)
      orFault .danglingUser (s.winByLeave battle dest)

def checkedLeaveBattle (s : ServerBackend δ) (user : User) : Except Fault (ServerBackend δ × List Sent) :=
  if user.status = .battling then do
    match ← checkedFindBattle s (fun i => (s.userList[i]?).map (·.name)) 0 s.battleFieldList with
    | none => .ok (s, [])
    | some (battle, _, dest) => orFault .danglingUser (s.winByLeave battle dest)
  else .ok (s, [])

def checkedDisconnectLoop (client : Nat) :
    Nat → Nat → ServerBackend δ → Except Fault (ServerBackend δ × List Sent)
  | 0, _, s => .ok (s, [])
  | fuel + 1, i, s =>
      match s.userList[i]? with
      | none => .ok (s, [])
      | some user =>
          if user.userSocket = client then do
            let (s, out) ← s.checkedLeaveBattle user
            let s := { s with userList := s.userList.eraseIdx i }
            let (s, outs) ← checkedDisconnectLoop client fuel (i + 1) s
            .ok (s, out ++ outs)
          else checkedDisconnectLoop client fuel (i + 1) s

def checkedUserDisconnected (s : ServerBackend δ) (client : Nat) :
    Except Fault (ServerBackend δ × List Sent) :=
  checkedDisconnectLoop client s.userList.length 0 s

end ServerBackend

open ServerBackend in
def checkedStep (rt : Runtime δ) (s : ServerBackend δ) : Event → Except Fault (ServerBackend δ × List Sent)
  | .message _ (.battleOperation isUserA skillIndex userName) chance => do
      let (s, out, _) ← s.checkedBattleOperation rt isUserA skillIndex userName chance
      .ok (s, out)
  | .message _ (.battleGiveUp userName) _ => s.checkedBattleGiveUp userName
  | .userDisconnected client => s.checkedUserDisconnected client
  | e => orFault .other (backendStep rt s e)

namespace ServerBackend

/-! ## The same results -/

theorem perform_append {actions rest : List TurnAction} (hlive : (s.battleAt battle.ptr).isSome = true)
    (hactions : ∀ action ∈ actions, action.isFinish = false) :
    perform rt battle chance (actions ++ rest) s = (do
      let infos ← orFault .other ((actions.filterMap TurnAction.info).mapM (s.slotGetTurnInfo battle))
      let (s, outs) ← perform rt battle chance rest s
      .ok (s, infos.flatten ++ outs)) := by
  induction actions with
  | nil =>
      cases hrest : perform rt battle chance rest s <;>
        simp [hrest, orFault, bind, Except.bind]
  | cons action actions ih =>
      have ih := ih fun action haction => hactions action (List.mem_cons_of_mem _ haction)
      cases action with
      | use =>
          obtain ⟨found, hfound⟩ := Option.isSome_iff_exists.mp hlive
          rw [List.cons_append, perform, liveBattle, hfound, ih]
          rfl
      | turnInfoReady info =>
          rw [List.cons_append, perform, ih, List.filterMap_cons]
          simp only [TurnAction.info, List.mapM_cons]
          cases hinfo : s.slotGetTurnInfo battle info with
          | none => rfl
          | some out =>
              cases hrest : (actions.filterMap TurnAction.info).mapM (s.slotGetTurnInfo battle) with
              | none => rfl
              | some infos =>
                  cases hperform : perform rt battle chance rest s with
                  | error fault => rfl
                  | ok r => simp [orFault, bind, Except.bind]
      | battleFinished winner => exact absurd (hactions _ List.mem_cons_self) (by simp [TurnAction.isFinish])

theorem slotGetTurnInfo_same {battle' : BattleField} (h : battle.Same battle') (info : TurnInfo) :
    s.slotGetTurnInfo battle' info = s.slotGetTurnInfo battle info := by
  simp only [slotGetTurnInfo, h.userA, h.userB]

theorem setBattle_live {battle' : BattleField} (hbattle : s.battleAt p = some battle)
    (hsame : battle.Same battle') : ((s.setBattle battle').battleAt battle'.ptr).isSome = true := by
  obtain ⟨hmem, -⟩ := battleAt_spec hbattle
  rw [battleAt, List.find?_isSome]
  refine ⟨battle', List.mem_map.mpr ⟨battle, hmem, ?_⟩, by simp⟩
  rw [if_pos hsame.ptr.symm]

/-- No use of the battle comes behind its end: only the battle itself must be there. -/
theorem checkedSetAction_eq {skillIndex : Int} {userIndex : Nat}
    (hlive : (s.battleAt p).isSome = true) :
    s.checkedSetAction rt p skillIndex userIndex chance =
      orFault .other (s.setAction rt p skillIndex userIndex chance) := by
  obtain ⟨battle, hbattle⟩ := Option.isSome_iff_exists.mp hlive
  have hof := BattleField.actionsOf_setAction rt.attack battle skillIndex userIndex chance.attack
  have hsame := (BattleField.turnOf_setAction rt.attack battle skillIndex userIndex chance.attack).same
  rw [checkedSetAction, liveBattle, setAction, hbattle]
  simp only [orFault, bind, Except.bind, Option.bind]
  generalize battle.setAction rt.attack skillIndex userIndex chance.attack = turn at hof hsame ⊢
  obtain ⟨before, hactions, hbefore⟩ := hof.finish
  have hinfos : before.filterMap TurnAction.info = turn.infos := by
    have hall := hof.infos
    rw [hactions, List.filterMap_append] at hall
    rw [← hall]
    cases turn.winner <;> exact (List.append_nil _).symm
  have hslots : (s.setBattle turn.battle).slotGetTurnInfo turn.battle =
      (s.setBattle turn.battle).slotGetTurnInfo battle := by
    funext info
    exact slotGetTurnInfo_same hsame info
  rw [hactions, perform_append (setBattle_live hbattle hsame) hbefore, hinfos, hslots]
  cases hsend : turn.infos.mapM ((s.setBattle turn.battle).slotGetTurnInfo battle) with
  | none => rfl
  | some infos =>
      cases hwinner : turn.winner with
      | none => simp [perform, orFault, bind, Except.bind]
      | some winner =>
          cases hresult : slotGetBattleResult rt (s.setBattle turn.battle) turn.battle winner chance with
          | none => simp [perform, orFault, bind, Except.bind, hresult]
          | some r => simp [perform, orFault, bind, Except.bind, hresult]

theorem checkedSetAction_toOption (rt : Runtime δ) (s : ServerBackend δ) (p : Nat) (skillIndex : Int)
    (userIndex : Nat) (chance : TurnChance) :
    (s.checkedSetAction rt p skillIndex userIndex chance).toOption =
      s.setAction rt p skillIndex userIndex chance := by
  cases hbattle : s.battleAt p with
  | none => simp [checkedSetAction, setAction, liveBattle, hbattle, orFault, bind, Except.bind, Except.toOption]
  | some battle => rw [checkedSetAction_eq (by rw [hbattle]; rfl), orFault_toOption]

theorem checkedUser_some (s : ServerBackend δ) (p : Nat) :
    (s.checkedUser (some p)).toOption = s.userAt p := orFault_toOption ..

theorem liveBattle_of_mem (hb : battle ∈ s.battleFieldList) :
    ∃ live, s.liveBattle battle.ptr = .ok live := by
  have hsome : (s.battleAt battle.ptr).isSome = true := by
    rw [battleAt, List.find?_isSome]
    exact ⟨battle, hb, by simp⟩
  obtain ⟨live, hlive⟩ := Option.isSome_iff_exists.mp hsome
  exact ⟨live, by rw [liveBattle, hlive]; rfl⟩

theorem checkedOperate_toOption (rt : Runtime δ) (hb : battle ∈ s.battleFieldList)
    (isUserA skillIndex : Int) (userName : QString) (chance : Chance) (i : Nat) :
    (s.checkedOperate rt isUserA battle skillIndex userName chance i).toOption =
      if isUserA ≠ 0 then operateA rt s battle skillIndex userName chance i
      else operateB rt s battle skillIndex userName chance i := by
  obtain ⟨live, hlive⟩ := liveBattle_of_mem hb
  unfold checkedOperate
  split
  · rw [checkedOperateA, operateA, hlive]
    refine toOption_bind (checkedUser_some s battle.userA) fun userA => ?_
    split
    · refine toOption_bind (checkedSetAction_toOption ..) fun r => ?_
      refine toOption_bind (orFault_toOption ..) fun battle' => ?_
      split
      · exact toOption_bind (checkedSetAction_toOption ..) fun r => rfl
      · rfl
    · rfl
  · rw [checkedOperateB, operateB, hlive]
    cases hB : battle.userB with
    | none => rfl
    | some p =>
        refine toOption_bind (checkedUser_some s p) fun userB => ?_
        split
        · exact checkedSetAction_toOption ..
        · rfl

theorem checkedOperationLoop_toOption (rt : Runtime δ) (isUserA skillIndex : Int) (userName : QString)
    (chance : Chance) (fuel i : Nat) (s : ServerBackend δ) :
    ((checkedOperationLoop rt isUserA skillIndex userName chance fuel i s).toOption.map
        fun r => (r.1, r.2.1)) =
      operationLoop rt isUserA skillIndex userName chance fuel i s := by
  induction fuel generalizing i s with
  | zero => rfl
  | succ fuel ih =>
      unfold checkedOperationLoop operationLoop
      cases hi : s.battleFieldList[i]? with
      | none => rfl
      | some battle =>
          have hone := checkedOperate_toOption rt (List.mem_of_getElem? hi) isUserA skillIndex userName
            chance i
          simp only [← hone]
          cases hr : s.checkedOperate rt isUserA battle skillIndex userName chance i with
          | error fault => rfl
          | ok r =>
              simp only [Except.toOption, Option.bind_eq_bind, Option.bind_some, ← ih]
              cases hrest : checkedOperationLoop rt isUserA skillIndex userName chance fuel (i + 1) r.1 with
              | error fault => simp [hrest, bind, Except.bind]
              | ok rest => simp [hrest, bind, Except.bind]

theorem checkedFindBattle_toOption {name : Nat → Option QString} {battles : List BattleField} :
    (checkedFindBattle s name i battles).toOption = findBattle s name i battles := by
  induction battles generalizing i with
  | nil => rfl
  | cons battle battles ih =>
      unfold checkedFindBattle findBattle
      refine toOption_bind (checkedUser_some s battle.userA) fun userA => ?_
      refine toOption_bind (orFault_toOption ..) fun wanted => ?_
      split
      · rfl
      · cases hB : battle.userB with
        | none => rfl
        | some p =>
            cases huser : s.userAt p with
            | none => simp [checkedUser, huser, orFault, bind, Except.bind, Except.toOption]
            | some userB =>
                simp only [checkedUser, huser, orFault, bind, Except.bind, Option.bind,
                  (userAt_spec huser).2]
                split
                · rfl
                · exact ih

theorem checkedLeaveBattle_toOption (s : ServerBackend δ) (user : User) :
    (s.checkedLeaveBattle user).toOption = s.leaveBattle user := by
  unfold checkedLeaveBattle leaveBattle
  split
  · refine toOption_bind checkedFindBattle_toOption fun found => ?_
    cases found with
    | none => rfl
    | some found => exact orFault_toOption ..
  · rfl

theorem checkedDisconnectLoop_toOption {client fuel : Nat} :
    (checkedDisconnectLoop client fuel i s).toOption = disconnectLoop client fuel i s := by
  induction fuel generalizing i s with
  | zero => rfl
  | succ fuel ih =>
      unfold checkedDisconnectLoop disconnectLoop
      cases s.userList[i]? with
      | none => rfl
      | some user =>
          by_cases hsocket : user.userSocket = client
          · simp only [hsocket, ↓reduceIte]
            refine toOption_bind (checkedLeaveBattle_toOption ..) fun r => ?_
            exact toOption_bind ih fun r => rfl
          · simp only [hsocket, ↓reduceIte]
            exact ih

theorem checkedBattleGiveUp_toOption (s : ServerBackend δ) (giveUpUser : QString) :
    (s.checkedBattleGiveUp giveUpUser).toOption = s.slotBattleGiveUp giveUpUser := by
  refine toOption_bind checkedFindBattle_toOption fun found => ?_
  cases found with
  | none => rfl
  | some found => exact toOption_bind (orFault_toOption ..) fun s => orFault_toOption ..

end ServerBackend

open ServerBackend

/-- A checked step that ends in no fault is a step of the server, and the other way round. -/
theorem checkedStep_toOption (rt : Runtime δ) (s : ServerBackend δ) (e : Event) :
    (checkedStep rt s e).toOption = backendStep rt s e := by
  cases e with
  | userDisconnected client => exact checkedDisconnectLoop_toOption
  | message client message chance =>
      cases message with
      | battleOperation isUserA skillIndex userName =>
          have hloop := checkedOperationLoop_toOption rt isUserA skillIndex userName chance
            s.battleFieldList.length 0 s
          simp only [checkedStep, backendStep, slotGetMessage, slotHandleBattleOperation, ← hloop,
            checkedBattleOperation]
          cases checkedOperationLoop rt isUserA skillIndex userName chance
            s.battleFieldList.length 0 s <;> rfl
      | battleGiveUp userName => exact checkedBattleGiveUp_toOption s userName
      | _ => simp [checkedStep]

end TermCollection.Pokemon
