import Mathlib.Algebra.Ring.Int.Defs
import TermCollection.Lib.Ledger
import TermCollection.Pokemon.Activities
import TermCollection.Pokemon.FinishedBattles
import TermCollection.Pokemon.StorageLaws

/-!
# Experience

A battle works on copies of the Pokemon, made when it starts, and at its end the copy of the winner is
written to the row with its ID. The ledger of a run says what the Pokemon have won and where they went.
-/

namespace TermCollection.Pokemon

variable {δ : Type} {rt : Runtime δ} {st : Storage δ} {db db' : δ} {s s' : ServerBackend δ}
variable {out : List Sent} {p : Nat} {user winner loser : Option Nat} {loc : Place} {t : Int}
variable {battle : BattleField} {pkm pkm' : PokemonBase} {chance : TurnChance} {acc : Account Place}

/-! ## Totals -/

/-- The experience behind a level and the experience on it. -/
def levelTotal (level exp : Int) : Int := (levelUpExp.take (level - 1).toNat).sum + exp

def PokemonRow.total (row : PokemonRow) : Int := levelTotal row.PKM_LEVEL row.PKM_EXP

namespace PokemonBase

def total (pkm : PokemonBase) : Int := levelTotal pkm.level pkm.exp

def place (pkm : PokemonBase) : Place := ⟨pkm.curUser, pkm.id⟩

/-- The Pokemon at the same place. -/
structure SamePlace (pkm pkm' : PokemonBase) : Prop where
  curUser : pkm'.curUser = pkm.curUser
  id : pkm'.id = pkm.id

theorem SamePlace.place (h : SamePlace pkm pkm') : pkm'.place = pkm.place := by
  rw [PokemonBase.place, h.curUser, h.id, PokemonBase.place]

theorem take_levelUpExp {level : Int} (h₁ : 1 ≤ level) (h₂ : level < maxLevel) :
    (levelUpExp.take (level + 1 - 1).toNat).sum =
      (levelUpExp.take (level - 1).toNat).sum + levelUpExp.getD (level - 1).toNat 0 := by
  have hsucc : (level + 1 - 1).toNat = (level - 1).toNat + 1 := by omega
  have hlt : (level - 1).toNat < levelUpExp.length := by
    have hlength : levelUpExp.length = 14 := rfl
    have hmax : maxLevel = 15 := rfl
    omega
  rw [hsucc, List.take_add_one, List.getD_eq_getElem?_getD, List.getElem?_eq_getElem hlt,
    Option.toList_some, List.sum_append, List.sum_singleton, Option.getD_some]

/-- The loop spends experience on levels, and the total stays. -/
theorem levelLoop_total {bonus : Nat → Bool} {fuel k : Nat}
    (h : levelLoop st db bonus fuel k pkm = some pkm') :
    SamePlace pkm pkm' ∧ pkm'.total = pkm.total := by
  induction fuel generalizing k pkm with
  | zero => cases h
  | succ fuel ih =>
      unfold levelLoop at h
      split at h
      · rename_i hmax
        split at h
        · cases h
        · rename_i hlevel
          simp only at h
          split at h
          · obtain ⟨hsame, htotal⟩ := ih h
            have htake := take_levelUpExp (by omega) hmax
            refine ⟨⟨hsame.curUser, hsame.id⟩, ?_⟩
            rw [htotal]
            simp only [total, levelTotal, levelUp, htake]
            omega
          · cases h
            exact ⟨⟨rfl, rfl⟩, rfl⟩
      · cases h
        exact ⟨⟨rfl, rfl⟩, rfl⟩

/-- Experience that is not positive is not gained; other experience is written with the whole Pokemon. -/
theorem gainExperience_total {exp : Int} {bonus : Nat → Bool}
    (h : pkm.gainExperience st db exp bonus = some (pkm', db')) :
    (exp ≤ 0 ∧ db' = db) ∨ (0 < exp ∧ pkm'.place = pkm.place ∧ pkm'.total = pkm.total + exp ∧
      db' = st.updatePokemon db pkm'.curUser pkm'.row) := by
  unfold gainExperience at h
  split at h
  · rename_i hexp
    cases h
    exact .inl ⟨by omega, rfl⟩
  · rename_i hexp
    simp only [Option.bind_eq_bind, Option.bind_eq_some_iff, Option.some.injEq, Prod.mk.injEq] at h
    obtain ⟨pkm₁, h₁, rfl, rfl⟩ := h
    obtain ⟨hsame, htotal⟩ := levelLoop_total h₁
    refine .inr ⟨by omega, hsame.place, ?_, rfl⟩
    rw [htotal]
    simp only [total, levelTotal]
    omega

end PokemonBase

namespace Storage

/-- The total that the database has for a Pokemon. -/
def totalAt (st : Storage δ) (db : δ) (loc : Place) : Option Int :=
  (st.rowAt db loc).map PokemonRow.total

theorem Keeps.totalAt (h : st.Keeps db db') (ht : st.totalAt db loc = some t) :
    st.totalAt db' loc = some t := by
  obtain ⟨row, hrow, rfl⟩ := Option.map_eq_some_iff.mp ht
  rw [Storage.totalAt, h loc row hrow]
  rfl

end Storage

namespace LawfulStorage

theorem totalAt_update (hst : LawfulStorage st) (pkm : PokemonBase)
    (ht : st.totalAt db pkm.place = some t) :
    st.totalAt (st.updatePokemon db pkm.curUser pkm.row) pkm.place = some pkm.total := by
  obtain ⟨row, hrow, -⟩ := Option.map_eq_some_iff.mp ht
  have hupdate := hst.update db pkm.curUser pkm.row row hrow
  rw [Storage.totalAt]
  exact congrArg (Option.map PokemonRow.total) hupdate

theorem totalAt_update_other (hst : LawfulStorage st) (pkm : PokemonBase) (h : loc ≠ pkm.place) :
    st.totalAt (st.updatePokemon db pkm.curUser pkm.row) loc = st.totalAt db loc :=
  congrArg (Option.map PokemonRow.total) (hst.update_other db pkm.curUser pkm.row loc h)

end LawfulStorage

/-! ## Victories -/

/-- The Pokemon that has won, as the battle has it, with what it is to gain. -/
structure Victory where
  winner : Option Nat
  pkm : PokemonBase
  award : Int

def BattleField.victory (battle : BattleField) (winner : Option Nat) : Victory :=
  let (pkm, dest) :=
    if winner = some battle.userA then (battle.pkmA, battle.pkmB) else (battle.pkmB, battle.pkmA)
  ⟨winner, pkm, (dest.level * 3).tdiv 2⟩

namespace Victory

/-- The row at the place of a Pokemon gets the award: the winner is not NULL, the copy of the battle is
of this row, and nothing was added to the row since it was read. -/
def arrives (v : Victory) (st : Storage δ) (db : δ) (loc : Place) : Bool :=
  v.award = 0 ∨ v.winner.isSome ∧ 0 < v.award ∧ v.pkm.place = loc ∧
    st.totalAt db loc = some v.pkm.total

/-- What a victory does to the database. -/
def Writes (v : Victory) (st : Storage δ) (db db' : δ) : Prop :=
  ((v.winner = none ∨ v.award ≤ 0) ∧ db' = db) ∨
    (v.winner.isSome = true ∧ 0 < v.award ∧ ∃ pkm : PokemonBase, pkm.place = v.pkm.place ∧
      pkm.total = v.pkm.total + v.award ∧ db' = st.updatePokemon db pkm.curUser pkm.row)

theorem Writes.other {v : Victory} (h : v.Writes st db db') (hst : LawfulStorage st)
    (hne : loc ≠ v.pkm.place) : st.totalAt db' loc = st.totalAt db loc := by
  rcases h with ⟨-, rfl⟩ | ⟨-, -, pkm, hplace, -, rfl⟩
  · rfl
  · exact hst.totalAt_update_other pkm (hplace ▸ hne)

/-- The total goes up by the award if and only if the award arrives. -/
theorem Writes.iff_arrives {v : Victory} (h : v.Writes st db db') (hst : LawfulStorage st)
    (ht : st.totalAt db loc = some t) :
    st.totalAt db' loc = some (t + v.award) ↔ v.arrives st db loc = true := by
  simp only [arrives, decide_eq_true_eq]
  rcases h with ⟨hnone, rfl⟩ | ⟨hwinner, hpos, pkm, hplace, htotal, rfl⟩
  · rw [ht, Option.some.injEq]
    rcases hnone with hnone | hneg
    · simp only [hnone, Option.isSome_none, Bool.false_eq_true, false_and, or_false]
      omega
    · omega
  · by_cases heq : loc = v.pkm.place
    · subst heq
      rw [← hplace] at ht ⊢
      rw [hst.totalAt_update pkm ht, ht, htotal, hplace]
      simp only [hwinner, hpos, true_and, Option.some.injEq]
      omega
    · rw [hst.totalAt_update_other pkm (hplace ▸ heq), ht, Option.some.injEq]
      have hne : ¬ v.pkm.place = loc := fun h => heq h.symm
      simp only [hne, false_and, and_false, or_false]
      omega

end Victory

namespace ServerBackend

/-- The victory that an action brings about. -/
def victory (rt : Runtime δ) (s : ServerBackend δ) (p : Nat) (skillIndex : Int) (userIndex : Nat)
    (chance : TurnChance) : Option Victory := do
  let battle ← s.battleAt p
  let turn := battle.setAction rt.attack skillIndex userIndex chance.attack
  turn.winner.map turn.battle.victory

/-! ## The database behind a battle -/

theorem db_modifyUser {f : User → User} (h : s.modifyUser p f = some s') : s'.db = s.db := by
  obtain ⟨-, rfl⟩ := modifyUser_eq_some h
  rfl

theorem db_setStatus {status : UserStatus} (h : s.setStatus p status = some s') : s'.db = s.db :=
  db_modifyUser h

theorem db_finishFor {result : BattleResult} (h : s.finishFor user result = some (s', out)) :
    s'.db = s.db := by
  unfold finishFor at h
  split at h
  · cases h
    rfl
  · simp only [Option.bind_eq_bind, Option.bind_eq_some_iff, Option.some.injEq, Prod.mk.injEq] at h
    obtain ⟨s₁, h₁, _, -, rfl, -⟩ := h
    exact db_setStatus h₁

theorem writes_awardWinner (h : awardWinner rt s battle winner chance = some s') :
    (battle.victory winner).Writes rt.storage s.db s'.db := by
  unfold awardWinner at h
  split at h
  · cases h
    exact .inl ⟨.inl rfl, rfl⟩
  · rename_i p
    simp only [Option.bind_eq_bind, Option.bind_eq_some_iff, Option.some.injEq, Prod.exists] at h
    obtain ⟨pkm', db', hgain, rfl⟩ := h
    have hcopies : (battle.victory (some p)).pkm =
        (if p = battle.userA then (battle.pkmA, battle.pkmB) else (battle.pkmB, battle.pkmA)).1 ∧
      (battle.victory (some p)).award =
        ((if p = battle.userA then (battle.pkmA, battle.pkmB) else (battle.pkmB, battle.pkmA)).2.level *
          3).tdiv 2 := by
      simp only [BattleField.victory, Option.some.injEq, and_self]
    rw [← hcopies.1, ← hcopies.2] at hgain
    rcases PokemonBase.gainExperience_total hgain with ⟨hle, hdb⟩ | ⟨hpos, hplace, htotal, hdb⟩
    · exact .inl ⟨.inr hle, hdb⟩
    · exact .inr ⟨rfl, hpos, pkm', hplace, htotal, hdb⟩

/-- A relation between databases that holds across what the end of a battle does beside the award. -/
structure Respects (rt : Runtime δ) (R : δ → δ → Prop) : Prop where
  refl : ∀ db, R db db
  trans : ∀ {db db₁ db'}, R db db₁ → R db₁ db' → R db db'
  battleTimes : ∀ db name won, R db (rt.storage.updateBattleTimes db name won)
  gift : ∀ db destUser id, R db (rt.storage.copyPokemon db "_server" destUser id)

theorem respects_keeps (hst : LawfulStorage rt.storage) : Respects rt rt.storage.Keeps where
  refl := .refl _
  trans := .trans
  battleTimes := hst.battleTimes
  gift db := hst.copy_keeps db "_server"

namespace Respects

variable {R : δ → δ → Prop}

theorem battleOver {won : Bool} (hR : Respects rt R) (h : battleOver rt s p won = some s') :
    R s.db s'.db := by
  simp only [ServerBackend.battleOver, Option.bind_eq_bind, Option.bind_eq_some_iff] at h
  obtain ⟨user, -, h⟩ := h
  rw [db_modifyUser h]
  exact hR.battleTimes s.db user.name won

theorem duelLost (hR : Respects rt R) (h : duelLost rt s p chance = some (s', out)) : R s.db s'.db := by
  simp only [ServerBackend.duelLost, Option.bind_eq_bind, Option.bind_eq_some_iff, Option.some.injEq,
    Prod.mk.injEq] at h
  obtain ⟨s₁, h₁, _, -, _, -, rfl, -⟩ := h
  exact hR.battleOver h₁

theorem duelResult (hR : Respects rt R)
    (h : duelResult rt s battle winner loser chance = some (s', out)) : R s.db s'.db := by
  unfold ServerBackend.duelResult at h
  split at h
  · simp only [Option.bind_eq_bind, Option.bind_eq_some_iff] at h
    obtain ⟨s₁, h₁, h⟩ := h
    exact hR.trans (hR.battleOver h₁) (hR.duelLost h)
  · simp only [Option.bind_eq_bind, Option.bind_eq_some_iff, Option.some.injEq, Prod.mk.injEq] at h
    obtain ⟨s₁, h₁, user, -, db, hdb, rfl, -⟩ := h
    rw [transferPokemon, if_pos rfl, Option.some.injEq] at hdb
    subst hdb
    exact hR.trans (hR.battleOver h₁) (hR.gift _ _ _)
  · exact hR.duelLost h
  · cases h
    exact hR.refl _

end Respects

/-- The award is written, and nothing else is changed. -/
theorem writes_slotGetBattleResult {R : δ → δ → Prop} (hR : Respects rt R)
    (h : slotGetBattleResult rt s battle winner chance = some (s', out)) :
    ∃ db, (battle.victory winner).Writes rt.storage s.db db ∧ R db s'.db := by
  simp only [slotGetBattleResult, Option.bind_eq_bind, Option.bind_eq_some_iff, Option.some.injEq,
    Prod.mk.injEq, Prod.exists] at h
  obtain ⟨s₁, _, h₁, s₂, h₂, s₃, _, h₃, s₄, _, h₄, rfl, -⟩ := h
  have hwrites := writes_awardWinner h₂
  rw [db_finishFor h₁] at hwrites
  have hduel : R s₃.db s₄.db := by
    split at h₄
    · exact hR.duelResult h₄
    · cases h₄
      exact hR.refl _
  rw [db_finishFor h₃] at hduel
  exact ⟨s₂.db, hwrites, hduel⟩

theorem writes_setAction {R : δ → δ → Prop} (hR : Respects rt R) {skillIndex : Int} {userIndex : Nat}
    (h : s.setAction rt p skillIndex userIndex chance = some (s', out)) :
    match s.victory rt p skillIndex userIndex chance with
    | none => s'.db = s.db
    | some v => ∃ db, v.Writes rt.storage s.db db ∧ R db s'.db := by
  simp only [setAction, Option.bind_eq_bind, Option.bind_eq_some_iff] at h
  obtain ⟨battle, hbattle, infos, -, h⟩ := h
  simp only [victory, hbattle, Option.bind_eq_bind, Option.bind_some]
  generalize battle.setAction rt.attack skillIndex userIndex chance.attack = turn at h ⊢
  cases hwinner : turn.winner with
  | none =>
      rw [hwinner] at h
      cases h
      rfl
  | some winner =>
      rw [hwinner] at h
      simp only [Option.bind_eq_some_iff, Option.some.injEq, Prod.mk.injEq, Prod.exists] at h
      obtain ⟨s₁, out₁, h₁, rfl, -⟩ := h
      have hwrites := writes_slotGetBattleResult hR h₁
      exact hwrites

/-! ## The database behind other events -/

theorem db_winByLeave {dest : Option Nat} (h : s.winByLeave battle dest = some (s', out)) :
    s'.db = s.db := by
  rcases winByLeave_cases h with ⟨-, rfl⟩ | ⟨p, s₁, -, h₁, rfl⟩
  · rfl
  · have hstatus := db_setStatus h₁
    exact hstatus

theorem db_slotBattleGiveUp {giveUpUser : QString} (h : s.slotBattleGiveUp giveUpUser = some (s', out)) :
    s'.db = s.db := by
  rcases slotBattleGiveUp_cases h with ⟨rfl, -⟩ | ⟨battle, p, dest, s₁, -, h₁, h⟩
  · rfl
  · exact (db_winByLeave h).trans (db_setStatus h₁)

theorem db_leaveBattle {user : User} (h : s.leaveBattle user = some (s', out)) : s'.db = s.db := by
  rcases leaveBattle_cases h with ⟨rfl, -, -⟩ | ⟨battle, p, dest, -, -, h⟩
  · rfl
  · exact db_winByLeave h

theorem db_disconnectLoop {client fuel i : Nat} (h : disconnectLoop client fuel i s = some (s', out)) :
    s'.db = s.db := by
  refine disconnectLoop_rule (P := fun r => r.db = s.db) ?_ rfl h
  intro r r' out user i hr _ hleave
  exact (db_leaveBattle hleave).trans hr

theorem db_slotUserLogin {client : Nat} {userName userPsw : QString} {entry : UserMemory} :
    (slotUserLogin rt s client userName userPsw entry).1.db = s.db := by
  unfold slotUserLogin
  split
  · rfl
  · split <;> rfl

theorem db_slotBattleInvite {client : Nat} {battleMode : BattleMode} {fromUser destUser : QString}
    {fromUserPkmId serverPkmId : Int}
    (h : slotBattleInvite rt s client battleMode fromUser fromUserPkmId destUser serverPkmId =
      some (s', out)) : s'.db = s.db := by
  unfold slotBattleInvite at h
  split at h
  · cases h
    rfl
  · split at h
    · cases h
      rfl
    · simp only [Option.bind_eq_bind, Option.bind_eq_some_iff] at h
      obtain ⟨s₁, h₁, h⟩ := h
      rw [← db_modifyUser h₁]
      split at h
      · simp only [Option.bind_eq_some_iff, Option.some.injEq, Prod.mk.injEq] at h
        obtain ⟨_, -, _, -, s₂, h₂, rfl, -⟩ := h
        have hstatus := db_setStatus h₂
        exact hstatus
      · split at h
        · cases h
          rfl
        · split at h <;> cases h <;> rfl

theorem db_slotHandleBattleInviteResponse {battleMode : BattleMode} {fromUser destUser : QString}
    {destUserPkmId : Int} {flag : BattleStartStatus}
    (h : slotHandleBattleInviteResponse rt s battleMode fromUser destUser destUserPkmId flag =
      some (s', out)) : s'.db = s.db := by
  unfold slotHandleBattleInviteResponse at h
  split at h
  · cases h
    rfl
  · split at h
    · cases h
      rfl
    · simp only [Option.bind_eq_bind, Option.bind_eq_some_iff, Option.some.injEq, Prod.mk.injEq] at h
      obtain ⟨s₁, h₁, _, -, _, -, s₂, h₂, s₃, h₃, rfl, -⟩ := h
      have hchosen := db_modifyUser h₁
      have hadded := db_setStatus h₂
      exact (db_setStatus h₃).trans (hadded.trans hchosen)

/-- A transfer from a user copies the row, deletes it, and may add another one. -/
theorem keeps_transferPokemon {fromUser destUser : QString} {pkmId : Int} {r : Nat}
    (hst : LawfulStorage rt.storage) (hfrom : fromUser ≠ "_server")
    (h : transferPokemon rt db fromUser destUser pkmId r = some db') :
    rt.storage.Keeps
      (rt.storage.deletePokemon (rt.storage.copyPokemon db fromUser destUser pkmId) fromUser pkmId)
      db' := by
  simp only [transferPokemon, if_neg hfrom] at h
  split at h
  · simp only [Option.bind_eq_bind, Option.bind_eq_some_iff, Option.some.injEq] at h
    obtain ⟨typeId, -, rfl⟩ := h
    exact hst.insert_keeps _ _ _
  · cases h
    exact .refl _ _

end ServerBackend

open ServerBackend

/-! ## The ledger -/

/-- A transfer moves a Pokemon to a new ID. The server keeps what is taken from it. -/
def transferNotes (st : Storage δ) (db : δ) (fromUser destUser : QString) (pkmId : Int) :
    List (LedgerNote Place) :=
  if fromUser = "_server" then []
  else
    match st.newId db (st.copyPokemon db fromUser destUser pkmId) destUser with
    | none => []
    | some newId => [.moved ⟨fromUser, pkmId⟩ ⟨destUser, newId⟩]

/-- The end of a battle credits its award. -/
def ledgerNotes (rt : Runtime δ) (s : ServerBackend δ) : Activity → List (LedgerNote Place)
  | .action p skillIndex userIndex chance =>
      match s.victory rt p skillIndex userIndex chance with
      | none => []
      | some v => [.credited v.pkm.place v.award]
  | .event (.message _ (.transferPokemon fromUser destUser pkmId) _) =>
      transferNotes rt.storage s.db fromUser destUser pkmId
  | _ => []

/-- The server with its ledger, the newest note of which comes first. -/
abbrev ledgerStep (rt : Runtime δ) : Machine (ServerBackend δ × List (LedgerNote Place)) Activity Sent :=
  Machine.record (activityStep rt) (ledgerNotes rt)

/-- A transfer of the Pokemon itself gives it a new ID. -/
def safeTransfer (st : Storage δ) (acc : Account Place) (db : δ) (fromUser destUser : QString)
    (pkmId : Int) : Bool :=
  fromUser = "_server" || acc.place ≠ ⟨fromUser, pkmId⟩ ||
    (st.newId db (st.copyPokemon db fromUser destUser pkmId) destUser).isSome

/-- The activity loses no experience of the Pokemon of an account. -/
def losesNothing (rt : Runtime δ) (acc : Account Place) (s : ServerBackend δ) : Activity → Bool
  | .action p skillIndex userIndex chance =>
      match s.victory rt p skillIndex userIndex chance with
      | none => true
      | some v => !acc.knows v.pkm.place || v.arrives rt.storage s.db acc.place
  | .event (.message _ (.transferPokemon fromUser destUser pkmId) _) =>
      safeTransfer rt.storage acc s.db fromUser destUser pkmId
  | _ => true

/-- The database has the total at the beginning and all that was won since then. -/
def Balanced (st : Storage δ) (total : Int) (db : δ) (acc : Account Place) : Prop :=
  st.totalAt db acc.place = some (total + acc.credit)

theorem Balanced.victory {total : Int} {v : Victory} {db₁ : δ} (hst : LawfulStorage st)
    (hb : Balanced st total db acc) (hwrites : v.Writes st db db₁) (hkeeps : st.Keeps db₁ db')
    (hc : (!acc.knows v.pkm.place || v.arrives st db acc.place) = true) :
    Balanced st total db' (acc.posted [.credited v.pkm.place v.award]) := by
  rw [Account.posted_credited]
  cases hknows : acc.knows v.pkm.place with
  | false =>
      have hne : acc.place ≠ v.pkm.place := by
        intro heq
        rw [Account.knows_of_eq heq.symm] at hknows
        cases hknows
      rw [if_neg Bool.false_ne_true]
      exact hkeeps.totalAt ((hwrites.other hst hne).trans hb)
  | true =>
      rw [hknows, Bool.not_true, Bool.false_or] at hc
      rw [if_pos rfl]
      have harrived := (hwrites.iff_arrives hst hb).mpr hc
      rw [Int.add_assoc] at harrived
      exact hkeeps.totalAt harrived

theorem Balanced.transfer {total : Int} {fromUser destUser : QString} {pkmId : Int} {r : Nat}
    (hst : LawfulStorage rt.storage) (hb : Balanced rt.storage total db acc)
    (hc : safeTransfer rt.storage acc db fromUser destUser pkmId = true)
    (h : transferPokemon rt db fromUser destUser pkmId r = some db') :
    Balanced rt.storage total db' (acc.posted (transferNotes rt.storage db fromUser destUser pkmId)) := by
  unfold transferNotes
  have hcopied := (hst.copy_keeps db fromUser destUser pkmId).totalAt hb
  by_cases hfrom : fromUser = "_server"
  · rw [transferPokemon, if_pos hfrom, Option.some.injEq] at h
    rw [if_pos hfrom, ← h]
    exact hcopied
  · rw [if_neg hfrom]
    have hkeeps := keeps_transferPokemon hst hfrom h
    by_cases hplace : acc.place = ⟨fromUser, pkmId⟩
    · -- the row is read at the old ID, and the delete does not touch the new one
      obtain ⟨row, hrow, htotal⟩ := Option.map_eq_some_iff.mp hb
      rw [hplace] at hrow
      cases hnew : rt.storage.newId db (rt.storage.copyPokemon db fromUser destUser pkmId) destUser with
      | none => simp [safeTransfer, hfrom, hplace, hnew] at hc
      | some newId =>
          have hne : (⟨destUser, newId⟩ : Place) ≠ ⟨fromUser, pkmId⟩ := by
            intro heq
            rw [Place.mk.injEq] at heq
            have hfresh := List.find?_some hnew
            rw [decide_eq_true_eq, heq.1, heq.2] at hfresh
            exact hfresh (hst.ids db fromUser pkmId row hrow)
          have hat := hst.copy_new db fromUser destUser pkmId row newId hrow hnew
          rw [← hst.delete_other _ fromUser pkmId _ hne] at hat
          simp only [Account.posted_moved, hplace, ↓reduceIte]
          exact hkeeps.totalAt ((congrArg (Option.map PokemonRow.total) hat).trans (congrArg some htotal))
    · have hdeleted : rt.storage.totalAt (rt.storage.deletePokemon (rt.storage.copyPokemon db fromUser
          destUser pkmId) fromUser pkmId) acc.place = some (total + acc.credit) :=
        (congrArg (Option.map PokemonRow.total) (hst.delete_other _ fromUser pkmId _ hplace)).trans hcopied
      have hkept := hkeeps.totalAt hdeleted
      split
      · exact hkept
      · rw [Account.posted_moved, if_neg (Ne.symm hplace)]
        exact hkept

/-- An activity that loses nothing keeps the total of the Pokemon. -/
theorem Balanced.step {total : Int} {activity : Activity} (hst : LawfulStorage rt.storage)
    (hb : Balanced rt.storage total s.db acc) (hc : losesNothing rt acc s activity = true)
    (h : activityStep rt s activity = some (s', out)) :
    Balanced rt.storage total s'.db (acc.posted (ledgerNotes rt s activity)) := by
  cases activity with
  | action p skillIndex userIndex chance =>
      have hdb := writes_setAction (respects_keeps hst) h
      simp only [losesNothing, ledgerNotes] at hc ⊢
      cases hv : s.victory rt p skillIndex userIndex chance with
      | none =>
          rw [hv] at hdb
          exact hdb ▸ hb
      | some v =>
          rw [hv] at hdb hc
          obtain ⟨db₁, hwrites, hkeeps⟩ := hdb
          exact hb.victory hst hwrites hkeeps hc
  | event e =>
      cases e with
      | userDisconnected client => exact db_disconnectLoop h ▸ hb
      | message client message chance =>
          cases message with
          | userLogin userName userPsw =>
              have hs' : s'.db = s.db :=
                (congrArg (·.1.db) (Option.some.inj h)).symm.trans db_slotUserLogin
              exact hs' ▸ hb
          | battleInvite => exact db_slotBattleInvite h ▸ hb
          | battleInviteResponse => exact db_slotHandleBattleInviteResponse h ▸ hb
          | battleOperation => cases h
          | battleGiveUp => exact db_slotBattleGiveUp h ▸ hb
          | transferPokemon fromUser destUser pkmId =>
              simp only [activityStep, backendStep, slotGetMessage, slotTransferPokemon,
                Option.bind_eq_bind, Option.bind_eq_some_iff, Option.some.injEq, Prod.mk.injEq] at h
              obtain ⟨db, hdb, rfl, -⟩ := h
              exact hb.transfer hst hc hdb

/-- The account of a Pokemon that was at a place when the ledger was opened. -/
def accountOf (place : Place) (notes : List (LedgerNote Place)) : Account Place :=
  (Account.opened place).posted notes

/-- In every run of activities that lose nothing the database has, for the Pokemon at its place at the
time, the total at the beginning and the awards of all the battles that it has won. -/
theorem no_experience_lost {total : Int} {s₀ : ServerBackend δ} {notes : List (LedgerNote Place)}
    {tr : List (Activity × List Sent)} (hst : LawfulStorage rt.storage)
    (h₀ : rt.storage.totalAt s₀.db loc = some total)
    (h : (ledgerStep rt).Run
      (fun r activity => losesNothing rt (accountOf loc r.2) r.1 activity = true) (s₀, []) (s, notes) tr) :
    rt.storage.totalAt s.db (accountOf loc notes).place =
      some (total + (accountOf loc notes).credit) := by
  refine h.stateInvariant (I := fun r => Balanced rt.storage total r.1.db (accountOf loc r.2)) ?_ ?_
  · rw [Balanced, accountOf, Account.posted, List.foldr_nil, Account.opened, h₀, Int.add_zero]
  · rintro ⟨s, notes⟩ activity ⟨s', notes'⟩ out hb hc hs
    obtain ⟨hstep, rfl⟩ := Machine.record_eq_some.mp hs
    rw [accountOf, Account.posted_append]
    exact hb.step hst hc hstep

/-- Every run of the server has a ledger. -/
theorem ledger_of_run {s₀ : ServerBackend δ} {tr : List (Event × List Sent)}
    (h : (backendStep rt).AnyRun s₀ s tr) :
    ∃ notes tr', (ledgerStep rt).AnyRun (s₀, []) (s, notes) tr' ∧
      (tr'.reverse.map Prod.snd).flatten = (tr.reverse.map Prod.snd).flatten := by
  obtain ⟨tr', hrun, hsent⟩ := performs_run h
  obtain ⟨notes, hrecorded⟩ := hrun.recorded (ledgerNotes rt) []
  exact ⟨notes, tr', hrecorded, hsent⟩

/-! ## A Pokemon in two battles -/

theorem smallTables_keyed : smallTables.Keyed := by
  have hnew : ∀ name, (newTable name).Keyed := fun name => ⟨List.nodup_singleton 1, by
    intro row hrow
    rw [List.mem_singleton.mp hrow]
    exact (by decide : (1 : Int) < 2)⟩
  intro table htable
  simp only [smallTables, List.mem_cons, List.not_mem_nil, or_false] at htable
  rcases htable with rfl | rfl | rfl | rfl <;> exact hnew _

def deadlyKeyedRuntime : Runtime KeyedTables := ⟨keyedStorage, deadlyRuntime.attack⟩

def transfer (client : Nat) (fromUser destUser : QString) : Event :=
  .message client (.transferPokemon fromUser destUser 1) noChance

/-- The first skill in a battle. -/
def act (p userIndex : Nat) : Activity := .action p 0 userIndex noTurnChance

/-- The Pokemon of `a` wins a battle and is given to `b`. -/
def wonAndGiven : List Activity :=
  [.event (transfer 1 "a" "b"), act 2 1, act 2 0, .event (accept 2 "a" "b"), .event (invite 1 "a" "b"),
    .event (login 2 "b"), .event (login 1 "a")]

theorem no_experience_lost_example :
    ∃ s notes tr, (ledgerStep deadlyKeyedRuntime).Run
        (fun r activity => losesNothing deadlyKeyedRuntime (accountOf ⟨"a", 1⟩ r.2) r.1 activity = true)
        (newServerBackend ⟨smallTables, smallTables_keyed⟩, []) (s, notes) tr ∧
      tr.map Prod.fst = wonAndGiven ∧ accountOf ⟨"a", 1⟩ notes = ⟨⟨"b", 2⟩, [⟨"a", 1⟩], 1⟩ ∧
      keyedStorage.totalAt s.db (accountOf ⟨"a", 1⟩ notes).place =
        some (0 + (accountOf ⟨"a", 1⟩ notes).credit) := by
  obtain ⟨hrun, hevents⟩ := Machine.run_after
    (ledgerStep deadlyKeyedRuntime)
    (fun r activity => losesNothing deadlyKeyedRuntime (accountOf ⟨"a", 1⟩ r.2) r.1 activity)
    (newServerBackend ⟨smallTables, smallTables_keyed⟩, []) wonAndGiven (by decide +kernel)
  exact ⟨_, _, _, hrun, hevents, by decide +kernel,
    no_experience_lost keyedStorage_lawful (by decide +kernel) hrun⟩

deriving instance DecidableEq for UserRow, SkillRow, PokemonInfoRow, UserTable, Tables, ServerBackend

/-- The messages are made of the activities, and behind them no battle is left. The Pokemon of `a` has one
total, and has won another. -/
def LeadTo (messages : List Event) (activities : List Activity) (total credit : Int) : Prop :=
  ∃ s notes tr tr', (backendStep deadlyRuntime).AnyRun (newServerBackend smallTables) s tr ∧
    tr.map Prod.fst = messages ∧
    (ledgerStep deadlyRuntime).AnyRun
      (newServerBackend smallTables, []) (s, notes) tr' ∧
    tr'.map Prod.fst = activities ∧ s.battleFieldList = [] ∧
    tablesStorage.totalAt s.db (accountOf ⟨"a", 1⟩ notes).place = some total ∧
    (accountOf ⟨"a", 1⟩ notes).credit = credit

theorem leadTo_of_run (messages : List Event) (activities : List Activity) (total credit : Int)
    (hrun : (Machine.exec (backendStep deadlyRuntime) Machine.always (newServerBackend smallTables)
      messages).isSome = true)
    (hrun' : (Machine.exec (ledgerStep deadlyRuntime)
      Machine.always (newServerBackend smallTables, []) activities).isSome = true)
    (hend :
      let r := Machine.stateAfter (ledgerStep deadlyRuntime) Machine.always
        (newServerBackend smallTables, []) activities
      Machine.stateAfter (backendStep deadlyRuntime) Machine.always (newServerBackend smallTables)
          messages = r.1 ∧ r.1.battleFieldList = [] ∧
        tablesStorage.totalAt r.1.db (accountOf ⟨"a", 1⟩ r.2).place = some total ∧
        (accountOf ⟨"a", 1⟩ r.2).credit = credit) : LeadTo messages activities total credit := by
  obtain ⟨hr, hevents⟩ := Machine.run_after _ _ _ _ hrun
  obtain ⟨hr', hevents'⟩ := Machine.run_after _ _ _ _ hrun'
  obtain ⟨hsame, hend⟩ := hend
  rw [hsame] at hr
  exact ⟨_, _, _, _, hr.any, hevents, hr'.any, hevents', hend⟩

/-- The Pokemon wins two battles that were started at the same time, and gets one award; and it gets none
for a battle behind whose start it was given away. -/
theorem awards_lost :
    tablesStorage.totalAt smallTables ⟨"a", 1⟩ = some 0 ∧
    LeadTo
      [operate 2 0 "b", operate 2 0 "b", operate 1 1 "a", accept 2 "a" "b", accept 2 "a" "b",
        invite 1 "a" "b", login 2 "b", login 1 "a"]
      [act 3 1, act 2 1, act 3 0, act 2 0, .event (accept 2 "a" "b"), .event (accept 2 "a" "b"),
        .event (invite 1 "a" "b"), .event (login 2 "b"), .event (login 1 "a")] 1 2 ∧
    LeadTo
      [operate 2 0 "b", transfer 1 "a" "c", operate 1 1 "a", accept 2 "a" "b", invite 1 "a" "b",
        login 2 "b", login 1 "a"]
      [act 2 1, .event (transfer 1 "a" "c"), act 2 0, .event (accept 2 "a" "b"),
        .event (invite 1 "a" "b"), .event (login 2 "b"), .event (login 1 "a")] 0 1 :=
  ⟨by decide +kernel, leadTo_of_run _ _ _ _ (by decide +kernel) (by decide +kernel) (by decide +kernel),
    leadTo_of_run _ _ _ _ (by decide +kernel) (by decide +kernel) (by decide +kernel)⟩

end TermCollection.Pokemon
