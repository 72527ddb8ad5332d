import Mathlib.Data.List.Perm.Basic
import TermCollection.Pokemon.Database
import TermCollection.Pokemon.FinishedBattles

/-!
# Trophies

The Pokemon that the loser of a duel is offered are drawn from the list of his user, to which the end of
the duel has just added the IDs of his table.
-/

namespace TermCollection.Pokemon

variable {naming : Naming} {δ : Type} {rt : Runtime δ} {s s' : ServerBackend δ} {out : List Sent}
variable {p l i n fuel : Nat} {battle : BattleField} {isUserA skillIndex : Int} {userName : QString}
variable {chance : Chance} {turnChance : TurnChance} {user : User} {ids : List Int} {id : Int} {r : Nat → Nat}

/-! ## Finished battles -/

/-- The server when a battle has ended, and the arguments of `slotGetBattleResult`. -/
structure Finish (δ : Type) where
  server : ServerBackend δ
  battle : BattleField
  winner : Option Nat
  chance : TurnChance

/-- What the loser of a duel is offered, and the IDs of his table at that moment. -/
structure Offer where
  selectIdList : List Int
  owned : List Int
  deriving DecidableEq

structure Offer.Honest (offer : Offer) : Prop where
  length : offer.selectIdList.length = min 3 offer.owned.length
  nodup : offer.selectIdList.Nodup
  owned : ∀ id ∈ offer.selectIdList, id ∈ offer.owned

/-- The list that is made in `slotGetBattleResult` for a loser. -/
def ServerBackend.offer (naming : Naming) (attack : Attack) (s : ServerBackend Database) (p : Nat)
    (r : Nat → Nat) : Option Offer := do
  let s ← battleOver (onDatabase naming attack) s p false
  let loser ← s.userAt p
  some ⟨selectTrophies r 3 loser.pokemonList, (s.db.rows (naming.key loser.name)).map (·.PKM_ID)⟩

namespace Finish

def result (rt : Runtime δ) (f : Finish δ) : Option (ServerBackend δ × List Sent) :=
  ServerBackend.slotGetBattleResult rt f.server f.battle f.winner f.chance

def loser (f : Finish δ) : Option Nat :=
  if f.winner = some f.battle.userA then f.battle.userB else some f.battle.userA

/-- The server when `slotGetBattleResult` comes to the loser of a duel. -/
def beforeLoser (rt : Runtime δ) (f : Finish δ) : Option (ServerBackend δ) := do
  let (s, _) ← f.server.finishFor f.loser .lose
  let s ← ServerBackend.awardWinner rt s f.battle f.winner f.chance
  let (s, _) ← s.finishFor f.winner .win
  match f.winner with
  | none => some s
  | some p => ServerBackend.battleOver rt s p true

/-- The user who has lost, before `battleLose`. -/
def losing (rt : Runtime δ) (f : Finish δ) : Option User := do
  let s ← f.beforeLoser rt
  s.userAt (← f.loser)

/-- What the loser is offered for the given draws. -/
def offer (naming : Naming) (attack : Attack) (f : Finish Database) (r : Nat → Nat) : Option Offer := do
  let s ← f.beforeLoser (onDatabase naming attack)
  s.offer naming attack (← f.loser) r

/-- The list of the user who has lost is empty, and his table is not the one of all users. -/
def Fresh (naming : Naming) (attack : Attack) (f : Finish Database) : Prop :=
  ∃ s user, f.beforeLoser (onDatabase naming attack) = some s ∧
    f.losing (onDatabase naming attack) = some user ∧
    user.pokemonList = [] ∧
      (userTableName (naming.key user.name) = "user_list" → s.db.tables.user_list = [])

end Finish

namespace ServerBackend

/-- The battle that an action ends. -/
def actionFinishes (rt : Runtime δ) (s : ServerBackend δ) (p : Nat) (skillIndex : Int) (userIndex : Nat)
    (chance : TurnChance) : List (Finish δ) :=
  match s.battleAt p with
  | none => []
  | some battle =>
      let turn := battle.setAction rt.attack skillIndex userIndex chance.attack
      match turn.winner with
      | none => []
      | some winner => [⟨s.setBattle turn.battle, turn.battle, winner, chance⟩]

/-- The battles that the actions of `operateA` end. -/
def finishesA (rt : Runtime δ) (s : ServerBackend δ) (battle : BattleField) (skillIndex : Int)
    (userName : QString) (chance : Chance) (i : Nat) : List (Finish δ) :=
  if s.nameAt (some battle.userA) = some userName then
    s.actionFinishes rt battle.ptr skillIndex 0 (chance.userTurn i) ++
      match s.setAction rt battle.ptr skillIndex 0 (chance.userTurn i) with
      | none => []
      | some (s, _) =>
          match s.battleAt battle.ptr with
          | none => []
          | some battle =>
              if battle.userB = none then
                s.actionFinishes rt battle.ptr (bounded (chance.serverAction i) 4) 1 (chance.serverTurn i)
              else []
  else []

def finishesB (rt : Runtime δ) (s : ServerBackend δ) (battle : BattleField) (skillIndex : Int)
    (userName : QString) (chance : Chance) (i : Nat) : List (Finish δ) :=
  if s.nameAt battle.userB = some userName then
    s.actionFinishes rt battle.ptr skillIndex 1 (chance.userTurn i)
  else []

def loopFinishes (rt : Runtime δ) (isUserA skillIndex : Int) (userName : QString) (chance : Chance) :
    Nat → Nat → ServerBackend δ → List (Finish δ)
  | 0, _, _ => []
  | fuel + 1, i, s =>
      match s.battleFieldList[i]? with
      | none => []
      | some battle =>
          (if isUserA ≠ 0 then finishesA rt s battle skillIndex userName chance i
            else finishesB rt s battle skillIndex userName chance i) ++
          match (if isUserA ≠ 0 then operateA rt s battle skillIndex userName chance i
            else operateB rt s battle skillIndex userName chance i) with
          | none => []
          | some (s, _) => loopFinishes rt isUserA skillIndex userName chance fuel (i + 1) s

/-- The battles that an event finishes. -/
def finishes (rt : Runtime δ) (s : ServerBackend δ) : Event → List (Finish δ)
  | .message _ (.battleOperation isUserA skillIndex userName) chance =>
      loopFinishes rt isUserA skillIndex userName chance s.battleFieldList.length 0 s
  | _ => []

/-! ## Results -/

theorem result_of_setAction {userIndex : Nat} {f : Finish δ}
    (h : s.setAction rt p skillIndex userIndex turnChance = some (s', out))
    (hf : f ∈ s.actionFinishes rt p skillIndex userIndex turnChance) : (f.result rt).isSome = true := by
  simp only [setAction, Option.bind_eq_bind, Option.bind_eq_some_iff] at h
  obtain ⟨battle, hbattle, infos, -, h⟩ := h
  rw [actionFinishes, hbattle] at hf
  cases hwinner : (battle.setAction rt.attack skillIndex userIndex turnChance.attack).winner with
  | none =>
      simp only [hwinner, List.not_mem_nil] at hf
  | some winner =>
      simp only [hwinner, Option.bind_eq_some_iff, Prod.exists] at h
      obtain ⟨s₁, out₁, h₁, -⟩ := h
      simp only [hwinner, List.mem_singleton] at hf
      rw [hf, Finish.result, h₁]
      rfl

theorem result_of_operateA {f : Finish δ}
    (h : operateA rt s battle skillIndex userName chance i = some (s', out))
    (hf : f ∈ finishesA rt s battle skillIndex userName chance i) : (f.result rt).isSome = true := by
  simp only [operateA, Option.bind_eq_bind, Option.bind_eq_some_iff] at h
  obtain ⟨userA, hA, h⟩ := h
  simp only [finishesA, nameAt_some hA, Option.some.injEq] at hf
  split at h
  · rename_i heq
    simp only [Option.bind_eq_some_iff, Prod.exists] at h
    obtain ⟨s₁, out₁, h₁, live, hlive, h⟩ := h
    simp only [heq, ↓reduceIte, h₁, hlive, List.mem_append] at hf
    rcases hf with hf | hf
    · exact result_of_setAction h₁ hf
    · split at hf
      · rename_i hserver
        simp only [hserver, ↓reduceIte, Option.bind_eq_some_iff, Prod.exists] at h
        obtain ⟨s₂, out₂, h₂, -⟩ := h
        exact result_of_setAction h₂ hf
      · cases hf
  · rename_i hne
    rw [if_neg hne] at hf
    cases hf

theorem result_of_operateB {f : Finish δ}
    (h : operateB rt s battle skillIndex userName chance i = some (s', out))
    (hf : f ∈ finishesB rt s battle skillIndex userName chance i) : (f.result rt).isSome = true := by
  simp only [operateB, Option.bind_eq_bind, Option.bind_eq_some_iff] at h
  obtain ⟨p, hp, userB, hB, h⟩ := h
  simp only [finishesB, hp, nameAt_some hB, Option.some.injEq] at hf
  split at h
  · rename_i heq
    rw [if_pos heq] at hf
    exact result_of_setAction h hf
  · rename_i hne
    rw [if_neg hne] at hf
    cases hf

theorem result_of_operationLoop {f : Finish δ}
    (h : operationLoop rt isUserA skillIndex userName chance fuel i s = some (s', out))
    (hf : f ∈ loopFinishes rt isUserA skillIndex userName chance fuel i s) :
    (f.result rt).isSome = true := by
  induction fuel generalizing i s s' out with
  | zero => cases hf
  | succ fuel ih =>
      simp only [operationLoop] at h
      simp only [loopFinishes] at hf
      cases hi : s.battleFieldList[i]? with
      | none =>
          rw [hi] at hf
          cases hf
      | some battle =>
          simp only [hi, Option.bind_eq_bind, Option.bind_eq_some_iff, Prod.exists] at h
          obtain ⟨s₁, out₁, h₁, s₂, out₂, h₂, -⟩ := h
          simp only [hi, h₁, List.mem_append] at hf
          rcases hf with hf | hf
          · split at hf
            · rename_i hside
              rw [if_pos hside] at h₁
              exact result_of_operateA h₁ hf
            · rename_i hside
              rw [if_neg hside] at h₁
              exact result_of_operateB h₁ hf
          · exact ih h₂ hf

/-- The battles that a step finishes come to their results. -/
theorem result_of_step {e : Event} {f : Finish δ} (h : backendStep rt s e = some (s', out))
    (hf : f ∈ finishes rt s e) : (f.result rt).isSome = true := by
  cases e with
  | userDisconnected client => cases hf
  | message client message chance =>
      cases message with
      | battleOperation isUserA skillIndex userName => exact result_of_operationLoop h hf
      | _ => cases hf

/-! ## Draws -/

theorem selectTrophies_of_lt (h : bounded (r n) ids.length < ids.length) :
    selectTrophies r (n + 1) ids =
      ids[bounded (r n) ids.length] :: selectTrophies r n (ids.eraseIdx (bounded (r n) ids.length)) := by
  rw [selectTrophies]
  simp only [List.getElem?_eq_getElem h]

theorem bounded_lt (hne : ids ≠ []) (k : Nat) : bounded k ids.length < ids.length :=
  Nat.mod_lt k (List.length_pos_of_ne_nil hne)

theorem selectTrophies_nil (r : Nat → Nat) (n : Nat) : selectTrophies r n [] = [] := by
  cases n <;> rfl

theorem selectTrophies_subperm (r : Nat → Nat) (n : Nat) (ids : List Int) :
    (selectTrophies r n ids).Subperm ids := by
  induction n generalizing ids with
  | zero => exact List.nil_subperm
  | succ n ih =>
      rcases eq_or_ne ids [] with rfl | hne
      · exact List.nil_subperm
      · have hlt := bounded_lt hne (r n)
        rw [selectTrophies_of_lt hlt]
        exact ((List.subperm_cons _).mpr (ih _)).trans (List.getElem_cons_eraseIdx_perm hlt).subperm

theorem length_selectTrophies (r : Nat → Nat) (n : Nat) (ids : List Int) :
    (selectTrophies r n ids).length = min n ids.length := by
  induction n generalizing ids with
  | zero => rw [selectTrophies, Nat.zero_min, List.length_nil]
  | succ n ih =>
      rcases eq_or_ne ids [] with rfl | hne
      · rw [selectTrophies_nil, List.length_nil, Nat.min_zero]
      · have hlt := bounded_lt hne (r n)
        rw [selectTrophies_of_lt hlt, List.length_cons, ih, List.length_eraseIdx_of_lt hlt]
        omega

/-- Draws from a list without doubles are honest. -/
theorem selectTrophies_honest (hnodup : ids.Nodup) (r : Nat → Nat) :
    Offer.Honest ⟨selectTrophies r 3 ids, ids⟩ := by
  have hsub := selectTrophies_subperm r 3 ids
  obtain ⟨drawn, hperm, hsublist⟩ := hsub
  exact ⟨length_selectTrophies r 3 ids, hperm.nodup_iff.mp (hnodup.sublist hsublist),
    fun id hid => (selectTrophies_subperm r 3 ids).subset hid⟩

/-- Some draws take the first entry of a list, and then any entry behind it. -/
theorem selectTrophies_pair {first : Int} {rest : List Int} (h : id ∈ rest) :
    ∃ r more, selectTrophies r 3 (first :: rest) = first :: id :: more := by
  obtain ⟨k, hk, rfl⟩ := List.getElem_of_mem h
  refine ⟨fun n => if n = 2 then 0 else k, ?_⟩
  have hsecond : bounded k rest.length = k := Nat.mod_eq_of_lt hk
  refine ⟨selectTrophies (fun n => if n = 2 then 0 else k) 1 (rest.eraseIdx k), ?_⟩
  rw [selectTrophies_of_lt (bounded_lt (List.cons_ne_nil _ _) _)]
  simp only [↓reduceIte, bounded, Nat.zero_mod, List.getElem_cons_zero, List.eraseIdx_zero, List.tail_cons]
  rw [selectTrophies_of_lt (by simpa [hsecond] using hk)]
  simp [hsecond]

/-! ## The loser -/

theorem offer_eq {attack : Attack} {s : ServerBackend Database} (h : s.userAt p = some user) (r : Nat → Nat) :
    s.offer naming attack p r = some ⟨selectTrophies r 3 (user.pokemonList ++
      (databaseStorage naming).selectPokemonIds
      ((databaseStorage naming).updateBattleTimes s.db user.name false) user.name),
      (s.db.rows (naming.key user.name)).map (·.PKM_ID)⟩ := by
  let s₁ : ServerBackend Database :=
    { s with db := (databaseStorage naming).updateBattleTimes s.db user.name false }
  have hold : s₁.userAt p = some user := h
  have hnew := userAt_map (s := s₁) (fun other => if other.ptr = p then
    { other with
      pokemonList := other.pokemonList ++ (databaseStorage naming).selectPokemonIds s₁.db other.name }
    else other) (fun other => by split <;> rfl) p
  rw [hold, Option.map_some, if_pos (userAt_spec h).2] at hnew
  have hover : battleOver (onDatabase naming attack) s p false =
      updateUserInfo (onDatabase naming attack) s₁ p := by
    rw [battleOver, h]
    rfl
  rw [offer, hover]
  simp only [updateUserInfo, modifyUser, hold, Option.bind_eq_bind, Option.bind_some, hnew]
  rfl

/-- All draws from a list, with what was added to it, are honest exactly if it is that of the table. -/
theorem draws_honest_iff {cached owned : List Int} (hkeys : owned.Nodup) (hown : ids = owned ∨ owned = []) :
    (∀ r, Offer.Honest ⟨selectTrophies r 3 (cached ++ ids), owned⟩) ↔ cached = [] ∧ ids = owned := by
  constructor
  · intro hall
    rcases hown with rfl | rfl
    · refine ⟨?_, rfl⟩
      cases cached with
      | nil => rfl
      | cons first rest =>
          exfalso
          by_cases hfirst : first ∈ ids
          · obtain ⟨r, more, hdrawn⟩ := selectTrophies_pair (List.mem_append_right rest hfirst)
            have hnodup := (hall r).nodup
            rw [show selectTrophies r 3 (first :: rest ++ ids) = _ from hdrawn] at hnodup
            exact (List.nodup_cons.mp hnodup).1 List.mem_cons_self
          · refine hfirst ((hall fun _ => 0).owned first ?_)
            rw [List.cons_append, selectTrophies_of_lt (bounded_lt (List.cons_ne_nil _ _) 0)]
            simp only [bounded, Nat.zero_mod, List.getElem_cons_zero]
            exact List.mem_cons_self
    · have hlength := (hall fun _ => 0).length
      rw [length_selectTrophies, List.length_append, List.length_nil] at hlength
      exact ⟨List.eq_nil_of_length_eq_zero (by omega), List.eq_nil_of_length_eq_zero (by omega)⟩
  · rintro ⟨rfl, rfl⟩ r
    exact selectTrophies_honest hkeys r

/-- All draws for a loser are honest exactly if his list was empty, and his table is his own. -/
theorem offer_honest_iff {attack : Attack} {s : ServerBackend Database} (h : s.userAt p = some user) :
    (∀ r, ∃ offer, s.offer naming attack p r = some offer ∧ offer.Honest) ↔ user.pokemonList = [] ∧
      (userTableName (naming.key user.name) = "user_list" → s.db.tables.user_list = []) := by
  simp only [offer_eq h, Option.some.injEq, exists_eq_left']
  obtain ⟨hown, hsame⟩ := Database.selectPokemonIds_rows naming
    ((databaseStorage naming).updateBattleTimes s.db user.name false) user.name
  have hlist : ((databaseStorage naming).updateBattleTimes s.db user.name false).tables.user_list = [] ↔
      s.db.tables.user_list = [] := List.map_eq_nil_iff
  rw [hlist] at hsame
  rw [← hsame]
  exact draws_honest_iff (s.db.rows_nodup (naming.key user.name)) hown

theorem pkmData_ids {db : δ} {infos : List PokemonInfo} (h : pkmData rt db userName ids = some infos) :
    infos.map (·.pkm.id) = ids := by
  induction ids generalizing infos with
  | nil =>
      cases h
      rfl
  | cons id ids ih =>
      simp only [pkmData, Option.bind_eq_bind, Option.bind_eq_some_iff] at h
      obtain ⟨pkm, hpkm, h⟩ := h
      split at h
      · cases h
      · simp only [Option.bind_eq_some_iff, Option.some.injEq] at h
        obtain ⟨rest, hrest, rfl⟩ := h
        simp only [createPokemon, Option.bind_eq_bind, Option.bind_eq_some_iff, Option.some.injEq] at hpkm
        obtain ⟨type, -, rfl⟩ := hpkm
        rw [List.map_cons, ih hrest]

/-- The list that is made is the one that the loser is sent. -/
theorem duelLost_offer {attack : Attack} {s s' : ServerBackend Database}
    (h : duelLost (onDatabase naming attack) s p turnChance = some (s', out)) :
    ∃ offer user infos, s.userAt p = some user ∧ s.offer naming attack p turnChance.trophies = some offer ∧
      infos.map (·.pkm.id) = offer.selectIdList ∧
      out = [⟨user.userSocket, .trophies user.name infos⟩] := by
  simp only [duelLost, Option.bind_eq_bind, Option.bind_eq_some_iff] at h
  obtain ⟨s₁, h₁, loser, hloser, out₁, hsent, h⟩ := h
  cases h
  have hentry := userAt_entry (entries_battleOver h₁).1 p
  rw [hloser] at hentry
  obtain ⟨user, huser, hsame⟩ := Option.map_eq_some_iff.mp hentry.symm
  simp only [procAndSendPkmData, sendTo, hloser, Option.bind_eq_bind, Option.bind_some,
    Option.bind_eq_some_iff, Option.some.injEq] at hsent
  obtain ⟨infos, hinfos, rfl⟩ := hsent
  refine ⟨⟨selectTrophies turnChance.trophies 3 loser.pokemonList,
    (s'.db.rows (naming.key loser.name)).map (·.PKM_ID)⟩, user, infos, huser, ?_, pkmData_ids hinfos, ?_⟩
  · simp only [offer, h₁, hloser, Option.bind_eq_bind, Option.bind_some]
  · rw [show user.userSocket = loser.userSocket from congrArg UserEntry.userSocket hsame,
      show user.name = loser.name from congrArg UserEntry.name hsame]

end ServerBackend

open ServerBackend

/-! ## Every run -/

/-- The result of a duel comes to its loser, and what is sent to him is the list that was made. -/
theorem Finish.sent {attack : Attack} {f : Finish Database}
    (h : (f.result (onDatabase naming attack)).isSome = true) (hduel : f.battle.mode = .duelBattle) (hloser : f.loser = some l) :
    ∃ s₁ user, f.beforeLoser (onDatabase naming attack) = some s₁ ∧ s₁.userAt l = some user ∧
      ∃ s' out offer infos, f.result (onDatabase naming attack) = some (s', out) ∧
        s₁.offer naming attack l f.chance.trophies = some offer ∧ infos.map (·.pkm.id) = offer.selectIdList ∧
        ⟨user.userSocket, .trophies user.name infos⟩ ∈ out := by
  obtain ⟨⟨s', out⟩, h⟩ := Option.isSome_iff_exists.mp h
  have hresult := h
  simp only [result, slotGetBattleResult, hduel, ↓reduceIte, Option.bind_eq_bind, Option.bind_eq_some_iff,
    Prod.exists] at h
  obtain ⟨s₁, out₁, h₁, s₂, h₂, s₃, out₃, h₃, s₄, out₄, h₄, h⟩ := h
  cases h
  rw [← Finish.loser, hloser] at h₁ h₄
  have hbefore : ∃ s₅, f.beforeLoser (onDatabase naming attack) = some s₅ ∧
      duelLost (onDatabase naming attack) s₅ l f.chance = some (s₄, out₄) := by
    simp only [beforeLoser, hloser, h₁, h₂, h₃, Option.bind_eq_bind, Option.bind_some]
    cases hwinner : f.winner with
    | none =>
        rw [hwinner] at h₄
        exact ⟨s₃, rfl, h₄⟩
    | some w =>
        simp only [hwinner, duelResult, Option.bind_eq_bind, Option.bind_eq_some_iff] at h₄
        exact h₄
  obtain ⟨s₅, h₅, hlost⟩ := hbefore
  obtain ⟨offer, user, infos, huser, hoffer, hids, rfl⟩ := duelLost_offer hlost
  exact ⟨s₅, user, h₅, huser, _, _, offer, infos, hresult, hoffer, hids,
    List.mem_append_right _ List.mem_cons_self⟩

/-- The server with the battles that it has finished. -/
abbrev recorded (naming : Naming) (attack : Attack) :
    Machine (ServerBackend Database × List (Finish Database)) Event Sent :=
  Machine.record (backendStep (onDatabase naming attack)) (finishes (onDatabase naming attack))

/-- In every run of the server, the duels that came to an end are recorded. All draws of Pokemon for the
loser of a duel are honest exactly if the list of his user was empty before the end of the duel. -/
theorem trophies_honest (naming : Naming) (attack : Attack) {db : Database} {s : ServerBackend Database}
    {finished : List (Finish Database)} {tr : List (Event × List Sent)}
    (h : (recorded naming attack).AnyRun
      (newServerBackend db, []) (s, finished) tr) {f : Finish Database} (hf : f ∈ finished)
    (hduel : f.battle.mode = .duelBattle) (hloser : f.loser = some l) :
    (∃ s' out offer infos, ∃ user : User, f.result (onDatabase naming attack) = some (s', out) ∧
        f.offer naming attack f.chance.trophies = some offer ∧ infos.map (·.pkm.id) = offer.selectIdList ∧
        ⟨user.userSocket, .trophies user.name infos⟩ ∈ out) ∧
      ((∀ r, ∃ offer, f.offer naming attack r = some offer ∧ offer.Honest) ↔ f.Fresh naming attack) := by
  have hresults := h.stateInvariant
    (I := fun state => ∀ f ∈ state.2, (f.result (onDatabase naming attack)).isSome = true)
    (fun f hf => by cases hf) fun state e state' out hI _ hs f hf => by
      obtain ⟨hstep, hnotes⟩ := Machine.record_eq_some.mp hs
      rw [hnotes] at hf
      rcases List.mem_append.mp hf with hf | hf
      · exact result_of_step hstep hf
      · exact hI f hf
  obtain ⟨s₁, user, hbefore, huser, s', out, offer, infos, hresult, hoffer, hids, hsent⟩ :=
    Finish.sent (hresults f hf) hduel hloser
  have hoffers : ∀ r, f.offer naming attack r = s₁.offer naming attack l r := by
    intro r
    simp only [Finish.offer, hbefore, hloser, Option.bind_eq_bind, Option.bind_some]
  have hlosing : f.losing (onDatabase naming attack) = some user := by
    simp only [Finish.losing, hbefore, hloser, huser, Option.bind_eq_bind, Option.bind_some]
  refine ⟨⟨s', out, offer, infos, user, hresult, (hoffers _).trans hoffer, hids, hsent⟩, ?_⟩
  simp only [hoffers, Finish.Fresh, hbefore, hlosing, Option.some.injEq, exists_and_left, exists_eq_left']
  exact offer_honest_iff huser

/-- Every attack takes all HP of the target. -/
def deadlyAttack : Attack := fun _ _ _ _ => ⟨{}, {}, 0, 100⟩

/-- The user `a` has two Pokemon, and the user `b` none. -/
def emptyHanded : Database :=
  let db := (serverDatabase foldedNaming smallTables.skill_list smallTables.pokemon_info).insertUser
    foldedNaming "b" ""
  (databaseStorage foldedNaming).insertPokemon
    (addUser foldedNaming (db.createUserTable foldedNaming "b") "a") "a" 1

/-- The user `b` gets a Pokemon after the login, and loses a duel with it. -/
def presentedDuel : List Event :=
  [operate 2 0 "b", operate 1 1 "a", accept 2 "a" "b", invite 1 "a" "b",
    .message 1 (.transferPokemon "a" "b" 2) noChance, login 2 "b", login 1 "a"]

theorem trophies_honest_example :
    ∃ s finished tr, (recorded foldedNaming deadlyAttack).AnyRun
        (newServerBackend emptyHanded, []) (s, finished) tr ∧ tr.map Prod.fst = presentedDuel ∧
      ∃ f ∈ finished, f.battle.mode = .duelBattle ∧ f.loser = some 1 ∧
        ∀ r, ∃ offer, f.offer foldedNaming deadlyAttack r = some offer ∧ offer.Honest := by
  obtain ⟨hrun, hevents⟩ := Machine.run_after
    (recorded foldedNaming deadlyAttack) Machine.always
    (newServerBackend emptyHanded, []) presentedDuel (by decide +kernel)
  have hlost : (Machine.stateAfter (recorded foldedNaming deadlyAttack)
      Machine.always (newServerBackend emptyHanded, []) presentedDuel).2.any (fun f =>
        f.battle.mode = .duelBattle && f.loser = some 1 &&
          (f.losing (onDatabase foldedNaming deadlyAttack)).any fun user =>
            user.pokemonList = [] && userTableName (foldedNaming.key user.name) ≠ "user_list") = true := by
    decide +kernel
  obtain ⟨f, hf, hlost⟩ := List.any_eq_true.mp hlost
  simp only [Bool.and_eq_true, decide_eq_true_eq, Option.any_eq_true] at hlost
  obtain ⟨⟨hduel, hloser⟩, user, huser, hempty, htable⟩ := hlost
  have hbefore := huser
  simp only [Finish.losing, Option.bind_eq_bind, Option.bind_eq_some_iff] at hbefore
  obtain ⟨s, hs, -⟩ := hbefore
  exact ⟨_, _, _, hrun.any, hevents, f, hf, hduel, hloser,
    (trophies_honest foldedNaming deadlyAttack hrun.any hf hduel hloser).2.mpr
      ⟨s, user, hs, huser, hempty, fun h => absurd h htable⟩⟩

/-- The only Pokemon of the user `b` is offered twice. -/
theorem trophy_offered_twice :
    ∃ s finished tr, (recorded foldedNaming deadlyAttack).AnyRun
        (newServerBackend smallDatabase, []) (s, finished) tr ∧
      tr.map Prod.fst = operate 2 0 "b" :: otherHalfTurn ∧
      ∃ f ∈ finished, f.battle.mode = .duelBattle ∧ f.loser = some 1 ∧
        f.offer foldedNaming deadlyAttack f.chance.trophies = some ⟨[1, 1], [1]⟩ ∧
        ¬ Offer.Honest ⟨[1, 1], [1]⟩ := by
  obtain ⟨hrun, hevents⟩ := Machine.run_after
    (recorded foldedNaming deadlyAttack) Machine.always
    (newServerBackend smallDatabase, []) (operate 2 0 "b" :: otherHalfTurn) (by decide +kernel)
  have hlost : (Machine.stateAfter (recorded foldedNaming deadlyAttack)
      Machine.always (newServerBackend smallDatabase, []) (operate 2 0 "b" :: otherHalfTurn)).2.any (fun f =>
        f.battle.mode = .duelBattle && f.loser = some 1 &&
          f.offer foldedNaming deadlyAttack f.chance.trophies = some ⟨[1, 1], [1]⟩) = true := by
    decide +kernel
  obtain ⟨f, hf, hlost⟩ := List.any_eq_true.mp hlost
  simp only [Bool.and_eq_true, decide_eq_true_eq] at hlost
  exact ⟨_, _, _, hrun.any, hevents, f, hf, hlost.1.1, hlost.1.2, hlost.2,
    fun h => absurd h.length (by decide)⟩

end TermCollection.Pokemon
