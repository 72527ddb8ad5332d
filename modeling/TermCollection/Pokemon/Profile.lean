import TermCollection.Lib.Rounding
import TermCollection.Pokemon.Database
import TermCollection.Pokemon.Lemmas.Battles

/-!
# The profile of a user (`User.cpp`, `slotRequestUserInfo`)

A user holds a copy of what a client can ask for: his Pokemon, his badges and his win rate.
-/

namespace TermCollection.Pokemon

variable {ρ σ : Type} {naming : Naming} {db : Database} {name : QString}

/-! ## Data types -/

inductive BadgeType where
  | bronze
  | silver
  | golden
  deriving DecidableEq

/-- The members of a user that `updateUserInfo` sets. A win rate is the value of the double, if it is a
number. -/
structure Profile where
  name : QString
  winRate : Option ℚ
  countBadge : BadgeType
  qualityBadge : BadgeType
  pokemonList : List Int
  deriving DecidableEq

inductive UserInfoResponseStatus where
  | success
  | userNotExist
  deriving DecidableEq

structure UserInfoResponse where
  userName : QString := ""
  timeOfDuel : Int := 0
  timeOfWins : Int := 0
  winRate : ℚ := 0
  pkmAmountBadge : BadgeType := .bronze
  highLevelBadge : BadgeType := .bronze
  pokemonId : List Int := []
  resStatus : UserInfoResponseStatus := .success
  deriving DecidableEq

/-! ## Statements -/

/-- A prepared statement: the number of its question marks, and its rows for the values in their places. -/
structure Statement (ρ : Type) where
  marks : Nat
  rows : Database → List QString → List ρ

/-- A statement that does not get a value for each of its question marks fails. -/
def transaction (db : Database) (queryStat : Statement ρ) (process : σ → ρ → σ) (s : σ)
    (args : List QString) : σ :=
  if args.length = queryStat.marks then (queryStat.rows db args).foldl process s else s

/-- `SELECT TOTAL_BATTLE_TIME, WINNER_TIME FROM user_list WHERE USERNAME=?`. -/
def selectBattleTimes (naming : Naming) : Statement (Int × Int) where
  marks := 1
  rows := fun db args =>
    (db.tables.user_list.filter fun row => args.map naming.key = [naming.key row.USERNAME]).map fun row =>
      (row.TOTAL_BATTLE_TIME, row.WINNER_TIME)

/-- The first column of `SELECT *`. -/
def selectFirst (naming : Naming) (name : QString) : Statement Int where
  marks := 0
  rows := fun db _ => (databaseStorage naming).selectPokemonIds db name

/-- `SELECT PKM_ID, PKM_LEVEL`. -/
def selectRows (naming : Naming) (name : QString) : Statement PokemonRow where
  marks := 0
  rows := fun db _ => db.rows (naming.key name)

/-- `SELECT count(*)` of the rows with `PKM_LEVEL=15`. -/
def countHighLevel (naming : Naming) (name : QString) : Statement Int where
  marks := 0
  rows := fun db _ =>
    if naming.key name ∈ db.tables.names then
      [((db.rows (naming.key name)).countP (·.PKM_LEVEL = 15) : Int)]
    else []

/-! ## The two computations -/

/-- A value as a double. -/
def double (q : ℚ) : ℚ := if q < 0 then -roundBits 53 (-q) else roundBits 53 q

/-- The quotient of two integers as doubles. -/
def quotient (a b : Int) : Option ℚ := if b = 0 then none else some (double (a / b))

def badge (golden silver cnt : Int) : BadgeType :=
  if golden ≤ cnt then .golden else if silver ≤ cnt then .silver else .bronze

namespace Profile

def updateUserInfo (naming : Naming) (user : Profile) (db : Database) : Profile :=
  let user := transaction db (selectBattleTimes naming)
    (fun user row => { user with winRate := quotient row.2 row.1 }) user []
  let user := transaction db (selectFirst naming user.name)
    (fun user id => { user with pokemonList := user.pokemonList ++ [id] }) user []
  let user := { user with countBadge := badge 15 7 user.pokemonList.length }
  let highLevelCnt := transaction db (countHighLevel naming user.name) (fun _ cnt => cnt) 0 []
  { user with qualityBadge := badge 10 5 highLevelCnt }

/-- A user before the calls of `updateUserInfo`, the first of which is that of the constructor. -/
def afterCalls (naming : Naming) (uninit : Profile) (dbs : List Database) : Profile :=
  dbs.foldl (updateUserInfo naming) { uninit with pokemonList := [] }

end Profile

/-- `std::floor(10000.f * wins / battles + 0.5) / 10000.f`. -/
def reportedRate (wins battles : Int) : ℚ :=
  double (⌊double (double (double (10000 * wins) / battles) + 1 / 2)⌋ / 10000)

def slotRequestUserInfo (naming : Naming) (db : Database) (userName : QString) : UserInfoResponse :=
  let (pkmIdList, pkmCount, highLevelPkmCnt) := transaction db (selectRows naming userName)
    (fun (s : List Int × Int × Int) row =>
      (s.1 ++ [row.PKM_ID], s.2.1 + 1, if row.PKM_LEVEL = 15 then s.2.2 + 1 else s.2.2))
    ([], 0, 0) []
  let (totalBattleTime, totalWinnerTime) :=
    transaction db (selectBattleTimes naming) (fun _ row => row) (-1, -1) [userName]
  if totalBattleTime = -1 ∨ totalWinnerTime = -1 ∨ pkmIdList.length = 0 then
    { resStatus := .userNotExist }
  else
    { userName := userName
      timeOfDuel := totalBattleTime
      timeOfWins := totalWinnerTime
      winRate := if totalBattleTime = 0 then 0 else reportedRate totalWinnerTime totalBattleTime
      pkmAmountBadge := badge 20 10 pkmCount
      highLevelBadge := badge 10 5 highLevelPkmCnt
      pokemonId := pkmIdList
      resStatus := .success }

/-- The profile is that of the database: the badges are those that a client gets, if it gets any. -/
structure Profile.UpToDate (naming : Naming) (db : Database) (user : Profile) : Prop where
  once : ∀ row ∈ db.rows (naming.key user.name), user.pokemonList.count row.PKM_ID = 1
  owned : ∀ id ∈ user.pokemonList, ∃ row ∈ db.rows (naming.key user.name), row.PKM_ID = id
  badges : (slotRequestUserInfo naming db user.name).resStatus = .success →
    user.countBadge = (slotRequestUserInfo naming db user.name).pkmAmountBadge ∧
      user.qualityBadge = (slotRequestUserInfo naming db user.name).highLevelBadge
  winRate : ∀ row ∈ db.tables.user_list, naming.key row.USERNAME = naming.key user.name →
    0 < row.TOTAL_BATTLE_TIME → user.winRate = quotient row.WINNER_TIME row.TOTAL_BATTLE_TIME

/-! ## What the computations give -/

theorem countP_rows_of_not_mem (h : name ∉ db.tables.names) :
    (db.rows name).countP (·.PKM_LEVEL = 15) = 0 := by rw [Database.rows_of_not_mem h, List.countP_nil]

theorem transaction_countHighLevel : transaction db (countHighLevel naming name) (fun _ cnt => cnt) 0 [] =
    ((db.rows (naming.key name)).countP (·.PKM_LEVEL = 15) : Int) := by
  simp only [transaction, countHighLevel, List.length_nil, ↓reduceIte]
  split
  · rfl
  · rw [countP_rows_of_not_mem ‹_›]
    rfl

/-- A call adds to the list, and does not find the row with the win rate. -/
theorem Profile.updateUserInfo_eq (naming : Naming) (user : Profile) (db : Database) :
    user.updateUserInfo naming db =
    let pokemonList := user.pokemonList ++ (databaseStorage naming).selectPokemonIds db user.name
    { user with
      countBadge := badge 15 7 pokemonList.length
      qualityBadge := badge 10 5 ((db.rows (naming.key user.name)).countP (·.PKM_LEVEL = 15))
      pokemonList := pokemonList } := by
  have happend : ∀ (ids : List Int) (user : Profile),
      ids.foldl (fun user id => { user with pokemonList := user.pokemonList ++ [id] }) user =
        { user with pokemonList := user.pokemonList ++ ids } := by
    intro ids
    induction ids with
    | nil => intro user; rw [List.foldl_nil, List.append_nil]
    | cons id ids ih =>
        intro user
        rw [List.foldl_cons, ih, List.append_assoc, List.singleton_append]
  have hrate : transaction db (selectBattleTimes naming)
      (fun (user : Profile) row => { user with winRate := quotient row.2 row.1 }) user [] = user := rfl
  have hlist : transaction db (selectFirst naming user.name)
      (fun (user : Profile) id => { user with pokemonList := user.pokemonList ++ [id] }) user [] =
        { user with
          pokemonList := user.pokemonList ++ (databaseStorage naming).selectPokemonIds db user.name } :=
    happend _ _
  simp only [updateUserInfo, hrate, hlist, transaction_countHighLevel]

/-- The list of the profile is the one that the server keeps for a user. -/
theorem Profile.updateUserInfo_server {attack : Attack} {s s' : ServerBackend Database} {p : Nat}
    {entry : User} {user : Profile}
    (h : s.updateUserInfo (onDatabase naming attack) p = some s') (hentry : s.userAt p = some entry)
    (hname : user.name = entry.name) (hlist : user.pokemonList = entry.pokemonList) :
    (s'.userAt p).map (·.pokemonList) = some (user.updateUserInfo naming s.db).pokemonList := by
  obtain ⟨-, rfl⟩ := ServerBackend.modifyUser_eq_some h
  rw [ServerBackend.userAt_map _ (fun other => by split <;> rfl), hentry, updateUserInfo_eq, Option.map_some,
    Option.map_some, if_pos (ServerBackend.userAt_spec hentry).2, hname, hlist]

theorem Profile.afterCalls_spec (naming : Naming) (uninit : Profile) (dbs : List Database) :
    (uninit.afterCalls naming dbs).name = uninit.name ∧
      (uninit.afterCalls naming dbs).winRate = uninit.winRate ∧
      (uninit.afterCalls naming dbs).pokemonList =
        dbs.flatMap fun db => (databaseStorage naming).selectPokemonIds db uninit.name := by
  have hcalls : ∀ (dbs : List Database) (user : Profile),
      (dbs.foldl (updateUserInfo naming) user).name = user.name ∧
        (dbs.foldl (updateUserInfo naming) user).winRate = user.winRate ∧
        (dbs.foldl (updateUserInfo naming) user).pokemonList =
          user.pokemonList ++ dbs.flatMap fun db => (databaseStorage naming).selectPokemonIds db user.name := by
    intro dbs
    induction dbs with
    | nil => exact fun user => ⟨rfl, rfl, (List.append_nil _).symm⟩
    | cons db dbs ih =>
        intro user
        obtain ⟨hname, hrate, hlist⟩ := ih (user.updateUserInfo naming db)
        rw [updateUserInfo_eq] at hname hrate hlist
        rw [List.foldl_cons, updateUserInfo_eq, hname, hrate, hlist, List.flatMap_cons, List.append_assoc]
        exact ⟨rfl, rfl, rfl⟩
  exact hcalls dbs { uninit with pokemonList := [] }

/-- The badges that a client gets. -/
theorem slotRequestUserInfo_badges (h : (slotRequestUserInfo naming db name).resStatus = .success) :
    db.rows (naming.key name) ≠ [] ∧
      (slotRequestUserInfo naming db name).pkmAmountBadge = badge 20 10 (db.rows (naming.key name)).length ∧
      (slotRequestUserInfo naming db name).highLevelBadge =
        badge 10 5 ((db.rows (naming.key name)).countP (·.PKM_LEVEL = 15)) := by
  have hfold : ∀ (rows : List PokemonRow) (s : List Int × Int × Int),
      rows.foldl (fun (s : List Int × Int × Int) row =>
        (s.1 ++ [row.PKM_ID], s.2.1 + 1, if row.PKM_LEVEL = 15 then s.2.2 + 1 else s.2.2)) s =
      (s.1 ++ rows.map (·.PKM_ID), s.2.1 + rows.length, s.2.2 + rows.countP (·.PKM_LEVEL = 15)) := by
    intro rows
    induction rows with
    | nil => intro s; simp
    | cons row rows ih =>
        intro s
        rw [List.foldl_cons, ih, List.countP_cons]
        by_cases hlevel : row.PKM_LEVEL = 15 <;> simp [hlevel] <;> omega
  have hrows : transaction db (selectRows naming name) (fun (s : List Int × Int × Int) row =>
      (s.1 ++ [row.PKM_ID], s.2.1 + 1, if row.PKM_LEVEL = 15 then s.2.2 + 1 else s.2.2)) ([], 0, 0) [] =
        ((db.rows (naming.key name)).map (·.PKM_ID), ((db.rows (naming.key name)).length : Int),
          ((db.rows (naming.key name)).countP (·.PKM_LEVEL = 15) : Int)) := by
    refine (hfold (db.rows (naming.key name)) ([], 0, 0)).trans ?_
    simp only [List.nil_append, Int.zero_add]
  simp only [slotRequestUserInfo, hrows] at h ⊢
  split at h
  · cases h
  · rename_i hexists
    rw [if_neg hexists]
    refine ⟨fun hnil => hexists (.inr (.inr ?_)), rfl, rfl⟩
    rw [hnil]
    rfl

/-! ## The condition -/

/-- The list of the table, each ID once, is the one that nothing stood in before. -/
theorem once_and_owned_iff {cached ids owned : List Int} (hnodup : owned.Nodup)
    (hown : ids = owned ∨ owned = []) :
    ((∀ id ∈ owned, (cached ++ ids).count id = 1) ∧ ∀ id ∈ cached ++ ids, id ∈ owned) ↔
      cached = [] ∧ ids = owned := by
  constructor
  · rintro ⟨honce, hin⟩
    rcases hown with rfl | rfl
    · refine ⟨List.eq_nil_iff_forall_not_mem.mpr fun id hid => ?_, rfl⟩
      have hmem := hin id (List.mem_append_left _ hid)
      have hcount := honce id hmem
      rw [List.count_append] at hcount
      have hcached := List.count_pos_iff.mpr hid
      have htable := List.count_pos_iff.mpr hmem
      omega
    · have hnone : cached ++ ids = [] :=
        List.eq_nil_iff_forall_not_mem.mpr fun id hid => List.not_mem_nil (hin id hid)
      exact List.append_eq_nil_iff.mp hnone
  · rintro ⟨rfl, rfl⟩
    exact ⟨fun id hid => List.count_eq_one_of_mem hnodup hid, fun id hid => hid⟩

theorem badge_eq_iff (n : Nat) : badge 15 7 n = badge 20 10 n ↔ n < 7 ∨ 10 ≤ n ∧ n < 15 ∨ 20 ≤ n := by
  grind [badge]

/-- After any number of calls, the profile is that of the database exactly if there was no Pokemon at the
calls before, the numbers of Pokemon for the badges of the two sides agree, and the win rate, which no call
sets, is not needed. -/
theorem profile_up_to_date (naming : Naming) (uninit : Profile) (dbs : List Database) (db : Database) :
    ((uninit.afterCalls naming dbs).updateUserInfo naming db).UpToDate naming db ↔
      (∀ old ∈ dbs, (databaseStorage naming).selectPokemonIds old uninit.name = []) ∧
      (userTableName (naming.key uninit.name) = "user_list" → db.tables.user_list = []) ∧
      ((slotRequestUserInfo naming db uninit.name).resStatus = .success →
        let n := (db.rows (naming.key uninit.name)).length
        n < 7 ∨ 10 ≤ n ∧ n < 15 ∨ 20 ≤ n) ∧
      ∀ row ∈ db.tables.user_list, naming.key row.USERNAME = naming.key uninit.name →
        0 < row.TOTAL_BATTLE_TIME → uninit.winRate = quotient row.WINNER_TIME row.TOTAL_BATTLE_TIME := by
  obtain ⟨hname, hrate, hlist⟩ := uninit.afterCalls_spec naming dbs
  obtain ⟨hown, hsame⟩ := Database.selectPokemonIds_rows naming db uninit.name
  have hids : _ ↔ (dbs.flatMap fun db => (databaseStorage naming).selectPokemonIds db uninit.name) = [] ∧ _ :=
    once_and_owned_iff (db.rows_nodup (naming.key uninit.name)) hown
  rw [hsame, List.flatMap_eq_nil_iff] at hids
  have hlength : (∀ old ∈ dbs, (databaseStorage naming).selectPokemonIds old uninit.name = []) →
      (userTableName (naming.key uninit.name) = "user_list" → db.tables.user_list = []) →
        ((dbs.flatMap fun db => (databaseStorage naming).selectPokemonIds db uninit.name) ++
          (databaseStorage naming).selectPokemonIds db uninit.name).length =
            (db.rows (naming.key uninit.name)).length := by
    intro holds htable
    rw [List.flatMap_eq_nil_iff.mpr holds, hsame.mpr htable, List.nil_append, List.length_map]
  rw [Profile.updateUserInfo_eq, hname, hlist]
  constructor
  · intro h
    have hlists := hids.mp ⟨fun id hid => by
        obtain ⟨row, hrow, rfl⟩ := List.mem_map.mp hid
        exact h.once row hrow, fun id hid => by
        obtain ⟨row, hrow, rfl⟩ := h.owned id hid
        exact List.mem_map_of_mem hrow⟩
    obtain ⟨holds, htable⟩ := hlists
    refine ⟨holds, htable, fun hsuccess => ?_, fun row hrow huser htotal => ?_⟩
    · have hbadge := (h.badges hsuccess).1
      simp only [hlength holds htable, (slotRequestUserInfo_badges hsuccess).2.1] at hbadge
      exact (badge_eq_iff _).mp hbadge
    · exact hrate.symm.trans (h.winRate row hrow huser htotal)
  · rintro ⟨holds, htable, hband, hwin⟩
    obtain ⟨honce, hin⟩ := hids.mpr ⟨holds, htable⟩
    constructor
    case once => exact fun row hrow => honce _ (List.mem_map_of_mem hrow)
    case owned =>
      intro id hid
      obtain ⟨row, hrow, hrowid⟩ := List.mem_map.mp (hin id hid)
      exact ⟨row, hrow, hrowid⟩
    case badges =>
      intro hsuccess
      obtain ⟨-, hcount, hlevel⟩ := slotRequestUserInfo_badges hsuccess
      simp only [hcount, hlevel, hlength holds htable, and_true]
      exact (badge_eq_iff _).mpr (hband hsuccess)
    case winRate => exact fun row hrow huser htotal => hrate.trans (hwin row hrow huser htotal)

/-- The user `a` logs in with one Pokemon, and wins a duel: it is in the list twice, and the win rate was
not set. -/
theorem pokemon_cached_twice :
    let user : Profile := ⟨"a", none, .bronze, .bronze, []⟩
    let db := (databaseStorage foldedNaming).updateBattleTimes smallDatabase "a" true
    let user := (user.afterCalls foldedNaming [smallDatabase]).updateUserInfo foldedNaming db
    (db.rows "a").map (·.PKM_ID) = [1] ∧ user.pokemonList = [1, 1] ∧ user.winRate = none ∧
      ¬ user.UpToDate foldedNaming db := by
  intro user db user'
  have hrows : (db.rows "a").map (·.PKM_ID) = [1] := by decide +kernel
  have hlist : user'.pokemonList = [1, 1] := by decide +kernel
  have hkey : foldedNaming.key user'.name = "a" := by decide +kernel
  refine ⟨hrows, hlist, by decide +kernel, fun h => ?_⟩
  obtain ⟨row, hrow, hid⟩ := List.mem_map.mp (hrows.symm ▸ List.mem_singleton_self 1)
  have honce := h.once row (hkey.symm ▸ hrow)
  rw [hlist, hid] at honce
  exact absurd honce (by decide)

end TermCollection.Pokemon
