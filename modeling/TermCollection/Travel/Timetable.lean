import Mathlib.Data.List.Dedup
import Mathlib.Data.List.Range
import TermCollection.Travel.Loading

/-!
# What the loaded timetable holds

The loops over the rows end where the tables say: every departure stands with the city of its station.
-/

namespace TermCollection.Travel

open Loading Hash

variable {table : List CityRow} {done : List ScheduleRow} {row : ScheduleRow} {l l' : Loaded} {tables : Tables}

/-! ## What the tables say -/

def CityRow.city (row : CityRow) : Loading.AbstractCity := ⟨row.CityID, row.CityDangerFactor, row.CityName⟩

/-- The row that a name stands for. -/
def cityNamed (table : List CityRow) (name : QString) : Option CityRow := lastWith CityRow.CityName table name

/-- The ID that a name stands for; that of a station that is no city is -1. -/
def idOf (table : List CityRow) (name : QString) : ℤ := ((cityNamed table name).map CityRow.CityID).getD (-1)

/-- The route of a row. -/
def ScheduleRow.route (table : List CityRow) (row : ScheduleRow) : Option Loading.AbstractRoute := do
  let start ← minutes row.StartH row.StartM
  let arrive ← minutes row.ArriveH row.ArriveM
  newRoute row.TransportationType (idOf table row.ToStation) start arrive row.TACNumber

/-- The times of the row are numbers, and the ID of its first station is an index of the vector. -/
structure ScheduleRow.Placed (table : List CityRow) (row : ScheduleRow) : Prop where
  route : (row.route table).isSome = true
  nonneg : 0 ≤ idOf table row.FromStation
  lt : idOf table row.FromStation < table.length

/-- The departures from the city with the ID, in the order of their rows. -/
def departures (table : List CityRow) (schedule : List ScheduleRow) (id : ℕ) : List Loading.AbstractRoute :=
  (schedule.filter fun row => idOf table row.FromStation = id).filterMap (ScheduleRow.route table)

/-- The rows have been loaded. -/
structure Loaded.Holds (l : Loaded) (table : List CityRow) (schedule : List ScheduleRow) : Prop where
  cityData : l.cityData.dataList = table
  scheduleData : l.scheduleData.dataList = schedule
  routeMap : l.absData.routeMap = (List.range table.length).map (departures table schedule)
  cityHash : ∀ name, l.absData.cityHash.lookup name =
    ((cityNamed table name).map CityRow.city).or
      (if name ∈ schedule.map ScheduleRow.ToStation then some noCity else none)
  cityIdHash : ∀ id, l.absData.cityIdHash.lookup id =
    (lastWith CityRow.CityID table id).map CityRow.city

/-- `cityNum`, the number of cities in the search. -/
def Loaded.cityNum (l : Loaded) : ℕ := l.absData.cityHash.entries.length

/-! ## The loop over the cities -/

theorem foldl_loadCity (rows : List CityRow) (l : Loaded) :
    (rows.foldl Loaded.loadCity l).cityData.dataList = l.cityData.dataList ++ rows ∧
      (rows.foldl Loaded.loadCity l).scheduleData = l.scheduleData ∧
      (rows.foldl Loaded.loadCity l).absData.routeMap = l.absData.routeMap ∧
      (rows.foldl Loaded.loadCity l).absData.cityHash =
        insertAll CityRow.CityName CityRow.city rows l.absData.cityHash ∧
      (rows.foldl Loaded.loadCity l).absData.cityIdHash =
        insertAll CityRow.CityID CityRow.city rows l.absData.cityIdHash := by
  induction rows generalizing l with
  | nil => simp [insertAll]
  | cons row rows ih =>
      obtain ⟨hcities, hschedule, hroutes, hhash, hids⟩ := ih (l.loadCity row)
      rw [List.foldl_cons]
      refine ⟨?_, hschedule, hroutes, hhash, hids⟩
      rw [hcities]
      simp [Loaded.loadCity]

theorem Loaded.Holds.loadCities (table : List CityRow) : (newLoaded.loadCities table).Holds table [] := by
  obtain ⟨hcities, hschedule, hroutes, hhash, hids⟩ := foldl_loadCity table newLoaded
  constructor
  case cityData => exact hcities.trans (List.nil_append _)
  case scheduleData => exact congrArg ListModel.dataList hschedule
  case routeMap =>
    have hnone : ∀ routes ∈ (List.range table.length).map (departures table []), routes = [] := by
      intro routes hroutes
      obtain ⟨id, -, rfl⟩ := List.mem_map.mp hroutes
      rfl
    simp only [Loaded.loadCities, Loaded.resizeRoutes, hroutes]
    rw [List.eq_replicate_of_mem hnone]
    simp [newLoaded]
  case cityHash =>
    intro name
    simp only [Loaded.loadCities, Loaded.resizeRoutes, hhash, lookup_insertAll]
    simp [newLoaded, cityNamed]
  case cityIdHash =>
    intro id
    simp only [Loaded.loadCities, Loaded.resizeRoutes, hids, lookup_insertAll]
    simp [newLoaded]

/-! ## The loop over the departures -/

namespace Loaded.Holds

/-- A name that was not read before stands for no city either. -/
theorem id_value (h : l.Holds table done) (name : QString) :
    (l.absData.cityHash.value noCity name).id = idOf table name := by
  rw [Hash.value, h.cityHash, idOf]
  cases cityNamed table name with
  | some city => rfl
  | none => by_cases hmem : name ∈ done.map ScheduleRow.ToStation <;> simp [hmem, noCity]

theorem id_touch (h : l.Holds table done) (key name : QString) :
    ((l.absData.cityHash.touch noCity key).value noCity name).id = idOf table name := by
  rw [← h.id_value, Hash.value, Hash.value, lookup_touch]
  cases l.absData.cityHash.lookup name with
  | some city => rfl
  | none => by_cases hname : name = key <;> simp [hname]

theorem loadRoute_isSome (h : l.Holds table done) :
    (l.loadRoute row).isSome = true ↔ row.Placed table := by
  have hlen : l.absData.routeMap.length = table.length := by rw [h.routeMap]; simp
  have hplaced : row.Placed table ↔ (row.route table).isSome = true ∧
      0 ≤ idOf table row.FromStation ∧ idOf table row.FromStation < table.length :=
    ⟨fun ⟨hroute, hpos, hlt⟩ => ⟨hroute, hpos, hlt⟩, fun ⟨hroute, hpos, hlt⟩ => ⟨hroute, hpos, hlt⟩⟩
  rw [hplaced, Loaded.loadRoute, ScheduleRow.route, h.id_value, h.id_touch, hlen]
  cases minutes row.StartH row.StartM with
  | none => simp
  | some start =>
      cases minutes row.ArriveH row.ArriveM with
      | none => simp
      | some arrive =>
          cases hroute : newRoute row.TransportationType (idOf table row.ToStation) start arrive row.TACNumber <;>
            simp [hroute]

/-- The new route comes behind the others of its city. -/
theorem departures_append {route : Loading.AbstractRoute} (hroute : row.route table = some route) (id : ℕ) :
    departures table (done ++ [row]) id =
      if id = (idOf table row.FromStation).toNat ∧ 0 ≤ idOf table row.FromStation then
        departures table done id ++ [route]
      else departures table done id := by
  rw [departures, List.filter_append, List.filterMap_append, ← departures]
  by_cases hid : idOf table row.FromStation = id
  · rw [List.filter_cons_of_pos (by simpa using hid), if_pos ⟨by omega, by omega⟩]
    simp [hroute]
  · rw [List.filter_cons_of_neg (by simpa using hid), if_neg (by omega)]
    simp

theorem loadRoute (h : l.Holds table done) (hl : l.loadRoute row = some l') :
    l'.Holds table (done ++ [row]) := by
  have hplaced : row.Placed table := by
    rw [← h.loadRoute_isSome, hl]
    rfl
  simp only [Loaded.loadRoute, Option.bind_eq_bind, Option.bind_eq_some_iff] at hl
  obtain ⟨start, hstart, arrive, harrive, route, hroute, hl⟩ := hl
  rw [h.id_touch] at hroute
  have hnew : row.route table = some route := by
    rw [ScheduleRow.route, hstart, harrive]
    exact hroute
  split at hl
  · cases hl
    constructor
    case cityData => exact h.cityData
    case scheduleData => rw [ListModel.dataList_append, h.scheduleData]
    case routeMap =>
      simp only [h.id_value, h.routeMap]
      refine List.ext_getElem? fun id => ?_
      rw [List.getElem?_modify, List.getElem?_map, List.getElem?_map]
      by_cases hlt : id < table.length
      · rw [List.getElem?_range hlt, Option.map_some, Option.map_some, Option.map_eq_map, Option.map_some,
          departures_append hnew]
        by_cases hid : (idOf table row.FromStation).toNat = id
        · simp [hid, hplaced.nonneg]
        · simp [hid, Ne.symm hid]
      · rw [List.getElem?_eq_none (by simpa using hlt)]
        rfl
    case cityHash =>
      intro name
      have hknown : (cityNamed table row.FromStation).isSome = true := by
        have hpos := hplaced.nonneg
        rw [idOf] at hpos
        cases hcity : cityNamed table row.FromStation with
        | some city => rfl
        | none => simp [hcity] at hpos
      simp only [lookup_touch, h.cityHash, List.map_append, List.map_cons, List.map_nil, List.mem_append,
        List.mem_singleton]
      cases hcity : cityNamed table name with
      | some city => simp
      | none =>
          have hfrom : name ≠ row.FromStation := by
            rintro rfl
            simp [hcity] at hknown
          simp only [Option.map_none, Option.none_or, if_neg hfrom, Option.or_none]
          by_cases hmem : name ∈ done.map ScheduleRow.ToStation
          · rw [if_pos hmem, Option.some_or, if_pos (Or.inl hmem)]
          · simp only [hmem, if_false, Option.none_or, false_or]
    case cityIdHash => exact h.cityIdHash
  · cases hl

end Loaded.Holds

/-! ## Both loops -/

theorem foldlM_loadRoute (h : l.Holds table done) (rows : List ScheduleRow) :
    ((rows.foldlM Loaded.loadRoute l).isSome = true ↔ ∀ row ∈ rows, row.Placed table) ∧
      ∀ l', rows.foldlM Loaded.loadRoute l = some l' → l'.Holds table (done ++ rows) := by
  induction rows generalizing l done with
  | nil =>
      refine ⟨by simp, fun l' hl => ?_⟩
      cases hl
      rwa [List.append_nil]
  | cons row rows ih =>
      rw [List.foldlM_cons, List.forall_mem_cons, ← h.loadRoute_isSome]
      cases hl : l.loadRoute row with
      | none => simp
      | some l₁ =>
          obtain ⟨hdefined, hholds⟩ := ih (h.loadRoute hl)
          rw [List.append_assoc, List.singleton_append] at hholds
          exact ⟨by simpa using hdefined, hholds⟩

theorem loadData_eq (tables : Tables) :
    loadData tables = tables.schedule.foldlM Loaded.loadRoute (newLoaded.loadCities tables.cities) := by
  rw [loadData, Tables.cities]
  cases tables.City <;> rfl

theorem loadData_isSome (tables : Tables) :
    (loadData tables).isSome = true ↔ ∀ row ∈ tables.schedule, row.Placed tables.cities := by
  rw [loadData_eq]
  exact (foldlM_loadRoute (Loaded.Holds.loadCities tables.cities) tables.schedule).1

theorem Loaded.Holds.loadData (h : loadData tables = some l) : l.Holds tables.cities tables.schedule := by
  rw [loadData_eq] at h
  exact (foldlM_loadRoute (Loaded.Holds.loadCities tables.cities) tables.schedule).2 l h

/-- The names of the cities, and of the stations that no city has. -/
theorem Loaded.Holds.isSome_lookup (h : l.Holds table done) (name : QString) :
    (l.absData.cityHash.lookup name).isSome = true ↔
      name ∈ table.map CityRow.CityName ++ done.map ScheduleRow.ToStation := by
  rw [h.cityHash, List.mem_append, ← isSome_lastWith CityRow.CityName, ← cityNamed]
  cases cityNamed table name with
  | some city => simp
  | none => by_cases hmem : name ∈ done.map ScheduleRow.ToStation <;> simp [hmem]

/-- Whatever the tables hold, the loading is defined just when the times of every departure are numbers and
its first station has an ID below the number of cities. Then the data are those of the tables, and a station
where a departure arrives counts as a city. -/
theorem loadData_exact (tables : Tables) :
    ((loadData tables).isSome = true ↔ ∀ row ∈ tables.schedule, row.Placed tables.cities) ∧
      ∀ l, loadData tables = some l → l.Holds tables.cities tables.schedule ∧
        l.absData.routeMap.length = tables.cities.length ∧
        l.cityNum = (tables.cities.map CityRow.CityName ++ tables.schedule.map ScheduleRow.ToStation).dedup.length := by
  refine ⟨loadData_isSome tables, fun l hl => ?_⟩
  have h := Loaded.Holds.loadData hl
  refine ⟨h, ?_, ?_⟩
  · rw [h.routeMap, List.length_map, List.length_range]
  · exact length_entries _ (List.nodup_dedup _) fun name => by rw [h.isSome_lookup, List.mem_dedup]

end TermCollection.Travel
