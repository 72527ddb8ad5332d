import TermCollection.Travel.Itineraries
import TermCollection.Travel.Timetable

/-!
# The rides of the tables

The search runs on the timetable that was loaded from the tables. Whatever route it outputs, the customer can
ride it by the rows of `Schedule`.
-/

namespace TermCollection.Travel

open Hash

/-! ## The timetable of the search -/

/-- The values of `TransType`. -/
def TransType.code : TransType → ℤ
  | airplane => 0
  | train => 1
  | car => 2

def TransType.ofCode (code : ℤ) : Option TransType :=
  if code = 0 then some airplane
  else if code = 1 then some train
  else if code = 2 then some car
  else none

theorem TransType.code_of_ofCode {code : ℤ} {type : TransType} (h : ofCode code = some type) :
    type.code = code := by
  unfold ofCode at h
  split at h
  · cases h
    simp [TransType.code, *]
  · split at h
    · cases h
      simp [TransType.code, *]
    · split at h
      · cases h
        simp [TransType.code, *]
      · cases h

theorem TransType.ofCode_isSome {code : ℤ} (h : 0 ≤ code ∧ code ≤ 2) : (ofCode code).isSome = true := by
  unfold ofCode
  split
  · rfl
  · split
    · rfl
    · rw [if_pos (by omega)]
      rfl

namespace Loading

/-- A route whose numbers the search can use. -/
def AbstractRoute.typed (n : ℕ) (r : AbstractRoute) : Option (Travel.AbstractRoute n) := do
  let vehicleType ← TransType.ofCode r.vehicleType
  if h : (0 ≤ r.destCity ∧ r.destCity < n) ∧ 0 ≤ r.startTime ∧ 0 ≤ r.costTime then
    some ⟨vehicleType, ⟨r.destCity.toNat, by omega⟩, r.startTime.toNat, r.costTime.toNat, r.serialNum⟩
  else none

def AbstractCity.typed (city : AbstractCity) : Option Travel.AbstractCity :=
  if h : 0 ≤ city.factor then some ⟨city.factor, city.name, h⟩ else none

namespace AbstractData

variable (a : AbstractData) (n : ℕ)

/-- `m_cityIdHash[id]`, of an ID that is there. -/
def city (id : Fin n) : Option Travel.AbstractCity := (a.cityIdHash.lookup (id : ℤ)).bind AbstractCity.typed

def routes (id : Fin n) : Option (List (Travel.AbstractRoute n)) :=
  a.routeMap[id.val]?.bind fun routes => routes.mapM (AbstractRoute.typed n)

/-- The timetable, when the search finds a city and routes for each of its IDs. -/
def typed : Option (Travel.AbstractData n) :=
  if h : ∀ id : Fin n, (a.city n id).isSome = true ∧ (a.routes n id).isSome = true then
    some ⟨fun id => (a.city n id).get (h id).1, fun id => (a.routes n id).get (h id).2⟩
  else none

end AbstractData

end Loading

/-! ## Tables in order -/

/-- In minutes. -/
def ScheduleRow.startTime (row : ScheduleRow) : ℤ := row.StartH * 60 + row.StartM

/-- In minutes from the midnight before the start. -/
def ScheduleRow.arriveTime (row : ScheduleRow) : ℤ := row.ArriveH * 60 + row.ArriveM

/-- A departure between two cities at a time of the day, which arrives after its start. -/
structure ScheduleRow.WellFormed (table : List CityRow) (row : ScheduleRow) : Prop where
  fromStation : row.FromStation ∈ table.map CityRow.CityName
  toStation : row.ToStation ∈ table.map CityRow.CityName
  type : 0 ≤ row.TransportationType ∧ row.TransportationType ≤ 2
  start : (0 ≤ row.StartH ∧ row.StartH < 24) ∧ 0 ≤ row.StartM ∧ row.StartM < 60
  arrive : 0 ≤ row.ArriveH ∧ 0 ≤ row.ArriveM
  ordered : row.startTime ≤ row.arriveTime
  fits : row.arriveTime < 2 ^ 31

/-- The IDs of the cities are the numbers below their count, and no two cities share a name. -/
structure Tables.WellFormed (tables : Tables) : Prop where
  ids : (tables.cities.map CityRow.CityID).Perm ((List.range tables.cities.length).map Nat.cast)
  names : (tables.cities.map CityRow.CityName).Nodup
  factors : ∀ city ∈ tables.cities, 0 ≤ city.CityDangerFactor
  schedule : ∀ row ∈ tables.schedule, row.WellFormed tables.cities

namespace Tables.WellFormed

variable {tables : Tables} {city : CityRow} {row : ScheduleRow} {name : QString} {l : Loaded}

theorem nodup_ids (h : tables.WellFormed) : (tables.cities.map CityRow.CityID).Nodup := by
  rw [h.ids.nodup_iff]
  exact List.nodup_range.map Nat.cast_injective

theorem id_lt (h : tables.WellFormed) (hcity : city ∈ tables.cities) :
    0 ≤ city.CityID ∧ city.CityID < tables.cities.length := by
  have hmem := h.ids.subset (List.mem_map_of_mem hcity)
  obtain ⟨id, hid, heq⟩ := List.mem_map.mp hmem
  have hlt := List.mem_range.mp hid
  omega

/-- Every number below the count is the ID of one city. -/
theorem city_of_id (h : tables.WellFormed) (id : Fin tables.cities.length) :
    ∃ city ∈ tables.cities, city.CityID = id ∧ lastWith CityRow.CityID tables.cities id = some city := by
  have hmem : (id : ℤ) ∈ tables.cities.map CityRow.CityID :=
    h.ids.symm.subset (List.mem_map_of_mem (List.mem_range.mpr id.isLt))
  obtain ⟨city, hcity, hid⟩ := List.mem_map.mp hmem
  exact ⟨city, hcity, hid, hid ▸ lastWith_of_nodup h.nodup_ids hcity⟩

theorem city_of_name (h : tables.WellFormed) (hname : name ∈ tables.cities.map CityRow.CityName) :
    ∃ city ∈ tables.cities, city.CityName = name ∧ cityNamed tables.cities name = some city ∧
      idOf tables.cities name = city.CityID := by
  obtain ⟨city, hcity, rfl⟩ := List.mem_map.mp hname
  have hnamed : cityNamed tables.cities city.CityName = some city := lastWith_of_nodup h.names hcity
  exact ⟨city, hcity, rfl, hnamed, by rw [idOf, hnamed]; rfl⟩

end Tables.WellFormed

/-! ## One departure -/

namespace ScheduleRow.WellFormed

variable {tables : Tables} {row : ScheduleRow} {n : ℕ}

theorem minutes_eq {hour minute : ℤ} (hh : 0 ≤ hour) (hm : 0 ≤ minute) (hfits : hour * 60 + minute < 2 ^ 31) :
    Loading.minutes hour minute = some (hour * 60 + minute) := by
  rw [Loading.minutes, Loading.int, if_pos (by omega), Option.bind_eq_bind, Option.bind_some, Loading.int,
    if_pos (by omega)]

theorem route_eq {table : List CityRow} (h : row.WellFormed table) : row.route table = some
    ⟨row.TransportationType, idOf table row.ToStation, row.startTime, row.arriveTime - row.startTime,
      row.TACNumber⟩ := by
  obtain ⟨⟨hh, hh'⟩, hm, hm'⟩ := h.start
  have hordered := h.ordered
  have hfits := h.fits
  rw [ScheduleRow.startTime, ScheduleRow.arriveTime] at hordered
  rw [ScheduleRow.arriveTime] at hfits
  rw [ScheduleRow.route, minutes_eq hh hm (by omega), minutes_eq h.arrive.1 h.arrive.2 hfits,
    Option.bind_eq_bind, Option.bind_some, Option.bind_some, Loading.newRoute, Loading.int, if_pos (by omega)]
  rfl

theorem placed (h : row.WellFormed tables.cities) (htables : tables.WellFormed) : row.Placed tables.cities := by
  obtain ⟨city, hcity, -, -, hid⟩ := htables.city_of_name h.fromStation
  obtain ⟨hpos, hlt⟩ := htables.id_lt hcity
  rw [← hid] at hpos hlt
  exact ⟨by rw [h.route_eq]; rfl, hpos, hlt⟩

/-- The route as the search uses it. -/
theorem typed (h : row.WellFormed tables.cities) (htables : tables.WellFormed) :
    ∃ raw route, row.route tables.cities = some raw ∧ raw.typed tables.cities.length = some route ∧
      (route.destCity : ℤ) = idOf tables.cities row.ToStation ∧
      route.vehicleType.code = row.TransportationType ∧ (route.startTime : ℤ) = row.startTime ∧
      (route.costTime : ℤ) = row.arriveTime - row.startTime ∧ route.serialNum = row.TACNumber := by
  obtain ⟨city, hcity, -, -, hid⟩ := htables.city_of_name h.toStation
  obtain ⟨hpos, hlt⟩ := htables.id_lt hcity
  obtain ⟨type, htype⟩ := Option.isSome_iff_exists.mp (TransType.ofCode_isSome h.type)
  obtain ⟨⟨hh, -⟩, hm, -⟩ := h.start
  have hordered := h.ordered
  have hstart : 0 ≤ row.startTime := by
    rw [ScheduleRow.startTime]
    omega
  rw [← hid] at hpos hlt
  refine ⟨_, ⟨type, ⟨(idOf tables.cities row.ToStation).toNat, by omega⟩, row.startTime.toNat,
    (row.arriveTime - row.startTime).toNat, row.TACNumber⟩, h.route_eq, ?_, ?_, ?_, ?_, ?_, rfl⟩
  · simp only [Loading.AbstractRoute.typed, htype, Option.bind_eq_bind, Option.bind_some]
    rw [dif_pos ⟨⟨hpos, hlt⟩, hstart, by omega⟩]
  · exact Int.toNat_of_nonneg hpos
  · exact TransType.code_of_ofCode htype
  · exact Int.toNat_of_nonneg hstart
  · exact Int.toNat_of_nonneg (by omega)

end ScheduleRow.WellFormed

/-! ## The whole timetable -/

/-- What is computed for every entry of a list. -/
theorem exists_mapM {α β : Type} {f : α → Option β} {xs : List α} (h : ∀ x ∈ xs, (f x).isSome = true) :
    ∃ ys, xs.mapM f = some ys ∧ (∀ y ∈ ys, ∃ x ∈ xs, f x = some y) ∧ ∀ x ∈ xs, ∃ y ∈ ys, f x = some y := by
  induction xs with
  | nil => exact ⟨[], rfl, by simp, by simp⟩
  | cons x xs ih =>
      obtain ⟨hx, hxs⟩ := List.forall_mem_cons.mp h
      obtain ⟨y, hy⟩ := Option.isSome_iff_exists.mp hx
      obtain ⟨ys, hys, hfrom, hto⟩ := ih hxs
      refine ⟨y :: ys, ?_, ?_, ?_⟩
      · rw [List.mapM_cons, hy, hys]
        rfl
      · rintro z (_ | ⟨_, hz⟩)
        · exact ⟨x, List.mem_cons_self, hy⟩
        · obtain ⟨w, hw, hwz⟩ := hfrom z hz
          exact ⟨w, List.mem_cons_of_mem _ hw, hwz⟩
      · rintro z (_ | ⟨_, hz⟩)
        · exact ⟨y, List.mem_cons_self, hy⟩
        · obtain ⟨w, hw, hzw⟩ := hto z hz
          exact ⟨w, List.mem_cons_of_mem _ hw, hzw⟩

variable {tables : Tables} {l : Loaded} {n : ℕ}

/-- The route goes to the second station of the row, at its times. -/
structure AbstractRoute.RunsAs (d : AbstractData n) (route : AbstractRoute n) (row : ScheduleRow) : Prop where
  toStation : (d.cityIdHash route.destCity).name = row.ToStation
  vehicleType : route.vehicleType.code = row.TransportationType
  startTime : (route.startTime : ℤ) = row.startTime
  costTime : (route.costTime : ℤ) = row.arriveTime - row.startTime
  serialNum : route.serialNum = row.TACNumber

/-- The timetable has the cities and the departures of the tables, and no others. -/
structure Tables.Gives (tables : Tables) (d : AbstractData tables.cities.length) : Prop where
  city : ∀ id : Fin tables.cities.length, ∃ city ∈ tables.cities, city.CityID = id ∧
    (d.cityIdHash id).name = city.CityName ∧ (d.cityIdHash id).factor = city.CityDangerFactor
  ride : ∀ id, ∀ route ∈ d.routeMap id, ∃ row ∈ tables.schedule,
    row.FromStation = (d.cityIdHash id).name ∧ route.RunsAs d row
  row : ∀ row ∈ tables.schedule, ∃ id, (d.cityIdHash id).name = row.FromStation ∧
    ∃ route ∈ d.routeMap id, route.RunsAs d row

namespace Tables.WellFormed

/-- The city of an ID, as the search reads it. -/
theorem city_typed (h : tables.WellFormed) (hl : l.Holds tables.cities tables.schedule)
    (id : Fin tables.cities.length) : ∃ city ∈ tables.cities, city.CityID = id ∧
      ∃ typed, l.absData.city tables.cities.length id = some typed ∧ typed.name = city.CityName ∧
        typed.factor = city.CityDangerFactor := by
  obtain ⟨city, hcity, hid, hlast⟩ := h.city_of_id id
  refine ⟨city, hcity, hid, ⟨city.CityDangerFactor, city.CityName, h.factors city hcity⟩, ?_, rfl, rfl⟩
  rw [Loading.AbstractData.city, hl.cityIdHash, hlast, Option.map_some, Option.bind_some,
    Loading.AbstractCity.typed]
  exact dif_pos (h.factors city hcity)

/-- The routes of an ID, as the search reads them, are those of the rows of its station. -/
theorem routes_typed (h : tables.WellFormed) (hl : l.Holds tables.cities tables.schedule)
    (id : Fin tables.cities.length) : ∃ routes, l.absData.routes tables.cities.length id = some routes ∧
      (∀ route ∈ routes, ∃ raw ∈ departures tables.cities tables.schedule id,
        raw.typed tables.cities.length = some route) ∧
      ∀ raw ∈ departures tables.cities tables.schedule id, ∃ route ∈ routes,
        raw.typed tables.cities.length = some route := by
  have htyped : ∀ raw ∈ departures tables.cities tables.schedule id,
      (raw.typed tables.cities.length).isSome = true := by
    intro raw hraw
    obtain ⟨row, hrow, hroute⟩ := List.mem_filterMap.mp hraw
    obtain ⟨raw', route, hraw', htyped, -⟩ := (h.schedule row (List.mem_of_mem_filter hrow)).typed h
    obtain rfl := Option.some.inj (hroute.symm.trans hraw')
    rw [htyped]
    rfl
  obtain ⟨routes, hroutes, hall⟩ := exists_mapM htyped
  refine ⟨routes, ?_, hall⟩
  rw [Loading.AbstractData.routes, hl.routeMap, List.getElem?_map, List.getElem?_range id.isLt, Option.map_some,
    Option.bind_some, hroutes]

/-- A station has the ID of one city. -/
theorem idOf_eq_iff (h : tables.WellFormed) {name : QString} (hname : name ∈ tables.cities.map CityRow.CityName)
    {city : CityRow} (hcity : city ∈ tables.cities) :
    idOf tables.cities name = city.CityID ↔ name = city.CityName := by
  obtain ⟨found, hfound, hfoundName, -, hid⟩ := h.city_of_name hname
  rw [hid, ← hfoundName]
  constructor
  · intro heq
    rw [List.inj_on_of_nodup_map h.nodup_ids hfound hcity heq]
  · intro heq
    rw [List.inj_on_of_nodup_map h.names hfound hcity heq]

theorem gives (h : tables.WellFormed) (hl : l.Holds tables.cities tables.schedule) :
    ∃ d, l.absData.typed tables.cities.length = some d ∧ tables.Gives d := by
  choose city hcity hid typed htyped hname hfactor using h.city_typed hl
  choose routes hroutes hfrom hto using h.routes_typed hl
  have hall : ∀ id : Fin tables.cities.length, (l.absData.city tables.cities.length id).isSome = true ∧
      (l.absData.routes tables.cities.length id).isSome = true :=
    fun id => ⟨by rw [htyped]; rfl, by rw [hroutes]; rfl⟩
  have hstation : ∀ id : Fin tables.cities.length, ∀ name ∈ tables.cities.map CityRow.CityName,
      idOf tables.cities name = id ↔ name = (typed id).name := by
    intro id name hmem
    rw [hname, ← hid]
    exact h.idOf_eq_iff hmem (hcity id)
  have hruns : ∀ row ∈ tables.schedule, ∀ raw route, row.route tables.cities = some raw →
      raw.typed tables.cities.length = some route → route.RunsAs ⟨typed, routes⟩ row := by
    intro row hrow raw route hraw hroute
    obtain ⟨raw', route', hraw', hroute', hdest, htype, hstart, hcost, hserial⟩ := (h.schedule row hrow).typed h
    obtain rfl := Option.some.inj (hraw.symm.trans hraw')
    obtain rfl := Option.some.inj (hroute.symm.trans hroute')
    exact ⟨((hstation _ _ (h.schedule row hrow).toStation).mp hdest.symm).symm, htype, hstart, hcost, hserial⟩
  refine ⟨⟨typed, routes⟩, ?_, ?_, ?_, ?_⟩
  · rw [Loading.AbstractData.typed, dif_pos hall]
    simp only [htyped, hroutes, Option.get_some]
  · exact fun id => ⟨city id, hcity id, hid id, hname id, hfactor id⟩
  · intro id route hroute
    obtain ⟨raw, hraw, hrawTyped⟩ := hfrom id route hroute
    obtain ⟨row, hrow, hrowRaw⟩ := List.mem_filterMap.mp hraw
    obtain ⟨hrow, hstart⟩ := List.mem_filter.mp hrow
    refine ⟨row, hrow, ?_, hruns row hrow raw route hrowRaw hrawTyped⟩
    exact (hstation id _ (h.schedule row hrow).fromStation).mp (of_decide_eq_true hstart)
  · intro row hrow
    obtain ⟨first, hfirst, -, -, hidFirst⟩ := h.city_of_name (h.schedule row hrow).fromStation
    obtain ⟨hpos, hlt⟩ := h.id_lt hfirst
    obtain ⟨raw, -, hraw, -⟩ := (h.schedule row hrow).typed h
    have hplace : idOf tables.cities row.FromStation = (⟨first.CityID.toNat, by omega⟩ : Fin tables.cities.length) := by
      rw [hidFirst]
      exact (Int.toNat_of_nonneg hpos).symm
    have hmem : raw ∈ departures tables.cities tables.schedule first.CityID.toNat :=
      List.mem_filterMap.mpr ⟨row, List.mem_filter.mpr ⟨hrow, decide_eq_true hplace⟩, hraw⟩
    obtain ⟨route, hroute, hrouteTyped⟩ := hto ⟨first.CityID.toNat, by omega⟩ raw hmem
    exact ⟨_, ((hstation _ _ (h.schedule row hrow).fromStation).mp hplace).symm, route, hroute,
      hruns row hrow raw route hraw hrouteTyped⟩

theorem cityNum (h : tables.WellFormed) (hl : l.Holds tables.cities tables.schedule) :
    l.cityNum = tables.cities.length := by
  rw [Loaded.cityNum, length_entries l.absData.cityHash h.names, List.length_map]
  intro name
  rw [hl.isSome_lookup, List.mem_append, or_iff_left_iff_imp]
  intro hmem
  obtain ⟨row, hrow, rfl⟩ := List.mem_map.mp hmem
  exact (h.schedule row hrow).toStation

end Tables.WellFormed

/-! ## What can be ridden -/

/-- A ride of the row, for a customer who is at its first station from the given time on: he leaves at the
row's time, within a day, and takes as long as the row says. -/
structure Leg.Follows (d : AbstractData n) (time : ℕ) (leg : Leg n) (row : ScheduleRow) : Prop where
  fromStation : (d.cityIdHash leg.cityId).name = row.FromStation
  toStation : (d.cityIdHash leg.nextCity).name = row.ToStation
  departure : ∃ day : ℕ, time ≤ row.startTime + day * (24 * 60) ∧
    row.startTime + day * (24 * 60) < time + 24 * 60 ∧
    leg.arrival = row.arriveTime + day * (24 * 60)
  text : ∃ type : TransType, type.code = row.TransportationType ∧
    leg.text d = "\n\t在【" ++ row.FromStation ++ "】乘坐" ++ type.letter ++ toString row.TACNumber

/-- The legs follow rows of `Schedule` from a station, at a time, to another one. -/
inductive Scheduled (tables : Tables) (d : AbstractData n) :
    QString → ℕ → List (Leg n) → QString → ℕ → Prop
  | stay (station : QString) (time : ℕ) : Scheduled tables d station time [] station time
  | ride {time t : ℕ} {leg : Leg n} {legs : List (Leg n)} {row : ScheduleRow} {dest : QString} :
      row ∈ tables.schedule → leg.Follows d time row → Scheduled tables d row.ToStation leg.arrival legs dest t →
      Scheduled tables d row.FromStation time (leg :: legs) dest t

variable {d : AbstractData n} {s : Search n} {time t : ℕ} {leg : Leg n} {legs : List (Leg n)}
variable {city dest : Fin n} {row : ScheduleRow}

theorem Leg.Noted.follows (h : leg.Noted d s time) (hfrom : (d.cityIdHash leg.cityId).name = row.FromStation)
    (hruns : leg.route.RunsAs d row) : leg.Follows d time row := by
  obtain ⟨departure, hearliest, harrival⟩ := h.departure
  obtain ⟨day, hday⟩ := hearliest.daily
  have hto := hruns.toStation
  rw [h.dest] at hto
  refine ⟨hfrom, hto, ⟨day, ?_, ?_, ?_⟩, leg.route.vehicleType, hruns.vehicleType, ?_⟩
  · have := hearliest.not_before
    rw [← hruns.startTime]
    omega
  · have := hearliest.earliest (day - 1)
    rw [← hruns.startTime]
    omega
  · have hcost := hruns.costTime
    rw [← hruns.startTime] at hcost
    rw [harrival]
    omega
  · rw [Leg.text, hfrom, hruns.serialNum]

theorem Itinerary.scheduled {d : AbstractData tables.cities.length} {s : Search tables.cities.length}
    {city dest : Fin tables.cities.length} {legs : List (Leg tables.cities.length)} (hgives : tables.Gives d)
    (h : Itinerary d s city time legs dest t) :
    Scheduled tables d (d.cityIdHash city).name time legs (d.cityIdHash dest).name t := by
  induction h with
  | stay => exact .stay _ _
  | ride hnoted _ ih =>
      obtain ⟨row, hrow, hfrom, hruns⟩ := hgives.ride _ _ (List.mem_of_getElem? hnoted.index)
      have hfollows := hnoted.follows hfrom.symm hruns
      rw [← hfrom]
      rw [hfollows.toStation] at ih
      exact .ride hrow hfollows ih

theorem Tables.Gives.daily {d : AbstractData tables.cities.length} (hgives : tables.Gives d) (h : tables.WellFormed) :
    ∀ city, ∀ route ∈ d.routeMap city, route.startTime < 24 * 60 := by
  intro city route hroute
  obtain ⟨row, hrow, -, hruns⟩ := hgives.ride city route hroute
  obtain ⟨⟨-, hh⟩, -, hm⟩ := (h.schedule row hrow).start
  have hstart := hruns.startTime
  rw [ScheduleRow.startTime] at hstart
  omega

/-- Tables in order are loaded. -/
theorem Tables.WellFormed.loaded (h : tables.WellFormed) :
    ∃ l d, loadData tables = some l ∧ l.cityNum = tables.cities.length ∧
      l.absData.typed tables.cities.length = some d ∧ tables.Gives d := by
  have hplaced : ∀ row ∈ tables.schedule, row.Placed tables.cities :=
    fun row hrow => (h.schedule row hrow).placed h
  obtain ⟨l, hl⟩ := Option.isSome_iff_exists.mp ((loadData_isSome tables).mpr hplaced)
  have hholds := Loaded.Holds.loadData hl
  obtain ⟨d, hd, hgives⟩ := h.gives hholds
  exact ⟨l, d, hl, h.cityNum hholds, hd, hgives⟩

/-- The route that is output is read from one journey. -/
theorem findPlan_consistent {startCity destCity : Fin n} {startT : ℕ} {timeLmt : ℤ} {plan : Plan n}
    (hne : startCity ≠ destCity) (hdaily : ∀ city, ∀ route ∈ d.routeMap city, route.startTime < 24 * 60)
    (hplan : findPlan d startCity destCity startT timeLmt = some (some plan)) :
    ∃ s cities, ConsistentRoute d s startCity destCity startT timeLmt cities plan := by
  obtain ⟨s, hrun, -⟩ := Option.bind_eq_some_iff.mp hplan
  have hsettled : s.visit destCity = true := by
    by_contra hfresh
    rw [Search.findPlan_unsettled hrun (Bool.eq_false_iff.mpr hfresh)] at hplan
    cases hplan
  obtain ⟨cities, plan', -, hplan', hconsistent⟩ := findPlan_settled hne hdaily hrun hsettled
  obtain rfl := Option.some.inj (Option.some.inj (hplan.symm.trans hplan'))
  exact ⟨s, cities, hconsistent⟩

/-- The timetable of tables in order is loaded and has just their cities and departures. Every route that the
search outputs can be ridden by rows of `Schedule`, from the one city to the other, within the limit. -/
theorem rides_scheduled (h : tables.WellFormed) :
    ∃ l d, loadData tables = some l ∧ l.cityNum = tables.cities.length ∧
      l.absData.typed tables.cities.length = some d ∧ tables.Gives d ∧
      ∀ startCity destCity startT timeLmt plan, startCity ≠ destCity →
        findPlan d startCity destCity startT timeLmt = some (some plan) →
        ∃ t, Scheduled tables d (d.cityIdHash startCity).name startT plan.legs (d.cityIdHash destCity).name t ∧
          (t : ℤ) ≤ startT + timeLmt := by
  obtain ⟨l, d, hl, hcount, hd, hgives⟩ := h.loaded
  refine ⟨l, d, hl, hcount, hd, hgives, ?_⟩
  intro startCity destCity startT timeLmt plan hne hplan
  obtain ⟨s, cities, hconsistent⟩ := findPlan_consistent hne (hgives.daily h) hplan
  obtain ⟨t, hitinerary, hlimit, -⟩ := hconsistent.itinerary
  exact ⟨t, hitinerary.scheduled hgives, hlimit⟩

/-- A train and a car, which connect three cities. -/
def threeCities : Tables where
  City := some [⟨1, "成都", 1 / 2⟩, ⟨0, "北京", 1 / 4⟩, ⟨2, "西安", 1 / 2⟩]
  Schedule := some [⟨7, "北京", "成都", 8, 30, 29, 51, 1⟩, ⟨9, "成都", "西安", 6, 0, 16, 1, 2⟩]

theorem threeCities_wellFormed : threeCities.WellFormed := by
  refine ⟨by decide +kernel, by decide +kernel, by decide +kernel, fun row hrow => ?_⟩
  rcases List.mem_pair.mp hrow with rfl | rfl
  · exact ⟨by decide +kernel, by decide +kernel, by decide, by decide, by decide, by decide, by decide⟩
  · exact ⟨by decide +kernel, by decide +kernel, by decide, by decide, by decide, by decide, by decide⟩

theorem rides_scheduled_example :
    ∃ l d plan t, loadData threeCities = some l ∧ l.absData.typed threeCities.cities.length = some d ∧
      findPlan d ⟨0, by decide⟩ ⟨2, by decide⟩ 0 noTimeLmt = some (some plan) ∧
      Scheduled threeCities d (d.cityIdHash ⟨0, by decide⟩).name 0 plan.legs
        (d.cityIdHash ⟨2, by decide⟩).name t := by
  obtain ⟨l, d, hl, -, hd, -, hrides⟩ := rides_scheduled threeCities_wellFormed
  have hfound : ((loadData threeCities).bind fun l => l.absData.typed threeCities.cities.length).any
      (fun d => (findPlan d ⟨0, by decide⟩ ⟨2, by decide⟩ 0 noTimeLmt).join.isSome) = true := by
    decide +kernel
  rw [hl, Option.bind_some, hd, Option.any_some] at hfound
  obtain ⟨plan, hplan⟩ := Option.isSome_iff_exists.mp hfound
  have hplan := Option.join_eq_some_iff.mp hplan
  obtain ⟨t, hscheduled, -⟩ := hrides _ _ 0 noTimeLmt plan (by decide) hplan
  exact ⟨l, d, plan, t, hl, hd, hplan, hscheduled⟩

end TermCollection.Travel
