import TermCollection.Lib.Hash
import TermCollection.Travel.AbstractData

/-!
# Loading the timetable (`BackendBase::loadData`)

The tables `City` and `Schedule` of the database are read row by row into two hashes and a vector of routes.
An index out of range and an overflow of `int` have no defined result.
-/

namespace TermCollection.Travel

/-! ## The tables -/

/-- A row of `City`; the factor is the value of its float. -/
structure CityRow where
  CityID : ℤ
  CityName : QString
  CityDangerFactor : ℚ
  deriving DecidableEq

structure ScheduleRow where
  TACNumber : ℤ
  FromStation : QString
  ToStation : QString
  StartH : ℤ
  StartM : ℤ
  ArriveH : ℤ
  ArriveM : ℤ
  TransportationType : ℤ
  deriving DecidableEq

/-- What the two queries give, when they succeed. -/
structure Tables where
  City : Option (List CityRow)
  Schedule : Option (List ScheduleRow)

namespace Tables

def cities (tables : Tables) : List CityRow := tables.City.getD []

def schedule (tables : Tables) : List ScheduleRow := tables.Schedule.getD []

end Tables

/-! ## The lists of the window (`CityModel.cpp`, `ScheduleModel.cpp`) -/

/-- The rows of one of the two models. -/
structure ListModel (α : Type) where
  dataList : List α

namespace ListModel

variable {α : Type}

def rowCount (model : ListModel α) : ℤ := model.dataList.length

def insert (model : ListModel α) (index : ℤ) (data : α) : ListModel α :=
  if index < 0 ∨ model.rowCount < index then model else ⟨model.dataList.insertIdx index.toNat data⟩

def append (model : ListModel α) (data : α) : ListModel α := model.insert model.rowCount data

/-- The row that a view asks for. The row behind the last one passes the check and is read. -/
def data (model : ListModel α) (row : ℤ) : Option (Option α) :=
  if row < 0 ∨ model.rowCount < row then some none else model.dataList[row.toNat]?.map some

@[simp] theorem dataList_append (model : ListModel α) (data : α) :
    (model.append data).dataList = model.dataList ++ [data] := by
  have hcount : ¬ (model.rowCount < 0 ∨ model.rowCount < model.rowCount) := by
    simp [rowCount]
  rw [append, insert, if_neg hcount, rowCount, Int.toNat_natCast]
  exact List.insertIdx_length_self

/-- Only the row behind the last one is read from outside. -/
theorem data_eq_none_iff (model : ListModel α) (row : ℤ) : model.data row = none ↔ row = model.rowCount := by
  rw [data]
  split
  · rename_i hout
    refine iff_of_false (by simp) fun hrow => ?_
    rw [hrow, rowCount] at hout
    omega
  · rename_i hin
    rw [Option.map_eq_none_iff, List.getElem?_eq_none_iff]
    rw [rowCount] at hin ⊢
    omega

end ListModel

abbrev CityModel := ListModel CityRow

abbrev ScheduleModel := ListModel ScheduleRow

/-! ## The data as loaded (`AbstractData.h`) -/

namespace Loading

structure AbstractCity where
  id : ℤ
  factor : ℚ
  name : QString
  deriving DecidableEq

/-- `AbstractCity()`. -/
def noCity : AbstractCity := ⟨-1, 0, ""⟩

structure AbstractRoute where
  vehicleType : ℤ
  destCity : ℤ
  startTime : ℤ
  costTime : ℤ
  serialNum : ℤ
  deriving DecidableEq

structure AbstractData where
  routeMap : List (List AbstractRoute)
  cityHash : Hash QString AbstractCity
  cityIdHash : Hash ℤ AbstractCity

/-- The value of an expression of type `int`. -/
def int (value : ℤ) : Option ℤ := if -2 ^ 31 ≤ value ∧ value < 2 ^ 31 then some value else none

/-- `hour * 60 + minute`. -/
def minutes (hour minute : ℤ) : Option ℤ := do
  let minutes ← int (hour * 60)
  int (minutes + minute)

/-- The constructor of `AbstractRoute`, which is given the time of the arrival. -/
def newRoute (type dest start cost serial : ℤ) : Option AbstractRoute := do
  let costTime ← int (cost - start)
  some ⟨type, dest, start, costTime, serial⟩

end Loading

open Loading

/-! ## `loadData` -/

structure Loaded where
  cityData : CityModel
  scheduleData : ScheduleModel
  absData : Loading.AbstractData

def newLoaded : Loaded := ⟨⟨[]⟩, ⟨[]⟩, ⟨[], ∅, ∅⟩⟩

namespace Loaded

/-- One row of `City`. -/
def loadCity (l : Loaded) (row : CityRow) : Loaded :=
  let city : Loading.AbstractCity := ⟨row.CityID, row.CityDangerFactor, row.CityName⟩
  { l with
    cityData := l.cityData.append row
    absData :=
      { l.absData with
        cityHash := l.absData.cityHash.insert city.name city
        cityIdHash := l.absData.cityIdHash.insert city.id city } }

/-- `m_routeMap.resize(count)`. -/
def resizeRoutes (l : Loaded) (count : ℕ) : Loaded :=
  let routeMap := l.absData.routeMap
  { l with
    absData :=
      { l.absData with routeMap := routeMap.take count ++ List.replicate (count - routeMap.length) [] } }

def loadCities (l : Loaded) (rows : List CityRow) : Loaded := (rows.foldl loadCity l).resizeRoutes rows.length

/-- One row of `Schedule`. -/
def loadRoute (l : Loaded) (row : ScheduleRow) : Option Loaded := do
  let fromId := (l.absData.cityHash.value noCity row.FromStation).id
  let cityHash := l.absData.cityHash.touch noCity row.FromStation
  let toId := (cityHash.value noCity row.ToStation).id
  let start ← minutes row.StartH row.StartM
  let arrive ← minutes row.ArriveH row.ArriveM
  let route ← newRoute row.TransportationType toId start arrive row.TACNumber
  if 0 ≤ fromId ∧ fromId < l.absData.routeMap.length then
    some
      { l with
        scheduleData := l.scheduleData.append row
        absData :=
          { l.absData with
            routeMap := l.absData.routeMap.modify fromId.toNat (· ++ [route])
            cityHash := cityHash.touch noCity row.ToStation } }
  else none

end Loaded

/-- A query that fails has no rows; the vector is resized only when the first one succeeds. -/
def loadData (tables : Tables) : Option Loaded :=
  let loaded :=
    match tables.City with
    | some rows => newLoaded.loadCities rows
    | none => newLoaded
  tables.schedule.foldlM Loaded.loadRoute loaded

end TermCollection.Travel
