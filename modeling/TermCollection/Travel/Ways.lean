import TermCollection.Lib.Settling
import TermCollection.Travel.Journeys

/-!
# Ways of a search

A search follows departures to new cities that arrive within the limit. It judges a departure by the label of
its own ride, and between equal labels by the ID of the city and the place in the timetable.
-/

namespace TermCollection.Travel

variable {n : ℕ} {d : AbstractData n} {startCity destCity : Fin n} {startT : ℕ} {timeLmt : ℤ}

/-! ## Departures -/

/-- A departure, for a customer who is at its city from the given time on. -/
structure Departure (n : ℕ) where
  city : Fin n
  time : ℕ
  route : AbstractRoute n
  deriving DecidableEq

namespace Departure

def leg (e : Departure n) : Leg n := e.route.leg e.city e.time

def label (d : AbstractData n) (startCity : Fin n) (e : Departure n) : Option ℤ := e.leg.label d startCity e.time

end Departure

/-- The ride of a departure ends within the limit. -/
def InTime (startT : ℕ) (timeLmt : ℤ) (route : AbstractRoute n) (time : ℕ) : Prop :=
  (route.arrivalTime time : ℤ) - startT ≤ timeLmt

instance (startT : ℕ) (timeLmt : ℤ) (route : AbstractRoute n) (time : ℕ) :
    Decidable (InTime startT timeLmt route time) :=
  inferInstanceAs (Decidable ((route.arrivalTime time : ℤ) - startT ≤ timeLmt))

/-! ## Ways -/

/-- The city to which the departures of a way lead. -/
def endCity (startCity : Fin n) (W : List (Departure n)) : Fin n :=
  (W.getLast?.map fun e => e.route.destCity).getD startCity

def endTime (startT : ℕ) (W : List (Departure n)) : ℕ :=
  (W.getLast?.map fun e => e.route.arrivalTime e.time).getD startT

/-- A search that came this way can take the departure. -/
structure Offered (d : AbstractData n) (startCity destCity : Fin n) (startT : ℕ) (timeLmt : ℤ)
    (W : List (Departure n)) (e : Departure n) : Prop where
  ne_dest : endCity startCity W ≠ destCity
  city : e.city = endCity startCity W
  time : e.time = endTime startT W
  route : e.route ∈ d.routeMap e.city
  inTime : InTime startT timeLmt e.route e.time
  label : ∃ label < INF, e.label d startCity = some label

/-- Departures at the end of one way differ by their places in the timetable. -/
theorem Offered.eq_of_index {W : List (Departure n)} {e e' : Departure n}
    (h : Offered d startCity destCity startT timeLmt W e) (h' : Offered d startCity destCity startT timeLmt W e')
    (hindex : (d.routeMap e.city).idxOf e.route = (d.routeMap e'.city).idxOf e'.route) : e = e' := by
  obtain ⟨city, time, route⟩ := e
  obtain ⟨city', time', route'⟩ := e'
  obtain rfl : city = city' := h.city.trans h'.city.symm
  obtain rfl : time = time' := h.time.trans h'.time.symm
  have hroute : route = route' := (List.idxOf_inj h.route).mp hindex
  rw [hroute]

/-- The departures that a search can take. -/
def network (d : AbstractData n) (startCity destCity : Fin n) (startT : ℕ) (timeLmt : ℤ) :
    Network (Fin n) (ℤ ×ₗ Fin n) (Departure n) where
  start := startCity
  goal := fun e => e.route.destCity
  key := fun e => toLex ((e.label d startCity).getD 0, e.route.destCity)
  tie := fun e => (d.routeMap e.city).idxOf e.route
  Offer := Offered d startCity destCity startT timeLmt
  goal_of_key := fun h => (Prod.ext_iff.mp (toLex.injective h)).2
  eq_of_tie := fun h h' htie => h.eq_of_index h' htie

/-- What the search computes of a departure fits into `int`. -/
structure Computes (d : AbstractData n) (startCity : Fin n) (startT : ℕ) (timeLmt : ℤ) (city : Fin n)
    (time : ℕ) (route : AbstractRoute n) : Prop where
  start : route.realStartTime time < 2 ^ 31
  spent : (if city = startCity then route.waitTime time + route.costTime else route.arrivalTime time) < 2 ^ 31
  arrival : InTime startT timeLmt route time → route.arrivalTime time < 2 ^ 31
  label : InTime startT timeLmt route time → ∃ label, (route.leg city time).label d startCity time = some label

/-- So it is for all departures at the end of a way that do not lead back. From the start city the search
looks at departures back to it, too. -/
def Computable (d : AbstractData n) (startCity destCity : Fin n) (startT : ℕ) (timeLmt : ℤ) : Prop :=
  ∀ {W}, (network d startCity destCity startT timeLmt).Way W → endCity startCity W ≠ destCity →
    ∀ route ∈ d.routeMap (endCity startCity W),
      (W ≠ [] → route.destCity ∉ startCity :: W.map fun e => e.route.destCity) →
      Computes d startCity startT timeLmt (endCity startCity W) (endTime startT W) route

/-- The way is one of a stable set: it stands against the rides from each other way of the set. -/
def StableWay (d : AbstractData n) (startCity destCity : Fin n) (startT : ℕ) (timeLmt : ℤ)
    (W : List (Departure n)) : Prop := ∃ S, (network d startCity destCity startT timeLmt).Stable S ∧ W ∈ S

variable {W : List (Departure n)} {e : Departure n}

@[simp] theorem endCity_concat : endCity startCity (W ++ [e]) = e.route.destCity := by simp [endCity]

@[simp] theorem endTime_concat : endTime startT (W ++ [e]) = e.route.arrivalTime e.time := by simp [endTime]

/-- A way to another city has a last departure. -/
theorem exists_last (hne : startCity ≠ destCity) (hdest : endCity startCity W = destCity) :
    ∃ V e, W = V ++ [e] ∧ e.route.destCity = destCity := by
  obtain ⟨V, e, rfl⟩ := (List.eq_nil_or_concat' W).resolve_left fun hnil => hne (by rw [← hdest, hnil]; rfl)
  exact ⟨V, e, rfl, by rwa [endCity_concat] at hdest⟩

/-- A way is a journey to its city. -/
theorem journey_of_way (h : (network d startCity destCity startT timeLmt).Way W) :
    Journey d startCity startT (W.map Departure.leg) (endCity startCity W) (endTime startT W) := by
  induction h with
  | nil => exact .stay _ _
  | @ride W e _ hoffer _ ih =>
      obtain ⟨-, hcity, htime, hroute, -, -⟩ := hoffer
      rw [← hcity, ← htime] at ih
      rw [List.map_append, endCity_concat, endTime_concat]
      exact ih.append (.single e.route hroute)

theorem finite_offers (W : List (Departure n)) :
    {e | (network d startCity destCity startT timeLmt).Offer W e}.Finite := by
  refine ((d.routeMap (endCity startCity W)).finite_toSet.image
    fun route => (⟨endCity startCity W, endTime startT W, route⟩ : Departure n)).subset ?_
  rintro ⟨city, time, route⟩ hoffer
  obtain rfl : city = endCity startCity W := hoffer.city
  obtain rfl : time = endTime startT W := hoffer.time
  exact ⟨route, hoffer.route, rfl⟩

end TermCollection.Travel
