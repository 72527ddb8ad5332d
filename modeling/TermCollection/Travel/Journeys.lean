import TermCollection.Travel.AlgorithmHelper

/-!
# Journeys

What the search is for: sequences of departures that connect, and their risk.
-/

namespace TermCollection.Travel

variable {n : ℕ} {d : AbstractData n} {city mid dest : Fin n} {time t t' : ℕ} {legs legs' : List (Leg n)}

/-! ## Departures -/

theorem addDays_spec (prevTime fuel realStartTime : ℕ) (h : prevTime ≤ realStartTime + fuel) :
    prevTime ≤ addDays prevTime fuel realStartTime := by
  induction fuel generalizing realStartTime with
  | zero => exact h
  | succ fuel ih =>
      rw [addDays]
      split
      · exact ih _ (by omega)
      · exact Nat.not_lt.mp ‹_›

theorem addDays_earliest (prevTime fuel realStartTime : ℕ) :
    ∃ day : ℕ, addDays prevTime fuel realStartTime = realStartTime + day * (24 * 60) ∧
      (0 < day → addDays prevTime fuel realStartTime < prevTime + 24 * 60) := by
  induction fuel generalizing realStartTime with
  | zero => exact ⟨0, rfl, fun h => absurd h (Nat.lt_irrefl 0)⟩
  | succ fuel ih =>
      rw [addDays]
      split
      · obtain ⟨day, hday, hlt⟩ := ih (realStartTime + 24 * 60)
        refine ⟨day + 1, by rw [hday]; omega, fun _ => ?_⟩
        rcases Nat.eq_zero_or_pos day with rfl | hpos
        · rw [hday]
          omega
        · exact hlt hpos
      · exact ⟨0, rfl, fun h => absurd h (Nat.lt_irrefl 0)⟩

/-- Nobody leaves before he is there. -/
theorem AbstractRoute.add_waitTime (route : AbstractRoute n) (prevTime : ℕ) :
    prevTime + route.waitTime prevTime = route.realStartTime prevTime :=
  Nat.add_sub_cancel' (addDays_spec prevTime prevTime route.startTime (Nat.le_add_left _ _))

/-! ## Sequences of departures -/

/-- The ride of a departure. -/
def AbstractRoute.leg (route : AbstractRoute n) (city : Fin n) (time : ℕ) : Leg n :=
  ⟨city, route.destCity, route, route.arrivalTime time⟩

/-- The legs lead from a city, at a time, to another one. -/
inductive Journey (d : AbstractData n) : Fin n → ℕ → List (Leg n) → Fin n → ℕ → Prop
  | stay (city : Fin n) (time : ℕ) : Journey d city time [] city time
  | ride {city dest : Fin n} {time t : ℕ} {legs : List (Leg n)} (route : AbstractRoute n) :
      route ∈ d.routeMap city → Journey d route.destCity (route.arrivalTime time) legs dest t →
      Journey d city time (route.leg city time :: legs) dest t

theorem Journey.append (h : Journey d city time legs mid t) (h' : Journey d mid t legs' dest t') :
    Journey d city time (legs ++ legs') dest t' := by
  induction h with
  | stay => exact h'
  | ride route hr _ ih => exact .ride route hr (ih h')

theorem Journey.single (route : AbstractRoute n) (h : route ∈ d.routeMap city) :
    Journey d city time [route.leg city time] route.destCity (route.arrivalTime time) :=
  .ride route h (.stay _ _)

/-! ## Risk -/

/-- The risk of a ride, for a customer who is at its city from the given time on. -/
def Leg.risk (d : AbstractData n) (time : ℕ) (leg : Leg n) : ℚ :=
  (leg.route.waitTime time : ℚ) / 60 * (d.cityIdHash leg.cityId).factor +
    (leg.route.costTime : ℚ) / 60 * leg.route.vehicleType.risk

def totalRisk (d : AbstractData n) : ℕ → List (Leg n) → ℚ
  | _, [] => 0
  | time, leg :: legs => leg.risk d time + totalRisk d leg.arrival legs

/-- The risk that a search compares, which is that of this ride alone. -/
def Leg.label (d : AbstractData n) (startCity : Fin n) (time : ℕ) (leg : Leg n) : Option ℤ :=
  let factor := (d.cityIdHash leg.cityId).factor
  let waitTime := leg.route.waitTime time
  if leg.cityId = startCity then toInt (firstRisk factor leg.route waitTime)
  else toInt (laterRisk factor leg.route waitTime)

end TermCollection.Travel
