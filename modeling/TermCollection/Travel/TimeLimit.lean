import Mathlib.Data.Finset.Max
import TermCollection.Travel.Itineraries
import TermCollection.Travel.Lemmas.Settling

/-!
# Routes within a limit

The search keeps one way to each city, the one of less risk, while the limit is on time. It finds a route
within the limit as long as the ways that it keeps are on time.
-/

namespace TermCollection.Travel

variable {n : ℕ} {d : AbstractData n} {startCity destCity city : Fin n} {startT prevTime time t day : ℕ}
variable {timeLmt : ℤ} {route : AbstractRoute n} {legs : List (Leg n)}
variable {ways : List (List (Departure n))} {V W : List (Departure n)} {s : Search n}

/-- Departures that connect, on any days, lead from a city, at a time, to another one. -/
inductive Connects (d : AbstractData n) : Fin n → ℕ → Fin n → ℕ → Prop
  | stay (city : Fin n) (time : ℕ) : Connects d city time city time
  | ride {city dest : Fin n} {time t : ℕ} (route : AbstractRoute n) (day : ℕ) :
      route ∈ d.routeMap city → time ≤ route.startTime + day * (24 * 60) →
      Connects d route.destCity (route.startTime + day * (24 * 60) + route.costTime) dest t →
      Connects d city time dest t

/-- From a city at a time, departures that connect lead to the destination within the limit. -/
def OnTime (d : AbstractData n) (destCity : Fin n) (startT : ℕ) (timeLmt : ℤ) (city : Fin n) (time : ℕ) :
    Prop := ∃ t, Connects d city time destCity t ∧ (t : ℤ) ≤ startT + timeLmt

/-! ## The condition -/

/-- From the end of the way the destination can be reached within the limit. -/
def WayOnTime (d : AbstractData n) (startCity destCity : Fin n) (startT : ℕ) (timeLmt : ℤ)
    (W : List (Departure n)) : Prop :=
  OnTime d destCity startT timeLmt (endCity startCity W) (endTime startT W)

/-- A departure on time to a new city can be taken, and at every other city a way on time goes before the late
ones that join it. -/
structure KeepsOnTime (d : AbstractData n) (startCity destCity : Fin n) (startT : ℕ) (timeLmt : ℤ) : Prop where
  taken : ∀ {W route}, (network d startCity destCity startT timeLmt).Way W → endCity startCity W ≠ destCity →
    route ∈ d.routeMap (endCity startCity W) → route.destCity ∉ startCity :: W.map (fun e => e.route.destCity) →
    OnTime d destCity startT timeLmt route.destCity (route.arrivalTime (endTime startT W)) →
    ∃ label < INF,
      (route.leg (endCity startCity W) (endTime startT W)).label d startCity (endTime startT W) = some label
  before : ∀ {W e J}, (network d startCity destCity startT timeLmt).Way (W ++ [e]) →
    (network d startCity destCity startT timeLmt).Way J → endCity startCity J = e.route.destCity →
    (network d startCity destCity startT timeLmt).Joins W J → e.route.destCity ≠ destCity →
    WayOnTime d startCity destCity startT timeLmt (W ++ [e]) →
    ¬ WayOnTime d startCity destCity startT timeLmt J →
    (network d startCity destCity startT timeLmt).Before (W ++ [e]) J

/-! ## Being on time -/

theorem Connects.earlier (h : Connects d city t destCity prevTime) (hle : time ≤ t) :
    ∃ t' ≤ prevTime, Connects d city time destCity t' := by
  cases h with
  | stay => exact ⟨time, hle, .stay _ _⟩
  | ride route day hr hwait hrest => exact ⟨prevTime, Nat.le_refl _, .ride route day hr (hle.trans hwait) hrest⟩

theorem OnTime.earlier (h : OnTime d destCity startT timeLmt city t) (hle : time ≤ t) :
    OnTime d destCity startT timeLmt city time := by
  obtain ⟨t₁, hconnects, hlimit⟩ := h
  obtain ⟨t', hle', hconnects'⟩ := hconnects.earlier hle
  exact ⟨t', hconnects', by omega⟩

/-- Nobody arrives before the ride of the earliest departure. -/
theorem AbstractRoute.arrivalTime_le (h : time ≤ route.startTime + day * (24 * 60)) :
    route.arrivalTime time ≤ route.startTime + day * (24 * 60) + route.costTime := by
  obtain ⟨first, hfirst, hlt⟩ := addDays_earliest time time route.startTime
  have hspec := addDays_spec time time route.startTime (Nat.le_add_left _ _)
  simp only [arrivalTime, waitTime, realStartTime]
  rcases Nat.eq_zero_or_pos first with rfl | hpos
  · omega
  · have := hlt hpos
    omega

theorem OnTime.ride (hroute : route ∈ d.routeMap city)
    (h : OnTime d destCity startT timeLmt route.destCity (route.arrivalTime time)) :
    OnTime d destCity startT timeLmt city time := by
  obtain ⟨day, hday, -⟩ := addDays_earliest time time route.startTime
  have hspec := addDays_spec time time route.startTime (Nat.le_add_left _ _)
  obtain ⟨t, hconnects, hlimit⟩ := h
  rw [AbstractRoute.arrivalTime, route.add_waitTime, AbstractRoute.realStartTime, hday] at hconnects
  rw [hday] at hspec
  exact ⟨t, .ride route day hroute hspec hconnects, hlimit⟩

theorem Connects.le (h : Connects d city time destCity t) : time ≤ t := by
  induction h with
  | stay => exact le_rfl
  | ride route day _ hwait _ ih => exact (hwait.trans (Nat.le_add_right _ _)).trans ih

/-- Nobody is on time who comes after the limit. -/
theorem OnTime.inTime (h : OnTime d destCity startT timeLmt route.destCity (route.arrivalTime time)) :
    InTime startT timeLmt route time := by
  obtain ⟨t, hconnects, hlimit⟩ := h
  have hle := hconnects.le
  rw [InTime]
  omega

theorem Journey.connects (h : Journey d city time legs destCity t) : Connects d city time destCity t := by
  induction h with
  | stay => exact .stay _ _
  | @ride city dest time t legs route hroute _ ih =>
      obtain ⟨day, hday, -⟩ := addDays_earliest time time route.startTime
      have hspec := addDays_spec time time route.startTime (Nat.le_add_left _ _)
      rw [AbstractRoute.arrivalTime, route.add_waitTime, AbstractRoute.realStartTime, hday] at ih
      rw [hday] at hspec
      exact .ride route day hroute hspec ih

/-- A part of a way on time is on time. -/
theorem WayOnTime.part (hway : (network d startCity destCity startT timeLmt).Way (V ++ W))
    (h : WayOnTime d startCity destCity startT timeLmt (V ++ W)) :
    WayOnTime d startCity destCity startT timeLmt V := by
  induction W using List.reverseRecOn with
  | nil => rwa [List.append_nil] at h
  | append_singleton W e ih =>
      rw [← List.append_assoc] at hway h
      obtain ⟨-, hcity, htime, hroute, -, -⟩ := (hway.ride_of_part (R := [])).1
      refine ih hway.part ?_
      rw [WayOnTime, endCity_concat, endTime_concat] at h
      rw [WayOnTime, ← hcity, ← htime]
      exact h.ride hroute

namespace Search

/-! ## What is settled -/

/-- The departure that comes first on a connection on time leads to a settled city, whose way is on time. -/
theorem Ended.next (hkeeps : KeepsOnTime d startCity destCity startT timeLmt)
    (h : Ended d startCity destCity startT timeLmt ways s) (hunsettled : s.visit destCity = false)
    (hV : V ∈ ways) (hon : WayOnTime d startCity destCity startT timeLmt V)
    (hroute : route ∈ d.routeMap (endCity startCity V))
    (hnext : OnTime d destCity startT timeLmt route.destCity (route.arrivalTime (endTime startT V))) :
    ∃ J ∈ ways, endCity startCity J = route.destCity ∧ WayOnTime d startCity destCity startT timeLmt J := by
  have hway := h.order.settled.way hV
  have hne_dest : endCity startCity V ≠ destCity := h.order.fresh.mpr hunsettled V hV
  by_cases hback : route.destCity ∈ startCity :: V.map fun e => e.route.destCity
  case pos =>
    -- it leads back to a city of the way
    obtain ⟨A, B, rfl, hplace⟩ := Network.exists_part_of_mem
      (N := network d startCity destCity startT timeLmt) hback
    exact ⟨A, h.order.settled.part_mem hV, hplace, hon.part hway⟩
  case neg =>
    have hoffer : Offered d startCity destCity startT timeLmt V
        ⟨endCity startCity V, endTime startT V, route⟩ :=
      ⟨hne_dest, rfl, rfl, hroute, hnext.inTime, hkeeps.taken hway hne_dest hroute hback hnext⟩
    obtain ⟨J, hJ, hplace⟩ : ∃ J ∈ ways, endCity startCity J = route.destCity := by
      by_contra hnone
      push Not at hnone
      exact h.closed hunsettled ⟨hV, hoffer, hnone⟩
    refine ⟨J, hJ, hplace, ?_⟩
    by_contra hlate
    have hother : route.destCity ≠ destCity := hplace ▸ h.order.fresh.mpr hunsettled J hJ
    have hnew : (network d startCity destCity startT timeLmt).Way
        (V ++ [⟨endCity startCity V, endTime startT V, route⟩]) := .ride hway hoffer hback
    refine h.order.settled.not_before hJ hV hoffer hplace (hkeeps.before hnew (h.order.settled.way hJ) hplace
      (h.order.settled.joins hV hJ) hother ?_ hlate)
    rwa [WayOnTime, endCity_concat, endTime_concat]

/-- No connection leads on from ways that are there in time, if all ways on time are there by then. -/
theorem Ended.not_connects (hkeeps : KeepsOnTime d startCity destCity startT timeLmt)
    (h : Ended d startCity destCity startT timeLmt ways s) (hunsettled : s.visit destCity = false) {last : ℕ}
    (hlast : ∀ J ∈ ways, WayOnTime d startCity destCity startT timeLmt J → endTime startT J ≤ last)
    (hconnects : Connects d city time destCity t) (hlimit : (t : ℤ) ≤ startT + timeLmt) (htime : last ≤ time)
    (hV : V ∈ ways) (hcity : endCity startCity V = city)
    (hon : WayOnTime d startCity destCity startT timeLmt V) : False := by
  induction hconnects generalizing V with
  | stay city time => exact h.order.fresh.mpr hunsettled V hV hcity
  | @ride city dest time t route day hroute hwait hrest ih =>
      subst hcity
      have hearly := AbstractRoute.arrivalTime_le (((hlast V hV hon).trans htime).trans hwait)
      have hnext : OnTime d dest startT timeLmt route.destCity (route.arrivalTime (endTime startT V)) :=
        OnTime.earlier ⟨t, hrest, hlimit⟩ hearly
      obtain ⟨J, hJ, hplace, honJ⟩ := h.next hkeeps hunsettled hV hon hroute hnext
      exact ih hkeeps h hunsettled hlast hlimit
        ((htime.trans hwait).trans (Nat.le_add_right _ _)) hJ hplace honJ

/-- The search settles the destination when ways on time go before the late ones. -/
theorem Ended.settles (h : Ended d startCity destCity startT timeLmt ways s) (hon : OnTime d destCity startT timeLmt startCity startT)
    (hkeeps : KeepsOnTime d startCity destCity startT timeLmt) : s.visit destCity = true := by
  by_contra hunsettled
  rw [Bool.not_eq_true] at hunsettled
  classical
  have hstart : [] ∈ ways.toFinset.filter (WayOnTime d startCity destCity startT timeLmt) :=
    Finset.mem_filter.mpr ⟨List.mem_toFinset.mpr h.order.settled.start_mem, hon⟩
  obtain ⟨V, hV, hlast⟩ := Finset.exists_max_image _ (endTime startT) ⟨[], hstart⟩
  obtain ⟨hV, honV⟩ := Finset.mem_filter.mp hV
  obtain ⟨t, hconnects, hlimit⟩ := honV
  exact h.not_connects hkeeps hunsettled
    (fun J hJ honJ => hlast J (Finset.mem_filter.mpr ⟨List.mem_toFinset.mpr hJ, honJ⟩)) hconnects hlimit le_rfl
    (List.mem_toFinset.mp hV) rfl ⟨t, hconnects, hlimit⟩

end Search

end TermCollection.Travel
