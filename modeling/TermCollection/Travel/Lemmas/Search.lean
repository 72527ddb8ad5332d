import TermCollection.Travel.Ways

/-!
# Invariants of the search

The labels form a tree of rides: each one comes from a departure of a visited city, at the time at which
the tree reaches that city.
-/

namespace TermCollection.Travel

variable {n : ℕ} {d : AbstractData n} {startCity destCity curCity u v : Fin n} {startT prevTime i : ℕ}
variable {timeLmt label : ℤ} {risk : ℚ} {route : AbstractRoute n} {s s' : Search n}

namespace Search

/-- The time at which the tree reaches a city. -/
def departTime (s : Search n) (startT : ℕ) (city : Fin n) : ℕ :=
  match s.prev city with
  | none => startT
  | some p => s.spendTime p city

/-- The label of a city is that of a ride which arrives within the limit. -/
structure Ride (d : AbstractData n) (startCity : Fin n) (startT : ℕ) (timeLmt : ℤ) (s : Search n)
    (u : Fin n) (route : AbstractRoute n) : Prop where
  index : (d.routeMap u)[s.routeIndex u route.destCity]? = some route
  time : s.spendTime u route.destCity = route.arrivalTime (s.departTime startT u)
  label : (route.leg u (s.departTime startT u)).label d startCity (s.departTime startT u) =
    some (s.risks route.destCity)
  limit : InTime startT timeLmt route (s.departTime startT u)

structure Tree (d : AbstractData n) (startCity : Fin n) (startT : ℕ) (timeLmt : ℤ) (s : Search n) :
    Prop where
  visit_start : s.visit startCity = true
  prev_start : s.prev startCity = none
  prev_visit : ∀ {v u}, s.prev v = some u → s.visit u = true
  ride : ∀ {v u}, s.prev v = some u → ∃ route : AbstractRoute n, route.destCity = v ∧
    Ride d startCity startT timeLmt s u route
  visit_prev : ∀ {v}, s.visit v = true → s.prev v = none → v = startCity
  unlabelled : ∀ {v}, s.prev v = none → v ≠ startCity → s.risks v = INF

/-! ## Steps -/

/-- A ride replaces the label of its city when its own is less. -/
def relaxBy (s : Search n) (curCity : Fin n) (i : ℕ) (route : AbstractRoute n) (prevTime : ℕ)
    (label : ℤ) : Search n :=
  if label < s.risks route.destCity then s.relabel curCity i route prevTime label else s

theorem relax_eq : s.relax curCity i route prevTime risk = (toInt risk).bind fun label =>
    if label < s.risks route.destCity ∧ 2 ^ 31 ≤ route.arrivalTime prevTime then none
    else some (s.relaxBy curCity i route prevTime label) := by
  rw [relax, Option.bind_eq_bind]
  congr 1
  funext label
  by_cases hless : label < s.risks route.destCity
  · by_cases hfits : route.arrivalTime prevTime < 2 ^ 31
    · rw [if_pos hless, if_neg fun h => absurd hfits (Nat.not_lt.mpr h.2), relaxBy, if_pos hless,
        intMinutes, if_pos hfits]
      rfl
    · rw [if_pos hless, if_pos ⟨hless, Nat.not_lt.mp hfits⟩, intMinutes, if_neg hfits]
      rfl
  · rw [if_neg hless, if_neg fun h => hless h.1, relaxBy, if_neg hless]

theorem relax_of_lt (hfits : route.arrivalTime prevTime < 2 ^ 31) (hlabel : toInt risk = some label) :
    s.relax curCity i route prevTime risk = some (s.relaxBy curCity i route prevTime label) := by
  rw [relax_eq, hlabel, Option.bind_some, if_neg fun h => absurd hfits (Nat.not_lt.mpr h.2)]

theorem intMinutes_of_lt {minutes : ℕ} (h : minutes < 2 ^ 31) : intMinutes minutes = some minutes := if_pos h

theorem intMinutes_eq_some {minutes m : ℕ} (h : intMinutes minutes = some m) : m = minutes := by
  rw [intMinutes, Option.ite_none_right_eq_some] at h
  exact (Option.some.inj h.2).symm

/-- What is left of the start is the time of the ride. -/
theorem spent_eq (route : AbstractRoute n) (startT : ℕ) :
    ((route.waitTime startT + route.costTime : ℕ) : ℤ) = route.arrivalTime startT - startT := by
  rw [AbstractRoute.arrivalTime]
  omega

theorem relaxFirst_eq_some (h : relaxFirst d startCity startT timeLmt i route s = some s') :
    ¬ InTime startT timeLmt route startT ∧ s' = s ∨ InTime startT timeLmt route startT ∧
      s.relax startCity i route startT
        (firstRisk (d.cityIdHash startCity).factor route (route.waitTime startT)) = some s' := by
  simp only [relaxFirst, Option.bind_eq_bind, Option.bind_eq_some_iff] at h
  obtain ⟨_, hreal, spent, hspent, h⟩ := h
  obtain rfl := intMinutes_eq_some hreal
  obtain rfl := intMinutes_eq_some hspent
  have htime : ((route.realStartTime startT - startT + route.costTime : ℕ) : ℤ) =
      route.arrivalTime startT - startT := spent_eq route startT
  rw [htime] at h
  split at h
  · cases h
    exact .inl ⟨Int.not_le.mpr ‹_›, rfl⟩
  · exact .inr ⟨Int.not_lt.mp ‹_›, h⟩

theorem relaxLater_eq_some (h : relaxLater d curCity startT prevTime timeLmt i route s = some s') :
    (s.visit route.destCity = true ∨ ¬ InTime startT timeLmt route prevTime) ∧ s' = s ∨
      s.visit route.destCity = false ∧ InTime startT timeLmt route prevTime ∧
        s.relax curCity i route prevTime
          (laterRisk (d.cityIdHash curCity).factor route (route.waitTime prevTime)) = some s' := by
  unfold relaxLater at h
  split at h
  · cases h
    exact .inl ⟨.inl ‹_›, rfl⟩
  · rename_i hvisit
    simp only [Option.bind_eq_bind, Option.bind_eq_some_iff] at h
    obtain ⟨_, hreal, arrivalTime, harrival, h⟩ := h
    obtain rfl := intMinutes_eq_some hreal
    obtain rfl := intMinutes_eq_some harrival
    have htime : route.realStartTime prevTime - prevTime + prevTime + route.costTime =
        route.arrivalTime prevTime := by
      rw [AbstractRoute.arrivalTime, Nat.add_comm prevTime]
      rfl
    rw [htime] at h
    split at h
    · cases h
      exact .inl ⟨.inr (Int.not_le.mpr ‹_›), rfl⟩
    · exact .inr ⟨Bool.eq_false_iff.mpr hvisit, Int.not_lt.mp ‹_›, h⟩

/-- A departure of which everything can be computed. -/
theorem relaxFirst_computed (h : Computes d startCity startT timeLmt startCity startT route) (s : Search n)
    (i : ℕ) : ¬ InTime startT timeLmt route startT ∧ relaxFirst d startCity startT timeLmt i route s = some s ∨
      InTime startT timeLmt route startT ∧ ∃ label,
        (route.leg startCity startT).label d startCity startT = some label ∧
        relaxFirst d startCity startT timeLmt i route s = some (s.relaxBy startCity i route startT label) := by
  have hspent := h.spent
  rw [if_pos rfl] at hspent
  have hfirst : relaxFirst d startCity startT timeLmt i route s =
      if timeLmt < (route.arrivalTime startT : ℤ) - startT then some s
      else s.relax startCity i route startT
        (firstRisk (d.cityIdHash startCity).factor route (route.waitTime startT)) := by
    rw [← spent_eq]
    have hsum : intMinutes (route.realStartTime startT - startT + route.costTime) = some _ := if_pos hspent
    simp only [relaxFirst, intMinutes_of_lt h.start, hsum, Option.bind_eq_bind, Option.bind_some]
    rfl
  by_cases htime : InTime startT timeLmt route startT
  · obtain ⟨label, hlabel⟩ := h.label htime
    refine .inr ⟨htime, label, hlabel, ?_⟩
    rw [hfirst, if_neg (Int.not_lt.mpr htime)]
    rw [Leg.label] at hlabel
    exact relax_of_lt (h.arrival htime) (by simpa [AbstractRoute.leg] using hlabel)
  · refine .inl ⟨htime, ?_⟩
    rw [hfirst, if_pos (Int.not_le.mp htime)]

theorem relaxLater_computed (hne : curCity ≠ startCity) (hfresh : s.visit route.destCity = false)
    (h : Computes d startCity startT timeLmt curCity prevTime route) (i : ℕ) :
    ¬ InTime startT timeLmt route prevTime ∧
        relaxLater d curCity startT prevTime timeLmt i route s = some s ∨
      InTime startT timeLmt route prevTime ∧ ∃ label,
        (route.leg curCity prevTime).label d startCity prevTime = some label ∧
        relaxLater d curCity startT prevTime timeLmt i route s =
          some (s.relaxBy curCity i route prevTime label) := by
  have hspent := h.spent
  rw [if_neg hne] at hspent
  have htime : route.realStartTime prevTime - prevTime + prevTime + route.costTime =
      route.arrivalTime prevTime := by
    rw [AbstractRoute.arrivalTime, Nat.add_comm prevTime]
    rfl
  have hlater : relaxLater d curCity startT prevTime timeLmt i route s =
      if timeLmt < (route.arrivalTime prevTime : ℤ) - startT then some s
      else s.relax curCity i route prevTime
        (laterRisk (d.cityIdHash curCity).factor route (route.waitTime prevTime)) := by
    simp only [relaxLater, hfresh, Bool.false_eq_true, intMinutes_of_lt h.start, ↓reduceIte,
      Option.bind_eq_bind, Option.bind_some, htime, intMinutes_of_lt hspent]
    rfl
  by_cases hin : InTime startT timeLmt route prevTime
  · obtain ⟨label, hlabel⟩ := h.label hin
    refine .inr ⟨hin, label, hlabel, ?_⟩
    rw [hlater, if_neg (Int.not_lt.mpr hin)]
    rw [Leg.label] at hlabel
    exact relax_of_lt (h.arrival hin) (by simpa [AbstractRoute.leg, hne] using hlabel)
  · refine .inl ⟨hin, ?_⟩
    rw [hlater, if_pos (Int.not_le.mp hin)]

theorem relaxLater_visited (hvisit : s.visit route.destCity = true) :
    relaxLater d curCity startT prevTime timeLmt i route s = some s := by
  rw [relaxLater, if_pos hvisit]

/-- A step of a loop changes nothing, or gives a city the label of a ride within the limit. -/
def Relabels (d : AbstractData n) (startCity : Fin n) (startT : ℕ) (timeLmt : ℤ) (curCity : Fin n)
    (prevTime i : ℕ) (route : AbstractRoute n) (s s' : Search n) : Prop :=
  s' = s ∨ ∃ label, (route.leg curCity prevTime).label d startCity prevTime = some label ∧
    label < s.risks route.destCity ∧ InTime startT timeLmt route prevTime ∧
    s' = s.relabel curCity i route prevTime label

theorem relabels_relaxBy (hlabel : (route.leg curCity prevTime).label d startCity prevTime = some label)
    (hlimit : InTime startT timeLmt route prevTime) :
    Relabels d startCity startT timeLmt curCity prevTime i route s
      (s.relaxBy curCity i route prevTime label) := by
  by_cases hless : label < s.risks route.destCity
  · exact .inr ⟨label, hlabel, hless, hlimit, if_pos hless⟩
  · exact .inl (if_neg hless)

theorem relabels_relax (h : s.relax curCity i route prevTime risk = some s')
    (hrisk : (route.leg curCity prevTime).label d startCity prevTime = toInt risk)
    (hlimit : InTime startT timeLmt route prevTime) :
    Relabels d startCity startT timeLmt curCity prevTime i route s s' := by
  rw [relax_eq, Option.bind_eq_some_iff] at h
  obtain ⟨label, hlabel, h⟩ := h
  rw [Option.ite_none_left_eq_some] at h
  obtain ⟨-, rfl⟩ := h.imp_right Option.some.inj
  exact relabels_relaxBy (hrisk.trans hlabel) hlimit

theorem relabels_relaxFirst (h : relaxFirst d startCity startT timeLmt i route s = some s') :
    Relabels d startCity startT timeLmt startCity startT i route s s' := by
  rcases relaxFirst_eq_some h with ⟨-, rfl⟩ | ⟨hlimit, h⟩
  · exact .inl rfl
  · exact relabels_relax h (if_pos rfl) hlimit

theorem relabels_relaxLater (hne : curCity ≠ startCity)
    (h : relaxLater d curCity startT prevTime timeLmt i route s = some s') :
    s' = s ∨ s.visit route.destCity = false ∧
      Relabels d startCity startT timeLmt curCity prevTime i route s s' := by
  rcases relaxLater_eq_some h with ⟨-, rfl⟩ | ⟨hfresh, hlimit, h⟩
  · exact .inl rfl
  · exact .inr ⟨hfresh, relabels_relax h (if_neg hne) hlimit⟩

theorem toInt_nonneg (h : toInt risk = some label) (hrisk : 0 ≤ risk) : 0 ≤ label := by
  simp only [toInt] at h
  split at h
  · cases h
    exact Int.floor_nonneg.mpr hrisk
  · cases h

theorem waitRisk_nonneg {factor : ℚ} (h : 0 ≤ factor) (waitTime : ℕ) : 0 ≤ waitRisk factor waitTime :=
  roundBits_nonneg _ (mul_nonneg (roundBits_nonneg _ (by positivity)) h)

theorem firstRisk_nonneg {factor : ℚ} (h : 0 ≤ factor) (route : AbstractRoute n) (waitTime : ℕ) :
    0 ≤ firstRisk factor route waitTime :=
  roundBits_nonneg _ (add_nonneg (waitRisk_nonneg h waitTime) (Nat.cast_nonneg _))

/-- A loop over departures keeps what each of its steps keeps. -/
theorem forRoutes_rule {body : ℕ → AbstractRoute n → Search n → Option (Search n)} {I : Search n → Prop}
    {routes : List (AbstractRoute n)} (h : forRoutes body i routes s = some s') (hs : I s)
    (hbody : ∀ j route s s', routes[j]? = some route → I s → body (i + j) route s = some s' → I s') :
    I s' := by
  induction routes generalizing i s with
  | nil =>
      cases h
      exact hs
  | cons route routes ih =>
      simp only [forRoutes, Option.bind_eq_bind, Option.bind_eq_some_iff] at h
      obtain ⟨s₁, h₁, h⟩ := h
      refine ih h (hbody 0 route s s₁ rfl hs h₁) fun j route' s s' hj hI hb => ?_
      rw [Nat.add_right_comm, Nat.add_assoc] at hb
      exact hbody (j + 1) route' s s' hj hI hb

/-! ## The tree -/

theorem departTime_relabel (hv : v ≠ route.destCity) :
    (s.relabel curCity i route prevTime label).departTime startT v = s.departTime startT v := by
  simp only [departTime, relabel, hv, and_false, ↓reduceIte]

/-- The ride to a city that is not relabelled stays. -/
theorem Ride.relabel {new : AbstractRoute n} (h : Ride d startCity startT timeLmt s u route)
    (hu : u ≠ new.destCity) (hv : route.destCity ≠ new.destCity) :
    Ride d startCity startT timeLmt (s.relabel curCity i new prevTime label) u route := by
  constructor
  case index =>
    simp only [Search.relabel, hv, and_false, ↓reduceIte]
    exact h.index
  case time =>
    rw [departTime_relabel hu]
    simp only [Search.relabel, hv, and_false, ↓reduceIte]
    exact h.time
  case label =>
    rw [departTime_relabel hu]
    simp only [Search.relabel, hv, ↓reduceIte]
    exact h.label
  case limit =>
    rw [departTime_relabel hu]
    exact h.limit

/-- The ride that a label is taken from. -/
theorem Ride.new (hcur : curCity ≠ route.destCity) (hi : (d.routeMap curCity)[i]? = some route)
    (htime : s.departTime startT curCity = prevTime)
    (hlabel : (route.leg curCity prevTime).label d startCity prevTime = some label)
    (hlimit : InTime startT timeLmt route prevTime) :
    Ride d startCity startT timeLmt (s.relabel curCity i route prevTime label) curCity route := by
  constructor
  case index =>
    simp only [Search.relabel, and_self, ↓reduceIte]
    exact hi
  case time =>
    rw [departTime_relabel hcur, htime]
    simp only [Search.relabel, and_self, ↓reduceIte]
  case label =>
    rw [departTime_relabel hcur, htime]
    simp only [Search.relabel, ↓reduceIte]
    exact hlabel
  case limit =>
    rw [departTime_relabel hcur, htime]
    exact hlimit

/-- A label of a city that was not visited can be replaced. -/
theorem Tree.relabel (h : Tree d startCity startT timeLmt s) (hcur : s.visit curCity = true)
    (hi : (d.routeMap curCity)[i]? = some route) (htime : s.departTime startT curCity = prevTime)
    (hnew : s.visit route.destCity = false)
    (hlabel : (route.leg curCity prevTime).label d startCity prevTime = some label)
    (hlimit : InTime startT timeLmt route prevTime) :
    Tree d startCity startT timeLmt (s.relabel curCity i route prevTime label) := by
  have hvisited : ∀ {city}, s.visit city = true → city ≠ route.destCity := by
    rintro city hcity rfl
    rw [hnew] at hcity
    cases hcity
  have hstart := hvisited h.visit_start
  constructor
  case visit_start => exact h.visit_start
  case prev_start =>
    simp only [Search.relabel, hstart, ↓reduceIte]
    exact h.prev_start
  case prev_visit =>
    intro v u hv
    by_cases hdest : v = route.destCity
    · simp only [Search.relabel, hdest, ↓reduceIte, Option.some.injEq] at hv
      rw [← hv]
      exact hcur
    · simp only [Search.relabel, hdest, ↓reduceIte] at hv
      exact h.prev_visit hv
  case ride =>
    intro v u hv
    by_cases hdest : v = route.destCity
    · simp only [Search.relabel, hdest, ↓reduceIte, Option.some.injEq] at hv
      subst hv
      exact ⟨route, hdest.symm, .new (hvisited hcur) hi htime hlabel hlimit⟩
    · simp only [Search.relabel, hdest, ↓reduceIte] at hv
      obtain ⟨r, rfl, hride⟩ := h.ride hv
      exact ⟨r, rfl, hride.relabel (hvisited (h.prev_visit hv)) hdest⟩
  case visit_prev =>
    intro v hv hnone
    simp only [Search.relabel, hvisited hv, ↓reduceIte] at hnone
    exact h.visit_prev hv hnone
  case unlabelled =>
    intro v hnone hv
    by_cases hdest : v = route.destCity
    · simp only [Search.relabel, hdest, ↓reduceIte] at hnone
      cases hnone
    · simp only [Search.relabel, hdest, ↓reduceIte] at hnone ⊢
      exact h.unlabelled hnone hv

theorem Tree.visitCity (h : Tree d startCity startT timeLmt s) (hv : s.prev v = some u) :
    Tree d startCity startT timeLmt (s.visitCity v) := by
  constructor
  case visit_start => simp only [Search.visitCity, h.visit_start, Bool.or_true]
  case prev_start => exact h.prev_start
  case prev_visit =>
    intro w u hw
    simp only [Search.visitCity, h.prev_visit hw, Bool.or_true]
  case ride =>
    intro w u hw
    obtain ⟨r, hdest, hride⟩ := h.ride hw
    exact ⟨r, hdest, ⟨hride.index, hride.time, hride.label, hride.limit⟩⟩
  case visit_prev =>
    intro w hw hnone
    simp only [Search.visitCity, Bool.or_eq_true, decide_eq_true_eq] at hw
    rcases hw with rfl | hw
    · rw [show s.prev w = none from hnone] at hv
      cases hv
    · exact h.visit_prev hw hnone
  case unlabelled => exact h.unlabelled

theorem Tree.init (d : AbstractData n) (startCity : Fin n) (startT : ℕ) (timeLmt : ℤ) :
    Tree d startCity startT timeLmt (init startCity startT) := by
  constructor
  case visit_start => exact decide_eq_true rfl
  case prev_start => rfl
  case prev_visit =>
    intro v u hv
    cases hv
  case ride =>
    intro v u hv
    cases hv
  case visit_prev =>
    intro v hv _
    exact of_decide_eq_true hv
  case unlabelled =>
    intro v _ hv
    exact if_neg hv

/-! ## Loops -/

/-- The tree before the first city is chosen. -/
structure Root (d : AbstractData n) (startCity : Fin n) (startT : ℕ) (timeLmt : ℤ) (s : Search n) : Prop where
  tree : Tree d startCity startT timeLmt s
  visit : ∀ {v}, s.visit v = true → v = startCity
  risks : s.risks startCity = 0

theorem Root.init (d : AbstractData n) (startCity : Fin n) (startT : ℕ) (timeLmt : ℤ) :
    Root d startCity startT timeLmt (init startCity startT) :=
  ⟨.init d startCity startT timeLmt, fun h => of_decide_eq_true h, if_pos rfl⟩

theorem Root.ne_start (h : Root d startCity startT timeLmt s)
    (hlabel : (route.leg startCity startT).label d startCity startT = some label)
    (hless : label < s.risks route.destCity) : route.destCity ≠ startCity := by
  intro heq
  rw [heq, h.risks] at hless
  simp only [Leg.label, AbstractRoute.leg, ↓reduceIte] at hlabel
  have hnonneg := toInt_nonneg hlabel (firstRisk_nonneg (d.cityIdHash startCity).factor_nonneg _ _)
  exact absurd hless (Int.not_lt.mpr hnonneg)

theorem Root.relaxFirst (h : Root d startCity startT timeLmt s)
    (hi : (d.routeMap startCity)[i]? = some route)
    (hr : Relabels d startCity startT timeLmt startCity startT i route s s') :
    Root d startCity startT timeLmt s' := by
  rcases hr with rfl | ⟨label, hlabel, hless, hlimit, rfl⟩
  · exact h
  · have hne := h.ne_start hlabel hless
    have hnew : s.visit route.destCity = false :=
      Bool.eq_false_iff.mpr fun hvisit => hne (h.visit hvisit)
    have htime : s.departTime startT startCity = startT := by rw [departTime, h.tree.prev_start]
    refine ⟨h.tree.relabel h.tree.visit_start hi htime hnew hlabel hlimit, h.visit, ?_⟩
    simp only [Search.relabel, hne.symm, ↓reduceIte]
    exact h.risks

/-- The tree while the departures of a city are looked at. -/
structure At (d : AbstractData n) (startCity : Fin n) (startT : ℕ) (timeLmt : ℤ) (curCity : Fin n)
    (prevTime : ℕ) (s : Search n) : Prop where
  tree : Tree d startCity startT timeLmt s
  ne_start : curCity ≠ startCity
  visit : s.visit curCity = true
  time : s.departTime startT curCity = prevTime

theorem At.relaxLater (h : At d startCity startT timeLmt curCity prevTime s)
    (hi : (d.routeMap curCity)[i]? = some route) (hvisit : s.visit route.destCity = false)
    (hr : Relabels d startCity startT timeLmt curCity prevTime i route s s') :
    At d startCity startT timeLmt curCity prevTime s' := by
  rcases hr with rfl | ⟨label, hlabel, -, hlimit, rfl⟩
  · exact h
  · have hne : curCity ≠ route.destCity := by
      intro heq
      rw [← heq, h.visit] at hvisit
      cases hvisit
    exact ⟨h.tree.relabel h.visit hi h.time hvisit hlabel hlimit, h.ne_start, h.visit,
      (departTime_relabel hne).trans h.time⟩

/-- A city that was chosen can be left. -/
theorem Tree.at (h : Tree d startCity startT timeLmt s) (hnew : s.visit curCity = false)
    (ht : (s.visitCity curCity).prevTime curCity = some prevTime) :
    At d startCity startT timeLmt curCity prevTime (s.visitCity curCity) := by
  simp only [Search.prevTime, Option.bind_eq_bind, Option.bind_eq_some_iff, Option.some.injEq] at ht
  obtain ⟨p, hp, rfl⟩ := ht
  refine ⟨h.visitCity hp, ?_, ?_, ?_⟩
  · rintro rfl
    rw [h.visit_start] at hnew
    cases hnew
  · simp only [Search.visitCity, decide_true, Bool.true_or]
  · rw [departTime, hp]

/-! ## The choice of a city -/

/-- What a fold over cities chooses: of those that were not visited it is the first one with the least risk. -/
theorem selectCity_fold (s : Search n) {cities : List (Fin n)} (hsorted : cities.Pairwise (· < ·))
    (best : ℤ × Fin n) :
    let found := cities.foldl (fun (best : ℤ × Fin n) j =>
      if s.visit j = false ∧ s.risks j < best.1 then (s.risks j, j) else best) best
    (∀ j ∈ cities, s.visit j = false → found.1 ≤ s.risks j) ∧ found.1 ≤ best.1 ∧
      (found = best ∨ s.visit found.2 = false ∧ s.risks found.2 = found.1 ∧ found.1 < best.1 ∧
        ∀ j ∈ cities, s.visit j = false → s.risks j = found.1 → found.2 ≤ j) := by
  induction cities generalizing best with
  | nil => exact ⟨fun j hj => (List.not_mem_nil hj).elim, Int.le_refl _, .inl rfl⟩
  | cons city cities ih =>
      obtain ⟨hfirst, hsorted⟩ := List.pairwise_cons.mp hsorted
      rw [List.foldl_cons]
      split
      · rename_i hless
        obtain ⟨hmin, hle, hfound⟩ := ih hsorted (s.risks city, city)
        refine ⟨?_, Int.le_trans hle (Int.le_of_lt hless.2), .inr ?_⟩
        · intro j hj hvisit
          rcases List.mem_cons.mp hj with rfl | hj
          · exact hle
          · exact hmin j hj hvisit
        · rcases hfound with hsame | ⟨hvisit, hrisk, hlt, hleast⟩
          · rw [hsame]
            refine ⟨hless.1, rfl, hless.2, fun j hj _ _ => ?_⟩
            rcases List.mem_cons.mp hj with rfl | hj
            · exact le_refl _
            · exact (hfirst j hj).le
          · refine ⟨hvisit, hrisk, Int.lt_trans hlt hless.2, fun j hj hj' hsame => ?_⟩
            rcases List.mem_cons.mp hj with rfl | hj
            · exact absurd hsame (Int.ne_of_gt hlt)
            · exact hleast j hj hj' hsame
      · rename_i hnot
        obtain ⟨hmin, hle, hfound⟩ := ih hsorted best
        have hcity : s.visit city = false → best.1 ≤ s.risks city :=
          fun hvisit => Int.not_lt.mp fun hlt => hnot ⟨hvisit, hlt⟩
        refine ⟨?_, hle, hfound.imp id fun ⟨hvisit, hrisk, hlt, hleast⟩ => ⟨hvisit, hrisk, hlt, ?_⟩⟩
        · intro j hj hvisit
          rcases List.mem_cons.mp hj with rfl | hj
          · exact Int.le_trans hle (hcity hvisit)
          · exact hmin j hj hvisit
        · intro j hj hj' hsame
          rcases List.mem_cons.mp hj with rfl | hj
          · exact absurd hsame (Int.ne_of_gt (Int.lt_of_lt_of_le hlt (hcity hj')))
          · exact hleast j hj hj' hsame

theorem selectCity_cases (s : Search n) (curCity : Fin n) :
    s.selectCity curCity = curCity ∧ (∀ j, s.visit j = false → INF ≤ s.risks j) ∨
      s.visit (s.selectCity curCity) = false ∧ s.risks (s.selectCity curCity) < INF ∧
        ∀ j, s.visit j = false →
          toLex (s.risks (s.selectCity curCity), s.selectCity curCity) ≤ toLex (s.risks j, j) := by
  obtain ⟨hmin, -, hfound⟩ := selectCity_fold s (List.pairwise_lt_finRange n) (INF, curCity)
  simp only [List.mem_finRange, forall_const] at hmin hfound
  rw [selectCity]
  rcases hfound with hsame | ⟨hvisit, hrisk, hlt, hleast⟩
  · rw [hsame] at hmin ⊢
    exact .inl ⟨rfl, hmin⟩
  · rw [← hrisk] at hmin hlt hleast
    refine .inr ⟨hvisit, hlt, fun j hj => Prod.Lex.toLex_le_toLex.mpr ?_⟩
    exact (hmin j hj).lt_or_eq.imp id fun hsame => ⟨hsame, hleast j hj hsame.symm⟩

/-- A city that can be chosen is another one than the current city. -/
theorem selectCity_ne (hcur : s.visit curCity = true) (hfresh : s.visit (s.selectCity curCity) = false) :
    s.selectCity curCity ≠ curCity := by
  intro heq
  rw [heq, hcur] at hfresh
  cases hfresh

theorem selectCity_visit (h : s.selectCity curCity ≠ curCity) :
    s.visit (s.selectCity curCity) = false := by
  rcases selectCity_cases s curCity with ⟨hsame, -⟩ | ⟨hvisit, -⟩
  · exact absurd hsame h
  · exact hvisit

theorem prevTime_visitCity (hu : s.prev v = some u) :
    (s.visitCity v).prevTime v = some (s.spendTime u v) := by
  simp only [Search.prevTime, Search.visitCity, hu, Option.bind_eq_bind, Option.bind_some]

/-- A departure from a visited city to one that was not visited. -/
structure Departs (d : AbstractData n) (startCity : Fin n) (startT : ℕ) (timeLmt : ℤ) (curCity : Fin n)
    (prevTime i : ℕ) (route : AbstractRoute n) (s : Search n) : Prop where
  tree : Tree d startCity startT timeLmt s
  visit : s.visit curCity = true
  index : (d.routeMap curCity)[i]? = some route
  time : s.departTime startT curCity = prevTime
  fresh : s.visit route.destCity = false

section Rule

variable {P : Search n → Prop}
variable (hrelabel : ∀ s curCity prevTime i route label,
  Departs d startCity startT timeLmt curCity prevTime i route s → P s →
    P (s.relabel curCity i route prevTime label))
variable (hvisitCity : ∀ s v u, Tree d startCity startT timeLmt s → s.prev v = some u → P s →
  P (s.visitCity v))

include hrelabel hvisitCity

/-- What labels and choices of cities keep is kept by the loop. -/
theorem expandLoop_rule {fuel : ℕ} (h : Tree d startCity startT timeLmt s) (hP : P s)
    (hr : expandLoop d destCity startT timeLmt fuel curCity s = some s') :
    Tree d startCity startT timeLmt s' ∧ P s' := by
  induction fuel generalizing curCity s with
  | zero =>
      cases hr
      exact ⟨h, hP⟩
  | succ fuel ih =>
      simp only [Search.expandLoop] at hr
      split at hr
      · cases hr
        exact ⟨h, hP⟩
      · rename_i hchosen
        simp only [Option.bind_eq_bind, Option.bind_eq_some_iff] at hr
        obtain ⟨prevTime, ht, hr⟩ := hr
        have hat := h.at (selectCity_visit hchosen) ht
        have hvisited : P (s.visitCity (s.selectCity curCity)) := by
          have hprev := ht
          simp only [Search.prevTime, Option.bind_eq_bind, Option.bind_eq_some_iff] at hprev
          obtain ⟨u, hu, -⟩ := hprev
          exact hvisitCity s _ u h hu hP
        split at hr
        · cases hr
          exact ⟨hat.tree, hvisited⟩
        · simp only [Option.bind_eq_some_iff] at hr
          obtain ⟨s₁, hloop, hr⟩ := hr
          obtain ⟨hat₁, hP₁⟩ := forRoutes_rule
            (I := fun s => At d startCity startT timeLmt _ prevTime s ∧ P s) hloop ⟨hat, hvisited⟩
            fun j route s s' hj hI hb => by
              rw [Nat.zero_add] at hb
              rcases relabels_relaxLater hI.1.ne_start hb with rfl | ⟨hvisit, hrelabels⟩
              · exact hI
              · refine ⟨hI.1.relaxLater hj hvisit hrelabels, ?_⟩
                rcases hrelabels with rfl | ⟨label, -, -, -, rfl⟩
                · exact hI.2
                · exact hrelabel _ _ _ _ _ _ ⟨hI.1.tree, hI.1.visit, hj, hI.1.time, hvisit⟩ hI.2
          exact ih hat₁.tree hP₁ hr

/-- The same for the whole search. -/
theorem run_rule (hinit : P (init startCity startT))
    (h : run d startCity destCity startT timeLmt = some s) :
    Tree d startCity startT timeLmt s ∧ P s := by
  simp only [Search.run, Option.bind_eq_bind, Option.bind_eq_some_iff] at h
  obtain ⟨s₁, hloop, h⟩ := h
  obtain ⟨hroot, hP⟩ := forRoutes_rule (I := fun s => Root d startCity startT timeLmt s ∧ P s) hloop
    ⟨.init d startCity startT timeLmt, hinit⟩ fun j route s s' hj hI hb => by
      rw [Nat.zero_add] at hb
      have hrelabels := relabels_relaxFirst hb
      refine ⟨hI.1.relaxFirst hj hrelabels, ?_⟩
      rcases hrelabels with rfl | ⟨label, hlabel, hless, -, rfl⟩
      · exact hI.2
      · have hne := hI.1.ne_start hlabel hless
        have htime : s.departTime startT startCity = startT := by
          rw [departTime, hI.1.tree.prev_start]
        exact hrelabel _ _ _ _ _ _ ⟨hI.1.tree, hI.1.tree.visit_start, hj, htime,
          Bool.eq_false_iff.mpr fun hvisit => hne (hI.1.visit hvisit)⟩ hI.2
  exact expandLoop_rule hrelabel hvisitCity hroot.tree hP h

end Rule

theorem Tree.run (h : run d startCity destCity startT timeLmt = some s) : Tree d startCity startT timeLmt s :=
  (run_rule (P := fun _ => True) (fun _ _ _ _ _ _ _ _ => trivial) (fun _ _ _ _ _ _ => trivial) trivial h).1

/-! ## The route -/

/-- The leg of a ride comes before those from its city on. -/
theorem Ride.legs {cities : List (Fin n)} {legs : List (Leg n)}
    (h : Ride d startCity startT timeLmt s u route)
    (hlegs : s.legs d (route.destCity :: cities) = some legs) :
    s.legs d (u :: route.destCity :: cities) = some (route.leg u (s.departTime startT u) :: legs) := by
  simp only [Search.legs, h.index, hlegs, Option.bind_eq_bind, Option.bind_some, h.time]
  rfl

theorem Ride.departTime (h : Ride d startCity startT timeLmt s u route)
    (hprev : s.prev route.destCity = some u) :
    s.departTime startT route.destCity = route.arrivalTime (s.departTime startT u) := by
  rw [← h.time]
  simp only [Search.departTime, hprev]

theorem Tree.departTime_start (h : Tree d startCity startT timeLmt s) :
    s.departTime startT startCity = startT := by
  rw [departTime, h.prev_start]

theorem Tree.journey_routePass {fuel : ℕ} {pos : Fin n} {route cities : List (Fin n)}
    {legs legs' : List (Leg n)} (h : Tree d startCity startT timeLmt s) (hvisit : s.visit pos = true)
    (hlegs : s.legs d (pos :: route) = some legs)
    (hpass : s.routePass startCity fuel pos route = some cities)
    (hlegs' : s.legs d cities = some legs') :
    ∃ before, legs' = before ++ legs ∧ Journey d startCity startT before pos (s.departTime startT pos) := by
  induction fuel generalizing pos route legs with
  | zero => cases hpass
  | succ fuel ih =>
      simp only [routePass] at hpass
      split at hpass
      · rename_i hnone
        cases hpass
        obtain rfl := h.visit_prev hvisit hnone
        rw [hlegs] at hlegs'
        cases hlegs'
        rw [departTime, hnone]
        exact ⟨[], rfl, .stay _ _⟩
      · rename_i p hp
        obtain ⟨r, rfl, hride⟩ := h.ride hp
        obtain ⟨before, rfl, hbefore⟩ := ih (h.prev_visit hp) (hride.legs hlegs) hpass
        refine ⟨before ++ [r.leg p (s.departTime startT p)], by rw [List.append_assoc]; rfl, ?_⟩
        rw [hride.departTime hp]
        exact hbefore.append (.single r (List.mem_of_getElem? hride.index))

end Search

/-- The route that a search outputs is a journey to the destination. The risk that it reports is the
label of the last ride, whatever the risk of the others. -/
theorem findPlan_journey {plan : Plan n}
    (h : findPlan d startCity destCity startT timeLmt = some (some plan)) :
    ∃ before city time route, plan.legs = before ++ [AbstractRoute.leg route city time] ∧
      Journey d startCity startT before city time ∧ route ∈ d.routeMap city ∧
      route.destCity = destCity ∧ (route.leg city time).label d startCity time = some plan.totalRisk ∧
      plan.totalTime = route.arrivalTime time - startT := by
  simp only [findPlan, Search.plan, Option.bind_eq_bind, Option.bind_eq_some_iff] at h
  obtain ⟨s, hrun, h⟩ := h
  split at h
  · rename_i hvisit
    simp only [Option.bind_eq_some_iff, Option.some.injEq] at h
    obtain ⟨cities, hpass, legs, hlegs, time, htime, rfl⟩ := h
    have htree := Search.Tree.run hrun
    simp only [Search.prevTime, Option.bind_eq_bind, Option.bind_eq_some_iff, Option.some.injEq] at htime
    obtain ⟨p, hp, rfl⟩ := htime
    obtain ⟨r, rfl, hride⟩ := htree.ride hp
    obtain ⟨fuel, rfl⟩ : ∃ fuel, n = fuel + 1 := ⟨n - 1, by have hlt := p.isLt; omega⟩
    simp only [Search.routePass, hp] at hpass
    have hnone : s.legs d [r.destCity] = some [] := rfl
    obtain ⟨before, hbefore, hjourney⟩ :=
      htree.journey_routePass (htree.prev_visit hp) (hride.legs hnone) hpass hlegs
    exact ⟨before, p, _, r, hbefore, hjourney, List.mem_of_getElem? hride.index, rfl, hride.label,
      by rw [← hride.time]⟩
  · cases h

/-- The legs of a route that is found lead to the destination. -/
theorem journey_of_findPlan {plan : Plan n}
    (h : findPlan d startCity destCity startT timeLmt = some (some plan)) :
    ∃ t, Journey d startCity startT plan.legs destCity t := by
  obtain ⟨before, city, time, route, hlegs, hbefore, hroute, rfl, -, -⟩ := findPlan_journey h
  rw [hlegs]
  exact ⟨_, hbefore.append (.single route hroute)⟩

end TermCollection.Travel
