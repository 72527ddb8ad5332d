import TermCollection.Lib.Predecessors
import TermCollection.Travel.BackendBase
import TermCollection.Travel.Lemmas.Search

/-!
# Itineraries

What the output of a search is read from: the cities before each city, the numbers of the departures and
the times of arrival belong to one journey.
-/

namespace TermCollection.Travel

variable {n : ℕ} {d : AbstractData n} {startCity destCity curCity city mid u v pos : Fin n}
variable {startT prevTime time t i fuel : ℕ} {timeLmt label : ℤ} {route : AbstractRoute n} {s : Search n}
variable {leg : Leg n} {legs legs' : List (Leg n)} {chain cities : List (Fin n)}

/-! ## What a route has to be -/

/-- The first time from the given one on at which a route starts, which it does every day. -/
structure AbstractRoute.EarliestDeparture (route : AbstractRoute n) (time departure : ℕ) : Prop where
  daily : ∃ day : ℕ, departure = route.startTime + day * (24 * 60)
  not_before : time ≤ departure
  earliest : ∀ day : ℤ, (time : ℤ) ≤ route.startTime + day * (24 * 60) →
    (departure : ℤ) ≤ route.startTime + day * (24 * 60)

/-- A leg is the ride of the departure that the search has noted for its two cities. -/
structure Leg.Noted (d : AbstractData n) (s : Search n) (time : ℕ) (leg : Leg n) : Prop where
  index : (d.routeMap leg.cityId)[s.routeIndex leg.cityId leg.nextCity]? = some leg.route
  dest : leg.route.destCity = leg.nextCity
  spendTime : leg.arrival = s.spendTime leg.cityId leg.nextCity
  departure : ∃ departure, leg.route.EarliestDeparture time departure ∧
    leg.arrival = departure + leg.route.costTime

/-- The legs lead from a city, at a time, to another one. -/
inductive Itinerary (d : AbstractData n) (s : Search n) : Fin n → ℕ → List (Leg n) → Fin n → ℕ → Prop
  | stay (city : Fin n) (time : ℕ) : Itinerary d s city time [] city time
  | ride {time t : ℕ} {leg : Leg n} {legs : List (Leg n)} {dest : Fin n} :
      leg.Noted d s time → Itinerary d s leg.nextCity leg.arrival legs dest t →
      Itinerary d s leg.cityId time (leg :: legs) dest t

/-- The tasks of a journey, one after the other in time and place. -/
structure TasksOf (d : AbstractData n) (startCity : Fin n) (startT : ℕ) (legs : List (Leg n))
    (tasks : List Task) : Prop where
  kinds : tasks.map Task.behaviorType = legs.flatMap fun _ => [.waiting, .traveling, .arrive]
  first : ∀ task ∈ tasks.head?, task.startTime = startT ∧ task.fromCity = (d.cityIdHash startCity).name
  chain : tasks.IsChain fun task next => next.startTime = task.endTime ∧ next.fromCity = task.destCity

/-- The route that is output for a settled destination. -/
structure ConsistentRoute (d : AbstractData n) (s : Search n) (startCity destCity : Fin n) (startT : ℕ)
    (timeLmt : ℤ) (cities : List (Fin n)) (plan : Plan n) : Prop where
  prev : cities.IsChain fun city next => s.prev next = some city
  first : cities.head? = some startCity
  last : cities.getLast? = some destCity
  nodup : cities.Nodup
  slots : cities.length ≤ n
  legs : s.legs d cities = some plan.legs
  itinerary : ∃ t : ℕ, Itinerary d s startCity startT plan.legs destCity t ∧ (t : ℤ) ≤ startT + timeLmt ∧
    plan.totalTime = t - startT
  tasks : TasksOf d startCity startT plan.legs (tasks d startT plan.legs)

/-! ## Departures -/

theorem AbstractRoute.earliest_realStartTime (hdaily : route.startTime < 24 * 60) (time : ℕ) :
    route.EarliestDeparture time (route.realStartTime time) := by
  obtain ⟨day, hday, hlt⟩ := addDays_earliest time time route.startTime
  rw [← realStartTime] at hday hlt
  refine ⟨⟨day, hday⟩, ?_, fun day' hday' => ?_⟩
  · exact addDays_spec time time route.startTime (Nat.le_add_left _ _)
  · rcases Nat.eq_zero_or_pos day with rfl | hpos
    · omega
    · have := hlt hpos
      omega

namespace Search

/-! ## The cities before a city -/

/-- Every visited city is reached from the start through visited cities. -/
def Reached (startCity : Fin n) (s : Search n) : Prop :=
  ∀ v, s.visit v = true → ∃ chain, PrevChain s.prev startCity v chain ∧ ∀ city ∈ chain, s.visit city = true

theorem Reached.init (startCity : Fin n) (startT : ℕ) : Reached startCity (init startCity startT) := by
  intro v hv
  obtain rfl : v = startCity := of_decide_eq_true hv
  refine ⟨[v], .start, fun city hcity => ?_⟩
  rw [List.mem_singleton] at hcity
  subst hcity
  exact hv

theorem Reached.relabel (h : Reached startCity s) (hfresh : s.visit route.destCity = false) :
    Reached startCity (s.relabel curCity i route prevTime label) := by
  intro v hv
  obtain ⟨chain, hchain, hvisit⟩ := h v hv
  refine ⟨chain, hchain.congr fun city hcity => if_neg ?_, hvisit⟩
  rintro rfl
  rw [hvisit _ hcity] at hfresh
  cases hfresh

theorem Reached.visitCity (h : Reached startCity s) (htree : Tree d startCity startT timeLmt s)
    (hprev : s.prev v = some u) : Reached startCity (s.visitCity v) := by
  intro w hw
  have hvisited : ∀ city, s.visit city = true → (s.visitCity v).visit city = true := by
    intro city hcity
    simp only [Search.visitCity, hcity, Bool.or_true]
  have hself : (s.visitCity v).visit v = true := by
    simp only [Search.visitCity, decide_true, Bool.true_or]
  simp only [Search.visitCity, Bool.or_eq_true, decide_eq_true_eq] at hw
  rcases hw with rfl | hw
  · obtain ⟨chain, hchain, hvisit⟩ := h u (htree.prev_visit hprev)
    refine ⟨chain ++ [w], .next hchain hprev, fun city hcity => ?_⟩
    rcases List.mem_append.mp hcity with hcity | hcity
    · exact hvisited city (hvisit city hcity)
    · rw [List.mem_singleton.mp hcity]
      exact hself
  · obtain ⟨chain, hchain, hvisit⟩ := h w hw
    exact ⟨chain, hchain, fun city hcity => hvisited city (hvisit city hcity)⟩

theorem Reached.run (h : run d startCity destCity startT timeLmt = some s) :
    Tree d startCity startT timeLmt s ∧ Reached startCity s :=
  run_rule (fun _ _ _ _ _ _ hdeparts hP => hP.relabel hdeparts.fresh)
    (fun _ _ _ htree hprev hP => hP.visitCity htree hprev) (.init startCity startT) h

/-! ## The route -/

theorem routePass_chain (hchain : PrevChain s.prev startCity pos chain) (hstart : s.prev startCity = none)
    (hfuel : chain.length ≤ fuel) (route : List (Fin n)) :
    s.routePass startCity fuel pos route = some (chain ++ route) := by
  induction hchain generalizing fuel route with
  | start =>
      obtain ⟨k, rfl⟩ : ∃ k, fuel = k + 1 := Nat.exists_eq_add_of_le' hfuel
      simp only [routePass, hstart]
      rfl
  | @next a b chain _ hprev ih =>
      rw [List.length_append, List.length_singleton] at hfuel
      obtain ⟨k, rfl⟩ : ∃ k, fuel = k + 1 :=
        Nat.exists_eq_add_of_le' (Nat.le_trans (Nat.le_add_left _ _) hfuel)
      simp only [routePass, hprev]
      rw [ih (Nat.le_of_add_le_add_right hfuel), List.append_assoc]
      rfl

/-- What every ride of the tree keeps is true of the legs along a chain of cities. -/
theorem Tree.along {P : List (Fin n) → List (Leg n) → Fin n → Prop}
    (h : Tree d startCity startT timeLmt s) (hstart : P [startCity] [] startCity)
    (hstep : ∀ {chain legs u} {route : AbstractRoute n}, s.prev route.destCity = some u →
      Ride d startCity startT timeLmt s u route → P chain legs u →
      P (chain ++ [route.destCity]) (legs ++ [route.leg u (s.departTime startT u)]) route.destCity)
    (hchain : PrevChain s.prev startCity pos chain) (hlegs : s.legs d (pos :: cities) = some legs) :
    ∃ before, s.legs d (chain ++ cities) = some (before ++ legs) ∧ P chain before pos := by
  induction hchain generalizing cities legs with
  | start => exact ⟨[], hlegs, hstart⟩
  | @next a b chain _ hprev ih =>
      obtain ⟨r, rfl, hride⟩ := h.ride hprev
      obtain ⟨before, hbefore, hP⟩ := ih (hride.legs hlegs)
      refine ⟨before ++ [r.leg a (s.departTime startT a)], ?_, hstep hprev hride hP⟩
      rw [List.append_assoc, List.singleton_append, hbefore, List.append_assoc, List.singleton_append]

/-- The legs along a chain of cities lead through them. -/
theorem Tree.journey (h : Tree d startCity startT timeLmt s) (hchain : PrevChain s.prev startCity pos chain)
    (hlegs : s.legs d (pos :: cities) = some legs) :
    ∃ before, s.legs d (chain ++ cities) = some (before ++ legs) ∧
      Journey d startCity startT before pos (s.departTime startT pos) ∧
      chain = startCity :: before.map Leg.nextCity := by
  refine h.along (P := fun chain before pos => Journey d startCity startT before pos
    (s.departTime startT pos) ∧ chain = startCity :: before.map Leg.nextCity) ?_ ?_ hchain hlegs
  · rw [h.departTime_start]
    exact ⟨.stay _ _, rfl⟩
  · rintro _ before u route hprev hride ⟨hjourney, rfl⟩
    rw [hride.departTime hprev, List.map_append]
    exact ⟨hjourney.append (.single route (List.mem_of_getElem? hride.index)), rfl⟩

/-- For a settled destination the legs along its chain are output. -/
theorem findPlan_chain (hne : startCity ≠ destCity)
    (hrun : run d startCity destCity startT timeLmt = some s) (hsettled : s.visit destCity = true) :
    ∃ cities p legs, PrevChain s.prev startCity destCity cities ∧ s.prev destCity = some p ∧
      cities.length ≤ n ∧ s.routePass startCity n destCity [] = some cities ∧
      s.legs d cities = some legs ∧ findPlan d startCity destCity startT timeLmt =
        some (some ⟨legs, s.spendTime p destCity - startT, s.risks destCity⟩) := by
  obtain ⟨htree, hreached⟩ := Reached.run hrun
  obtain ⟨cities, hchain, -⟩ := hreached destCity hsettled
  obtain ⟨p, hp⟩ : ∃ p, s.prev destCity = some p := by
    cases hprev : s.prev destCity with
    | none => exact absurd (htree.visit_prev hsettled hprev).symm hne
    | some p => exact ⟨p, rfl⟩
  have hslots : cities.length ≤ n := by
    have hle := hchain.length_le htree.prev_start
    rwa [Fintype.card_fin] at hle
  have hpass : s.routePass startCity n destCity [] = some cities := by
    rw [routePass_chain hchain htree.prev_start hslots, List.append_nil]
  have hnone : s.legs d [destCity] = some [] := rfl
  obtain ⟨legs, hlegs, -, -⟩ := htree.journey hchain hnone
  rw [List.append_nil, List.append_nil] at hlegs
  refine ⟨cities, p, legs, hchain, hp, hslots, hpass, hlegs, ?_⟩
  simp only [findPlan, hrun, plan, hsettled, hpass, hlegs, Search.prevTime, hp, Option.bind_eq_bind,
    Option.bind_some, ↓reduceIte]

theorem findPlan_unsettled (hrun : run d startCity destCity startT timeLmt = some s)
    (hfresh : s.visit destCity = false) : findPlan d startCity destCity startT timeLmt = some none := by
  simp only [findPlan, hrun, plan, hfresh, Option.bind_eq_bind, Option.bind_some, Bool.false_eq_true,
    ↓reduceIte]

/-- The search outputs a route just when it has visited the destination. -/
theorem findPlan_of_run (hne : startCity ≠ destCity)
    (h : run d startCity destCity startT timeLmt = some s) :
    ∃ found, findPlan d startCity destCity startT timeLmt = some found ∧
      (found.isSome = true ↔ s.visit destCity = true) := by
  cases hvisit : s.visit destCity with
  | false => exact ⟨none, findPlan_unsettled h hvisit, iff_of_false Bool.false_ne_true Bool.false_ne_true⟩
  | true =>
      obtain ⟨cities, p, legs, -, -, -, -, -, hplan⟩ := findPlan_chain hne h hvisit
      exact ⟨_, hplan, iff_of_true rfl rfl⟩

end Search

theorem Itinerary.append (h : Itinerary d s city time legs mid t)
    (h' : Itinerary d s mid t legs' destCity prevTime) :
    Itinerary d s city time (legs ++ legs') destCity prevTime := by
  induction h with
  | stay => exact h'
  | ride hnoted _ ih => exact .ride hnoted (ih h')

/-- The leg of a ride of the tree. -/
theorem Search.Ride.noted (h : Ride d startCity startT timeLmt s u route)
    (hdaily : route.startTime < 24 * 60) :
    (route.leg u (s.departTime startT u)).Noted d s (s.departTime startT u) := by
  refine ⟨h.index, rfl, h.time.symm, _, route.earliest_realStartTime hdaily _, ?_⟩
  rw [← route.add_waitTime]
  rfl

theorem Search.Tree.itinerary (h : Tree d startCity startT timeLmt s)
    (hdaily : ∀ city, ∀ route ∈ d.routeMap city, route.startTime < 24 * 60)
    (hchain : PrevChain s.prev startCity pos chain) (hlegs : s.legs d (pos :: cities) = some legs) :
    ∃ before, s.legs d (chain ++ cities) = some (before ++ legs) ∧
      Itinerary d s startCity startT before pos (s.departTime startT pos) := by
  refine h.along (P := fun _ before pos => Itinerary d s startCity startT before pos
    (s.departTime startT pos)) ?_ ?_ hchain hlegs
  · rw [h.departTime_start]
    exact .stay _ _
  · intro _ before u route hprev hride hitinerary
    have hnoted := hride.noted (hdaily u route (List.mem_of_getElem? hride.index))
    rw [hride.departTime hprev]
    exact hitinerary.append (.ride hnoted (.stay _ _))

/-! ## Tasks -/

theorem Itinerary.tasksOf (h : Itinerary d s city time legs mid t) :
    TasksOf d city time legs (tasks d time legs) := by
  induction h with
  | stay =>
      refine ⟨rfl, fun task htask => ?_, .nil⟩
      cases htask
  | @ride time t leg legs dest _ _ ih =>
      constructor
      case kinds =>
        rw [tasks, List.map_append, ih.kinds, List.flatMap_cons]
        rfl
      case first =>
        intro task htask
        cases htask
        exact ⟨rfl, rfl⟩
      case chain =>
        refine List.IsChain.append ?_ ih.chain ?_
        · simp only [Leg.tasks, List.isChain_cons_cons, List.isChain_singleton, and_self]
        · intro task htask next hnext
          cases htask
          exact ih.first next hnext

/-! ## The output -/

/-- The output for a settled destination is read from one journey. -/
theorem findPlan_settled (hne : startCity ≠ destCity)
    (hdaily : ∀ city, ∀ route ∈ d.routeMap city, route.startTime < 24 * 60)
    (hrun : Search.run d startCity destCity startT timeLmt = some s) (hsettled : s.visit destCity = true) :
    ∃ cities plan, s.routePass startCity n destCity [] = some cities ∧
      findPlan d startCity destCity startT timeLmt = some (some plan) ∧
      ConsistentRoute d s startCity destCity startT timeLmt cities plan := by
  have htree := Search.Tree.run hrun
  obtain ⟨cities, p, legs, hchain, hp, hslots, hpass, hlegs, hplan⟩ :=
    Search.findPlan_chain hne hrun hsettled
  have hnone : s.legs d [destCity] = some [] := rfl
  obtain ⟨before, hbefore, hitinerary⟩ := htree.itinerary hdaily hchain hnone
  rw [List.append_nil, List.append_nil, hlegs] at hbefore
  obtain rfl := Option.some.inj hbefore
  obtain ⟨r, rfl, hride⟩ := htree.ride hp
  have hlimit := hride.limit
  refine ⟨cities, _, hpass, hplan, ?_⟩
  refine ⟨hchain.isChain, hchain.head_last.1, hchain.head_last.2, hchain.nodup htree.prev_start, hslots,
    hlegs, ⟨_, hitinerary, ?_, ?_⟩, hitinerary.tasksOf⟩
  · rw [InTime] at hlimit
    rw [hride.departTime hp]
    omega
  · rw [hride.departTime hp, ← hride.time]

/-- So are the message, which names the rides in their order, and the tasks of a customer who sets off. -/
theorem settled_route_consistent (hne : startCity ≠ destCity)
    (hdaily : ∀ city, ∀ route ∈ d.routeMap city, route.startTime < 24 * 60)
    (hrun : Search.run d startCity destCity startT timeLmt = some s) (hsettled : s.visit destCity = true)
    (b : BackendBase) (setoff : Bool) :
    ∃ cities plan, s.routePass startCity n destCity [] = some cities ∧
      findPlan d startCity destCity startT timeLmt = some (some plan) ∧
      ConsistentRoute d s startCity destCity startT timeLmt cities plan ∧
      (let newTasks := if setoff then tasks d startT plan.legs else []
      b.runWithAlgorithmDij d startCity destCity startT setoff timeLmt = some
        ({ b with customer := { b.customer with taskQueue := b.customer.taskQueue ++ newTasks } },
          [.newMessage b.sysTime ((plan.legs.map (Leg.text d)).foldl (· ++ ·) "" ++
            "\n\t总耗时:" ++ toString (plan.totalTime / 60) ++ "小时" ++ toString (plan.totalTime % 60) ++ "分钟" ++
            "\n\t总危险值:" ++ toString plan.totalRisk)])) := by
  obtain ⟨cities, plan, hpass, hplan, hconsistent⟩ := findPlan_settled hne hdaily hrun hsettled
  refine ⟨cities, plan, hpass, hplan, hconsistent, ?_⟩
  simp only [BackendBase.runWithAlgorithmDij, hplan, Option.bind_eq_bind, Option.bind_some]
  rfl

/-- Three cities, with a connection from the first to the last one and a ride of the given time. -/
def detour (costTime : ℕ) : AbstractData 3 where
  cityIdHash := fun city => ⟨1 / 2, if city = 0 then "A" else if city = 1 then "B" else "C", by decide +kernel⟩
  routeMap := fun city =>
    if city = 0 then [⟨.car, 1, 0, 180, 1⟩, ⟨.car, 2, 0, costTime, 2⟩]
    else if city = 1 then [⟨.car, 2, 180, 120, 3⟩]
    else []

/-- A customer sets off on a connection by way of the city 1. -/
theorem settled_route_consistent_example :
    ∃ s, Search.run (detour 240) 0 2 0 600 = some s ∧ ∃ cities plan,
      s.routePass 0 3 2 [] = some cities ∧ findPlan (detour 240) 0 2 0 600 = some (some plan) ∧
      ConsistentRoute (detour 240) s 0 2 0 600 cities plan ∧
      ∃ text, (newBackendBase 0).runWithAlgorithmDij (detour 240) 0 2 0 true 600 =
        some ({ newBackendBase 0 with customer := ⟨0, tasks (detour 240) 0 plan.legs⟩ },
          [.newMessage 0 text]) := by
  have hfound : (Search.run (detour 240) 0 2 0 600).any (·.visit 2) = true := by decide +kernel
  obtain ⟨s, hrun, hsettled⟩ := (Option.any_eq_true _ _).mp hfound
  obtain ⟨cities, plan, hpass, hplan, hconsistent, hset⟩ :=
    settled_route_consistent (by decide) (by decide +kernel) hrun hsettled (newBackendBase 0) true
  exact ⟨s, hrun, cities, plan, hpass, hplan, hconsistent, _, hset⟩

end TermCollection.Travel
