import Mathlib.Logic.Relation
import TermCollection.Travel.Itineraries
import TermCollection.Travel.Lemmas.Settling
import TermCollection.Travel.Punctuality

/-!
# The search without a limit

With no limit that matters, a search goes on until no departure leads out of the visited cities. So it comes
to every city that the timetable connects with the start.
-/

namespace TermCollection.Travel

variable {n : ℕ} {d : AbstractData n} {startCity destCity city pos : Fin n} {startT time t : ℕ} {timeLmt : ℤ}
variable {route : AbstractRoute n} {legs : List (Leg n)} {ways : List (List (Departure n))}
variable {W : List (Departure n)} {s : Search n}

/-! ## The timetable as a graph -/

/-- A departure leads from the one city to the other. -/
def Connection (d : AbstractData n) (city next : Fin n) : Prop :=
  ∃ route ∈ d.routeMap city, route.destCity = next

/-- No city of a journey comes twice. -/
def Simple (startCity : Fin n) (legs : List (Leg n)) : Prop := (startCity :: legs.map Leg.nextCity).Nodup

/-- The journeys without a city twice take less time than the limit, and so does a departure from the start city
back to it. The risk of a departure at their end is less than `INF`. -/
structure Moderate (d : AbstractData n) (startCity : Fin n) (startT : ℕ) (timeLmt : ℤ) : Prop where
  short : ∀ {legs city t}, Journey d startCity startT legs city t → Simple startCity legs →
    (t : ℤ) - startT < timeLmt
  back : ∀ route ∈ d.routeMap startCity, route.destCity = startCity →
    (route.arrivalTime startT : ℤ) - startT < timeLmt
  risks : ∀ {legs city t}, Journey d startCity startT legs city t → Simple startCity legs →
    ∀ route ∈ d.routeMap city, ∃ label < INF, (route.leg city t).label d startCity t = some label

theorem Simple.ride (h : Simple startCity legs) (hnew : route.destCity ∉ startCity :: legs.map Leg.nextCity) :
    Simple startCity (legs ++ [route.leg city time]) := by
  have hconcat := List.Nodup.concat hnew h
  rw [List.concat_eq_append] at hconcat
  rw [Simple, List.map_append, ← List.cons_append]
  exact hconcat

/-- A way is a journey without a city twice. -/
theorem simple_of_way (h : (network d startCity destCity startT timeLmt).Way W) :
    Simple startCity (W.map Departure.leg) := by
  rw [Simple, List.map_map]
  exact h.nodup

/-- A departure to another city than those of a way arrives within the limit. -/
theorem Moderate.arrival_lt (hm : Moderate d startCity startT timeLmt)
    (hway : (network d startCity destCity startT timeLmt).Way W)
    (hroute : route ∈ d.routeMap (endCity startCity W))
    (hnew : W ≠ [] → route.destCity ∉ startCity :: W.map fun e => e.route.destCity) :
    (route.arrivalTime (endTime startT W) : ℤ) - startT < timeLmt := by
  by_cases hback : route.destCity ∈ startCity :: W.map fun e => e.route.destCity
  case pos =>
    obtain rfl : W = [] := by
      by_contra hne
      exact hnew hne hback
    exact hm.back route hroute (List.mem_singleton.mp hback)
  case neg =>
    refine hm.short ((journey_of_way hway).append (.single route hroute)) ((simple_of_way hway).ride ?_)
    rwa [List.map_map]

/-- What a search computes of such departures are numbers in `int`. -/
theorem Moderate.computable (hm : Moderate d startCity startT timeLmt)
    (hfits : (startT : ℤ) + timeLmt ≤ 2 ^ 31) : Computable d startCity destCity startT timeLmt := by
  intro W hway _ route hroute hnew
  have harrival := hm.arrival_lt hway hroute hnew
  have hlt : route.arrivalTime (endTime startT W) < 2 ^ 31 := by omega
  have hreal := route.add_waitTime (endTime startT W)
  rw [AbstractRoute.arrivalTime] at hlt
  constructor
  case start => omega
  case spent =>
    split
    · omega
    · exact hlt
  case arrival => exact fun _ => hlt
  case label =>
    intro _
    obtain ⟨label, -, hlabel⟩ := hm.risks (journey_of_way hway) (simple_of_way hway) route hroute
    exact ⟨label, hlabel⟩

namespace Search

/-- No departure leads out of the visited cities. -/
def Closed (d : AbstractData n) (s : Search n) : Prop :=
  ∀ city, s.visit city = true → ∀ route ∈ d.routeMap city, s.visit route.destCity = true

/-- When no departure leads on, the visited cities are closed: none is too late. -/
theorem Ended.isClosed (hm : Moderate d startCity startT timeLmt)
    (h : Ended d startCity destCity startT timeLmt ways s) (hunsettled : s.visit destCity = false) :
    Closed d s := by
  intro city hvisit route hroute
  obtain ⟨W, hW, rfl⟩ := h.order.visit.mp hvisit
  have hway := h.order.settled.way hW
  by_contra hfresh
  rw [Bool.not_eq_true] at hfresh
  have hnew : route.destCity ∉ startCity :: W.map fun e => e.route.destCity := fun hmem =>
    absurd (hfresh.symm.trans (h.order.visit.mpr (h.order.settled.exists_of_mem hW hmem))) Bool.false_ne_true
  exact h.closed hunsettled (e := ⟨endCity startCity W, endTime startT W, route⟩)
    ⟨hW, ⟨h.order.fresh.mpr hunsettled W hW, rfl, rfl, hroute, (hm.arrival_lt hway hroute fun _ => hnew).le,
      hm.risks (journey_of_way hway) (simple_of_way hway) route hroute⟩, h.order.fresh.mpr hfresh⟩

/-! ## Reachable cities -/

theorem reachable_of_journey {legs : List (Leg n)} (h : Journey d city time legs pos t) :
    Relation.ReflTransGen (Connection d) city pos := by
  induction h with
  | stay => exact .refl
  | ride route hroute _ ih => exact .head ⟨route, hroute, rfl⟩ ih

theorem Closed.visit (h : Closed d s) (hstart : s.visit startCity = true)
    (hpath : Relation.ReflTransGen (Connection d) startCity pos) : s.visit pos = true := by
  induction hpath with
  | refl => exact hstart
  | tail _ hconnection ih =>
      obtain ⟨route, hroute, rfl⟩ := hconnection
      exact h _ ih route hroute

/-- The search has a result, and visits the destination if and only if it is reachable. -/
theorem run_visits (hm : Moderate d startCity startT timeLmt) (hfits : (startT : ℤ) + timeLmt ≤ 2 ^ 31)
    (hne : startCity ≠ destCity) :
    ∃ s, run d startCity destCity startT timeLmt = some s ∧
      (s.visit destCity = true ↔ Relation.ReflTransGen (Connection d) startCity destCity) := by
  obtain ⟨hends, hdefined⟩ := run_ends d startT timeLmt hne
  obtain ⟨s, hrun⟩ := Option.isSome_iff_exists.mp (hdefined (hm.computable hfits))
  obtain ⟨ways, hended⟩ := hends s hrun
  refine ⟨s, hrun, fun hvisit => ?_, fun hpath => ?_⟩
  · obtain ⟨W, hW, rfl⟩ := hended.order.visit.mp hvisit
    exact reachable_of_journey (journey_of_way (hended.order.settled.way hW))
  · by_contra hunsettled
    rw [Bool.not_eq_true] at hunsettled
    have hclosed := hended.isClosed hm hunsettled
    exact absurd ((hclosed.visit hended.tree.visit_start hpath).symm.trans hunsettled) Bool.false_ne_true.symm

end Search

/-! ## The policy -/

/-- The minutes of a query that is not refused. -/
theorem startT_lt {b : BackendBase} {q : Query n} (h : b.refusal d q = none) : b.startT q < 2 * (24 * 60) := by
  simp only [BackendBase.refusal] at h
  split at h
  · cases h
  · split at h
    · cases h
    · split at h
      · cases h
      · rw [BackendBase.startT]
        split <;> omega

/-- The text of a route names its rides in their order, then the time and the label of the last one. -/
theorem Plan.text_ne (d : AbstractData n) (plan : Plan n) : plan.text d ≠ "No such path found" := by
  intro heq
  have hline : '\n' ∈ (plan.text d).toList := by
    simp only [Plan.text, String.toList_append, List.mem_append]
    exact .inl (.inr (by decide))
  rw [heq] at hline
  exact absurd hline (by decide)

/-- What a search without a limit shows for its result: the rides of a journey, the time and the label of the
last ride, or that there is no path. -/
structure Answers (d : AbstractData n) (startCity destCity : Fin n) (startT : ℕ) (found : Option (Plan n))
    (text : QString) : Prop where
  none : found = none → text = "No such path found"
  some : ∀ {plan}, found = some plan → text ≠ "No such path found" ∧ plan.legs ≠ [] ∧
    (∃ t, Journey d startCity startT plan.legs destCity t ∧ plan.totalTime = t - startT) ∧
    text = (plan.legs.map (Leg.text d)).foldl (· ++ ·) "" ++
      "\n\t总耗时:" ++ toString (plan.totalTime / 60) ++ "小时" ++ toString (plan.totalTime % 60) ++ "分钟" ++
      "\n\t总危险值:" ++ toString plan.totalRisk

/-- A query with the policy `SafetyRefered` that is not refused shows what a search without a limit finds. -/
theorem slotStartQuery_safety {b : BackendBase} {q : Query n} {found : Option (Plan n)}
    (hrefusal : b.refusal d q = none) (hpolicy : q.policy = .safetyRefered)
    (hfound : findPlan d q.fromCity q.destCity (b.startT q) noTimeLmt = some found) :
    ∃ b' text, b.slotStartQuery d q = some (b', [.newMessage b.sysTime "Start query",
      .newMessage b.sysTime text]) ∧ Answers d q.fromCity q.destCity (b.startT q) found text := by
  simp only [BackendBase.slotStartQuery, hrefusal, hpolicy, BackendBase.runWithAlgorithmDij, hfound]
  cases found with
  | none =>
      refine ⟨_, _, rfl, ⟨fun _ => rfl, fun h => ?_⟩⟩
      cases h
  | some plan =>
      refine ⟨_, _, rfl, ⟨fun h => ?_, fun h => ?_⟩⟩
      · cases h
      cases h
      obtain ⟨before, city, time, route, hlegs, hbefore, hroute, hdest, -, htime⟩ := findPlan_journey hfound
      refine ⟨plan.text_ne d, by rw [hlegs]; simp, ⟨_, ?_, htime⟩, rfl⟩
      rw [hlegs, ← hdest]
      exact hbefore.append (.single route hroute)

/-- With the policy `SafetyRefered` the search visits the destination, and a route is shown instead of the lack
of one, if and only if the timetable connects the start with it. -/
theorem safety_search_complete (hne : startCity ≠ destCity) (hstart : startT < 2 * (24 * 60))
    (hm : Moderate d startCity startT noTimeLmt) :
    ∃ s found, Search.run d startCity destCity startT noTimeLmt = some s ∧
      findPlan d startCity destCity startT noTimeLmt = some found ∧
      (s.visit destCity = true ↔ Relation.ReflTransGen (Connection d) startCity destCity) ∧
      (found.isSome = true ↔ Relation.ReflTransGen (Connection d) startCity destCity) ∧
      ∀ (b : BackendBase) (q : Query n), b.refusal d q = none → q.policy = .safetyRefered →
        q.fromCity = startCity → q.destCity = destCity → b.startT q = startT →
        ∃ b' text, b.slotStartQuery d q = some (b', [.newMessage b.sysTime "Start query",
          .newMessage b.sysTime text]) ∧ Answers d startCity destCity startT found text := by
  have hfits : (startT : ℤ) + noTimeLmt ≤ 2 ^ 31 := by
    rw [noTimeLmt]
    omega
  obtain ⟨s, hrun, hvisit⟩ := Search.run_visits hm hfits hne
  obtain ⟨found, hfound, hsome⟩ := Search.findPlan_of_run hne hrun
  refine ⟨s, found, hrun, hfound, hvisit, hsome.trans hvisit, ?_⟩
  rintro b q hrefusal hpolicy rfl rfl rfl
  exact slotStartQuery_safety hrefusal hpolicy hfound

theorem nightBus_moderate : Moderate nightBus 0 0 noTimeLmt := by
  have hlast : ∀ route ∈ nightBus.routeMap 1, False := by simp [nightBus]
  have hfirst : ∀ route ∈ nightBus.routeMap 0, route = ⟨.car, 1, 3, 60, 1⟩ := by simp [nightBus]
  have hcases : ∀ {legs city t}, Journey nightBus 0 0 legs city t →
      (city = 0 ∧ t = 0) ∨ (city = 1 ∧ t = 63) := by
    intro legs city t h
    cases h with
    | stay => exact .inl ⟨rfl, rfl⟩
    | ride route hroute hrest =>
        obtain rfl := hfirst route hroute
        cases hrest with
        | stay => exact .inr ⟨rfl, by decide⟩
        | ride route' hroute' _ => exact (hlast route' hroute').elim
  constructor
  case short =>
    intro legs city t h _
    rcases hcases h with ⟨-, rfl⟩ | ⟨-, rfl⟩ <;> decide
  case back =>
    intro route hroute hback
    obtain rfl := hfirst route hroute
    cases hback
  case risks =>
    intro legs city t h _ route hroute
    rcases hcases h with ⟨rfl, rfl⟩ | ⟨rfl, rfl⟩
    · obtain rfl := hfirst route hroute
      have hlabel : ((AbstractRoute.leg ⟨.car, 1, 3, 60, 1⟩ 0 0).label nightBus 0 0).any (· < INF) = true := by
        decide +kernel
      obtain ⟨label, hlabel, hless⟩ := (Option.any_eq_true _ _).mp hlabel
      exact ⟨label, of_decide_eq_true hless, hlabel⟩
    · exact (hlast route hroute).elim

theorem safety_search_complete_example : (0 : Fin 2) ≠ 1 ∧ Moderate nightBus 0 0 noTimeLmt ∧
    ∃ s found, Search.run nightBus 0 1 0 noTimeLmt = some s ∧
      findPlan nightBus 0 1 0 noTimeLmt = some found ∧ s.visit 1 = true ∧ found.isSome = true := by
  have hpath : Relation.ReflTransGen (Connection nightBus) 0 1 :=
    .single ⟨⟨.car, 1, 3, 60, 1⟩, by simp [nightBus], rfl⟩
  obtain ⟨s, found, hrun, hfound, hvisit, hsome, -⟩ :=
    safety_search_complete (by decide : (0 : Fin 2) ≠ 1) (by decide) nightBus_moderate
  exact ⟨by decide, nightBus_moderate, s, found, hrun, hfound, hvisit.mpr hpath, hsome.mpr hpath⟩

end TermCollection.Travel
