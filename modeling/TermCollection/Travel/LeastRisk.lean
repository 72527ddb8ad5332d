import TermCollection.Travel.Itineraries
import TermCollection.Travel.Lemmas.Settling

/-!
# The route of least risk

The search prefers ways by their single rides. So it finds a route of least risk, and says what that risk is,
when this route is stable among the ways and the rides before the last one are not seen in the integer part.
-/

namespace TermCollection.Travel

variable {n : ℕ} {d : AbstractData n} {startCity destCity : Fin n} {startT : ℕ} {timeLmt : ℤ}
variable {ways : List (List (Departure n))} {W Q : List (Departure n)} {s : Search n}

namespace Search

/-! ## The ways that are output -/

/-- The cities before a settled city are those of its way. -/
theorem InOrder.prevChain {seen : List (Departure n) → Departure n → Prop}
    (h : InOrder d startCity destCity startT timeLmt ways seen s) (hW : W ∈ ways) :
    PrevChain s.prev startCity (endCity startCity W) (startCity :: W.map fun e => e.route.destCity) := by
  induction W using List.reverseRecOn with
  | nil => exact .start
  | append_singleton W e ih =>
      rw [List.map_append, ← List.cons_append, endCity_concat]
      exact .next (ih (h.settled.part_mem hW)) (h.records hW).prev

/-- Along these cities the departures of the way were noted. -/
theorem InOrder.legs {seen : List (Departure n) → Departure n → Prop}
    (h : InOrder d startCity destCity startT timeLmt ways seen s) (htree : Tree d startCity startT timeLmt s)
    (hW : W ∈ ways) :
    s.legs d (startCity :: W.map fun e => e.route.destCity) = some (W.map Departure.leg) := by
  have hnone : s.legs d [endCity startCity W] = some [] := rfl
  suffices hall : ∃ before, s.legs d ((startCity :: W.map fun e => e.route.destCity) ++ []) = some (before ++ []) ∧
      ∀ V ∈ ways, (startCity :: W.map fun e => e.route.destCity) =
        startCity :: (V.map fun e => e.route.destCity) → before = V.map Departure.leg by
    obtain ⟨before, hlegs, hsame⟩ := hall
    rw [List.append_nil, List.append_nil] at hlegs
    rw [hlegs, hsame W hW rfl]
  refine htree.along (P := fun chain legs _ => ∀ V ∈ ways, chain = startCity :: (V.map fun e => e.route.destCity) →
    legs = V.map Departure.leg) ?_ ?_ (h.prevChain hW) hnone
  · intro V _ hchain
    rw [List.map_eq_nil_iff.mp (List.cons.inj hchain).2.symm]
    rfl
  · intro chain legs u route hprev hride hlegs V hV hchain
    rcases List.eq_nil_or_concat' V with rfl | ⟨V, e, rfl⟩
    · -- nothing leads to the start city
      obtain ⟨-, hlast⟩ := List.append_inj' (hchain.trans (List.nil_append _).symm) rfl
      rw [List.singleton_inj.mp hlast, htree.prev_start] at hprev
      cases hprev
    · rw [List.map_append, ← List.cons_append] at hchain
      obtain ⟨rfl, hlast⟩ := List.append_inj' hchain rfl
      have hdest : route.destCity = e.route.destCity := List.singleton_inj.mp hlast
      obtain ⟨hprev', hindex⟩ := h.records hV
      obtain rfl := Option.some.inj (hprev.symm.trans (hdest ▸ hprev'))
      have hroute := hride.index
      rw [hdest, hindex] at hroute
      obtain ⟨-, hcity, htime, -⟩ := (h.settled.way hV).ride_of_part (R := []).1
      rw [List.map_append, hlegs V (h.settled.part_mem hV) rfl, ← Option.some.inj hroute,
        h.time (h.settled.part_mem hV), ← hcity, ← htime]
      rfl

/-- The output for the destination is the way by which it was settled, with the label of the last ride. -/
theorem Ended.findPlan (hne : startCity ≠ destCity) (h : Ended d startCity destCity startT timeLmt ways s)
    (hrun : run d startCity destCity startT timeLmt = some s) (hW : W ∈ ways)
    (hdest : endCity startCity W = destCity) :
    ∃ plan, findPlan d startCity destCity startT timeLmt = some (some plan) ∧
      plan.legs = W.map Departure.leg ∧ ∃ e ∈ W.getLast?, e.label d startCity = some plan.totalRisk := by
  have hvisit : s.visit destCity = true := h.order.visit.mpr ⟨W, hW, hdest⟩
  obtain ⟨cities, p, legs, hchain, hp, -, -, hlegs, hplan⟩ := findPlan_chain hne hrun hvisit
  have hcities := hchain.unique h.tree.prev_start (hdest ▸ h.order.prevChain hW)
  rw [hcities, h.order.legs h.tree hW] at hlegs
  refine ⟨_, hplan, (Option.some.inj hlegs).symm, ?_⟩
  obtain ⟨V, e, rfl, hlast⟩ := exists_last hne hdest
  refine ⟨e, by simp, ?_⟩
  obtain ⟨hprev, hindex⟩ := h.order.records hW
  obtain ⟨route, hroute, hride⟩ := h.tree.ride hprev
  have hlabel := hride.label
  have hsame := hride.index
  rw [hroute, hindex] at hsame
  obtain ⟨-, hcity, htime, -⟩ := (h.order.settled.way hW).ride_of_part (R := []).1
  rw [h.order.time (h.order.settled.part_mem hW), ← Option.some.inj hsame, ← hcity, ← htime, hlast] at hlabel
  exact hlabel

/-- The way by which the search settles the destination is the stable one. -/
theorem Ended.mem_iff (h : Ended d startCity destCity startT timeLmt ways s)
    (hdest : endCity startCity W = destCity) :
    W ∈ ways ↔ StableWay d startCity destCity startT timeLmt W := by
  constructor
  · intro hW
    obtain ⟨S, hS, hways⟩ := h.order.settled.exists_stable finite_offers
    exact ⟨S, hS, hways W hW⟩
  · rintro ⟨S, hS, hW⟩
    rcases h.ended with hvisit | hclosed
    · obtain ⟨Q, hQ, hplace⟩ := h.order.visit.mp hvisit
      obtain rfl := hS.place_inj (h.order.settled.mem_of_stable hS hQ) hW (hplace.trans hdest.symm)
      exact hQ
    · exact h.order.settled.eq_of_stable hclosed hS hW

end Search

end TermCollection.Travel
