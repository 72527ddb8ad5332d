import Mathlib.Data.Fintype.Card
import TermCollection.Travel.Lemmas.Search

/-!
# The order of the search

The search settles cities by ways, each time by the least departure that leads from a settled city to another
one. What it records of a city that is not settled is the least of the departures that it has looked at.
-/

namespace TermCollection.Travel

variable {n : ℕ} {d : AbstractData n} {startCity destCity curCity u v : Fin n}
variable {startT prevTime i j fuel : ℕ} {timeLmt label : ℤ} {route : AbstractRoute n}
variable {ways before : List (List (Departure n))} {W P Q : List (Departure n)} {e f : Departure n}
variable {seen seen' : List (Departure n) → Departure n → Prop} {s s' : Search n}

namespace Search

/-- A departure that leads from a settled city to another one. -/
abbrev LeadsOn (d : AbstractData n) (startCity destCity : Fin n) (startT : ℕ) (timeLmt : ℤ)
    (ways : List (List (Departure n))) (W : List (Departure n)) (e : Departure n) : Prop :=
  (network d startCity destCity startT timeLmt).Candidate ways W e

/-- The tables of the search lead to the city of the departure by the way before it. -/
structure Records (d : AbstractData n) (startCity : Fin n) (s : Search n) (W : List (Departure n))
    (e : Departure n) : Prop where
  prev : s.prev e.route.destCity = some (endCity startCity W)
  index : (d.routeMap (endCity startCity W))[s.routeIndex (endCity startCity W) e.route.destCity]? = some e.route

/-- The departure has the label of its city, as the least one that was seen. -/
structure Labels (d : AbstractData n) (startCity destCity : Fin n) (startT : ℕ) (timeLmt : ℤ)
    (ways : List (List (Departure n))) (seen : List (Departure n) → Departure n → Prop) (s : Search n)
    (W : List (Departure n)) (e : Departure n) : Prop where
  leadsOn : LeadsOn d startCity destCity startT timeLmt ways W e
  sees : seen W e
  records : Records d startCity s W e
  label : e.label d startCity = some (s.risks e.route.destCity)
  preferred : ∀ {Q f}, LeadsOn d startCity destCity startT timeLmt ways Q f → seen Q f →
    f.route.destCity = e.route.destCity → (network d startCity destCity startT timeLmt).Preferred ways W e Q f

/-- The cities were settled in order, and so much of the departures that lead on was seen. -/
structure InOrder (d : AbstractData n) (startCity destCity : Fin n) (startT : ℕ) (timeLmt : ℤ)
    (ways : List (List (Departure n))) (seen : List (Departure n) → Departure n → Prop) (s : Search n) :
    Prop where
  settled : (network d startCity destCity startT timeLmt).Settled ways
  visit : ∀ {v}, s.visit v = true ↔ ∃ W ∈ ways, endCity startCity W = v
  time : ∀ {W}, W ∈ ways → s.departTime startT (endCity startCity W) = endTime startT W
  records : ∀ {W e}, W ++ [e] ∈ ways → Records d startCity s W e
  risks_le : ∀ v, s.risks v ≤ INF
  labelled : ∀ {W e}, LeadsOn d startCity destCity startT timeLmt ways W e → seen W e →
    s.risks e.route.destCity < INF
  least : ∀ {v}, s.visit v = false → s.risks v < INF → ∃ W e, e.route.destCity = v ∧
    Labels d startCity destCity startT timeLmt ways seen s W e

theorem key_eq (h : e.label d startCity = some label) :
    (network d startCity destCity startT timeLmt).key e = toLex (label, e.route.destCity) := by
  simp only [network, h, Option.getD_some]

theorem key_le {N : Network (Fin n) (ℤ ×ₗ Fin n) (Departure n)} (h : N.Preferred ways W e Q f) :
    N.key e ≤ N.key f := h.elim le_of_lt fun h => h.1.le

theorem InOrder.fresh (h : InOrder d startCity destCity startT timeLmt ways seen s) :
    (∀ Q ∈ ways, endCity startCity Q ≠ v) ↔ s.visit v = false := by
  simp only [← Bool.not_eq_true, h.visit, not_exists, not_and, ne_eq]

theorem InOrder.unvisited (h : InOrder d startCity destCity startT timeLmt ways seen s)
    (hleads : LeadsOn d startCity destCity startT timeLmt ways W e) : s.visit e.route.destCity = false :=
  h.fresh.mp hleads.fresh

/-- Only what was seen of the departures that lead on counts. -/
theorem InOrder.congr (h : InOrder d startCity destCity startT timeLmt ways seen s)
    (hseen : ∀ {W e}, LeadsOn d startCity destCity startT timeLmt ways W e → (seen W e ↔ seen' W e)) :
    InOrder d startCity destCity startT timeLmt ways seen' s where
  settled := h.settled
  visit := h.visit
  time := h.time
  records := h.records
  risks_le := h.risks_le
  labelled := fun hleads hsee => h.labelled hleads ((hseen hleads).mpr hsee)
  least := fun hfresh hless => by
    obtain ⟨W, e, hdest, hleads, hsee, hrecords, hlabel, hpreferred⟩ := h.least hfresh hless
    exact ⟨W, e, hdest, hleads, (hseen hleads).mp hsee, hrecords, hlabel,
      fun hleads' hsee' => hpreferred hleads' ((hseen hleads').mpr hsee')⟩

/-- All departures were seen, but of those of the last way only so many. -/
def SeenTo (d : AbstractData n) (W : List (Departure n)) (j : ℕ) (Q : List (Departure n)) (f : Departure n) :
    Prop :=
  Q = W → (d.routeMap f.city).idxOf f.route < j

theorem InOrder.init :
    InOrder d startCity destCity startT timeLmt [[]] (SeenTo d [] 0) (init startCity startT) := by
  have hnone : ∀ {W e}, LeadsOn d startCity destCity startT timeLmt [[]] W e → ¬ SeenTo d [] 0 W e :=
    fun hleads hsee => Nat.not_lt_zero _ (hsee (List.mem_singleton.mp hleads.way))
  constructor
  case settled => exact .start
  case visit =>
    intro v
    simp [Search.init, endCity, eq_comm]
  case time =>
    intro W hW
    rw [List.mem_singleton.mp hW]
    rfl
  case records =>
    intro W e hW
    simp at hW
  case risks_le =>
    intro v
    simp only [Search.init]
    split
    · decide
    · exact le_rfl
  case labelled => exact fun hleads hsee => absurd hsee (hnone hleads)
  case least =>
    intro v hfresh hless
    rw [show (Search.init startCity startT).risks v = INF from if_neg (of_decide_eq_false hfresh)] at hless
    exact absurd hless (lt_irrefl _)

/-! ## The departures of a city -/

/-- The departure that is looked at. -/
theorem seenTo_succ (hroute : (d.routeMap (endCity startCity W))[j]? = some route)
    (hleads : LeadsOn d startCity destCity startT timeLmt ways Q f) :
    SeenTo d W (j + 1) Q f → SeenTo d W j Q f ∨
      Q = W ∧ f = ⟨endCity startCity W, endTime startT W, route⟩ ∧ (d.routeMap f.city).idxOf f.route = j := by
  intro hsee
  by_cases hsame : Q = W
  case neg => exact .inl fun heq => absurd heq hsame
  case pos =>
    subst hsame
    rcases Nat.lt_or_eq_of_le (Nat.lt_succ_iff.mp (hsee rfl)) with hlt | heq
    · exact .inl fun _ => hlt
    · obtain ⟨-, hcity, htime, hmem, -, -⟩ := hleads.offer
      have hat := List.getElem?_idxOf hmem
      rw [heq, hcity, hroute] at hat
      refine .inr ⟨rfl, ?_, heq⟩
      cases f
      simp_all

theorem idxOf_le {α : Type*} [DecidableEq α] {xs : List α} {x : α} (h : xs[j]? = some x) : xs.idxOf x ≤ j := by
  obtain ⟨hj, rfl⟩ := List.getElem?_eq_some_iff.mp h
  by_contra hlt
  exact Bool.false_ne_true ((List.not_of_lt_findIdx (Nat.not_le.mp hlt)).symm.trans (beq_self_eq_true _))

theorem SeenTo.succ (h : SeenTo d W j Q f) : SeenTo d W (j + 1) Q f := fun heq => Nat.lt_succ_of_lt (h heq)

theorem not_leadsOn (h : InOrder d startCity destCity startT timeLmt ways seen s)
    (hnot : s.visit route.destCity = true ∨ ¬ InTime startT timeLmt route (endTime startT W)) :
    ¬ LeadsOn d startCity destCity startT timeLmt ways W ⟨endCity startCity W, endTime startT W, route⟩ := by
  intro hleads
  rcases hnot with hvisit | hlate
  · exact Bool.false_ne_true ((h.unvisited hleads).symm.trans hvisit)
  · exact hlate hleads.offer.inTime

section Steps

variable (hways : ways = before ++ [W])
variable (hroute : (d.routeMap (endCity startCity W))[j]? = some route)

include hroute

/-- A departure that leads nowhere new is passed over. -/
theorem InOrder.skip (h : InOrder d startCity destCity startT timeLmt ways (SeenTo d W j) s)
    (hnot : ¬ LeadsOn d startCity destCity startT timeLmt ways W
      ⟨endCity startCity W, endTime startT W, route⟩) :
    InOrder d startCity destCity startT timeLmt ways (SeenTo d W (j + 1)) s := by
  refine h.congr fun hleads => ⟨SeenTo.succ, fun hsee => ?_⟩
  rcases seenTo_succ hroute hleads hsee with hold | ⟨rfl, rfl, -⟩
  · exact hold
  · exact absurd hleads hnot

include hways in
/-- One that has no less risk than its city is passed over, too. -/
theorem InOrder.see (h : InOrder d startCity destCity startT timeLmt ways (SeenTo d W j) s)
    (hlabel : Departure.label d startCity ⟨endCity startCity W, endTime startT W, route⟩ = some label)
    (hless : label < INF) (hle : s.risks route.destCity ≤ label) :
    InOrder d startCity destCity startT timeLmt ways (SeenTo d W (j + 1)) s where
  settled := h.settled
  visit := h.visit
  time := h.time
  records := h.records
  risks_le := h.risks_le
  labelled := fun hleads hsee => by
    rcases seenTo_succ hroute hleads hsee with hold | ⟨rfl, rfl, -⟩
    · exact h.labelled hleads hold
    · exact hle.trans_lt hless
  least := fun hfresh hrisk => by
    obtain ⟨P, e, rfl, hleads, hsee, hrecords, hlabel', hpreferred⟩ := h.least hfresh hrisk
    refine ⟨P, e, rfl, hleads, hsee.succ, hrecords, hlabel', fun {Q f} hleads' hsee' hdest => ?_⟩
    rcases seenTo_succ hroute hleads' hsee' with hold | ⟨rfl, rfl, hj⟩
    · exact hpreferred hleads' hold hdest
    · -- the city keeps the departure that it has, which was seen before
      have hdest : route.destCity = e.route.destCity := hdest
      rw [← hdest] at hlabel'
      rw [Network.Preferred, key_eq hlabel', key_eq hlabel]
      rcases hle.lt_or_eq with hlt | heq
      · exact .inl (Prod.Lex.left _ _ hlt)
      · refine .inr ⟨by rw [heq, hdest], ?_⟩
        by_cases hsame : P = Q
        · exact .inl ⟨hsame, ((hsee hsame).trans_eq hj.symm).le⟩
        · refine .inr ⟨before, [Q], hways, ?_, List.mem_singleton_self Q⟩
          have hmem := hleads.way
          rw [hways] at hmem
          exact (List.mem_append.mp hmem).resolve_right fun hlast => hsame (List.mem_singleton.mp hlast)

/-- One that has less risk than its city has the label from then on. -/
theorem InOrder.labels_relabelled (h : InOrder d startCity destCity startT timeLmt ways (SeenTo d W j) s)
    (hleads : LeadsOn d startCity destCity startT timeLmt ways W ⟨endCity startCity W, endTime startT W, route⟩)
    (hlabel : Departure.label d startCity ⟨endCity startCity W, endTime startT W, route⟩ = some label)
    (hless : label < s.risks route.destCity) :
    Labels d startCity destCity startT timeLmt ways (SeenTo d W (j + 1))
      (s.relabel (endCity startCity W) j route (endTime startT W) label) W
      ⟨endCity startCity W, endTime startT W, route⟩ where
  leadsOn := hleads
  sees := fun _ => Nat.lt_succ_of_le (idxOf_le hroute)
  records := by
    constructor
    · simp only [Search.relabel, ↓reduceIte]
    · simp only [Search.relabel, and_self, ↓reduceIte, hroute]
  label := by simp only [Search.relabel, ↓reduceIte, hlabel]
  preferred := by
    intro Q f hleads' hsee hsame
    rcases seenTo_succ hroute hleads' hsee with hold | ⟨rfl, rfl, -⟩
    · have hrisk := h.labelled hleads' hold
      obtain ⟨P, e, hdest, hlabels⟩ := h.least (h.unvisited hleads') hrisk
      refine .inl (lt_of_lt_of_le ?_ (key_le (hlabels.preferred hleads' hold hdest.symm)))
      have hdest : e.route.destCity = route.destCity := hdest.trans hsame
      rw [key_eq hlabel, key_eq hlabels.label, hdest]
      exact Prod.Lex.left _ _ hless
    · exact .inr ⟨rfl, .inl ⟨rfl, le_rfl⟩⟩

/-- The labels of the other cities stay. -/
theorem Labels.relabel (h : Labels d startCity destCity startT timeLmt ways (SeenTo d W j) s P e)
    (hother : e.route.destCity ≠ route.destCity) :
    Labels d startCity destCity startT timeLmt ways (SeenTo d W (j + 1))
      (s.relabel (endCity startCity W) j route (endTime startT W) label) P e where
  leadsOn := h.leadsOn
  sees := h.sees.succ
  records := by
    obtain ⟨hprev, hindex⟩ := h.records
    constructor
    · simp only [Search.relabel, hother, ↓reduceIte, hprev]
    · simp only [Search.relabel, hother, and_false, ↓reduceIte, hindex]
  label := by simp only [Search.relabel, hother, ↓reduceIte, h.label]
  preferred := by
    intro Q f hleads hsee hsame
    rcases seenTo_succ hroute hleads hsee with hold | ⟨rfl, rfl, -⟩
    · exact h.preferred hleads hold hsame
    · exact absurd hsame.symm hother

/-- One that has less risk than its city is recorded for it. -/
theorem InOrder.relabel (h : InOrder d startCity destCity startT timeLmt ways (SeenTo d W j) s)
    (hleads : LeadsOn d startCity destCity startT timeLmt ways W ⟨endCity startCity W, endTime startT W, route⟩)
    (hlabel : Departure.label d startCity ⟨endCity startCity W, endTime startT W, route⟩ = some label)
    (hless : label < s.risks route.destCity) :
    InOrder d startCity destCity startT timeLmt ways (SeenTo d W (j + 1))
      (s.relabel (endCity startCity W) j route (endTime startT W) label) := by
  have hvisited : ∀ {P}, P ∈ ways → endCity startCity P ≠ route.destCity := fun hP => hleads.fresh _ hP
  constructor
  case settled => exact h.settled
  case visit => exact h.visit
  case time =>
    intro P hP
    rw [departTime_relabel (hvisited hP)]
    exact h.time hP
  case records =>
    intro P e hP
    have hne := hvisited hP
    rw [endCity_concat] at hne
    obtain ⟨hprev, hindex⟩ := h.records hP
    constructor
    · simp only [Search.relabel, hne, ↓reduceIte, hprev]
    · simp only [Search.relabel, hne, and_false, ↓reduceIte, hindex]
  case risks_le =>
    intro v
    simp only [Search.relabel]
    split
    · exact hless.le.trans (h.risks_le _)
    · exact h.risks_le v
  case labelled =>
    intro P e hleads' hsee
    simp only [Search.relabel]
    split
    · exact hless.trans_le (h.risks_le _)
    · rename_i hne
      rcases seenTo_succ hroute hleads' hsee with hold | ⟨rfl, rfl, -⟩
      · exact h.labelled hleads' hold
      · exact absurd rfl hne
  case least =>
    intro v hv hrisk
    by_cases hdest : v = route.destCity
    case pos => exact ⟨W, _, hdest.symm, h.labels_relabelled hroute hleads hlabel hless⟩
    case neg =>
      have hrisk : s.risks v < INF := by simpa only [Search.relabel, hdest, ↓reduceIte] using hrisk
      obtain ⟨P, e, rfl, hlabels⟩ := h.least hv hrisk
      exact ⟨P, e, rfl, hlabels.relabel hroute hdest⟩

include hways in
/-- What a departure that is looked at does to the tables. -/
theorem InOrder.relaxBy (h : InOrder d startCity destCity startT timeLmt ways (SeenTo d W j) s)
    (hdest : endCity startCity W ≠ destCity) (hfresh : s.visit route.destCity = false)
    (htime : InTime startT timeLmt route (endTime startT W))
    (hlabel : Departure.label d startCity ⟨endCity startCity W, endTime startT W, route⟩ = some label) :
    InOrder d startCity destCity startT timeLmt ways (SeenTo d W (j + 1))
      (s.relaxBy (endCity startCity W) j route (endTime startT W) label) := by
  have hmem : W ∈ ways := by
    rw [hways]
    exact List.mem_append_right _ (List.mem_singleton_self W)
  by_cases hless : label < INF
  case neg =>
    have hle := (h.risks_le route.destCity).trans (Int.not_lt.mp hless)
    rw [Search.relaxBy, if_neg (Int.not_lt.mpr hle)]
    refine h.skip hroute fun hleads => ?_
    obtain ⟨label', hless', hlabel'⟩ := hleads.offer.label
    exact hless (Option.some.inj (hlabel.symm.trans hlabel') ▸ hless')
  case pos =>
    have hleads : LeadsOn d startCity destCity startT timeLmt ways W
        ⟨endCity startCity W, endTime startT W, route⟩ :=
      ⟨hmem, ⟨hdest, rfl, rfl, List.mem_of_getElem? hroute, htime, label, hless, hlabel⟩, h.fresh.mpr hfresh⟩
    rw [Search.relaxBy]
    split
    · exact h.relabel hroute hleads hlabel ‹_›
    · exact h.see hways hroute hlabel hless (Int.not_lt.mp ‹_›)

end Steps

/-! ## The choice of a city -/

theorem earlier_append {extra : List (List (Departure n))} (h : Network.Earlier ways P Q) :
    Network.Earlier (ways ++ extra) P Q := by
  obtain ⟨first, after, rfl, hP, hQ⟩ := h
  exact ⟨first, after ++ extra, List.append_assoc _ _ _, hP, List.mem_append_left _ hQ⟩

/-- The departure that was recorded for the city of the least label is preferred to all that lead on. -/
theorem InOrder.preferred_of_least (h : InOrder d startCity destCity startT timeLmt ways (fun _ _ => True) s)
    (hlabels : Labels d startCity destCity startT timeLmt ways (fun _ _ => True) s P e)
    (hleast : ∀ w, s.visit w = false →
      toLex (s.risks e.route.destCity, e.route.destCity) ≤ toLex (s.risks w, w))
    (hleads : LeadsOn d startCity destCity startT timeLmt ways Q f) :
    (network d startCity destCity startT timeLmt).Preferred ways P e Q f := by
  by_cases hsame : f.route.destCity = e.route.destCity
  · exact hlabels.preferred hleads trivial hsame
  · -- against the departure that was recorded for the other city
    obtain ⟨P', e', hdest, hlabels'⟩ := h.least (h.unvisited hleads) (h.labelled hleads trivial)
    refine .inl (lt_of_lt_of_le ?_ (key_le (hlabels'.preferred hleads trivial hdest.symm)))
    rw [key_eq hlabels.label, key_eq hlabels'.label, hdest]
    refine lt_of_le_of_ne (hleast _ (h.unvisited hleads)) fun heq => hsame ?_
    exact (Prod.ext_iff.mp (toLex.injective heq)).2.symm

/-- What leads on after a way was added led on before it, unless it leads on from this way. -/
theorem leadsOn_of_concat (hleads : LeadsOn d startCity destCity startT timeLmt (ways ++ [W]) Q f)
    (hsee : SeenTo d W 0 Q f) : LeadsOn d startCity destCity startT timeLmt ways Q f := by
  have hold : Q ∉ [W] := fun hmem => Nat.not_lt_zero _ (hsee (List.mem_singleton.mp hmem))
  exact ⟨(List.mem_append.mp hleads.way).resolve_right hold, hleads.offer,
    fun J hJ => hleads.fresh J (List.mem_append_left _ hJ)⟩

/-- The labels of the cities that are not settled stay. -/
theorem Labels.visitCity (h : Labels d startCity destCity startT timeLmt ways (fun _ _ => True) s Q f)
    (hnew : W ∉ ways) (hother : endCity startCity W ≠ f.route.destCity) :
    Labels d startCity destCity startT timeLmt (ways ++ [W]) (SeenTo d W 0) (s.visitCity v) Q f where
  leadsOn := by
    refine ⟨List.mem_append_left _ h.leadsOn.way, h.leadsOn.offer, fun J hJ => ?_⟩
    rcases List.mem_append.mp hJ with hJ | hJ
    · exact h.leadsOn.fresh J hJ
    · rw [List.mem_singleton.mp hJ]
      exact hother
  sees := fun heq => absurd (heq ▸ h.leadsOn.way) hnew
  records := ⟨h.records.prev, h.records.index⟩
  label := h.label
  preferred := fun hleads hsee hsame =>
    (h.preferred (leadsOn_of_concat hleads hsee) trivial hsame).imp id
      fun hbefore => ⟨hbefore.1, hbefore.2.imp id earlier_append⟩

/-- The city of the least label is settled by the departure that was recorded for it. -/
theorem InOrder.visitCity (h : InOrder d startCity destCity startT timeLmt ways (fun _ _ => True) s)
    (htree : Tree d startCity startT timeLmt s) (hfresh : s.visit v = false) (hless : s.risks v < INF)
    (hleast : ∀ w, s.visit w = false → toLex (s.risks v, v) ≤ toLex (s.risks w, w)) :
    ∃ W, endCity startCity W = v ∧ W ≠ [] ∧ (s.visitCity v).prevTime v = some (endTime startT W) ∧
      InOrder d startCity destCity startT timeLmt (ways ++ [W]) (SeenTo d W 0) (s.visitCity v) := by
  obtain ⟨P, e, rfl, hlabels⟩ := h.least hfresh hless
  have hleads := hlabels.leadsOn
  have hrecords := hlabels.records
  obtain ⟨r, hr, hride⟩ := htree.ride hrecords.prev
  have hrider : r = e.route := by
    have hindex := hride.index
    rw [hr, hrecords.index] at hindex
    exact (Option.some.inj hindex).symm
  subst hrider
  have htime : s.spendTime (endCity startCity P) e.route.destCity = e.route.arrivalTime e.time := by
    rw [hride.time, h.time hleads.way, hleads.offer.time]
  have hnew : P ++ [e] ∉ ways := fun hmem => hleads.not_part (A := []) h.settled (by rwa [List.append_nil])
  refine ⟨P ++ [e], endCity_concat, by simp, ?_, ?_⟩
  · rw [prevTime_visitCity hrecords.prev, htime, endTime_concat]
  constructor
  case settled => exact .next h.settled hleads (h.preferred_of_least hlabels hleast)
  case visit =>
    intro w
    simp only [Search.visitCity, Bool.or_eq_true, decide_eq_true_eq, h.visit, List.mem_append,
      List.mem_singleton, or_and_right, exists_or, exists_eq_left, endCity_concat]
    exact or_comm.trans (or_congr_right eq_comm)
  case time =>
    intro W hW
    rcases List.mem_append.mp hW with hW | hW
    · exact h.time hW
    · rw [List.mem_singleton.mp hW, endCity_concat, endTime_concat, ← htime]
      simp only [departTime, Search.visitCity, hrecords.prev]
  case records =>
    intro W f hW
    rcases List.mem_append.mp hW with hW | hW
    · exact ⟨(h.records hW).prev, (h.records hW).index⟩
    · obtain ⟨rfl, rfl⟩ := List.append_singleton_inj.mp (List.mem_singleton.mp hW)
      exact ⟨hrecords.prev, hrecords.index⟩
  case risks_le => exact h.risks_le
  case labelled => exact fun hleads' hsee => h.labelled (leadsOn_of_concat hleads' hsee) trivial
  case least =>
    intro w hw hrisk
    simp only [Search.visitCity, Bool.or_eq_false_iff, decide_eq_false_iff_not] at hw
    obtain ⟨Q, f, rfl, hlabels'⟩ := h.least hw.2 hrisk
    exact ⟨Q, f, rfl, hlabels'.visitCity hnew (by rw [endCity_concat]; exact Ne.symm hw.1)⟩

/-! ## The loops -/

/-- What a loop over departures keeps as long as its steps are defined, and when they are. -/
theorem forRoutes_steps (body : ℕ → AbstractRoute n → Search n → Option (Search n))
    (routes : List (AbstractRoute n)) {I : ℕ → Search n → Prop} {C : Prop} (hs : I i s)
    (hbody : ∀ j route s, routes[j]? = some route → I (i + j) s →
      (∀ s', body (i + j) route s = some s' → I (i + j + 1) s') ∧
        (C → (body (i + j) route s).isSome = true)) :
    (∀ s', forRoutes body i routes s = some s' → I (i + routes.length) s') ∧
      (C → (forRoutes body i routes s).isSome = true) := by
  induction routes generalizing i s with
  | nil =>
      refine ⟨fun s' h => ?_, fun _ => rfl⟩
      cases h
      exact hs
  | cons route routes ih =>
      obtain ⟨hkeep, hdefined⟩ := hbody 0 route s rfl hs
      rw [Nat.add_zero] at hkeep hdefined
      have hrest := fun s₁ (hs₁ : I (i + 1) s₁) => ih hs₁ fun j route s hj hI => by
        have hnext := hbody (j + 1) route s hj
        rw [Nat.add_right_comm i 1 j] at hI ⊢
        exact hnext hI
      simp only [forRoutes, Option.bind_eq_bind, List.length_cons]
      rw [Nat.add_comm routes.length 1, ← Nat.add_assoc]
      cases hfirst : body i route s with
      | none =>
          rw [hfirst] at hdefined
          exact ⟨fun s' h => by simp at h, fun hd => absurd (hdefined hd) Bool.false_ne_true⟩
      | some s₁ => exact hrest s₁ (hkeep s₁ hfirst)

/-- The departures of a city, once all of them were looked at. -/
theorem InOrder.all (h : InOrder d startCity destCity startT timeLmt ways
    (SeenTo d W (d.routeMap (endCity startCity W)).length) s) :
    InOrder d startCity destCity startT timeLmt ways (fun _ _ => True) s := by
  refine h.congr fun hleads => ⟨fun _ => trivial, ?_⟩
  rintro - rfl
  have hmem := hleads.offer.route
  rw [hleads.offer.city] at hmem ⊢
  exact List.idxOf_lt_length_of_mem hmem

/-- From the destination no departure leads on. -/
theorem InOrder.arrived (h : InOrder d startCity destCity startT timeLmt ways (SeenTo d W 0) s)
    (hdest : endCity startCity W = destCity) :
    InOrder d startCity destCity startT timeLmt ways (fun _ _ => True) s := by
  refine h.congr fun hleads => ⟨fun _ => trivial, ?_⟩
  rintro - rfl
  exact absurd hdest hleads.offer.ne_dest

theorem InOrder.relaxFirst (hne : startCity ≠ destCity) (hroot : Root d startCity startT timeLmt s)
    (h : InOrder d startCity destCity startT timeLmt [[]] (SeenTo d [] j) s)
    (hroute : (d.routeMap startCity)[j]? = some route)
    (hr : relaxFirst d startCity startT timeLmt j route s = some s') :
    InOrder d startCity destCity startT timeLmt [[]] (SeenTo d [] (j + 1)) s' := by
  rcases relaxFirst_eq_some hr with ⟨hlate, rfl⟩ | ⟨htime, hr⟩
  · exact h.skip hroute (not_leadsOn h (.inr hlate))
  · rw [relax_eq, Option.bind_eq_some_iff] at hr
    obtain ⟨label, hrisk, hr⟩ := hr
    rw [Option.ite_none_left_eq_some] at hr
    obtain ⟨-, rfl⟩ := hr.imp_right Option.some.inj
    have hlabel : (route.leg startCity startT).label d startCity startT = some label := (if_pos rfl).trans hrisk
    by_cases hvisit : s.visit route.destCity = true
    · have hrest : ¬ label < s.risks route.destCity :=
        fun hless => hroot.ne_start hlabel hless (hroot.visit hvisit)
      rw [Search.relaxBy, if_neg hrest]
      exact h.skip hroute (not_leadsOn h (.inl hvisit))
    · exact h.relaxBy (show [[]] = [] ++ [[]] from rfl) hroute hne (Bool.eq_false_iff.mpr hvisit) htime hlabel

theorem InOrder.relaxLater (hways : ways = before ++ [W]) (hdest : endCity startCity W ≠ destCity)
    (hstart : endCity startCity W ≠ startCity)
    (h : InOrder d startCity destCity startT timeLmt ways (SeenTo d W j) s)
    (hroute : (d.routeMap (endCity startCity W))[j]? = some route)
    (hr : relaxLater d (endCity startCity W) startT (endTime startT W) timeLmt j route s = some s') :
    InOrder d startCity destCity startT timeLmt ways (SeenTo d W (j + 1)) s' := by
  rcases relaxLater_eq_some hr with ⟨hnot, rfl⟩ | ⟨hfresh, htime, hr⟩
  · exact h.skip hroute (not_leadsOn h hnot)
  · rw [relax_eq, Option.bind_eq_some_iff] at hr
    obtain ⟨label, hrisk, hr⟩ := hr
    rw [Option.ite_none_left_eq_some] at hr
    obtain ⟨-, rfl⟩ := hr.imp_right Option.some.inj
    exact h.relaxBy hways hroute hdest hfresh htime ((if_neg hstart).trans hrisk)

/-- The departures of the start city. -/
theorem forRoutes_relaxFirst (d : AbstractData n) (startT : ℕ) (timeLmt : ℤ) (hne : startCity ≠ destCity) :
    (∀ s, forRoutes (Search.relaxFirst d startCity startT timeLmt) 0 (d.routeMap startCity)
        (init startCity startT) = some s →
      Root d startCity startT timeLmt s ∧
        InOrder d startCity destCity startT timeLmt [[]] (fun _ _ => True) s) ∧
    (Computable d startCity destCity startT timeLmt →
      (forRoutes (Search.relaxFirst d startCity startT timeLmt) 0 (d.routeMap startCity)
        (init startCity startT)).isSome = true) := by
  have hsteps := forRoutes_steps (Search.relaxFirst d startCity startT timeLmt) (d.routeMap startCity)
    (C := Computable d startCity destCity startT timeLmt) (I := fun j s => Root d startCity startT timeLmt s ∧
      InOrder d startCity destCity startT timeLmt [[]] (SeenTo d [] j) s)
    ⟨.init d startCity startT timeLmt, .init⟩ fun j route s hj hI => by
      rw [Nat.zero_add] at hI ⊢
      refine ⟨fun s' hs' => ⟨hI.1.relaxFirst hj (relabels_relaxFirst hs'), hI.2.relaxFirst hne hI.1 hj hs'⟩,
        fun hcomputable => ?_⟩
      have hcomputes := hcomputable .nil hne route (List.mem_of_getElem? hj) fun h => absurd rfl h
      rcases relaxFirst_computed hcomputes s j with ⟨-, hnext⟩ | ⟨-, _, -, hnext⟩
      · rw [hnext]
        rfl
      · rw [hnext]
        rfl
  rw [Nat.zero_add] at hsteps
  exact ⟨fun s hs => (hsteps.1 s hs).imp_right fun h => h.all (W := []), hsteps.2⟩

/-- The departures of a city that was settled by the last way. -/
theorem forRoutes_relaxLater (hways : ways = before ++ [W]) (hdest : endCity startCity W ≠ destCity)
    (hat : At d startCity startT timeLmt (endCity startCity W) (endTime startT W) s)
    (h : InOrder d startCity destCity startT timeLmt ways (SeenTo d W 0) s) :
    (∀ s', forRoutes (Search.relaxLater d (endCity startCity W) startT (endTime startT W) timeLmt) 0
        (d.routeMap (endCity startCity W)) s = some s' →
      Tree d startCity startT timeLmt s' ∧
        InOrder d startCity destCity startT timeLmt ways (fun _ _ => True) s') ∧
    (Computable d startCity destCity startT timeLmt →
      (forRoutes (Search.relaxLater d (endCity startCity W) startT (endTime startT W) timeLmt) 0
        (d.routeMap (endCity startCity W)) s).isSome = true) := by
  have hmem : W ∈ ways := by
    rw [hways]
    exact List.mem_append_right _ (List.mem_singleton_self W)
  have hsteps := forRoutes_steps
    (Search.relaxLater d (endCity startCity W) startT (endTime startT W) timeLmt)
    (d.routeMap (endCity startCity W)) (C := Computable d startCity destCity startT timeLmt)
    (I := fun j s => At d startCity startT timeLmt (endCity startCity W) (endTime startT W) s ∧
      InOrder d startCity destCity startT timeLmt ways (SeenTo d W j) s)
    ⟨hat, h⟩ fun j route s hj hI => by
      rw [Nat.zero_add] at hI ⊢
      constructor
      · intro s' hs'
        refine ⟨?_, hI.2.relaxLater hways hdest hat.ne_start hj hs'⟩
        rcases relabels_relaxLater hat.ne_start hs' with rfl | ⟨hfresh, hrelabels⟩
        · exact hI.1
        · exact hI.1.relaxLater hj hfresh hrelabels
      · intro hcomputable
        by_cases hvisit : s.visit route.destCity = true
        · rw [relaxLater_visited hvisit]
          rfl
        · have hfresh := Bool.eq_false_iff.mpr hvisit
          have hcomputes := hcomputable (h.settled.way hmem) hdest route (List.mem_of_getElem? hj)
            fun _ hback => hvisit (hI.2.visit.mpr (h.settled.exists_of_mem hmem hback))
          rcases relaxLater_computed hat.ne_start hfresh hcomputes j with ⟨-, hnext⟩ | ⟨-, _, -, hnext⟩
          · rw [hnext]
            rfl
          · rw [hnext]
            rfl
  rw [Nat.zero_add] at hsteps
  exact ⟨fun s' hs' => (hsteps.1 s' hs').imp At.tree fun h => h.all, hsteps.2⟩

/-! ## The whole search -/

/-- The search has settled the destination, or no departure leads on. -/
structure Ended (d : AbstractData n) (startCity destCity : Fin n) (startT : ℕ) (timeLmt : ℤ)
    (ways : List (List (Departure n))) (s : Search n) : Prop where
  tree : Tree d startCity startT timeLmt s
  order : InOrder d startCity destCity startT timeLmt ways (fun _ _ => True) s
  ended : s.visit destCity = true ∨ ∀ {W e}, ¬ LeadsOn d startCity destCity startT timeLmt ways W e

theorem Ended.closed (h : Ended d startCity destCity startT timeLmt ways s) (hunsettled : s.visit destCity = false)
    {W : List (Departure n)} {e : Departure n} : ¬ LeadsOn d startCity destCity startT timeLmt ways W e := by
  rcases h.ended with hvisit | hclosed
  · exact absurd (hvisit.symm.trans hunsettled) Bool.false_ne_true.symm
  · exact hclosed

theorem card_unvisited_pos (hvisit : s.visit v = false) :
    0 < (Finset.univ.filter fun v => s.visit v = false).card :=
  Finset.card_pos.mpr ⟨v, by simpa using hvisit⟩

theorem card_visitCity (s : Search n) (hvisit : s.visit v = false) :
    (Finset.univ.filter fun w => (s.visitCity v).visit w = false).card <
      (Finset.univ.filter fun w => s.visit w = false).card := by
  apply Finset.card_lt_card
  rw [Finset.ssubset_iff_of_subset]
  · refine ⟨v, by simpa using hvisit, ?_⟩
    simp [Search.visitCity]
  · intro w hw
    simp only [Search.visitCity, Finset.mem_filter, Finset.mem_univ, true_and, Bool.or_eq_false_iff] at hw ⊢
    exact hw.2

/-- Each round settles one more city, so the loop has enough of them. -/
theorem expandLoop_ends (htree : Tree d startCity startT timeLmt s)
    (h : InOrder d startCity destCity startT timeLmt ways (fun _ _ => True) s) (hcur : s.visit curCity = true)
    (hdest : s.visit destCity = false)
    (hfuel : (Finset.univ.filter fun v => s.visit v = false).card ≤ fuel) :
    (∀ s', expandLoop d destCity startT timeLmt fuel curCity s = some s' →
      ∃ ways', Ended d startCity destCity startT timeLmt ways' s') ∧
    (Computable d startCity destCity startT timeLmt →
      (expandLoop d destCity startT timeLmt fuel curCity s).isSome = true) := by
  induction fuel generalizing curCity s ways with
  | zero => exact absurd (Nat.lt_of_lt_of_le (card_unvisited_pos hdest) hfuel) (Nat.lt_irrefl 0)
  | succ fuel ih =>
      rcases selectCity_cases s curCity with ⟨hstop, hnone⟩ | ⟨hfresh, hless, hleast⟩
      case inl =>
        simp only [Search.expandLoop, hstop, ↓reduceIte, Option.isSome_some, implies_true, and_true]
        rintro s' hs'
        cases hs'
        refine ⟨ways, htree, h, .inr fun hleads => ?_⟩
        exact absurd (h.labelled hleads trivial) (Int.not_lt.mpr (hnone _ (h.unvisited hleads)))
      case inr =>
        have hnext := selectCity_ne hcur hfresh
        have hcard := card_visitCity s hfresh
        simp only [Search.expandLoop, hnext, ↓reduceIte]
        generalize s.selectCity curCity = nextCity at *
        obtain ⟨W, rfl, -, htime, horder⟩ := h.visitCity htree hfresh hless hleast
        have hat := htree.at hfresh htime
        simp only [htime, Option.bind_eq_bind, Option.bind_some]
        by_cases hto : endCity startCity W = destCity
        case pos =>
          simp only [hto, ↓reduceIte, Option.isSome_some, implies_true, and_true]
          rintro s' hs'
          cases hs'
          rw [hto] at horder hat
          refine ⟨_, hat.tree, horder.arrived hto, .inl hat.visit⟩
        case neg =>
          obtain ⟨hkeep, hdefined⟩ := forRoutes_relaxLater rfl hto hat horder
          simp only [hto, ↓reduceIte]
          cases hloop : forRoutes (Search.relaxLater d (endCity startCity W) startT (endTime startT W) timeLmt) 0
              (d.routeMap (endCity startCity W)) (s.visitCity (endCity startCity W)) with
          | none =>
              rw [hloop] at hdefined
              exact ⟨fun s' hs' => by simp at hs', fun hd => absurd (hdefined hd) Bool.false_ne_true⟩
          | some s₁ =>
              obtain ⟨htree₁, horder₁⟩ := hkeep s₁ hloop
              have hvisit : ∀ v, s₁.visit v = (s.visitCity (endCity startCity W)).visit v :=
                fun v => Bool.eq_iff_iff.mpr (horder₁.visit.trans horder.visit.symm)
              rw [Option.bind_some]
              refine ih htree₁ horder₁ ?_ ?_ ?_
              · rw [hvisit]
                exact hat.visit
              · rw [hvisit]
                simp only [Search.visitCity, Ne.symm hto, hdest, decide_false, Bool.or_self]
              · simp only [hvisit]
                exact Nat.le_of_lt_succ (Nat.lt_of_lt_of_le hcard hfuel)

/-- A search settles cities in order, up to the destination or as far as departures lead. -/
theorem run_ends (d : AbstractData n) (startT : ℕ) (timeLmt : ℤ) (hne : startCity ≠ destCity) :
    (∀ s, run d startCity destCity startT timeLmt = some s →
      ∃ ways, Ended d startCity destCity startT timeLmt ways s) ∧
    (Computable d startCity destCity startT timeLmt →
      (run d startCity destCity startT timeLmt).isSome = true) := by
  obtain ⟨hkeep, hdefined⟩ := forRoutes_relaxFirst d startT timeLmt hne
  simp only [Search.run, Option.bind_eq_bind]
  cases hloop : forRoutes (Search.relaxFirst d startCity startT timeLmt) 0 (d.routeMap startCity)
      (init startCity startT) with
  | none =>
      rw [hloop] at hdefined
      exact ⟨fun s hs => by simp at hs, fun hd => absurd (hdefined hd) Bool.false_ne_true⟩
  | some s₁ =>
      obtain ⟨hroot, horder⟩ := hkeep s₁ hloop
      have hdest : s₁.visit destCity = false :=
        Bool.eq_false_iff.mpr fun hvisit => hne (hroot.visit hvisit).symm
      rw [Option.bind_some]
      exact expandLoop_ends hroot.tree horder hroot.tree.visit_start hdest
        ((Finset.card_le_univ _).trans (Fintype.card_fin n).le)

end Search

end TermCollection.Travel
