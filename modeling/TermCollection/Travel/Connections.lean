import TermCollection.Travel.Reachability
import TermCollection.Travel.Rides

/-!
# Which stations are connected

On tables with bounds the search without a limit gives no number that is too great, so it finds a route
whenever the rows of `Schedule` lead from the one station to the other.
-/

namespace TermCollection.Travel

variable {n : ℕ} {d : AbstractData n} {startCity city u v : Fin n} {startT t time longest : ℕ}
variable {route : AbstractRoute n} {legs : List (Leg n)} {tables : Tables}

/-! ## Bounds of a journey -/

theorem roundBits_le_two_mul (p : ℕ) {q : ℚ} (h : 0 ≤ q) : roundBits p q ≤ 2 * q := by
  have hdist := (abs_le.mp (roundBits_dist p h)).2
  have hpow : q / 2 ^ p ≤ q := div_le_self h (one_le_pow₀ (by norm_num))
  linarith

/-- Rides take at most so many minutes, and risks stay in a range. -/
structure AbstractData.Bounded (d : AbstractData n) (longest : ℕ) : Prop where
  daily : ∀ city, ∀ route ∈ d.routeMap city, route.startTime < 24 * 60
  costTime : ∀ city, ∀ route ∈ d.routeMap city, route.costTime ≤ longest
  factor : ∀ city, (d.cityIdHash city).factor ≤ 10 ^ 6
  time : ((n * (24 * 60 + longest) : ℕ) : ℤ) ≤ noTimeLmt

theorem AbstractRoute.waitTime_lt (hdaily : route.startTime < 24 * 60) (time : ℕ) :
    route.waitTime time < 24 * 60 := by
  have h := route.earliest_realStartTime hdaily time
  obtain ⟨day, hday⟩ := h.daily
  have hlt := h.earliest (day - 1)
  rw [waitTime]
  omega

theorem Journey.time_le (hb : d.Bounded longest) (h : Journey d city time legs v t) :
    t ≤ time + legs.length * (24 * 60 + longest) := by
  induction h with
  | stay => simp
  | @ride city dest time t legs route hroute _ ih =>
      have hwait := route.waitTime_lt (hb.daily city route hroute) time
      have hcost := hb.costTime city route hroute
      rw [AbstractRoute.arrivalTime] at ih
      rw [List.length_cons, Nat.add_mul, Nat.one_mul]
      omega

theorem Simple.length_lt (h : Simple startCity legs) : legs.length < n := by
  have hle := h.length_le_card
  rw [List.length_cons, List.length_map, Fintype.card_fin] at hle
  exact hle

/-! ## Bounds of a risk -/

theorem waitRisk_le {factor : ℚ} (hpos : 0 ≤ factor) (hfactor : factor ≤ 10 ^ 6) {waitTime : ℕ}
    (hwait : waitTime < 24 * 60) : waitRisk factor waitTime ≤ 96 * 10 ^ 6 := by
  have hhours : (0 : ℚ) ≤ (waitTime : ℚ) / 60 := by positivity
  have hround := roundBits_le_two_mul 53 hhours
  have hnonneg := roundBits_nonneg 53 hhours
  have hle : (waitTime : ℚ) / 60 ≤ 24 := by
    rw [div_le_iff₀ (by norm_num)]
    exact_mod_cast hwait.le
  have hproduct : roundBits 53 ((waitTime : ℚ) / 60) * factor ≤ 48 * 10 ^ 6 :=
    mul_le_mul (by linarith) hfactor hpos (by norm_num)
  have hlast := roundBits_le_two_mul 53 (mul_nonneg hnonneg hpos)
  rw [waitRisk, toDouble, toDouble]
  linarith

theorem TransType.risk_le (type : TransType) : type.risk ≤ 9 := by
  cases type <;> simp [TransType.risk]

theorem AbstractData.Bounded.longest_lt (hb : d.Bounded longest) (hn : 0 < n) : longest < 2 ^ 27 := by
  have htime := hb.time
  have hle : 24 * 60 + longest ≤ n * (24 * 60 + longest) := Nat.le_mul_of_pos_left _ hn
  rw [noTimeLmt] at htime
  omega

theorem ride_risk_le (type : TransType) {costTime : ℕ} (hcost : costTime < 2 ^ 27) :
    toFloat (toFloat (toFloat costTime / 60) * type.risk) ≤ 2 ^ 27 * (6 / 5) := by
  have hcostPos : (0 : ℚ) ≤ costTime := Nat.cast_nonneg _
  have hriskPos : (0 : ℚ) ≤ type.risk := Nat.cast_nonneg _
  have hrisk : (type.risk : ℚ) ≤ 9 := by exact_mod_cast type.risk_le
  have hcostLe : (costTime : ℚ) ≤ 2 ^ 27 := by exact_mod_cast hcost.le
  have hfirst := roundBits_le_two_mul 24 hcostPos
  have hfirstPos : 0 ≤ roundBits 24 costTime / 60 := div_nonneg (roundBits_nonneg 24 hcostPos) (by norm_num)
  have hsecond := roundBits_le_two_mul 24 hfirstPos
  have hsecondPos := roundBits_nonneg 24 hfirstPos
  have hproduct : roundBits 24 (roundBits 24 costTime / 60) * type.risk ≤ 2 ^ 27 * (2 / 30) * 9 :=
    mul_le_mul (by linarith) hrisk hriskPos (by norm_num)
  have hthird := roundBits_le_two_mul 24 (mul_nonneg hsecondPos hriskPos)
  rw [toFloat, toFloat, toFloat]
  linarith

theorem toInt_of_lt {risk : ℚ} (h : risk < 10 ^ 9) : ∃ label < INF, toInt risk = some label := by
  refine ⟨⌊risk⌋, ?_, if_pos (h.trans (by norm_num))⟩
  rw [Int.floor_lt]
  refine h.trans ?_
  norm_num [INF]

/-- The risks of a departure are numbers below `INF`. -/
theorem AbstractData.Bounded.label (hb : d.Bounded longest) (hroute : route ∈ d.routeMap city)
    (startCity : Fin n) (time : ℕ) : ∃ label < INF, (route.leg city time).label d startCity time = some label := by
  have hlongest := hb.longest_lt city.pos
  have hcost : route.costTime < 2 ^ 27 := (hb.costTime city route hroute).trans_lt hlongest
  have hwait := waitRisk_le (d.cityIdHash city).factor_nonneg (hb.factor city)
    (route.waitTime_lt (hb.daily city route hroute) time)
  have hwaitPos := Search.waitRisk_nonneg (d.cityIdHash city).factor_nonneg (route.waitTime time)
  rw [Leg.label]
  split
  · have hhours : route.costTime / 60 * route.vehicleType.risk ≤ 2 ^ 27 / 60 * 9 :=
      Nat.mul_le_mul (Nat.div_le_div_right hcost.le) route.vehicleType.risk_le
    have hhoursLe : ((route.costTime / 60 * route.vehicleType.risk : ℕ) : ℚ) ≤ 2 ^ 27 / 60 * 9 := by
      refine (Nat.cast_le.mpr hhours).trans ?_
      norm_num
    have hround := roundBits_le_two_mul 53 (add_nonneg hwaitPos (Nat.cast_nonneg
      (route.costTime / 60 * route.vehicleType.risk)))
    refine toInt_of_lt (lt_of_le_of_lt hround ?_)
    linarith
  · have hride := ride_risk_le route.vehicleType hcost
    have hridePos : 0 ≤ toFloat (toFloat (toFloat route.costTime / 60) * route.vehicleType.risk) :=
      roundBits_nonneg 24 (mul_nonneg (roundBits_nonneg 24 (div_nonneg (roundBits_nonneg 24 (Nat.cast_nonneg _))
        (by norm_num))) (Nat.cast_nonneg _))
    have hround := roundBits_le_two_mul 53 (add_nonneg hwaitPos hridePos)
    refine toInt_of_lt (lt_of_le_of_lt hround ?_)
    linarith

theorem AbstractData.Bounded.moderate (hb : d.Bounded longest) (startCity : Fin n) (startT : ℕ) :
    Moderate d startCity startT noTimeLmt := by
  -- one more departure fits behind a journey without a city twice
  have hshort : ∀ {legs city t}, Journey d startCity startT legs city t → legs.length + 1 ≤ n →
      t + (24 * 60 + longest) ≤ startT + n * (24 * 60 + longest) := by
    intro legs city t hjourney hlt
    have hle := hjourney.time_le hb
    have hmul : (legs.length + 1) * (24 * 60 + longest) ≤ n * (24 * 60 + longest) :=
      Nat.mul_le_mul_right _ hlt
    rw [Nat.add_mul, Nat.one_mul] at hmul
    omega
  have htime := hb.time
  constructor
  case short =>
    intro legs city t hjourney hsimple
    have hle := hshort hjourney hsimple.length_lt
    omega
  case back =>
    intro route hroute _
    have hle := hshort (.stay startCity startT) startCity.pos
    have hwait := route.waitTime_lt (hb.daily startCity route hroute) startT
    have hcost := hb.costTime startCity route hroute
    rw [AbstractRoute.arrivalTime]
    omega
  case risks =>
    intro legs city t _ _ route hroute
    exact hb.label hroute startCity t

/-! ## Stations -/

/-- Some row of `Schedule` leads from the one station to the other. -/
def Tables.Connects (tables : Tables) (station next : QString) : Prop :=
  ∃ row ∈ tables.schedule, row.FromStation = station ∧ row.ToStation = next

theorem Tables.Gives.name_injective {d : AbstractData tables.cities.length} (hgives : tables.Gives d)
    (h : tables.WellFormed) {u v : Fin tables.cities.length}
    (hname : (d.cityIdHash u).name = (d.cityIdHash v).name) : u = v := by
  obtain ⟨city, hcity, hid, hu, -⟩ := hgives.city u
  obtain ⟨city', hcity', hid', hv, -⟩ := hgives.city v
  rw [hu, hv] at hname
  rw [List.inj_on_of_nodup_map h.names hcity hcity' hname] at hid
  exact Fin.ext (Int.natCast_inj.mp (hid.symm.trans hid'))

theorem Tables.Gives.connects {d : AbstractData tables.cities.length} (hgives : tables.Gives d)
    {u v : Fin tables.cities.length} (h : Connection d u v) :
    tables.Connects (d.cityIdHash u).name (d.cityIdHash v).name := by
  obtain ⟨route, hroute, rfl⟩ := h
  obtain ⟨row, hrow, hfrom, hruns⟩ := hgives.ride u route hroute
  exact ⟨row, hrow, hfrom, hruns.toStation.symm⟩

/-- From a city the rows lead to cities. -/
theorem Tables.Gives.reaches {d : AbstractData tables.cities.length} (hgives : tables.Gives d)
    (h : tables.WellFormed) {u : Fin tables.cities.length} {station : QString}
    (hreach : Relation.ReflTransGen tables.Connects (d.cityIdHash u).name station) :
    ∃ v, (d.cityIdHash v).name = station ∧ Relation.ReflTransGen (Connection d) u v := by
  induction hreach with
  | refl => exact ⟨u, rfl, .refl⟩
  | tail _ hnext ih =>
      obtain ⟨v, hv, hpath⟩ := ih
      obtain ⟨row, hrow, hfrom, rfl⟩ := hnext
      obtain ⟨id, hid, route, hroute, hruns⟩ := hgives.row row hrow
      obtain rfl := hgives.name_injective h (hid.trans (hfrom.trans hv.symm))
      exact ⟨route.destCity, hruns.toStation, hpath.tail ⟨route, hroute, rfl⟩⟩

theorem Tables.Gives.reaches_iff {d : AbstractData tables.cities.length} (hgives : tables.Gives d)
    (h : tables.WellFormed) (u v : Fin tables.cities.length) :
    Relation.ReflTransGen (Connection d) u v ↔
      Relation.ReflTransGen tables.Connects (d.cityIdHash u).name (d.cityIdHash v).name := by
  constructor
  · exact Relation.ReflTransGen.lift (fun id => (d.cityIdHash id).name) (fun _ _ => hgives.connects) u v
  · intro hreach
    obtain ⟨w, hw, hpath⟩ := hgives.reaches h hreach
    rwa [← hgives.name_injective h hw]

/-- The rows take at most so many minutes, and the factors stay in a range. -/
structure Tables.Bounded (tables : Tables) (longest : ℕ) : Prop where
  duration : ∀ row ∈ tables.schedule, row.arriveTime - row.startTime ≤ longest
  factor : ∀ city ∈ tables.cities, city.CityDangerFactor ≤ 10 ^ 6
  time : ((tables.cities.length * (24 * 60 + longest) : ℕ) : ℤ) ≤ noTimeLmt

theorem Tables.Gives.bounded {d : AbstractData tables.cities.length} (hgives : tables.Gives d)
    (h : tables.WellFormed) (hb : tables.Bounded longest) : d.Bounded longest := by
  refine ⟨hgives.daily h, ?_, ?_, hb.time⟩
  · intro city route hroute
    obtain ⟨row, hrow, -, hruns⟩ := hgives.ride city route hroute
    have hduration := hb.duration row hrow
    rw [← hruns.costTime] at hduration
    exact Int.ofNat_le.mp hduration
  · intro id
    obtain ⟨city, hcity, -, -, hfactor⟩ := hgives.city id
    rw [hfactor]
    exact hb.factor city hcity

/-- On tables in order and with bounds the search of the policy `SafetyRefered` has a result for every query: all
its minutes and risks are numbers in `int`. It has found a route just when rows of `Schedule` lead from the one
station to the other. -/
theorem safe_route_iff_connected (h : tables.WellFormed) (hb : tables.Bounded longest) :
    ∃ l d, loadData tables = some l ∧ l.absData.typed tables.cities.length = some d ∧ tables.Gives d ∧
      ∀ (b : BackendBase) (q : Query tables.cities.length), b.refusal d q = none →
        Computable d q.fromCity q.destCity (b.startT q) noTimeLmt ∧
        ∃ found, findPlan d q.fromCity q.destCity (b.startT q) noTimeLmt = some found ∧
          (found.isSome = true ↔ Relation.ReflTransGen tables.Connects (d.cityIdHash q.fromCity).name
            (d.cityIdHash q.destCity).name) := by
  obtain ⟨l, d, hl, -, hd, hgives⟩ := h.loaded
  refine ⟨l, d, hl, hd, hgives, fun b q hrefusal => ?_⟩
  have hne : q.fromCity ≠ q.destCity := fun heq => by simp [BackendBase.refusal, heq] at hrefusal
  have hmoderate := (hgives.bounded h hb).moderate q.fromCity (b.startT q)
  have hfits : (b.startT q : ℤ) + noTimeLmt ≤ 2 ^ 31 := by
    have hstart := startT_lt hrefusal
    rw [noTimeLmt]
    omega
  obtain ⟨s, hrun, hvisit⟩ := Search.run_visits hmoderate hfits hne
  obtain ⟨found, hfound, hsome⟩ := Search.findPlan_of_run hne hrun
  exact ⟨hmoderate.computable hfits, found, hfound,
    hsome.trans (hvisit.trans (hgives.reaches_iff h q.fromCity q.destCity))⟩

/-- A query at six o'clock, for the next day. -/
theorem safe_route_iff_connected_example :
    ∃ l d found, loadData threeCities = some l ∧ l.absData.typed threeCities.cities.length = some d ∧
      (newBackendBase 21600).refusal d
        ⟨⟨0, by decide⟩, ⟨2, by decide⟩, 5, 30, .safetyRefered, false, 0⟩ = none ∧
      findPlan d ⟨0, by decide⟩ ⟨2, by decide⟩ 1770 noTimeLmt = some found ∧ (found.isSome = true ↔
        Relation.ReflTransGen threeCities.Connects (d.cityIdHash ⟨0, by decide⟩).name
          (d.cityIdHash ⟨2, by decide⟩).name) := by
  have hbounded : threeCities.Bounded 1281 :=
    ⟨by decide +kernel, by decide +kernel, by decide +kernel⟩
  obtain ⟨l, d, hl, hd, -, hfound⟩ := safe_route_iff_connected threeCities_wellFormed hbounded
  have hrefusal : (newBackendBase 21600).refusal d
      ⟨⟨0, by decide⟩, ⟨2, by decide⟩, 5, 30, .safetyRefered, false, 0⟩ = none := by
    have hchecked : ((loadData threeCities).bind fun l => l.absData.typed threeCities.cities.length).all
        (fun d => (newBackendBase 21600).refusal d
          ⟨⟨0, by decide⟩, ⟨2, by decide⟩, 5, 30, .safetyRefered, false, 0⟩ = none) = true := by decide +kernel
    rw [hl, Option.bind_some, hd, Option.all_some] at hchecked
    exact of_decide_eq_true hchecked
  obtain ⟨-, found, hplan, hiff⟩ := hfound (newBackendBase 21600) _ hrefusal
  exact ⟨l, d, found, hl, hd, hrefusal, hplan, hiff⟩

end TermCollection.Travel
