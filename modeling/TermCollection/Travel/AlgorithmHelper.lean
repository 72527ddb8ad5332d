import Mathlib.Data.List.FinRange
import TermCollection.Travel.AbstractData
import TermCollection.Travel.Customer

/-!
# The search for a route (`AlgorithmHelper.cpp`)

An index out of range, a sum beyond `int` and a conversion of a double beyond `int` have no defined result.
-/

namespace TermCollection.Travel

variable {n : ℕ}

def INF : ℤ := 0x3F3F3F3F

/-! ## Departures -/

/-- A sum of minutes in `int`. -/
def intMinutes (minutes : ℕ) : Option ℕ := if minutes < 2 ^ 31 then some minutes else none

/-- `while(realStartTime < prevTime) realStartTime += 24*60;` -/
def addDays (prevTime : ℕ) : ℕ → ℕ → ℕ
  | 0, realStartTime => realStartTime
  | fuel + 1, realStartTime =>
      if realStartTime < prevTime then addDays prevTime fuel (realStartTime + 24 * 60) else realStartTime

namespace AbstractRoute

def realStartTime (route : AbstractRoute n) (prevTime : ℕ) : ℕ := addDays prevTime prevTime route.startTime

def waitTime (route : AbstractRoute n) (prevTime : ℕ) : ℕ := route.realStartTime prevTime - prevTime

def arrivalTime (route : AbstractRoute n) (prevTime : ℕ) : ℕ :=
  prevTime + route.waitTime prevTime + route.costTime

end AbstractRoute

/-! ## Risks -/

def toDouble (q : ℚ) : ℚ := roundBits 53 q

def toFloat (q : ℚ) : ℚ := roundBits 24 q

/-- `static_cast<double>(waitTime) / 60 * factor`. -/
def waitRisk (factor : ℚ) (waitTime : ℕ) : ℚ := toDouble (toDouble (waitTime / 60) * factor)

/-- The risk of a departure from the start city, where the hours of the ride are whole. -/
def firstRisk (factor : ℚ) (route : AbstractRoute n) (waitTime : ℕ) : ℚ :=
  toDouble (waitRisk factor waitTime + (route.costTime / 60 * route.vehicleType.risk : ℕ))

/-- The risk of a departure from another city, where the hours of the ride are a float. -/
def laterRisk (factor : ℚ) (route : AbstractRoute n) (waitTime : ℕ) : ℚ :=
  toDouble (waitRisk factor waitTime +
    toFloat (toFloat (toFloat route.costTime / 60) * route.vehicleType.risk))

/-- `static_cast<int>(risk)`. -/
def toInt (risk : ℚ) : Option ℤ := if risk < 2 ^ 31 then some ⌊risk⌋ else none

/-! ## The search -/

structure Search (n : ℕ) where
  visit : Fin n → Bool
  risks : Fin n → ℤ
  prev : Fin n → Option (Fin n)
  spendTime : Fin n → Fin n → ℕ
  routeIndex : Fin n → Fin n → ℕ

namespace Search

def init (startCity : Fin n) (startT : ℕ) : Search n where
  visit := fun city => city = startCity
  risks := fun city => if city = startCity then 0 else INF
  prev := fun _ => none
  spendTime := fun city _ => if city = startCity then startT else 0
  routeIndex := fun _ _ => 0

/-- The label of the city that a departure goes to. -/
def relabel (s : Search n) (curCity : Fin n) (i : ℕ) (route : AbstractRoute n) (prevTime : ℕ)
    (label : ℤ) : Search n where
  visit := s.visit
  risks := fun city => if city = route.destCity then label else s.risks city
  prev := fun city => if city = route.destCity then some curCity else s.prev city
  spendTime := fun city next =>
    if city = curCity ∧ next = route.destCity then route.arrivalTime prevTime else s.spendTime city next
  routeIndex := fun city next =>
    if city = curCity ∧ next = route.destCity then i else s.routeIndex city next

/-- A departure with less risk than the label takes its place. -/
def relax (s : Search n) (curCity : Fin n) (i : ℕ) (route : AbstractRoute n) (prevTime : ℕ) (risk : ℚ) :
    Option (Search n) := do
  let label ← toInt risk
  if label < s.risks route.destCity then do
    let _ ← intMinutes (route.arrivalTime prevTime)
    some (s.relabel curCity i route prevTime label)
  else some s

/-- A departure from the start city. The sums of the loop only grow, so they all fit when the last one does. -/
def relaxFirst (d : AbstractData n) (curCity : Fin n) (startT : ℕ) (timeLmt : ℤ) (i : ℕ)
    (route : AbstractRoute n) (s : Search n) : Option (Search n) := do
  let realStartTime ← intMinutes (route.realStartTime startT)
  let waitTime := realStartTime - startT
  let spent ← intMinutes (waitTime + route.costTime)
  if timeLmt < spent then some s
  else s.relax curCity i route startT (firstRisk (d.cityIdHash curCity).factor route waitTime)

/-- A departure from another city. -/
def relaxLater (d : AbstractData n) (curCity : Fin n) (startT prevTime : ℕ) (timeLmt : ℤ) (i : ℕ)
    (route : AbstractRoute n) (s : Search n) : Option (Search n) :=
  if s.visit route.destCity then some s
  else do
    let realStartTime ← intMinutes (route.realStartTime prevTime)
    let waitTime := realStartTime - prevTime
    let arrivalTime ← intMinutes (waitTime + prevTime + route.costTime)
    if timeLmt < (arrivalTime : ℤ) - startT then some s
    else s.relax curCity i route prevTime (laterRisk (d.cityIdHash curCity).factor route waitTime)

/-- The loop over the departures of a city. -/
def forRoutes (body : ℕ → AbstractRoute n → Search n → Option (Search n)) :
    ℕ → List (AbstractRoute n) → Search n → Option (Search n)
  | _, [], s => some s
  | i, route :: routes, s => do forRoutes body (i + 1) routes (← body i route s)

/-- The city with the least label among those that were not visited, or the current one. -/
def selectCity (s : Search n) (curCity : Fin n) : Fin n :=
  ((List.finRange n).foldl (fun (best : ℤ × Fin n) j =>
    if s.visit j = false ∧ s.risks j < best.1 then (s.risks j, j) else best) (INF, curCity)).2

def visitCity (s : Search n) (curCity : Fin n) : Search n :=
  { s with visit := fun city => city = curCity || s.visit city }

/-- `spendTime[prev[curCity]][curCity]`. -/
def prevTime (s : Search n) (curCity : Fin n) : Option ℕ := do
  let p ← s.prev curCity
  some (s.spendTime p curCity)

def expandLoop (d : AbstractData n) (destCity : Fin n) (startT : ℕ) (timeLmt : ℤ) :
    ℕ → Fin n → Search n → Option (Search n)
  | 0, _, s => some s
  | fuel + 1, curCity, s =>
      let nextCity := s.selectCity curCity
      if nextCity = curCity then some s
      else do
        let s := s.visitCity nextCity
        let prevTime ← s.prevTime nextCity
        if nextCity = destCity then some s
        else do
          let s ← forRoutes (relaxLater d nextCity startT prevTime timeLmt) 0 (d.routeMap nextCity) s
          expandLoop d destCity startT timeLmt fuel nextCity s

def run (d : AbstractData n) (startCity destCity : Fin n) (startT : ℕ) (timeLmt : ℤ) :
    Option (Search n) := do
  let s ← forRoutes (relaxFirst d startCity startT timeLmt) 0 (d.routeMap startCity)
    (init startCity startT)
  expandLoop d destCity startT timeLmt n startCity s

/-! ## The output -/

/-- The cities from the start city to the given one; the array of the route has `n` entries. -/
def routePass (s : Search n) (startCity : Fin n) : ℕ → Fin n → List (Fin n) → Option (List (Fin n))
  | 0, _, _ => none
  | fuel + 1, pos, route =>
      match s.prev pos with
      | none => some (startCity :: route)
      | some p => routePass s startCity fuel p (pos :: route)

end Search

/-- One ride of a route. -/
structure Leg (n : ℕ) where
  cityId : Fin n
  nextCity : Fin n
  route : AbstractRoute n
  /-- `spendTime[cityId][nextCity]`. -/
  arrival : ℕ
  deriving DecidableEq

structure Plan (n : ℕ) where
  legs : List (Leg n)
  totalTime : ℕ
  totalRisk : ℤ
  deriving DecidableEq

namespace Search

def legs (d : AbstractData n) (s : Search n) : List (Fin n) → Option (List (Leg n))
  | cityId :: nextCity :: cities => do
      let route ← (d.routeMap cityId)[s.routeIndex cityId nextCity]?
      let rest ← legs d s (nextCity :: cities)
      some (⟨cityId, nextCity, route, s.spendTime cityId nextCity⟩ :: rest)
  | _ => some []

def plan (d : AbstractData n) (s : Search n) (startCity destCity : Fin n) (startT : ℕ) :
    Option (Option (Plan n)) :=
  if s.visit destCity then do
    let cities ← s.routePass startCity n destCity []
    let legs ← s.legs d cities
    let time ← s.prevTime destCity
    some (some ⟨legs, time - startT, s.risks destCity⟩)
  else some none

end Search

/-- The route that `runWithAlgorithmDij` outputs, if any. -/
def findPlan (d : AbstractData n) (startCity destCity : Fin n) (startT : ℕ) (timeLmt : ℤ) :
    Option (Option (Plan n)) := do
  let s ← Search.run d startCity destCity startT timeLmt
  s.plan d startCity destCity startT

def Leg.text (d : AbstractData n) (leg : Leg n) : QString :=
  "\n\t在【" ++ (d.cityIdHash leg.cityId).name ++ "】乘坐" ++ leg.route.vehicleType.letter ++
    toString leg.route.serialNum

def Plan.text (d : AbstractData n) (plan : Plan n) : QString :=
  (plan.legs.map (Leg.text d)).foldl (· ++ ·) "" ++
    "\n\t总耗时:" ++ toString (plan.totalTime / 60) ++ "小时" ++ toString (plan.totalTime % 60) ++ "分钟" ++
    "\n\t总危险值:" ++ toString plan.totalRisk

/-- The three tasks of a ride, from the time at its city. -/
def Leg.tasks (d : AbstractData n) (taskStartTime : ℕ) (leg : Leg n) : List Task :=
  let fromCity := (d.cityIdHash leg.cityId).name
  let destCity := (d.cityIdHash leg.nextCity).name
  let departure := leg.arrival - leg.route.costTime
  [⟨taskStartTime, departure, .waiting, leg.route.serialNum, leg.route.vehicleType, fromCity, fromCity⟩,
    ⟨departure, leg.arrival, .traveling, leg.route.serialNum, leg.route.vehicleType, fromCity, destCity⟩,
    ⟨leg.arrival, leg.arrival, .arrive, 0, .airplane, destCity, destCity⟩]

def tasks (d : AbstractData n) : ℕ → List (Leg n) → List Task
  | _, [] => []
  | taskStartTime, leg :: legs => leg.tasks d taskStartTime ++ tasks d leg.arrival legs

end TermCollection.Travel
