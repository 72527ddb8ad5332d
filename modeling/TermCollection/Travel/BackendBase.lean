import TermCollection.Lib.Machine
import TermCollection.Travel.AlgorithmHelper

/-!
# The simulation (`BackendBase.cpp`)

The system time is counted in seconds from the midnight before the start of the program.
-/

namespace TermCollection.Travel

variable {n : ℕ}

inductive TravelPolicy where
  | safetyRefered
  | timeRefered
  | other (value : ℤ)
  deriving DecidableEq

/-- Where `mainLoop` is between two iterations: before the next one, in the loop that waits for the end of
a pause, or at its end. -/
inductive LoopPoint where
  | top
  | waiting
  | ended
  deriving DecidableEq

structure BackendBase where
  sysTime : ℕ
  customer : Customer
  running : Bool
  mlPaused : Bool
  loop : LoopPoint
  /-- The counter of `mainLoop`. -/
  ten : ℕ
  deriving DecidableEq

/-- The arguments of `slotStartQuery`; the cities are cities of the timetable. -/
structure Query (n : ℕ) where
  fromCity : Fin n
  destCity : Fin n
  startH : ℤ
  startM : ℤ
  policy : TravelPolicy
  setoff : Bool
  timeLmt : ℤ
  deriving DecidableEq

/-- An iteration comes with what the loop of the customer finds behind the last task. -/
inductive Event (n : ℕ) where
  | iterate (stale : ℕ)
  | startQuery (query : Query n)
  | setPaused (paused : Bool)
  | setRunning (flag : Bool)
  deriving DecidableEq

/-- The default limit of `runWithAlgorithmDij`. -/
def noTimeLmt : ℤ := 0x7FFFFFF

namespace BackendBase

/-- The body of `mainLoop` after the pause. -/
def loopBody (b : BackendBase) (stale : ℕ) : Option (BackendBase × List Output) := do
  let (b, out) :=
    if b.ten = 10 then ({ b with sysTime := b.sysTime + 360, ten := 0 }, [Output.sysTimeChanged])
    else (b, [])
  let (customer, changes, log) ← b.customer.updateStatus stale
  some ({ b with customer := customer, loop := .top, ten := b.ten + 1 },
    out ++ changes ++ (log.map (Output.newMessage b.sysTime)).toList)

/-- One iteration of `mainLoop`, or of the loop that waits in it. -/
def iterate (b : BackendBase) (stale : ℕ) : Option (BackendBase × List Output) :=
  match b.loop with
  | .ended => some (b, [])
  | .top =>
      if b.running = false then some ({ b with loop := .ended }, [])
      else if b.mlPaused = true then some ({ b with loop := .waiting }, [])
      else b.loopBody stale
  | .waiting =>
      if b.mlPaused = true ∧ b.running = true then some (b, [])
      else b.loopBody stale

/-- Hours and minutes of `m_sysTime.time()`, in minutes. -/
def timeOfDay (b : BackendBase) : ℕ := b.sysTime / 3600 % 24 * 60 + b.sysTime / 60 % 60

def runWithAlgorithmDij (d : AbstractData n) (b : BackendBase) (fromCity destCity : Fin n) (startT : ℕ)
    (setoff : Bool) (timeLmt : ℤ) : Option (BackendBase × List Output) := do
  match ← findPlan d fromCity destCity startT timeLmt with
  | none => some (b, [.newMessage b.sysTime "No such path found"])
  | some plan =>
      let newTasks := if setoff then tasks d startT plan.legs else []
      some ({ b with customer := b.customer.addTasks newTasks }, [.newMessage b.sysTime (plan.text d)])

/-- The message that a query is refused with. -/
def refusal (d : AbstractData n) (b : BackendBase) (q : Query n) : Option QString :=
  if (d.cityIdHash q.fromCity).name = (d.cityIdHash q.destCity).name then some "出发地与到达地不能相同"
  else if 24 ≤ q.startH ∨ q.startH < 0 then some "请输入正确的小时范围(0~23)"
  else if 60 ≤ q.startM ∨ q.startM < 0 then some "请输入正确的分钟时刻(0~59)"
  else if q.setoff ∧ b.customer.isTaskEmpty = false then some "旅客仍在旅行中, 请使用查询模式"
  else none

/-- A start time before the time of the day is one of the next day. -/
def startT (b : BackendBase) (q : Query n) : ℕ :=
  let time := q.startH.toNat * 60 + q.startM.toNat
  if time < b.timeOfDay then time + 24 * 60 else time

def slotStartQuery (d : AbstractData n) (b : BackendBase) (q : Query n) :
    Option (BackendBase × List Output) :=
  match b.refusal d q with
  | some text => some (b, [.popupMessage text])
  | none => do
      let started := Output.newMessage b.sysTime "Start query"
      let startT := b.startT q
      let b := { b with customer := b.customer.setSysTime (b.timeOfDay * 60) }
      let (b, out) ←
        (match q.policy with
        | .timeRefered => runWithAlgorithmDij d b q.fromCity q.destCity startT q.setoff q.timeLmt
        | .safetyRefered => runWithAlgorithmDij d b q.fromCity q.destCity startT q.setoff noTimeLmt
        | .other _ => some (b, [.plainMessage "\n\tUnkonw policy"]))
      some (b, started :: out)

end BackendBase

/-- The program at its start: the time is that of the computer. -/
def newBackendBase (sysTime : ℕ) : BackendBase := ⟨sysTime, ⟨0, []⟩, true, false, .top, 0⟩

def travelStep (d : AbstractData n) : Machine BackendBase (Event n) Output
  | b, .iterate stale => b.iterate stale
  | b, .startQuery query => b.slotStartQuery d query
  | b, .setPaused paused => some ({ b with mlPaused := paused }, [])
  | b, .setRunning flag => some ({ b with running := flag }, [])

end TermCollection.Travel
