import TermCollection.Travel.AbstractData

/-!
# The customer (`Customer.h`, `Customer.cpp`)
-/

namespace TermCollection.Travel

/-! ## Tasks -/

inductive BehaviorType where
  | waiting
  | traveling
  | arrive
  deriving DecidableEq

structure Task where
  startTime : ℕ
  endTime : ℕ
  behaviorType : BehaviorType
  tacNumber : ℤ
  vehicleType : TransType
  fromCity : QString
  destCity : QString
  deriving DecidableEq

def TransType.letter : TransType → QString
  | airplane => "A"
  | train => "T"
  | car => "C"

/-- The hour and the minute of a time. -/
def hourMinute (time : ℕ) : QString := toString (time / 60 % 24) ++ ":" ++ toString (time % 60)

def Task.log (task : Task) : QString :=
  match task.behaviorType with
  | .arrive => "旅客到达【" ++ task.destCity ++ "】, " ++ "当前时间" ++ hourMinute task.endTime
  | .waiting =>
      "旅客在【" ++ task.fromCity ++ "】于 " ++ hourMinute task.startTime ++ " 开始等候【" ++
        task.vehicleType.letter ++ toString task.tacNumber ++ "】发车。发车时间：" ++ hourMinute task.endTime
  | .traveling =>
      "旅客在【" ++ task.fromCity ++ "】于 " ++ hourMinute task.startTime ++ " 乘坐【" ++
        task.vehicleType.letter ++ toString task.tacNumber ++ "】驶向【" ++ task.destCity ++
        "】。预计到达时间：" ++ hourMinute task.endTime

/-- What the program shows and writes down. -/
inductive Output where
  | statusChanged (fromCity destCity : QString) (duration : ℤ) (status : BehaviorType)
  | insertLogInfo (log : QString)
  | sysTimeChanged
  | newMessage (sysTime : ℕ) (text : QString)
  /-- A message without the time. -/
  | plainMessage (text : QString)
  | popupMessage (text : QString)
  deriving DecidableEq

def Task.outputs (task : Task) : List Output :=
  [.statusChanged task.fromCity task.destCity (task.endTime - task.startTime) task.behaviorType,
    .insertLogInfo task.log]

/-! ## The customer -/

structure Customer where
  /-- In seconds. -/
  sysTime : ℕ
  taskQueue : List Task
  deriving DecidableEq

namespace Customer

def setSysTime (c : Customer) (time : ℕ) : Customer := { c with sysTime := time }

def addTasks (c : Customer) (tasks : List Task) : Customer :=
  { c with taskQueue := c.taskQueue ++ tasks }

def isTaskEmpty (c : Customer) : Bool := c.taskQueue.isEmpty

/-- The tasks that the loop takes from the queue, and the others. -/
def takeDue (minute : ℕ) : List Task → List Task × List Task
  | [] => ([], [])
  | task :: tasks =>
      if minute = task.startTime then (task :: (takeDue minute tasks).1, (takeDue minute tasks).2)
      else ([], task :: tasks)

/-- The last log is the one that is returned. After the last task the loop looks at the front of an empty
queue, where it finds `stale`; a task that starts there has no defined result. -/
def updateStatus (c : Customer) (stale : ℕ) : Option (Customer × List Output × Option QString) :=
  if c.taskQueue = [] then some (c, [], none)
  else
    let minute := c.sysTime / 60
    let (due, rest) := takeDue minute c.taskQueue
    if rest = [] ∧ minute = stale then none
    else some (⟨c.sysTime + 36, rest⟩, due.flatMap Task.outputs, due.getLast?.map Task.log)

end Customer

end TermCollection.Travel
