import TermCollection.Travel.Customer

/-!
# The use of the task queue (`Customer::updateStatus`)

The emptiness of the queue is tested once, before the loop that takes the tasks of the minute. The loop
looks for the next task before it knows that there is one.
-/

namespace TermCollection.Travel

variable {c c' : Customer} {minute stale : ℕ} {queue due rest : List Task} {out : List Output}
variable {log : Option QString}

/-! ## The loop with its uses of the queue -/

inductive QueueOp where
  | front
  | pop
  deriving DecidableEq

/-- An operation on the queue, with the tasks that are in it at that time. -/
structure QueueUse where
  op : QueueOp
  tasks : List Task
  deriving DecidableEq

/-- The inner loop: the uses of the queue, and the tasks that it leaves. The condition takes the front, and
the body takes it again before it removes it. -/
def dueLoop (minute stale : ℕ) : List Task → List QueueUse × Option (List Task)
  | [] => ([⟨.front, []⟩], if minute = stale then none else some [])
  | task :: tasks =>
      if minute = task.startTime then
        let (uses, rest) := dueLoop minute stale tasks
        (⟨.front, task :: tasks⟩ :: ⟨.front, task :: tasks⟩ :: ⟨.pop, task :: tasks⟩ :: uses, rest)
      else ([⟨.front, task :: tasks⟩], some (task :: tasks))

/-- The uses of the queue in `updateStatus`; the first one is for the output of `qDebug`. -/
def Customer.queueUses (c : Customer) (stale : ℕ) : List QueueUse :=
  if c.taskQueue = [] then []
  else ⟨.front, c.taskQueue⟩ :: (dueLoop (c.sysTime / 60) stale c.taskQueue).1

/-! ## The tasks of a minute -/

/-- The rest is what stands in the queue behind the first tasks that start in the minute. -/
structure CutBehind (minute : ℕ) (queue due rest : List Task) : Prop where
  split : queue = due ++ rest
  due_start : ∀ task ∈ due, task.startTime = minute
  rest_start : ∀ task ∈ rest.head?, task.startTime ≠ minute

theorem takeDue_cut (minute : ℕ) (queue : List Task) :
    CutBehind minute queue (Customer.takeDue minute queue).1 (Customer.takeDue minute queue).2 := by
  induction queue with
  | nil => exact ⟨rfl, by simp [Customer.takeDue], by simp [Customer.takeDue]⟩
  | cons task tasks ih =>
      rw [Customer.takeDue]
      split
      · rename_i hdue
        refine ⟨?_, ?_, ih.rest_start⟩
        · rw [List.cons_append, ← ih.split]
        · exact List.forall_mem_cons.mpr ⟨hdue.symm, ih.due_start⟩
      · rename_i hlater
        refine ⟨rfl, by simp, ?_⟩
        rintro task' ⟨⟩
        exact Ne.symm hlater

/-- Nothing is left just when all the tasks start in the minute. -/
theorem CutBehind.rest_eq_nil (h : CutBehind minute queue due rest) :
    rest = [] ↔ ∀ task ∈ queue, task.startTime = minute := by
  constructor
  · rintro rfl
    rw [h.split, List.append_nil]
    exact h.due_start
  · intro hall
    cases rest with
    | nil => rfl
    | cons task rest =>
        have hmem : task ∈ queue := by
          rw [h.split]
          simp
        exact absurd (hall task hmem) (h.rest_start task rfl)

/-! ## The loop against the customer -/

/-- The loop leaves the tasks behind those of the minute, when it comes to an end. -/
theorem dueLoop_snd (minute stale : ℕ) (queue : List Task) : (dueLoop minute stale queue).2 =
    if (Customer.takeDue minute queue).2 = [] ∧ minute = stale then none
    else some (Customer.takeDue minute queue).2 := by
  induction queue with
  | nil => simp [dueLoop, Customer.takeDue]
  | cons task tasks ih =>
      rw [dueLoop, Customer.takeDue]
      split
      · exact ih
      · simp

theorem updateStatus_queue (c : Customer) (stale : ℕ) : (c.updateStatus stale).map (·.1.taskQueue) =
    if c.taskQueue = [] then some [] else (dueLoop (c.sysTime / 60) stale c.taskQueue).2 := by
  unfold Customer.updateStatus
  by_cases hempty : c.taskQueue = []
  · rw [if_pos hempty, if_pos hempty, Option.map_some, hempty]
  · rw [if_neg hempty, if_neg hempty, dueLoop_snd]
    simp only
    split <;> rfl

theorem dueLoop_reads_empty (minute stale : ℕ) (queue : List Task) :
    (∃ use ∈ (dueLoop minute stale queue).1, use.tasks = []) ↔ (Customer.takeDue minute queue).2 = [] := by
  induction queue with
  | nil => simp [dueLoop, Customer.takeDue]
  | cons task tasks ih =>
      rw [dueLoop, Customer.takeDue]
      split
      · simpa using ih
      · simp

/-- A tick looks into an empty queue just when it takes the last task. -/
theorem reads_empty_iff (c : Customer) (stale : ℕ) : (∃ use ∈ c.queueUses stale, use.tasks = []) ↔
    c.taskQueue ≠ [] ∧ ∀ task ∈ c.taskQueue, task.startTime = c.sysTime / 60 := by
  unfold Customer.queueUses
  split
  · rename_i hempty
    simp [hempty]
  · rename_i hsome
    rw [← (takeDue_cut _ _).rest_eq_nil, ← dueLoop_reads_empty (c.sysTime / 60) stale]
    simp [hsome]

theorem updateStatus_eq_some (h : c.updateStatus stale = some (c', out, log)) :
    c'.taskQueue = (Customer.takeDue (c.sysTime / 60) c.taskQueue).2 ∧
      out = (Customer.takeDue (c.sysTime / 60) c.taskQueue).1.flatMap Task.outputs ∧
      log = (Customer.takeDue (c.sysTime / 60) c.taskQueue).1.getLast?.map Task.log := by
  unfold Customer.updateStatus at h
  split at h
  · rename_i hempty
    cases h
    rw [hempty]
    exact ⟨rfl, rfl, rfl⟩
  · simp only at h
    split at h
    · cases h
    · cases h
      exact ⟨rfl, rfl, rfl⟩

/-- Whenever the loop comes to an end, it has taken the tasks of the minute from the front of the queue. -/
theorem updateStatus_cut (h : c.updateStatus stale = some (c', out, log)) :
    ∃ due, CutBehind (c.sysTime / 60) c.taskQueue due c'.taskQueue := by
  rw [(updateStatus_eq_some h).1]
  exact ⟨_, takeDue_cut _ _⟩

/-- The tick that takes the last task looks into an empty queue. -/
theorem reads_empty_of_last (hsome : c.taskQueue ≠ []) (h : c.updateStatus stale = some (c', out, log))
    (hlast : c'.taskQueue = []) : ∃ use ∈ c.queueUses stale, use.tasks = [] := by
  obtain ⟨due, hcut⟩ := updateStatus_cut h
  exact (reads_empty_iff c stale).mpr ⟨hsome, hcut.rest_eq_nil.mp hlast⟩

theorem updateStatus_defined (h : c.taskQueue = [] ∨ ∃ task ∈ c.taskQueue, task.startTime ≠ c.sysTime / 60)
    (stale : ℕ) : ∃ c' out log, c.updateStatus stale = some (c', out, log) := by
  have hqueue := updateStatus_queue c stale
  have hdefined : ∃ rest, (c.updateStatus stale).map (·.1.taskQueue) = some rest := by
    rw [hqueue]
    split
    · exact ⟨[], rfl⟩
    · rename_i hsome
      obtain ⟨task, htask, hlater⟩ := h.resolve_left hsome
      have hrest : (Customer.takeDue (c.sysTime / 60) c.taskQueue).2 ≠ [] := fun hnil =>
        hlater ((takeDue_cut _ _).rest_eq_nil.mp hnil task htask)
      rw [dueLoop_snd, if_neg fun hboth => hrest hboth.1]
      exact ⟨_, rfl⟩
  obtain ⟨rest, hrest⟩ := hdefined
  obtain ⟨⟨c', out, log⟩, hupdate, -⟩ := Option.map_eq_some_iff.mp hrest
  exact ⟨c', out, log, hupdate⟩

/-- A tick uses the queue only while there are tasks in it, and ends with the tasks of the minute taken, if
and only if the queue is empty before it or has a task that does not start in the minute. -/
theorem queue_used_while_nonempty (c : Customer) (stale : ℕ) :
    ((∀ use ∈ c.queueUses stale, use.tasks ≠ []) ∧
        ∃ c' out log due, c.updateStatus stale = some (c', out, log) ∧
          CutBehind (c.sysTime / 60) c.taskQueue due c'.taskQueue) ↔
      c.taskQueue = [] ∨ ∃ task ∈ c.taskQueue, task.startTime ≠ c.sysTime / 60 := by
  have hreads := reads_empty_iff c stale
  constructor
  · rintro ⟨huses, -⟩
    by_contra hcondition
    obtain ⟨hsome, hall⟩ := not_or.mp hcondition
    push Not at hall
    obtain ⟨use, huse, hnil⟩ := hreads.mpr ⟨hsome, hall⟩
    exact huses use huse hnil
  · intro hcondition
    refine ⟨fun use huse hnil => ?_, ?_⟩
    · obtain ⟨hsome, hall⟩ := hreads.mp ⟨use, huse, hnil⟩
      obtain ⟨task, htask, hlater⟩ := hcondition.resolve_left hsome
      exact hlater (hall task htask)
    · obtain ⟨c', out, log, hupdate⟩ := updateStatus_defined hcondition stale
      obtain ⟨due, hcut⟩ := updateStatus_cut hupdate
      exact ⟨c', out, log, due, hupdate, hcut⟩

/-- The last task of a journey, at the minute of the arrival. -/
def arriving : Customer := ⟨3780, [⟨63, 63, .arrive, 0, .airplane, "B", "B"⟩]⟩

/-- The front is taken once more behind the last task; when the memory there gives the present minute
again, the loop goes on with a task that does not exist. -/
theorem arrival_reads_empty :
    (∃ use ∈ arriving.queueUses 0, use.tasks = []) ∧ arriving.updateStatus 63 = none := by decide

end TermCollection.Travel
