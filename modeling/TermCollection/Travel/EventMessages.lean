import TermCollection.Travel.Punctuality
import TermCollection.Travel.TaskQueue

/-!
# The messages of a journey (`mainLoop`)

A tick hands one text back to the main loop, however many tasks it takes from the queue.
-/

namespace TermCollection.Travel

variable {n : ℕ} {d : AbstractData n} {b₀ b b' : BackendBase} {c c' : Customer} {e : Event n}
variable {out : List Output} {tr : List (Event n × List Output)} {due : List Task} {stale : ℕ}

/-! ## What is shown -/

/-- The main loop, its pauses and its end. -/
def ofMainLoop : Event n → Bool
  | .startQuery _ => false
  | _ => true

/-- The text that goes through `sigNewMessage`. -/
def messageText : Output → Option QString
  | .newMessage _ text | .plainMessage text => some text
  | _ => none

/-- The messages of a history, the oldest first. -/
def messages (tr : List (Event n × List Output)) : List QString :=
  (tr.reverse.flatMap Prod.snd).filterMap messageText

theorem messages_cons (e : Event n) (out : List Output) (tr : List (Event n × List Output)) :
    messages ((e, out) :: tr) = messages tr ++ out.filterMap messageText := by
  simp [messages]

theorem messageText_outputs (due : List Task) : (due.flatMap Task.outputs).filterMap messageText = [] := by
  induction due with
  | nil => rfl
  | cons task due ih =>
      rw [List.flatMap_cons, List.filterMap_append, ih]
      rfl

/-! ## The conditions -/

/-- The iteration gets to the body of the main loop. -/
def BackendBase.inBody (b : BackendBase) : Bool :=
  match b.loop with
  | .top => b.running && !b.mlPaused
  | .waiting => !(b.mlPaused && b.running)
  | .ended => false

/-- The first two tasks do not both start in the present minute. -/
def Customer.oneDue (c : Customer) : Bool :=
  match c.taskQueue with
  | first :: second :: _ => first.startTime ≠ c.sysTime / 60 || second.startTime ≠ c.sysTime / 60
  | _ => true

/-- An event of the main loop that does not find two tasks to take. -/
def unhurried (b : BackendBase) (e : Event n) : Bool :=
  match e with
  | .iterate _ => !b.inBody || b.customer.oneDue
  | .startQuery _ => false
  | _ => true

theorem takeDue_length (c : Customer) :
    (Customer.takeDue (c.sysTime / 60) c.taskQueue).1.length ≤ 1 ↔ c.oneDue = true := by
  unfold Customer.oneDue
  match c.taskQueue with
  | [] => simp [Customer.takeDue]
  | [first] => by_cases hfirst : c.sysTime / 60 = first.startTime <;> simp [Customer.takeDue, hfirst]
  | first :: second :: rest =>
      by_cases hfirst : c.sysTime / 60 = first.startTime
      · by_cases hsecond : c.sysTime / 60 = second.startTime
        · simp [Customer.takeDue, ← hfirst, ← hsecond]
        · simp [Customer.takeDue, hfirst, hfirst ▸ hsecond, Ne.symm (hfirst ▸ hsecond)]
      · simp [Customer.takeDue, hfirst, Ne.symm hfirst]

/-! ## One step -/

/-- The step takes the tasks from the queue and shows the last of them. -/
structure Takes (b : BackendBase) (out : List Output) (b' : BackendBase) (due : List Task) : Prop where
  queue : b.customer.taskQueue = due ++ b'.customer.taskQueue
  shown : out.filterMap messageText = (due.getLast?.map Task.log).toList

theorem takes_nothing (hcustomer : b'.customer = b.customer) : Takes b [] b' [] :=
  ⟨by rw [hcustomer]; rfl, rfl⟩

/-- What `updateStatus` gives, with outputs before it that are no messages. -/
theorem takes_updateStatus {before : List Output} {log : Option QString} {time : ℕ}
    (hbefore : before.filterMap messageText = []) (hcustomer : c' = b'.customer)
    (hupdate : b.customer.updateStatus stale = some (c', out, log)) :
    Takes b (before ++ out ++ (log.map (Output.newMessage time)).toList) b'
      (Customer.takeDue (b.customer.sysTime / 60) b.customer.taskQueue).1 := by
  obtain ⟨hqueue, rfl, rfl⟩ := updateStatus_eq_some hupdate
  refine ⟨?_, ?_⟩
  · rw [← hcustomer, hqueue]
    exact (takeDue_cut _ _).split
  · rw [List.filterMap_append, List.filterMap_append, hbefore, messageText_outputs]
    cases (Customer.takeDue (b.customer.sysTime / 60) b.customer.taskQueue).1.getLast? <;> rfl

theorem takes_loopBody (hs : b.loopBody stale = some (b', out)) :
    Takes b out b' (Customer.takeDue (b.customer.sysTime / 60) b.customer.taskQueue).1 := by
  unfold BackendBase.loopBody at hs
  by_cases hten : b.ten = 10
  · simp only [hten, ↓reduceIte, Option.bind_eq_bind, Option.bind_eq_some_iff, Option.some.injEq,
      Prod.mk.injEq, Prod.exists] at hs
    obtain ⟨customer, changes, log, hupdate, rfl, rfl⟩ := hs
    exact takes_updateStatus rfl rfl hupdate
  · simp only [hten, ↓reduceIte, Option.bind_eq_bind, Option.bind_eq_some_iff, Option.some.injEq,
      Prod.mk.injEq, Prod.exists] at hs
    obtain ⟨customer, changes, log, hupdate, rfl, rfl⟩ := hs
    exact takes_updateStatus rfl rfl hupdate

/-- An iteration runs the body, or leaves the customer alone and shows nothing. -/
theorem iterate_cases (hs : b.iterate stale = some (b', out)) :
    (b.inBody = true ∧ b.loopBody stale = some (b', out)) ∨
      (b.inBody = false ∧ out = [] ∧ b'.customer = b.customer) := by
  unfold BackendBase.iterate at hs
  unfold BackendBase.inBody
  cases hloop : b.loop with
  | ended =>
      simp only [hloop] at hs
      cases hs
      exact .inr ⟨rfl, rfl, rfl⟩
  | top =>
      simp only [hloop] at hs ⊢
      split at hs
      · rename_i hrunning
        cases hs
        exact .inr ⟨by simp [hrunning], rfl, rfl⟩
      · split at hs
        · rename_i hpaused
          cases hs
          exact .inr ⟨by simp [hpaused], rfl, rfl⟩
        · rename_i hrunning hpaused
          exact .inl ⟨by simpa using And.intro hrunning hpaused, hs⟩
  | waiting =>
      simp only [hloop] at hs ⊢
      split at hs
      · rename_i hwait
        cases hs
        exact .inr ⟨by simp [hwait.1, hwait.2], rfl, rfl⟩
      · rename_i hwait
        refine .inl ⟨?_, hs⟩
        rw [Bool.not_eq_true', ← Bool.not_eq_true, Bool.and_eq_true]
        exact hwait

theorem takes_of_step (he : ofMainLoop e = true) (hs : travelStep d b e = some (b', out)) :
    ∃ due, Takes b out b' due ∧ (due.length ≤ 1 ↔ unhurried b e = true) := by
  cases e with
  | iterate stale =>
      rcases iterate_cases hs with ⟨hbody, hs⟩ | ⟨hbody, rfl, hcustomer⟩
      · refine ⟨_, takes_loopBody hs, ?_⟩
        rw [takeDue_length, unhurried, hbody]
        rfl
      · refine ⟨[], takes_nothing hcustomer, iff_of_true (Nat.zero_le 1) ?_⟩
        rw [unhurried, hbody]
        rfl
  | startQuery query => cases he
  | setPaused paused =>
      cases hs
      exact ⟨[], takes_nothing rfl, iff_of_true (Nat.zero_le 1) rfl⟩
  | setRunning flag =>
      cases hs
      exact ⟨[], takes_nothing rfl, iff_of_true (Nat.zero_le 1) rfl⟩

/-! ## Every run -/

/-- The tasks that a run has taken, and the messages that it has shown: there is at most one for a task, and
one for each just when no tick found two. -/
structure Shown (d : AbstractData n) (b₀ b : BackendBase) (tr : List (Event n × List Output))
    (done : List Task) : Prop where
  queue : b₀.customer.taskQueue = done ++ b.customer.taskQueue
  at_most : (messages tr).length ≤ done.length
  length_iff : (messages tr).length = done.length ↔ (travelStep d).Run (unhurried · ·) b₀ b tr
  in_order : (travelStep d).Run (unhurried · ·) b₀ b tr → messages tr = done.map Task.log

theorem length_last (due : List Task) : (due.getLast?.map Task.log).toList.length = min 1 due.length := by
  cases due with
  | nil => rfl
  | cons task due => simp [List.getLast?_cons]

theorem last_of_single (h : due.length ≤ 1) :
    (due.getLast?.map Task.log).toList = due.map Task.log := by
  match due, h with
  | [], _ => rfl
  | [task], _ => rfl

theorem Shown.step {done : List Task} {C : BackendBase → Event n → Prop} (h : Shown d b₀ b tr done)
    (hr : (travelStep d).Run C b₀ b tr) (he : ofMainLoop e = true)
    (hs : travelStep d b e = some (b', out)) : ∃ done', Shown d b₀ b' ((e, out) :: tr) done' := by
  obtain ⟨due, htakes, hsingle⟩ := takes_of_step he hs
  have hlength : (messages ((e, out) :: tr)).length = (messages tr).length + min 1 due.length := by
    rw [messages_cons, List.length_append, htakes.shown, length_last]
  have hle := h.at_most
  refine ⟨done ++ due, ?_, ?_, ?_, ?_⟩
  · rw [h.queue, htakes.queue, List.append_assoc]
  · rw [hlength, List.length_append]
    omega
  · rw [hr.next_iff hs, ← h.length_iff, ← hsingle, hlength, List.length_append]
    omega
  · rw [hr.next_iff hs, ← hsingle]
    rintro ⟨hcalm, hdue⟩
    rw [messages_cons, h.in_order hcalm, htakes.shown, last_of_single hdue, List.map_append]

/-- A run of the main loop shows one message for each task that it has taken, in their order, if and only
if no tick of it has found two tasks to take. -/
theorem one_message_per_task
    (hr : (travelStep d).Run (fun _ e => ofMainLoop e = true) b₀ b tr) :
    ∃ done, b₀.customer.taskQueue = done ++ b.customer.taskQueue ∧
      (messages tr = done.map Task.log ↔ (travelStep d).Run (unhurried · ·) b₀ b tr) := by
  have hshown := hr.invariant (I := fun b tr => ∃ done, Shown d b₀ b tr done)
    ⟨[], rfl, Nat.le_refl 0, iff_of_true rfl .init, fun _ => rfl⟩
    fun b tr e b' out hr ⟨_, h⟩ he hs => h.step hr he hs
  obtain ⟨done, hdone⟩ := hshown
  refine ⟨done, hdone.queue, fun hmessages => ?_, hdone.in_order⟩
  rw [← hdone.length_iff, hmessages, List.length_map]

theorem oneDue_of_increasing (h : (c.taskQueue.map Task.startTime).IsChain (· < ·)) : c.oneDue = true := by
  unfold Customer.oneDue
  match htasks : c.taskQueue with
  | [] => rfl
  | [first] => rfl
  | first :: second :: rest =>
      rw [htasks, List.map_cons, List.map_cons, List.isChain_cons_cons] at h
      have hne := Nat.ne_of_lt h.1
      by_cases hfirst : first.startTime = c.sysTime / 60
      · simp [← hfirst, hne.symm]
      · simp [hfirst]

/-- No tick finds two tasks when each starts after the one before it. -/
theorem unhurried_of_increasing
    (hstarts : (b₀.customer.taskQueue.map Task.startTime).IsChain (· < ·))
    (hr : (travelStep d).Run (fun _ e => ofMainLoop e = true) b₀ b tr) :
    (travelStep d).Run (unhurried · ·) b₀ b tr := by
  have hrun := hr.invariant (I := fun b tr => (b.customer.taskQueue.map Task.startTime).IsChain (· < ·) ∧
      (travelStep d).Run (unhurried · ·) b₀ b tr) ⟨hstarts, .init⟩ ?_
  · exact hrun.2
  · rintro b tr e b' out - ⟨hchain, hcalm⟩ he hs
    obtain ⟨due, htakes, hsingle⟩ := takes_of_step he hs
    have hdue : unhurried b e = true := by
      cases e with
      | iterate stale =>
          rw [unhurried, oneDue_of_increasing hchain, Bool.or_true]
      | startQuery query => cases he
      | setPaused paused => rfl
      | setRunning flag => rfl
    refine ⟨?_, .next hcalm hdue hs⟩
    rw [htakes.queue, List.map_append] at hchain
    exact hchain.right_of_append

/-- The customer with the night bus, who asks at the given time. -/
def waitingForBus (minute : ℕ) : BackendBase :=
  Machine.stateAfter (travelStep nightBus) Machine.always (newBackendBase (60 * minute))
    [.startQuery ⟨⟨0, Nat.two_pos⟩, ⟨1, Nat.one_lt_two⟩, 0, minute, .safetyRefered, true, noTimeLmt⟩]

theorem one_message_per_task_example :
    ∃ b tr done, (travelStep nightBus).Run (fun _ e => ofMainLoop e = true) (waitingForBus 0) b tr ∧
      (waitingForBus 0).customer.taskQueue = done ++ b.customer.taskQueue ∧ done.length = 2 ∧
      messages tr = done.map Task.log := by
  have hcheck : (Machine.exec (travelStep nightBus) unhurried (waitingForBus 0)
      (List.replicate 6 (.iterate 0))).isSome = true := by decide +kernel
  obtain ⟨hcalm, -⟩ := Machine.run_after (travelStep nightBus) unhurried _ _ hcheck
  have hrun := hcalm.mono (D := fun _ e => ofMainLoop e = true) ?_
  · obtain ⟨done, hqueue, hmessages⟩ := one_message_per_task hrun
    refine ⟨_, _, done, hrun, hqueue, ?_, hmessages.mpr hcalm⟩
    have hlength := congrArg List.length (hmessages.mpr hcalm)
    rw [List.length_map] at hlength
    rw [← hlength]
    decide +kernel
  · intro b e hcalm
    cases e <;> first | rfl | cases hcalm

/-- The tasks at the departure, when there is nothing to wait for. -/
def busWait : Task := ⟨3, 3, .waiting, 1, .car, "A", "A"⟩

def busRide : Task := ⟨3, 63, .traveling, 1, .car, "A", "B"⟩

/-- The bus leaves when the customer comes, and only the departure is shown. -/
theorem waiting_not_shown :
    ∃ b tr, (travelStep nightBus).Run (fun _ e => ofMainLoop e = true) (waitingForBus 3) b tr ∧
      (waitingForBus 3).customer.taskQueue = [busWait, busRide] ++ b.customer.taskQueue ∧
      messages tr = [busRide.log] ∧ messages tr ≠ [busWait, busRide].map Task.log := by
  obtain ⟨hrun, -⟩ := Machine.run_after (travelStep nightBus) (fun _ e => ofMainLoop e) (waitingForBus 3)
    [.iterate 0] (by decide +kernel)
  exact ⟨_, _, hrun, by decide +kernel, by decide +kernel, by decide +kernel⟩

end TermCollection.Travel
