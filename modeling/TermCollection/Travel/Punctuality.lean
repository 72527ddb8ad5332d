import TermCollection.Lib.Agenda
import TermCollection.Travel.BackendBase
import TermCollection.Travel.Lemmas.Search

/-!
# No task is missed

The tasks of the customer are an agenda for the customer's clock, as long as no query puts the clock
behind the first of them.
-/

namespace TermCollection.Travel

variable {n : ℕ} {d : AbstractData n} {b b' : BackendBase} {c c' : Customer} {e : Event n} {q : Query n}
variable {fromCity destCity : Fin n} {startT minute stale t : ℕ} {timeLmt : ℤ} {setoff : Bool}
variable {out : List Output} {log : Option QString}

/-! ## The customer -/

/-- No task starts before the minute that the clock shows. -/
def Customer.OnTime (c : Customer) : Prop := Agenda (c.sysTime / 60) (c.taskQueue.map Task.startTime)

namespace Customer

theorem takeDue_snd (minute : ℕ) (tasks : List Task) :
    (takeDue minute tasks).2.map Task.startTime =
      (tasks.map Task.startTime).dropWhile (minute = ·) := by
  induction tasks with
  | nil => rfl
  | cons task tasks ih =>
      rw [takeDue, List.map_cons, List.dropWhile_cons]
      by_cases hdue : minute = task.startTime
      · rw [if_pos hdue, if_pos (decide_eq_true hdue)]
        exact ih
      · rw [if_neg hdue, if_neg (by simpa using hdue)]
        rfl

/-- The clock moves on by less than a minute. -/
theorem OnTime.updateStatus (h : c.OnTime) (hu : c.updateStatus stale = some (c', out, log)) :
    c'.OnTime := by
  simp only [Customer.updateStatus] at hu
  split at hu
  · cases hu
    exact h
  · split at hu
    · cases hu
    · cases hu
      have hrest := h.dropWhile
      rw [← takeDue_snd] at hrest
      refine hrest.change fun start hs => ?_
      have hminute : (c.sysTime + 36) / 60 ≤ c.sysTime / 60 + 1 := by omega
      exact Nat.le_trans hminute (hrest.head_le start hs)

end Customer

/-! ## Queries -/

/-- The tasks of a journey are an agenda from its start on. -/
theorem Journey.agenda {city : Fin n} {legs : List (Leg n)} (h : Journey d city startT legs destCity t) :
    Agenda startT ((tasks d startT legs).map Task.startTime) := by
  induction h with
  | stay => exact .nil _
  | @ride city dest time t legs route _ _ ih =>
      have hdeparture : time ≤ route.arrivalTime time - route.costTime := by
        rw [AbstractRoute.arrivalTime]
        omega
      exact Agenda.cons (Nat.le_refl time) (Agenda.cons hdeparture (Agenda.cons (Nat.sub_le _ _) ih))

theorem timeOfDay_lt (b : BackendBase) : b.timeOfDay < 24 * 60 := by
  rw [BackendBase.timeOfDay]
  omega

/-- A journey starts at the time of the day, or later. -/
theorem timeOfDay_le_startT (b : BackendBase) (q : Query n) : b.timeOfDay ≤ b.startT q := by
  have hday := timeOfDay_lt b
  simp only [BackendBase.startT]
  split <;> omega

theorem agenda_runWithAlgorithmDij
    (hr : b.runWithAlgorithmDij d fromCity destCity startT setoff timeLmt = some (b', out))
    (hon : b.customer.OnTime) (hempty : setoff = true → b.customer.taskQueue = [])
    (hstart : b.customer.sysTime / 60 ≤ startT) : b'.customer.OnTime := by
  simp only [BackendBase.runWithAlgorithmDij, Option.bind_eq_bind, Option.bind_eq_some_iff] at hr
  obtain ⟨found, hfound, hr⟩ := hr
  cases found with
  | none =>
      cases hr
      exact hon
  | some plan =>
      cases hr
      cases setoff with
      | false =>
          simp only [Customer.OnTime, Customer.addTasks, Bool.false_eq_true, ↓reduceIte, List.append_nil]
          exact hon
      | true =>
          obtain ⟨t, hjourney⟩ := journey_of_findPlan hfound
          have hagenda := hjourney.agenda
          simp only [Customer.OnTime, Customer.addTasks, hempty rfl, ↓reduceIte, List.nil_append]
          exact hagenda.change fun start hs => Nat.le_trans hstart (hagenda.head_le start hs)

/-- A query that is not refused finds no task that starts before the time of the day. -/
def keepsClock (d : AbstractData n) (b : BackendBase) : Event n → Bool
  | .startQuery q =>
      (b.refusal d q).isSome ||
        b.customer.taskQueue.head?.all fun task => b.timeOfDay ≤ task.startTime
  | _ => true

/-- A journey starts with an empty queue. -/
theorem refusal_setoff (h : b.refusal d q = none) (hsetoff : q.setoff = true) :
    b.customer.taskQueue = [] := by
  have hempty : b.customer.isTaskEmpty = true := by
    by_contra hbusy
    rw [Bool.not_eq_true] at hbusy
    simp only [BackendBase.refusal, hsetoff, hbusy, and_self, ↓reduceIte] at h
    split at h
    · cases h
    · split at h
      · cases h
      · split at h
        · cases h
        · cases h
  exact List.isEmpty_iff.mp hempty

theorem onTime_slotStartQuery (hc : keepsClock d b (.startQuery q) = true) (hon : b.customer.OnTime)
    (hr : b.slotStartQuery d q = some (b', out)) : b'.customer.OnTime := by
  simp only [BackendBase.slotStartQuery] at hr
  split at hr
  · cases hr
    exact hon
  · rename_i haccepted
    simp only [keepsClock, haccepted, Option.isSome_none, Bool.false_or] at hc
    have hclock : b.timeOfDay * 60 / 60 = b.timeOfDay := Nat.mul_div_cancel _ (by decide)
    have hset : (b.customer.setSysTime (b.timeOfDay * 60)).OnTime := by
      rw [Customer.OnTime, Customer.setSysTime, hclock]
      refine hon.change fun start hs => ?_
      rw [List.head?_map] at hs
      obtain ⟨task, htask, rfl⟩ := Option.map_eq_some_iff.mp hs
      rw [htask] at hc
      exact of_decide_eq_true hc
    have hstart : (b.customer.setSysTime (b.timeOfDay * 60)).sysTime / 60 ≤ b.startT q := by
      rw [Customer.setSysTime, hclock]
      exact timeOfDay_le_startT b q
    have hempty : q.setoff = true → (b.customer.setSysTime (b.timeOfDay * 60)).taskQueue = [] :=
      refusal_setoff haccepted
    simp only [Option.bind_eq_bind, Option.bind_eq_some_iff, Option.some.injEq, Prod.mk.injEq,
      Prod.exists] at hr
    obtain ⟨b₁, _, hpolicy, rfl, -⟩ := hr
    split at hpolicy
    · exact agenda_runWithAlgorithmDij hpolicy hset hempty hstart
    · exact agenda_runWithAlgorithmDij hpolicy hset hempty hstart
    · cases hpolicy
      exact hset

/-! ## Every run -/

theorem onTime_loopBody (hon : b.customer.OnTime) (hr : b.loopBody stale = some (b', out)) :
    b'.customer.OnTime := by
  simp only [BackendBase.loopBody, Option.bind_eq_bind, Option.bind_eq_some_iff, Option.some.injEq,
    Prod.mk.injEq, Prod.exists] at hr
  obtain ⟨customer, _, _, hupdate, rfl, -⟩ := hr
  split at hupdate
  · exact hon.updateStatus hupdate
  · exact hon.updateStatus hupdate

theorem onTime_iterate (hon : b.customer.OnTime) (hr : b.iterate stale = some (b', out)) :
    b'.customer.OnTime := by
  simp only [BackendBase.iterate] at hr
  split at hr
  · cases hr
    exact hon
  · split at hr
    · cases hr
      exact hon
    · split at hr
      · cases hr
        exact hon
      · exact onTime_loopBody hon hr
  · split at hr
    · cases hr
      exact hon
    · exact onTime_loopBody hon hr

theorem onTime_step (hc : keepsClock d b e = true) (hon : b.customer.OnTime)
    (hr : travelStep d b e = some (b', out)) : b'.customer.OnTime := by
  cases e with
  | iterate stale => exact onTime_iterate hon hr
  | startQuery q => exact onTime_slotStartQuery hc hon hr
  | setPaused paused =>
      cases hr
      exact hon
  | setRunning flag =>
      cases hr
      exact hon

/-- While every query that is not refused finds no task that starts before the time of the day, the
first task never starts before the minute that the customer's clock shows. -/
theorem no_task_missed (d : AbstractData n) (sysTime : ℕ) {tr : List (Event n × List Output)}
    (h : (travelStep d).Run (keepsClock d · ·) (newBackendBase sysTime) b tr) :
    ∀ task ∈ b.customer.taskQueue.head?, b.customer.sysTime / 60 ≤ task.startTime := by
  have hon : b.customer.OnTime := h.stateInvariant (I := fun b => b.customer.OnTime) (.nil _)
    fun _ _ _ _ hon hc hr => onTime_step hc hon hr
  intro task htask
  apply hon.head_le
  rw [List.head?_map, htask]
  rfl

/-- Two cities with one ride between them, at three minutes past midnight. -/
def nightBus : AbstractData 2 where
  cityIdHash := fun city => ⟨0, if city = 0 then "A" else "B", Rat.le_refl⟩
  routeMap := fun city => if city = 0 then [⟨.car, 1, 3, 60, 1⟩] else []

def askNightBus (setoff : Bool) : Event 2 :=
  .startQuery ⟨0, 1, 0, 10, .safetyRefered, setoff, noTimeLmt⟩

/-- The customer sets off at midnight, just before the system time goes on to six past, and asks for a
route. The newest event comes first. -/
def midnight : List (Event 2) :=
  askNightBus false :: .iterate 0 :: .startQuery ⟨0, 1, 0, 0, .safetyRefered, true, noTimeLmt⟩ ::
    List.replicate 10 (.iterate 0)

theorem no_task_missed_example :
    ∃ b tr, (travelStep nightBus).Run (keepsClock nightBus · ·) (newBackendBase 0) b tr ∧
      tr.map Prod.fst = midnight.tail ∧ b.customer.taskQueue.head?.map Task.startTime = some 3 ∧
      ∀ task ∈ b.customer.taskQueue.head?, b.customer.sysTime / 60 ≤ task.startTime := by
  obtain ⟨hrun, hevents⟩ := Machine.run_after (travelStep nightBus) (keepsClock nightBus)
    (newBackendBase 0) midnight.tail (by decide +kernel)
  exact ⟨_, _, hrun, hevents, by decide +kernel, no_task_missed nightBus 0 hrun⟩

/-- The clock goes from minute 0 to minute 6, past the departure. -/
theorem query_skips_task :
    ∃ b tr, (travelStep nightBus).AnyRun (newBackendBase 0) b tr ∧ tr.map Prod.fst = midnight ∧
      b.customer.taskQueue.head?.map Task.startTime = some 3 ∧ b.customer.sysTime / 60 = 6 := by
  obtain ⟨hrun, hevents⟩ := Machine.run_after (travelStep nightBus) Machine.always
    (newBackendBase 0) midnight (by decide +kernel)
  exact ⟨_, _, hrun.any, hevents, by decide +kernel, by decide +kernel⟩

end TermCollection.Travel
