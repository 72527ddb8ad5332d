import TermCollection.Travel.EventMessages
import TermCollection.Travel.Rides

/-!
# The trips of a run

Whatever the program is asked and however it is paused, the customer makes one trip after the other, each by
the rows of `Schedule`.
-/

namespace TermCollection.Travel

/-- A journey of the customer: what was searched for, and the rides that were found. -/
structure Trip (n : ℕ) where
  fromCity : Fin n
  destCity : Fin n
  startT : ℕ
  timeLmt : ℤ
  legs : List (Leg n)
  deriving DecidableEq

variable {n : ℕ} {d : AbstractData n} {b b' : BackendBase} {e : Event n} {q : Query n} {t : Trip n}
variable {fromCity destCity : Fin n} {startT stale time : ℕ} {timeLmt : ℤ} {setoff : Bool}
variable {out before changes : List Output} {log : Option QString} {c c' : Customer}
variable {tr : List (Event n × List Output)} {trips : List (Trip n)}

/-! ## Setting off -/

def Trip.tasks (d : AbstractData n) (t : Trip n) : List Task := Travel.tasks d t.startT t.legs

/-- The limit of the search under the policy of a query. -/
def Query.limit (q : Query n) : Option ℤ :=
  match q.policy with
  | .timeRefered => some q.timeLmt
  | .safetyRefered => some noTimeLmt
  | .other _ => none

/-- The trip that a query starts. -/
def BackendBase.trip (d : AbstractData n) (b : BackendBase) (q : Query n) : Option (Trip n) :=
  if q.setoff = true ∧ b.refusal d q = none then do
    let limit ← q.limit
    let plan ← (findPlan d q.fromCity q.destCity (b.startT q) limit).join
    some ⟨q.fromCity, q.destCity, b.startT q, limit, plan.legs⟩
  else none

def setsOff (d : AbstractData n) (b : BackendBase) : Event n → Option (Trip n)
  | .startQuery q => b.trip d q
  | _ => none

/-! ## What is shown of a task -/

/-- The output is one of `Task.outputs`. -/
def ofTask : Output → Bool
  | .statusChanged .. | .insertLogInfo _ => true
  | _ => false

/-- The outputs of the tasks of a history, the oldest first. -/
def performed (tr : List (Event n × List Output)) : List Output :=
  (tr.reverse.flatMap Prod.snd).filter ofTask

theorem performed_cons (e : Event n) (out : List Output) (tr : List (Event n × List Output)) :
    performed ((e, out) :: tr) = performed tr ++ out.filter ofTask := by
  simp [performed]

theorem filter_outputs (due : List Task) :
    (due.flatMap Task.outputs).filter ofTask = due.flatMap Task.outputs := by
  rw [List.filter_eq_self]
  intro out hout
  obtain ⟨task, -, hout⟩ := List.mem_flatMap.mp hout
  rcases List.mem_pair.mp hout with rfl | rfl <;> rfl

theorem filter_updateStatus (hbefore : before.filter ofTask = [])
    (hupdate : c.updateStatus stale = some (c', changes, log)) :
    (before ++ changes ++ (log.map (Output.newMessage time)).toList).filter ofTask =
      (Customer.takeDue (c.sysTime / 60) c.taskQueue).1.flatMap Task.outputs := by
  obtain ⟨-, rfl, -⟩ := updateStatus_eq_some hupdate
  have hlog : ((log.map (Output.newMessage time)).toList).filter ofTask = [] := by
    cases log <;> rfl
  rw [List.filter_append, List.filter_append, hbefore, hlog, filter_outputs, List.nil_append, List.append_nil]

/-! ## One step -/

/-- The step adds tasks to the queue, takes some from its front, and shows these. -/
structure Performs (b : BackendBase) (out : List Output) (b' : BackendBase) (due added : List Task) : Prop where
  queue : b.customer.taskQueue ++ added = due ++ b'.customer.taskQueue
  shown : out.filter ofTask = due.flatMap Task.outputs

theorem performs_loopBody (hs : b.loopBody stale = some (b', out)) : ∃ due, Performs b out b' due [] := by
  have hqueue := (takes_loopBody hs).queue
  refine ⟨_, by rwa [List.append_nil], ?_⟩
  unfold BackendBase.loopBody at hs
  by_cases hten : b.ten = 10
  · simp only [hten, ↓reduceIte, Option.bind_eq_bind, Option.bind_eq_some_iff, Option.some.injEq,
      Prod.mk.injEq, Prod.exists] at hs
    obtain ⟨customer, changes, log, hupdate, -, rfl⟩ := hs
    exact filter_updateStatus rfl hupdate
  · simp only [hten, ↓reduceIte, Option.bind_eq_bind, Option.bind_eq_some_iff, Option.some.injEq,
      Prod.mk.injEq, Prod.exists] at hs
    obtain ⟨customer, changes, log, hupdate, -, rfl⟩ := hs
    exact filter_updateStatus rfl hupdate

theorem performs_nothing (hcustomer : b'.customer.taskQueue = b.customer.taskQueue)
    (hout : out.filter ofTask = []) : Performs b out b' [] [] :=
  ⟨by rw [hcustomer, List.append_nil]; rfl, hout⟩

theorem performs_iterate (hs : b.iterate stale = some (b', out)) : ∃ due, Performs b out b' due [] := by
  rcases iterate_cases hs with ⟨-, hs⟩ | ⟨-, rfl, hcustomer⟩
  · exact performs_loopBody hs
  · exact ⟨[], performs_nothing (congrArg Customer.taskQueue hcustomer) rfl⟩

theorem performs_runWithAlgorithmDij
    (hr : b.runWithAlgorithmDij d fromCity destCity startT setoff timeLmt = some (b', out)) :
    Performs b out b' [] (if setoff = true then
      ((findPlan d fromCity destCity startT timeLmt).join.map fun plan => tasks d startT plan.legs).getD []
      else []) := by
  simp only [BackendBase.runWithAlgorithmDij, Option.bind_eq_bind, Option.bind_eq_some_iff] at hr
  obtain ⟨found, hfound, hr⟩ := hr
  rw [hfound]
  cases found with
  | none =>
      cases hr
      exact ⟨by cases setoff <;> simp, rfl⟩
  | some plan =>
      cases hr
      exact ⟨rfl, rfl⟩

theorem trip_tasks (haccepted : b.refusal d q = none) (hlimit : q.limit = some timeLmt) :
    (b.trip d q).toList.flatMap (Trip.tasks d) = if q.setoff = true then
      ((findPlan d q.fromCity q.destCity (b.startT q) timeLmt).join.map
        fun plan => tasks d (b.startT q) plan.legs).getD []
      else [] := by
  unfold BackendBase.trip
  rw [hlimit]
  cases hsetoff : q.setoff with
  | false => rfl
  | true =>
      rw [if_pos ⟨rfl, haccepted⟩, if_pos rfl, Option.bind_eq_bind, Option.bind_some]
      cases (findPlan d q.fromCity q.destCity (b.startT q) timeLmt).join with
      | none => rfl
      | some plan => exact List.flatMap_singleton _ _

theorem trip_of_refused {text : QString} (hrefused : b.refusal d q = some text) : b.trip d q = none := by
  rw [BackendBase.trip, if_neg]
  rintro ⟨-, haccepted⟩
  rw [hrefused] at haccepted
  cases haccepted

/-- The customer's clock is set before the search. -/
theorem performs_search (haccepted : b.refusal d q = none) (hlimit : q.limit = some timeLmt)
    (hr : BackendBase.runWithAlgorithmDij d { b with customer := b.customer.setSysTime time } q.fromCity
      q.destCity (b.startT q) q.setoff timeLmt = some (b', out)) :
    Performs b out b' [] ((b.trip d q).toList.flatMap (Trip.tasks d)) := by
  obtain ⟨hqueue, hshown⟩ := performs_runWithAlgorithmDij hr
  rw [trip_tasks haccepted hlimit]
  exact ⟨hqueue, hshown⟩

theorem performs_slotStartQuery (hs : b.slotStartQuery d q = some (b', out)) :
    Performs b out b' [] ((b.trip d q).toList.flatMap (Trip.tasks d)) := by
  unfold BackendBase.slotStartQuery at hs
  split at hs
  · rename_i text hrefused
    cases hs
    rw [trip_of_refused hrefused]
    exact performs_nothing rfl rfl
  · rename_i haccepted
    simp only [Option.bind_eq_bind, Option.bind_eq_some_iff, Option.some.injEq, Prod.mk.injEq,
      Prod.exists] at hs
    obtain ⟨b₁, answer, hpolicy, rfl, rfl⟩ := hs
    -- the first message belongs to no task
    have hlift {added : List Task} (h : Performs b answer b₁ [] added) :
        Performs b (.newMessage b.sysTime "Start query" :: answer) b₁ [] added := ⟨h.queue, h.shown⟩
    split at hpolicy
    · rename_i htime
      exact hlift (performs_search haccepted (by rw [Query.limit, htime]) hpolicy)
    · rename_i hsafety
      exact hlift (performs_search haccepted (by rw [Query.limit, hsafety]) hpolicy)
    · rename_i value hother
      cases hpolicy
      have hnone : b.trip d q = none := by
        rw [BackendBase.trip, Query.limit, hother]
        exact ite_self none
      rw [hnone]
      exact performs_nothing rfl rfl

theorem performs_step (hs : travelStep d b e = some (b', out)) :
    ∃ due, Performs b out b' due ((setsOff d b e).toList.flatMap (Trip.tasks d)) := by
  cases e with
  | iterate stale => exact performs_iterate hs
  | startQuery q => exact ⟨[], performs_slotStartQuery hs⟩
  | setPaused paused =>
      cases hs
      exact ⟨[], performs_nothing rfl rfl⟩
  | setRunning flag =>
      cases hs
      exact ⟨[], performs_nothing rfl rfl⟩

/-! ## A trip that is set off on -/

theorem trip_eq_some (h : b.trip d q = some t) :
    q.setoff = true ∧ b.refusal d q = none ∧ t.fromCity = q.fromCity ∧ t.destCity = q.destCity ∧
      ∃ plan, findPlan d t.fromCity t.destCity t.startT t.timeLmt = some (some plan) ∧ plan.legs = t.legs := by
  rw [BackendBase.trip, Option.ite_none_right_eq_some] at h
  obtain ⟨⟨hsetoff, haccepted⟩, h⟩ := h
  simp only [Option.bind_eq_bind, Option.bind_eq_some_iff, Option.some.injEq] at h
  obtain ⟨limit, -, plan, hplan, rfl⟩ := h
  exact ⟨hsetoff, haccepted, rfl, rfl, plan, Option.join_eq_some_iff.mp hplan, rfl⟩

theorem ne_of_accepted (h : b.refusal d q = none) : q.fromCity ≠ q.destCity := by
  intro heq
  rw [BackendBase.refusal, heq, if_pos rfl] at h
  cases h

/-- The queue is empty, and the cities differ. -/
theorem setsOff_eq_some (h : setsOff d b e = some t) : b.customer.taskQueue = [] ∧ t.fromCity ≠ t.destCity ∧
    ∃ plan, findPlan d t.fromCity t.destCity t.startT t.timeLmt = some (some plan) ∧ plan.legs = t.legs := by
  cases e with
  | startQuery q =>
      obtain ⟨hsetoff, haccepted, hfrom, hdest, hplan⟩ := trip_eq_some h
      refine ⟨refusal_setoff haccepted hsetoff, ?_, hplan⟩
      rw [hfrom, hdest]
      exact ne_of_accepted haccepted
  | iterate stale => cases h
  | setPaused paused => cases h
  | setRunning flag => cases h

/-! ## Every run -/

/-- The tasks of the trips were shown in their order, apart from those in the queue, and these are the rest
of the last trip. The newest trip comes first. -/
structure UnderWay (d : AbstractData n) (trips : List (Trip n)) (b : BackendBase)
    (tr : List (Event n × List Output)) : Prop where
  followed : ∃ done, trips.reverse.flatMap (Trip.tasks d) = done ++ b.customer.taskQueue ∧
    performed tr = done.flatMap Task.outputs
  current : b.customer.taskQueue <:+ (trips.head?.map (Trip.tasks d)).getD []

theorem UnderWay.step (h : UnderWay d trips b tr) (hs : travelStep d b e = some (b', out)) :
    UnderWay d ((setsOff d b e).toList ++ trips) b' ((e, out) :: tr) := by
  obtain ⟨due, hqueue, hshown⟩ := performs_step hs
  obtain ⟨done, hdone, hperformed⟩ := h.followed
  constructor
  case followed =>
    refine ⟨done ++ due, ?_, ?_⟩
    · rw [List.reverse_append, List.flatMap_append, hdone, List.append_assoc, List.append_assoc, ← hqueue]
      cases setsOff d b e <;> rfl
    · rw [performed_cons, hperformed, hshown, List.flatMap_append]
  case current =>
    cases hset : setsOff d b e with
    | none =>
        rw [hset] at hqueue
        have hrest : b'.customer.taskQueue <:+ b.customer.taskQueue := ⟨due, by rw [← hqueue]; simp⟩
        exact hrest.trans h.current
    | some t =>
        -- `slotStartQuery` refuses to set off while tasks are left
        rw [hset, (setsOff_eq_some hset).1] at hqueue
        exact ⟨due, by rw [← hqueue]; simp⟩

/-! ## Rides of the tables -/

/-- A task of the customer on a departure of the row. -/
structure Task.Rides (task : Task) (row : ScheduleRow) : Prop where
  fromStation : task.fromCity = row.FromStation
  toStation : task.destCity = row.ToStation
  number : task.tacNumber = row.TACNumber
  type : task.vehicleType.code = row.TransportationType
  times : ∃ day : ℕ, task.startTime = row.startTime + day * (24 * 60) ∧
    task.endTime = row.arriveTime + day * (24 * 60)

/-- The trip goes by rows of `Schedule` from its one city to the other and is there in time. Its tasks follow
one another in time and place, and whenever the customer travels, it is on one of these rows. -/
structure Trip.OnSchedule (tables : Tables) (d : AbstractData n) (t : Trip n) : Prop where
  legs : ∃ arrival, Scheduled tables d (d.cityIdHash t.fromCity).name t.startT t.legs
    (d.cityIdHash t.destCity).name arrival ∧ (arrival : ℤ) ≤ t.startT + t.timeLmt
  tasks : TasksOf d t.fromCity t.startT t.legs (t.tasks d)
  rides : ∀ task ∈ t.tasks d, task.behaviorType = .traveling → ∃ row ∈ tables.schedule, task.Rides row

variable {tables : Tables} {row : ScheduleRow}

theorem Leg.Noted.rides {s : Search n} {leg : Leg n} (h : leg.Noted d s time)
    (hfrom : (d.cityIdHash leg.cityId).name = row.FromStation) (hruns : leg.route.RunsAs d row) :
    ∀ task ∈ leg.tasks d time, task.behaviorType = .traveling → task.Rides row := by
  obtain ⟨departure, hearliest, harrival⟩ := h.departure
  obtain ⟨day, hday⟩ := hearliest.daily
  have hto := hruns.toStation
  rw [h.dest] at hto
  have hstart := hruns.startTime
  have hcost := hruns.costTime
  intro task htask htraveling
  simp only [Leg.tasks, List.mem_cons, List.not_mem_nil, or_false] at htask
  -- the second one of the three tasks of a leg is the ride
  rcases htask with rfl | rfl | rfl
  · cases htraveling
  · refine ⟨hfrom, hto, hruns.serialNum, hruns.vehicleType, day, ?_, ?_⟩
    · dsimp only
      omega
    · dsimp only
      omega
  · cases htraveling

theorem Itinerary.rides {d : AbstractData tables.cities.length} {s : Search tables.cities.length}
    {city dest : Fin tables.cities.length} {legs : List (Leg tables.cities.length)} {arrival : ℕ}
    (hgives : tables.Gives d) (h : Itinerary d s city time legs dest arrival) :
    ∀ task ∈ tasks d time legs, task.behaviorType = .traveling → ∃ row ∈ tables.schedule, task.Rides row := by
  induction h with
  | stay =>
      intro task htask
      cases htask
  | ride hnoted _ ih =>
      obtain ⟨row, hrow, hfrom, hruns⟩ := hgives.ride _ _ (List.mem_of_getElem? hnoted.index)
      intro task htask htraveling
      rcases List.mem_append.mp htask with htask | htask
      · exact ⟨row, hrow, hnoted.rides hfrom.symm hruns task htask htraveling⟩
      · exact ih task htask htraveling

theorem Tables.Gives.onSchedule {d : AbstractData tables.cities.length} {t : Trip tables.cities.length}
    {plan : Plan tables.cities.length} (hgives : tables.Gives d) (h : tables.WellFormed)
    (hne : t.fromCity ≠ t.destCity)
    (hplan : findPlan d t.fromCity t.destCity t.startT t.timeLmt = some (some plan))
    (hlegs : plan.legs = t.legs) : t.OnSchedule tables d := by
  obtain ⟨s, cities, hconsistent⟩ := findPlan_consistent hne (hgives.daily h) hplan
  obtain ⟨arrival, hitinerary, hlimit, -⟩ := hconsistent.itinerary
  rw [hlegs] at hitinerary
  exact ⟨⟨arrival, hitinerary.scheduled hgives, hlimit⟩, hitinerary.tasksOf, hitinerary.rides hgives⟩

/-- The program with the timetable of tables in order: in every run the customer follows the trips that he
set off on, one after the other, and each of them goes by rows of `Schedule`. -/
theorem trips_followed (h : tables.WellFormed) :
    ∃ l d, loadData tables = some l ∧ l.absData.typed tables.cities.length = some d ∧
      ∀ sysTime b trips tr, (Machine.record (travelStep d) fun b e => (setsOff d b e).toList).AnyRun
          (newBackendBase sysTime, []) (b, trips) tr →
        UnderWay d trips b tr ∧ ∀ t ∈ trips, t.OnSchedule tables d := by
  obtain ⟨l, d, hl, -, hd, hgives⟩ := h.loaded
  refine ⟨l, d, hl, hd, fun sysTime b trips tr hr => ?_⟩
  refine hr.invariant (I := fun r tr => UnderWay d r.2 r.1 tr ∧ ∀ t ∈ r.2, t.OnSchedule tables d) ?_ ?_
  · exact ⟨⟨⟨[], rfl, rfl⟩, List.suffix_refl _⟩, by simp⟩
  · rintro ⟨b, trips⟩ tr e ⟨b', trips'⟩ out - ⟨hway, hall⟩ - hs
    obtain ⟨hstep, rfl⟩ := Machine.record_eq_some.mp hs
    refine ⟨hway.step hstep, fun t ht => ?_⟩
    rcases List.mem_append.mp ht with hnew | hold
    · obtain ⟨-, hne, plan, hplan, hlegs⟩ := setsOff_eq_some (Option.mem_toList.mp hnew)
      exact hgives.onSchedule h hne hplan hlegs
    · exact hall t hold

/-- At midnight the customer sets off from the first city to the last one, and the first task is shown. -/
def setOffAtMidnight : List (Event threeCities.cities.length) :=
  [.iterate 0, .startQuery ⟨⟨0, by decide⟩, ⟨2, by decide⟩, 0, 0, .safetyRefered, true, noTimeLmt⟩]

theorem trips_followed_example :
    ∃ l d b trips tr, loadData threeCities = some l ∧ l.absData.typed threeCities.cities.length = some d ∧
      (Machine.record (travelStep d) fun b e => (setsOff d b e).toList).AnyRun
        (newBackendBase 0, []) (b, trips) tr ∧
      tr.map Prod.fst = setOffAtMidnight ∧ (trips.length = 1 ∧ performed tr ≠ []) ∧
      UnderWay d trips b tr ∧ ∀ t ∈ trips, t.OnSchedule threeCities d := by
  obtain ⟨l, d, hl, hd, hfollowed⟩ := trips_followed threeCities_wellFormed
  have hcheck : ((loadData threeCities).bind fun l => l.absData.typed threeCities.cities.length).any
      (fun d => (Machine.exec (Machine.record (travelStep d) fun b e => (setsOff d b e).toList) Machine.always
        (newBackendBase 0, []) setOffAtMidnight).any
          fun r => decide (r.1.2.length = 1 ∧ performed r.2 ≠ [])) = true := by
    decide +kernel
  rw [hl, Option.bind_some, hd, Option.any_some] at hcheck
  obtain ⟨⟨⟨b, trips⟩, tr⟩, hexec, hshown⟩ := (Option.any_eq_true _ _).mp hcheck
  have hrun := (Machine.run_of_exec hexec).any
  exact ⟨l, d, b, trips, tr, hl, hd, hrun, Machine.exec_events hexec, of_decide_eq_true hshown,
    hfollowed 0 b trips tr hrun⟩

end TermCollection.Travel
