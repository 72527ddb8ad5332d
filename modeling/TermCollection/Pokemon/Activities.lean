import TermCollection.Pokemon.ServerBackend

/-!
# Activities of the server

An operation is taken apart into the actions that it sets in the single battles. The server with these
finer steps allows them in any order, and so all that the server does.
-/

namespace TermCollection.Pokemon

variable {δ : Type} {rt : Runtime δ} {s s' : ServerBackend δ} {out : List Sent} {battle : BattleField}
variable {skillIndex : Int} {userName : QString} {chance : Chance} {i : Nat}

/-- An event other than an operation, or an action in one battle. -/
inductive Activity where
  | event (e : Event)
  | action (p : Nat) (skillIndex : Int) (userIndex : Nat) (chance : TurnChance)

def activityStep (rt : Runtime δ) : Machine (ServerBackend δ) Activity Sent
  | _, .event (.message _ (.battleOperation ..) _) => none
  | s, .event e => backendStep rt s e
  | s, .action p skillIndex userIndex chance => s.setAction rt p skillIndex userIndex chance

theorem activityStep_event {e : Event} (h : ∀ client isUserA skillIndex userName chance,
    e ≠ .message client (.battleOperation isUserA skillIndex userName) chance) :
    activityStep rt s (.event e) = backendStep rt s e := by
  unfold activityStep
  split
  · rename_i heq
    exact (h _ _ _ _ _ (Activity.event.inj heq)).elim
  · rename_i heq
    rw [Activity.event.inj heq]
  · rename_i heq
    cases heq

/-- Activities that lead from one state to another, with all that is sent. -/
def Performs (rt : Runtime δ) (s s' : ServerBackend δ) (out : List Sent) : Prop :=
  ∃ tr, (activityStep rt).AnyRun s s' tr ∧ (tr.reverse.map Prod.snd).flatten = out

theorem Performs.refl (rt : Runtime δ) (s : ServerBackend δ) : Performs rt s s [] := ⟨[], .init, rfl⟩

theorem Performs.step (activity : Activity) (h : activityStep rt s activity = some (s', out)) :
    Performs rt s s' out :=
  ⟨[(activity, out)], .next .init trivial h, List.append_nil out⟩

theorem Performs.trans {s₁ : ServerBackend δ} {out₁ out₂ : List Sent} (h : Performs rt s s₁ out₁)
    (h' : Performs rt s₁ s' out₂) : Performs rt s s' (out₁ ++ out₂) := by
  obtain ⟨tr, hr, rfl⟩ := h
  obtain ⟨tr', hr', rfl⟩ := h'
  exact ⟨tr' ++ tr, hr.trans hr', by rw [List.reverse_append, List.map_append, List.flatten_append]⟩

open ServerBackend

theorem performs_operateA
    (h : operateA rt s battle skillIndex userName chance i = some (s', out)) :
    Performs rt s s' out := by
  simp only [operateA, Option.bind_eq_bind, Option.bind_eq_some_iff] at h
  obtain ⟨userA, -, h⟩ := h
  split at h
  · simp only [Option.bind_eq_some_iff, Prod.exists] at h
    obtain ⟨s₁, out₁, h₁, live, -, h⟩ := h
    have hfirst : Performs rt s s₁ out₁ :=
      .step (.action battle.ptr skillIndex 0 (chance.userTurn i)) h₁
    split at h
    · simp only [Option.bind_eq_some_iff, Option.some.injEq, Prod.mk.injEq, Prod.exists] at h
      obtain ⟨s₂, out₂, h₂, rfl, rfl⟩ := h
      exact hfirst.trans (.step
        (.action live.ptr (bounded (chance.serverAction i) 4) 1 (chance.serverTurn i)) h₂)
    · cases h
      exact hfirst
  · cases h
    exact .refl rt _

theorem performs_operateB
    (h : operateB rt s battle skillIndex userName chance i = some (s', out)) :
    Performs rt s s' out := by
  simp only [operateB, Option.bind_eq_bind, Option.bind_eq_some_iff] at h
  obtain ⟨p, -, userB, -, h⟩ := h
  split at h
  · exact .step (.action battle.ptr skillIndex 1 (chance.userTurn i)) h
  · cases h
    exact .refl rt _

theorem performs_operationLoop {isUserA : Int} {fuel : Nat}
    (h : operationLoop rt isUserA skillIndex userName chance fuel i s = some (s', out)) :
    Performs rt s s' out := by
  induction fuel generalizing s i out with
  | zero =>
      cases h
      exact .refl rt _
  | succ fuel ih =>
      unfold operationLoop at h
      split at h
      · cases h
        exact .refl rt _
      · simp only [Option.bind_eq_bind, Option.bind_eq_some_iff, Option.some.injEq, Prod.mk.injEq,
          Prod.exists] at h
        obtain ⟨s₁, out₁, h₁, s₂, out₂, h₂, rfl, rfl⟩ := h
        refine Performs.trans ?_ (ih h₂)
        split at h₁
        · exact performs_operateA h₁
        · exact performs_operateB h₁

/-- Every step of the server is made of activities, which send the same. -/
theorem performs_step {e : Event} (h : backendStep rt s e = some (s', out)) : Performs rt s s' out := by
  cases e with
  | userDisconnected client => exact .step (.event (.userDisconnected client)) h
  | message client message chance =>
      have hevent := @activityStep_event _ rt s (.message client message chance)
      cases message with
      | battleOperation => exact performs_operationLoop h
      | _ => exact .step _ ((hevent fun _ _ _ _ _ heq => by cases heq).trans h)

/-- What the server does in a run its activities do. -/
theorem performs_run {s₀ : ServerBackend δ} {tr : List (Event × List Sent)}
    (h : (backendStep rt).AnyRun s₀ s tr) : Performs rt s₀ s (tr.reverse.map Prod.snd).flatten := by
  induction h with
  | init => exact .refl rt s₀
  | next _ _ hs ih =>
      rw [List.reverse_cons, List.map_append, List.flatten_append]
      refine ih.trans ?_
      rw [List.map_singleton, List.flatten_singleton]
      exact performs_step hs

end TermCollection.Pokemon
