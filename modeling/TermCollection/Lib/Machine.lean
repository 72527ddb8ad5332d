import Mathlib.Logic.Basic
import Mathlib.Tactic.TypeStar

/-!
# Runs of a partial machine

A machine is a partial step function: it takes a state and an event, and returns the next state and
the outputs of the step. `none` means that the step has no defined result. A condition on the state
and the event before each step selects the runs a theorem speaks of.
-/

namespace TermCollection

/-- A partial step function with outputs. -/
abbrev Machine (σ ε ω : Type*) := σ → ε → Option (σ × List ω)

namespace Machine

variable {σ ε ω : Type*} {step : Machine σ ε ω} {C D : σ → ε → Prop} {s₀ s₁ s : σ}
variable {tr tr' : List (ε × List ω)}

/-- The machine goes from `s₀` to a state by steps that each meet `C`. The history lists the events
with their outputs, the newest first. -/
inductive Run (step : Machine σ ε ω) (C : σ → ε → Prop) (s₀ : σ) : σ → List (ε × List ω) → Prop
  | init : Run step C s₀ s₀ []
  | next {s s' : σ} {e : ε} {o : List ω} {tr : List (ε × List ω)} :
      Run step C s₀ s tr → C s e → step s e = some (s', o) → Run step C s₀ s' ((e, o) :: tr)

/-- A run on which no condition is put. -/
abbrev AnyRun (step : Machine σ ε ω) (s₀ s : σ) (tr : List (ε × List ω)) : Prop :=
  Run step (fun _ _ => True) s₀ s tr

theorem Run.mono (h : Run step C s₀ s tr) (hCD : ∀ s e, C s e → D s e) : Run step D s₀ s tr := by
  induction h with
  | init => exact .init
  | next _ hc hs ih => exact .next ih (hCD _ _ hc) hs

theorem Run.any (h : Run step C s₀ s tr) : AnyRun step s₀ s tr := h.mono fun _ _ _ => trivial

theorem Run.trans (h : Run step C s₀ s₁ tr) (h' : Run step C s₁ s tr') :
    Run step C s₀ s (tr' ++ tr) := by
  induction h' with
  | init => exact h
  | next _ hc hs ih => exact .next ih hc hs

/-- What holds at the start and is kept by every step that meets the condition holds of every state
reached, together with its history. -/
theorem Run.invariant {I : σ → List (ε × List ω) → Prop} (h : Run step C s₀ s tr) (h₀ : I s₀ [])
    (hstep : ∀ s tr e s' o, Run step C s₀ s tr → I s tr → C s e → step s e = some (s', o) →
      I s' ((e, o) :: tr)) : I s tr := by
  induction h with
  | init => exact h₀
  | next hr hc hs ih => exact hstep _ _ _ _ _ hr ih hc hs

/-- The invariant rule for a property of the state alone. -/
theorem Run.stateInvariant {I : σ → Prop} (h : Run step C s₀ s tr) (h₀ : I s₀)
    (hstep : ∀ s e s' o, I s → C s e → step s e = some (s', o) → I s') : I s :=
  h.invariant (I := fun s _ => I s) h₀ fun _ _ _ _ _ _ hi hc hs => hstep _ _ _ _ hi hc hs

/-- The events lead to one state. -/
theorem Run.unique (h : Run step C s₀ s tr) (h' : Run step D s₀ s₁ tr) : s = s₁ := by
  induction h generalizing s₁ with
  | init =>
      cases h'
      rfl
  | next _ _ hs ih =>
      cases h' with
      | next hr _ hs' =>
          rw [ih hr, hs', Option.some.injEq, Prod.mk.injEq] at hs
          exact hs.1.symm

/-- A run meets another condition when its last step and the run before it do. -/
theorem Run.next_iff {e : ε} {o : List ω} {s' : σ} (h : Run step C s₀ s tr) (hs : step s e = some (s', o)) :
    Run step D s₀ s' ((e, o) :: tr) ↔ Run step D s₀ s tr ∧ D s e := by
  constructor
  · intro hnext
    cases hnext with
    | next hr hd _ =>
        obtain rfl := h.unique hr
        exact ⟨hr, hd⟩
  · rintro ⟨hr, hd⟩
    exact .next hr hd hs

/-! ## Records -/

/-- The machine with a record beside it, to which every step adds notes in front. -/
def record {α : Type*} (step : Machine σ ε ω) (note : σ → ε → List α) : Machine (σ × List α) ε ω :=
  fun s e => (step s.1 e).map fun r => ((r.1, note s.1 e ++ s.2), r.2)

theorem record_eq_some {α : Type*} {note : σ → ε → List α} {s s' : σ} {notes notes' : List α} {e : ε}
    {o : List ω} : record step note (s, notes) e = some ((s', notes'), o) ↔
      step s e = some (s', o) ∧ notes' = note s e ++ notes := by
  simp only [record, Option.map_eq_some_iff, Prod.mk.injEq, Prod.exists]
  constructor
  · rintro ⟨_, _, hs, ⟨rfl, rfl⟩, rfl⟩
    exact ⟨hs, rfl⟩
  · rintro ⟨hs, rfl⟩
    exact ⟨s', o, hs, ⟨rfl, rfl⟩, rfl⟩

/-- Every run can be recorded. -/
theorem Run.recorded {α : Type*} (note : σ → ε → List α) (notes : List α) (h : Run step C s₀ s tr) :
    ∃ notes', Run (record step note) (fun r e => C r.1 e) (s₀, notes) (s, notes') tr := by
  induction h with
  | init => exact ⟨notes, .init⟩
  | next _ hc hs ih =>
      obtain ⟨notes', hr⟩ := ih
      exact ⟨_, .next hr hc (record_eq_some.mpr ⟨hs, rfl⟩)⟩

/-! ## Execution -/

/-- The machine run on events, the newest first, each of which has to pass the check. -/
def exec (step : Machine σ ε ω) (check : σ → ε → Bool) (s₀ : σ) :
    List ε → Option (σ × List (ε × List ω))
  | [] => some (s₀, [])
  | e :: es =>
      match exec step check s₀ es with
      | none => none
      | some (s, tr) =>
          if check s e then (step s e).map fun r => (r.1, (e, r.2) :: tr) else none

theorem run_of_exec {check : σ → ε → Bool} {es : List ε} (h : exec step check s₀ es = some (s, tr)) :
    Run step (fun s e => check s e = true) s₀ s tr := by
  induction es generalizing s tr with
  | nil => cases h; exact .init
  | cons e es ih =>
      unfold exec at h
      split at h
      · cases h
      · rename_i s₁ tr₁ hes
        split at h
        · rename_i hc
          obtain ⟨⟨s', o⟩, hs, hr⟩ := Option.map_eq_some_iff.mp h
          cases hr
          exact .next (ih hes) hc hs
        · cases h

theorem exec_events {check : σ → ε → Bool} {es : List ε} (h : exec step check s₀ es = some (s, tr)) :
    tr.map Prod.fst = es := by
  induction es generalizing s tr with
  | nil => cases h; rfl
  | cons e es ih =>
      unfold exec at h
      split at h
      · cases h
      · rename_i s₁ tr₁ hes
        split at h
        · obtain ⟨⟨s', o⟩, -, hr⟩ := Option.map_eq_some_iff.mp h
          cases hr
          rw [List.map_cons, ih hes]
        · cases h

/-- The check that every step passes. -/
def always (_ : σ) (_ : ε) : Bool := true

/-- The state and the history that the events lead to. -/
def stateAfter (step : Machine σ ε ω) (check : σ → ε → Bool) (s₀ : σ) (es : List ε) : σ :=
  ((exec step check s₀ es).map Prod.fst).getD s₀

def historyAfter (step : Machine σ ε ω) (check : σ → ε → Bool) (s₀ : σ) (es : List ε) :
    List (ε × List ω) :=
  ((exec step check s₀ es).map Prod.snd).getD []

theorem run_after (step : Machine σ ε ω) (check : σ → ε → Bool) (s₀ : σ) (es : List ε)
    (h : (exec step check s₀ es).isSome = true) :
    Run step (fun s e => check s e = true) s₀ (stateAfter step check s₀ es)
      (historyAfter step check s₀ es) ∧ (historyAfter step check s₀ es).map Prod.fst = es := by
  obtain ⟨⟨s, tr⟩, hr⟩ := Option.isSome_iff_exists.mp h
  rw [stateAfter, historyAfter, hr]
  exact ⟨run_of_exec hr, exec_events hr⟩

/-- The outputs of one more event. -/
def outputAfter (step : Machine σ ε ω) (s : σ) (e : ε) : List ω := ((step s e).map Prod.snd).getD []

theorem step_after (step : Machine σ ε ω) (s : σ) (e : ε) (h : (step s e).isSome = true) :
    ∃ s', step s e = some (s', outputAfter step s e) := by
  obtain ⟨⟨s', o⟩, hr⟩ := Option.isSome_iff_exists.mp h
  exact ⟨s', by rw [outputAfter, hr]; rfl⟩

/-- The step of one event, with its outputs. -/
theorem step_eq_after (step : Machine σ ε ω) (s : σ) (e : ε) (h : (step s e).isSome = true) :
    step s e = some (stateAfter step always s [e], outputAfter step s e) := by
  obtain ⟨⟨s', o⟩, hr⟩ := Option.isSome_iff_exists.mp h
  simp only [stateAfter, outputAfter, exec, always, hr, ↓reduceIte, Option.map_some, Option.getD_some]

end Machine

end TermCollection
