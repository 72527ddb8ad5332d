import TermCollection.Lib.Machine

/-!
# Simulations

A machine is simulated by another one when every step between related states is matched by a run with the
same outputs. Then every run of the first is matched by a run of the second.
-/

namespace TermCollection.Machine

variable {σ τ ε ε' ω : Type*} {step : Machine σ ε ω} {step' : Machine τ ε' ω}
variable {C : σ → ε → Prop} {s₀ s : σ} {t₀ t₁ t : τ}

/-- All outputs of a history, the oldest first. -/
def outputs : List (ε × List ω) → List ω
  | [] => []
  | (_, o) :: tr => outputs tr ++ o

@[simp] theorem outputs_nil : outputs ([] : List (ε × List ω)) = [] := rfl

@[simp] theorem outputs_cons (e : ε) (o : List ω) (tr : List (ε × List ω)) :
    outputs ((e, o) :: tr) = outputs tr ++ o := rfl

theorem outputs_append (tr tr' : List (ε × List ω)) : outputs (tr' ++ tr) = outputs tr ++ outputs tr' := by
  induction tr' with
  | nil => rw [List.nil_append, outputs_nil, List.append_nil]
  | cons head tr' ih => rw [List.cons_append, outputs_cons, outputs_cons, ih, List.append_assoc]

/-- There is a run with the outputs. -/
def Reaches (step : Machine σ ε ω) (s₀ s : σ) (o : List ω) : Prop := ∃ tr, AnyRun step s₀ s tr ∧ outputs tr = o

theorem Reaches.refl (s : σ) : Reaches step s s [] := ⟨[], .init, rfl⟩

theorem Reaches.single {e : ε} {o : List ω} (h : step s₀ e = some (s, o)) : Reaches step s₀ s o :=
  ⟨[(e, o)], .next .init trivial h, List.nil_append o⟩

theorem Reaches.trans {s₁ : σ} {o o' : List ω} (h : Reaches step s₀ s₁ o) (h' : Reaches step s₁ s o') :
    Reaches step s₀ s (o ++ o') := by
  obtain ⟨tr, hrun, rfl⟩ := h
  obtain ⟨tr', hrun', rfl⟩ := h'
  exact ⟨tr' ++ tr, hrun.trans hrun', outputs_append tr tr'⟩

theorem Run.simulated {R : σ → τ → Prop} {tr : List (ε × List ω)} (h : Run step C s₀ s tr) (h₀ : R s₀ t₀)
    (hstep : ∀ s t e s' o, R s t → C s e → step s e = some (s', o) →
      ∃ t', Reaches step' t t' o ∧ R s' t') :
    ∃ t, Reaches step' t₀ t (outputs tr) ∧ R s t := by
  induction h with
  | init => exact ⟨t₀, .refl t₀, h₀⟩
  | next _ hc hs ih =>
      obtain ⟨t, hreach, hr⟩ := ih
      obtain ⟨t', hreach', hr'⟩ := hstep _ _ _ _ _ hr hc hs
      exact ⟨t', hreach.trans hreach', hr'⟩

/-- What is kept by every step, with the outputs so far, holds of everything reached. -/
theorem Reaches.invariant {I : σ → List ω → Prop} {o : List ω} (h : Reaches step s₀ s o) (h₀ : I s₀ [])
    (hstep : ∀ s o e s' o', I s o → step s e = some (s', o') → I s' (o ++ o')) : I s o := by
  obtain ⟨tr, hrun, rfl⟩ := h
  exact hrun.invariant (I := fun s tr => I s (outputs tr)) h₀ fun _ _ _ _ _ _ hi _ hs => hstep _ _ _ _ _ hi hs

end TermCollection.Machine
