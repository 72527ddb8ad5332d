/-!
# Steps that may go wrong

A step without a defined result, with the name of what went wrong.
-/

namespace TermCollection

variable {ε α β : Type} {error error' : ε} {a : α} {b : β}

def orError (error : ε) : Option α → Except ε α
  | none => .error error
  | some a => .ok a

@[simp] theorem orError_some (error : ε) (a : α) : orError error (some a) = .ok a := rfl

theorem orError_toOption (error : ε) (x : Option α) : (orError error x).toOption = x := by
  cases x <;> rfl

theorem orError_ok {x : Option α} : orError error x = .ok a ↔ x = some a := by
  cases x <;> simp [orError]

theorem orError_error {x : Option α} : orError error x = .error error' ↔ error' = error ∧ x = none := by
  cases x <;> simp [orError, eq_comm]

theorem bind_ok {x : Except ε α} {f : α → Except ε β} :
    x >>= f = .ok b ↔ ∃ a, x = .ok a ∧ f a = .ok b := by
  cases x with
  | error error => simp [bind, Except.bind]
  | ok a => simp [bind, Except.bind]

theorem bind_error {x : Except ε α} {f : α → Except ε β} :
    x >>= f = .error error ↔ x = .error error ∨ ∃ a, x = .ok a ∧ f a = .error error := by
  cases x with
  | error error => simp [bind, Except.bind]
  | ok a => simp [bind, Except.bind]

theorem ok_ne_error : (Except.ok a : Except ε α) ≠ .error error := by simp

theorem orError_ne (h : error ≠ error') (x : Option α) : orError error x ≠ .error error' :=
  fun hx => h (orError_error.mp hx).1.symm

theorem bind_ne_error {x : Except ε α} {f : α → Except ε β} (hx : x ≠ .error error)
    (hf : ∀ a, f a ≠ .error error) : x >>= f ≠ .error error := by
  rw [ne_eq, bind_error]
  rintro (h | ⟨a, -, h⟩)
  · exact hx h
  · exact hf a h

@[simp] theorem ok_bind (a : α) (f : α → Except ε β) : Except.ok a >>= f = f a := rfl

/-- Two computations are the same without the names of the errors when their parts are. -/
theorem toOption_bind {x : Except ε α} {f : α → Except ε β} {y : Option α} {g : α → Option β}
    (hx : x.toOption = y) (hf : ∀ a, (f a).toOption = g a) : (x >>= f).toOption = y >>= g := by
  subst hx
  cases x with
  | error error => rfl
  | ok a => exact hf a

@[simp] theorem toOption_ok (a : α) : (Except.ok a : Except ε α).toOption = some a := rfl

@[simp] theorem toOption_error (error : ε) : (Except.error error : Except ε α).toOption = none := rfl

theorem toOption_eq_some {x : Except ε α} : x.toOption = some a ↔ x = .ok a := by
  cases x <;> simp

theorem isSome_toOption {x : Except ε α} : x.toOption.isSome = true ↔ ∃ a, x = .ok a := by
  cases x <;> simp

theorem toOption_foldlM {f : β → α → Except ε β} {g : β → α → Option β}
    (hf : ∀ b a, (f b a).toOption = g b a) (l : List α) (b : β) :
    (l.foldlM f b).toOption = l.foldlM g b := by
  induction l generalizing b with
  | nil => rfl
  | cons a l ih =>
      rw [List.foldlM_cons, List.foldlM_cons]
      exact toOption_bind (hf b a) ih

/-- A decidable form of a step that goes wrong in a certain way. -/
def failsWith [DecidableEq ε] (error : ε) : Except ε α → Bool
  | .error error' => error' = error
  | .ok _ => false

theorem failsWith_iff [DecidableEq ε] {x : Except ε α} : failsWith error x = true ↔ x = .error error := by
  cases x <;> simp [failsWith]

/-! ## Errors that do not come -/

/-- The computation does not end with one of the errors. -/
def Avoids (errors : List ε) (x : Except ε α) : Prop := ∀ error ∈ errors, x ≠ .error error

variable {errors : List ε}

@[simp] theorem avoids_ok (errors : List ε) (a : α) : Avoids errors (.ok a : Except ε α) := by
  simp [Avoids]

theorem avoids_error : Avoids errors (.error error : Except ε α) ↔ error ∉ errors := by
  constructor
  · intro h hmem
    exact h error hmem rfl
  · intro h error' hmem heq
    exact h (Except.error.inj heq ▸ hmem)

theorem avoids_orError {x : Option α} :
    Avoids errors (orError error x) ↔ (error ∈ errors → x.isSome = true) := by
  cases x with
  | none => simp [orError, avoids_error]
  | some a => simp

/-- A computation avoids the errors when its first part does, and when the rest does behind each result
of it. -/
theorem avoids_bind {x : Except ε α} {f : α → Except ε β} :
    Avoids errors (x >>= f) ↔ Avoids errors x ∧ ∀ a, x = .ok a → Avoids errors (f a) := by
  cases x with
  | error error =>
      simp only [reduceCtorEq, false_implies, implies_true, and_true]
      exact avoids_error.trans avoids_error.symm
  | ok a => simp

/-- A read that has to succeed. -/
theorem avoids_orError_bind {x : Option α} {f : α → Except ε β} (h : error ∈ errors) :
    Avoids errors (orError error x >>= f) ↔ ∃ a, x = some a ∧ Avoids errors (f a) := by
  cases x with
  | none =>
      rw [avoids_bind, avoids_orError]
      simp [h]
  | some a => simp

/-- A step that may go wrong in another way. -/
theorem avoids_orError_bind_of_notMem {x : Option α} {f : α → Except ε β} (h : error ∉ errors) :
    Avoids errors (orError error x >>= f) ↔ ∀ a, x = some a → Avoids errors (f a) := by
  cases x with
  | none =>
      rw [avoids_bind, avoids_orError]
      simp [h, orError]
  | some a => simp

end TermCollection
