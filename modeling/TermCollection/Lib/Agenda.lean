import Mathlib.Data.List.Chain
import Mathlib.Data.Nat.Notation

/-!
# Agendas

Start times in order, of which none is before the present. They stay so when the present moves on by one
after everything that starts now was taken from the list.
-/

namespace TermCollection

def Agenda (now : ℕ) (starts : List ℕ) : Prop := (now :: starts).IsChain (· ≤ ·)

namespace Agenda

variable {now now' start : ℕ} {starts : List ℕ}

theorem nil (now : ℕ) : Agenda now [] := .singleton now

theorem cons_iff : Agenda now (start :: starts) ↔ now ≤ start ∧ Agenda start starts :=
  List.isChain_cons_cons

theorem cons (hle : now ≤ start) (h : Agenda start starts) : Agenda now (start :: starts) :=
  cons_iff.mpr ⟨hle, h⟩

theorem head_le (h : Agenda now starts) : ∀ start ∈ starts.head?, now ≤ start := by
  cases starts with
  | nil => intro start hs; cases hs
  | cons start starts =>
      intro start' hs
      cases hs
      exact (cons_iff.mp h).1

/-- The present can be any time that is not after the first start. -/
theorem change (h : Agenda now starts) (hnow : ∀ start ∈ starts.head?, now' ≤ start) :
    Agenda now' starts := by
  cases starts with
  | nil => exact nil now'
  | cons start starts => exact cons (hnow start rfl) (cons_iff.mp h).2

/-- What is left when everything that starts now is taken starts later. -/
theorem dropWhile (h : Agenda now starts) : Agenda (now + 1) (starts.dropWhile (now = ·)) := by
  induction starts with
  | nil => exact nil _
  | cons start starts ih =>
      obtain ⟨hle, hs⟩ := cons_iff.mp h
      rw [List.dropWhile_cons]
      split
      · rename_i heq
        obtain rfl := of_decide_eq_true heq
        exact ih hs
      · rename_i hne
        exact cons (Nat.lt_of_le_of_ne hle fun heq => hne (decide_eq_true heq)) hs

end Agenda

end TermCollection
