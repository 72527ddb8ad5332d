import Mathlib.Data.Int.Notation
import Mathlib.Tactic.TypeStar

/-!
# Ledgers

The notes of a ledger move things from place to place, and credit amounts to the things that were at a
place. An account follows one thing through the notes.
-/

namespace TermCollection

variable {α : Type*} [DecidableEq α]

inductive LedgerNote (α : Type*) where
  | moved (src dest : α)
  | credited (place : α) (amount : Int)
  deriving DecidableEq

structure Account (α : Type*) where
  place : α
  past : List α
  credit : Int
  deriving DecidableEq

namespace Account

variable {acc : Account α} {place src dest : α} {amount : Int}

def opened (place : α) : Account α := ⟨place, [], 0⟩

/-- The thing is at the place, or was there before. -/
def knows (acc : Account α) (place : α) : Bool := place = acc.place || place ∈ acc.past

def post (acc : Account α) : LedgerNote α → Account α
  | .moved src dest => if src = acc.place then { acc with place := dest, past := src :: acc.past } else acc
  | .credited place amount =>
      if acc.knows place then { acc with credit := acc.credit + amount } else acc

/-- The account behind the notes, the newest of which comes first. -/
def posted (acc : Account α) (notes : List (LedgerNote α)) : Account α :=
  notes.foldr (fun note acc => acc.post note) acc

theorem posted_append (acc : Account α) (notes older : List (LedgerNote α)) :
    acc.posted (notes ++ older) = (acc.posted older).posted notes := List.foldr_append

theorem posted_moved : acc.posted [.moved src dest] =
    if src = acc.place then { acc with place := dest, past := src :: acc.past } else acc := rfl

theorem posted_credited : acc.posted [.credited place amount] =
    if acc.knows place then { acc with credit := acc.credit + amount } else acc := rfl

theorem knows_of_eq (h : place = acc.place) : acc.knows place = true := by simp [knows, h]

end Account

end TermCollection
