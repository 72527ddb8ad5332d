import Mathlib.Data.List.Basic

/-!
# Singly linked chains of addresses

`nx a` is the `next` field of the block at `a`: `none` where no block is live, `some none` for a null
link, and `some (some b)` for a link to `b`.
-/

namespace TermCollection

/-- The addresses follow each other by `next`, and the last one links to null. -/
def Linked (nx : Nat → Option (Option Nat)) : List Nat → Prop
  | [] => True
  | [a] => nx a = some none
  | a :: b :: l => nx a = some (some b) ∧ Linked nx (b :: l)

namespace Linked

variable {nx nx' : Nat → Option (Option Nat)} {a b p : Nat} {l m r : List Nat}

theorem congr (h : Linked nx l) (hnx : ∀ a ∈ l, nx' a = nx a) : Linked nx' l := by
  induction l with
  | nil => trivial
  | cons a l ih =>
      cases l with
      | nil => rw [Linked, hnx a (by simp)]; exact h
      | cons b l =>
          refine ⟨?_, ih h.2 fun c hc => hnx c (List.mem_cons_of_mem a hc)⟩
          rw [hnx a (by simp)]; exact h.1

theorem suffix (l : List Nat) (h : Linked nx (l ++ r)) : Linked nx r := by
  induction l with
  | nil => exact h
  | cons a l ih =>
      cases l with
      | nil =>
          cases r with
          | nil => trivial
          | cons b r => exact h.2
      | cons b l => exact ih h.2

theorem uncons (h : Linked nx (a :: l)) : nx a = some l.head? ∧ Linked nx l := by
  cases l with
  | nil => exact ⟨h, trivial⟩
  | cons b l => exact h

theorem nx_last (h : Linked nx (l ++ [a])) : nx a = some none := h.suffix l

theorem nx_next (h : Linked nx (l ++ a :: b :: r)) : nx a = some (some b) := (h.suffix l).1

/-- Every address of a chain is live. -/
theorem live (h : Linked nx l) (ha : a ∈ l) : ∃ o, nx a = some o := by
  obtain ⟨s, t, rfl⟩ := List.append_of_mem ha
  cases t with
  | nil => exact ⟨_, h.nx_last⟩
  | cons b t => exact ⟨_, h.nx_next⟩

/-- The last address is redirected to a new last address. -/
theorem append_new (h : Linked nx (l ++ [a])) (hl : ∀ c ∈ l, nx' c = nx c)
    (ha : nx' a = some (some b)) (hb : nx' b = some none) : Linked nx' (l ++ [a, b]) := by
  induction l with
  | nil => exact ⟨ha, hb⟩
  | cons c l ih =>
      have hc : nx' c = nx c := hl c (by simp)
      have hl' : ∀ c ∈ l, nx' c = nx c := fun d hd => hl d (List.mem_cons_of_mem c hd)
      cases l with
      | nil => exact ⟨by rw [hc]; exact h.1, ih h.2 hl'⟩
      | cons d l => exact ⟨by rw [hc]; exact h.1, ih h.2 hl'⟩

/-- `p` takes over the link of a later address `a`: the addresses after `p` up to `a` leave the chain. -/
theorem skip (h : Linked nx (l ++ p :: (m ++ a :: r))) (hl : ∀ c ∈ l, nx' c = nx c)
    (hr : ∀ c ∈ r, nx' c = nx c) (hp : nx' p = nx a) : Linked nx' (l ++ p :: r) := by
  induction l with
  | nil =>
      have har : Linked nx (a :: r) := by
        have hsuf : Linked nx ((p :: m) ++ a :: r) := by simpa using h
        exact hsuf.suffix _
      cases r with
      | nil => rw [List.nil_append, Linked, hp]; exact har
      | cons b r => exact ⟨by rw [hp]; exact har.1, har.2.congr hr⟩
  | cons c l ih =>
      have hc : nx' c = nx c := hl c (by simp)
      have hl' : ∀ c ∈ l, nx' c = nx c := fun d hd => hl d (List.mem_cons_of_mem c hd)
      cases l with
      | nil => exact ⟨by rw [hc]; exact h.1, ih h.2 hl'⟩
      | cons d l => exact ⟨by rw [hc]; exact h.1, ih h.2 hl'⟩

end Linked

end TermCollection
