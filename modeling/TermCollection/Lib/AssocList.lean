import Mathlib.Data.List.Basic
import Mathlib.Data.List.Forall2

/-!
# Ordered association lists

A list of entries, the oldest first. A key may occur several times; a lookup and a removal take its
oldest entry. The entries of one class of keys form an association list of their own, on which the
operations with a key of the class act as on the whole list.
-/

namespace TermCollection

abbrev AssocList (K V : Type*) := List (K × V)

namespace AssocList

variable {K V C : Type*} {l A R : AssocList K V} {k : K} {v : V} {c : K → C} {i : C}

def add (l : AssocList K V) (k : K) (v : V) : AssocList K V := l ++ [(k, v)]

/-- The entries whose key falls into the class `i`. -/
def part [DecidableEq C] (c : K → C) (i : C) (l : AssocList K V) : AssocList K V :=
  l.filter (c ·.1 = i)

theorem part_add_self [DecidableEq C] : part c (c k) (add l k v) = add (part c (c k) l) k v := by
  simp [part, add]

theorem part_add_of_ne [DecidableEq C] (h : c k ≠ i) : part c i (add l k v) = part c i l := by
  simp [part, add, h]

section Lookup

variable [DecidableEq K]

def get (l : AssocList K V) (k : K) : Option V := (l.find? (·.1 = k)).map Prod.snd

def remove (l : AssocList K V) (k : K) : AssocList K V := l.eraseP (·.1 = k)

theorem remove_of_absent (h : ∀ e ∈ l, e.1 ≠ k) : remove l k = l :=
  List.eraseP_of_forall_not (by simpa using h)

/-- The oldest entry of the key is taken out from between the others. -/
theorem remove_append (h : ∀ e ∈ A, e.1 ≠ k) : remove (A ++ (k, v) :: R) k = A ++ R := by
  rw [remove, List.eraseP_append_right _ (by simpa using h), List.eraseP_cons_of_pos (by simp)]

/-- Lists with the same keys and related values give related values. -/
theorem get_forall₂ {W : Type*} {r : V → W → Prop} {m : AssocList K W}
    (h : List.Forall₂ (fun e f => e.1 = f.1 ∧ r e.2 f.2) l m) (k : K) :
    Option.Rel r (get l k) (get m k) := by
  induction h with
  | nil => exact .none
  | @cons e f l m hrel _ ih =>
      by_cases hk : e.1 = k
      · simp only [get, List.find?_cons_of_pos, hk, hrel.1 ▸ hk, decide_true, Option.map_some]
        exact .some hrel.2
      · rw [get, get, List.find?_cons_of_neg (by simpa using hk),
          List.find?_cons_of_neg (by simpa using hrel.1 ▸ hk)]
        exact ih

variable [DecidableEq C]

theorem get_part (c : K → C) (l : AssocList K V) (k : K) : get (part c (c k) l) k = get l k := by
  induction l with
  | nil => rfl
  | cons e l ih =>
      by_cases hk : e.1 = k
      · simp [get, part, hk]
      · by_cases hc : c e.1 = c k
        · simpa [get, part, hk, hc] using ih
        · simpa [get, part, hk, hc] using ih

theorem part_remove_self (c : K → C) (l : AssocList K V) (k : K) :
    part c (c k) (remove l k) = remove (part c (c k) l) k := by
  induction l with
  | nil => rfl
  | cons e l ih =>
      by_cases hk : e.1 = k
      · simp [remove, part, hk]
      · by_cases hc : c e.1 = c k
        · simpa [remove, part, hk, hc] using ih
        · simpa [remove, part, hk, hc] using ih

theorem part_remove_of_ne (h : c k ≠ i) : part c i (remove l k) = part c i l := by
  induction l with
  | nil => rfl
  | cons e l ih =>
      by_cases hk : e.1 = k
      · subst hk; simp [remove, part, h]
      · by_cases hc : c e.1 = i
        · simpa [remove, part, hk, hc] using ih
        · simpa [remove, part, hk, hc] using ih

theorem remove_of_part_absent (h : ∀ e ∈ part c (c k) l, e.1 ≠ k) : remove l k = l := by
  apply remove_of_absent
  intro e he hk
  exact h e (List.mem_filter.mpr ⟨he, by simp [hk]⟩) hk

end Lookup

end AssocList

end TermCollection
