import Mathlib.Data.List.Basic
import Mathlib.Tactic.TypeStar

/-!
# Self-delimiting codes

A code is self-delimiting when a value and the rest of the input can be told from its code followed by the
rest. Such codes are put together from smaller ones.
-/

namespace TermCollection

variable {α β γ : Type*} {enc : α → List β} {stop : γ → List β} {d : β}

def SelfDelimiting (enc : α → List β) : Prop :=
  ∀ ⦃a a' : α⦄ ⦃rest rest' : List β⦄, enc a ++ rest = enc a' ++ rest' → a = a' ∧ rest = rest'

namespace SelfDelimiting

/-- Codes of one length. -/
theorem of_length (hinj : Function.Injective enc) (hlength : ∀ a a', (enc a).length = (enc a').length) :
    SelfDelimiting enc := by
  intro a a' rest rest' h
  obtain ⟨hcode, hrest⟩ := List.append_inj h (hlength a a')
  exact ⟨hinj hcode, hrest⟩

/-- Codes with a delimiter behind them that they do not have in them. -/
theorem of_delimiter (hinj : Function.Injective enc) (hd : ∀ a, d ∉ enc a) :
    SelfDelimiting fun a => enc a ++ [d] := by
  have hle : ∀ {pre pre' rest rest' : List β}, d ∉ pre' → pre ++ d :: rest = pre' ++ d :: rest' →
      pre'.length ≤ pre.length := by
    intro pre pre' rest rest' hpre' h
    by_contra hlt
    rw [Nat.not_le] at hlt
    have hget := congrArg (·[pre.length]?) h
    simp only [List.getElem?_append_right (Nat.le_refl _), Nat.sub_self, List.getElem?_cons_zero,
      List.getElem?_append_left hlt] at hget
    exact hpre' (List.mem_of_getElem? hget.symm)
  intro a a' rest rest' h
  rw [List.append_assoc, List.append_assoc, List.singleton_append, List.singleton_append] at h
  obtain ⟨hcode, hrest⟩ := List.append_inj h (Nat.le_antisymm (hle (hd a) h.symm) (hle (hd a') h))
  exact ⟨hinj hcode, (List.cons.inj hrest).2⟩

/-- What is true of a first value is true of the only one that the input starts with. -/
theorem exists_iff {P : α → Prop} (h : SelfDelimiting enc) {a : α} {rest : List β} :
    (∃ a' rest', enc a ++ rest = enc a' ++ rest' ∧ P a') ↔ P a := by
  constructor
  · rintro ⟨a', rest', heq, ha'⟩
    obtain ⟨rfl, -⟩ := h heq
    exact ha'
  · exact fun ha => ⟨a, rest, rfl, ha⟩

/-- A list of values whose end is marked by a code that no value starts like. -/
theorem stream (h : SelfDelimiting enc) (hstop : SelfDelimiting stop)
    (hne : ∀ a c rest rest', enc a ++ rest ≠ stop c ++ rest') :
    SelfDelimiting fun p : List α × γ => p.1.flatMap enc ++ stop p.2 := by
  rintro ⟨as, c⟩ ⟨as', c'⟩ rest rest' heq
  induction as generalizing as' with
  | nil =>
      cases as' with
      | nil =>
          obtain ⟨rfl, hrest⟩ := hstop heq
          exact ⟨rfl, hrest⟩
      | cons a' as' =>
          simp only [List.flatMap_nil, List.nil_append, List.flatMap_cons, List.append_assoc] at heq
          exact absurd heq.symm (hne _ _ _ _)
  | cons a as ih =>
      cases as' with
      | nil =>
          simp only [List.flatMap_nil, List.nil_append, List.flatMap_cons, List.append_assoc] at heq
          exact absurd heq (hne _ _ _ _)
      | cons a' as' =>
          simp only [List.flatMap_cons, List.append_assoc] at heq
          obtain ⟨rfl, htail⟩ := h heq
          rw [← List.append_assoc, ← List.append_assoc] at htail
          obtain ⟨hpair, hrest⟩ := ih as' htail
          obtain ⟨rfl, rfl⟩ := Prod.mk.inj hpair
          exact ⟨rfl, hrest⟩

theorem flatMap_injective (h : SelfDelimiting enc) (hne : ∀ a, enc a ≠ []) :
    Function.Injective (List.flatMap enc) := by
  intro as as' heq
  induction as generalizing as' with
  | nil =>
      cases as' with
      | nil => rfl
      | cons a' as' => exact absurd (List.append_eq_nil_iff.mp heq.symm).1 (hne a')
  | cons a as ih =>
      cases as' with
      | nil => exact absurd (List.append_eq_nil_iff.mp heq).1 (hne a)
      | cons a' as' =>
          obtain ⟨rfl, htail⟩ := h heq
          rw [ih htail]

end SelfDelimiting

end TermCollection
