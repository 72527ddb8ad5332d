import Mathlib.Data.Fintype.Card
import Mathlib.Data.List.Chain

/-!
# Predecessors

A function that gives a thing the one before it, if there is one. A chain leads from the start, which has
none before it, to a thing.
-/

namespace TermCollection

variable {α : Type*} {prev prev' : α → Option α} {start a b : α} {chain chain' : List α}

inductive PrevChain (prev : α → Option α) (start : α) : α → List α → Prop
  | start : PrevChain prev start start [start]
  | next {a b : α} {chain : List α} :
      PrevChain prev start a chain → prev b = some a → PrevChain prev start b (chain ++ [b])

namespace PrevChain

theorem unique (hstart : prev start = none) (h : PrevChain prev start a chain)
    (h' : PrevChain prev start a chain') : chain = chain' := by
  induction h generalizing chain' with
  | start =>
      cases h' with
      | start => rfl
      | next _ hprev =>
          rw [hstart] at hprev
          cases hprev
  | next _ hprev ih =>
      cases h' with
      | start =>
          rw [hstart] at hprev
          cases hprev
      | next h' hprev' =>
          rw [hprev] at hprev'
          cases hprev'
          rw [ih h']

/-- A chain passes through the chains of its things. -/
theorem of_mem (h : PrevChain prev start a chain) (hb : b ∈ chain) :
    ∃ chain', PrevChain prev start b chain' ∧ chain'.length ≤ chain.length := by
  induction h with
  | start =>
      rw [List.mem_singleton] at hb
      subst hb
      exact ⟨_, .start, Nat.le_refl _⟩
  | @next a c chain h hprev ih =>
      rcases List.mem_append.mp hb with hb | hb
      · obtain ⟨chain', h', hle⟩ := ih hb
        rw [List.length_append]
        exact ⟨chain', h', Nat.le_add_right_of_le hle⟩
      · rw [List.mem_singleton] at hb
        subst hb
        exact ⟨_, .next h hprev, Nat.le_refl _⟩

theorem nodup (hstart : prev start = none) (h : PrevChain prev start a chain) : chain.Nodup := by
  induction h with
  | start => exact List.nodup_singleton _
  | @next a b chain h hprev ih =>
      rw [List.nodup_append]
      refine ⟨ih, List.nodup_singleton _, fun c hc c' hc' heq => ?_⟩
      rw [List.mem_singleton] at hc'
      subst heq hc'
      obtain ⟨chain', h', hle⟩ := h.of_mem hc
      rw [← (next h hprev).unique hstart h', List.length_append, List.length_singleton] at hle
      omega

theorem length_le [Fintype α] (hstart : prev start = none) (h : PrevChain prev start a chain) :
    chain.length ≤ Fintype.card α := (h.nodup hstart).length_le_card

theorem head_last (h : PrevChain prev start a chain) :
    chain.head? = some start ∧ chain.getLast? = some a := by
  induction h with
  | start => exact ⟨rfl, rfl⟩
  | next _ _ ih => exact ⟨by rw [List.head?_append, ih.1]; rfl, List.getLast?_concat⟩

theorem isChain (h : PrevChain prev start a chain) : chain.IsChain fun a b => prev b = some a := by
  induction h with
  | start => exact .singleton _
  | next h hprev ih =>
      refine ih.append (.singleton _) fun a ha b hb => ?_
      rw [h.head_last.2] at ha
      cases ha
      cases hb
      exact hprev

/-- A chain depends on the predecessors of its things only. -/
theorem congr (h : PrevChain prev start a chain) (hsame : ∀ b ∈ chain, prev' b = prev b) :
    PrevChain prev' start a chain := by
  induction h with
  | start => exact .start
  | next _ hprev ih =>
      refine .next (ih fun b hb => hsame b (List.mem_append_left _ hb)) ?_
      rw [hsame _ (List.mem_append_right _ (List.mem_singleton_self _)), hprev]

end PrevChain

end TermCollection
