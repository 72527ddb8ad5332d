import Mathlib.Data.Set.Insert
import Mathlib.Data.List.Nodup
import Mathlib.Logic.Relation
import Mathlib.Tactic.Tauto

/-!
# Lobbies

Players are online, some of them are busy, and games are played by lists of players. In a consistent
lobby the busy players are those who play, and everybody plays at most once.
-/

namespace TermCollection

structure Lobby (α : Type*) where
  online : Set α
  busy : Set α
  games : List (List α)

namespace Lobby

variable {α : Type*} {l l' : Lobby α}

structure Consistent (l : Lobby α) : Prop where
  online : ∀ p ∈ l.games.flatten, p ∈ l.online
  once : l.games.flatten.Nodup
  busy : l.busy = {p | p ∈ l.games.flatten}

inductive Move : Lobby α → Lobby α → Prop
  | join (l : Lobby α) (p : α) : Move l { l with online := insert p l.online }
  | start (l : Lobby α) (ps : List α) : ps.Nodup → (∀ p ∈ ps, p ∈ l.online ∧ p ∉ l.busy) →
      Move l { l with busy := l.busy ∪ {p | p ∈ ps}, games := l.games ++ [ps] }
  | finish (online busy : Set α) (A : List (List α)) (ps : List α) (B : List (List α)) :
      Move ⟨online, busy, A ++ ps :: B⟩ ⟨online, busy \ {p | p ∈ ps}, A ++ B⟩
  | leave (l : Lobby α) (p : α) : p ∉ l.busy → Move l { l with online := l.online \ {p} }

/-- Several moves one after the other. -/
abbrev Moves : Lobby α → Lobby α → Prop := Relation.ReflTransGen Move

theorem Consistent.move (h : l.Consistent) (hm : Move l l') : l'.Consistent := by
  cases hm with
  | join _ p => exact ⟨fun q hq => .inr (h.online q hq), h.once, h.busy⟩
  | start _ ps hnodup hfree =>
      have hnew : ∀ p ∈ ps, p ∉ l.games.flatten := fun p hp hmem =>
        (hfree p hp).2 (by rw [h.busy]; exact hmem)
      refine ⟨?_, ?_, ?_⟩
      · intro p hp
        rw [List.flatten_concat, List.mem_append] at hp
        rcases hp with hp | hp
        · exact h.online p hp
        · exact (hfree p hp).1
      · rw [List.flatten_concat]
        exact h.once.append hnodup fun p hp hps => hnew p hps hp
      · ext p
        simp [h.busy]
  | finish online busy A ps B =>
      have honce := h.once
      simp only [List.flatten_append, List.flatten_cons] at honce
      obtain ⟨hA, hB, hAB⟩ := List.nodup_append'.mp honce
      obtain ⟨-, hB, hpsB⟩ := List.nodup_append'.mp hB
      have hmem : ∀ p, p ∈ (A ++ ps :: B).flatten ↔ p ∈ A.flatten ∨ p ∈ ps ∨ p ∈ B.flatten := fun p => by
        simp only [List.flatten_append, List.flatten_cons, List.mem_append]
      refine ⟨?_, ?_, ?_⟩
      · intro p hp
        rw [List.flatten_append, List.mem_append] at hp
        apply h.online p
        rw [hmem]
        tauto
      · rw [List.flatten_append]
        exact hA.append hB fun p hpA hpB => hAB hpA (List.mem_append_right _ hpB)
      · have hbusy : ∀ p, p ∈ busy ↔ p ∈ A.flatten ∨ p ∈ ps ∨ p ∈ B.flatten := fun p => by
          have hall : busy = {p | p ∈ (A ++ ps :: B).flatten} := h.busy
          rw [hall, Set.mem_ofPred_eq, hmem]
        ext p
        simp only [Set.mem_sdiff, Set.mem_ofPred_eq, hbusy, List.flatten_append, List.mem_append]
        constructor
        · rintro ⟨hA | hps | hB, hnot⟩
          · exact .inl hA
          · exact absurd hps hnot
          · exact .inr hB
        · rintro (hpA | hpB)
          · exact ⟨.inl hpA, fun hps => hAB hpA (List.mem_append_left _ hps)⟩
          · exact ⟨.inr (.inr hpB), fun hps => hpsB hps hpB⟩
  | leave _ p hfree =>
      refine ⟨fun q hq => ⟨h.online q hq, ?_⟩, h.once, h.busy⟩
      rintro rfl
      exact hfree (by rw [h.busy]; exact hq)

theorem Consistent.moves (h : l.Consistent) (hm : Moves l l') : l'.Consistent := by
  induction hm with
  | refl => exact h
  | tail _ hm ih => exact ih.move hm

theorem Consistent.game_unique [DecidableEq α] (h : l.Consistent) (p : α) :
    (l.games.filter (p ∈ ·)).length ≤ 1 := by
  have honce := h.once
  generalize l.games = games at honce
  induction games with
  | nil => exact Nat.zero_le 1
  | cons ps games ih =>
      rw [List.flatten_cons] at honce
      obtain ⟨-, hgames, hdisjoint⟩ := List.nodup_append'.mp honce
      rw [List.filter_cons]
      split
      · rename_i hp
        have hnone : games.filter (p ∈ ·) = [] := by
          rw [List.filter_eq_nil_iff]
          intro qs hqs hmem
          exact hdisjoint (of_decide_eq_true hp) (List.mem_flatten_of_mem hqs (of_decide_eq_true hmem))
        rw [hnone]
        exact Nat.le_refl 1
      · exact ih hgames

end Lobby

end TermCollection
