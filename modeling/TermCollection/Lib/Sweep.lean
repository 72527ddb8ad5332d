import Mathlib.Data.List.Basic

/-!
# Sweeps of a list from the back

A loop goes down over the indices of a list. It counts the entry down, lets it work on an accumulator, and
removes it when it is over. A removal lowers the index once more, so that the entry before is passed over.
-/

namespace TermCollection

/-- What a sweep does with an entry. -/
structure Sweep (σ α : Type*) where
  work : σ → α → σ
  tick : α → α
  ended : α → Bool

namespace Sweep

variable {σ α : Type*} (sw : Sweep σ α) {s : σ} {a b : α} {l front behind : List α} {n : Nat}

/-! ## The loop -/

section loop

variable [Inhabited α]

/-- The loop from the index before the given number down. -/
def loop : Nat → σ → List α → σ × List α
  | 0, s, l => (s, l)
  | 1, s, l =>
      let a := sw.tick (l.getD 0 default)
      (sw.work s a, if sw.ended a then l.eraseIdx 0 else l.set 0 a)
  | i + 2, s, l =>
      let a := sw.tick (l.getD (i + 1) default)
      if sw.ended a then loop i (sw.work s a) (l.eraseIdx (i + 1))
      else loop (i + 1) (sw.work s a) (l.set (i + 1) a)

/-- The sweep of a whole list. -/
def sweep (s : σ) (l : List α) : σ × List α := sw.loop l.length s l

/-- The loop does not reach the entries from its first index on. -/
theorem loop_append (h : n ≤ l.length) :
    sw.loop n s (l ++ behind) = ((sw.loop n s l).1, (sw.loop n s l).2 ++ behind) := by
  induction n using Nat.strongRecOn generalizing s l with
  | ind n ih =>
      match n with
      | 0 => rfl
      | 1 =>
          have hget : (l ++ behind).getD 0 default = l.getD 0 default := by
            simp only [List.getD_eq_getElem?_getD, List.getElem?_append_left h]
          simp only [loop, hget]
          split
          · rw [List.eraseIdx_append_of_lt_length h]
          · rw [List.set_append_left _ _ h]
      | i + 2 =>
          have hget : (l ++ behind).getD (i + 1) default = l.getD (i + 1) default := by
            simp only [List.getD_eq_getElem?_getD, List.getElem?_append_left h]
          simp only [loop, hget]
          split
          · rw [List.eraseIdx_append_of_lt_length h]
            apply ih i (by omega)
            rw [List.length_eraseIdx_of_lt h]
            omega
          · rw [List.set_append_left _ _ h]
            apply ih (i + 1) (by omega)
            rw [List.length_set]
            omega

theorem getD_concat (front : List α) (a : α) : (front ++ [a]).getD front.length default = a := by
  rw [List.getD_eq_getElem?_getD, List.getElem?_concat_length, Option.getD_some]

theorem sweep_nil : sw.sweep s [] = (s, []) := rfl

theorem sweep_single :
    sw.sweep s [a] = (sw.work s (sw.tick a), if sw.ended (sw.tick a) then [] else [sw.tick a]) := rfl

/-- A last entry that is not over: the others follow. -/
theorem sweep_lasts (h : sw.ended (sw.tick a) = false) :
    sw.sweep s (front ++ [a]) =
      ((sw.sweep (sw.work s (sw.tick a)) front).1,
        (sw.sweep (sw.work s (sw.tick a)) front).2 ++ [sw.tick a]) := by
  rw [sweep, List.length_append, List.length_singleton]
  cases hfront : front.length with
  | zero =>
      rw [List.length_eq_zero_iff] at hfront
      subst hfront
      simp only [List.nil_append, loop, List.getD_cons_zero, h, Bool.false_eq_true, if_false,
        List.set_cons_zero, sweep_nil]
  | succ i =>
      have hget := getD_concat front a
      have hset : (front ++ [a]).set front.length (sw.tick a) = front ++ [sw.tick a] := by
        rw [List.set_append_right _ _ (Nat.le_refl _), Nat.sub_self, List.set_cons_zero]
      rw [hfront] at hget hset
      simp only [loop, hget, h, Bool.false_eq_true, if_false, hset]
      rw [loop_append sw (Nat.le_of_eq hfront.symm), sweep, hfront]

/-- A last entry that is over: the one before it is passed over. -/
theorem sweep_ends (h : sw.ended (sw.tick a) = true) :
    sw.sweep s (front ++ [b, a]) =
      ((sw.sweep (sw.work s (sw.tick a)) front).1,
        (sw.sweep (sw.work s (sw.tick a)) front).2 ++ [b]) := by
  have hsplit : front ++ [b, a] = (front ++ [b]) ++ [a] := by simp
  have hlength : (front ++ [b]).length = front.length + 1 := by simp
  have hget := getD_concat (front ++ [b]) a
  rw [hlength] at hget
  have herase : ((front ++ [b]) ++ [a]).eraseIdx (front.length + 1) = front ++ [b] := by
    rw [← hlength, List.eraseIdx_append_of_length_le (Nat.le_refl _), Nat.sub_self]
    simp
  rw [sweep, hsplit, List.length_append, hlength, List.length_singleton]
  simp only [loop, hget, h, if_true, herase]
  rw [loop_append sw (Nat.le_refl _), sweep]

end loop

/-! ## Entries that are visited and passed over -/

/-- The entries that work, as they are when they do, for a list from the back. -/
def visited : List α → List α
  | [] => []
  | [a] => [sw.tick a]
  | a :: b :: rest => sw.tick a :: if sw.ended (sw.tick a) then visited rest else visited (b :: rest)

/-- The entries that are passed over, for a list from the back. -/
def passed : List α → List α
  | [] => []
  | [_] => []
  | a :: b :: rest => if sw.ended (sw.tick a) then b :: passed rest else passed (b :: rest)

/-- The list that is left, from the back. -/
def kept : List α → List α
  | [] => []
  | [a] => if sw.ended (sw.tick a) then [] else [sw.tick a]
  | a :: b :: rest =>
      if sw.ended (sw.tick a) then b :: kept rest else sw.tick a :: kept (b :: rest)

theorem sweep_eq [Inhabited α] (s : σ) (l : List α) :
    sw.sweep s l = ((sw.visited l.reverse).foldl sw.work s, (sw.kept l.reverse).reverse) := by
  obtain ⟨rev, rfl⟩ : ∃ rev : List α, l = rev.reverse := ⟨l.reverse, l.reverse_reverse.symm⟩
  rw [List.reverse_reverse]
  induction rev using kept.induct sw generalizing s with
  | case1 => rfl
  | case2 a h => simp only [List.reverse_singleton, sweep_single, visited, kept, h]; rfl
  | case3 a h => simp only [List.reverse_singleton, sweep_single, visited, kept, h]; rfl
  | case4 a b rest h ih =>
      rw [List.reverse_cons, List.reverse_cons, List.append_assoc, List.singleton_append,
        sweep_ends sw h, ih]
      simp only [visited, kept, h, if_true, List.foldl_cons, List.reverse_cons]
  | case5 a b rest h ih =>
      rw [List.reverse_cons, sweep_lasts sw (Bool.not_eq_true _ ▸ h), ih]
      simp only [visited, kept, if_neg h, List.foldl_cons, List.reverse_cons]

theorem mem_visited {rev : List α} (h : a ∈ sw.visited rev) : ∃ b ∈ rev, a = sw.tick b := by
  induction rev using passed.induct sw with
  | case1 => cases h
  | case2 b =>
      rw [visited, List.mem_singleton] at h
      exact ⟨b, List.mem_cons_self, h⟩
  | case3 b c rest hover ih =>
      rw [visited, if_pos hover, List.mem_cons] at h
      rcases h with rfl | h
      · exact ⟨b, List.mem_cons_self, rfl⟩
      · obtain ⟨d, hmem, heq⟩ := ih h
        exact ⟨d, List.mem_cons_of_mem _ (List.mem_cons_of_mem _ hmem), heq⟩
  | case4 b c rest hover ih =>
      rw [visited, if_neg hover, List.mem_cons] at h
      rcases h with rfl | h
      · exact ⟨b, List.mem_cons_self, rfl⟩
      · obtain ⟨d, hmem, heq⟩ := ih h
        exact ⟨d, List.mem_cons_of_mem _ hmem, heq⟩

/-- What is left is an entry as it was, or one that was counted down. -/
theorem mem_kept {rev : List α} (h : a ∈ sw.kept rev) : ∃ b ∈ rev, a = b ∨ a = sw.tick b := by
  induction rev using kept.induct sw with
  | case1 => cases h
  | case2 b hover =>
      rw [kept, if_pos hover] at h
      cases h
  | case3 b hover =>
      rw [kept, if_neg hover, List.mem_singleton] at h
      exact ⟨b, List.mem_cons_self, .inr h⟩
  | case4 b c rest hover ih =>
      rw [kept, if_pos hover, List.mem_cons] at h
      rcases h with rfl | h
      · exact ⟨a, List.mem_cons_of_mem _ List.mem_cons_self, .inl rfl⟩
      · obtain ⟨d, hmem, heq⟩ := ih h
        exact ⟨d, List.mem_cons_of_mem _ (List.mem_cons_of_mem _ hmem), heq⟩
  | case5 b c rest hover ih =>
      rw [kept, if_neg hover, List.mem_cons] at h
      rcases h with rfl | h
      · exact ⟨b, List.mem_cons_self, .inr rfl⟩
      · obtain ⟨d, hmem, heq⟩ := ih h
        exact ⟨d, List.mem_cons_of_mem _ hmem, heq⟩

/-- Every entry is visited or passed over. -/
theorem countP_visited (p : α → Bool) (rev : List α) :
    (sw.visited rev).countP p + ((sw.passed rev).map sw.tick).countP p = (rev.map sw.tick).countP p := by
  induction rev using passed.induct sw with
  | case1 => rfl
  | case2 a => simp only [visited, passed, List.map_cons, List.map_nil, List.countP_nil, Nat.add_zero]
  | case3 a b rest h ih =>
      simp only [visited, passed, h, if_true, List.map_cons, List.countP_cons] at ih ⊢
      omega
  | case4 a b rest h ih =>
      simp only [visited, passed, if_neg h, List.map_cons, List.countP_cons] at ih ⊢
      omega

/-- What is left was visited and is not over, or was passed over. -/
theorem countP_kept (p : α → Bool) (rev : List α) :
    (sw.kept rev).countP p =
      (sw.visited rev).countP (fun a => p a && !sw.ended a) + (sw.passed rev).countP p := by
  induction rev using kept.induct sw with
  | case1 => rfl
  | case2 a h => simp [kept, visited, passed, h]
  | case3 a h => simp [kept, visited, passed, h]
  | case4 a b rest h ih =>
      simp only [kept, visited, passed, h, if_true, List.countP_cons, Bool.not_true, Bool.and_false,
        Bool.false_eq_true, if_false] at ih ⊢
      omega
  | case5 a b rest h ih =>
      simp only [Bool.not_eq_true] at h
      simp only [kept, visited, passed, h, Bool.false_eq_true, if_false, List.countP_cons, Bool.not_false,
        Bool.and_true] at ih ⊢
      omega

end Sweep

end TermCollection
