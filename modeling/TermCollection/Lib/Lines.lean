import Mathlib.Data.List.Basic
import Mathlib.Tactic.TypeStar

/-!
# The lines of a text

A text falls into lines, each with its end. Only the last line can be without one.
-/

namespace TermCollection

variable {α : Type*} {e : α} {line line' body text : List α} {lines pre post : List (List α)} {n : Nat}

/-- The line has its end, and no other one in it. -/
def Ended (e : α) (line : List α) : Prop := ∃ body, e ∉ body ∧ line = body ++ [e]

inductive Lines (e : α) : List (List α) → Prop
  | nil : Lines e []
  | last (line : List α) (hne : line ≠ []) (h : e ∉ line) : Lines e [line]
  | cons (line : List α) (lines : List (List α)) (h : Ended e line) (hs : Lines e lines) :
      Lines e (line :: lines)

theorem Ended.ne_nil (h : Ended e line) : line ≠ [] := by
  obtain ⟨body, -, rfl⟩ := h
  simp

theorem Ended.getLast?_eq (h : Ended e line) : line.getLast? = some e := by
  obtain ⟨body, -, rfl⟩ := h
  simp

namespace Lines

theorem ne_nil (h : Lines e lines) : ∀ line ∈ lines, line ≠ [] := by
  induction h with
  | nil => simp
  | last line hne _ => simpa using hne
  | cons line lines h _ ih => simpa using ⟨h.ne_nil, ih⟩

theorem ended_or (h : Lines e lines) : ∀ line ∈ lines, Ended e line ∨ e ∉ line := by
  induction h with
  | nil => simp
  | last line _ h => simpa using .inr h
  | cons line lines h _ ih => simpa using ⟨.inl h, ih⟩

/-- A line with another one behind it has its end. -/
theorem pairwise (h : Lines e lines) : lines.Pairwise fun line _ => Ended e line := by
  induction h with
  | nil => exact .nil
  | last => exact List.pairwise_singleton _ _
  | cons line lines h _ ih => exact List.pairwise_cons.mpr ⟨fun _ _ => h, ih⟩

/-- The lines above another one have their ends. -/
theorem ended_above (h : Lines e (pre ++ line :: post)) : ∀ l ∈ pre, Ended e l := by
  intro l hl
  exact (List.pairwise_append.mp h.pairwise).2.2 l hl line List.mem_cons_self

/-- A line without its end is the last one. -/
theorem eq_nil_of_unended (h : Lines e (pre ++ line :: post)) (hline : ¬ Ended e line) : post = [] := by
  cases post with
  | nil => rfl
  | cons l post =>
      have hpair := (List.pairwise_append.mp h.pairwise).2.1
      exact absurd ((List.pairwise_cons.mp hpair).1 l List.mem_cons_self) hline

theorem tail (h : Lines e (line :: lines)) : Lines e lines := by
  cases h with
  | last => exact .nil
  | cons _ _ _ hs => exact hs

/-- A line can be replaced by one that has its end. -/
theorem replace (h : Lines e (pre ++ line :: post)) (hline : Ended e line') :
    Lines e (pre ++ line' :: post) := by
  induction pre with
  | nil => exact .cons _ _ hline h.tail
  | cons p pre ih => exact .cons _ _ (h.ended_above p List.mem_cons_self) (ih h.tail)

end Lines

/-! ## The first element of a kind -/

section First

variable {β : Type*} {T U : List β → β → Prop} {xs above pre post : List β} {x y : β}

/-- The first element of a list with a property that depends on the elements above it. -/
structure FirstWith (T : List β → β → Prop) (xs above : List β) (x : β) : Prop where
  split : ∃ below, xs = above ++ x :: below
  holds : T above x
  first : ∀ pre y post, above = pre ++ y :: post → ¬ T pre y

theorem firstWith_nil : ¬ FirstWith T [] above x := by
  rintro ⟨⟨below, h⟩, -, -⟩
  simp at h

theorem exists_firstWith_cons : (∃ above, FirstWith T (x :: xs) above y) ↔
    (T [] x ∧ y = x) ∨ (¬ T [] x ∧ ∃ above, FirstWith (fun above => T (x :: above)) xs above y) := by
  constructor
  · rintro ⟨above, ⟨below, hsplit⟩, hholds, hfirst⟩
    cases above with
    | nil =>
        obtain ⟨rfl, -⟩ := List.cons.inj hsplit
        exact .inl ⟨hholds, rfl⟩
    | cons z above =>
        obtain ⟨rfl, hrest⟩ := List.cons.inj hsplit
        refine .inr ⟨hfirst [] x above rfl, above, ⟨below, hrest⟩, hholds, ?_⟩
        intro pre z post h
        exact hfirst (x :: pre) z post (by rw [h]; rfl)
  · rintro (⟨hx, rfl⟩ | ⟨hx, above, ⟨below, rfl⟩, hholds, hfirst⟩)
    · exact ⟨[], ⟨xs, rfl⟩, hx, fun pre z post h => by simp at h⟩
    · refine ⟨x :: above, ⟨below, rfl⟩, hholds, ?_⟩
      intro pre z post h
      cases pre with
      | nil =>
          obtain ⟨rfl, -⟩ := List.cons.inj h
          exact hx
      | cons w pre =>
          obtain ⟨rfl, hrest⟩ := List.cons.inj h
          exact hfirst pre z post hrest

theorem FirstWith.congr (h : FirstWith T xs above x)
    (hTU : ∀ pre y post, xs = pre ++ y :: post → (T pre y ↔ U pre y)) : FirstWith U xs above x := by
  obtain ⟨⟨below, rfl⟩, hholds, hfirst⟩ := h
  refine ⟨⟨below, rfl⟩, (hTU above x below rfl).mp hholds, ?_⟩
  rintro pre y post rfl hU
  exact hfirst pre y post rfl ((hTU pre y (post ++ x :: below) (by simp)).mpr hU)

/-- The other elements of the kind stand below the first one. -/
theorem FirstWith.below (h : FirstWith T xs above x) (hsplit : xs = pre ++ y :: post) (hy : T pre y) :
    (pre = above ∧ y = x) ∨ ∃ between, pre = above ++ x :: between := by
  obtain ⟨⟨below, rfl⟩, -, hfirst⟩ := h
  rcases List.append_eq_append_iff.mp hsplit with ⟨between, rfl, hbelow⟩ | ⟨between, rfl, hbelow⟩
  · cases between with
    | nil =>
        obtain ⟨rfl, -⟩ := List.cons.inj hbelow
        exact .inl ⟨List.append_nil _, rfl⟩
    | cons z between =>
        obtain ⟨rfl, -⟩ := List.cons.inj hbelow
        exact .inr ⟨between, rfl⟩
  · cases between with
    | nil =>
        obtain ⟨rfl, -⟩ := List.cons.inj hbelow
        exact .inl ⟨(List.append_nil _).symm, rfl⟩
    | cons z between =>
        obtain ⟨rfl, -⟩ := List.cons.inj hbelow
        exact absurd hy (hfirst pre y between rfl)

/-- A list without a first element of the kind has none. -/
theorem firstWith_or (T : List β → β → Prop) (xs : List β) :
    (∃ above x, FirstWith T xs above x) ∨ ∀ pre y post, xs = pre ++ y :: post → ¬ T pre y := by
  induction xs generalizing T with
  | nil => exact .inr fun pre y post h => by simp at h
  | cons x xs ih =>
      by_cases hx : T [] x
      · obtain ⟨above, hfirst⟩ := exists_firstWith_cons.mpr (.inl ⟨hx, rfl⟩)
        exact .inl ⟨above, x, hfirst⟩
      · rcases ih fun above => T (x :: above) with ⟨above, y, hfirst⟩ | hnone
        · obtain ⟨above, hfirst⟩ := exists_firstWith_cons.mpr (.inr ⟨hx, above, hfirst⟩)
          exact .inl ⟨above, y, hfirst⟩
        · refine .inr fun pre y post h => ?_
          cases pre with
          | nil =>
              obtain ⟨rfl, -⟩ := List.cons.inj h
              exact hx
          | cons z pre =>
              obtain ⟨rfl, hrest⟩ := List.cons.inj h
              exact hnone pre y post hrest

end First

theorem findIdx_append_of_not {p : α → Bool} {l r : List α} {a : α} (h : ∀ x ∈ l, p x = false)
    (ha : p a = true) : (l ++ a :: r).findIdx p = l.length := by
  induction l with
  | nil => rw [List.nil_append, List.findIdx_cons, ha, cond_true, List.length_nil]
  | cons x l ih =>
      have hx := h x (by simp)
      rw [List.cons_append, List.findIdx_cons, hx, cond_false, ih fun y hy => h y (by simp [hy])]
      rfl

/-! ## Splitting a text -/

section Split

variable [DecidableEq α]

def textLines (e : α) : List α → List (List α)
  | [] => []
  | c :: text =>
      if c = e then [c] :: textLines e text
      else
        match textLines e text with
        | [] => [[c]]
        | line :: lines => (c :: line) :: lines

theorem textLines_of_not_mem (h : e ∉ text) (hne : text ≠ []) : textLines e text = [text] := by
  induction text with
  | nil => exact absurd rfl hne
  | cons c text ih =>
      have hc : c ≠ e := fun hc => h (hc ▸ List.mem_cons_self)
      rw [textLines, if_neg hc]
      cases text with
      | nil => rfl
      | cons d text => rw [ih (fun hd => h (List.mem_cons_of_mem _ hd)) (List.cons_ne_nil _ _)]

theorem textLines_append (h : Ended e line) (text : List α) :
    textLines e (line ++ text) = line :: textLines e text := by
  obtain ⟨body, hbody, rfl⟩ := h
  rw [List.append_assoc, List.singleton_append]
  induction body with
  | nil => rw [List.nil_append, List.nil_append, textLines, if_pos rfl]
  | cons c body ih =>
      have hc : c ≠ e := fun hc => hbody (hc ▸ List.mem_cons_self)
      rw [List.cons_append, textLines, if_neg hc, ih fun hd => hbody (List.mem_cons_of_mem _ hd)]
      rfl

theorem Lines.textLines_flatten (h : Lines e lines) : textLines e lines.flatten = lines := by
  induction h with
  | nil => rfl
  | last line hne h =>
      rw [List.flatten_singleton]
      exact textLines_of_not_mem h hne
  | cons line lines h _ ih => rw [List.flatten_cons, textLines_append h, ih]

theorem exists_lines (e : α) (text : List α) : ∃ lines, Lines e lines ∧ lines.flatten = text := by
  induction text with
  | nil => exact ⟨[], .nil, rfl⟩
  | cons c text ih =>
      obtain ⟨lines, hlines, rfl⟩ := ih
      by_cases hc : c = e
      · subst hc
        exact ⟨[c] :: lines, .cons _ _ ⟨[], List.not_mem_nil, rfl⟩ hlines, rfl⟩
      · cases hlines with
        | nil => exact ⟨[[c]], .last _ (by simp) (by simpa using Ne.symm hc), rfl⟩
        | last line hne h =>
            exact ⟨[c :: line], .last _ (by simp) (by simp [Ne.symm hc, h]), rfl⟩
        | cons line lines h hs =>
            obtain ⟨body, hbody, rfl⟩ := h
            exact ⟨(c :: (body ++ [e])) :: lines,
              .cons _ _ ⟨c :: body, by simp [Ne.symm hc, hbody], rfl⟩ hs, rfl⟩

theorem lines_textLines (e : α) (text : List α) : Lines e (textLines e text) := by
  obtain ⟨lines, hlines, rfl⟩ := exists_lines e text
  rwa [hlines.textLines_flatten]

theorem flatten_textLines (e : α) (text : List α) : (textLines e text).flatten = text := by
  obtain ⟨lines, hlines, rfl⟩ := exists_lines e text
  rw [hlines.textLines_flatten]

/-- The line without its end. -/
def chomp (e : α) (line : List α) : List α := if line.getLast? = some e then line.dropLast else line

theorem chomp_concat (body : List α) : chomp e (body ++ [e]) = body := by simp [chomp]

theorem chomp_of_unended (h : line.getLast? ≠ some e) : chomp e line = line := if_neg h

/-! ## Reading a line into a buffer -/

/-- The next line of a text with its end, or the first `n` elements of it, and the text behind it. -/
def readLine (e : α) (n : Nat) (text : List α) : List α × List α :=
  let line := text.take n
  let k := line.findIdx (· = e)
  (line.take (k + 1), text.drop (min (k + 1) n))

theorem readLine_ended (h : Ended e line) (hn : line.length ≤ n) (rest : List α) :
    readLine e n (line ++ rest) = (line, rest) := by
  obtain ⟨body, hbody, rfl⟩ := h
  rw [List.length_append, List.length_singleton] at hn
  obtain ⟨k, rfl⟩ : ∃ k, n = body.length + (k + 1) := ⟨n - body.length - 1, by omega⟩
  have htake : (body ++ e :: rest).take (body.length + (k + 1)) = body ++ e :: rest.take k := by
    rw [List.take_append, List.take_of_length_le (by omega)]
    simp
  have hidx : (body ++ e :: rest.take k).findIdx (· = e) = body.length :=
    findIdx_append_of_not (by simpa using fun x hx => ne_of_mem_of_not_mem hx hbody) (by simp)
  have hmin : min (body.length + 1) (body.length + (k + 1)) = body.length + 1 := by omega
  simp only [readLine, List.append_assoc, List.singleton_append, htake, hidx, hmin]
  rw [List.take_append, List.take_of_length_le (by omega), List.drop_append]
  simp

theorem readLine_last (h : e ∉ line) (hn : line.length ≤ n) : readLine e n line = (line, []) := by
  have hidx : line.findIdx (· = e) = line.length := by
    rw [List.findIdx_eq_length]
    simpa using fun x hx => ne_of_mem_of_not_mem hx h
  simp only [readLine, List.take_of_length_le hn, hidx]
  rw [List.take_of_length_le (by omega), List.drop_eq_nil_of_le (by omega)]

end Split

end TermCollection
