import Mathlib.Data.List.Basic
import Mathlib.Data.Nat.Notation
import Mathlib.Tactic.TypeStar

/-!
# Framed streams

Each frame is a header of a fixed width that gives the length of the payload, and the payload. A part of
the stream that has arrived consists of the frames that are completed and of a rest, which is less than
the next frame.
-/

namespace TermCollection

structure Framing (φ β : Type*) where
  width : ℕ
  size : List β → ℕ
  header : φ → List β
  payload : φ → List β
  header_length : ∀ f, (header f).length = width
  size_header : ∀ f, size (header f) = (payload f).length

namespace Framing

variable {φ β : Type*} {F : Framing φ β} {f : φ} {fs done todo : List φ} {t rest : List β} {n : ℕ}

def frame (F : Framing φ β) (f : φ) : List β := F.header f ++ F.payload f

def stream (F : Framing φ β) (fs : List φ) : List β := fs.flatMap F.frame

/-- The frames that lie within the first `n` elements of the stream. -/
def completed (F : Framing φ β) : List φ → ℕ → List φ
  | [], _ => []
  | f :: fs, n =>
      if (F.frame f).length ≤ n then f :: completed F fs (n - (F.frame f).length) else []

/-- How many of the first `n` elements come after the last completed frame. -/
def pending (F : Framing φ β) : List φ → ℕ → ℕ
  | [], n => n
  | f :: fs, n => if (F.frame f).length ≤ n then pending F fs (n - (F.frame f).length) else n

/-- The start of a stream that does not reach the end of its first frame. -/
structure Short (F : Framing φ β) (todo : List φ) (rest : List β) : Prop where
  start : rest <+: F.stream todo
  short : ∀ f ∈ todo.head?, rest.length < (F.frame f).length

theorem stream_cons (F : Framing φ β) (f : φ) (fs : List φ) :
    F.stream (f :: fs) = F.frame f ++ F.stream fs := List.flatMap_cons

theorem stream_append (F : Framing φ β) (done todo : List φ) :
    F.stream (done ++ todo) = F.stream done ++ F.stream todo := List.flatMap_append

theorem frame_length (F : Framing φ β) (f : φ) :
    (F.frame f).length = F.width + (F.payload f).length := by
  rw [frame, List.length_append, F.header_length]

theorem Short.nil (h : F.Short [] rest) : rest = [] := List.prefix_nil.mp h.start

theorem Short.frame (h : F.Short (f :: fs) rest) : rest <+: F.frame f := by
  have hstart := h.start
  rw [stream_cons] at hstart
  exact List.prefix_of_prefix_length_le hstart (List.prefix_append _ _)
    (Nat.le_of_lt (h.short f rfl))

theorem completed_append (F : Framing φ β) (done todo : List φ) (n : ℕ) :
    F.completed (done ++ todo) ((F.stream done).length + n) = done ++ F.completed todo n := by
  induction done with
  | nil => rw [stream, List.flatMap_nil, List.length_nil, Nat.zero_add, List.nil_append, List.nil_append]
  | cons f done ih =>
      rw [stream_cons, List.length_append, Nat.add_assoc, List.cons_append, completed,
        if_pos (Nat.le_add_right _ _), Nat.add_sub_cancel_left, ih, List.cons_append]

theorem pending_append (F : Framing φ β) (done todo : List φ) (n : ℕ) :
    F.pending (done ++ todo) ((F.stream done).length + n) = F.pending todo n := by
  induction done with
  | nil => rw [stream, List.flatMap_nil, List.length_nil, Nat.zero_add, List.nil_append]
  | cons f done ih =>
      rw [stream_cons, List.length_append, Nat.add_assoc, List.cons_append, pending,
        if_pos (Nat.le_add_right _ _), Nat.add_sub_cancel_left, ih]

theorem completed_stream (F : Framing φ β) (fs : List φ) : F.completed fs (F.stream fs).length = fs := by
  have hall := completed_append F fs [] 0
  rwa [List.append_nil, Nat.add_zero, completed, List.append_nil] at hall

theorem Short.completed (h : F.Short todo rest) : F.completed todo rest.length = [] := by
  cases todo with
  | nil => rfl
  | cons f todo => rw [Framing.completed, if_neg (Nat.not_le.mpr (h.short f rfl))]

theorem Short.pending (h : F.Short todo rest) : F.pending todo rest.length = rest.length := by
  cases todo with
  | nil => rfl
  | cons f todo => rw [Framing.pending, if_neg (Nat.not_le.mpr (h.short f rfl))]

/-- What has arrived of a stream: completed frames and a rest. -/
theorem exists_split (h : t <+: F.stream fs) :
    ∃ done todo rest, fs = done ++ todo ∧ t = F.stream done ++ rest ∧ F.Short todo rest := by
  induction fs generalizing t with
  | nil => exact ⟨[], [], t, rfl, rfl, h, fun f hf => by cases hf⟩
  | cons f fs ih =>
      by_cases hlen : (F.frame f).length ≤ t.length
      · have hf : F.frame f <+: t :=
          List.prefix_of_prefix_length_le (by rw [stream_cons]; exact List.prefix_append _ _) h hlen
        obtain ⟨t', rfl⟩ := hf
        rw [stream_cons, List.prefix_append_right_inj] at h
        obtain ⟨done, todo, rest, rfl, rfl, hshort⟩ := ih h
        exact ⟨f :: done, todo, rest, rfl, by rw [stream_cons, List.append_assoc], hshort⟩
      · refine ⟨[], f :: fs, t, rfl, rfl, h, fun g hg => ?_⟩
        cases hg
        exact Nat.not_le.mp hlen

/-- Nothing of a whole stream is pending. -/
theorem short_nil (hpos : 0 < F.width) (todo : List φ) : F.Short todo [] := by
  refine ⟨List.nil_prefix, fun f _ => ?_⟩
  rw [frame_length, List.length_nil]
  omega

/-! ## Readers -/

/-- What a reader gives for the segments that a stream arrives in. -/
def receive {σ μ : Type*} (read : σ → List β → σ × List μ) : σ → List (List β) → σ × List μ
  | r, [] => (r, [])
  | r, segment :: segments =>
      let (r, out) := read r segment
      let (r, outs) := receive read r segments
      (r, out ++ outs)

/-- What holds of all messages of a call when the call meets a condition holds of all messages when every
call does. -/
theorem receive_forall {σ μ : Type*} {read : σ → List β → σ × List μ} {P : μ → Prop}
    {Q : σ → List β → Prop} (h : ∀ r segment, (∀ m ∈ (read r segment).2, P m) ↔ Q r segment) (r : σ)
    {segments : List (List β)} :
    (∀ m ∈ (receive read r segments).2, P m) ↔
      ∀ before segment after, segments = before ++ segment :: after →
        Q (receive read r before).1 segment := by
  induction segments generalizing r with
  | nil => simp [receive]
  | cons segment segments ih =>
      simp only [receive, List.mem_append, or_imp, forall_and, h, ih]
      constructor
      · rintro ⟨hfirst, hrest⟩ before segment' after heq
        cases before with
        | nil =>
            obtain ⟨rfl, -⟩ := List.cons.inj heq
            exact hfirst
        | cons first before =>
            obtain ⟨rfl, htail⟩ := List.cons.inj heq
            exact hrest before segment' after htail
      · intro hall
        refine ⟨hall [] segment segments rfl, fun before segment' after heq => ?_⟩
        exact hall (segment :: before) segment' after (by rw [heq, List.cons_append])

end Framing

end TermCollection
