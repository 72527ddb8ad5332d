import TermCollection.Lib.Framing

/-!
# Links

A link brings the frames of a sender to a reader. Some of the bytes are on the wire; the reader takes them in
segments of any size, and holds those that do not make a frame yet. A link stands for the queue of the frames
that the reader has not given out.
-/

namespace TermCollection

variable {φ β σ : Type*} {F : Framing φ β}

namespace Framing

variable {f : φ} {done todo : List φ} {rest t : List β} {fuel : ℕ}

/-- What is left when the frames that are complete are taken off. -/
def unframed (F : Framing φ β) : ℕ → List β → List β
  | 0, bytes => bytes
  | fuel + 1, bytes =>
      if F.width ≤ bytes.length ∧ F.width + F.size (bytes.take F.width) ≤ bytes.length then
        unframed F fuel (bytes.drop (F.width + F.size (bytes.take F.width)))
      else bytes

theorem size_take (f : φ) (t : List β) :
    F.size ((F.frame f ++ t).take F.width) = (F.payload f).length := by
  rw [frame, List.append_assoc, List.take_left' (F.header_length f), F.size_header]

theorem unframed_frame (fuel : ℕ) (f : φ) (t : List β) :
    F.unframed (fuel + 1) (F.frame f ++ t) = F.unframed fuel t := by
  have hlen := frame_length F f
  rw [unframed, size_take, ← hlen, if_pos, List.drop_left]
  rw [List.length_append]
  omega

theorem unframed_short (fuel : ℕ) (h : F.Short todo rest) (hpos : 0 < F.width) : F.unframed fuel rest = rest := by
  cases fuel with
  | zero => rfl
  | succ fuel =>
      rw [unframed, if_neg]
      rintro ⟨hwidth, hsize⟩
      cases todo with
      | nil =>
          rw [h.nil, List.length_nil] at hwidth
          omega
      | cons f todo =>
          obtain ⟨t, ht⟩ := h.frame
          have hlt := h.short f rfl
          have htake := size_take (F := F) f []
          rw [List.append_nil, ← ht, List.take_append_of_le_length hwidth] at htake
          rw [htake, ← frame_length] at hsize
          omega

theorem unframed_stream (h : F.Short todo rest) (hpos : 0 < F.width) (hfuel : done.length ≤ fuel) :
    F.unframed fuel (F.stream done ++ rest) = rest := by
  induction done generalizing fuel with
  | nil => exact unframed_short fuel h hpos
  | cons f done ih =>
      cases fuel with
      | zero => cases hfuel
      | succ fuel =>
          rw [stream_cons, List.append_assoc, unframed_frame]
          exact ih (Nat.le_of_succ_le_succ hfuel)

theorem length_le_stream (hpos : 0 < F.width) (fs : List φ) : fs.length ≤ (F.stream fs).length := by
  induction fs with
  | nil => exact Nat.le_refl _
  | cons f fs ih =>
      have hlen := frame_length F f
      rw [stream_cons, List.length_append, List.length_cons]
      omega

end Framing

/-- A reader that gives out the frames which a segment completes, when what has arrived is ready for it. -/
structure FrameReader (F : Framing φ β) (σ : Type*) where
  read : σ → List β → σ × List (List β)
  Holds : σ → List β → Prop
  Ready : List β → Prop
  read_split : ∀ {r : σ} {rest segment rest' : List β} {done todo : List φ}, Holds r rest →
    rest ++ segment = F.stream done ++ rest' → F.Short todo rest' → Ready (rest ++ segment) →
    ∃ r', Holds r' rest' ∧ read r segment = (r', done.map F.payload)

/-- The bytes on the wire, and the reader at its end. -/
structure Link (β σ : Type*) where
  wire : List β
  reader : σ

namespace Link

variable {R : FrameReader F σ} {l : Link β σ} {queue : List φ} {n : ℕ}

def send (l : Link β σ) (bytes : List β) : Link β σ := { l with wire := l.wire ++ bytes }

/-- The first bytes of the wire arrive as one segment. -/
def deliver (read : σ → List β → σ × List (List β)) (n : ℕ) (l : Link β σ) : Link β σ × List (List β) :=
  let (r, out) := read l.reader (l.wire.take n)
  (⟨l.wire.drop n, r⟩, out)

/-- What the reader holds and what is on the wire are the frames of the queue. -/
def Carries (R : FrameReader F σ) (l : Link β σ) (queue : List φ) : Prop :=
  ∃ rest, R.Holds l.reader rest ∧ rest ++ l.wire = F.stream queue ∧ F.Short queue rest

theorem carries_nil {r : σ} (h : R.Holds r []) : Carries R ⟨[], r⟩ [] :=
  ⟨[], h, rfl, List.nil_prefix, fun f hf => by cases hf⟩

theorem Carries.send (h : l.Carries R queue) (hpos : 0 < F.width) (fs : List φ) :
    (l.send (F.stream fs)).Carries R (queue ++ fs) := by
  obtain ⟨rest, hholds, hbytes, hshort⟩ := h
  refine ⟨rest, hholds, ?_, ?_⟩
  · rw [Link.send, ← List.append_assoc, hbytes, Framing.stream_append]
  · cases queue with
    | nil =>
        rw [hshort.nil]
        exact Framing.short_nil hpos _
    | cons f queue =>
        refine ⟨?_, hshort.short⟩
        rw [Framing.stream_append]
        exact hshort.start.trans (List.prefix_append _ _)

/-- A segment takes the frames that it completes off the queue. -/
theorem Carries.deliver (h : l.Carries R queue)
    (hready : ∀ rest, R.Holds l.reader rest → R.Ready (rest ++ l.wire.take n)) :
    ∃ done todo, queue = done ++ todo ∧ (l.deliver R.read n).2 = done.map F.payload ∧
      (l.deliver R.read n).1.Carries R todo := by
  obtain ⟨rest, hholds, hbytes, -⟩ := h
  have hsplit : rest ++ l.wire.take n ++ l.wire.drop n = F.stream queue := by
    rw [List.append_assoc, List.take_append_drop, hbytes]
  obtain ⟨done, todo, rest', rfl, harrived, hshort⟩ :=
    Framing.exists_split (hsplit ▸ List.prefix_append (rest ++ l.wire.take n) (l.wire.drop n))
  obtain ⟨r', hholds', hread⟩ := R.read_split hholds harrived hshort (hready rest hholds)
  refine ⟨done, todo, rfl, ?_, rest', ?_, ?_, hshort⟩
  · rw [Link.deliver, hread]
  · rw [Link.deliver, hread]
    exact hholds'
  · rw [harrived, Framing.stream_append, List.append_assoc] at hsplit
    rw [Link.deliver, hread]
    exact List.append_cancel_left hsplit

end Link

end TermCollection
