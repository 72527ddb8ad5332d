import TermCollection.Pokemon.NetworkHelper

/-!
# Segments of a stream of frames

TCP hands a stream over in segments. The reader of the server takes a message to be there as soon as its
length is; the reader of the client waits for the whole message.
-/

namespace TermCollection.Pokemon

variable {f : Frame} {fs done todo : List Frame} {t rest segment : List UInt8}
variable {segments : List (List UInt8)} {fuel : ℕ}

theorem payload_length (f : Frame) : f.payload.length = f.body.length + 4 := by
  rw [Frame.payload, List.length_append, wordBytes_length, Nat.add_comm]

/-- The frames of both directions. -/
def protocol : Framing Frame UInt8 where
  width := 4
  size := wordValue
  header := fun f => wordBytes (f.body.length + 4)
  payload := Frame.payload
  header_length := fun _ => rfl
  size_header := fun f => by
    have hsmall := f.small
    rw [wordValue_wordBytes (by omega), payload_length]

theorem stream_protocol (fs : List Frame) : protocol.stream fs = fs.flatMap procProtodata := rfl

theorem frame_drop (f : Frame) (t : List UInt8) : (protocol.frame f ++ t).drop 4 = f.payload ++ t := by
  rw [Framing.frame, List.append_assoc]
  exact List.drop_left' (protocol.header_length f)

theorem frame_take (f : Frame) (t : List UInt8) :
    wordValue ((protocol.frame f ++ t).take 4) = f.payload.length := by
  have htake : (protocol.header f ++ (protocol.payload f ++ t)).take 4 = protocol.header f :=
    List.take_left' (protocol.header_length f)
  rw [Framing.frame, List.append_assoc, htake]
  exact protocol.size_header f

theorem length_frame (f : Frame) : (protocol.frame f).length = f.payload.length + 4 := by
  rw [Framing.frame_length, Nat.add_comm]
  rfl

theorem length_stream (fs : List Frame) : 8 * fs.length ≤ (protocol.stream fs).length := by
  induction fs with
  | nil => exact Nat.zero_le _
  | cons f fs ih =>
      rw [Framing.stream_cons, List.length_append, length_frame, payload_length, List.length_cons]
      omega

/-- A part of a frame that has its header. -/
theorem part_of_frame (hpart : rest <+: protocol.frame f) (hlt : rest.length < (protocol.frame f).length)
    (hlen : 4 ≤ rest.length) :
    rest = wordBytes f.payload.length ++ rest.drop 4 ∧ wordValue (rest.take 4) = f.payload.length ∧
      (rest.drop 4).length < f.payload.length := by
  obtain ⟨t, ht⟩ := hpart
  have htake : rest.take 4 = wordBytes f.payload.length := by
    have hframe : (rest ++ t).take 4 = rest.take 4 := List.take_append_of_le_length hlen
    rw [← hframe, ht, payload_length]
    exact List.take_left' (protocol.header_length f)
  have hvalue := frame_take f []
  rw [List.append_nil, ← ht, List.take_append_of_le_length hlen] at hvalue
  rw [length_frame] at hlt
  refine ⟨?_, hvalue, ?_⟩
  · rw [← htake, List.take_append_drop]
  · rw [List.length_drop]
    omega

/-! ## The server -/

namespace Server

theorem readClientLoop_frame (fuel : ℕ) (f : Frame) (t : List UInt8) :
    readClientLoop (fuel + 1) (protocol.frame f ++ t) =
      ((readClientLoop fuel t).1, f.payload :: (readClientLoop fuel t).2) := by
  have hlen : 4 ≤ (protocol.frame f ++ t).length := by
    rw [List.length_append, length_frame]
    omega
  rw [readClientLoop, if_pos hlen]
  simp only [frame_take, frame_drop, List.drop_left, List.take_left]

theorem readClientLoop_stream (fuel : ℕ) (done : List Frame) (t : List UInt8) :
    readClientLoop (done.length + fuel) (protocol.stream done ++ t) =
      ((readClientLoop fuel t).1, done.map Frame.payload ++ (readClientLoop fuel t).2) := by
  induction done with
  | nil => rw [List.length_nil, Nat.zero_add]; rfl
  | cons f done ih =>
      rw [Framing.stream_cons, List.append_assoc, List.length_cons, Nat.add_right_comm,
        readClientLoop_frame, ih, List.map_cons, List.cons_append]

theorem readClientLoop_short (fuel : ℕ) (h : rest.length < 4) :
    readClientLoop fuel rest = (rest, []) := by
  cases fuel with
  | zero => rfl
  | succ fuel => rw [readClientLoop, if_neg (Nat.not_le.mpr h)]

/-- A frame whose length has arrived is taken as it is. -/
theorem readClientLoop_truncated (fuel : ℕ) (hpart : rest <+: protocol.frame f)
    (hlt : rest.length < (protocol.frame f).length) (hlen : 4 ≤ rest.length) :
    ∃ buffer out, readClientLoop (fuel + 1) rest = (buffer, rest.drop 4 :: out) := by
  obtain ⟨-, hsize, hdrop⟩ := part_of_frame hpart hlt hlen
  have htake : (rest.drop 4).take f.payload.length = rest.drop 4 :=
    List.take_of_length_le (Nat.le_of_lt hdrop)
  rw [readClientLoop, if_pos hlen]
  simp only [hsize, htake]
  exact ⟨_, _, rfl⟩

/-- A segment completes some frames; what the loop makes of the rest is left open. -/
theorem slotReadClient_split (h : rest ++ segment <+: protocol.stream fs) :
    ∃ done todo rest' fuel, fs = done ++ todo ∧ protocol.Short todo rest' ∧
      rest ++ segment = protocol.stream done ++ rest' ∧
      slotReadClient rest segment = ((readClientLoop (fuel + 1) rest').1,
        done.map Frame.payload ++ (readClientLoop (fuel + 1) rest').2) := by
  obtain ⟨done, todo, rest', rfl, hsplit, hshort⟩ := Framing.exists_split h
  refine ⟨done, todo, rest', (protocol.stream done ++ rest').length - done.length, rfl, hshort, hsplit, ?_⟩
  have hlen := length_stream done
  rw [← readClientLoop_stream, slotReadClient, hsplit]
  congr 1
  rw [List.length_append]
  omega

/-- When every segment ends less than four bytes behind a completed frame, the messages are those of the
completed frames. -/
theorem receive_aligned (h : rest ++ segments.flatten <+: protocol.stream fs)
    (hshort : protocol.Short fs rest)
    (hall : ∀ k, protocol.pending fs (rest ++ (segments.take k).flatten).length < 4) :
    (Framing.receive slotReadClient rest segments).2 =
      (protocol.completed fs (rest ++ segments.flatten).length).map Frame.payload := by
  induction segments generalizing rest fs with
  | nil => rw [List.flatten_nil, List.append_nil, hshort.completed]; rfl
  | cons segment segments ih =>
      rw [List.flatten_cons, ← List.append_assoc] at h
      obtain ⟨done, todo, rest', fuel, rfl, hshort', hsplit, hread⟩ :=
        slotReadClient_split ((List.prefix_append _ _).trans h)
      have hnext : ∀ k, protocol.pending todo (rest' ++ (segments.take k).flatten).length < 4 := by
        intro k
        have hk := hall (k + 1)
        rwa [List.take_succ_cons, List.flatten_cons, ← List.append_assoc, hsplit, List.append_assoc,
          List.length_append, Framing.pending_append] at hk
      have hlt : rest'.length < 4 := by
        have hzero := hnext 0
        rwa [List.take_zero, List.flatten_nil, List.append_nil, hshort'.pending] at hzero
      rw [hsplit, Framing.stream_append, List.append_assoc, List.prefix_append_right_inj] at h
      rw [Framing.receive, hread, readClientLoop_short _ hlt, List.flatten_cons, ← List.append_assoc,
        hsplit, List.append_assoc, List.length_append, Framing.completed_append, List.map_append]
      simp only [List.append_nil, ih h hshort' hnext]

/-- A segment that ends later makes a message too short. -/
theorem aligned_of_receive (h : rest ++ segments.flatten = protocol.stream fs)
    (hshort : protocol.Short fs rest) (hlt : rest.length < 4)
    (hout : (Framing.receive slotReadClient rest segments).2 = fs.map Frame.payload) (k : ℕ) :
    protocol.pending fs (rest ++ (segments.take k).flatten).length < 4 := by
  induction segments generalizing rest fs k with
  | nil => rwa [List.take_nil, List.flatten_nil, List.append_nil, hshort.pending]
  | cons segment segments ih =>
      rw [List.flatten_cons, ← List.append_assoc] at h
      obtain ⟨done, todo, rest', fuel, rfl, hshort', hsplit, hread⟩ :=
        slotReadClient_split (h ▸ List.prefix_append _ _)
      rw [hsplit, Framing.stream_append, List.append_assoc] at h
      rw [Framing.receive, hread] at hout
      simp only [List.map_append, List.append_assoc, List.append_cancel_left_eq] at hout
      have hlt' : rest'.length < 4 := by
        by_contra hge
        rw [Nat.not_lt] at hge
        cases todo with
        | nil => rw [hshort'.nil] at hge; cases hge
        | cons f todo =>
            have hf := hshort'.short f rfl
            obtain ⟨buffer, out, htrunc⟩ := readClientLoop_truncated fuel hshort'.frame hf hge
            rw [htrunc, List.cons_append, List.map_cons, List.cons.injEq] at hout
            have hlen := congrArg List.length hout.1
            rw [List.length_drop] at hlen
            rw [length_frame] at hf
            omega
      rw [readClientLoop_short _ hlt', List.nil_append] at hout
      cases k with
      | zero => rwa [List.take_zero, List.flatten_nil, List.append_nil, hshort.pending]
      | succ k =>
          rw [List.take_succ_cons, List.flatten_cons, ← List.append_assoc, hsplit, List.append_assoc,
            List.length_append, Framing.pending_append]
          exact ih (List.append_cancel_left h) hshort' hlt' hout k

/-- The server reads a stream of frames right exactly when no segment ends inside a frame whose length
has arrived, and then every message comes as soon as its frame is complete. -/
theorem whole_frames_read (fs : List Frame) (segments : List (List UInt8))
    (h : segments.flatten = fs.flatMap procProtodata) :
    ((Framing.receive slotReadClient [] segments).2 = fs.map Frame.payload ↔
        ∀ k, protocol.pending fs (segments.take k).flatten.length < 4) ∧
      ((∀ k, protocol.pending fs (segments.take k).flatten.length < 4) →
        ∀ k, (Framing.receive slotReadClient [] (segments.take k)).2 =
          (protocol.completed fs (segments.take k).flatten.length).map Frame.payload) := by
  have hshort := Framing.short_nil (F := protocol) (Nat.zero_lt_succ 3) fs
  have haligned : (∀ k, protocol.pending fs (segments.take k).flatten.length < 4) →
      ∀ k, (Framing.receive slotReadClient [] (segments.take k)).2 =
        (protocol.completed fs (segments.take k).flatten.length).map Frame.payload := by
    intro hall k
    have hprefix : [] ++ (segments.take k).flatten <+: protocol.stream fs := by
      rw [List.nil_append, stream_protocol, ← h]
      exact ⟨(segments.drop k).flatten, by rw [← List.flatten_append, List.take_append_drop]⟩
    apply receive_aligned hprefix hshort
    intro j
    rw [List.nil_append, List.take_take]
    exact hall _
  refine ⟨⟨fun hout => ?_, fun hall => ?_⟩, haligned⟩
  · rw [← List.nil_append segments.flatten] at h
    exact aligned_of_receive h hshort (Nat.zero_lt_succ 3) hout
  · have hend := haligned hall segments.length
    rwa [List.take_length, h, ← stream_protocol, Framing.completed_stream] at hend

/-- A sign-up with one byte of data. -/
def signUp : Frame := ⟨.userSignUpRequest, [7], by decide⟩

theorem whole_frames_read_example :
    (Framing.receive slotReadClient [] [[5, 0], [0, 0, 0, 0, 0, 0, 7]]).2 = [signUp.payload] :=
  (whole_frames_read [signUp] [[5, 0], [0, 0, 0, 0, 0, 0, 7]] (by decide +kernel)).1.mpr fun k => by
      match k with
      | 0 => decide +kernel
      | 1 => decide +kernel
      | k + 2 => rw [List.take_of_length_le (Nat.le_add_left 2 k)]; decide +kernel

/-- A cut behind the length: the message loses what comes after the cut, which is then taken for the
length of another one. -/
theorem cut_frame_misread :
    [[5, 0, 0, 0, 0], [0, 0, 0, 7]].flatten = [signUp].flatMap procProtodata ∧
      (Framing.receive slotReadClient [] [[5, 0, 0, 0, 0], [0, 0, 0, 7]]).2 = [[0], []] ∧
      (Framing.receive slotReadClient [] [[5, 0, 0, 0, 0], [0, 0, 0, 7]]).2 ≠
        [signUp].map Frame.payload := by
  decide +kernel

end Server

/-! ## The client -/

namespace Client

namespace NetworkHelper

variable {helper : NetworkHelper}

/-- What was not given out yet: with the length of the message that `readyRead` waits for. -/
def unread (helper : NetworkHelper) : List UInt8 :=
  if helper.flag then helper.buffer else wordBytes helper.length ++ helper.buffer

/-- The helper has yet to give out the bytes. -/
structure Holds (helper : NetworkHelper) (t : List UInt8) : Prop where
  unread : helper.unread = t
  length_lt : helper.flag = false → helper.length < 2 ^ 32

theorem payload_pos (f : Frame) : ¬ f.payload.length ≤ 0 := by
  rw [payload_length]
  omega

/-- The length that `readyRead` waits for is that of the first frame. -/
theorem Holds.length_eq (h : helper.Holds t) (hflag : helper.flag = false) (rest : List UInt8)
    (ht : t = wordBytes f.payload.length ++ rest) :
    helper.length = f.payload.length ∧ helper.buffer = rest := by
  have hunread := h.unread
  rw [NetworkHelper.unread, hflag, ht] at hunread
  obtain ⟨hword, hbuffer⟩ := List.append_inj hunread rfl
  have hsmall := f.small
  have hpayload := payload_length f
  have hvalue := congrArg wordValue hword
  rw [wordValue_wordBytes (h.length_lt hflag), wordValue_wordBytes (by omega)] at hvalue
  exact ⟨hvalue, hbuffer⟩

/-- A whole frame is given out. -/
theorem Holds.frame (h : helper.Holds (protocol.frame f ++ t)) :
    ∃ helper' : NetworkHelper, helper'.Holds t ∧ ∀ fuel, readLoop (fuel + 1) helper =
      ((readLoop fuel helper').1, f.payload :: (readLoop fuel helper').2) := by
  have hsize := frame_take f t
  have hpos := payload_pos f
  have hlen : 4 ≤ f.payload.length := by
    rw [payload_length]
    omega
  refine ⟨{ helper with flag := true, buffer := t, length := f.payload.length },
    ⟨rfl, fun hflag => by cases hflag⟩, fun fuel => ?_⟩
  cases hflag : helper.flag with
  | true =>
      have hbuffer : helper.buffer = protocol.frame f ++ t := by
        have hunread := h.unread
        rwa [NetworkHelper.unread, hflag, if_pos rfl] at hunread
      have hguard : 4 ≤ helper.buffer.length := by
        rw [hbuffer, List.length_append, length_frame]
        omega
      rw [readLoop, if_pos hguard]
      simp only [readLength, hflag, ↓reduceIte, hbuffer, hsize, frame_drop, hpos, List.length_append,
        Nat.le_add_right, List.drop_left, List.take_left]
  | false =>
      obtain ⟨hlength, hbuffer⟩ := h.length_eq hflag (f.payload ++ t) (by
        rw [Framing.frame, List.append_assoc, payload_length]
        rfl)
      have hguard : 4 ≤ helper.buffer.length := by
        rw [hbuffer, List.length_append]
        omega
      rw [readLoop, if_pos hguard]
      simp only [readLength, hflag, Bool.false_eq_true, ↓reduceIte, hbuffer, hlength, hpos, List.length_append,
        Nat.le_add_right, List.drop_left, List.take_left]

/-- Less than a frame is kept. -/
theorem Holds.short (h : helper.Holds rest) (hshort : protocol.Short todo rest) :
    ∃ helper' : NetworkHelper, helper'.Holds rest ∧ ∀ fuel, readLoop (fuel + 1) helper = (helper', []) := by
  by_cases hguard : 4 ≤ helper.buffer.length
  · have hlen : 4 ≤ rest.length := by
      have hunread := h.unread
      rw [NetworkHelper.unread] at hunread
      rw [← hunread]
      split
      · exact hguard
      · rw [List.length_append]
        omega
    cases todo with
    | nil => rw [hshort.nil] at hlen; cases hlen
    | cons f todo =>
        obtain ⟨hword, hsize, hdrop⟩ := part_of_frame hshort.frame (hshort.short f rfl) hlen
        have hpos := payload_pos f
        have hlarge := Nat.not_le.mpr hdrop
        refine ⟨{ helper with flag := false, buffer := rest.drop 4, length := f.payload.length },
          ⟨hword.symm, fun _ => ?_⟩, fun fuel => ?_⟩
        · have hsmall := f.small
          have hpayload := payload_length f
          show f.payload.length < 2 ^ 32
          omega
        · rw [readLoop, if_pos hguard]
          cases hflag : helper.flag with
          | true =>
              have hbuffer : helper.buffer = rest := by
                have hunread := h.unread
                rwa [NetworkHelper.unread, hflag, if_pos rfl] at hunread
              simp only [readLength, hflag, ↓reduceIte, hbuffer, hsize, hpos, hlarge]
          | false =>
              obtain ⟨hlength, hbuffer⟩ := h.length_eq hflag _ hword
              simp only [readLength, hflag, Bool.false_eq_true, ↓reduceIte, hbuffer, hlength, hpos, hlarge]
  · exact ⟨helper, h, fun fuel => by rw [readLoop, if_neg hguard]⟩

theorem Holds.stream (h : helper.Holds (protocol.stream done ++ rest)) (hshort : protocol.Short todo rest) :
    ∃ helper' : NetworkHelper, helper'.Holds rest ∧
      ∀ fuel, readLoop (done.length + (fuel + 1)) helper = (helper', done.map Frame.payload) := by
  induction done generalizing helper with
  | nil =>
      obtain ⟨helper', h', hread⟩ := h.short hshort
      exact ⟨helper', h', fun fuel => by rw [List.length_nil, Nat.zero_add, hread]; rfl⟩
  | cons f done ih =>
      rw [Framing.stream_cons, List.append_assoc] at h
      obtain ⟨helper₁, h₁, hread₁⟩ := h.frame
      obtain ⟨helper', h', hread⟩ := ih h₁
      refine ⟨helper', h', fun fuel => ?_⟩
      rw [List.length_cons, Nat.add_right_comm, hread₁, hread]
      rfl

/-- A segment completes some frames, and the rest is kept. -/
theorem Holds.readyRead (h : helper.Holds rest) {rest' : List UInt8}
    (hsplit : rest ++ segment = protocol.stream done ++ rest') (hshort : protocol.Short todo rest') :
    ∃ helper' : NetworkHelper, helper'.Holds rest' ∧
      helper.readyRead segment = (helper', done.map Frame.payload) := by
  have harrived : NetworkHelper.Holds { helper with buffer := helper.buffer ++ segment }
      (protocol.stream done ++ rest') := by
    refine ⟨?_, h.length_lt⟩
    rw [← hsplit, ← h.unread, NetworkHelper.unread, NetworkHelper.unread]
    split
    · rfl
    · rw [List.append_assoc]
  obtain ⟨helper', h', hread⟩ := harrived.stream hshort
  have hfuel : done.length ≤ (helper.buffer ++ segment).length := by
    have hdone := length_stream done
    have htotal := congrArg List.length hsplit
    have hrest : rest.length ≤ helper.buffer.length + 4 := by
      rw [← h.unread, NetworkHelper.unread]
      split
      · exact Nat.le_add_right _ _
      · rw [List.length_append, wordBytes_length, Nat.add_comm]
    rw [List.length_append, List.length_append] at htotal
    rw [List.length_append]
    omega
  refine ⟨helper', h', ?_⟩
  have hloop := hread ((helper.buffer ++ segment).length - done.length)
  rwa [← Nat.add_assoc, Nat.add_sub_cancel' hfuel] at hloop

theorem Holds.receive (h : helper.Holds rest) (hshort : protocol.Short fs rest)
    (hstream : rest ++ segments.flatten <+: protocol.stream fs) :
    (Framing.receive NetworkHelper.readyRead helper segments).2 =
        (protocol.completed fs (rest ++ segments.flatten).length).map Frame.payload ∧
      ∃ rest', rest ++ segments.flatten =
          protocol.stream (protocol.completed fs (rest ++ segments.flatten).length) ++ rest' ∧
        (Framing.receive NetworkHelper.readyRead helper segments).1.Holds rest' := by
  induction segments generalizing helper rest fs with
  | nil =>
      rw [List.flatten_nil, List.append_nil, hshort.completed]
      exact ⟨rfl, rest, rfl, h⟩
  | cons segment segments ih =>
      rw [List.flatten_cons, ← List.append_assoc] at hstream ⊢
      obtain ⟨done, todo, rest₁, rfl, hsplit, hshort₁⟩ :=
        Framing.exists_split ((List.prefix_append _ _).trans hstream)
      obtain ⟨helper₁, h₁, hread⟩ := h.readyRead hsplit hshort₁
      rw [hsplit, Framing.stream_append, List.append_assoc, List.prefix_append_right_inj] at hstream
      obtain ⟨hout, rest', hrest', h'⟩ := ih h₁ hshort₁ hstream
      rw [hsplit, List.append_assoc, List.length_append, Framing.completed_append, Framing.receive, hread]
      refine ⟨?_, rest', ?_, h'⟩
      · simp only [hout, List.map_append]
      · rw [Framing.stream_append, List.append_assoc, ← hrest']

end NetworkHelper

/-- On a connection that starts with the flag set, the client gives out every frame as soon as it is
complete, and keeps what comes after the last one. -/
theorem readyRead_decodes (helper : NetworkHelper) (fs : List Frame) (segments : List (List UInt8))
    (hflag : helper.flag = true) (hbuffer : helper.buffer = [])
    (h : segments.flatten <+: fs.flatMap procProtodata) :
    (Framing.receive NetworkHelper.readyRead helper segments).2 =
        (protocol.completed fs segments.flatten.length).map Frame.payload ∧
      segments.flatten = protocol.stream (protocol.completed fs segments.flatten.length) ++
        (Framing.receive NetworkHelper.readyRead helper segments).1.unread := by
  have hstart : helper.Holds [] := by
    refine ⟨?_, fun hf => by rw [hflag] at hf; cases hf⟩
    rw [NetworkHelper.unread, hflag, if_pos rfl, hbuffer]
  have hshort := Framing.short_nil (F := protocol) (Nat.zero_lt_succ 3) fs
  rw [← List.nil_append segments.flatten] at h
  obtain ⟨hout, rest, hrest, hholds⟩ := hstart.receive hshort h
  rw [List.nil_append] at hout hrest
  exact ⟨hout, hholds.unread ▸ hrest⟩

/-- The sign-up in three segments, cut within the length and within the data. -/
theorem readyRead_decodes_example :
    (Framing.receive NetworkHelper.readyRead newNetworkHelper [[5, 0], [0, 0, 0, 0, 0], [0, 7]]).2 =
      [[0, 0, 0, 0, 7]] := by
  have hall := (readyRead_decodes newNetworkHelper [⟨.userSignUpRequest, [7], by decide⟩]
    [[5, 0], [0, 0, 0, 0, 0], [0, 7]] rfl rfl (by decide +kernel)).1
  rw [hall]
  decide +kernel

end Client

end TermCollection.Pokemon
