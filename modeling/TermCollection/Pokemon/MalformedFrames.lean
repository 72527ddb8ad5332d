import TermCollection.Pokemon.NetworkHelper

/-!
# Malformed frames

The handler of the server takes the type out of the first four bytes of the data, and the body is the
rest. The reader hands over whatever the length word and the arrival of the bytes make of a stream.
-/

namespace TermCollection.Pokemon.Server

/-- The cases of `slotGetMessage`. -/
def handledTypes : List MessageType :=
  [.userSignUpRequest, .userLoginRequest, .userInfoRequest, .onlineUserListRequest, .pokemonDataRequest,
    .battleInviteRequest, .battleInviteResponse, .battleOperationInfo, .transferPokemonRequest,
    .battleGiveupInfo]

/-- The slot that `slotGetMessage` calls, with the bytes `CALL_SLOT` makes for it; the inner `none` is an
unknown type. A type or a body outside the data has no defined result. -/
def callSlot (data : List UInt8) : Option (Option (MessageType × List UInt8)) :=
  if 4 ≤ data.length then
    some ((handledTypes.find? fun type => type.ctorIdx = wordValue (data.take 4)).map fun type =>
      (type, data.drop 4))
  else none

theorem callSlot_isSome {data : List UInt8} : (callSlot data).isSome = true ↔ 4 ≤ data.length := by
  unfold callSlot
  split <;> simp [*]

/-- What has arrived is made of frames with at least four bytes of data each, and of a rest: a part of a
length word, or a length word with at least four bytes of what it announces. -/
inductive LongFrames : List UInt8 → Prop
  | rest {bytes : List UInt8} : bytes.length < 4 → LongFrames bytes
  | frame {body bytes : List UInt8} : 4 ≤ body.length → body.length < 2 ^ 32 → LongFrames bytes →
      LongFrames (wordBytes body.length ++ (body ++ bytes))
  | cut {part : List UInt8} {n : ℕ} : 4 ≤ part.length → part.length < n → n < 2 ^ 32 →
      LongFrames (wordBytes n ++ part)

variable {bytes segment : List UInt8} {fuel n : ℕ}

/-- One pass of the loop. -/
theorem readClientLoop_word (fuel : ℕ) (hn : n < 2 ^ 32) (bytes : List UInt8) :
    readClientLoop (fuel + 1) (wordBytes n ++ bytes) =
      ((readClientLoop fuel (bytes.drop n)).1, bytes.take n :: (readClientLoop fuel (bytes.drop n)).2) := by
  have hlen : 4 ≤ (wordBytes n ++ bytes).length := by
    rw [List.length_append, wordBytes_length]
    omega
  have htake : (wordBytes n ++ bytes).take 4 = wordBytes n := List.take_left' (wordBytes_length n)
  have hdrop : (wordBytes n ++ bytes).drop 4 = bytes := List.drop_left' (wordBytes_length n)
  rw [readClientLoop, if_pos hlen]
  simp only [htake, hdrop, wordValue_wordBytes hn]

theorem readClientLoop_rest (fuel : ℕ) (h : bytes.length < 4) : (readClientLoop fuel bytes).2 = [] := by
  cases fuel with
  | zero => rfl
  | succ fuel => rw [readClientLoop, if_neg (Nat.not_le.mpr h)]

theorem LongFrames.long (h : LongFrames bytes) :
    ∀ fuel, ∀ data ∈ (readClientLoop fuel bytes).2, 4 ≤ data.length := by
  induction h with
  | rest hlen =>
      intro fuel data hdata
      rw [readClientLoop_rest fuel hlen] at hdata
      cases hdata
  | frame hbody hsmall _ ih =>
      intro fuel data hdata
      cases fuel with
      | zero => cases hdata
      | succ fuel =>
          rw [readClientLoop_word fuel hsmall, List.take_left, List.drop_left] at hdata
          rcases List.mem_cons.mp hdata with rfl | hdata
          · exact hbody
          · exact ih fuel data hdata
  | @cut part n hpart hlt hsmall =>
      intro fuel data hdata
      cases fuel with
      | zero => cases hdata
      | succ fuel =>
          rw [readClientLoop_word fuel hsmall, List.take_of_length_le (Nat.le_of_lt hlt),
            List.drop_of_length_le (Nat.le_of_lt hlt), readClientLoop_rest fuel (by simp)] at hdata
          rw [List.mem_singleton.mp hdata]
          exact hpart

theorem longFrames_of_long (hfuel : bytes.length < fuel)
    (h : ∀ data ∈ (readClientLoop fuel bytes).2, 4 ≤ data.length) : LongFrames bytes := by
  induction fuel generalizing bytes with
  | zero => exact absurd hfuel (Nat.not_lt_zero _)
  | succ fuel ih =>
      by_cases hlen : 4 ≤ bytes.length
      · -- the length word and what has arrived behind it
        have hword : (bytes.take 4).length = 4 := List.length_take_of_le hlen
        have hsmall := wordValue_lt hword
        have hsplit : bytes = wordBytes (wordValue (bytes.take 4)) ++ bytes.drop 4 := by
          rw [wordBytes_wordValue hword, List.take_append_drop]
        generalize wordValue (bytes.take 4) = n at hsmall hsplit
        generalize hrest : bytes.drop 4 = rest at hsplit
        have hrestLen : rest.length + 4 = bytes.length := by
          rw [← hrest, List.length_drop]
          omega
        rw [hsplit, readClientLoop_word fuel hsmall] at h
        have hfirst := h _ List.mem_cons_self
        rw [List.length_take] at hfirst
        rw [hsplit]
        by_cases hn : n ≤ rest.length
        · have hframe : wordBytes n ++ rest =
              wordBytes (rest.take n).length ++ (rest.take n ++ rest.drop n) := by
            rw [List.length_take_of_le hn, List.take_append_drop]
          rw [hframe]
          refine .frame (by rw [List.length_take]; exact hfirst) ?_ (ih ?_ ?_)
          · rw [List.length_take_of_le hn]
            exact hsmall
          · rw [List.length_drop]
            omega
          · exact fun data hdata => h data (List.mem_cons_of_mem _ hdata)
        · exact .cut (by omega) (by omega) hsmall
      · exact .rest (by omega)

/-- A segment brings messages that have their type when the bytes it completes make frames that do. -/
theorem slotReadClient_long {buffer : List UInt8} :
    (∀ data ∈ (slotReadClient buffer segment).2, (callSlot data).isSome = true) ↔
      LongFrames (buffer ++ segment) := by
  simp only [callSlot_isSome]
  exact ⟨longFrames_of_long (Nat.lt_succ_self _), fun h => h.long _⟩

/-- All messages of a stream have their type exactly when that is so in every step. -/
theorem messages_have_their_type (segments : List (List UInt8)) :
    (∀ data ∈ (Framing.receive slotReadClient [] segments).2, (callSlot data).isSome = true) ↔
      ∀ before segment after, segments = before ++ segment :: after →
        LongFrames ((Framing.receive slotReadClient [] before).1 ++ segment) :=
  Framing.receive_forall (fun _ _ => slotReadClient_long) []

/-- A frame that announces nothing, and one that is cut off behind its length and one byte more. -/
theorem message_without_type :
    (slotReadClient [] [0, 0, 0, 0]).2 = [[]] ∧ callSlot [] = none ∧
      (slotReadClient [] [9, 0, 0, 0, 2]).2 = [[2]] ∧ callSlot [2] = none := by decide

end TermCollection.Pokemon.Server
