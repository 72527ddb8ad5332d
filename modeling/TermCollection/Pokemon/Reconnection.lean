import TermCollection.Pokemon.NetworkHelper

/-!
# Two connections after one another

`readyRead` keeps its place within a message in static variables, which outlive the connection.
-/

namespace TermCollection.Pokemon.Client

variable {helper helper₁ helper₂ cut₁ cut₂ : NetworkHelper} {segment : List UInt8} {fuel : ℕ}
variable {tr tr₁ tr₂ : List (Event × List (List UInt8))}

/-- The connection breaks, the heart beat starts a new one, and it is established. -/
def reconnection : List Event := [.connected, .heartBeat, .disconnected]

namespace NetworkHelper

/-- The length of a message of which only the beginning has arrived. -/
def halfRead (helper : NetworkHelper) : Option ℕ := if helper.flag then none else some helper.length

def reconnect (helper : NetworkHelper) : NetworkHelper :=
  Machine.stateAfter helperStep Machine.always helper reconnection

theorem exec_reconnection (h : helper.state = .connected) :
    Machine.exec helperStep Machine.always helper reconnection =
      some ({ helper with buffer := [], status := true },
        [(.connected, []), (.heartBeat, []), (.disconnected, [])]) := by
  simp [Machine.exec, reconnection, Machine.always, helperStep, h, closeConnection, checkAndReconnect,
    connect2host, connected]

theorem reconnect_eq (h : helper.state = .connected) :
    helper.reconnect = { helper with buffer := [], status := true } := by
  rw [reconnect, Machine.stateAfter, exec_reconnection h]
  rfl

/-! ## What the messages depend on -/

/-- The helpers read alike. -/
structure Alike (helper₁ helper₂ : NetworkHelper) : Prop where
  buffer : helper₁.buffer = helper₂.buffer
  halfRead : helper₁.halfRead = helper₂.halfRead

theorem Alike.flag (h : Alike helper₁ helper₂) : helper₁.flag = helper₂.flag := by
  have hhalf := h.halfRead
  rw [NetworkHelper.halfRead, NetworkHelper.halfRead] at hhalf
  cases h₁ : helper₁.flag <;> cases h₂ : helper₂.flag <;> simp [h₁, h₂] at hhalf ⊢

theorem Alike.length (h : Alike helper₁ helper₂) (hflag : helper₁.flag = false) :
    helper₁.length = helper₂.length := by
  have hhalf := h.halfRead
  have hflag₂ := h.flag ▸ hflag
  simpa [NetworkHelper.halfRead, hflag, hflag₂] using hhalf

theorem Alike.readLength (h : Alike helper₁ helper₂) :
    helper₁.readLength.buffer = helper₂.readLength.buffer ∧
      helper₁.readLength.length = helper₂.readLength.length := by
  rw [NetworkHelper.readLength, NetworkHelper.readLength, ← h.flag, ← h.buffer]
  cases hflag : helper₁.flag with
  | true => exact ⟨rfl, rfl⟩
  | false => exact ⟨h.buffer, h.length hflag⟩

theorem Alike.readLoop (h : Alike helper₁ helper₂) (fuel : ℕ) :
    Alike (readLoop fuel helper₁).1 (readLoop fuel helper₂).1 ∧
      (readLoop fuel helper₁).2 = (readLoop fuel helper₂).2 := by
  induction fuel generalizing helper₁ helper₂ with
  | zero => exact ⟨h, rfl⟩
  | succ fuel ih =>
      obtain ⟨hbuffer, hlength⟩ := h.readLength
      rw [NetworkHelper.readLoop, NetworkHelper.readLoop, ← h.buffer]
      generalize helper₁.readLength = next₁ at *
      generalize helper₂.readLength = next₂ at *
      obtain ⟨state₁, buffer, status₁, flag₁, length⟩ := next₁
      obtain ⟨state₂, buffer₂, status₂, flag₂, length₂⟩ := next₂
      obtain rfl : buffer = buffer₂ := hbuffer
      obtain rfl : length = length₂ := hlength
      split
      · simp only
        split
        · exact ih ⟨rfl, rfl⟩
        · split
          · have hafter : Alike ⟨state₁, buffer.drop length, status₁, true, length⟩
                ⟨state₂, buffer.drop length, status₂, true, length⟩ := ⟨rfl, rfl⟩
            obtain ⟨hnext, hout⟩ := ih hafter
            exact ⟨hnext, congrArg (buffer.take length :: ·) hout⟩
          · exact ⟨⟨rfl, rfl⟩, rfl⟩
      · exact ⟨h, rfl⟩

theorem Alike.receive (h : Alike helper₁ helper₂) (segments : List (List UInt8)) :
    (Framing.receive readyRead helper₁ segments).2 = (Framing.receive readyRead helper₂ segments).2 := by
  induction segments generalizing helper₁ helper₂ with
  | nil => rfl
  | cons segment segments ih =>
      have harrived : Alike { helper₁ with buffer := helper₁.buffer ++ segment }
          { helper₂ with buffer := helper₂.buffer ++ segment } :=
        ⟨by simp only [h.buffer], h.halfRead⟩
      obtain ⟨hnext, hout⟩ := harrived.readLoop ((helper₁.buffer ++ segment).length + 1)
      have hread : (readyRead helper₁ segment).2 = (readyRead helper₂ segment).2 := by
        rw [readyRead, readyRead, hout, h.buffer]
      have hstate : Alike (readyRead helper₁ segment).1 (readyRead helper₂ segment).1 := by
        rw [readyRead, readyRead]
        rwa [← h.buffer] at hnext ⊢
      simp only [Framing.receive, hread, ih hstate]

/-! ## The first message after a cut -/

theorem readyRead_fresh (hflag : helper.flag = true) (hbuffer : helper.buffer = []) :
    (readyRead helper [4, 0, 0, 0, 1, 2, 3, 4]).2.head? = some [1, 2, 3, 4] := by
  have hsize : wordValue [4, 0, 0, 0] = 4 := by decide
  simp [readyRead, readLoop, readLength, hflag, hbuffer, hsize]

/-- The first bytes of the new connection go into the message of the old one. -/
theorem readyRead_halfRead (hflag : helper.flag = false) (hbuffer : helper.buffer = [])
    (hpos : 0 < helper.length) (hlen : 4 ≤ segment.length) :
    (readyRead helper segment).2.head? =
      if helper.length ≤ segment.length then some (segment.take helper.length) else none := by
  have hne : ¬ helper.length ≤ 0 := Nat.not_le.mpr hpos
  rw [readyRead, readLoop, readLength]
  simp only [hbuffer, List.nil_append, hlen, hflag, Bool.false_eq_true, ↓reduceIte, hne]
  split <;> rfl

/-- The length that the reader waits for is not zero. -/
def Waits (helper : NetworkHelper) : Prop := helper.flag = false → 0 < helper.length

theorem Waits.readLoop (h : helper.Waits) (fuel : ℕ) : (readLoop fuel helper).1.Waits := by
  induction fuel generalizing helper with
  | zero => exact h
  | succ fuel ih =>
      rw [NetworkHelper.readLoop]
      split
      · simp only
        split
        · exact ih fun hf => by cases hf
        · rename_i hpos
          split
          · exact ih fun hf => by cases hf
          · exact fun _ => Nat.lt_of_not_le hpos
      · exact h

theorem Waits.step {e : Event} {out : List (List UInt8)} {helper' : NetworkHelper} (h : helper.Waits)
    (hs : helperStep helper e = some (helper', out)) : helper'.Waits := by
  cases e with
  | readyRead segment =>
      simp only [helperStep, Option.ite_none_right_eq_some, Option.some.injEq] at hs
      obtain ⟨-, hread⟩ := hs
      have harrived : Waits { helper with buffer := helper.buffer ++ segment } := h
      have hloop := harrived.readLoop ((helper.buffer ++ segment).length + 1)
      rw [readyRead] at hread
      rwa [hread] at hloop
  | disconnected =>
      simp only [helperStep, closeConnection, Option.ite_none_right_eq_some, Option.some.injEq,
        Prod.mk.injEq] at hs
      obtain ⟨-, rfl, -⟩ := hs
      exact h
  | heartBeat =>
      simp only [helperStep, checkAndReconnect, connect2host, Option.some.injEq, Prod.mk.injEq] at hs
      obtain ⟨rfl, -⟩ := hs
      split
      · split <;> exact h
      · exact h
  | connected =>
      simp only [helperStep, connected, Option.ite_none_right_eq_some, Option.some.injEq,
        Prod.mk.injEq] at hs
      obtain ⟨-, rfl, -⟩ := hs
      exact h
  | timeout =>
      simp only [helperStep, connectionTimeout, abort, Option.some.injEq, Prod.mk.injEq] at hs
      obtain ⟨rfl, -⟩ := hs
      split <;> exact h

theorem waits_of_run (h : helperStep.AnyRun newNetworkHelper helper tr) : helper.Waits :=
  h.stateInvariant (fun hf => by cases hf) fun _ _ _ _ hw _ hs => hw.step hs

theorem receive_singleton (helper : NetworkHelper) (segment : List UInt8) :
    (Framing.receive readyRead helper [segment]).2 = (readyRead helper segment).2 := by
  simp only [Framing.receive, List.append_nil]

/-- A reader that waits within a message does not read as one that starts anew. -/
theorem fresh_ne_halfRead (hflag₁ : helper₁.flag = true) (hbuffer₁ : helper₁.buffer = [])
    (hflag₂ : helper₂.flag = false) (hbuffer₂ : helper₂.buffer = []) (hpos : 0 < helper₂.length) :
    (readyRead helper₁ [4, 0, 0, 0, 1, 2, 3, 4]).2 ≠ (readyRead helper₂ [4, 0, 0, 0, 1, 2, 3, 4]).2 := by
  intro heq
  have hhead := congrArg List.head? heq
  rw [readyRead_fresh hflag₁ hbuffer₁, readyRead_halfRead hflag₂ hbuffer₂ hpos (by decide)] at hhead
  split at hhead
  · cases hlength : helper₂.length with
    | zero => rw [hlength] at hpos; cases hpos
    | succ k =>
        rw [hlength, List.take_succ_cons, Option.some.injEq, List.cons.injEq] at hhead
        exact absurd hhead.1 (by decide)
  · cases hhead

/-- Nor do two readers that wait for messages of different lengths read alike. -/
theorem halfRead_ne (hflag₁ : helper₁.flag = false) (hbuffer₁ : helper₁.buffer = [])
    (hpos : 0 < helper₁.length) (hflag₂ : helper₂.flag = false) (hbuffer₂ : helper₂.buffer = [])
    (hlt : helper₁.length < helper₂.length) :
    (readyRead helper₁ (List.replicate (helper₁.length + 4) 0)).2 ≠
      (readyRead helper₂ (List.replicate (helper₁.length + 4) 0)).2 := by
  intro heq
  have hhead := congrArg List.head? heq
  have hlen : 4 ≤ (List.replicate (helper₁.length + 4) (0 : UInt8)).length := by
    rw [List.length_replicate]
    exact Nat.le_add_left _ _
  rw [readyRead_halfRead hflag₁ hbuffer₁ hpos hlen,
    readyRead_halfRead hflag₂ hbuffer₂ (Nat.lt_trans hpos hlt) hlen, List.length_replicate,
    if_pos (Nat.le_add_right _ _)] at hhead
  split at hhead
  · have hlengths := congrArg List.length (Option.some.inj hhead)
    simp only [List.length_take, List.length_replicate] at hlengths
    omega
  · cases hhead

theorem halfRead_of_receive (h₁ : helper₁.Waits) (h₂ : helper₂.Waits) (hbuffer₁ : helper₁.buffer = [])
    (hbuffer₂ : helper₂.buffer = []) (hsame : ∀ segments : List (List UInt8),
      (Framing.receive readyRead helper₁ segments).2 = (Framing.receive readyRead helper₂ segments).2) :
    helper₁.halfRead = helper₂.halfRead := by
  have hone : ∀ segment, (readyRead helper₁ segment).2 = (readyRead helper₂ segment).2 := by
    intro segment
    have hsegment := hsame [segment]
    rwa [receive_singleton, receive_singleton] at hsegment
  rw [NetworkHelper.halfRead, NetworkHelper.halfRead]
  cases hflag₁ : helper₁.flag with
  | true =>
      cases hflag₂ : helper₂.flag with
      | true => rfl
      | false => exact absurd (hone _) (fresh_ne_halfRead hflag₁ hbuffer₁ hflag₂ hbuffer₂ (h₂ hflag₂))
  | false =>
      cases hflag₂ : helper₂.flag with
      | true =>
          exact absurd (hone _).symm (fresh_ne_halfRead hflag₂ hbuffer₂ hflag₁ hbuffer₁ (h₁ hflag₁))
      | false =>
          rcases Nat.lt_trichotomy helper₁.length helper₂.length with hlt | heq | hlt
          · exact absurd (hone _) (halfRead_ne hflag₁ hbuffer₁ (h₁ hflag₁) hflag₂ hbuffer₂ hlt)
          · rw [heq]
          · exact absurd (hone _).symm (halfRead_ne hflag₂ hbuffer₂ (h₂ hflag₂) hflag₁ hbuffer₁ hlt)

end NetworkHelper

open NetworkHelper

/-- Two connections that end anywhere are followed by the same messages, whatever arrives then, exactly
when both ended between two messages, or in two messages of the same length. -/
theorem reconnect_clean (h₁ : helperStep.AnyRun newNetworkHelper cut₁ tr₁)
    (h₂ : helperStep.AnyRun newNetworkHelper cut₂ tr₂) (hcut₁ : cut₁.state = .connected)
    (hcut₂ : cut₂.state = .connected) :
    (∀ segments : List (List UInt8), (Framing.receive readyRead cut₁.reconnect segments).2 =
        (Framing.receive readyRead cut₂.reconnect segments).2) ↔ cut₁.halfRead = cut₂.halfRead := by
  have hwaits₁ := waits_of_run h₁
  have hwaits₂ := waits_of_run h₂
  rw [reconnect_eq hcut₁, reconnect_eq hcut₂]
  constructor
  · exact halfRead_of_receive hwaits₁ hwaits₂ rfl rfl
  · intro hhalf segments
    have halike : Alike { cut₁ with buffer := [], status := true } { cut₂ with buffer := [], status := true } :=
      ⟨rfl, hhalf⟩
    exact halike.receive segments

/-- The state that events lead the client to, the newest event first. -/
def after (events : List Event) : NetworkHelper :=
  Machine.stateAfter helperStep Machine.always newNetworkHelper events

/-- One connection has brought nothing, and the other one a whole message. -/
theorem reconnect_clean_example :
    (Framing.receive readyRead (after [.connected]).reconnect [[4, 0, 0, 0, 1], [2, 3, 4]]).2 =
      (Framing.receive readyRead (after [.readyRead [4, 0, 0, 0, 9, 9, 9, 9], .connected]).reconnect
        [[4, 0, 0, 0, 1], [2, 3, 4]]).2 :=
  (reconnect_clean
    (Machine.run_after helperStep Machine.always newNetworkHelper [.connected] (by decide +kernel)).1.any
    (Machine.run_after helperStep Machine.always newNetworkHelper
      [.readyRead [4, 0, 0, 0, 9, 9, 9, 9], .connected] (by decide +kernel)).1.any
    (by decide +kernel) (by decide +kernel)).mpr (by decide +kernel) _

/-- A connection breaks behind the length of a message. The first bytes of the next one are then taken
for this message. -/
theorem reconnect_misreads :
    (∃ tr, helperStep.AnyRun newNetworkHelper (after [.connected]) tr ∧
        tr.map Prod.fst = [.connected]) ∧
      (∃ tr, helperStep.AnyRun newNetworkHelper (after [.readyRead [4, 0, 0, 0], .connected]) tr ∧
        tr.map Prod.fst = [.readyRead [4, 0, 0, 0], .connected]) ∧
      (Framing.receive readyRead (after [.connected]).reconnect [[4, 0, 0, 0, 1, 2, 3, 4]]).2 =
        [[1, 2, 3, 4]] ∧
      (Framing.receive readyRead (after [.readyRead [4, 0, 0, 0], .connected]).reconnect
        [[4, 0, 0, 0, 1, 2, 3, 4]]).2 = [[4, 0, 0, 0]] := by
  obtain ⟨hrun₁, hevents₁⟩ := Machine.run_after helperStep Machine.always newNetworkHelper [.connected]
    (by decide +kernel)
  obtain ⟨hrun₂, hevents₂⟩ := Machine.run_after helperStep Machine.always newNetworkHelper
    [.readyRead [4, 0, 0, 0], .connected] (by decide +kernel)
  exact ⟨⟨_, hrun₁.any, hevents₁⟩, ⟨_, hrun₂.any, hevents₂⟩, by decide +kernel, by decide +kernel⟩

end TermCollection.Pokemon.Client
