import TermCollection.Dns.Lemmas.Clock
import TermCollection.Dns.Relay

/-!
# Stray and repeated responses

The use of a row of the ID table is read off the history of a run. A response should go to a client
only while its row waits for one.
-/

namespace TermCollection.Dns

variable {uv : LibUv} {s s₀ s' : Server} {e q : Event} {o : List Output} {r : Nat}
variable {tr tr₁ tr₂ : List (Event × List Output)}

inductive RowUse where
  | unused
  | pending
  | answered
  deriving DecidableEq

def forwards (o : List Output) : Bool :=
  o.any fun
    | .toServer _ => true
    | _ => false

/-- The use of the row of a request, by what the request sent. -/
def useOf (o : List Output) : RowUse := if forwards o then .pending else .answered

/-- The row that a response names, when something was sent to a client for it. -/
def repliedRow (e : Event) (o : List Output) : Option Nat :=
  match e with
  | .request .. => none
  | .response _ base _ =>
      if (toClients o).isEmpty then none else (read2 base 0).map fun raw => (nhswap_s raw).toNat

def rowUse (r : Nat) : List (Event × List Output) → RowUse
  | [] => .unused
  | (e, o) :: tr =>
      if (acceptedRequest e).isSome && acceptedCount tr % maxAmount = r then useOf o
      else if repliedRow e o = some r then .answered
      else rowUse r tr

/-- Every response that was passed on came while its row was pending. -/
def strayFree : List (Event × List Output) → Bool
  | [] => true
  | (e, o) :: tr =>
      strayFree tr &&
        match repliedRow e o with
        | none => true
        | some r => rowUse r tr = .pending

/-- The number of responses passed on with the number of the row as their ID. -/
def replies (r : Nat) (tr : List (Event × List Output)) : Nat :=
  tr.countP fun x => repliedRow x.1 x.2 = some r

/-- A response in time names a row that is not finished. -/
def namesUnfinished (s : Server) (e : Event) : Bool :=
  match responseRow s e with
  | none => true
  | some r => (s.idTable r).finished = false

/-! ## The flags of the rows -/

/-- What the row says of its use. A row that was never filled is always over time. -/
def Agrees (row : TransIDRow) : RowUse → Prop
  | .unused => row.joinTime = 0
  | .pending => row.finished = false
  | .answered => row.finished = true

structure Tracks (s : Server) (tr : List (Event × List Output)) : Prop where
  count : s.idRowCount = acceptedCount tr % maxAmount
  agrees : ∀ r < maxAmount, Agrees (s.idTable r) (rowUse r tr)
  strayFree : strayFree tr = true

theorem repliedRow_request (nread : Int) (base : List UInt8) (addr : SockAddrIn)
    (clock : Nat → SystemTime) (o : List Output) :
    repliedRow (.request nread base addr clock) o = none := rfl

theorem Tracks.fill {s₁ : Server} {nread : Int} {base : List UInt8} {addr : SockAddrIn}
    {clock : Nat → SystemTime} {isDone : Bool} (h : Tracks s tr)
    (hacc : (acceptedRequest (.request nread base addr clock)).isSome = true)
    (htable : s₁.idTable = s.idTable) (hcount : s₁.idRowCount = s.idRowCount)
    (hdone : useOf o = if isDone then .answered else .pending) (oldID : UInt16) (offset : Int)
    (url : CString) (time : SystemTime) :
    Tracks (s₁.fill oldID addr isDone offset url time) ((.request nread base addr clock, o) :: tr) := by
  refine ⟨?_, ?_, ?_⟩
  · rw [acceptedCount_cons, if_pos hacc]
    simp only [Server.fill, hcount, h.count, maxAmount]
    omega
  · intro r hr
    by_cases hrow : r = s.idRowCount
    · have huse : rowUse r ((.request nread base addr clock, o) :: tr) = useOf o := by
        simp [rowUse, hacc, hrow, h.count]
      rw [huse, hdone, hrow, ← hcount]
      cases isDone <;> simp [Server.fill, Agrees]
    · have huse : rowUse r ((.request nread base addr clock, o) :: tr) = rowUse r tr := by
        have hne : acceptedCount tr % maxAmount ≠ r := by rw [← h.count]; exact Ne.symm hrow
        simp [rowUse, hne, repliedRow_request]
      have hne : r ≠ s₁.idRowCount := by rw [hcount]; exact hrow
      rw [huse]
      simp only [Server.fill, Function.update_of_ne hne, htable]
      exact h.agrees r hr
  · simp [Dns.strayFree, repliedRow_request, h.strayFree]

theorem Tracks.same (h : Tracks s tr) (hacc : acceptedRequest e = none)
    (hreply : repliedRow e o = none) : Tracks s ((e, o) :: tr) := by
  refine ⟨?_, ?_, ?_⟩
  · rw [acceptedCount_cons, hacc]; exact h.count
  · intro r hr
    have huse : rowUse r ((e, o) :: tr) = rowUse r tr := by simp [rowUse, hacc, hreply]
    rw [huse]
    exact h.agrees r hr
  · simp [Dns.strayFree, hreply, h.strayFree]

/-- A response in time whose row is not finished finds its row pending. -/
theorem Tracks.pending (h : Tracks s tr) (hrow : responseRow s e = some r)
    (hfin : (s.idTable r).finished = false) : r < maxAmount ∧ rowUse r tr = .pending := by
  cases e with
  | request => cases hrow
  | response nread base clock =>
      obtain ⟨-, hr, hover, -⟩ := responseRow_eq_some hrow
      refine ⟨hr, ?_⟩
      have hag := h.agrees r hr
      cases huse : rowUse r tr with
      | pending => rfl
      | unused =>
          rw [huse, Agrees] at hag
          have hle := le_now (clock 0)
          rw [overTime, hag, decide_eq_false_iff_not] at hover
          omega
      | answered =>
          rw [huse, Agrees, hfin] at hag
          cases hag

theorem Tracks.start {file : List UInt8} (hload : loadDNSTableData file = some s₀) : Tracks s₀ [] := by
  have hids : s₀.idTable = emptyServer.idTable ∧ s₀.idRowCount = 0 := by
    refine loadLoop_rule (I := fun s => s.idTable = emptyServer.idTable ∧ s.idRowCount = 0) hload
      ⟨rfl, rfl⟩ ?_
    intro s line s' hI hl
    obtain ⟨_, _, _, _, -, -, -, -, rfl⟩ := loadLine_cases hl
    exact hI
  refine ⟨by rw [hids.2]; rfl, fun r _ => ?_, rfl⟩
  rw [hids.1]
  rfl

theorem toClients_close {socket : Socket} (h : ∀ x ∈ o, x = .close socket) : toClients o = [] := by
  apply List.filterMap_eq_nil_iff.mpr
  intro x hx
  rw [h x hx]

theorem Tracks.step (h : Tracks s tr) (hc : namesUnfinished s e = true)
    (hs : serverStep uv s e = some (s', o)) : Tracks s' ((e, o) :: tr) := by
  cases e with
  | request nread base addr clock =>
      cases onReadRequest_cases hs with
      | ignored _ hacc => exact h.same hacc rfl
      | ptr _ _ _ _ hacc => exact h.fill (by rw [hacc]; rfl) rfl rfl rfl ..
      | answered _ _ _ _ _ _ _ hacc => exact h.fill (by rw [hacc]; rfl) rfl rfl rfl ..
      | missed _ _ _ _ hacc => exact h.fill (by rw [hacc]; rfl) rfl rfl rfl ..
      | expired _ _ _ _ _ _ table _ hacc =>
          have hrows : ({ s with dnsHashTable := table } : Server).idTable = s.idTable := rfl
          exact h.fill (by rw [hacc]; rfl) hrows rfl rfl ..
  | response nread base clock =>
      cases onReadResponse_cases hs with
      | dropped _ _ hclose =>
          exact h.same rfl (by simp [repliedRow, toClients_close hclose])
      | relayed temp answers _ cached base' hrow htemp _ hcache _ _ =>
          have hfin : (s.idTable temp).finished = false := by
            simpa [namesUnfinished, hrow] using hc
          obtain ⟨-, hpend⟩ := h.pending hrow hfin
          obtain ⟨htable, hcount, hcached⟩ := cacheAnswers_ids hcache
          obtain ⟨-, -, -, raw, hraw, hid⟩ := responseRow_eq_some hrow
          have hreply : ∀ dest data, repliedRow (.response nread base clock)
              (cached ++ [.toClient dest data]) = some temp := by
            intro dest data
            simp [repliedRow, toClients_cached hcached, hraw, hid]
          refine ⟨?_, fun r hr => ?_, ?_⟩
          · rw [acceptedCount_cons]; exact hcount.trans h.count
          · rw [htable]
            by_cases hrt : r = temp
            · subst hrt
              simp [rowUse, acceptedRequest, hreply, Server.finish, Agrees]
            · have hag := h.agrees r hr
              simpa [rowUse, acceptedRequest, hreply, Server.finish, Ne.symm hrt, hrt] using hag
          · simp [Dns.strayFree, hreply, h.strayFree, hpend]

theorem Tracks.run {file : List UInt8} (hload : loadDNSTableData file = some s₀)
    (hr : (serverStep uv).Run (namesUnfinished · ·) s₀ s tr) : Tracks s tr :=
  hr.invariant (I := Tracks) (.start hload) fun _ _ _ _ _ _ h hc hs => h.step hc hs

/-! ## Replies to one request -/

theorem acceptedCount_append (tr₂ tr₁ : List (Event × List Output)) :
    acceptedCount (tr₂ ++ tr₁) = acceptedCount tr₂ + acceptedCount tr₁ :=
  List.countP_append

/-- Until its row is taken again, a request has no reply and its row is as it left it, or it was
forwarded, has one reply and its row is answered. -/
theorem replies_cases (hq : (acceptedRequest q).isSome = true)
    (h : strayFree (tr₂ ++ (q, o) :: tr₁) = true) (hfew : acceptedCount tr₂ < maxAmount)
    (hrow : r = acceptedCount tr₁ % maxAmount) :
    (replies r tr₂ = 0 ∧ rowUse r (tr₂ ++ (q, o) :: tr₁) = useOf o) ∨
      (replies r tr₂ = 1 ∧ forwards o = true ∧ rowUse r (tr₂ ++ (q, o) :: tr₁) = .answered) := by
  induction tr₂ with
  | nil => left; exact ⟨rfl, by simp [rowUse, hq, hrow]⟩
  | cons x tr₂ ih =>
      obtain ⟨e, out⟩ := x
      rw [acceptedCount_cons] at hfew
      simp only [List.cons_append, strayFree, Bool.and_eq_true] at h
      have hih := ih h.1 (by omega)
      have htaken : ((acceptedRequest e).isSome &&
          decide (acceptedCount (tr₂ ++ (q, o) :: tr₁) % maxAmount = r)) = false := by
        rw [acceptedCount_append, acceptedCount_cons, if_pos hq]
        cases hacc : (acceptedRequest e).isSome with
        | false => rfl
        | true =>
            rw [hacc, if_pos rfl] at hfew
            rw [Bool.true_and, decide_eq_false_iff_not, hrow]
            simp only [maxAmount] at hfew ⊢
            omega
      have hcount : replies r ((e, out) :: tr₂) =
          replies r tr₂ + if repliedRow e out = some r then 1 else 0 := by
        simp [replies, List.countP_cons]
      simp only [List.cons_append, rowUse, htaken, Bool.false_eq_true, ↓reduceIte, hcount]
      by_cases hreply : repliedRow e out = some r
      · have hpend : rowUse r (tr₂ ++ (q, o) :: tr₁) = .pending := by
          have hlast := h.2
          rw [hreply] at hlast
          simpa using hlast
        rcases hih with ⟨hnone, huse⟩ | ⟨-, -, huse⟩
        · right
          rw [hpend] at huse
          have hfwd : forwards o = true := by
            by_contra hno
            simp [useOf, hno] at huse
          exact ⟨by simp [hreply, hnone], hfwd, by simp [hreply]⟩
        · rw [hpend] at huse; cases huse
      · simpa [hreply] using hih

/-- While no response in time names a finished row, a response is passed on only for a row that waits
for one. A forwarded query gets one reply at most, and a request answered from the cache gets none. -/
theorem responses_answer_pending (uv : LibUv) {file : List UInt8}
    (hload : loadDNSTableData file = some s₀)
    (hr : (serverStep uv).Run (namesUnfinished · ·) s₀ s tr) :
    strayFree tr = true ∧
      ∀ tr₂ q o tr₁, tr = tr₂ ++ (q, o) :: tr₁ → (acceptedRequest q).isSome = true →
        acceptedCount tr₂ < maxAmount →
        replies (acceptedCount tr₁ % maxAmount) tr₂ ≤ if forwards o then 1 else 0 := by
  have htracks := Tracks.run hload hr
  refine ⟨htracks.strayFree, ?_⟩
  rintro tr₂ q o tr₁ rfl hq hfew
  rcases replies_cases hq htracks.strayFree hfew rfl with ⟨hnone, -⟩ | ⟨hone, hfwd, -⟩
  · rw [hnone]; exact Nat.zero_le _
  · rw [hone, hfwd]; exact Nat.le_refl 1

/-- The events of one query, its response, and the response once more, the newest first. -/
def repeatedResponse : List Event :=
  [responseEvent 0 97 98 60 [1, 2, 3, 4] jan31, responseEvent 0 97 98 60 [1, 2, 3, 4] jan31,
    queryEvent 7 97 98 client₁ jan31]

theorem responses_answer_pending_example :
    ∃ s tr, (serverStep dottedUv).Run (namesUnfinished · ·) emptyServer s tr ∧
      tr.map Prod.fst = repeatedResponse.tail ∧ strayFree tr = true := by
  have hload : loadDNSTableData [] = some emptyServer := rfl
  obtain ⟨hrun, hevents⟩ := Machine.run_after (serverStep dottedUv) namesUnfinished emptyServer
    repeatedResponse.tail (by decide +kernel)
  exact ⟨_, _, hrun, hevents, (responses_answer_pending dottedUv hload hrun).1⟩

/-- The same response goes to the client twice. -/
theorem response_repeated :
    ∃ s tr, (serverStep dottedUv).AnyRun emptyServer s tr ∧ tr.map Prod.fst = repeatedResponse ∧
      strayFree tr = false ∧ replies 0 tr = 2 := by
  obtain ⟨hrun, hevents⟩ := Machine.run_after (serverStep dottedUv) Machine.always emptyServer
    repeatedResponse (by decide +kernel)
  exact ⟨_, _, hrun.any, hevents, by decide +kernel, by decide +kernel⟩

end TermCollection.Dns
