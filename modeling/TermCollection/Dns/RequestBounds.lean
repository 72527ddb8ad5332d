import TermCollection.Dns.Lemmas.Replies
import TermCollection.Dns.ResponseBounds

/-!
# The bounds of a request (`onReadRequest`)

The handler turns the first four labels of a name around in 16 bytes, keeps the name in 64 bytes, and
writes an answer of 16 bytes behind the request, which then goes into a buffer of 1024 bytes.
-/

namespace TermCollection.Dns

variable {base url pUrl ip data rest : List UInt8} {i n nread : Nat} {s : Server} {uv : LibUv}
variable {clock : Nat → SystemTime} {addr : SockAddrIn} {id newID answerNum : UInt16}

/-! ## The handler with what goes wrong -/

/-- The reversal, which may leave no room for the zero at the end. -/
def checkedAddress (pUrl : CString) : Except Overrun CString :=
  let dotIndex := fun i => (dotIndices pUrl).getD i 0
  let copy := fun (result : CString) (i : Nat) =>
    if dotIndex (i - 1) < dotIndex i then
      let label := (pUrl.drop (dotIndex (i - 1) + 1)).take (dotIndex i - dotIndex (i - 1) - 1)
      if result.length + label.length < 16 then .ok (result ++ label ++ [46]) else .error .address
    else .error .address
  do
    let result ← [3, 2, 1].foldlM copy []
    let label := pUrl.take (dotIndex 0)
    if result.length + label.length ≤ 16 then .ok (result ++ label) else .error .address

def checkedReply (uv : LibUv) (s : Server) (newID : UInt16) (base : List UInt8) (nread : Nat)
    (addr : SockAddrIn) (answerNum : UInt16) (ip : List UInt8) : Except Overrun (List Output) := do
  let sender := uv.ip4Name addr.sin_addr 15
  let base ← orError .other (splice base 2 (toBytes2 (nhswap_s 0x8180)))
  let base ← orError .other (splice base 6 (toBytes2 answerNum))
  let base ← orError .other (splice base nread (answerBytes ip))
  let port := nhswap_s (s.idTable newID.toNat).client.sin_port
  if nread + 16 ≤ bufferSize then
    .ok [.toClient ⟨uv.ip4Addr sender, nhswap_s port⟩ (base.take (nread + 16))]
  else .error .reply

def checkedPTR (uv : LibUv) (s : Server) (base : List UInt8) (nread : Nat) (id : UInt16)
    (addr : SockAddrIn) (pUrl : CString) (clock : Nat → SystemTime) :
    Except Overrun (Server × List Output) := do
  let result ← checkedAddress pUrl
  let (newID, s) ← orError .url (getNewID s (nhswap_s id) addr true nread pUrl (clock 1))
  -- without its zero the text goes on behind the array
  let result ← orError .other (if result.length < 16 then some result else none)
  let out ← checkedReply uv s newID base nread addr (nhswap_s 0x8180) (inet_addr_t result)
  .ok (s, out)

def checkedLocal (uv : LibUv) (s : Server) (base : List UInt8) (nread : Nat) (id : UInt16)
    (addr : SockAddrIn) (pUrl : CString) (result : TransDNSRow) (clock : Nat → SystemTime) :
    Except Overrun (Server × List Output) := do
  let (newID, s) ← orError .url (getNewID s (nhswap_s id) addr true nread pUrl (clock 1))
  let answerNum := nhswap_s (if result.data = bannedIP then 0x0000 else 0x0001)
  let out ← checkedReply uv s newID base nread addr answerNum (inet_addr_t result.data)
  .ok (s, out)

def checkedForward (s : Server) (base : List UInt8) (nread : Nat) (id : UInt16) (addr : SockAddrIn)
    (pUrl : CString) (clock : Nat → SystemTime) : Except Overrun (Server × List Output) := do
  let (newID, s) ← orError .url (getNewID s (nhswap_s id) addr false nread pUrl (clock 1))
  let base ← orError .other (splice base 0 (toBytes2 (nhswap_s newID)))
  .ok (s, [.toServer (base.take nread)])

def checkedName (uv : LibUv) (s : Server) (base : List UInt8) (nread : Nat) (id : UInt16)
    (addr : SockAddrIn) (pUrl : CString) (clock : Nat → SystemTime) :
    Except Overrun (Server × List Output) := do
  match ← orError .other (lookupRow s pUrl) with
  | none => checkedForward s base nread id addr pUrl clock
  | some (node, row) =>
      if now (clock 0) < (s.dnsTable row).ttl then
        checkedLocal uv s base nread id addr pUrl (s.dnsTable row) clock
      else do
        let (_, table) ← orError .other (removeHashItemByNode s.dnsHashTable (some node))
        checkedForward { s with dnsHashTable := table } base nread id addr pUrl clock

def checkedQuestion (base : List UInt8) (nread : Nat) :
    Except Overrun (Option (UInt16 × CString × UInt16)) := do
  let pUrl ← orError .other (parseUrlFromData base 12 ((nread : Int) - 16))
  let id ← orError .datagram (read2 base 0)
  if nread < 4 then .error .datagram
  else do
    let reqType ← orError .datagram (read2 base (nread - 4))
    let _ ← orError .datagram (read2 base (nread - 2))
    .ok (pUrl.map fun url => (id, url, nhswap_s reqType))

def checkedRequest (uv : LibUv) (s : Server) (nread : Int) (base : List UInt8) (addr : SockAddrIn)
    (clock : Nat → SystemTime) : Except Overrun (Server × List Output) :=
  if nread < 0 then .ok (s, [.close .localSocket])
  else if 1024 < nread then .ok (s, [])
  else do
    match ← checkedQuestion base nread.toNat with
    | none => .ok (s, [])
    | some (id, pUrl, reqType) =>
        if reqType = typePTR then checkedPTR uv s base nread.toNat id addr pUrl clock
        else checkedName uv s base nread.toNat id addr pUrl clock

/-! ## The same results -/

theorem toOption_checkedAddress (pUrl : CString) :
    ((checkedAddress pUrl).toOption.bind fun result => if result.length < 16 then some result else none) =
      ptrAddress pUrl := by
  have hbind : ∀ {x : Except Overrun CString} {y : Option CString} {label : CString}, x.toOption = y →
      ((x >>= fun result => if result.length + label.length ≤ 16 then .ok (result ++ label)
          else .error .address).toOption.bind fun result =>
        if result.length < 16 then some result else none) =
      y.bind fun result => if result.length + label.length < 16 then some (result ++ label) else none := by
    rintro x y label rfl
    cases x with
    | error overrun => rfl
    | ok result =>
        rw [ok_bind, toOption_ok, Option.bind_some]
        by_cases hshort : result.length + label.length < 16
        · rw [if_pos (by omega), if_pos hshort, toOption_ok, Option.bind_some, List.length_append,
            if_pos hshort]
        · rw [if_neg hshort]
          split
          · rw [toOption_ok, Option.bind_some, List.length_append, if_neg hshort]
          · rfl
  refine hbind (toOption_foldlM (fun result i => ?_) _ _)
  split
  · simp only
    split <;> rfl
  · rfl

theorem toOption_checkedReply : (checkedReply uv s newID base nread addr answerNum ip).toOption =
    replyLocal uv s newID base nread addr answerNum ip := by
  refine toOption_bind (orError_toOption _ _) fun flagged => ?_
  refine toOption_bind (orError_toOption _ _) fun counted => ?_
  refine toOption_bind (orError_toOption _ _) fun answered => ?_
  split <;> rfl

theorem toOption_checkedPTR : (checkedPTR uv s base nread id addr pUrl clock).toOption =
    answerPTR uv s base nread id addr pUrl clock := by
  unfold checkedPTR answerPTR
  rw [← toOption_checkedAddress]
  cases checkedAddress pUrl with
  | error overrun => rfl
  | ok result =>
      rw [toOption_ok, Option.bind_some, ok_bind]
      by_cases hshort : result.length < 16
      · rw [if_pos hshort]
        refine toOption_bind (orError_toOption _ _) fun row => ?_
        exact toOption_bind toOption_checkedReply fun out => rfl
      · rw [if_neg hshort]
        cases getNewID s (nhswap_s id) addr true nread pUrl (clock 1) <;> rfl

theorem toOption_checkedLocal {result : TransDNSRow} :
    (checkedLocal uv s base nread id addr pUrl result clock).toOption =
      answerLocal uv s base nread id addr pUrl result clock := by
  refine toOption_bind (orError_toOption _ _) fun row => ?_
  exact toOption_bind toOption_checkedReply fun out => rfl

theorem toOption_checkedForward : (checkedForward s base nread id addr pUrl clock).toOption =
    forwardRequest s base nread id addr pUrl clock := by
  refine toOption_bind (orError_toOption _ _) fun row => ?_
  exact toOption_bind (orError_toOption _ _) fun base => rfl

theorem toOption_checkedName : (checkedName uv s base nread id addr pUrl clock).toOption =
    answerName uv s base nread id addr pUrl clock := by
  refine toOption_bind (orError_toOption _ _) fun found => ?_
  cases found with
  | none => exact toOption_checkedForward
  | some found =>
      simp only
      split
      · exact toOption_checkedLocal
      · exact toOption_bind (orError_toOption _ _) fun table => toOption_checkedForward

theorem toOption_checkedQuestion : (checkedQuestion base nread).toOption = readRequest base nread := by
  refine toOption_bind (orError_toOption _ _) fun pUrl => ?_
  refine toOption_bind (orError_toOption _ _) fun id => ?_
  split
  · rfl
  · refine toOption_bind (orError_toOption _ _) fun reqType => ?_
    exact toOption_bind (orError_toOption _ _) fun reqClass => rfl

theorem toOption_checkedRequest {nread : Int} : (checkedRequest uv s nread base addr clock).toOption =
    onReadRequest uv s nread base addr clock := by
  unfold checkedRequest onReadRequest
  split
  · rfl
  · split
    · rfl
    · refine toOption_bind toOption_checkedQuestion fun question => ?_
      cases question with
      | none => rfl
      | some question =>
          simp only
          split
          · exact toOption_checkedPTR
          · exact toOption_checkedName

/-! ## The first four dots -/

theorem filter_range_eq (l : List UInt8) (c : UInt8) :
    ((List.range l.length).filter fun i => l[i]? = some c) = l.findIdxs (· == c) := by
  induction l with
  | nil => rfl
  | cons b l ih =>
      rw [List.length_cons, List.range_succ_eq_map, List.filter_cons, List.filter_map,
        List.findIdxs_cons, List.findIdxs_start, ← ih]
      simp [Function.comp_def]

theorem dotIndices_eq (pUrl : CString) : dotIndices pUrl = (pUrl.findIdxs (· == 46)).take 4 := by
  rw [dotIndices, filter_range_eq]

theorem dotIndices_four {a b c d : Nat} (h : dotIndices pUrl = [a, b, c, d]) :
    a < b ∧ b < c ∧ c < d ∧ d < pUrl.length := by
  have hsorted : (dotIndices pUrl).Pairwise (· < ·) := by
    rw [dotIndices_eq]
    exact List.pairwise_findIdxs.sublist (List.take_sublist _ _)
  have hmem : d ∈ (pUrl.findIdxs (· == 46)).take 4 := by
    rw [← dotIndices_eq, h]
    simp
  have hlt := List.lt_add_of_mem_findIdxs d (List.mem_of_mem_take hmem)
  rw [h] at hsorted
  simp only [List.pairwise_cons, List.forall_mem_cons] at hsorted
  omega

/-- Where the fourth dot is. -/
theorem fourth_dot (pUrl : CString) (m : Nat) :
    (∃ d, (dotIndices pUrl)[3]? = some d ∧ d < m) ↔ 4 ≤ (pUrl.take m).count 46 := by
  have hall : pUrl.findIdxs (· == 46) = (pUrl.take m).findIdxs (· == 46) ++
      (pUrl.drop m).findIdxs (· == 46) (0 + (pUrl.take m).length) := by
    rw [← List.findIdxs_append, List.take_append_drop]
  have hcount : ((pUrl.take m).findIdxs (· == 46)).length = (pUrl.take m).count 46 :=
    List.length_findIdxs
  rw [dotIndices_eq, List.getElem?_take_of_lt (by decide), hall, ← hcount]
  by_cases hinside : 3 < ((pUrl.take m).findIdxs (· == 46)).length
  · rw [List.getElem?_append_left hinside, List.getElem?_eq_getElem hinside]
    have hlt := List.getElem_findIdxs_lt hinside
    rw [List.length_take] at hlt
    exact iff_of_true ⟨_, rfl, by omega⟩ hinside
  · rw [List.getElem?_append_right (by omega)]
    refine iff_of_false ?_ (by omega)
    rintro ⟨d, hd, hlt⟩
    have hmem := List.mem_of_getElem? hd
    have hge := List.ge_of_mem_findIdxs d hmem
    have hlt' := List.lt_add_of_mem_findIdxs d hmem
    rw [List.length_take] at hge hlt'
    rw [List.length_drop] at hlt'
    omega

theorem checkedAddress_eq {a b c d : Nat} (h : dotIndices pUrl = [a, b, c, d]) :
    ∃ result, result.length = d ∧
      checkedAddress pUrl = if d ≤ 16 then .ok result else .error .address := by
  obtain ⟨hab, hbc, hcd, hd⟩ := dotIndices_four h
  have hlabel : ∀ i j, i < j → j < pUrl.length →
      ((pUrl.drop (i + 1)).take (j - i - 1)).length = j - i - 1 := by
    intro i j hij hj
    rw [List.length_take, List.length_drop]
    omega
  have h₃ := hlabel c d hcd hd
  have h₂ := hlabel b c hbc (by omega)
  have h₁ := hlabel a b hab (by omega)
  have h₀ : (pUrl.take a).length = a := List.length_take_of_le (by omega)
  unfold checkedAddress
  simp only [h, List.foldlM_cons, List.foldlM_nil, List.getD_cons_zero, List.getD_cons_succ,
    Nat.add_one_sub_one, hab, hbc, hcd, ↓reduceIte, List.length_nil, Nat.zero_add, List.nil_append]
  generalize (pUrl.drop (c + 1)).take (d - c - 1) = label₃ at h₃ ⊢
  generalize (pUrl.drop (b + 1)).take (c - b - 1) = label₂ at h₂ ⊢
  generalize (pUrl.drop (a + 1)).take (b - a - 1) = label₁ at h₁ ⊢
  generalize pUrl.take a = label₀ at h₀ ⊢
  have hlength₂ : (label₃ ++ [46]).length = d - c := by
    rw [List.length_append, List.length_singleton]
    omega
  have hlength₁ : (label₃ ++ [46] ++ label₂ ++ [46]).length = d - b := by
    rw [List.length_append, List.length_append, List.length_singleton]
    omega
  have hlength₀ : (label₃ ++ [46] ++ label₂ ++ [46] ++ label₁ ++ [46]).length = d - a := by
    rw [List.length_append, List.length_append, List.length_singleton]
    omega
  have hlength : (label₃ ++ [46] ++ label₂ ++ [46] ++ label₁ ++ [46] ++ label₀).length = d := by
    rw [List.length_append]
    omega
  refine ⟨_, hlength, ?_⟩
  by_cases hroom₃ : label₃.length < 16
  · rw [if_pos hroom₃, ok_bind]
    by_cases hroom₂ : (label₃ ++ [46]).length + label₂.length < 16
    · rw [if_pos hroom₂, ok_bind]
      by_cases hroom₁ : (label₃ ++ [46] ++ label₂ ++ [46]).length + label₁.length < 16
      · rw [if_pos hroom₁, ok_bind, pure_bind, ← List.length_append, hlength]
      · rw [if_neg hroom₁, if_neg (show ¬ d ≤ 16 by omega)]
        rfl
    · rw [if_neg hroom₂, if_neg (show ¬ d ≤ 16 by omega)]
      rfl
  · rw [if_neg hroom₃, if_neg (show ¬ d ≤ 16 by omega)]
    rfl

/-- Without four dots the last position is before the one in front of it. -/
theorem checkedAddress_short (h : (dotIndices pUrl).length < 4) :
    checkedAddress pUrl = .error .address := by
  have hlast : (dotIndices pUrl).getD 3 0 = 0 := by
    rw [List.getD_eq_getElem?_getD, List.getElem?_eq_none (by omega)]
    rfl
  unfold checkedAddress
  simp only [List.foldlM_cons, hlast, Nat.not_lt_zero, ↓reduceIte]
  rfl

/-- A reversed address is as long as the text before the fourth dot. -/
theorem checkedAddress_cases (pUrl : CString) :
    (∃ result, checkedAddress pUrl = .ok result ∧ 4 ≤ (pUrl.take 17).count 46 ∧
      (result.length < 16 ↔ 4 ≤ (pUrl.take 16).count 46)) ∨
    (checkedAddress pUrl = .error .address ∧ ¬ 4 ≤ (pUrl.take 17).count 46) := by
  rw [← fourth_dot, ← fourth_dot]
  by_cases hfour : (dotIndices pUrl).length = 4
  · obtain ⟨a, b, c, d, hdots⟩ := List.length_eq_four.mp hfour
    obtain ⟨result, hlength, heq⟩ := checkedAddress_eq hdots
    have hfourth : ∀ m, (∃ e, (dotIndices pUrl)[3]? = some e ∧ e < m) ↔ d < m := by
      intro m
      rw [hdots]
      simp
    rw [hfourth, hfourth, heq]
    by_cases hroom : d ≤ 16
    · rw [if_pos hroom]
      exact .inl ⟨result, rfl, by omega, by rw [hlength]⟩
    · rw [if_neg hroom]
      exact .inr ⟨rfl, by omega⟩
  · have hshort : (dotIndices pUrl).length < 4 := by
      have hle : (dotIndices pUrl).length ≤ 4 := List.length_take_le _ _
      omega
    refine .inr ⟨checkedAddress_short hshort, ?_⟩
    rintro ⟨d, hd, -⟩
    rw [List.getElem?_eq_none (by omega)] at hd
    cases hd

/-! ## Requests that stay inside -/

/-- What the request must not leave. -/
def requestBounds : List Overrun := [.datagram, .address, .url, .reply]

/-- The reply has room behind the request, if the block has. -/
def ReplyFits (base : List UInt8) (nread : Nat) : Prop :=
  nread + 16 ≤ base.length → nread + 16 ≤ bufferSize

/-- The first four dots of a name that is turned around are among its first seventeen bytes; and when
there is a zero behind the address, the reply fits. -/
def PtrFits (base : List UInt8) (nread : Nat) (url : CString) : Prop :=
  4 ≤ (url.take 17).count 46 ∧ url.length < arrLength ∧
    (4 ≤ (url.take 16).count 46 → ReplyFits base nread)

/-- A name that is looked up is shorter than 64 bytes, and when it is answered, the reply fits. Nothing
is asked when the table of names has no defined result. -/
def LookupFits (s : Server) (base : List UInt8) (nread : Nat) (time : SystemTime) (url : CString) : Prop :=
  match lookupRow s url with
  | none => True
  | some none => url.length < arrLength
  | some (some (node, row)) =>
      if now time < (s.dnsTable row).ttl then url.length < arrLength ∧ ReplyFits base nread
      else (removeHashItemByNode s.dnsHashTable (some node)).isSome = true → url.length < arrLength

def questionType (base : List UInt8) (nread : Nat) : UInt16 :=
  nhswap_s ((read2 base (nread - 4)).getD 0)

/-- The end of the question is in the request; and the name at its start, if it has one, fits. -/
def RequestFits (s : Server) (base : List UInt8) (nread : Nat) (time : SystemTime) : Prop :=
  4 ≤ nread ∧ (16 < nread → ∀ text, Spells base (urlCopy base 12 (nread - 16)) text →
    if questionType base nread = typePTR then PtrFits base nread (text.takeWhile (· ≠ 0))
    else LookupFits s base nread time (text.takeWhile (· ≠ 0)))

/-- The copy of the name. -/
theorem avoids_getNewID {β : Type} {oldID : UInt16} {isDone : Bool} {offset : Int} {time : SystemTime}
    {f : UInt16 × Server → Except Overrun β} {p : Prop} (hf : ∀ row, Avoids requestBounds (f row) ↔ p) :
    Avoids requestBounds (orError .url (getNewID s oldID addr isDone offset url time) >>= f) ↔
      url.length < arrLength ∧ p := by
  rw [avoids_orError_bind (by decide), getNewID]
  split
  · rename_i hurl
    simp [hurl, hf]
  · rename_i hurl
    simp [hurl]

theorem avoids_checkedReply (hip : ip.length = 4) (hn : 8 ≤ nread) (hbase : nread ≤ base.length) :
    Avoids requestBounds (checkedReply uv s newID base nread addr answerNum ip) ↔
      ReplyFits base nread := by
  have hans := answerBytes_length hip
  obtain ⟨b₁, h₁, hlen₁, -⟩ := splice_of_le base 2 (toBytes2 (nhswap_s 0x8180))
    (by rw [toBytes2_length]; omega)
  obtain ⟨b₂, h₂, hlen₂, -⟩ := splice_of_le b₁ 6 (toBytes2 answerNum)
    (by rw [toBytes2_length]; omega)
  unfold checkedReply ReplyFits
  rw [h₁, orError_some, ok_bind, h₂, orError_some, ok_bind, avoids_orError_bind_of_notMem (by decide),
    splice, hans, hlen₂, hlen₁]
  by_cases hroom : nread + 16 ≤ base.length
  · rw [if_pos hroom]
    simp only [Option.some.injEq, forall_eq', hroom, true_implies]
    split
    · rename_i hreply
      exact iff_of_true (avoids_ok _ _) hreply
    · rename_i hreply
      exact iff_of_false (fun h => h .reply (by decide) rfl) hreply
  · rw [if_neg hroom]
    exact iff_of_true (by simp) fun h => absurd h hroom

theorem avoids_checkedForward (hbase : 2 ≤ base.length) :
    Avoids requestBounds (checkedForward s base nread id addr pUrl clock) ↔ pUrl.length < arrLength := by
  refine (avoids_getNewID fun row => ?_).trans (and_true _).to_iff
  simp only [splice_zero _ hbase]
  exact iff_of_true (avoids_ok _ _) trivial

theorem avoids_checkedLocal {result : TransDNSRow} (hn : 8 ≤ nread) (hbase : nread ≤ base.length) :
    Avoids requestBounds (checkedLocal uv s base nread id addr pUrl result clock) ↔
      pUrl.length < arrLength ∧ ReplyFits base nread := by
  refine avoids_getNewID fun row => ?_
  rw [avoids_bind, avoids_checkedReply (inet_addr_t_length _) hn hbase]
  exact and_iff_left fun out _ => avoids_ok _ _

theorem avoids_checkedPTR (hn : 8 ≤ nread) (hbase : nread ≤ base.length) :
    Avoids requestBounds (checkedPTR uv s base nread id addr pUrl clock) ↔ PtrFits base nread pUrl := by
  unfold checkedPTR PtrFits
  rcases checkedAddress_cases pUrl with ⟨result, haddress, hdots, hzero⟩ | ⟨haddress, hdots⟩
  · rw [haddress, ok_bind, and_iff_right hdots]
    refine avoids_getNewID fun row => ?_
    rw [avoids_orError_bind_of_notMem (by decide), ← hzero]
    by_cases hshort : result.length < 16
    · rw [if_pos hshort]
      simp only [Option.some.injEq, forall_eq', hshort, true_implies]
      rw [avoids_bind, avoids_checkedReply (inet_addr_t_length _) hn hbase]
      exact and_iff_left fun out _ => avoids_ok _ _
    · rw [if_neg hshort]
      exact iff_of_true (by simp) fun h => absurd h hshort
  · rw [haddress]
    exact iff_of_false (fun h => h .address (by decide) rfl) fun h => hdots h.1

theorem avoids_checkedName (hn : 8 ≤ nread) (hbase : nread ≤ base.length) :
    Avoids requestBounds (checkedName uv s base nread id addr pUrl clock) ↔
      LookupFits s base nread (clock 0) pUrl := by
  unfold checkedName LookupFits
  rw [avoids_orError_bind_of_notMem (by decide)]
  cases lookupRow s pUrl with
  | none => exact iff_of_true (by simp) trivial
  | some found =>
      simp only [Option.some.injEq, forall_eq']
      cases found with
      | none => exact avoids_checkedForward (by omega)
      | some found =>
          simp only
          split
          · exact avoids_checkedLocal hn hbase
          · rw [avoids_orError_bind_of_notMem (by decide)]
            simp only [avoids_checkedForward (show 2 ≤ base.length by omega), Option.isSome_iff_exists,
              forall_exists_index]

theorem checkedQuestion_eq (hn : 4 ≤ nread) (hbase : nread ≤ base.length) : checkedQuestion base nread =
    orError .other (parseUrlFromData base 12 ((nread : Int) - 16)) >>= fun pUrl =>
      .ok (pUrl.map fun url => ((read2 base 0).getD 0, url, questionType base nread)) := by
  obtain ⟨id, hid⟩ := read2_range.mpr (show 0 + 2 ≤ base.length by omega)
  obtain ⟨type, htype⟩ := read2_range.mpr (show nread - 4 + 2 ≤ base.length by omega)
  obtain ⟨cls, hcls⟩ := read2_range.mpr (show nread - 2 + 2 ≤ base.length by omega)
  refine bind_congr fun pUrl => ?_
  rw [hid, orError_some, ok_bind, if_neg (Nat.not_lt.mpr hn), htype, hcls, questionType, htype]
  rfl

theorem checkedQuestion_short (hn : nread < 4) :
    checkedQuestion base nread = .error .datagram := by
  have hnull : parseUrlFromData base 12 ((nread : Int) - 16) = some none := if_pos (by omega)
  rw [checkedQuestion, hnull, orError_some, ok_bind]
  cases read2 base 0 with
  | none => rfl
  | some id => exact if_pos hn

/-- The name of a request. -/
theorem parsed_name {pUrl : Option CString} (hn : nread ≤ 1024) (hbase : nread ≤ base.length) :
    parseUrlFromData base 12 ((nread : Int) - 16) = some pUrl ↔
      if 16 < nread then ∃ text, Spells base (urlCopy base 12 (nread - 16)) text ∧
        some (text.takeWhile (· ≠ 0)) = pUrl
      else pUrl = none := by
  split
  · rename_i hlong
    rw [parseUrlFromData_eq_some (by omega) (by omega), and_iff_right (by omega)]
    have hsize : ((nread : Int) - 16).toNat = nread - 16 := by omega
    rw [hsize]
  · rename_i hshort
    rw [parseUrlFromData, if_pos (by omega), Option.some.injEq, eq_comm]

/-- A request stays inside the received bytes, the address, the name in its row and the reply if and only
if the end of its question and its name fit. -/
theorem request_stays_inside (uv : LibUv) (s : Server) (data rest : List UInt8) (addr : SockAddrIn)
    (clock : Nat → SystemTime) (h : data.length ≤ 1024) :
    Avoids requestBounds (checkedRequest uv s data.length (data ++ rest) addr clock) ↔
      RequestFits s (data ++ rest) data.length (clock 0) := by
  have hbase : data.length ≤ (data ++ rest).length := by
    rw [List.length_append]
    omega
  generalize data ++ rest = base at hbase ⊢
  generalize data.length = nread at h hbase ⊢
  rw [checkedRequest, if_neg (by omega), if_neg (by omega), Int.toNat_natCast, RequestFits]
  by_cases hn : 4 ≤ nread
  · rw [checkedQuestion_eq hn hbase, and_iff_right hn, bind_assoc,
      avoids_orError_bind_of_notMem (by decide)]
    simp only [ok_bind, parsed_name h hbase]
    by_cases hlong : 16 < nread
    · simp only [hlong, ↓reduceIte, true_implies, forall_exists_index, and_imp]
      rw [forall_comm]
      refine forall_congr' fun text => ?_
      rw [forall_comm]
      refine forall_congr' fun hspells => ?_
      simp only [forall_eq', Option.map_some]
      split
      · exact avoids_checkedPTR (by omega) hbase
      · exact avoids_checkedName (by omega) hbase
    · simp [hlong]
  · rw [checkedQuestion_short (Nat.not_le.mp hn)]
    exact iff_of_false (fun h => h .datagram (by decide) rfl) fun h => hn h.1

/-- A request with the given bytes of a name, padding behind it, and a type. -/
def question (name : List UInt8) (padding : Nat) (type : UInt8) : List UInt8 :=
  [0, 7, 1, 0, 0, 1, 0, 0, 0, 0, 0, 0] ++ name ++ List.replicate padding 0 ++ [0, type, 0, 1]

/-- The block goes on behind the request. -/
def unused : List UInt8 := List.replicate 16 0

/-- The name `a`. -/
theorem request_stays_inside_example : (question [1, 97] 1 1).length ≤ 1024 ∧
    (Avoids requestBounds (checkedRequest dottedUv emptyServer (question [1, 97] 1 1).length
        (question [1, 97] 1 1 ++ unused) ⟨0, 0⟩ fun _ => jan31) ↔
      RequestFits emptyServer (question [1, 97] 1 1 ++ unused) (question [1, 97] 1 1).length jan31) :=
  ⟨by decide, request_stays_inside _ _ _ _ _ _ (by decide)⟩

/-- Two labels of 32 bytes. -/
def longLabels : List UInt8 := 32 :: List.replicate 32 97 ++ 32 :: List.replicate 32 97

/-- The name `4.3.2.1.a`. -/
def reversedLabels : List UInt8 := [1, 52, 1, 51, 1, 50, 1, 49, 1, 97]

/-- The name `a` has no four dots to be turned around at; a name of 65 bytes does not fit into its row; and
the reply to a request of 1009 bytes has 1025. -/
theorem request_leaves :
    checkedRequest dottedUv emptyServer 19 (question [1, 97] 1 12 ++ unused) ⟨0, 0⟩ (fun _ => jan31) =
      .error .address ∧
    checkedRequest dottedUv emptyServer 83 (question longLabels 1 1 ++ unused) ⟨0, 0⟩ (fun _ => jan31) =
      .error .url ∧
    checkedRequest dottedUv emptyServer 1009 (question reversedLabels 983 12 ++ unused) ⟨0, 0⟩
      (fun _ => jan31) = .error .reply := by
  have hall : failsWith .address (checkedRequest dottedUv emptyServer 19 (question [1, 97] 1 12 ++ unused)
        ⟨0, 0⟩ fun _ => jan31) = true ∧
      failsWith .url (checkedRequest dottedUv emptyServer 83 (question longLabels 1 1 ++ unused) ⟨0, 0⟩
        fun _ => jan31) = true ∧
      failsWith .reply (checkedRequest dottedUv emptyServer 1009 (question reversedLabels 983 12 ++ unused)
        ⟨0, 0⟩ fun _ => jan31) = true := by
    decide +kernel
  rwa [failsWith_iff, failsWith_iff, failsWith_iff] at hall

end TermCollection.Dns
