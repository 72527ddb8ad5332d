import TermCollection.Dns.Coherence
import TermCollection.Dns.Lemmas.Clock
import TermCollection.Dns.Lemmas.LocalReplies
import TermCollection.Dns.StrayResponses

/-!
# Where answers come from

The history of a run says which request took a row of the ID table last, and which addresses came for its
name. Whatever a client is told comes from the file, from there, or from the name itself.
-/

namespace TermCollection.Dns

variable {uv : LibUv} {s s₀ s₁ s' : Server} {e : Event} {o : List Output} {tr : List (Event × List Output)}
variable {nread : Int} {base data : List UInt8} {addr dest : SockAddrIn} {clock : Nat → SystemTime}
variable {name address url : CString} {id type : UInt16} {r temp i : Nat}

/-! ## The requests of the rows -/

/-- What a row keeps of its request; the ID is as it stands in the datagram. -/
structure Request where
  id : UInt16
  url : CString
  addr : SockAddrIn

def requestOf : Event → Option Request
  | .request nread base addr clock =>
      (acceptedRequest (.request nread base addr clock)).map fun (id, url, _) => ⟨id, url, addr⟩
  | .response .. => none

/-- The last request that took the row. -/
def asked (r : Nat) : List (Event × List Output) → Option Request
  | [] => none
  | (e, _) :: tr =>
      if acceptedCount tr % maxAmount = r then (requestOf e).or (asked r tr) else asked r tr

/-- The rows are those of their last requests, and the others are as at the start. -/
structure Remembers (s : Server) (tr : List (Event × List Output)) : Prop where
  count : s.idRowCount = acceptedCount tr % maxAmount
  row : ∀ r q, asked r tr = some q → (s.idTable r).prevID = nhswap_s q.id ∧
    (s.idTable r).client = q.addr ∧ (s.idTable r).url = q.url
  unused : ∀ r, asked r tr = none → (s.idTable r).joinTime = 0

namespace Remembers

/-- A row that keeps its request. -/
theorem keep (h : Remembers s tr) (hnew : requestOf e = none) (hcount : s'.idRowCount = s.idRowCount)
    (hsame : ∀ j, SameClient (s.idTable j) (s'.idTable j)) : Remembers s' ((e, o) :: tr) := by
  have hacc : acceptedRequest e = none := by
    cases e with
    | request => simpa [requestOf] using hnew
    | response => rfl
  have hasked : ∀ j, asked j ((e, o) :: tr) = asked j tr := by
    intro j
    simp [asked, hnew]
  refine ⟨?_, fun j q hq => ?_, fun j hj => ?_⟩
  · rw [acceptedCount_cons, hacc, hcount]
    exact h.count
  · rw [hasked] at hq
    obtain ⟨hid, hclient, hurl⟩ := h.row j q hq
    exact ⟨(hsame j).1.trans hid, (hsame j).2.1.trans hclient, (hsame j).2.2.2.trans hurl⟩
  · rw [hasked] at hj
    exact (hsame j).2.2.1.trans (h.unused j hj)

/-- The row of an accepted request is filled. -/
theorem fill (h : Remembers s tr) (hacc : acceptedRequest (.request nread base addr clock) = some (id, url, type))
    (htable : s₁.idTable = s.idTable) (hcount : s₁.idRowCount = s.idRowCount) (isDone : Bool) (offset : Int)
    (time : SystemTime) :
    Remembers (s₁.fill (nhswap_s id) addr isDone offset url time) ((.request nread base addr clock, o) :: tr) := by
  have hnew : requestOf (.request nread base addr clock) = some ⟨id, url, addr⟩ := by
    rw [requestOf, hacc]
    rfl
  have hasked : ∀ j, asked j ((.request nread base addr clock, o) :: tr) =
      if j = s.idRowCount then some ⟨id, url, addr⟩ else asked j tr := by
    intro j
    rw [asked, hnew, Option.some_or, h.count]
    by_cases hj : acceptedCount tr % maxAmount = j
    · rw [if_pos hj, if_pos hj.symm]
    · rw [if_neg hj, if_neg (Ne.symm hj)]
  refine ⟨?_, fun j q hq => ?_, fun j hj => ?_⟩
  · simp only [acceptedCount_cons, hacc, Option.isSome_some, ↓reduceIte, Server.fill, hcount, h.count, maxAmount]
    omega
  · rw [hasked] at hq
    split at hq
    · rename_i hrow
      cases hq
      simp [Server.fill, hcount, hrow]
    · rename_i hrow
      simp only [Server.fill, hcount, Function.update_of_ne hrow, htable]
      exact h.row j q hq
  · rw [hasked] at hj
    split at hj
    · cases hj
    · rename_i hrow
      simp only [Server.fill, hcount, Function.update_of_ne hrow, htable]
      exact h.unused j hj

theorem step (h : Remembers s tr) (hs : serverStep uv s e = some (s', o)) : Remembers s' ((e, o) :: tr) := by
  cases e with
  | request nread base addr clock =>
      cases onReadRequest_cases hs with
      | ignored _ hacc => exact h.keep (by rw [requestOf, hacc]; rfl) rfl fun _ => .refl _
      | ptr _ _ _ _ hacc => exact h.fill hacc rfl rfl ..
      | answered _ _ _ _ _ _ _ hacc => exact h.fill hacc rfl rfl ..
      | missed _ _ _ _ hacc => exact h.fill hacc rfl rfl ..
      | expired _ _ _ _ _ _ table _ hacc =>
          have hids : ({ s with dnsHashTable := table } : Server).idTable = s.idTable := rfl
          exact h.fill hacc hids rfl ..
  | response nread base clock =>
      cases onReadResponse_cases hs with
      | dropped => exact h.keep rfl rfl fun _ => .refl _
      | relayed _ _ _ _ _ _ _ _ hcache =>
          obtain ⟨htable, hcount, -⟩ := cacheAnswers_ids hcache
          refine h.keep rfl hcount fun j => ?_
          rw [htable]
          exact .finish ..

theorem load {file : List UInt8} (hload : loadDNSTableData file = some s₀) : Remembers s₀ [] := by
  have hids : s₀.idTable = emptyServer.idTable ∧ s₀.idRowCount = 0 := by
    refine loadLoop_rule (I := fun s => s.idTable = emptyServer.idTable ∧ s.idRowCount = 0) hload
      ⟨rfl, rfl⟩ ?_
    intro s line s' hI hl
    obtain ⟨_, _, _, _, -, -, -, -, rfl⟩ := loadLine_cases hl
    exact hI
  refine ⟨hids.2, fun _ _ hq => (by cases hq), fun r _ => ?_⟩
  rw [hids.1]
  rfl

/-- A response in time names a row that was asked for. -/
theorem responded (h : Remembers s tr) (hrow : responseRow s (.response nread base clock) = some r) :
    ∃ q, asked r tr = some q := by
  obtain ⟨-, -, hover, -⟩ := responseRow_eq_some hrow
  cases hq : asked r tr with
  | some q => exact ⟨q, rfl⟩
  | none =>
      have hle := le_now (clock 0)
      rw [overTime, h.unused r hq, decide_eq_false_iff_not] at hover
      omega

end Remembers

/-! ## The addresses of the names -/

/-- A response under the number of a row came with the address in a record of type A, when the last request of
the row was for the name. -/
inductive Brought (name address : CString) : List (Event × List Output) → Prop
  | response {nread : Int} {base : List UInt8} {clock : Nat → SystemTime} {o : List Output}
      {tr : List (Event × List Output)} {raw : UInt16} {q : Request} {answers : List Answer} {ttl : UInt32} :
      read2 base 0 = some raw → asked (nhswap_s raw).toNat tr = some q → q.url = name →
      responseAnswers base = some answers → .a ttl address ∈ answers →
      Brought name address ((.response nread base clock, o) :: tr)
  | later {x : Event × List Output} {tr : List (Event × List Output)} :
      Brought name address tr → Brought name address (x :: tr)

/-- What the loop over the answers caches is in them. -/
theorem cacheAnswers_source {answers : List Answer} (h : cacheAnswers temp clock s i answers = some (s', o))
    {row : Nat} {ttl : UInt32} {t : SystemTime} (hmem : .cached row name address ttl t ∈ o) :
    name = (s.idTable temp).url ∧ .a ttl address ∈ answers := by
  induction answers generalizing s i o with
  | nil =>
      cases h
      cases hmem
  | cons answer answers ih =>
      simp only [cacheAnswers, Option.bind_eq_bind, Option.bind_eq_some_iff, Option.some.injEq, Prod.mk.injEq,
        Prod.exists] at h
      obtain ⟨s₁, o₁, hone, s₂, o₂, hrest, rfl, rfl⟩ := h
      have hsingle : cacheAnswers temp clock s i [answer] = some (s₁, o₁ ++ []) := by
        simp [cacheAnswers, hone]
      have hsame := (cacheAnswers_ids hsingle).1
      rcases List.mem_append.mp hmem with hmem | hmem
      · cases answer with
        | other =>
            cases hone
            cases hmem
        | a ttl' result =>
            simp only [cacheAnswer, Option.bind_eq_bind, Option.bind_eq_some_iff] at hone
            obtain ⟨found, -, hone⟩ := hone
            cases found with
            | some =>
                cases hone
                cases hmem
            | none =>
                dsimp only at hone
                split at hone
                · simp only [Option.bind_eq_some_iff, Prod.exists, Option.some.injEq, Prod.mk.injEq] at hone
                  obtain ⟨_, _, -, -, rfl⟩ := hone
                  cases List.mem_singleton.mp hmem
                  exact ⟨rfl, List.mem_cons_self⟩
                · cases hone
      · obtain ⟨hname, hanswer⟩ := ih hrest hmem
        rw [hsame] at hname
        exact ⟨hname, List.mem_cons_of_mem _ hanswer⟩

/-- Whatever is cached was brought by a response. -/
theorem Remembers.brought (h : Remembers s tr) (hs : serverStep uv s e = some (s', o))
    (hcached : CachedIn o name address) : Brought name address ((e, o) :: tr) := by
  obtain ⟨row, ttl, t, hmem⟩ := hcached
  cases e with
  | request nread base addr clock =>
      cases onReadRequest_cases hs with
      | ignored _ _ hclose => cases hclose _ hmem
      | ptr => simp at hmem
      | answered => simp at hmem
      | missed => simp at hmem
      | expired => simp at hmem
  | response nread base clock =>
      cases onReadResponse_cases hs with
      | dropped _ _ hclose => cases hclose _ hmem
      | relayed temp answers _ cached _ hrow _ hanswers hcache =>
          rcases List.mem_append.mp hmem with hmem | hmem
          · obtain ⟨hname, hanswer⟩ := cacheAnswers_source hcache hmem
            obtain ⟨q, hq⟩ := h.responded hrow
            obtain ⟨-, -, -, raw, hraw, rfl⟩ := responseRow_eq_some hrow
            have hurl := (SameClient.finish s (nhswap_s raw).toNat (nhswap_s raw).toNat).2.2.2
            exact .response hraw hq (by rw [hname, hurl, (h.row _ q hq).2.2]) hanswers hanswer
          · simp at hmem

/-- The address was loaded for the name, or a response brought it. -/
def Vouched (s₀ : Server) (tr : List (Event × List Output)) (name address : CString) : Prop :=
  Loaded s₀ name address ∨ Brought name address tr

theorem vouched_run {file : List UInt8} (hload : loadDNSTableData file = some s₀)
    (hr : (serverStep uv).Run (reusesFreeRows · ·) s₀ s tr) :
    Remembers s tr ∧ Coherent s (Vouched s₀ tr) := by
  refine hr.invariant (I := fun s tr => Remembers s tr ∧ Coherent s (Vouched s₀ tr)) ⟨.load hload, ?_⟩ ?_
  · refine (Coherent.load hload).mono ?_
    rintro name address (hloaded | ⟨x, hx, -⟩)
    · exact .inl hloaded
    · cases hx
  · rintro s tr e s' o - ⟨hremembers, hcoherent⟩ hc hs
    refine ⟨hremembers.step hs, (hcoherent.step hc hs).mono ?_⟩
    rintro name address ((hloaded | hbrought) | hcached)
    · exact .inl hloaded
    · exact .inr (.later hbrought)
    · exact .inr (hremembers.brought hs hcached)

/-- A name that is found has an address that was vouched for. -/
theorem Coherent.found {node row : Nat} {known : CString → CString → Prop} (h : Coherent s known)
    (hfound : lookupRow s url = some (some (node, row))) : known url (s.dnsTable row).data := by
  obtain ⟨A, k, R, hat, hkey, -⟩ := lookupRow_found h.ok hfound
  have hvisible : (bucket s.dnsHashTable url, k, row) ∈ visibleEntries s.dnsHashTable := by
    refine mem_visibleEntries.mpr ⟨bucket_lt h.ok.nonempty url, ?_⟩
    rw [hat.entries, visible_append]
    simp [visible]
  have hname := h.name _ k row hvisible (by rw [hkey])
  have haddress := h.address _ k row hvisible
  rwa [← hname, hkey] at haddress

/-! ## What clients are told -/

/-- A client's address behind its text in a buffer of the given size. -/
def backTo (uv : LibUv) (addr : SockAddrIn) (size : Nat) : SockAddrIn :=
  ⟨uv.ip4Addr (uv.ip4Name addr.sin_addr size), addr.sin_port⟩

/-- The ways in which a datagram to a client comes about: from the name itself, from an address of the name, or
from the response under the number of a client's request. -/
inductive Accounted (uv : LibUv) (s₀ : Server) (tr : List (Event × List Output)) :
    Event → SockAddrIn → List UInt8 → Prop
  | reverse {nread : Int} {base : List UInt8} {addr : SockAddrIn} {clock : Nat → SystemTime} {id : UInt16}
      {url result : CString} :
      acceptedRequest (.request nread base addr clock) = some (id, url, typePTR) → ptrAddress url = some result →
      Accounted uv s₀ tr (.request nread base addr clock) (backTo uv addr 15)
        (replyBytes (base.take nread.toNat) (nhswap_s 0x8180) (inet_addr_t result))
  | address {nread : Int} {base : List UInt8} {addr : SockAddrIn} {clock : Nat → SystemTime} {id type : UInt16}
      {url address : CString} :
      acceptedRequest (.request nread base addr clock) = some (id, url, type) → type ≠ typePTR →
      Vouched s₀ tr url address →
      Accounted uv s₀ tr (.request nread base addr clock) (backTo uv addr 15)
        (replyBytes (base.take nread.toNat) (nhswap_s (if address = bannedIP then 0x0000 else 0x0001))
          (inet_addr_t address))
  | relayed {nread : Int} {base : List UInt8} {clock : Nat → SystemTime} {raw : UInt16} {q : Request} :
      read2 base 0 = some raw → asked (nhswap_s raw).toNat tr = some q →
      Accounted uv s₀ tr (.response nread base clock) (backTo uv q.addr 16)
        ((toBytes2 q.id ++ base.drop 2).take nread.toNat)

/-- A reply goes to the client of the row that was filled for it. -/
theorem reply_of_filled {oldID newID answerNum : UInt16} {isDone : Bool} {offset : Int} {time : SystemTime}
    {n : Nat} {ip : List UInt8} (h : s.Ok)
    (hget : getNewID s oldID addr isDone offset url time = some (newID, s₁))
    (ho : replyLocal uv s₁ newID base n addr answerNum ip = some o) (hn : 8 ≤ n) (hip : ip.length = 4) :
    o = [.toClient (backTo uv addr 15) (replyBytes (base.take n) answerNum ip)] := by
  obtain ⟨-, rfl, rfl⟩ := getNewID_eq_some hget
  have hrow : ((s.idRowCount + 1) % maxAmount + maxAmount - 1) % maxAmount = s.idRowCount := by
    have hlt := h.idRow
    simp only [maxAmount] at hlt ⊢
    omega
  rw [hrow] at ho
  obtain ⟨dest, rfl⟩ := replyLocal_data ho hn hip
  simp only [replyLocal, Option.bind_eq_bind, Option.bind_eq_some_iff] at ho
  obtain ⟨_, -, _, -, _, -, ho⟩ := ho
  split at ho
  · rw [rowID_toNat h.idRow] at ho
    simp only [Server.fill, Function.update_self, nhswap_s_nhswap_s, Option.some.injEq, List.cons.injEq,
      Output.toClient.injEq, and_true] at ho
    rw [← ho.1]
    rfl
  · cases ho

theorem accounted_request (hcoherent : Coherent s (Vouched s₀ tr))
    (hs : onReadRequest uv s nread base addr clock = some (s', o)) (hdata : (dest, data) ∈ toClients o) :
    Accounted uv s₀ tr (.request nread base addr clock) dest data := by
  cases hacc : acceptedRequest (.request nread base addr clock) with
  | none =>
      cases localReply_of_step hs hdata with
      | ptr id url result hacc' => cases hacc.symm.trans hacc'
      | row id url type node row hacc' => cases hacc.symm.trans hacc'
  | some r =>
      obtain ⟨id, url, type⟩ := r
      have hn : 8 ≤ nread.toNat := by
        have hlt := lt_nread_of_accepted hacc
        omega
      rw [onReadRequest_accepted uv s hacc] at hs
      split at hs
      · rename_i hptr
        subst hptr
        simp only [answerPTR, Option.bind_eq_bind, Option.bind_eq_some_iff, Option.some.injEq, Prod.mk.injEq,
          Prod.exists] at hs
        obtain ⟨result, hresult, newID, s₁, hget, out, ho, -, rfl⟩ := hs
        rw [reply_of_filled hcoherent.ok hget ho hn (inet_addr_t_length result)] at hdata
        obtain ⟨rfl, rfl⟩ := toClients_singleton.mp hdata
        exact .reverse hacc hresult
      · rename_i hptr
        simp only [answerName, Option.bind_eq_bind, Option.bind_eq_some_iff] at hs
        obtain ⟨found, hfound, hs⟩ := hs
        cases found with
        | none =>
            obtain ⟨-, -, _, -, rfl⟩ := forwardRequest_eq_some hs
            cases hdata
        | some found =>
            obtain ⟨node, row⟩ := found
            dsimp only at hs
            split at hs
            · simp only [answerLocal, Option.bind_eq_bind, Option.bind_eq_some_iff, Option.some.injEq,
                Prod.mk.injEq, Prod.exists] at hs
              obtain ⟨newID, s₁, hget, out, ho, -, rfl⟩ := hs
              rw [reply_of_filled hcoherent.ok hget ho hn (inet_addr_t_length _)] at hdata
              obtain ⟨rfl, rfl⟩ := toClients_singleton.mp hdata
              exact .address hacc hptr (hcoherent.found hfound)
            · simp only [Option.bind_eq_some_iff, Prod.exists] at hs
              obtain ⟨_, _, -, hs⟩ := hs
              obtain ⟨-, -, _, -, rfl⟩ := forwardRequest_eq_some hs
              cases hdata

theorem accounted_response (h : Remembers s tr)
    (hs : onReadResponse uv s nread base clock = some (s', o)) (hdata : (dest, data) ∈ toClients o) :
    Accounted uv s₀ tr (.response nread base clock) dest data := by
  cases onReadResponse_cases hs with
  | dropped _ _ hclose =>
      rw [toClients_close hclose] at hdata
      cases hdata
  | relayed temp answers _ cached base' hrow _ _ hcache hbase _ =>
      rw [toClients_cached (cacheAnswers_ids hcache).2.2] at hdata
      obtain ⟨rfl, rfl⟩ := Prod.mk.inj (List.mem_singleton.mp hdata)
      obtain ⟨q, hq⟩ := h.responded hrow
      obtain ⟨hid, hclient, -⟩ := h.row temp q hq
      obtain ⟨-, -, -, raw, hraw, rfl⟩ := responseRow_eq_some hrow
      obtain ⟨-, rfl⟩ := splice_zero_eq_some hbase
      rw [hid, hclient, nhswap_s_nhswap_s, nhswap_s_nhswap_s]
      exact .relayed hraw hq

/-- However requests and responses come, while no row is reused that a lookup can come to, every datagram to a
client is accounted for: it answers a reverse lookup from its name, or the name of the request with an address
that was loaded for it or that came for it in a response, or it is the response to the last request that took
its number, under the ID of that request and to its client. -/
theorem datagrams_accounted (uv : LibUv) {file : List UInt8} (hload : loadDNSTableData file = some s₀)
    (hr : (serverStep uv).Run (reusesFreeRows · ·) s₀ s tr) (hs : serverStep uv s e = some (s', o))
    (hdata : (dest, data) ∈ toClients o) : Accounted uv s₀ tr e dest data := by
  obtain ⟨hremembers, hcoherent⟩ := vouched_run hload hr
  cases e with
  | request nread base addr clock => exact accounted_request hcoherent hs hdata
  | response nread base clock => exact accounted_response hremembers hs hdata

/-- A name is asked for again after its response. -/
theorem datagrams_accounted_example :
    ∃ s tr s' o dest data, (serverStep dottedUv).Run (reusesFreeRows · ·) emptyServer s tr ∧
      tr.map Prod.fst = cachedQuery 60 ∧
      serverStep dottedUv s (queryEvent 8 97 98 client₁ feb1) = some (s', o) ∧ (dest, data) ∈ toClients o ∧
      Accounted dottedUv emptyServer tr (queryEvent 8 97 98 client₁ feb1) dest data := by
  have hload : loadDNSTableData [] = some emptyServer := rfl
  obtain ⟨hrun, hevents⟩ := Machine.run_after (serverStep dottedUv) reusesFreeRows emptyServer
    (cachedQuery 60) (by decide +kernel)
  obtain ⟨s', hs⟩ := Machine.step_after (serverStep dottedUv)
    (Machine.stateAfter (serverStep dottedUv) reusesFreeRows emptyServer (cachedQuery 60))
    (queryEvent 8 97 98 client₁ feb1) (by decide +kernel)
  have hsent : (toClients (Machine.outputAfter (serverStep dottedUv)
      (Machine.stateAfter (serverStep dottedUv) reusesFreeRows emptyServer (cachedQuery 60))
      (queryEvent 8 97 98 client₁ feb1))).head?.isSome = true := by decide +kernel
  obtain ⟨⟨dest, data⟩, hhead⟩ := Option.isSome_iff_exists.mp hsent
  have hdata := List.mem_of_mem_head? hhead
  exact ⟨_, _, s', _, dest, data, hrun, hevents, hs, hdata, datagrams_accounted dottedUv hload hrun hs hdata⟩

end TermCollection.Dns
