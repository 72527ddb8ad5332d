import TermCollection.Dns.DottedQuad
import TermCollection.Dns.Lemmas.Bytes
import TermCollection.Dns.Lemmas.Invariants

/-!
# The relay of queries and responses

The ID of a forwarded query is the number of a row of the ID table. The rows are reused in turn, one
for each accepted request.
-/

namespace TermCollection.Dns

variable {uv : LibUv} {s s₀ s' : Server} {e : Event} {o : List Output} {url : CString}
variable {nread : Int} {base data : List UInt8} {addr : SockAddrIn}
variable {clock : Nat → SystemTime} {temp i row : Nat} {tr : List (Event × List Output)}

/-- The number of accepted requests of a history. -/
def acceptedCount (tr : List (Event × List Output)) : Nat :=
  tr.countP fun x => (acceptedRequest x.1).isSome

/-- The records of the response can be read, and none is cached in a row behind the DNS table. -/
def relayable (s : Server) : Event → Bool
  | .response nread base clock =>
      (responseAnswers base).isSome &&
        (eventCachePoints s (.response nread base clock)).all fun p => p.dnsRowCount < maxAmount
  | .request .. => true

/-! ## The rows of the ID table -/

/-- The rows agree but for `finished`. -/
def SameClient (r r' : TransIDRow) : Prop :=
  r'.prevID = r.prevID ∧ r'.client = r.client ∧ r'.joinTime = r.joinTime ∧ r'.url = r.url

theorem SameClient.refl (r : TransIDRow) : SameClient r r := ⟨rfl, rfl, rfl, rfl⟩

theorem SameClient.trans {r₁ r₂ r₃ : TransIDRow} (h : SameClient r₁ r₂) (h' : SameClient r₂ r₃) :
    SameClient r₁ r₃ :=
  ⟨h'.1.trans h.1, h'.2.1.trans h.2.1, h'.2.2.1.trans h.2.2.1, h'.2.2.2.trans h.2.2.2⟩

/-- What a step does to the ID table: an accepted request takes the row `idRowCount`. -/
structure IdStep (s : Server) (e : Event) (s' : Server) : Prop where
  count : s'.idRowCount =
    if (acceptedRequest e).isSome then (s.idRowCount + 1) % maxAmount else s.idRowCount
  kept : ∀ j, ((acceptedRequest e).isSome → j ≠ s.idRowCount) →
    SameClient (s.idTable j) (s'.idTable j)

theorem IdStep.fill (s₁ : Server) (hacc : (acceptedRequest e).isSome)
    (htable : s₁.idTable = s.idTable) (hcount : s₁.idRowCount = s.idRowCount) (oldID : UInt16)
    (addr : SockAddrIn) (isDone : Bool) (offset : Int) (url : CString) (time : SystemTime) :
    IdStep s e (s₁.fill oldID addr isDone offset url time) := by
  refine ⟨?_, ?_⟩
  · rw [if_pos hacc, ← hcount]; rfl
  · intro j hj
    have hne : j ≠ s₁.idRowCount := by rw [hcount]; exact hj hacc
    simp only [Server.fill, Function.update_of_ne hne, htable]
    exact .refl _

theorem SameClient.finish (s : Server) (temp j : Nat) :
    SameClient (s.idTable j) ((s.finish temp).idTable j) := by
  by_cases hj : j = temp
  · subst hj; simp only [Server.finish, Function.update_self]; exact .refl _
  · simp only [Server.finish, Function.update_of_ne hj]; exact .refl _

theorem cacheAnswers_ids {answers : List Answer}
    (h : cacheAnswers temp clock s i answers = some (s', o)) :
    s'.idTable = s.idTable ∧ s'.idRowCount = s.idRowCount ∧ ∀ x ∈ o, ∃ r d t n k, x = .cached r d t n k := by
  have hrule := cacheAnswers_rule
    (I := fun s₁ o => s₁.idTable = s.idTable ∧ s₁.idRowCount = s.idRowCount ∧
      ∀ x ∈ o, ∃ r d t n k, x = .cached r d t n k)
    (P := fun _ => True) h (fun _ _ => trivial) ⟨rfl, rfl, by simp⟩
  apply hrule
  intro s₁ pre ttl result r table time hI _ _ _ _
  refine ⟨hI.1, hI.2.1, fun x hx => ?_⟩
  rcases List.mem_append.mp hx with hx | hx
  · exact hI.2.2 x hx
  · rw [List.mem_singleton.mp hx]; exact ⟨_, _, _, _, _, rfl⟩

theorem IdStep.of_step (hs : serverStep uv s e = some (s', o)) : IdStep s e s' := by
  cases e with
  | request nread base addr clock =>
      cases onReadRequest_cases hs with
      | ignored _ hacc => exact ⟨by rw [hacc]; rfl, fun j _ => .refl _⟩
      | ptr _ _ _ _ hacc => exact .fill s (by rw [hacc]; rfl) rfl rfl ..
      | answered _ _ _ _ _ _ _ hacc => exact .fill s (by rw [hacc]; rfl) rfl rfl ..
      | missed _ _ _ _ hacc => exact .fill s (by rw [hacc]; rfl) rfl rfl ..
      | expired _ _ _ _ _ _ table _ hacc =>
          exact IdStep.fill (s := s) { s with dnsHashTable := table } (by rw [hacc]; rfl) rfl rfl ..
  | response nread base clock =>
      cases onReadResponse_cases hs with
      | dropped => exact ⟨rfl, fun j _ => .refl _⟩
      | relayed _ _ _ _ _ _ _ _ hc _ _ =>
          obtain ⟨htable, hcount, -⟩ := cacheAnswers_ids hc
          exact ⟨hcount, fun j _ => by rw [htable]; exact SameClient.finish ..⟩

theorem acceptedCount_cons (e : Event) (o : List Output) (tr : List (Event × List Output)) :
    acceptedCount ((e, o) :: tr) =
      acceptedCount tr + if (acceptedRequest e).isSome then 1 else 0 := by
  simp [acceptedCount, List.countP_cons]

/-- The row counter after a run, and a row that it has not come back to. -/
theorem ids_of_run {C : Server → Event → Prop} (hok : s₀.idRowCount < maxAmount)
    (hr : (serverStep uv).Run C s₀ s tr) :
    s.idRowCount = (s₀.idRowCount + acceptedCount tr) % maxAmount ∧
      ∀ j < maxAmount, (∀ k < acceptedCount tr, j ≠ (s₀.idRowCount + k) % maxAmount) →
        SameClient (s₀.idTable j) (s.idTable j) := by
  refine hr.invariant (I := fun s tr => s.idRowCount = (s₀.idRowCount + acceptedCount tr) % maxAmount ∧
      ∀ j < maxAmount, (∀ k < acceptedCount tr, j ≠ (s₀.idRowCount + k) % maxAmount) →
        SameClient (s₀.idTable j) (s.idTable j)) ⟨?_, fun j _ _ => .refl _⟩ ?_
  · simp [acceptedCount, Nat.mod_eq_of_lt hok]
  · intro s tr e s' o _ hi _ hs
    obtain ⟨hcount, hkept⟩ := hi
    have hstep := IdStep.of_step hs
    rw [acceptedCount_cons]
    cases hacc : (acceptedRequest e).isSome with
    | false =>
        have hc := hstep.count
        simp only [hacc, Bool.false_eq_true, ↓reduceIte, Nat.add_zero] at hc ⊢
        refine ⟨hc.trans hcount, fun j hj hne => ?_⟩
        exact (hkept j hj hne).trans (hstep.kept j (by simp [hacc]))
    | true =>
        refine ⟨?_, fun j hj hne => ?_⟩
        · have hc := hstep.count
          simp only [hacc, ↓reduceIte, hcount] at hc ⊢
          rw [hc]
          simp only [maxAmount]
          omega
        · simp only [↓reduceIte] at hne
          have hlast := hne (acceptedCount tr) (by omega)
          rw [← hcount] at hlast
          exact (hkept j hj fun k hk => hne k (by omega)).trans (hstep.kept j fun _ => hlast)

/-! ## The response -/

theorem cacheAnswer_defined_iff (h : s.Ok) (temp : Nat) (answer : Answer) (time : SystemTime) :
    (∃ s' o, cacheAnswer s temp time answer = some (s', o)) ↔
      (caches s temp answer = true → s.dnsRowCount < maxAmount) := by
  cases answer with
  | other type => simp [cacheAnswer, caches]
  | a ttl result =>
      have hfind := h.wellFormed.findValue h.nonempty s.str (s.idTable temp).url
      generalize ((visible (bucketEntries s.dnsHashTable
          (bucket s.dnsHashTable (s.idTable temp).url))).find?
            (s.str ·.1 = (s.idTable temp).url)).map Prod.snd = found at hfind
      cases found with
      | some v => simp [cacheAnswer, caches, hfind]
      | none =>
          obtain ⟨table, hins, -⟩ := h.wellFormed.insert h.nonempty
            (s.cacheRow temp ttl result time s.dnsHashTable).str (.url temp) s.dnsRowCount
          by_cases hlt : s.dnsRowCount < maxAmount
          · simp [cacheAnswer, caches, hfind, hlt, hins]
          · simp [cacheAnswer, caches, hfind, hlt]

theorem cacheAnswers_defined_iff (h : s.Ok) (temp : Nat) (clock : Nat → SystemTime)
    (answers : List Answer) (i : Nat) :
    (∃ s' o, cacheAnswers temp clock s i answers = some (s', o)) ↔
      ∀ p ∈ cachePoints temp clock s i answers, p.dnsRowCount < maxAmount := by
  induction answers generalizing s i with
  | nil => simp [cacheAnswers, cachePoints]
  | cons answer answers ih =>
      have hone := cacheAnswer_defined_iff h temp answer (clock i)
      cases hc : cacheAnswer s temp (clock i) answer with
      | none =>
          have hrow : ¬ (caches s temp answer = true → s.dnsRowCount < maxAmount) := by
            rw [← hone, hc]; simp
          simp only [Classical.not_imp] at hrow
          simp [cacheAnswers, cachePoints, hc, hrow.1, Nat.not_lt.mp hrow.2]
      | some r =>
          obtain ⟨s₁, o₁⟩ := r
          have hrow := hone.mp ⟨s₁, o₁, hc⟩
          have hok : s₁.Ok := by
            have hsingle : cacheAnswers temp clock s i [answer] = some (s₁, o₁ ++ []) := by
              simp [cacheAnswers, hc]
            exact h.cacheAnswers hsingle
          have hrest := ih hok (i + 1)
          simp only [cacheAnswers, cachePoints, hc, List.mem_append]
          constructor
          · rintro ⟨s', o, hs'⟩ p (hp | hp)
            · split at hp
              · rename_i hcaches
                rw [List.mem_singleton.mp hp]; exact hrow hcaches
              · cases hp
            · simp only [Option.bind_eq_bind, Option.bind_some, Option.bind_eq_some_iff,
                Prod.exists] at hs'
              obtain ⟨s₂, o₂, h₂, -⟩ := hs'
              exact hrest.mp ⟨s₂, o₂, h₂⟩ p hp
          · intro hP
            obtain ⟨s₂, o₂, h₂⟩ := hrest.mpr fun p hp => hP p (.inr hp)
            exact ⟨s₂, o₁ ++ o₂, by simp [h₂]⟩

/-- A response to a known row is relayed just when its records can be read and cached. -/
theorem relayed_iff (uv : LibUv) (h : s.Ok)
    (hrow : responseRow s (.response nread base clock) = some temp)
    (hlen : 2 ≤ base.length ∧ nread.toNat ≤ base.length) :
    (∃ s' o, onReadResponse uv s nread base clock = some (s', o)) ↔
      relayable s (.response nread base clock) = true := by
  obtain ⟨hrange, htemp, hover, raw, hraw, rfl⟩ := responseRow_eq_some hrow
  have hneg : ¬ (nread < 0 ∨ 1024 < nread) := by omega
  have hsplice := splice_zero (nhswap_s (s.idTable (nhswap_s raw).toNat).prevID) hlen.1
  have hslice : nread.toNat ≤ (toBytes2 (nhswap_s (s.idTable (nhswap_s raw).toNat).prevID) ++
      base.drop 2).length := by
    simp only [List.length_append, toBytes2_length, List.length_drop]; omega
  cases hans : responseAnswers base with
  | none =>
      simp [onReadResponse, hneg, hraw, Nat.not_le.mpr htemp, hover, hans, relayable]
  | some answers =>
      have hdef := cacheAnswers_defined_iff (h.finish (nhswap_s raw).toNat) (nhswap_s raw).toNat
        clock answers 1
      simp only [onReadResponse, hneg, ↓reduceIte, hraw, Nat.not_le.mpr htemp, hover, hans,
        Option.bind_eq_bind, Option.bind_some, Bool.false_eq_true, hsplice, slice, Nat.zero_add,
        hslice, relayable, Option.isSome_some, Bool.true_and, eventCachePoints, hrow,
        List.all_eq_true, decide_eq_true_eq]
      rw [← hdef]
      constructor
      · rintro ⟨s', o, hs'⟩
        simp only [Option.bind_eq_some_iff, Prod.exists] at hs'
        obtain ⟨s₁, cached, hc, -⟩ := hs'
        exact ⟨s₁, cached, hc⟩
      · rintro ⟨s₁, cached, hc⟩
        exact ⟨s₁, _, by rw [hc, Option.bind_some]⟩

/-! ## A forwarded query -/

theorem acceptedRequest_eq_some {r : UInt16 × CString × UInt16}
    (h : acceptedRequest (.request nread base addr clock) = some r) :
    read2 base 0 = some r.1 ∧ 16 < nread := by
  simp only [acceptedRequest] at h
  split at h
  · rename_i hrange
    obtain ⟨n, rfl⟩ := Int.eq_ofNat_of_zero_le hrange.1
    rw [Option.join_eq_some_iff] at h
    simp only [readRequest, Int.toNat_natCast, Option.bind_eq_bind, Option.bind_eq_some_iff] at h
    obtain ⟨pUrl, hurl, id, hid, h⟩ := h
    split at h
    · cases h
    · simp only [Option.bind_eq_some_iff, Option.some.injEq, Option.map_eq_some_iff] at h
      obtain ⟨reqType, -, _, -, url, rfl, rfl⟩ := h
      refine ⟨hid, ?_⟩
      by_contra hsmall
      rw [parseUrlFromData, if_pos (.inr (by omega))] at hurl
      simp at hurl
  · cases h

/-- The row of a forwarded query holds what its response needs, and its number goes upstream. -/
structure Forwarded (s : Server) (base : List UInt8) (addr : SockAddrIn) (clock : Nat → SystemTime)
    (s' : Server) (data : List UInt8) : Prop where
  upstream : data.take 2 = toBytes2 (nhswap_s (UInt16.ofNat s.idRowCount))
  count : s'.idRowCount = (s.idRowCount + 1) % maxAmount
  prevID : toBytes2 (nhswap_s (s'.idTable s.idRowCount).prevID) = base.take 2
  client : (s'.idTable s.idRowCount).client = addr
  joinTime : (s'.idTable s.idRowCount).joinTime = (now (clock 1)).toNat

theorem Forwarded.of_fill {s₁ : Server} {id : UInt16} {n : Int} {base' : List UInt8}
    (h : s.idRowCount < maxAmount) (hcount : s₁.idRowCount = s.idRowCount)
    (hid : read2 base 0 = some id) (hlen : 16 < nread)
    (hbase : splice base 0 (toBytes2 (nhswap_s (UInt16.ofNat
      (((s.idRowCount + 1) % maxAmount + maxAmount - 1) % maxAmount)))) = some base') :
    Forwarded s base addr clock (s₁.fill (nhswap_s id) addr false n url (clock 1))
      (base'.take nread.toNat) := by
  have hrow : ((s.idRowCount + 1) % maxAmount + maxAmount - 1) % maxAmount = s.idRowCount := by
    simp only [maxAmount] at h ⊢; omega
  rw [hrow] at hbase
  obtain ⟨-, rfl⟩ := splice_zero_eq_some hbase
  have hmin : min 2 nread.toNat = 2 := by omega
  refine ⟨?_, ?_, ?_, ?_, ?_⟩
  · rw [List.take_take, hmin]; rfl
  · simp [Server.fill, hcount]
  · simp [Server.fill, hcount, nhswap_s_nhswap_s, toBytes2_of_read2 hid]
  · simp [Server.fill, hcount]
  · simp [Server.fill, hcount]

theorem forwarded_of_step (h : s.Ok)
    (hq : serverStep uv s (.request nread base addr clock) = some (s', [.toServer data])) :
    Forwarded s base addr clock s' data := by
  generalize hout : [Output.toServer data] = out at hq
  cases onReadRequest_cases hq with
  | ignored _ _ hclose =>
      have := hclose (.toServer data) (by rw [← hout]; simp)
      cases this
  | ptr => cases hout
  | answered => cases hout
  | missed id url type base' hacc _ _ _ hbase =>
      cases hout
      obtain ⟨hid, hlen⟩ := acceptedRequest_eq_some hacc
      exact .of_fill h.idRow rfl hid hlen hbase
  | expired id url type node row r table base' hacc _ _ _ _ _ hbase =>
      cases hout
      obtain ⟨hid, hlen⟩ := acceptedRequest_eq_some hacc
      exact .of_fill h.idRow rfl hid hlen hbase

theorem rowID_toNat {row : Nat} (h : row < maxAmount) : (UInt16.ofNat row).toNat = row := by
  apply UInt16.toNat_ofNat_of_lt'
  exact Nat.lt_trans h (by decide)

theorem upstream_injective {r r' : Nat} (hr : r < maxAmount) (hr' : r' < maxAmount)
    (h : toBytes2 (nhswap_s (UInt16.ofNat r)) = toBytes2 (nhswap_s (UInt16.ofNat r'))) : r = r' := by
  have hread := read2_toBytes2 (nhswap_s (UInt16.ofNat r)) []
  rw [h, read2_toBytes2, Option.some.injEq] at hread
  have hid := congrArg nhswap_s hread
  rw [nhswap_s_nhswap_s, nhswap_s_nhswap_s] at hid
  rw [← rowID_toNat hr, ← rowID_toNat hr', hid]

/-- The ID that a response echoes names the row of its query. -/
theorem responseRow_of_echo {n : Int} {row : Nat} (hrow : row < maxAmount)
    (hrange : 2 ≤ n ∧ n ≤ 1024) (hecho : base.take 2 = toBytes2 (nhswap_s (UInt16.ofNat row)))
    (htime : overTime (s.idTable row) (clock 0) = false) :
    responseRow s (.response n base clock) = some row := by
  have hraw := read2_of_take hecho
  have h0 : 0 ≤ n ∧ n ≤ 1024 := ⟨by omega, hrange.2⟩
  simp [responseRow, h0, hraw, nhswap_s_nhswap_s, rowID_toNat hrow, hrow, htime]

theorem toClients_cached {cached : List Output} (h : ∀ x ∈ cached, ∃ r d t n k, x = .cached r d t n k)
    (dest : SockAddrIn) (data : List UInt8) :
    toClients (cached ++ [.toClient dest data]) = [(dest, data)] := by
  have hnil : toClients cached = [] := by
    apply List.filterMap_eq_nil_iff.mpr
    intro x hx
    obtain ⟨r, d, t, n, k, rfl⟩ := h x hx
    rfl
  have happ : toClients (cached ++ [.toClient dest data]) =
      toClients cached ++ toClients [.toClient dest data] := List.filterMap_append
  rw [happ, hnil]
  rfl

/-- The response to a query that was forwarded fewer than `maxAmount` accepted requests ago goes to
the client that sent it, with the client's ID, just when its records can be read and cached. Queries
that close together carry different IDs. -/
theorem response_reaches_client (uv : LibUv) (huv : ∀ a, uv.ip4Addr (uv.ip4Name a 16) = a)
    {file : List UInt8} {s₁ s₂ s₃ : Server} {tr₁ tr₂ : List (Event × List Output)}
    (hload : loadDNSTableData file = some s₀) (h₁ : (serverStep uv).AnyRun s₀ s₁ tr₁)
    (hq : serverStep uv s₁ (.request nread base addr clock) = some (s₂, [.toServer data]))
    (h₂ : (serverStep uv).AnyRun s₂ s₃ tr₂) (hfew : acceptedCount tr₂ < maxAmount) :
    (∀ (n : Int) (resp : List UInt8) (clock' : Nat → SystemTime), 2 ≤ n ∧ n ≤ 1024 →
      n.toNat ≤ resp.length → resp.take 2 = data.take 2 →
      ¬ 2 < ((now (clock' 0)).toNat : Int) - (now (clock 1)).toNat →
      ((∃ s₄ o, serverStep uv s₃ (.response n resp clock') = some (s₄, o) ∧
          toClients o = [(addr, base.take 2 ++ (resp.take n.toNat).drop 2)]) ↔
        relayable s₃ (.response n resp clock') = true)) ∧
    ∀ (n : Int) (base' : List UInt8) (addr' : SockAddrIn) (clock' : Nat → SystemTime) (s₄ : Server)
      (data' : List UInt8), acceptedCount tr₂ + 1 < maxAmount →
      serverStep uv s₃ (.request n base' addr' clock') = some (s₄, [.toServer data']) →
      data'.take 2 ≠ data.take 2 := by
  have hok₁ := (Server.Ok.load hload).run h₁
  have hok₂ := hok₁.step hq
  have hok₃ := hok₂.run h₂
  have hrow := hok₁.idRow
  have hfwd := forwarded_of_step hok₁ hq
  obtain ⟨hcount, hkept⟩ := ids_of_run hok₂.idRow h₂
  rw [hfwd.count] at hcount hkept
  have hsame := hkept s₁.idRowCount hrow fun k hk => by
    simp only [maxAmount] at hfew hrow ⊢; omega
  refine ⟨?_, ?_⟩
  · intro n resp clock' hn hlen hecho htime
    have hresp : responseRow s₃ (.response n resp clock') = some s₁.idRowCount := by
      apply responseRow_of_echo hrow hn (hecho.trans hfwd.upstream)
      rw [overTime, hsame.2.2.1, hfwd.joinTime]
      simpa using htime
    have hdef := relayed_iff uv hok₃ hresp ⟨by omega, hlen⟩
    rw [← hdef]
    constructor
    · rintro ⟨s₄, o, hs, -⟩
      exact ⟨s₄, o, hs⟩
    · rintro ⟨s₄, o, hs⟩
      refine ⟨s₄, o, hs, ?_⟩
      cases onReadResponse_cases hs with
      | dropped _ hnone => rw [hresp] at hnone; cases hnone
      | relayed temp answers s₄ cached resp' htemp _ _ hcache hsplice _ =>
          rw [hresp] at htemp
          cases htemp
          obtain ⟨-, -, hcached⟩ := cacheAnswers_ids hcache
          obtain ⟨h2, rfl⟩ := splice_zero_eq_some hsplice
          rw [toClients_cached hcached, hsame.1, hsame.2.1, hfwd.client, hfwd.prevID, huv,
            nhswap_s_nhswap_s]
          have hmin : (base.take 2).length = 2 := by rw [← hfwd.prevID]; rfl
          have htake : n.toNat = 2 + (n.toNat - 2) := by omega
          rw [htake, List.take_append, hmin, List.take_of_length_le (by omega), List.drop_take]
  · intro n base' addr' clock' s₄ data' hfew' hq'
    have hfwd' := forwarded_of_step hok₃ hq'
    rw [hfwd'.upstream, hfwd.upstream]
    intro heq
    have hrows := upstream_injective hok₃.idRow hrow heq
    rw [hcount] at hrows
    simp only [maxAmount] at hrows hfew' hrow
    omega

/-! ## One query -/

/-- A datagram in a receive buffer. -/
def received (bytes : List UInt8) : List UInt8 := bytes ++ List.replicate (96 - bytes.length) 0

/-- The header and the question of the name of the two letters, of type A. -/
def questionBytes (id flags : UInt16) (answers : UInt8) (a b : UInt8) : List UInt8 :=
  toBytes2 (nhswap_s id) ++ toBytes2 (nhswap_s flags) ++ [0, 1, 0, answers, 0, 0, 0, 0] ++
    [2, a, b, 0] ++ [0, 1, 0, 1]

def queryEvent (id : UInt16) (a b : UInt8) (addr : SockAddrIn) (time : SystemTime) : Event :=
  .request 20 (received (questionBytes id 0x0100 0 a b)) addr fun _ => time

/-- A response with one record of type A. -/
def responseBytes (id : UInt16) (a b : UInt8) (ttl : UInt8) (ip : List UInt8) : List UInt8 :=
  questionBytes id 0x8180 1 a b ++ [0xc0, 12, 0, 1, 0, 1, 0, 0, 0, ttl, 0, UInt8.ofNat ip.length] ++ ip

def responseEvent (id : UInt16) (a b : UInt8) (ttl : UInt8) (ip : List UInt8) (time : SystemTime) :
    Event :=
  .response (responseBytes id a b ttl ip).length (received (responseBytes id a b ttl ip)) fun _ => time

/-- The last day of a January. -/
def jan31 : SystemTime :=
  { wYear := 2020, wMonth := 1, wDay := 31, wHour := 23, wMinute := 59, wSecond := 51,
    wMilliseconds := 0 }

def client₁ : SockAddrIn := ⟨0x0100007f, 0x3930⟩

theorem response_reaches_client_example :
    ∃ s₂ s₄ o, serverStep dottedUv emptyServer (queryEvent 7 97 98 client₁ jan31) =
        some (s₂, [.toServer (questionBytes 0 0x0100 0 97 98)]) ∧
      serverStep dottedUv s₂ (responseEvent 0 97 98 60 [1, 2, 3, 4] jan31) = some (s₄, o) ∧
      toClients o = [(client₁, responseBytes 7 97 98 60 [1, 2, 3, 4])] := by
  have hload : loadDNSTableData [] = some emptyServer := rfl
  have hq := Machine.step_eq_after (serverStep dottedUv) emptyServer
    (queryEvent 7 97 98 client₁ jan31) (by decide +kernel)
  have hout : Machine.outputAfter (serverStep dottedUv) emptyServer (queryEvent 7 97 98 client₁ jan31) =
      [.toServer (questionBytes 0 0x0100 0 97 98)] := by decide +kernel
  rw [hout] at hq
  obtain ⟨hrelay, -⟩ := response_reaches_client dottedUv dottedAddr_dottedName hload .init hq .init
    (by decide)
  obtain ⟨s₄, o, hs, ho⟩ := (hrelay 36 (received (responseBytes 0 97 98 60 [1, 2, 3, 4]))
    (fun _ => jan31) (by decide) (by decide) (by decide) (by decide)).mpr (by decide +kernel)
  refine ⟨_, s₄, o, hq, hs, ho.trans ?_⟩
  decide +kernel

/-- An address record of twenty bytes is longer as a text than the buffer it is written to. -/
theorem response_lost :
    ∃ s₂, serverStep dottedUv emptyServer (queryEvent 7 97 98 client₁ jan31) =
        some (s₂, [.toServer (questionBytes 0 0x0100 0 97 98)]) ∧
      responseRow s₂ (responseEvent 0 97 98 60 (List.replicate 20 255) jan31) = some 0 ∧
      serverStep dottedUv s₂ (responseEvent 0 97 98 60 (List.replicate 20 255) jan31) = none := by
  have hq := Machine.step_eq_after (serverStep dottedUv) emptyServer
    (queryEvent 7 97 98 client₁ jan31) (by decide +kernel)
  have hout : Machine.outputAfter (serverStep dottedUv) emptyServer (queryEvent 7 97 98 client₁ jan31) =
      [.toServer (questionBytes 0 0x0100 0 97 98)] := by decide +kernel
  rw [hout] at hq
  exact ⟨_, hq, by decide +kernel, by decide +kernel⟩

end TermCollection.Dns
