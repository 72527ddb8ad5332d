import TermCollection.Dns.Server

/-!
# What a step can do

The cases of the two handlers, from which the invariants of the server are derived.
-/

namespace TermCollection.Dns

variable {uv : LibUv} {s s' : Server} {nread : Int} {base : List UInt8} {addr : SockAddrIn}
variable {clock : Nat → SystemTime} {o : List Output} {url : CString} {id type : UInt16}
variable {temp i : Nat} {time : SystemTime}

/-- What a request does to the state, and what it sends. -/
inductive RequestStep (s : Server) (nread : Int) (base : List UInt8) (addr : SockAddrIn)
    (clock : Nat → SystemTime) : Server → List Output → Prop
  | ignored (o : List Output) :
      acceptedRequest (.request nread base addr clock) = none →
      (∀ x ∈ o, x = .close .localSocket) → RequestStep s nread base addr clock s o
  | ptr (id : UInt16) (url : CString) (dest : SockAddrIn) (data : List UInt8) :
      acceptedRequest (.request nread base addr clock) = some (id, url, typePTR) →
      url.length < arrLength →
      RequestStep s nread base addr clock
        (s.fill (nhswap_s id) addr true nread url (clock 1)) [.toClient dest data]
  | answered (id : UInt16) (url : CString) (type : UInt16) (node row : Nat) (dest : SockAddrIn)
      (data : List UInt8) :
      acceptedRequest (.request nread base addr clock) = some (id, url, type) → type ≠ typePTR →
      url.length < arrLength → lookupRow s url = some (some (node, row)) →
      now (clock 0) < (s.dnsTable row).ttl →
      RequestStep s nread base addr clock
        (s.fill (nhswap_s id) addr true nread url (clock 1)) [.toClient dest data]
  | missed (id : UInt16) (url : CString) (type : UInt16) (base' : List UInt8) :
      acceptedRequest (.request nread base addr clock) = some (id, url, type) → type ≠ typePTR →
      url.length < arrLength → lookupRow s url = some none →
      splice base 0 (toBytes2 (nhswap_s (UInt16.ofNat
        (((s.idRowCount + 1) % maxAmount + maxAmount - 1) % maxAmount)))) = some base' →
      RequestStep s nread base addr clock
        (s.fill (nhswap_s id) addr false nread url (clock 1)) [.toServer (base'.take nread.toNat)]
  | expired (id : UInt16) (url : CString) (type : UInt16) (node row : Nat) (r : Bool)
      (table : HashTable KeyRef Nat) (base' : List UInt8) :
      acceptedRequest (.request nread base addr clock) = some (id, url, type) → type ≠ typePTR →
      url.length < arrLength → lookupRow s url = some (some (node, row)) →
      ¬ now (clock 0) < (s.dnsTable row).ttl →
      removeHashItemByNode s.dnsHashTable (some node) = some (r, table) →
      splice base 0 (toBytes2 (nhswap_s (UInt16.ofNat
        (((s.idRowCount + 1) % maxAmount + maxAmount - 1) % maxAmount)))) = some base' →
      RequestStep s nread base addr clock
        ({ s with dnsHashTable := table }.fill (nhswap_s id) addr false nread url (clock 1))
        [.toServer (base'.take nread.toNat)]

theorem getNewID_eq_some {oldID newID : UInt16} {isDone : Bool} {offset : Int}
    (h : getNewID s oldID addr isDone offset url time = some (newID, s')) :
    url.length < arrLength ∧ s' = s.fill oldID addr isDone offset url time ∧
      newID = UInt16.ofNat (((s.idRowCount + 1) % maxAmount + maxAmount - 1) % maxAmount) := by
  unfold getNewID at h
  split at h
  · rename_i hlen
    simp only [Option.some.injEq, Prod.mk.injEq] at h
    obtain ⟨rfl, rfl⟩ := h
    exact ⟨hlen, rfl, rfl⟩
  · cases h

theorem replyLocal_eq_some {newID answerNum : UInt16} {ip : List UInt8} {n : Nat}
    (h : replyLocal uv s newID base n addr answerNum ip = some o) :
    ∃ dest data, o = [.toClient dest data] := by
  simp only [replyLocal, Option.bind_eq_bind, Option.bind_eq_some_iff] at h
  obtain ⟨_, -, _, -, _, -, h⟩ := h
  split at h
  · cases h; exact ⟨_, _, rfl⟩
  · cases h

theorem forwardRequest_eq_some {n : Nat}
    (h : forwardRequest s base n id addr url clock = some (s', o)) :
    url.length < arrLength ∧ s' = s.fill (nhswap_s id) addr false n url (clock 1) ∧
      ∃ base', splice base 0 (toBytes2 (nhswap_s (UInt16.ofNat
        (((s.idRowCount + 1) % maxAmount + maxAmount - 1) % maxAmount)))) = some base' ∧
        o = [.toServer (base'.take n)] := by
  simp only [forwardRequest, Option.bind_eq_bind, Option.bind_eq_some_iff, Option.some.injEq,
    Prod.mk.injEq, Prod.exists] at h
  obtain ⟨newID, s₁, hid, base', hbase, rfl, rfl⟩ := h
  obtain ⟨hlen, rfl, rfl⟩ := getNewID_eq_some hid
  exact ⟨hlen, rfl, base', hbase, rfl⟩

theorem onReadRequest_cases (h : onReadRequest uv s nread base addr clock = some (s', o)) :
    RequestStep s nread base addr clock s' o := by
  unfold onReadRequest at h
  split at h
  · rename_i hneg
    cases h
    exact .ignored _ (if_neg (by omega)) (by simp)
  · rename_i hnonneg
    split at h
    · rename_i hbig
      cases h
      exact .ignored _ (if_neg (by omega)) (by simp)
    · rename_i hsmall
      obtain ⟨n, rfl⟩ := Int.eq_ofNat_of_zero_le (Int.not_lt.mp hnonneg)
      have hacc : acceptedRequest (.request n base addr clock) = (readRequest base n).join :=
        if_pos ⟨by omega, by omega⟩
      simp only [Option.bind_eq_bind, Option.bind_eq_some_iff, Int.toNat_natCast] at h
      obtain ⟨r, hr, h⟩ := h
      rw [hr] at hacc
      cases r with
      | none => cases h; exact .ignored _ hacc (by simp)
      | some r =>
          obtain ⟨id, url, type⟩ := r
          dsimp only at h
          split at h
          · rename_i hptr
            subst hptr
            simp only [answerPTR, Option.bind_eq_bind, Option.bind_eq_some_iff, Option.some.injEq,
              Prod.mk.injEq, Prod.exists] at h
            obtain ⟨_, -, newID, s₁, hid, o, ho, rfl, rfl⟩ := h
            obtain ⟨hlen, rfl, -⟩ := getNewID_eq_some hid
            obtain ⟨dest, data, rfl⟩ := replyLocal_eq_some ho
            exact .ptr id url dest data hacc hlen
          · rename_i hptr
            simp only [answerName, Option.bind_eq_bind, Option.bind_eq_some_iff] at h
            obtain ⟨found, hfound, h⟩ := h
            cases found with
            | none =>
                obtain ⟨hlen, rfl, base', hbase, rfl⟩ := forwardRequest_eq_some h
                exact .missed id url type base' hacc hptr hlen hfound hbase
            | some found =>
                obtain ⟨node, row⟩ := found
                dsimp only at h
                split at h
                · rename_i httl
                  simp only [answerLocal, Option.bind_eq_bind, Option.bind_eq_some_iff,
                    Option.some.injEq, Prod.mk.injEq, Prod.exists] at h
                  obtain ⟨newID, s₁, hid, o, ho, rfl, rfl⟩ := h
                  obtain ⟨hlen, rfl, -⟩ := getNewID_eq_some hid
                  obtain ⟨dest, data, rfl⟩ := replyLocal_eq_some ho
                  exact .answered id url type node row dest data hacc hptr hlen hfound httl
                · rename_i httl
                  simp only [Option.bind_eq_some_iff, Prod.exists] at h
                  obtain ⟨r, table, hrem, h⟩ := h
                  obtain ⟨hlen, rfl, base', hbase, rfl⟩ := forwardRequest_eq_some h
                  exact .expired id url type node row r table base' hacc hptr hlen hfound httl hrem
                    hbase

theorem expiredNode_eq {node row : Nat}
    (hacc : acceptedRequest (.request nread base addr clock) = some (id, url, type))
    (hptr : type ≠ typePTR) (hrow : lookupRow s url = some (some (node, row)))
    (hend : ¬ now (clock 0) < (s.dnsTable row).ttl) :
    expiredNode s (.request nread base addr clock) = some node := by
  simp only [expiredNode, hacc, hptr, ↓reduceIte, hrow, hend]

/-- What a response does to the state, and what it sends. -/
inductive ResponseStep (uv : LibUv) (s : Server) (nread : Int) (base : List UInt8)
    (clock : Nat → SystemTime) : Server → List Output → Prop
  | dropped (o : List Output) : responseRow s (.response nread base clock) = none →
      (∀ x ∈ o, x = .close .serverSocket) → ResponseStep uv s nread base clock s o
  | relayed (temp : Nat) (answers : List Answer) (s' : Server) (cached : List Output)
      (base' : List UInt8) :
      responseRow s (.response nread base clock) = some temp → temp < maxAmount →
      responseAnswers base = some answers →
      cacheAnswers temp clock (s.finish temp) 1 answers = some (s', cached) →
      splice base 0 (toBytes2 (nhswap_s (s.idTable temp).prevID)) = some base' →
      nread.toNat ≤ base'.length →
      ResponseStep uv s nread base clock s' (cached ++
        [.toClient ⟨uv.ip4Addr (uv.ip4Name (s.idTable temp).client.sin_addr 16),
          nhswap_s (nhswap_s (s.idTable temp).client.sin_port)⟩ (base'.take nread.toNat)])

theorem responseRow_eq_some {r : Nat} (h : responseRow s (.response nread base clock) = some r) :
    (0 ≤ nread ∧ nread ≤ 1024) ∧ r < maxAmount ∧ overTime (s.idTable r) (clock 0) = false ∧
      ∃ raw, read2 base 0 = some raw ∧ (nhswap_s raw).toNat = r := by
  simp only [responseRow] at h
  split at h
  · rename_i hrange
    simp only [Option.bind_eq_bind, Option.bind_eq_some_iff] at h
    obtain ⟨raw, hraw, h⟩ := h
    split at h
    · rename_i hok
      cases h
      exact ⟨hrange, hok.1, hok.2, raw, hraw, rfl⟩
    · cases h
  · cases h

theorem slice_zero {n : Nat} {data : List UInt8} (h : slice base 0 n = some data) :
    n ≤ base.length ∧ data = base.take n := by
  unfold slice at h
  split at h
  · rename_i hn
    cases h
    exact ⟨by omega, rfl⟩
  · cases h

theorem onReadResponse_cases (h : onReadResponse uv s nread base clock = some (s', o)) :
    ResponseStep uv s nread base clock s' o := by
  unfold onReadResponse at h
  split at h
  · rename_i hrange
    cases h
    exact .dropped _ (if_neg (by omega)) (by simp)
  · rename_i hrange
    have hrange' : 0 ≤ nread ∧ nread ≤ 1024 := by omega
    simp only [Option.bind_eq_bind, Option.bind_eq_some_iff] at h
    obtain ⟨raw, hraw, h⟩ := h
    split at h
    · cases h
    · rename_i htemp
      have htemp' : (nhswap_s raw).toNat < maxAmount := Nat.not_le.mp htemp
      split at h
      · rename_i hover
        cases h
        refine .dropped _ ?_ (by simp)
        simp [responseRow, hrange', hraw, hover]
      · rename_i hover
        simp only [Option.bind_eq_some_iff, Option.some.injEq, Prod.mk.injEq, Prod.exists] at h
        obtain ⟨answers, hans, s₁, cached, hcache, base', hbase, data, hdata, rfl, rfl⟩ := h
        obtain ⟨hlen, rfl⟩ := slice_zero hdata
        refine .relayed _ answers s₁ cached base' ?_ htemp' hans hcache hbase hlen
        simp [responseRow, hrange', hraw, hover, htemp']

/-! ## The loop over the answers -/

theorem cacheAnswer_cases {answer : Answer} (h : cacheAnswer s temp time answer = some (s', o)) :
    (s' = s ∧ o = []) ∨ ∃ ttl result r table, caches s temp answer = true ∧
      s.dnsRowCount < maxAmount ∧
      findValueByKey s.str s.dnsHashTable (s.idTable temp).url = some none ∧
      insertHashItem (s.cacheRow temp ttl result time s.dnsHashTable).str s.dnsHashTable (.url temp)
        s.dnsRowCount = some (r, table) ∧
      s' = s.cacheRow temp ttl result time table ∧
      o = [.cached s.dnsRowCount (s.idTable temp).url result ttl time] := by
  cases answer with
  | other type => cases h; exact .inl ⟨rfl, rfl⟩
  | a ttl result =>
      simp only [cacheAnswer, Option.bind_eq_bind, Option.bind_eq_some_iff] at h
      obtain ⟨found, hfound, h⟩ := h
      cases found with
      | some row => cases h; exact .inl ⟨rfl, rfl⟩
      | none =>
          dsimp only at h
          split at h
          · rename_i hrow
            simp only [Option.bind_eq_some_iff, Option.some.injEq, Prod.mk.injEq, Prod.exists] at h
            obtain ⟨r, table, hins, rfl, rfl⟩ := h
            exact .inr ⟨ttl, result, r, table, by simp [caches, hfound], hrow, hfound, hins, rfl, rfl⟩
          · cases h

theorem cacheAnswers_rule_from {I : Server → List Output → Prop} {P : Server → Prop}
    {answers : List Answer} {pre : List Output}
    (h : cacheAnswers temp clock s i answers = some (s', o))
    (hP : ∀ p ∈ cachePoints temp clock s i answers, P p) (hI : I s pre)
    (hstep : ∀ (s : Server) (pre : List Output) (ttl : UInt32) (result : CString) (r : Bool)
      (table : HashTable KeyRef Nat) (time : SystemTime), I s pre → P s → s.dnsRowCount < maxAmount →
      findValueByKey s.str s.dnsHashTable (s.idTable temp).url = some none →
      insertHashItem (s.cacheRow temp ttl result time s.dnsHashTable).str s.dnsHashTable (.url temp)
        s.dnsRowCount = some (r, table) →
      I (s.cacheRow temp ttl result time table)
        (pre ++ [.cached s.dnsRowCount (s.idTable temp).url result ttl time])) :
    I s' (pre ++ o) := by
  induction answers generalizing s i o pre with
  | nil => cases h; simpa using hI
  | cons answer answers ih =>
      simp only [cacheAnswers, Option.bind_eq_bind, Option.bind_eq_some_iff, Option.some.injEq,
        Prod.mk.injEq, Prod.exists] at h
      obtain ⟨s₁, o₁, h₁, s₂, o₂, h₂, rfl, rfl⟩ := h
      simp only [cachePoints, h₁, List.mem_append] at hP
      rw [← List.append_assoc]
      apply ih h₂ (fun p hp => hP p (.inr hp))
      rcases cacheAnswer_cases h₁ with
        ⟨rfl, rfl⟩ | ⟨ttl, result, r, table, hc, hrow, hfind, hins, rfl, rfl⟩
      · simpa using hI
      · exact hstep s pre ttl result r table _ hI (hP s (by simp [hc])) hrow hfind hins

/-- What is kept by every caching in a state that satisfies `P` is kept by the loop. -/
theorem cacheAnswers_rule {I : Server → List Output → Prop} {P : Server → Prop}
    {answers : List Answer} (h : cacheAnswers temp clock s i answers = some (s', o))
    (hP : ∀ p ∈ cachePoints temp clock s i answers, P p) (hI : I s [])
    (hstep : ∀ (s : Server) (pre : List Output) (ttl : UInt32) (result : CString) (r : Bool)
      (table : HashTable KeyRef Nat) (time : SystemTime), I s pre → P s → s.dnsRowCount < maxAmount →
      findValueByKey s.str s.dnsHashTable (s.idTable temp).url = some none →
      insertHashItem (s.cacheRow temp ttl result time s.dnsHashTable).str s.dnsHashTable (.url temp)
        s.dnsRowCount = some (r, table) →
      I (s.cacheRow temp ttl result time table)
        (pre ++ [.cached s.dnsRowCount (s.idTable temp).url result ttl time])) :
    I s' o := cacheAnswers_rule_from h hP hI hstep

end TermCollection.Dns
