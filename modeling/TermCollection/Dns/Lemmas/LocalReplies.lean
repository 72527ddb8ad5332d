import TermCollection.Dns.Lemmas.Replies

/-!
# Replies that the server builds itself

A reply is the request with other flags and another answer count, and an answer behind it.
-/

namespace TermCollection.Dns

variable {uv : LibUv} {s s' : Server} {nread : Int} {base base' query bytes ip : List UInt8}
variable {addr dest : SockAddrIn} {clock : Nat → SystemTime} {o : List Output}
variable {id newID answerNum : UInt16} {i n : Nat} {data : List UInt8} {url : CString}

/-- The reply to a request with an answer count, as it is in memory, and an address. -/
def replyBytes (query : List UInt8) (answerNum : UInt16) (ip : List UInt8) : List UInt8 :=
  query.take 2 ++ toBytes2 (nhswap_s 0x8180) ++ (query.drop 4).take 2 ++ toBytes2 answerNum ++
    query.drop 8 ++ answerBytes ip

theorem splice_eq_some (h : splice base i bytes = some base') :
    i + bytes.length ≤ base.length ∧ base' = base.take i ++ bytes ++ base.drop (i + bytes.length) := by
  unfold splice at h
  split at h
  · rename_i hfits
    exact ⟨hfits, (Option.some.inj h).symm⟩
  · cases h

theorem splice_drop (h : splice base i bytes = some base') :
    base'.drop i = bytes ++ base.drop (i + bytes.length) := by
  obtain ⟨hfits, rfl⟩ := splice_eq_some h
  have hlength : (base.take i).length = i := List.length_take_of_le (by omega)
  rw [List.append_assoc, List.drop_left' hlength]

theorem splice_length (h : splice base i bytes = some base') : base'.length = base.length := by
  obtain ⟨hfits, rfl⟩ := splice_eq_some h
  simp only [List.length_append, List.length_take, List.length_drop]
  omega

theorem splice_drop_add (h : splice base i bytes = some base') (k : Nat) :
    base'.drop (i + bytes.length + k) = base.drop (i + bytes.length + k) := by
  rw [Nat.add_assoc, ← List.drop_drop, splice_drop h, List.drop_append, ← List.drop_drop]
  simp [Nat.add_assoc]

theorem replyLocal_data (h : replyLocal uv s newID base n addr answerNum ip = some o) (hn : 8 ≤ n)
    (hip : ip.length = 4) : ∃ dest, o = [.toClient dest (replyBytes (base.take n) answerNum ip)] := by
  simp only [replyLocal, Option.bind_eq_bind, Option.bind_eq_some_iff] at h
  obtain ⟨b₁, h₁, b₂, h₂, b₃, h₃, h⟩ := h
  split at h
  · cases h
    refine ⟨_, congrArg (fun data => [Output.toClient _ data]) ?_⟩
    have hans := answerBytes_length hip
    have hfits := (splice_eq_some h₃).1
    have hlen₁ := splice_length h₁
    have hlen₂ := splice_length h₂
    have hthird : b₃.take (n + 16) = b₂.take n ++ answerBytes ip := by
      rw [(splice_eq_some h₃).2, List.take_left' ?_]
      rw [List.length_append, List.length_take_of_le (by omega), hans]
    have hsecond : b₂.take n = b₁.take 6 ++ toBytes2 answerNum ++ (base.take n).drop 8 := by
      have hdrop : b₁.drop 8 = base.drop 8 := splice_drop_add h₁ 4
      have hsix : (b₁.take 6 ++ toBytes2 answerNum).length = 8 := by
        rw [List.length_append, List.length_take_of_le (by omega), toBytes2_length]
      rw [(splice_eq_some h₂).2, List.take_append, hsix, List.take_of_length_le (by omega),
        toBytes2_length, hdrop, List.drop_take]
    have hfirst : b₁.take 6 = (base.take n).take 2 ++ toBytes2 (nhswap_s 0x8180) ++
        ((base.take n).drop 4).take 2 := by
      have htwo : (base.take 2 ++ toBytes2 (nhswap_s 0x8180)).length = 4 := by
        rw [List.length_append, List.length_take_of_le (by omega), toBytes2_length]
      rw [(splice_eq_some h₁).2, List.take_append, htwo, List.take_of_length_le (by omega),
        toBytes2_length, List.take_take, Nat.min_eq_left (by omega), List.drop_take, List.take_take,
        Nat.min_eq_left (by omega)]
    rw [hthird, hsecond, hfirst, replyBytes]
  · cases h

theorem drop_replyBytes (answerNum : UInt16) (ip : List UInt8) (h : 8 ≤ query.length) :
    (replyBytes query answerNum ip).drop query.length = answerBytes ip := by
  have hlength : (query.take 2 ++ toBytes2 (nhswap_s 0x8180) ++ (query.drop 4).take 2 ++ toBytes2 answerNum ++
      query.drop 8).length = query.length := by
    simp only [List.length_append, List.length_take, List.length_drop, toBytes2_length]
    omega
  rw [replyBytes, List.drop_left' hlength]

theorem nread_le_of_accepted {r : UInt16 × CString × UInt16}
    (h : acceptedRequest (.request nread base addr clock) = some r) : nread.toNat ≤ base.length := by
  simp only [acceptedRequest] at h
  split at h
  · rw [Option.join_eq_some_iff] at h
    simp only [readRequest, Option.bind_eq_bind, Option.bind_eq_some_iff] at h
    obtain ⟨name, -, id, -, h⟩ := h
    split at h
    · cases h
    · simp only [Option.bind_eq_some_iff] at h
      obtain ⟨type, -, cls, hcls, -⟩ := h
      have hrange := read2_range.mp ⟨cls, hcls⟩
      omega
  · cases h

/-! ## Requests that are answered -/

/-- What a client is sent for a request that is not forwarded. -/
inductive LocalReply (s : Server) (nread : Int) (base : List UInt8) (addr : SockAddrIn)
    (clock : Nat → SystemTime) : List UInt8 → Prop
  | ptr (id : UInt16) (url result : CString) :
      acceptedRequest (.request nread base addr clock) = some (id, url, typePTR) →
      LocalReply s nread base addr clock
        (replyBytes (base.take nread.toNat) (nhswap_s 0x8180) (inet_addr_t result))
  | row (id : UInt16) (url : CString) (type : UInt16) (node row : Nat) :
      acceptedRequest (.request nread base addr clock) = some (id, url, type) → type ≠ typePTR →
      lookupRow s url = some (some (node, row)) → now (clock 0) < (s.dnsTable row).ttl →
      LocalReply s nread base addr clock
        (replyBytes (base.take nread.toNat)
          (nhswap_s (if (s.dnsTable row).data = bannedIP then 0x0000 else 0x0001))
          (inet_addr_t (s.dnsTable row).data))

theorem toClients_singleton : (dest, data) ∈ toClients [.toClient addr bytes] ↔ dest = addr ∧ data = bytes := by
  simp [toClients]

theorem answerPTR_data (h : answerPTR uv s base n id addr url clock = some (s', o)) (hn : 8 ≤ n)
    (hdata : (dest, data) ∈ toClients o) :
    ∃ result, data = replyBytes (base.take n) (nhswap_s 0x8180) (inet_addr_t result) := by
  simp only [answerPTR, Option.bind_eq_bind, Option.bind_eq_some_iff, Option.some.injEq, Prod.mk.injEq,
    Prod.exists] at h
  obtain ⟨result, -, newID, s₁, -, o, ho, -, rfl⟩ := h
  obtain ⟨dest', rfl⟩ := replyLocal_data ho hn (inet_addr_t_length result)
  exact ⟨result, (toClients_singleton.mp hdata).2⟩

/-- A client is sent something for a name only from a row that is not stale. -/
theorem answerName_data (h : answerName uv s base n id addr url clock = some (s', o)) (hn : 8 ≤ n)
    (hdata : (dest, data) ∈ toClients o) :
    ∃ node row, lookupRow s url = some (some (node, row)) ∧ now (clock 0) < (s.dnsTable row).ttl ∧
      data = replyBytes (base.take n)
        (nhswap_s (if (s.dnsTable row).data = bannedIP then 0x0000 else 0x0001))
        (inet_addr_t (s.dnsTable row).data) := by
  simp only [answerName, Option.bind_eq_bind, Option.bind_eq_some_iff] at h
  obtain ⟨found, hfound, h⟩ := h
  cases found with
  | none =>
      obtain ⟨-, -, base', -, rfl⟩ := forwardRequest_eq_some h
      cases hdata
  | some found =>
      obtain ⟨node, row⟩ := found
      dsimp only at h
      split at h
      · rename_i httl
        simp only [answerLocal, Option.bind_eq_bind, Option.bind_eq_some_iff, Option.some.injEq,
          Prod.mk.injEq, Prod.exists] at h
        obtain ⟨newID, s₁, -, o, ho, -, rfl⟩ := h
        obtain ⟨dest', rfl⟩ := replyLocal_data ho hn (inet_addr_t_length (s.dnsTable row).data)
        exact ⟨node, row, hfound, httl, (toClients_singleton.mp hdata).2⟩
      · rename_i httl
        simp only [Option.bind_eq_some_iff, Prod.exists] at h
        obtain ⟨r, table, -, h⟩ := h
        obtain ⟨-, -, base', -, rfl⟩ := forwardRequest_eq_some h
        cases hdata

theorem localReply_of_step (h : onReadRequest uv s nread base addr clock = some (s', o))
    (hdata : (dest, data) ∈ toClients o) : LocalReply s nread base addr clock data := by
  cases hacc : acceptedRequest (.request nread base addr clock) with
  | none =>
      cases onReadRequest_cases h with
      | ignored o _ hclose =>
          obtain ⟨x, hx, hsent⟩ := List.mem_filterMap.mp hdata
          rw [hclose x hx] at hsent
          cases hsent
      | ptr id url dest data hacc' => cases hacc.symm.trans hacc'
      | answered id url type node row dest data hacc' => cases hacc.symm.trans hacc'
      | missed id url type base' hacc' => cases hacc.symm.trans hacc'
      | expired id url type node row r table base' hacc' => cases hacc.symm.trans hacc'
  | some r =>
      obtain ⟨id, url, type⟩ := r
      have hn : 8 ≤ nread.toNat := by
        have hlt := lt_nread_of_accepted hacc
        omega
      rw [onReadRequest_accepted uv s hacc] at h
      split at h
      · rename_i hptr
        subst hptr
        obtain ⟨result, rfl⟩ := answerPTR_data h hn hdata
        exact .ptr id url result hacc
      · rename_i hptr
        obtain ⟨node, row, hfound, httl, rfl⟩ := answerName_data h hn hdata
        exact .row id url type node row hacc hptr hfound httl

end TermCollection.Dns
