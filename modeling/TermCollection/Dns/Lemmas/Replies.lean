import TermCollection.Dns.Lemmas.Bytes
import TermCollection.Dns.Lemmas.Steps

/-!
# Requests that are served

When a handler has a result, and what its reply says.
-/

namespace TermCollection.Dns

variable {uv : LibUv} {s : Server} {nread : Int} {base data bytes : List UInt8} {addr : SockAddrIn}
variable {clock : Nat → SystemTime} {url : CString} {id type newID answerNum : UInt16}
variable {ip : List UInt8} {n i node row : Nat}

theorem splice_of_le (base : List UInt8) (i : Nat) (bytes : List UInt8) (h : i + bytes.length ≤ base.length) :
    ∃ base', splice base i bytes = some base' ∧ base'.length = base.length ∧
      base' = base.take i ++ bytes ++ base.drop (i + bytes.length) := by
  refine ⟨_, if_pos h, ?_, rfl⟩
  simp only [List.length_append, List.length_take, List.length_drop]
  omega

theorem answerBytes_length (hip : ip.length = 4) : (answerBytes ip).length = 16 := by
  simp [answerBytes, toBytes2, toBytes4, hip]

/-- The answer count stands in the reply as it was given. -/
theorem replyLocal_spec (uv : LibUv) (s : Server) (newID : UInt16) (addr : SockAddrIn)
    (answerNum : UInt16) (hip : ip.length = 4) (hn : 8 ≤ n) (hbase : n + 16 ≤ base.length)
    (hbuf : n + 16 ≤ bufferSize) :
    ∃ dest data, replyLocal uv s newID base n addr answerNum ip = some [.toClient dest data] ∧
      (data.drop 6).take 2 = toBytes2 answerNum := by
  have hans := answerBytes_length hip
  obtain ⟨b₁, h₁, hlen₁, -⟩ := splice_of_le base 2 (toBytes2 (nhswap_s 0x8180))
    (by rw [toBytes2_length]; omega)
  obtain ⟨b₂, h₂, hlen₂, heq₂⟩ := splice_of_le b₁ 6 (toBytes2 answerNum)
    (by rw [toBytes2_length]; omega)
  obtain ⟨b₃, h₃, -, heq₃⟩ := splice_of_le b₂ n (answerBytes ip)
    (by rw [hans]; omega)
  refine ⟨_, _, by simp [replyLocal, h₁, h₂, h₃, hbuf]; exact ⟨rfl, rfl⟩, ?_⟩
  have hwindow : ∀ l : List UInt8, (l.drop 6).take 2 = (l.take 8).drop 6 := fun l => by
    rw [List.drop_take]
  have hthird : b₃.take 8 = b₂.take 8 := by
    have hlen : 8 ≤ (b₂.take n).length := by rw [List.length_take]; omega
    rw [heq₃, List.append_assoc, List.take_append_of_le_length hlen, List.take_take,
      Nat.min_eq_left hn]
  have hsecond : b₂.take 8 = b₁.take 6 ++ toBytes2 answerNum := by
    have hlen : (b₁.take 6 ++ toBytes2 answerNum).length = 8 := by
      rw [List.length_append, List.length_take, toBytes2_length]; omega
    rw [heq₂, List.take_append_of_le_length (Nat.le_of_eq hlen.symm),
      List.take_of_length_le (Nat.le_of_eq hlen)]
  have hsix : (b₁.take 6).length = 6 := by rw [List.length_take]; omega
  rw [hwindow, List.take_take, Nat.min_eq_left (by omega), hthird, hsecond]
  exact List.drop_left' hsix

theorem inetBytes_length (k : Nat) (cp : CString) : (inetBytes k cp).length = k := by
  induction k generalizing cp with
  | zero => rfl
  | succ k ih =>
      unfold inetBytes
      split
      · simp
      · simp [ih]

theorem inet_addr_t_length (cp : CString) : (inet_addr_t cp).length = 4 := inetBytes_length 4 cp

theorem getNewID_of_fits (s : Server) (oldID : UInt16) (addr : SockAddrIn) (isDone : Bool)
    (offset : Int) (time : SystemTime) (h : url.length < arrLength) :
    getNewID s oldID addr isDone offset url time =
      some (UInt16.ofNat (((s.idRowCount + 1) % maxAmount + maxAmount - 1) % maxAmount),
        s.fill oldID addr isDone offset url time) := if_pos h

/-- The handler after the name and the type of an accepted request were read. -/
theorem onReadRequest_accepted (uv : LibUv) (s : Server)
    (h : acceptedRequest (.request nread base addr clock) = some (id, url, type)) :
    onReadRequest uv s nread base addr clock =
      if type = typePTR then answerPTR uv s base nread.toNat id addr url clock
      else answerName uv s base nread.toNat id addr url clock := by
  simp only [acceptedRequest] at h
  split at h
  · rename_i hrange
    rw [Option.join_eq_some_iff] at h
    rw [onReadRequest, if_neg (by omega), if_neg (by omega), h]
    rfl
  · cases h

theorem nread_of_accepted (h : acceptedRequest (.request nread base addr clock) = some (id, url, type)) :
    0 ≤ nread ∧ nread ≤ 1024 := by
  simp only [acceptedRequest] at h
  split at h
  · assumption
  · cases h

/-- A request with a name has at least one byte behind its header and the sixteen bytes left out. -/
theorem lt_nread_of_accepted
    (h : acceptedRequest (.request nread base addr clock) = some (id, url, type)) : 16 < nread := by
  have hrange := nread_of_accepted h
  simp only [acceptedRequest, hrange, and_self, ↓reduceIte, Option.join_eq_some_iff, readRequest,
    Option.bind_eq_bind, Option.bind_eq_some_iff] at h
  obtain ⟨name, hname, _, -, h⟩ := h
  by_contra hle
  have hsize : 1024 < (nread.toNat : Int) - 16 ∨ (nread.toNat : Int) - 16 ≤ 0 := .inr (by omega)
  rw [parseUrlFromData, if_pos hsize] at hname
  cases hname
  split at h
  · cases h
  · simp [Option.bind_eq_some_iff] at h

/-- A request for a name that is not in the table is forwarded. -/
theorem missed_defined (uv : LibUv)
    (h : acceptedRequest (.request nread base addr clock) = some (id, url, type)) (hptr : type ≠ typePTR)
    (hurl : url.length < arrLength) (hbase : 2 ≤ base.length) (hrow : lookupRow s url = some none) :
    ∃ data, serverStep uv s (.request nread base addr clock) =
      some (s.fill (nhswap_s id) addr false nread url (clock 1), [.toServer data]) := by
  have hnread : (nread.toNat : Int) = nread := Int.toNat_of_nonneg (nread_of_accepted h).1
  rw [serverStep, onReadRequest_accepted uv s h, if_neg hptr]
  simp only [answerName, hrow, Option.bind_eq_bind, Option.bind_some, forwardRequest,
    getNewID_of_fits _ _ _ _ _ _ hurl, splice_zero _ hbase, hnread]
  exact ⟨_, rfl⟩

/-- A request for a name whose row is valid is answered. -/
theorem answered_defined (uv : LibUv)
    (h : acceptedRequest (.request nread base addr clock) = some (id, url, type)) (hptr : type ≠ typePTR)
    (hurl : url.length < arrLength) (hn : 8 ≤ nread) (hbase : nread.toNat + 16 ≤ base.length)
    (hbuf : nread + 16 ≤ 1024) (hrow : lookupRow s url = some (some (node, row)))
    (hvalid : now (clock 0) < (s.dnsTable row).ttl) :
    ∃ dest data, serverStep uv s (.request nread base addr clock) =
        some (s.fill (nhswap_s id) addr true nread url (clock 1), [.toClient dest data]) ∧
      (data.drop 6).take 2 =
        toBytes2 (nhswap_s (if (s.dnsTable row).data = bannedIP then 0x0000 else 0x0001)) := by
  have hnread : (nread.toNat : Int) = nread := Int.toNat_of_nonneg (by omega)
  have hbuf' : nread.toNat + 16 ≤ bufferSize := by simp only [bufferSize]; omega
  obtain ⟨dest, data, hreply, hcount⟩ := replyLocal_spec uv
    (s.fill (nhswap_s id) addr true nread url (clock 1))
    (UInt16.ofNat (((s.idRowCount + 1) % maxAmount + maxAmount - 1) % maxAmount)) addr
    (nhswap_s (if (s.dnsTable row).data = bannedIP then 0x0000 else 0x0001))
    (inetBytes_length 4 (s.dnsTable row).data) (by omega) hbase hbuf'
  refine ⟨dest, data, ?_, hcount⟩
  rw [serverStep, onReadRequest_accepted uv s h, if_neg hptr]
  simp only [answerName, hrow, Option.bind_eq_bind, Option.bind_some, hvalid, ↓reduceIte, answerLocal,
    getNewID_of_fits _ _ _ _ _ _ hurl, hnread, inet_addr_t, hreply]

/-- A request of type PTR is answered from its name alone. -/
theorem ptr_defined (uv : LibUv) (s : Server)
    (h : acceptedRequest (.request nread base addr clock) = some (id, url, typePTR))
    (hurl : url.length < arrLength) (hn : 8 ≤ nread) (hbase : nread.toNat + 16 ≤ base.length)
    (hbuf : nread + 16 ≤ 1024) (hname : (ptrAddress url).isSome) :
    ∃ dest data, serverStep uv s (.request nread base addr clock) =
      some (s.fill (nhswap_s id) addr true nread url (clock 1), [.toClient dest data]) := by
  have hnread : (nread.toNat : Int) = nread := Int.toNat_of_nonneg (by omega)
  have hbuf' : nread.toNat + 16 ≤ bufferSize := by simp only [bufferSize]; omega
  obtain ⟨result, hresult⟩ := Option.isSome_iff_exists.mp hname
  obtain ⟨dest, data, hreply, -⟩ := replyLocal_spec uv
    (s.fill (nhswap_s id) addr true nread url (clock 1))
    (UInt16.ofNat (((s.idRowCount + 1) % maxAmount + maxAmount - 1) % maxAmount)) addr
    (nhswap_s 0x8180) (inetBytes_length 4 result) (by omega) hbase hbuf'
  refine ⟨dest, data, ?_⟩
  rw [serverStep, onReadRequest_accepted uv s h, if_pos rfl]
  simp only [answerPTR, hresult, Option.bind_eq_bind, Option.bind_some,
    getNewID_of_fits _ _ _ _ _ _ hurl, hnread, inet_addr_t, hreply]

end TermCollection.Dns
