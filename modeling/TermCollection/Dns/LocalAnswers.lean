import TermCollection.Dns.Blocklist
import TermCollection.Dns.Freshness
import TermCollection.Dns.Lemmas.LocalReplies
import TermCollection.Dns.Messages

/-!
# Messages that the server builds itself (`onReadRequest`)

The server puts one record behind the request, and a count into its header.
-/

namespace TermCollection.Dns

variable {uv : LibUv} {s s' : Server} {nread : Int} {base data body ip : List UInt8}
variable {addr dest : SockAddrIn} {clock : Nat → SystemTime} {o : List Output} {q : Question}
variable {id flags n : UInt16} {additional : List Record} {row : Nat}

/-! ## The reply as a message -/

/-- The record that is put behind a request. -/
def answerRecord (ip : List UInt8) (hip : ip.length = 4) : Record where
  owner := ⟨[], .pointer ⟨12, by decide⟩⟩
  type := typeA
  cls := 1
  ttl := 0x7b
  data := ip
  short := hip ▸ by decide

theorem answerBytes_eq (hip : ip.length = 4) : answerBytes ip = (answerRecord ip hip).bytes := by
  simp only [Record.bytes, Record.fields, answerRecord, hip]
  rfl

theorem replyBytes_eq (h : DNSHeader) (body : List UInt8) (n : UInt16) (ip : List UInt8) :
    replyBytes (h.bytes ++ body) (nhswap_s n) ip =
      ({ h with flags := 0x8180, answerNum := n } : DNSHeader).bytes ++ (body ++ answerBytes ip) := by
  rw [← List.append_assoc]
  rfl

/-- The datagram is a message with the ID and the question, and behind it are as many records as its
header counts. -/
def RepliesTo (id : UInt16) (q : Question) (datagram : List UInt8) : Prop :=
  ∃ (h : DNSHeader) (answers : List Record),
    datagram = h.bytes ++ (q.bytes ++ answers.flatMap Record.bytes) ∧ h.id = id ∧ h.queryNum = 1 ∧
      h.answerNum.toNat = answers.length ∧ h.authorNum = 0 ∧ h.additionNum = 0

theorem length_le_flatMap (rs : List Record) : 11 * rs.length ≤ (rs.flatMap Record.bytes).length := by
  induction rs with
  | nil => exact Nat.le_refl _
  | cons r rs ih =>
      have hr := r.le_length_bytes
      rw [List.flatMap_cons, List.length_append, List.length_cons]
      omega

/-- One record is well counted as one. -/
theorem repliesTo_iff (h : DNSHeader) (hquery : h.queryNum = 1) (hauthor : h.authorNum = 0)
    (haddition : h.additionNum = 0) (q : Question) (hip : ip.length = 4) :
    RepliesTo h.id q (h.bytes ++ (q.bytes ++ answerBytes ip)) ↔ h.answerNum = 1 := by
  constructor
  · rintro ⟨h', answers, heq, -, -, hcount, -, -⟩
    obtain ⟨rfl, hbody⟩ := selfDelimiting_header heq
    rw [List.append_cancel_left_eq] at hbody
    have hlength := congrArg List.length hbody
    have hle := length_le_flatMap answers
    rw [answerBytes_length hip] at hlength
    cases answers with
    | nil => cases hlength
    | cons r answers =>
        rw [List.length_cons] at hcount hle
        rw [← UInt16.toNat_inj]
        have hone : (1 : UInt16).toNat = 1 := rfl
        omega
  · intro hanswer
    refine ⟨h, [answerRecord ip hip], ?_, rfl, hquery, ?_, hauthor, haddition⟩
    · rw [answerBytes_eq hip, List.flatMap_singleton]
    · rw [hanswer]
      rfl

theorem repliesTo_replyBytes (id flags n : UInt16) (q : Question) (hip : ip.length = 4) :
    RepliesTo id q (replyBytes ((⟨id, flags, 1, 0, 0, 0⟩ : DNSHeader).bytes ++ q.bytes) (nhswap_s n) ip) ↔
      n = 1 := by
  rw [replyBytes_eq]
  exact repliesTo_iff ⟨id, 0x8180, 1, n, 0, 0⟩ rfl rfl rfl q hip

/-! ## Queries -/

/-- The type that the handler takes from the end of the datagram. -/
theorem type_of_accepted {url : CString} {type : UInt16}
    (h : acceptedRequest (.request nread base addr clock) = some (id, url, type)) :
    ∃ raw, read2 base (nread.toNat - 4) = some raw ∧ type = nhswap_s raw := by
  simp only [acceptedRequest] at h
  split at h
  · rw [Option.join_eq_some_iff] at h
    simp only [readRequest, Option.bind_eq_bind, Option.bind_eq_some_iff] at h
    obtain ⟨name, -, id', -, h⟩ := h
    split at h
    · cases h
    · simp only [Option.bind_eq_some_iff, Option.some.injEq, Option.map_eq_some_iff, Prod.mk.injEq] at h
      obtain ⟨raw, hraw, -, -, -, -, -, -, rfl⟩ := h
      exact ⟨raw, hraw, rfl⟩
  · cases h

/-- Of a query with nothing behind its question this is the type of the question. -/
theorem type_of_question {h : DNSHeader} {url : CString} {type : UInt16}
    (hquery : base.take nread.toNat = h.bytes ++ q.bytes)
    (hacc : acceptedRequest (.request nread base addr clock) = some (id, url, type)) : type = q.qtype := by
  obtain ⟨raw, hraw, rfl⟩ := type_of_accepted hacc
  have hfits := nread_le_of_accepted hacc
  have hlength := congrArg List.length hquery
  rw [List.length_take_of_le hfits, List.length_append, DNSHeader.length_bytes, Question.length_bytes] at hlength
  have hprefix : net2 q.qtype <+: base.drop (nread.toNat - 4) := by
    have hwhole : h.bytes ++ nameBytes q.name ++ (net2 q.qtype ++ net2 q.qclass) <+: base := by
      rw [List.append_assoc, ← List.append_assoc (nameBytes q.name), ← Question.bytes, ← hquery]
      exact List.take_prefix _ _
    have hbefore : (h.bytes ++ nameBytes q.name).length = nread.toNat - 4 := by
      rw [List.length_append, DNSHeader.length_bytes, length_nameBytes]
      omega
    have hbehind := hwhole.drop (h.bytes ++ nameBytes q.name).length
    rw [List.drop_left, hbefore] at hbehind
    exact (List.prefix_append _ _).trans hbehind
  rw [read2_of_net2 hprefix, Option.some.injEq] at hraw
  rw [← hraw, nhswap_s_nhswap_s]

/-- The reply to a query with one question is a message with the ID and the question, and with as many
records as its header counts, if and only if the question is not of type PTR and the row that it finds
does not block it. -/
theorem local_reply_wellFormed
    (hquery : base.take nread.toNat = (⟨id, flags, 1, 0, 0, 0⟩ : DNSHeader).bytes ++ q.bytes)
    (h : onReadRequest uv s nread base addr clock = some (s', o)) (hdata : (dest, data) ∈ toClients o) :
    RepliesTo id q data ↔ q.qtype ≠ typePTR ∧ ∃ row,
      foundRow s (.request nread base addr clock) = some row ∧ (s.dnsTable row).data ≠ bannedIP := by
  cases localReply_of_step h hdata with
  | ptr id' url result hacc =>
      have hptr := type_of_question hquery hacc
      rw [hquery, repliesTo_replyBytes id flags _ q (inet_addr_t_length result)]
      exact iff_of_false (by decide) fun hright => hright.1 hptr.symm
  | row id' url type node row hacc hptr hfound httl =>
      have htype := type_of_question hquery hacc
      have hrow : foundRow s (.request nread base addr clock) = some row := by
        simp only [foundRow, hacc, hptr, ↓reduceIte, hfound, Option.join_some, Option.map_some]
      rw [hquery, repliesTo_replyBytes id flags _ q (inet_addr_t_length _), hrow]
      simp only [Option.some.injEq, exists_eq_left']
      split
      · rename_i hbanned
        exact iff_of_false (by decide) fun hright => hright.2 hbanned
      · rename_i hbanned
        exact iff_of_true rfl ⟨htype ▸ hptr, hbanned⟩

/-! ## The first record -/

/-- The record gives the address for the name, the type and the class of the question. -/
structure Answers (q : Question) (ip : List UInt8) (r : Record) : Prop where
  owner : r.owner = ⟨[], .pointer ⟨12, by decide⟩⟩
  type : r.type = q.qtype
  cls : r.cls = q.qclass
  data : r.data = ip

/-- The first record behind the question is the answer to it. -/
def AnsweredFirst (q : Question) (ip : List UInt8) (datagram : List UInt8) : Prop :=
  ∃ (h : DNSHeader) (r : Record) (rest : List UInt8),
    datagram = h.bytes ++ (q.bytes ++ (r.bytes ++ rest)) ∧ Answers q ip r

/-- The record that is put behind a query comes first when the query has no other. -/
theorem answeredFirst_iff (h : DNSHeader) (q : Question) (additional : List Record) (hip : ip.length = 4) :
    AnsweredFirst q ip (h.bytes ++ (q.bytes ++ additional.flatMap Record.bytes ++ answerBytes ip)) ↔
      (additional = [] ∧ q.qtype = typeA ∧ q.qclass = 1) ∨ ∃ r ∈ additional.head?, Answers q ip r := by
  have hfirst : AnsweredFirst q ip
      (h.bytes ++ (q.bytes ++ additional.flatMap Record.bytes ++ answerBytes ip)) ↔
        ∃ (r : Record) (rest : List UInt8),
          additional.flatMap Record.bytes ++ answerBytes ip = r.bytes ++ rest ∧ Answers q ip r := by
    constructor
    · rintro ⟨h', r, rest, heq, hr⟩
      obtain ⟨-, hbody⟩ := selfDelimiting_header heq
      rw [List.append_assoc, List.append_cancel_left_eq] at hbody
      exact ⟨r, rest, hbody, hr⟩
    · rintro ⟨r, rest, heq, hr⟩
      exact ⟨h, r, rest, by rw [List.append_assoc, heq], hr⟩
  rw [hfirst]
  cases additional with
  | nil =>
      have hanswer : Answers q ip (answerRecord ip hip) ↔ q.qtype = typeA ∧ q.qclass = 1 :=
        ⟨fun hr => ⟨hr.type.symm, hr.cls.symm⟩, fun hq => ⟨rfl, hq.1.symm, hq.2.symm, rfl⟩⟩
      simp only [List.flatMap_nil, List.nil_append, answerBytes_eq hip, List.head?_nil, Option.mem_def,
        reduceCtorEq, false_and, exists_false, or_false, true_and, ← hanswer]
      rw [← List.append_nil (answerRecord ip hip).bytes]
      exact selfDelimiting_record.exists_iff
  | cons r additional =>
      simp only [List.flatMap_cons, List.append_assoc, List.head?_cons, Option.mem_def, Option.some.injEq,
        exists_eq_left', reduceCtorEq, false_and, false_or]
      exact selfDelimiting_record.exists_iff

/-- A query that finds a row which does not block it is answered with the address of the row as the first
record, if and only if it asks for type A and class IN and has no further record, or its own first record
already is the answer. -/
theorem cache_reply_answers
    (hquery : base.take nread.toNat = (⟨id, flags, 1, 0, 0, n⟩ : DNSHeader).bytes ++
      (q.bytes ++ additional.flatMap Record.bytes))
    (h : onReadRequest uv s nread base addr clock = some (s', o)) (hdata : (dest, data) ∈ toClients o)
    (hrow : foundRow s (.request nread base addr clock) = some row)
    (hbanned : (s.dnsTable row).data ≠ bannedIP) :
    AnsweredFirst q (inet_addr_t (s.dnsTable row).data) data ↔
      (additional = [] ∧ q.qtype = typeA ∧ q.qclass = 1) ∨
        ∃ r ∈ additional.head?, Answers q (inet_addr_t (s.dnsTable row).data) r := by
  cases localReply_of_step h hdata with
  | ptr id' url result hacc =>
      rw [foundRow, hacc] at hrow
      cases hrow
  | row id' url type node row' hacc hptr hfound httl =>
      simp only [foundRow, hacc, hptr, ↓reduceIte, hfound, Option.join_some, Option.map_some,
        Option.some.injEq] at hrow
      subst hrow
      rw [hquery, replyBytes_eq]
      exact answeredFirst_iff _ q additional (inet_addr_t_length _)

/-! ## Three names -/

def labelA : Label := ⟨[97], by decide, by decide⟩

def labelB : Label := ⟨[98], by decide, by decide⟩

/-- The name `a` has the address 1.2.3.4, and the name `b` is blocked. -/
def servedNames : List (CString × CString) := [([49, 46, 50, 46, 51, 46, 52], [97]), (bannedIP, [98])]

def servedTable : Server := (loadDNSTableData (fileText servedNames)).getD emptyServer

/-- The name of the address 4.3.2.1 for a reverse lookup. -/
def reverseName : List Label :=
  [⟨[52], by decide, by decide⟩, ⟨[51], by decide, by decide⟩, ⟨[50], by decide, by decide⟩,
    ⟨[49], by decide, by decide⟩, ⟨[105, 110, 45, 97, 100, 100, 114], by decide, by decide⟩,
    ⟨[97, 114, 112, 97], by decide, by decide⟩]

def queryFor (q : Question) (additional : List Record) : List UInt8 :=
  (⟨7, 0x0100, 1, 0, 0, UInt16.ofNat additional.length⟩ : DNSHeader).bytes ++
    (q.bytes ++ additional.flatMap Record.bytes)

/-- What the server sends for a query, when it is the given datagram. -/
theorem sent_of_output (bytes reply : List UInt8)
    (h : (onReadRequest dottedUv servedTable bytes.length (received bytes) client₁ fun _ => jan31).map
      (toClients ·.2) = some [(client₁, reply)]) :
    ∃ s' o, onReadRequest dottedUv servedTable bytes.length (received bytes) client₁ (fun _ => jan31) =
      some (s', o) ∧ (client₁, reply) ∈ toClients o := by
  obtain ⟨⟨s', o⟩, hstep, hsent⟩ := Option.map_eq_some_iff.mp h
  refine ⟨s', o, hstep, ?_⟩
  rw [hsent]
  exact List.mem_singleton_self _

theorem local_reply_wellFormed_example : ∃ s' o data,
    (received (queryFor ⟨[labelA], typeA, 1⟩ [])).take ((19 : Int)).toNat =
        (⟨7, 0x0100, 1, 0, 0, 0⟩ : DNSHeader).bytes ++ (⟨[labelA], typeA, 1⟩ : Question).bytes ∧
      onReadRequest dottedUv servedTable 19 (received (queryFor ⟨[labelA], typeA, 1⟩ [])) client₁
        (fun _ => jan31) = some (s', o) ∧ (client₁, data) ∈ toClients o ∧
      (RepliesTo 7 ⟨[labelA], typeA, 1⟩ data ↔ typeA ≠ typePTR ∧ ∃ row,
        foundRow servedTable (.request 19 (received (queryFor ⟨[labelA], typeA, 1⟩ [])) client₁
          fun _ => jan31) = some row ∧ (servedTable.dnsTable row).data ≠ bannedIP) := by
  have hquery : (received (queryFor ⟨[labelA], typeA, 1⟩ [])).take ((19 : Int)).toNat =
      (⟨7, 0x0100, 1, 0, 0, 0⟩ : DNSHeader).bytes ++ (⟨[labelA], typeA, 1⟩ : Question).bytes := by decide
  obtain ⟨s', o, hstep, hdata⟩ := sent_of_output (queryFor ⟨[labelA], typeA, 1⟩ [])
    (replyBytes (queryFor ⟨[labelA], typeA, 1⟩ []) (nhswap_s 1) [1, 2, 3, 4]) (by decide +kernel)
  exact ⟨s', o, _, hquery, hstep, hdata, local_reply_wellFormed hquery hstep hdata⟩

/-- The reply to a reverse lookup counts 33152 records, and the reply for a blocked name none. -/
theorem local_reply_malformed :
    (∃ s' o data, onReadRequest dottedUv servedTable 38 (received (queryFor ⟨reverseName, typePTR, 1⟩ []))
      client₁ (fun _ => jan31) = some (s', o) ∧ (client₁, data) ∈ toClients o ∧
        ¬ RepliesTo 7 ⟨reverseName, typePTR, 1⟩ data) ∧
    ∃ s' o data, onReadRequest dottedUv servedTable 19 (received (queryFor ⟨[labelB], typeA, 1⟩ []))
      client₁ (fun _ => jan31) = some (s', o) ∧ (client₁, data) ∈ toClients o ∧
        ¬ RepliesTo 7 ⟨[labelB], typeA, 1⟩ data := by
  constructor
  · obtain ⟨s', o, hstep, hdata⟩ := sent_of_output (queryFor ⟨reverseName, typePTR, 1⟩ [])
      (replyBytes ((⟨7, 0x0100, 1, 0, 0, 0⟩ : DNSHeader).bytes ++
        (⟨reverseName, typePTR, 1⟩ : Question).bytes) (nhswap_s 0x8180) [1, 2, 3, 4]) (by decide +kernel)
    refine ⟨s', o, _, hstep, hdata, ?_⟩
    rw [repliesTo_replyBytes _ _ _ _ rfl]
    decide
  · obtain ⟨s', o, hstep, hdata⟩ := sent_of_output (queryFor ⟨[labelB], typeA, 1⟩ [])
      (replyBytes ((⟨7, 0x0100, 1, 0, 0, 0⟩ : DNSHeader).bytes ++
        (⟨[labelB], typeA, 1⟩ : Question).bytes) (nhswap_s 0) [0, 0, 0, 0]) (by decide +kernel)
    refine ⟨s', o, _, hstep, hdata, ?_⟩
    rw [repliesTo_replyBytes _ _ _ _ rfl]
    decide

theorem cache_reply_answers_example : ∃ s' o data,
    (received (queryFor ⟨[labelA], typeA, 1⟩ [])).take ((19 : Int)).toNat =
        (⟨7, 0x0100, 1, 0, 0, 0⟩ : DNSHeader).bytes ++
          ((⟨[labelA], typeA, 1⟩ : Question).bytes ++ [].flatMap Record.bytes) ∧
      onReadRequest dottedUv servedTable 19 (received (queryFor ⟨[labelA], typeA, 1⟩ [])) client₁
        (fun _ => jan31) = some (s', o) ∧ (client₁, data) ∈ toClients o ∧
      foundRow servedTable (.request 19 (received (queryFor ⟨[labelA], typeA, 1⟩ [])) client₁
        fun _ => jan31) = some 0 ∧ (servedTable.dnsTable 0).data ≠ bannedIP ∧
      (AnsweredFirst ⟨[labelA], typeA, 1⟩ (inet_addr_t (servedTable.dnsTable 0).data) data ↔
        (([] : List Record) = [] ∧ typeA = typeA ∧ (1 : UInt16) = 1) ∨
          ∃ r ∈ ([] : List Record).head?,
            Answers ⟨[labelA], typeA, 1⟩ (inet_addr_t (servedTable.dnsTable 0).data) r) := by
  have hquery : (received (queryFor ⟨[labelA], typeA, 1⟩ [])).take ((19 : Int)).toNat =
      (⟨7, 0x0100, 1, 0, 0, 0⟩ : DNSHeader).bytes ++
        ((⟨[labelA], typeA, 1⟩ : Question).bytes ++ [].flatMap Record.bytes) := by decide
  have hrow : foundRow servedTable (.request 19 (received (queryFor ⟨[labelA], typeA, 1⟩ [])) client₁
      fun _ => jan31) = some 0 := by decide +kernel
  have hbanned : (servedTable.dnsTable 0).data ≠ bannedIP := by decide +kernel
  obtain ⟨s', o, hstep, hdata⟩ := sent_of_output (queryFor ⟨[labelA], typeA, 1⟩ [])
    (replyBytes (queryFor ⟨[labelA], typeA, 1⟩ []) (nhswap_s 1) [1, 2, 3, 4]) (by decide +kernel)
  exact ⟨s', o, _, hquery, hstep, hdata, hrow, hbanned,
    cache_reply_answers hquery hstep hdata hrow hbanned⟩

/-- The pseudo-record of EDNS. -/
def optRecord : Record := ⟨⟨[], .root⟩, 41, 4096, 0, [], by decide⟩

/-- A question for type AAAA is answered with a record of type A, and in the reply to a query with an
additional record that record comes first. -/
theorem cache_reply_wrong :
    (∃ s' o data, onReadRequest dottedUv servedTable 19 (received (queryFor ⟨[labelA], typeAAAA, 1⟩ []))
      client₁ (fun _ => jan31) = some (s', o) ∧ (client₁, data) ∈ toClients o ∧
        ¬ AnsweredFirst ⟨[labelA], typeAAAA, 1⟩ [1, 2, 3, 4] data) ∧
    ∃ s' o data, onReadRequest dottedUv servedTable 30
      (received (queryFor ⟨[labelA], typeA, 1⟩ [optRecord])) client₁ (fun _ => jan31) = some (s', o) ∧
        (client₁, data) ∈ toClients o ∧ ¬ AnsweredFirst ⟨[labelA], typeA, 1⟩ [1, 2, 3, 4] data := by
  constructor
  · obtain ⟨s', o, hstep, hdata⟩ := sent_of_output (queryFor ⟨[labelA], typeAAAA, 1⟩ [])
      ((⟨7, 0x8180, 1, 1, 0, 0⟩ : DNSHeader).bytes ++ ((⟨[labelA], typeAAAA, 1⟩ : Question).bytes ++
        [].flatMap Record.bytes ++ answerBytes [1, 2, 3, 4])) (by decide +kernel)
    refine ⟨s', o, _, hstep, hdata, ?_⟩
    rw [answeredFirst_iff _ _ _ rfl]
    simp [typeA, typeAAAA]
  · obtain ⟨s', o, hstep, hdata⟩ := sent_of_output (queryFor ⟨[labelA], typeA, 1⟩ [optRecord])
      ((⟨7, 0x8180, 1, 1, 0, 1⟩ : DNSHeader).bytes ++ ((⟨[labelA], typeA, 1⟩ : Question).bytes ++
        [optRecord].flatMap Record.bytes ++ answerBytes [1, 2, 3, 4])) (by decide +kernel)
    refine ⟨s', o, _, hstep, hdata, ?_⟩
    rw [answeredFirst_iff _ _ _ rfl]
    rintro (hnone | ⟨r, hr, hanswers⟩)
    · cases hnone.1
    · obtain rfl : optRecord = r := Option.some.inj hr
      exact absurd hanswers.type (by decide)

end TermCollection.Dns
