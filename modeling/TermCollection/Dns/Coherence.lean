import TermCollection.Dns.Freshness
import TermCollection.Dns.Lemmas.Replies

/-!
# Coherence of the cache

The table stores pointers into the rows of two arrays that are both written anew in turn. A row may be
written while the table still points to it.
-/

namespace TermCollection.Dns

variable {uv : LibUv} {s s₀ s' : Server} {e : Event} {o : List Output} {url : CString}
variable {tr : List (Event × List Output)} {k : KeyRef} {v : Nat} {known known' : CString → CString → Prop}
variable {node row temp i : Nat} {clock : Nat → SystemTime}

/-! ## The conditions -/

/-- The state in which an accepted request takes its row, with its name. -/
def fillPoint (s : Server) (e : Event) : Option (Server × CString) := do
  let (_, url, _) ← acceptedRequest e
  match expiredNode s e with
  | none => some (s, url)
  | some node => do
      let (_, table) ← removeHashItemByNode s.dnsHashTable (some node)
      some ({ s with dnsHashTable := table }, url)

/-- An entry that a lookup can see with its key in the row that is about to be filled points to a row
with the new name, or stands in another bucket than that of the new name. -/
def keysKept (s : Server) (url : CString) : Bool :=
  (visibleEntries s.dnsHashTable).all fun (i, k, row) =>
    k ≠ .url s.idRowCount || bucket s.dnsHashTable url ≠ i || (s.dnsTable row).domain = url

/-- An entry that a lookup can see and that points to the row that is about to be cached has its key in
that row, or stands in another bucket than that of its name. -/
def rowFree (s : Server) : Bool :=
  (visibleEntries s.dnsHashTable).all fun (i, k, row) =>
    row ≠ s.dnsRowCount || k = .domain s.dnsRowCount || bucket s.dnsHashTable (s.str k) ≠ i

/-- No row is reused while a lookup can come to it. -/
def reusesFreeRows (s : Server) (e : Event) : Bool :=
  (match fillPoint s e with
    | none => true
    | some (p, url) => keysKept p url) &&
  (eventCachePoints s e).all rowFree

/-! ## The invariant -/

/-- The address was loaded for the name. -/
def Loaded (s₀ : Server) (name data : CString) : Prop :=
  ∃ i < s₀.dnsRowCount, (s₀.dnsTable i).domain = name ∧ (s₀.dnsTable i).data = data

/-- The address was cached for the name in one of the outputs. -/
def CachedIn (o : List Output) (name data : CString) : Prop :=
  ∃ r ttl t, Output.cached r name data ttl t ∈ o

def Known (s₀ : Server) (tr : List (Event × List Output)) (name data : CString) : Prop :=
  Loaded s₀ name data ∨ ∃ x ∈ tr, CachedIn x.2 name data

structure Coherent (s : Server) (known : CString → CString → Prop) : Prop where
  ok : s.Ok
  own : ∀ i j row, (i, KeyRef.domain j, row) ∈ visibleEntries s.dnsHashTable → row = j
  name : ∀ i k row, (i, k, row) ∈ visibleEntries s.dnsHashTable →
    bucket s.dnsHashTable (s.str k) = i → s.str k = (s.dnsTable row).domain
  address : ∀ i k row, (i, k, row) ∈ visibleEntries s.dnsHashTable →
    known (s.dnsTable row).domain (s.dnsTable row).data

theorem Coherent.mono (h : Coherent s known) (hk : ∀ n d, known n d → known' n d) :
    Coherent s known' :=
  ⟨h.ok, h.own, h.name, fun i k row he => hk _ _ (h.address i k row he)⟩

theorem Coherent.fill (h : Coherent s known) (hkept : keysKept s url = true) (oldID : UInt16)
    (addr : SockAddrIn) (isDone : Bool) (offset : Int) (time : SystemTime) :
    Coherent (s.fill oldID addr isDone offset url time) known := by
  refine ⟨h.ok.fill .., h.own, fun i k row he hb => ?_, h.address⟩
  have hname := h.name i k row he
  have hkey := List.all_eq_true.mp hkept _ he
  cases k with
  | domain j => exact hname hb
  | url j =>
      by_cases hj : j = s.idRowCount
      · subst hj
        have hstr : (s.fill oldID addr isDone offset url time).str (.url s.idRowCount) = url := by
          simp [Server.str, Server.fill]
        rw [hstr] at hb ⊢
        have hdomain : (s.dnsTable row).domain = url := by
          simpa [show bucket s.dnsHashTable url = i from hb] using hkey
        exact hdomain.symm
      · simp only [Server.str, Server.fill, Function.update_of_ne hj] at hb ⊢
        exact hname hb

theorem Coherent.removed {table : HashTable KeyRef Nat} {r : Bool} (h : Coherent s known)
    (hf : lookupRow s url = some (some (node, row)))
    (hr : removeHashItemByNode s.dnsHashTable (some node) = some (r, table)) :
    Coherent { s with dnsHashTable := table } known := by
  obtain ⟨A, k, R, hat, -, -⟩ := lookupRow_found h.ok hf
  have hok := h.ok.removed hf hr
  have hsize : table.size = s.dnsHashTable.size := hok.size.trans h.ok.size.symm
  refine ⟨hok, fun i j row he => ?_, fun i k row he hb => ?_, fun i k row he => ?_⟩
  · exact h.own i j row (hat.visible_remove hr he)
  · apply h.name i k row (hat.visible_remove hr he)
    rw [← hb, bucket, bucket, ← hsize]
    rfl
  · exact h.address i k row (hat.visible_remove hr he)

theorem Coherent.finish (h : Coherent s known) (temp : Nat) : Coherent (s.finish temp) known := by
  have hstr : ∀ k, (s.finish temp).str k = s.str k := by
    intro k
    cases k with
    | domain j => rfl
    | url j => exact (SameClient.finish s temp j).2.2.2
  refine ⟨h.ok.finish temp, h.own, fun i k row he hb => ?_, h.address⟩
  rw [hstr] at hb ⊢
  exact h.name i k row he hb

theorem Coherent.cached {table : HashTable KeyRef Nat} {r : Bool} {ttl : UInt32} {result : CString}
    {time : SystemTime} (h : Coherent s known) (hfree : rowFree s = true)
    (hins : insertHashItem (s.cacheRow temp ttl result time s.dnsHashTable).str s.dnsHashTable
      (.url temp) s.dnsRowCount = some (r, table))
    (hknown : known (s.idTable temp).url result) :
    Coherent (s.cacheRow temp ttl result time table) known := by
  obtain ⟨hwf, hsize⟩ := h.ok.inserted hins
  have hbucket : bucket table = bucket s.dnsHashTable := by
    funext name; rw [bucket, bucket, hsize, h.ok.size]
  refine ⟨⟨hwf, hsize, h.ok.idRow⟩, fun i j row he => ?_, fun i k row he hb => ?_,
    fun i k row he => ?_⟩
  · rcases h.ok.wellFormed.visible_insert h.ok.nonempty hins he with he | he
    · exact h.own i j row he
    · cases he
  · rcases h.ok.wellFormed.visible_insert h.ok.nonempty hins he with he | he
    · have hrow := List.all_eq_true.mp hfree _ he
      rw [show bucket (s.cacheRow temp ttl result time table).dnsHashTable = bucket s.dnsHashTable
        from hbucket] at hb
      cases k with
      | url j =>
          have hne : row ≠ s.dnsRowCount := by
            rintro rfl
            simp [show bucket s.dnsHashTable (s.str (.url j)) = i from hb] at hrow
          simp only [Server.str, Server.cacheRow, Function.update_of_ne hne]
          exact h.name i _ row he hb
      | domain j =>
          have hj := h.own i j row he
          subst hj
          rfl
    · cases he
      simp [Server.str, Server.cacheRow]
  · by_cases hne : row = s.dnsRowCount
    · subst hne
      simpa [Server.cacheRow] using hknown
    · rcases h.ok.wellFormed.visible_insert h.ok.nonempty hins he with he | he
      · simpa [Server.cacheRow, Function.update_of_ne hne] using h.address i k row he
      · cases he
        exact absurd rfl hne

/-! ## Steps -/

theorem Coherent.cacheAnswers {answers : List Answer} (h : Coherent s known)
    (hfree : ∀ p ∈ cachePoints temp clock s i answers, rowFree p = true)
    (hc : cacheAnswers temp clock s i answers = some (s', o)) :
    Coherent s' fun n d => known n d ∨ CachedIn o n d := by
  have hrule := cacheAnswers_rule
    (I := fun s o => Coherent s fun n d => known n d ∨ CachedIn o n d)
    (P := fun p => rowFree p = true) hc hfree (h.mono fun _ _ => .inl)
  apply hrule
  intro s pre ttl result r table time hI hrow _ _ hins
  refine (hI.mono ?_).cached hrow hins (.inr ⟨s.dnsRowCount, ttl, time, by simp⟩)
  rintro n d (hk | ⟨r, ttl, t, hmem⟩)
  · exact .inl hk
  · exact .inr ⟨r, ttl, t, by simp [hmem]⟩

theorem Coherent.step (h : Coherent s known) (hc : reusesFreeRows s e = true)
    (hs : serverStep uv s e = some (s', o)) : Coherent s' fun n d => known n d ∨ CachedIn o n d := by
  simp only [reusesFreeRows, Bool.and_eq_true, List.all_eq_true] at hc
  obtain ⟨hfill, hcache⟩ := hc
  cases e with
  | request nread base addr clock =>
      suffices hs' : Coherent s' known from hs'.mono fun _ _ => .inl
      cases onReadRequest_cases hs with
      | ignored => exact h
      | ptr id url _ _ hacc =>
          simp only [fillPoint, expiredNode, hacc] at hfill
          exact h.fill hfill ..
      | answered id url type node row _ _ hacc hptr _ hrow hvalid =>
          simp only [fillPoint, expiredNode, hacc, hptr, hrow, hvalid] at hfill
          exact h.fill hfill ..
      | missed id url type _ hacc hptr _ hrow =>
          simp only [fillPoint, expiredNode, hacc, hptr, hrow] at hfill
          exact h.fill hfill ..
      | expired id url type node row r table _ hacc hptr _ hrow hend hr =>
          have hpoint : fillPoint s (.request nread base addr clock) =
              some ({ s with dnsHashTable := table }, url) := by
            simp [fillPoint, hacc, expiredNode_eq hacc hptr hrow hend, hr]
          rw [hpoint] at hfill
          exact (h.removed hrow hr).fill hfill ..
  | response nread base clock =>
      cases onReadResponse_cases hs with
      | dropped => exact h.mono fun _ _ => .inl
      | relayed temp answers _ cached _ hrow _ hans hloop _ _ =>
          have hpoints : ∀ p ∈ cachePoints temp clock (s.finish temp) 1 answers, rowFree p = true := by
            intro p hp
            exact hcache p (by simpa [eventCachePoints, hrow, hans] using hp)
          refine ((h.finish temp).cacheAnswers hpoints hloop).mono ?_
          rintro n d (hk | ⟨r, ttl, t, hmem⟩)
          · exact .inl hk
          · exact .inr ⟨r, ttl, t, List.mem_append_left _ hmem⟩

/-! ## Every run -/

/-- After loading, the entry of a row has its key in that row. -/
theorem load_entries {file : List UInt8} (hload : loadDNSTableData file = some s₀) :
    ∀ i k row, (i, k, row) ∈ visibleEntries s₀.dnsHashTable → k = .domain row ∧ row < s₀.dnsRowCount := by
  have hrule := loadLoop_rule (I := fun s => s.Ok ∧ ∀ i k row,
    (i, k, row) ∈ visibleEntries s.dnsHashTable → k = .domain row ∧ row < s.dnsRowCount) hload
  refine (hrule ⟨.empty, ?_⟩ ?_).2
  · intro i k row he
    obtain ⟨hi, he⟩ := mem_visibleEntries.mp he
    have hnew : bucketEntries emptyServer.dnsHashTable i = [none] := entries_new hi
    rw [hnew] at he
    cases he
  · rintro s line s' ⟨hok, hI⟩ hl
    obtain ⟨data, domain, r, table, -, hins, -, -, rfl⟩ := loadLine_cases hl
    obtain ⟨hwf, hsize⟩ := hok.inserted hins
    refine ⟨⟨hwf, hsize, hok.idRow⟩, fun i k row he => ?_⟩
    rcases hok.wellFormed.visible_insert hok.nonempty hins he with he | he
    · obtain ⟨hk, hrow⟩ := hI i k row he
      exact ⟨hk, Nat.lt_succ_of_lt hrow⟩
    · cases he
      exact ⟨rfl, Nat.lt_succ_self _⟩

theorem Coherent.load {file : List UInt8} (hload : loadDNSTableData file = some s₀) :
    Coherent s₀ (Known s₀ []) := by
  have hentries := load_entries hload
  refine ⟨.load hload, fun i j row he => ?_, fun i k row he _ => ?_, fun i k row he => ?_⟩
  · obtain ⟨hk, -⟩ := hentries i _ row he
    cases hk; rfl
  · obtain ⟨rfl, -⟩ := hentries i k row he
    rfl
  · obtain ⟨-, hrow⟩ := hentries i k row he
    exact .inl ⟨row, hrow, rfl, rfl⟩

theorem Coherent.run {file : List UInt8} (hload : loadDNSTableData file = some s₀)
    (hr : (serverStep uv).Run (reusesFreeRows · ·) s₀ s tr) : Coherent s (Known s₀ tr) := by
  refine hr.invariant (I := fun s tr => Coherent s (Known s₀ tr)) (.load hload) ?_
  intro s tr e s' o _ h hc hs
  refine (h.step hc hs).mono ?_
  rintro n d ((hl | ⟨x, hx, hk⟩) | hk)
  · exact .inl hl
  · exact .inr ⟨x, List.mem_cons_of_mem _ hx, hk⟩
  · exact .inr ⟨(e, o), by simp, hk⟩

/-- While no row is reused that a lookup can come to, a lookup always has a result, and a node that it
finds points to a row with the name, whose address was loaded or cached for the name. -/
theorem lookup_coherent (uv : LibUv) {file : List UInt8} (hload : loadDNSTableData file = some s₀)
    (hr : (serverStep uv).Run (reusesFreeRows · ·) s₀ s tr) (name : CString) :
    ∃ found, findNodeByKey s.str s.dnsHashTable name = some found ∧
      ∀ node, found = some node → ∃ nd row, s.dnsHashTable.mem.load node = some nd ∧
        nd.value = some row ∧ (s.dnsTable row).domain = name ∧ Known s₀ tr name (s.dnsTable row).data := by
  have h := Coherent.run hload hr
  rcases h.ok.wellFormed.find h.ok.nonempty s.str name with
    ⟨hmiss, -⟩ | ⟨a, A, e, R, hfind, hat, hkey, -⟩
  · exact ⟨none, hmiss, fun _ hn => by cases hn⟩
  · refine ⟨some a, hfind, fun node hn => ?_⟩
    cases hn
    obtain ⟨nd, hnd, -, hv⟩ := hat.load
    have he : (bucket s.dnsHashTable name, e) ∈ visibleEntries s.dnsHashTable := by
      refine mem_visibleEntries.mpr ⟨bucket_lt h.ok.nonempty name, ?_⟩
      rw [hat.entries, visible_append]
      simp [visible]
    have hname : (s.dnsTable e.2).domain = name :=
      (h.name _ e.1 e.2 he (by rw [hkey])).symm.trans hkey
    exact ⟨nd, e.2, hnd, hv, hname, hname ▸ h.address _ e.1 e.2 he⟩

theorem lookup_coherent_example :
    ∃ s tr found, (serverStep dottedUv).Run (reusesFreeRows · ·) emptyServer s tr ∧
      tr.map Prod.fst = cachedQuery 60 ∧ findNodeByKey s.str s.dnsHashTable [97, 98] = some found := by
  have hload : loadDNSTableData [] = some emptyServer := rfl
  obtain ⟨hrun, hevents⟩ := Machine.run_after (serverStep dottedUv) reusesFreeRows emptyServer
    (cachedQuery 60) (by decide +kernel)
  obtain ⟨found, hfound, -⟩ := lookup_coherent dottedUv hload hrun [97, 98]
  exact ⟨_, _, found, hrun, hevents, hfound⟩

/-! ## A key that changes its name -/

/-- A request for `4.3.2.1.in-addr.arpa` of type PTR. -/
def ptrEvent : Event :=
  .request 38 (received (toBytes2 (nhswap_s 9) ++ toBytes2 (nhswap_s 0x0100) ++ [0, 1, 0, 0, 0, 0, 0, 0] ++
    [1, 52, 1, 51, 1, 50, 1, 49, 7, 105, 110, 45, 97, 100, 100, 114, 4, 97, 114, 112, 97, 0] ++
    [0, 12, 0, 1])) client₁ fun _ => jan31

theorem ptr_run (uv : LibUv) (s : Server) (n : Nat) :
    ∃ s' tr, (serverStep uv).AnyRun s s' tr ∧ tr.map Prod.fst = List.replicate n ptrEvent ∧
      s'.dnsHashTable = s.dnsHashTable ∧ s'.dnsTable = s.dnsTable := by
  induction n with
  | zero => exact ⟨s, [], .init, rfl, rfl, rfl⟩
  | succ n ih =>
      obtain ⟨s₁, tr, hrun, hevents, htable, hrows⟩ := ih
      obtain ⟨id, url, hacc, hurl, hname⟩ : ∃ id url, acceptedRequest ptrEvent = some (id, url, typePTR) ∧
          url.length < arrLength ∧ (ptrAddress url).isSome :=
        ⟨0x0900, [52, 46, 51, 46, 50, 46, 49, 46, 105, 110, 45, 97, 100, 100, 114, 46, 97, 114, 112, 97],
          by decide +kernel, by decide, by decide +kernel⟩
      obtain ⟨dest, data, hs⟩ := ptr_defined uv s₁ hacc hurl (by decide) (by decide) (by decide) hname
      refine ⟨_, _, .next hrun trivial hs, ?_, htable, hrows⟩
      rw [List.map_cons, hevents, List.replicate_succ]
      rfl

theorem acceptedCount_of_events {es : List Event} (h : tr.map Prod.fst = es) :
    acceptedCount tr = es.countP fun e => (acceptedRequest e).isSome := by
  rw [← h, List.countP_map]
  rfl

/-- A name is cached, its row of the ID table comes round again with the name `eb`, which falls into the
same bucket, and `eb` then has the address of `ab`. -/
theorem cached_key_renamed :
    ∃ s tr node nd row, (serverStep dottedUv).AnyRun emptyServer s tr ∧
      tr.map Prod.fst = queryEvent 8 101 98 client₁ jan31 ::
        (List.replicate 1023 ptrEvent ++ cachedQuery 60) ∧
      findNodeByKey s.str s.dnsHashTable [101, 98] = some (some node) ∧
      s.dnsHashTable.mem.load node = some nd ∧ nd.value = some row ∧
      (s.dnsTable row).domain = [97, 98] := by
  obtain ⟨hrun₁, hevents₁⟩ := Machine.run_after (serverStep dottedUv) Machine.always emptyServer
    (cachedQuery 60) (by decide +kernel)
  generalize hs₁ : Machine.stateAfter (serverStep dottedUv) Machine.always emptyServer
    (cachedQuery 60) = s₁ at hrun₁
  have hcount₁ : s₁.idRowCount = 1 := by rw [← hs₁]; decide +kernel
  have hurl₁ : (s₁.idTable 0).url = [97, 98] := by rw [← hs₁]; decide +kernel
  have hrow₁ : (s₁.dnsTable 0).domain = [97, 98] := by rw [← hs₁]; decide +kernel
  have hbucket₁ : bucketEntries s₁.dnsHashTable 354 = [some (.url 0, 0)] := by
    rw [← hs₁]; decide +kernel
  obtain ⟨s₂, tr₂, hrun₂, hevents₂, htable₂, hrows₂⟩ := ptr_run dottedUv s₁ 1023
  have hok₁ : s₁.Ok := Server.Ok.empty.run hrun₁
  have hok₂ : s₂.Ok := hok₁.run hrun₂
  obtain ⟨hcount₂, hkept₂⟩ := ids_of_run hok₁.idRow hrun₂
  have hmany : acceptedCount tr₂ = 1023 := by
    rw [acceptedCount_of_events hevents₂, List.countP_replicate, if_pos (by decide +kernel)]
  rw [hmany, hcount₁] at hcount₂ hkept₂
  have hurl₂ : (s₂.idTable 0).url = [97, 98] := by
    rw [(hkept₂ 0 (by decide) fun k hk => by simp only [maxAmount]; omega).2.2.2, hurl₁]
  have hname : bucket s₂.dnsHashTable [101, 98] = 354 := by
    rw [bucket, hok₂.size]; decide +kernel
  have hmiss : lookupRow s₂ [101, 98] = some none := by
    rcases hok₂.wellFormed.find hok₂.nonempty s₂.str [101, 98] with
      ⟨hmiss, -⟩ | ⟨a, A, e, R, -, hat, hkey, -⟩
    · simp [lookupRow, hmiss]
    · have hent := hat.entries
      rw [hname, htable₂, hbucket₁] at hent
      cases A with
      | nil =>
          simp only [List.map_nil, List.nil_append, List.cons.injEq, Option.some.injEq] at hent
          rw [← hent.1, Server.str, hurl₂] at hkey
          cases hkey
      | cons x A => simp at hent
  have hacc : acceptedRequest (queryEvent 8 101 98 client₁ jan31) = some (0x0800, [101, 98], 1) := by
    decide +kernel
  obtain ⟨data, hs⟩ := missed_defined dottedUv hacc (by decide) (by decide) (by decide) hmiss
  generalize hs₃ : s₂.fill (nhswap_s 0x0800) client₁ false 20 [101, 98] jan31 = s₃ at hs
  have hok₃ : s₃.Ok := hs₃ ▸ hok₂.fill ..
  have htable₃ : s₃.dnsHashTable = s₁.dnsHashTable := by rw [← hs₃]; exact htable₂
  have hurl₃ : s₃.str (.url 0) = [101, 98] := by
    rw [← hs₃]; simp [Server.str, Server.fill, hcount₂, maxAmount]
  have hname₃ : bucket s₃.dnsHashTable [101, 98] = 354 := by
    rw [bucket, hok₃.size]; decide +kernel
  have hrun : (serverStep dottedUv).AnyRun emptyServer s₃ _ := .next (hrun₁.any.trans hrun₂) trivial hs
  rcases hok₃.wellFormed.find hok₃.nonempty s₃.str [101, 98] with
    ⟨-, hne⟩ | ⟨a, A, e, R, hfind, hat, -, -⟩
  · rw [hname₃, htable₃, hbucket₁] at hne
    exact absurd hurl₃ (hne (.url 0, 0) (by simp [visible]))
  · have hent := hat.entries
    rw [hname₃, htable₃, hbucket₁] at hent
    cases A with
    | nil =>
        simp only [List.map_nil, List.nil_append, List.cons.injEq, Option.some.injEq] at hent
        obtain ⟨nd, hnd, -, hv⟩ := hat.load
        rw [← hent.1] at hv
        have hdomain : (s₃.dnsTable 0).domain = [97, 98] := by
          rw [← hs₃, Server.fill, hrows₂, hrow₁]
        refine ⟨s₃, _, a, nd, 0, hrun, ?_, hfind, hnd, hv, hdomain⟩
        rw [List.map_cons, List.map_append, hevents₂, hevents₁]
        rfl
    | cons x A => simp at hent

end TermCollection.Dns
