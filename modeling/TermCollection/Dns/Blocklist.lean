import TermCollection.Dns.Coherence
import TermCollection.Dns.Lemmas.Loading

/-!
# The blocklist

A name whose first line in the file carries the address `0.0.0.0` is blocked. Its node keeps its place
in the bucket while its row is not overwritten and no removal takes the node along.
-/

namespace TermCollection.Dns

variable {uv : LibUv} {s s₀ s' : Server} {e : Event} {o : List Output} {url d : CString}
variable {tr : List (Event × List Output)} {j node row temp i : Nat} {clock : Nat → SystemTime}
variable {lines : List (CString × CString)}

/-! ## The blocking lines -/

/-- The line is the first one of its domain and blocks it. -/
def blockingRow (lines : List (CString × CString)) (j : Nat) : Bool :=
  match lines[j]? with
  | none => false
  | some (ip, domain) => ip = bannedIP && (lines.take j).all fun line => line.2 ≠ domain

/-- The entry of the node behind the one that the `prev` of a node points to. -/
def skippedEntry (t : HashTable KeyRef Nat) (node : Nat) : Option (KeyRef × Nat) := do
  let nd ← t.mem.load node
  let p ← nd.prev
  let pn ← t.mem.load p
  let q ← pn.next
  (← t.mem.load q).entry

/-- No row of a blocking line is overwritten, and no removal takes its node along. -/
def keepsBlocks (lines : List (CString × CString)) (s : Server) (e : Event) : Bool :=
  ((eventCachePoints s e).all fun p => !blockingRow lines p.dnsRowCount) &&
    match expiredNode s e with
    | none => true
    | some node =>
        linkedBack s.dnsHashTable node ||
          match skippedEntry s.dnsHashTable node with
          | some (.domain j, _) => !blockingRow lines j
          | _ => true

/-! ## The invariant -/

/-- The row `j` blocks `d`, and its entry is the first one for `d` in the bucket. -/
structure Blocks (s : Server) (d : CString) (j : Nat) : Prop where
  row : s.dnsTable j = fileRow bannedIP d
  entries : ∃ (A : List (KeyRef × Nat)) (R : List (Option (KeyRef × Nat))),
    bucketEntries s.dnsHashTable (bucket s.dnsHashTable d) = A.map some ++ some (.domain j, j) :: R ∧
      ∀ e ∈ A, ∃ i, e = (.domain i, i) ∧ (s.dnsTable i).domain ≠ d

theorem Blocks.str (h : Blocks s d j) : s.str (.domain j) = d := by
  rw [Server.str, h.row]; rfl

/-- A lookup of a blocked name gives its row. -/
theorem Blocks.lookup (h : Blocks s d j) (hok : s.Ok) :
    ∃ node, lookupRow s d = some (some (node, j)) := by
  obtain ⟨A, R, hent, hA⟩ := h.entries
  refine lookupRow_first hok hent h.str ?_
  intro e he
  obtain ⟨i, rfl, hne⟩ := hA e he
  exact hne

theorem Blocks.findValue (h : Blocks s d j) (hok : s.Ok) :
    findValueByKey s.str s.dnsHashTable d ≠ some none := by
  obtain ⟨A, R, hent, hA⟩ := h.entries
  have hmem : (KeyRef.domain j, j) ∈ A ++ (.domain j, j) :: visible R := by simp
  rw [hok.wellFormed.findValue hok.nonempty, hent, visible_append, visible]
  simp only [ne_eq, Option.some.injEq, Option.map_eq_none_iff, List.find?_eq_none, decide_eq_true_eq]
  exact fun hno => hno _ hmem h.str

/-- A block depends on the table and the rows of the DNS table only. -/
theorem Blocks.congr (h : Blocks s d j) (htable : s'.dnsHashTable = s.dnsHashTable)
    (hrows : s'.dnsTable = s.dnsTable) : Blocks s' d j :=
  ⟨by rw [hrows]; exact h.row, by rw [htable, hrows]; exact h.entries⟩

theorem Blocks.cached {table : HashTable KeyRef Nat} {r : Bool} {ttl : UInt32} {result : CString}
    {time : SystemTime} (h : Blocks s d j) (hok : s.Ok) (hrow : s.dnsRowCount ≠ j)
    (hfind : findValueByKey s.str s.dnsHashTable (s.idTable temp).url = some none)
    (hins : insertHashItem (s.cacheRow temp ttl result time s.dnsHashTable).str s.dnsHashTable
      (.url temp) s.dnsRowCount = some (r, table)) :
    Blocks (s.cacheRow temp ttl result time table) d j := by
  obtain ⟨A, R, hent, hA⟩ := h.entries
  have hname : (s.idTable temp).url ≠ d := by
    rintro rfl
    exact h.findValue hok hfind
  obtain ⟨t', ht', -, hsize, hother, hself⟩ := hok.wellFormed.insert hok.nonempty
    (s.cacheRow temp ttl result time s.dnsHashTable).str (.url temp) s.dnsRowCount
  rw [hins] at ht'
  cases ht'
  have hbucket : bucket table d = bucket s.dnsHashTable d := by rw [bucket, bucket, hsize]
  refine ⟨by simp [Server.cacheRow, Function.update_of_ne (Ne.symm hrow), h.row], ?_⟩
  have hA' : ∀ e ∈ A, ∃ i, e = (.domain i, i) ∧
      ((s.cacheRow temp ttl result time table).dnsTable i).domain ≠ d := by
    intro e he
    obtain ⟨i, rfl, hne⟩ := hA e he
    refine ⟨i, rfl, ?_⟩
    by_cases hi : i = s.dnsRowCount
    · subst hi; simpa [Server.cacheRow] using hname
    · simpa [Server.cacheRow, Function.update_of_ne hi] using hne
  have hlt := bucket_lt hok.nonempty d
  have hent' : bucketEntries table (bucket table d) =
      if bucket s.dnsHashTable d = bucket s.dnsHashTable
        ((s.cacheRow temp ttl result time s.dnsHashTable).str (.url temp))
      then insertEntry (.url temp, s.dnsRowCount) (bucketEntries s.dnsHashTable (bucket s.dnsHashTable d))
      else bucketEntries s.dnsHashTable (bucket s.dnsHashTable d) := by
    rw [hbucket]
    split
    · rename_i hb; rw [hb, hself]
    · rename_i hb; exact hother _ hlt hb
  show ∃ (A : List (KeyRef × Nat)) (R : List (Option (KeyRef × Nat))),
    bucketEntries table (bucket table d) = _ ∧ _
  rw [hent', hent]
  split
  · refine ⟨A, R ++ [some (.url temp, s.dnsRowCount)], ?_, hA'⟩
    cases A <;> simp [insertEntry]
  · exact ⟨A, R, rfl, hA'⟩

/-- Two entries of one list: one of them stands before the other. -/
theorem split_cases {α : Type} {A B : List α} {a b : α} {R S : List (Option α)}
    (h : B.map some ++ some b :: S = A.map some ++ some a :: R) (hne : b ≠ a) :
    (∃ C, A = B ++ b :: C ∧ S = C.map some ++ some a :: R) ∨
      ∃ C, B = A ++ a :: C ∧ R = C.map some ++ some b :: S := by
  induction A generalizing B with
  | nil =>
      cases B with
      | nil => simp only [List.map_nil, List.nil_append, List.cons.injEq, Option.some.injEq] at h
               exact absurd h.1 hne
      | cons y B =>
          simp only [List.map_nil, List.nil_append, List.map_cons, List.cons_append, List.cons.injEq,
            Option.some.injEq] at h
          obtain ⟨rfl, rfl⟩ := h
          exact .inr ⟨B, rfl, rfl⟩
  | cons x A ih =>
      cases B with
      | nil =>
          simp only [List.map_nil, List.nil_append, List.map_cons, List.cons_append, List.cons.injEq,
            Option.some.injEq] at h
          obtain ⟨rfl, rfl⟩ := h
          exact .inl ⟨A, rfl, rfl⟩
      | cons y B =>
          simp only [List.map_cons, List.cons_append, List.cons.injEq, Option.some.injEq] at h
          obtain ⟨rfl, h⟩ := h
          rcases ih h with ⟨C, rfl, rfl⟩ | ⟨C, rfl, rfl⟩
          · exact .inl ⟨C, rfl, rfl⟩
          · exact .inr ⟨C, rfl, rfl⟩

/-- A removal that does not take the entry `f` along leaves it after a part of what was before it. -/
theorem Removal.keeps {κ ν : Type} {t : HashTable κ ν} {a : Nat} {A B : List (κ × ν)} {f e : κ × ν}
    {R S es : List (Option (κ × ν))} (h : Removal t a (B.map some) S es)
    (heq : B.map some ++ some e :: S = A.map some ++ some f :: R) (hne : e ≠ f)
    (hspare : ∀ p q, (t.mem.load a).map Node.prev = some (some p) → nextOf t.mem p = some (some q) →
      q ≠ a → entryOf t.mem q ≠ some f) :
    ∃ A' R', es = A'.map some ++ some f :: R' ∧ A' ⊆ A := by
  rcases split_cases heq hne with ⟨C, rfl, rfl⟩ | ⟨C, rfl, rfl⟩
  · cases h with
    | emptied hnil _ => simp at hnil
    | unlinked _ => exact ⟨B ++ C, R, by simp, by simp⟩
    | skipped A' o p q _ _ _ _ hB =>
        obtain ⟨B', C', rfl, rfl, -⟩ := List.map_eq_append_iff.mp hB
        exact ⟨B' ++ C, R, by simp, by
          intro x hx
          simp only [List.mem_append, List.mem_cons] at hx ⊢
          tauto⟩
  · cases h with
    | emptied _ _ => exact ⟨A, C.map some ++ [none], by simp, List.Subset.refl _⟩
    | unlinked _ => exact ⟨A, C.map some ++ S, by simp, List.Subset.refl _⟩
    | skipped A' o p q hp hq hqa ho hB =>
        rcases List.eq_nil_or_concat' C with rfl | ⟨C', x, rfl⟩
        · have hlast := congrArg List.getLast? hB
          simp only [List.map_append, List.map_cons, List.map_nil, List.getLast?_singleton,
            List.getLast?_append, Option.some_or, Option.some.injEq] at hlast
          exact absurd (ho.trans hlast.symm) (hspare p q hp hq hqa)
        · have hsplit : (A ++ f :: (C' ++ [x])).map some = (A ++ f :: C').map some ++ [some x] := by simp
          rw [hsplit] at hB
          obtain ⟨rfl, -⟩ := List.append_inj' hB rfl
          exact ⟨A, C'.map some ++ S, by simp, List.Subset.refl _⟩

theorem Blocks.removed {table : HashTable KeyRef Nat} {r : Bool} (h : Blocks s d j) (hok : s.Ok)
    (hf : lookupRow s url = some (some (node, row))) (hrow : row ≠ j)
    (hspare : linkedBack s.dnsHashTable node = true ∨
      skippedEntry s.dnsHashTable node ≠ some (.domain j, j))
    (hr : removeHashItemByNode s.dnsHashTable (some node) = some (r, table)) :
    Blocks { s with dnsHashTable := table } d j := by
  obtain ⟨A, R, hent, hA⟩ := h.entries
  obtain ⟨B, k, S, hat, -, -⟩ := lookupRow_found hok hf
  obtain ⟨-, -, hsize, hother, hrem⟩ := hat.remove hr
  have hbucket : bucket table d = bucket s.dnsHashTable d := by rw [bucket, bucket, hsize]
  have hlt := bucket_lt hok.nonempty d
  refine ⟨h.row, ?_⟩
  show ∃ (A : List (KeyRef × Nat)) (R : List (Option (KeyRef × Nat))),
    bucketEntries table (bucket table d) = _ ∧ _
  rw [hbucket]
  by_cases hb : bucket s.dnsHashTable d = bucket s.dnsHashTable url
  · have heq := hat.entries
    rw [← hb, hent] at heq
    rw [← hb] at hrem
    have hne : (k, row) ≠ (KeyRef.domain j, j) := by
      intro hk
      exact hrow (congrArg Prod.snd hk)
    obtain ⟨A', R', hes, hsub⟩ := hrem.keeps heq.symm hne fun p q hp hq hqa hentry => by
      obtain ⟨nd, hnd, hp⟩ := Option.map_eq_some_iff.mp hp
      obtain ⟨pn, hpn, hq⟩ := Option.map_eq_some_iff.mp hq
      rcases hspare with hback | hskip
      · simp [linkedBack, hnd, hp, hpn, hq, hqa] at hback
      · obtain ⟨qn, hqn, hentry⟩ := Option.bind_eq_some_iff.mp hentry
        exact hskip (by simp [skippedEntry, hnd, hp, hpn, hq, hqn, hentry])
    exact ⟨A', R', hes, fun e he => hA e (hsub he)⟩
  · rw [hother _ hlt hb]
    exact ⟨A, R, hent, hA⟩

/-! ## Every run -/

theorem blockingRow_iff : blockingRow lines j = true ↔
    ∃ d, lines[j]? = some (bannedIP, d) ∧ ∀ line ∈ lines.take j, line.2 ≠ d := by
  rw [blockingRow]
  cases h : lines[j]? with
  | none => simp
  | some line =>
      obtain ⟨ip, domain⟩ := line
      simp only [Bool.and_eq_true, decide_eq_true_eq, List.all_eq_true, Option.some.injEq, Prod.mk.injEq]
      constructor
      · rintro ⟨rfl, hfirst⟩
        exact ⟨domain, ⟨rfl, rfl⟩, hfirst⟩
      · rintro ⟨d, ⟨rfl, rfl⟩, hfirst⟩
        exact ⟨rfl, hfirst⟩

/-- The row of a file never ends. -/
theorem Blocks.valid (h : Blocks s d j) (time : SystemTime) : now time < (s.dnsTable j).ttl := by
  have hlt := now_lt time
  rw [h.row, UInt32.lt_iff_toNat_lt]
  simp only [fileRow]
  have hend : (0x3F3F3F3F : UInt32).toNat = 1061109567 := rfl
  omega

theorem Blocks.step (h : Blocks s d j) (hok : s.Ok) (hj : blockingRow lines j = true)
    (hc : keepsBlocks lines s e = true) (hs : serverStep uv s e = some (s', o)) : Blocks s' d j := by
  obtain ⟨hcache, hremove⟩ := (Bool.and_eq_true _ _).mp hc
  cases e with
  | request nread base addr clock =>
      cases onReadRequest_cases hs with
      | ignored => exact h
      | ptr => exact h.congr rfl rfl
      | answered => exact h.congr rfl rfl
      | missed => exact h.congr rfl rfl
      | expired id url type node row r table base' hacc hptr _ hrow hend hrem _ =>
          have hne : row ≠ j := by
            rintro rfl
            exact hend (h.valid _)
          rw [expiredNode_eq hacc hptr hrow hend] at hremove
          have hspare : linkedBack s.dnsHashTable node = true ∨
              skippedEntry s.dnsHashTable node ≠ some (.domain j, j) := by
            rcases (Bool.or_eq_true _ _).mp hremove with hback | hskip
            · exact .inl hback
            · refine .inr fun heq => ?_
              rw [heq] at hskip
              simp [hj] at hskip
          exact (h.removed hok hrow hne hspare hrem).congr rfl rfl
  | response nread base clock =>
      cases onReadResponse_cases hs with
      | dropped => exact h
      | relayed temp answers _ cached base' htemp _ hans hrule _ _ =>
          have hpoints : ∀ p ∈ cachePoints temp clock (s.finish temp) 1 answers, p.dnsRowCount ≠ j := by
            intro p hp heq
            have hkept := List.all_eq_true.mp hcache p (by simpa [eventCachePoints, htemp, hans] using hp)
            simp [heq, hj] at hkept
          refine (cacheAnswers_rule (I := fun s _ => s.Ok ∧ Blocks s d j) hrule hpoints
            ⟨hok.finish temp, h.congr rfl rfl⟩ ?_).2
          rintro s pre ttl result r table time ⟨hok, h⟩ hrow - hfind hins
          obtain ⟨hwf, hsize⟩ := hok.inserted hins
          exact ⟨⟨hwf, hsize, hok.idRow⟩, h.cached hok hrow hfind hins⟩

theorem FileLoaded.blocks (h : FileLoaded lines s)
    (hj : lines[j]? = some (bannedIP, d)) (hfirst : ∀ line ∈ lines.take j, line.2 ≠ d) :
    Blocks s d j :=
  ⟨h.row j _ hj, h.first_entry hj hfirst⟩

/-- While no blocking row is overwritten and no removal takes the node of one along, a request for a
blocked name is answered with answer count 0. -/
theorem blocked_stays_blocked (uv : LibUv) (hvalid : ∀ line ∈ lines, ValidLine line)
    (hlen : lines.length ≤ maxAmount) :
    ∃ s₀, loadDNSTableData (fileText lines) = some s₀ ∧
      ∀ s tr, (serverStep uv).Run (keepsBlocks lines · ·) s₀ s tr →
      ∀ d j, lines[j]? = some (bannedIP, d) → (∀ line ∈ lines.take j, line.2 ≠ d) →
      ∀ (nread : Int) (base : List UInt8) (addr : SockAddrIn) (clock : Nat → SystemTime)
        (id type : UInt16), acceptedRequest (.request nread base addr clock) = some (id, d, type) →
        type ≠ typePTR → nread + 16 ≤ 1024 → nread.toNat + 16 ≤ base.length →
      ∃ s' dest data, serverStep uv s (.request nread base addr clock) =
          some (s', [.toClient dest data]) ∧ (data.drop 6).take 2 = [0, 0] := by
  obtain ⟨s₀, hload, hloaded⟩ := loaded_of_valid hvalid hlen
  refine ⟨s₀, hload, ?_⟩
  intro s tr hr d j hj hfirst nread base addr clock id type hacc hptr hbuf hbase
  have hblocking : blockingRow lines j = true := blockingRow_iff.mpr ⟨d, hj, hfirst⟩
  have hrun : s.Ok ∧ Blocks s d j := by
    refine hr.stateInvariant (I := fun s => s.Ok ∧ Blocks s d j)
      ⟨hloaded.ok, hloaded.blocks hj hfirst⟩ ?_
    rintro s e s' o ⟨hok, h⟩ hc hs
    exact ⟨hok.step hs, h.step hok hblocking hc hs⟩
  obtain ⟨hok, h⟩ := hrun
  obtain ⟨node, hrow⟩ := h.lookup hok
  have hline := hvalid _ (List.mem_of_getElem? hj)
  have hnread := lt_nread_of_accepted hacc
  obtain ⟨dest, data, hs, hcount⟩ := answered_defined uv hacc hptr
    (Nat.lt_of_succ_lt hline.domain_lt) (by omega) hbase hbuf hrow (h.valid _)
  refine ⟨_, dest, data, hs, hcount.trans ?_⟩
  rw [h.row, fileRow, if_pos rfl]
  decide

theorem blocked_stays_blocked_example :
    ∃ s₀ s' dest data, loadDNSTableData (fileText [(bannedIP, [97, 98])]) = some s₀ ∧
      serverStep dottedUv s₀ (queryEvent 7 97 98 client₁ jan31) = some (s', [.toClient dest data]) ∧
      (data.drop 6).take 2 = [0, 0] := by
  have hvalid : ∀ line ∈ [(bannedIP, ([97, 98] : CString))], ValidLine line := by
    intro line hline
    cases List.mem_singleton.mp hline
    exact ⟨by decide +kernel, by decide +kernel, by decide, by decide⟩
  obtain ⟨s₀, hload, hblocked⟩ := blocked_stays_blocked dottedUv hvalid (by decide)
  obtain ⟨s', dest, data, hs, hcount⟩ := hblocked s₀ [] .init [97, 98] 0 rfl (by simp) 20
    (received (questionBytes 7 0x0100 0 97 98)) client₁ (fun _ => jan31) 0x0700 1 (by decide +kernel)
    (by decide) (by decide) (by decide)
  exact ⟨s₀, s', dest, data, hload, hs, hcount⟩

/-! ## A block that is undone -/

/-- Two names of one bucket. -/
def blockedPair : List (CString × CString) := [(bannedIP, [97, 98]), (bannedIP, [101, 98])]

def loadedPair : Server := (loadDNSTableData (fileText blockedPair)).getD emptyServer

/-- The time on the first day of a March. -/
def march1 (minute : Fin 60) : SystemTime :=
  { wYear := 2020, wMonth := 3, wDay := 1, wHour := 0, wMinute := minute, wSecond := 0,
    wMilliseconds := 0, hour_lt := (0 : Fin 24).isLt, minute_lt := minute.isLt,
    second_lt := (0 : Fin 60).isLt, milliseconds_lt := jan31.milliseconds_lt }

/-- The record of a third name of the bucket is cached, and removed when it has ended: its `prev` is the
node before the last one. -/
def expiredNeighbour : List Event :=
  [queryEvent 9 105 98 client₁ (march1 9), responseEvent 0 105 98 1 [1, 2, 3, 4] (march1 1),
    queryEvent 7 105 98 client₁ (march1 1)]

/-- The second of two blocked names is forwarded. -/
theorem block_undone :
    ∃ s tr s' data, loadDNSTableData (fileText blockedPair) = some loadedPair ∧
      (serverStep dottedUv).AnyRun loadedPair s tr ∧ tr.map Prod.fst = expiredNeighbour ∧
      acceptedRequest (queryEvent 8 101 98 client₁ (march1 9)) = some (0x0800, [101, 98], 1) ∧
      serverStep dottedUv s (queryEvent 8 101 98 client₁ (march1 9)) = some (s', [.toServer data]) := by
  obtain ⟨s₀, hload⟩ := Option.isSome_iff_exists.mp
    (show (loadDNSTableData (fileText blockedPair)).isSome = true by decide +kernel)
  have hloaded : loadDNSTableData (fileText blockedPair) = some loadedPair := by
    rw [loadedPair, hload, Option.getD_some]
  obtain ⟨hrun, hevents⟩ := Machine.run_after (serverStep dottedUv) Machine.always loadedPair
    expiredNeighbour (by decide +kernel)
  obtain ⟨s', hs⟩ := Machine.step_after (serverStep dottedUv)
    (Machine.stateAfter (serverStep dottedUv) Machine.always loadedPair expiredNeighbour)
    (queryEvent 8 101 98 client₁ (march1 9)) (by decide +kernel)
  have hforwarded : Machine.outputAfter (serverStep dottedUv)
      (Machine.stateAfter (serverStep dottedUv) Machine.always loadedPair expiredNeighbour)
      (queryEvent 8 101 98 client₁ (march1 9)) =
        [.toServer (questionBytes 2 0x0100 0 101 98)] := by decide +kernel
  rw [hforwarded] at hs
  exact ⟨_, _, s', _, hloaded, hrun.any, hevents, by decide +kernel, hs⟩

end TermCollection.Dns
