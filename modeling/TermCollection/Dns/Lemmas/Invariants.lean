import TermCollection.Dns.Lemmas.Removal
import TermCollection.Dns.Lemmas.Steps

/-!
# What every run keeps

The table stays well formed in every step that is defined, so that a lookup always has a result.
-/

namespace TermCollection.Dns

variable {uv : LibUv} {s s₀ s' : Server} {e : Event} {o : List Output} {url : CString}
variable {clock : Nat → SystemTime} {temp i node row : Nat} {tr : List (Event × List Output)}

structure Server.Ok (s : Server) : Prop where
  wellFormed : WellFormed s.dnsHashTable
  size : s.dnsHashTable.size = maxAmount
  idRow : s.idRowCount < maxAmount

theorem Server.Ok.nonempty (h : s.Ok) : 0 < s.dnsHashTable.size := by
  rw [h.size]; decide

/-! ## Lookup -/

theorem lookupRow_found (h : s.Ok) (hf : lookupRow s url = some (some (node, row))) :
    ∃ (A : List (KeyRef × Nat)) (k : KeyRef) (R : List (Option (KeyRef × Nat))),
      NodeAt s.dnsHashTable (bucket s.dnsHashTable url) node (A.map some) (k, row) R ∧
      s.str k = url ∧ ∀ e' ∈ A, s.str e'.1 ≠ url := by
  rcases h.wellFormed.find h.nonempty s.str url with ⟨hmiss, -⟩ | ⟨a, A, e, R, hfind, hat, hkey, hne⟩
  · simp [lookupRow, hmiss] at hf
  · obtain ⟨nd, hnd, -, hv⟩ := hat.load
    simp only [lookupRow, hfind, hnd, hv, Option.bind_eq_bind, Option.bind_some, Option.map_some,
      Option.some.injEq, Prod.mk.injEq] at hf
    obtain ⟨rfl, rfl⟩ := hf
    exact ⟨A, e.1, R, hat, hkey, hne⟩

theorem lookupRow_of_find {node : Nat} {A R : List (Option (KeyRef × Nat))} {e : KeyRef × Nat}
    {b : Nat} (hf : findNodeByKey s.str s.dnsHashTable url = some (some node))
    (hat : NodeAt s.dnsHashTable b node A e R) : lookupRow s url = some (some (node, e.2)) := by
  obtain ⟨nd, hnd, -, hv⟩ := hat.load
  simp [lookupRow, hf, hnd, hv]

/-- The first entry that has a property is the same in both ways of splitting a list. -/
theorem first_unique {α : Type} {p : α → Prop} {A B : List α} {a b : α} {R S : List (Option α)}
    (h : A.map some ++ some a :: R = B.map some ++ some b :: S) (ha : p a) (hb : p b)
    (hA : ∀ x ∈ A, ¬ p x) (hB : ∀ x ∈ B, ¬ p x) : A = B ∧ a = b ∧ R = S := by
  induction A generalizing B with
  | nil =>
      cases B with
      | nil => simpa using h
      | cons y B =>
          simp only [List.map_nil, List.nil_append, List.map_cons, List.cons_append, List.cons.injEq,
            Option.some.injEq] at h
          exact absurd (h.1 ▸ ha) (hB y (by simp))
  | cons x A ih =>
      cases B with
      | nil =>
          simp only [List.map_nil, List.nil_append, List.map_cons, List.cons_append, List.cons.injEq,
            Option.some.injEq] at h
          exact absurd (h.1 ▸ hb) (hA x (by simp))
      | cons y B =>
          simp only [List.map_cons, List.cons_append, List.cons.injEq, Option.some.injEq] at h
          obtain ⟨rfl, rfl, rfl⟩ := ih h.2 (fun z hz => hA z (List.mem_cons_of_mem _ hz))
            fun z hz => hB z (List.mem_cons_of_mem _ hz)
          exact ⟨by rw [h.1], rfl, rfl⟩

/-- A lookup finds the first entry of its name. -/
theorem lookupRow_first {A : List (KeyRef × Nat)} {R : List (Option (KeyRef × Nat))} {k : KeyRef} (h : s.Ok)
    (hent : bucketEntries s.dnsHashTable (bucket s.dnsHashTable url) = A.map some ++ some (k, row) :: R)
    (hkey : s.str k = url) (hA : ∀ e ∈ A, s.str e.1 ≠ url) :
    ∃ node, lookupRow s url = some (some (node, row)) := by
  rcases h.wellFormed.find h.nonempty s.str url with ⟨-, hmiss⟩ | ⟨a, B, e, S, hfind, hat, he, hB⟩
  · rw [hent, visible_append, visible] at hmiss
    exact absurd hkey (hmiss (k, row) (by simp))
  · have heq := hat.entries
    rw [hent] at heq
    obtain ⟨-, rfl, -⟩ := first_unique (p := fun x => s.str x.1 = url) heq.symm he hkey hB hA
    exact ⟨a, lookupRow_of_find hfind hat⟩

/-! ## Steps -/

theorem Server.Ok.fill (h : s.Ok) (oldID : UInt16) (addr : SockAddrIn) (isDone : Bool) (offset : Int)
    (url : CString) (time : SystemTime) : (s.fill oldID addr isDone offset url time).Ok :=
  ⟨h.wellFormed, h.size, Nat.mod_lt _ (by decide)⟩

theorem Server.Ok.removed {table : HashTable KeyRef Nat} {r : Bool} (h : s.Ok)
    (hf : lookupRow s url = some (some (node, row)))
    (hr : removeHashItemByNode s.dnsHashTable (some node) = some (r, table)) :
    Server.Ok { s with dnsHashTable := table } := by
  obtain ⟨A, k, R, hat, -, -⟩ := lookupRow_found h hf
  obtain ⟨-, hwf, hsize, -, -⟩ := hat.remove hr
  exact ⟨hwf, hsize.trans h.size, h.idRow⟩

theorem Server.Ok.inserted {table : HashTable KeyRef Nat} {r : Bool} {str : KeyRef → CString}
    {k : KeyRef} {v : Nat} (h : s.Ok) (hi : insertHashItem str s.dnsHashTable k v = some (r, table)) :
    WellFormed table ∧ table.size = maxAmount := by
  obtain ⟨t', ht', hwf, hsize, -, -⟩ := h.wellFormed.insert h.nonempty str k v
  rw [hi] at ht'
  cases ht'
  exact ⟨hwf, hsize.trans h.size⟩

theorem Server.Ok.cacheAnswers {answers : List Answer} (h : s.Ok)
    (hc : cacheAnswers temp clock s i answers = some (s', o)) : s'.Ok := by
  refine cacheAnswers_rule (I := fun s _ => s.Ok) (P := fun _ => True) hc
    (fun _ _ => trivial) h ?_
  intro s pre ttl result r table time h _ _ _ hins
  obtain ⟨hwf, hsize⟩ := h.inserted hins
  exact ⟨hwf, hsize, h.idRow⟩

theorem Server.Ok.finish (h : s.Ok) (temp : Nat) : (s.finish temp).Ok := ⟨h.wellFormed, h.size, h.idRow⟩

theorem Server.Ok.step (h : s.Ok) (hs : serverStep uv s e = some (s', o)) : s'.Ok := by
  cases e with
  | request nread base addr clock =>
      cases onReadRequest_cases hs with
      | ignored => exact h
      | ptr => exact h.fill ..
      | answered => exact h.fill ..
      | missed => exact h.fill ..
      | expired _ _ _ _ _ _ _ _ _ _ _ hf _ hr _ => exact (h.removed hf hr).fill ..
  | response nread base clock =>
      cases onReadResponse_cases hs with
      | dropped => exact h
      | relayed _ _ _ _ _ _ _ _ hc _ _ => exact (h.finish _).cacheAnswers hc

theorem Server.Ok.run {C : Server → Event → Prop} (h : s₀.Ok) (hr : (serverStep uv).Run C s₀ s tr) :
    s.Ok := hr.stateInvariant h fun _ _ _ _ h _ hs => h.step hs

/-! ## Loading -/

theorem Server.Ok.empty : emptyServer.Ok :=
  ⟨wellFormed_new maxAmount, rfl, by decide⟩

/-- The row that a line of the file gives. -/
def fileRow (data domain : CString) : TransDNSRow :=
  { type := typeA, ttl := 0x3F3F3F3F, data := data, domain := domain }

theorem loadLine_cases {line : List UInt8} (h : loadLine s line = some s') :
    ∃ data domain r table, s.dnsRowCount < maxAmount ∧
      insertHashItem
        { s with dnsTable := Function.update s.dnsTable s.dnsRowCount (fileRow data domain) }.str
        s.dnsHashTable (.domain s.dnsRowCount) s.dnsRowCount = some (r, table) ∧
      data = (line.takeWhile (· ≠ 0)).take ((line.takeWhile (· ≠ 0)).findIdx (· = 32)) ∧
      domain = ((line.takeWhile (· ≠ 0)).drop
        ((line.takeWhile (· ≠ 0)).findIdx (· = 32) + 1)).dropLast ∧
      s' = { s with
        dnsTable := Function.update s.dnsTable s.dnsRowCount (fileRow data domain)
        dnsHashTable := table
        dnsRowCount := s.dnsRowCount + 1 } := by
  unfold loadLine at h
  dsimp only at h
  split at h
  · rename_i hfit
    split at h
    · simp only [Option.bind_eq_bind, Option.bind_eq_some_iff, Option.some.injEq, Prod.exists] at h
      obtain ⟨r, table, hins, rfl⟩ := h
      exact ⟨_, _, r, table, hfit.2.2, hins, rfl, rfl, rfl⟩
    · cases h
  · cases h

theorem loadLoop_rule {I : Server → Prop} {fuel : Nat} {file : List UInt8}
    (h : loadLoop fuel s file = some s') (hI : I s)
    (hstep : ∀ s line s', I s → loadLine s line = some s' → I s') : I s' := by
  induction fuel generalizing s file with
  | zero => cases h; exact hI
  | succ fuel ih =>
      cases file with
      | nil => cases h; exact hI
      | cons b file =>
          simp only [loadLoop, Option.bind_eq_bind, Option.bind_eq_some_iff] at h
          obtain ⟨s₁, h₁, h⟩ := h
          exact ih h (hstep _ _ _ hI h₁)

theorem Server.Ok.load {file : List UInt8} (h : loadDNSTableData file = some s) : s.Ok := by
  refine loadLoop_rule h .empty ?_
  intro s line s' h hl
  obtain ⟨data, domain, r, table, -, hins, -, -, rfl⟩ := loadLine_cases hl
  obtain ⟨hwf, hsize⟩ := h.inserted hins
  exact ⟨hwf, hsize, h.idRow⟩

end TermCollection.Dns
