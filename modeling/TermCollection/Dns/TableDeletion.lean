import Mathlib.Algebra.BigOperators.Ring.Finset
import TermCollection.Dns.TableRefinement

/-!
# The end of a table (`DeleteHashTable`)

The nodes of the buckets are freed one by one, and the array as one block. What no bucket leads to any more
stays allocated.
-/

namespace TermCollection.Dns

variable {κ ν : Type} {t t' : HashTable κ ν} {m m' : Mem (Node κ ν)} {a b i : Nat} {str : κ → CString}
variable {k : κ} {v : ν} {e : κ × ν} {A R : List (Option (κ × ν))}

/-! ## The function -/

/-- The loop over a bucket, from a node on. -/
def freeFrom : Nat → Option Nat → Mem (Node κ ν) → Option (Mem (Node κ ν))
  | _, none, m => some m
  | 0, some _, _ => none
  | fuel + 1, some node, m => do
      let nd ← m.load node
      let m ← m.free node
      freeFrom fuel nd.next m

/-- The nodes after the head of a bucket. -/
def freeBucket (m : Mem (Node κ ν)) (index : Nat) : Option (Mem (Node κ ν)) := do
  let head ← m.load index
  freeFrom m.brk head.next m

/-- The table is passed as it is: the caller keeps its size and its pointer. -/
def deleteHashTable (t : HashTable κ ν) : Option (Bool × HashTable κ ν) :=
  if t.size = 0 then some (false, t)
  else do
    let m ← (List.range t.size).foldlM freeBucket t.mem
    let m ← m.freeAll (List.range t.size)
    some (true, { t with mem := m })

/-! ## What is freed -/

theorem freeFrom_chain {l : List Nat} {fuel : Nat} (h : Linked (nextOf m) l) (hnodup : l.Nodup)
    (hfuel : l.length ≤ fuel) : freeFrom fuel l.head? m = m.freeAll l := by
  induction l generalizing m fuel with
  | nil => cases fuel <;> rfl
  | cons a l ih =>
      obtain ⟨ha, hl⟩ := h.uncons
      obtain ⟨hnotin, hnodup⟩ := List.nodup_cons.mp hnodup
      obtain ⟨nd, hnd, hnext⟩ := load_of_nextOf ha
      obtain ⟨m₁, h₁⟩ := Mem.free_of_live hnd
      obtain ⟨-, -, hload⟩ := Mem.free_eq_some h₁
      have hl₁ : Linked (nextOf m₁) l := hl.congr fun c hc => by
        rw [nextOf, nextOf, hload, if_neg (by rintro rfl; exact hnotin hc)]
      cases fuel with
      | zero => cases hfuel
      | succ fuel =>
          rw [List.head?_cons, freeFrom, hnd, Option.bind_eq_bind, Option.bind_some, h₁, Option.bind_eq_bind,
            Option.bind_some, hnext, ih hl₁ hnodup (Nat.le_of_succ_le_succ hfuel), Mem.freeAll, Mem.freeAll,
            List.foldlM_cons, h₁]
          rfl

/-- The buckets are freed one after the other, each behind its head. -/
theorem freeBuckets_chains {tl : Nat → List Nat} {is : List Nat}
    (hlinked : ∀ i ∈ is, Linked (nextOf m) (i :: tl i)) (hnodup : (is.flatMap tl).Nodup)
    (hheads : ∀ i ∈ is, ∀ j ∈ is, i ∉ tl j) (hlength : ∀ i ∈ is, (tl i).length ≤ m.brk) :
    is.foldlM freeBucket m = m.freeAll (is.flatMap tl) := by
  induction is generalizing m with
  | nil => rfl
  | cons i is ih =>
      rw [List.flatMap_cons, List.nodup_append] at hnodup
      obtain ⟨hhere, hrest, hapart⟩ := hnodup
      obtain ⟨hi, htl⟩ := (hlinked i List.mem_cons_self).uncons
      obtain ⟨nd, hnd, hnext⟩ := load_of_nextOf hi
      have hlive : ∀ a ∈ tl i, ∃ nd, m.load a = some nd := fun a ha => by
        obtain ⟨o, ho⟩ := htl.live ha
        obtain ⟨nd, hnd, -⟩ := load_of_nextOf ho
        exact ⟨nd, hnd⟩
      obtain ⟨m₁, h₁, hbrk, hload⟩ := Mem.freeAll_of_live hhere hlive
      have hbucket : freeBucket m i = some m₁ := by
        rw [freeBucket, hnd, Option.bind_eq_bind, Option.bind_some, hnext,
          freeFrom_chain htl hhere (hlength i List.mem_cons_self), h₁]
      have hsame : ∀ j ∈ is, ∀ c ∈ j :: tl j, nextOf m₁ c = nextOf m c := by
        intro j hj c hc
        rw [nextOf, nextOf, hload, if_neg]
        rcases List.mem_cons.mp hc with rfl | hc
        · exact hheads c (List.mem_cons_of_mem i hj) i List.mem_cons_self
        · exact fun hmem => hapart c hmem c (List.mem_flatMap.mpr ⟨j, hj, hc⟩) rfl
      rw [List.foldlM_cons, hbucket, List.flatMap_cons, Mem.freeAll_append, h₁]
      refine ih (fun j hj => ?_) hrest (fun x hx y hy => ?_) fun j hj => ?_
      · exact (hlinked j (List.mem_cons_of_mem i hj)).congr (hsame j hj)
      · exact hheads x (List.mem_cons_of_mem i hx) y (List.mem_cons_of_mem i hy)
      · exact hbrk ▸ hlength j (List.mem_cons_of_mem i hj)

/-- The number of nodes in the buckets. -/
def nodeCount (t : HashTable κ ν) : Nat := ∑ i ∈ Finset.range t.size, (bucketEntries t i).length

theorem nodeCount_eq_sum (t : HashTable κ ν) :
    nodeCount t = ((List.range t.size).map fun i => (bucketEntries t i).length).sum := rfl

/-! ## Deletion -/

namespace Layout

variable {ch : Nat → List Nat}

theorem head_tail (h : Layout t ch) (hi : i < t.size) :
    ch i = i :: (ch i).tail ∧ ∀ a ∈ (ch i).tail, t.size ≤ a := by
  obtain ⟨tl, htl, hge⟩ := (h.chain i hi).head
  rw [htl]
  exact ⟨rfl, hge⟩

/-- The nodes behind the heads. -/
theorem nodup_tails (h : Layout t ch) : ((List.range t.size).flatMap fun i => (ch i).tail).Nodup := by
  refine List.nodup_flatMap.mpr ⟨fun i hi => ?_, List.Pairwise.imp_of_mem ?_ List.nodup_range⟩
  · exact (h.chain i (List.mem_range.mp hi)).nodup.sublist (List.tail_sublist _)
  · intro i j hi hj hij a hai haj
    exact h.disjoint i (List.mem_range.mp hi) j (List.mem_range.mp hj) hij a (List.mem_of_mem_tail hai)
      (List.mem_of_mem_tail haj)

theorem freeBuckets (h : Layout t ch) : (List.range t.size).foldlM freeBucket t.mem =
    t.mem.freeAll ((List.range t.size).flatMap fun i => (ch i).tail) := by
  refine freeBuckets_chains (fun i hi => ?_) h.nodup_tails (fun i hi j hj hij => ?_) fun i hi => ?_
  · rw [← (h.head_tail (List.mem_range.mp hi)).1]
    exact (h.chain i (List.mem_range.mp hi)).linked
  · have hge := (h.head_tail (List.mem_range.mp hj)).2 i hij
    exact Nat.lt_irrefl _ (Nat.lt_of_lt_of_le (List.mem_range.mp hi) hge)
  · exact Nat.le_trans (List.tail_sublist _).length_le (h.chain i (List.mem_range.mp hi)).length_le

/-- No block is freed twice. -/
theorem freeAll (h : Layout t ch) :
    ∃ m, t.mem.freeAll ((List.range t.size).flatMap (fun i => (ch i).tail) ++ List.range t.size) = some m := by
  refine (Mem.freeAll_of_live (List.nodup_append.mpr ⟨h.nodup_tails, List.nodup_range, ?_⟩) ?_).imp
    fun _ => And.left
  · rintro a ha b hb rfl
    obtain ⟨i, hi, hai⟩ := List.mem_flatMap.mp ha
    have hge := (h.head_tail (List.mem_range.mp hi)).2 a hai
    exact Nat.lt_irrefl _ (Nat.lt_of_lt_of_le (List.mem_range.mp hb) hge)
  · intro a ha
    rcases List.mem_append.mp ha with ha | ha
    · obtain ⟨i, hi, hai⟩ := List.mem_flatMap.mp ha
      exact (h.chain i (List.mem_range.mp hi)).live (List.mem_of_mem_tail hai)
    · refine (h.chain a (List.mem_range.mp ha)).live ?_
      rw [(h.head_tail (List.mem_range.mp ha)).1]
      exact List.mem_cons_self

theorem length_freed (h : Layout t ch) :
    ((List.range t.size).flatMap (fun i => (ch i).tail) ++ List.range t.size).length = nodeCount t := by
  rw [nodeCount_eq_sum, List.length_append, List.length_flatMap]
  suffices hsum : ∀ is ⊆ List.range t.size, (is.map fun i => (ch i).tail.length).sum + is.length =
      (is.map fun i => (bucketEntries t i).length).sum from hsum _ (List.Subset.refl _)
  intro is his
  induction is with
  | nil => rfl
  | cons i is ih =>
      obtain ⟨hi, his⟩ := List.cons_subset.mp his
      have hone : (bucketEntries t i).length = (ch i).tail.length + 1 := by
        rw [h.entries (List.mem_range.mp hi), List.length_map, (h.head_tail (List.mem_range.mp hi)).1]
        rfl
      rw [List.map_cons, List.map_cons, List.sum_cons, List.sum_cons, List.length_cons, ← ih his, hone]
      omega

end Layout

/-- The deletion is defined, and frees the nodes of the buckets. -/
theorem WellFormed.delete (h : WellFormed t) (hs : 0 < t.size) :
    ∃ m, deleteHashTable t = some (true, { t with mem := m }) ∧
      m.blocks.card + nodeCount t = t.mem.blocks.card := by
  obtain ⟨ch, hl⟩ := h
  obtain ⟨m, hm⟩ := hl.freeAll
  refine ⟨m, ?_, ?_⟩
  · rw [Mem.freeAll_append] at hm
    obtain ⟨m₁, h₁, h₂⟩ := Option.bind_eq_some_iff.mp hm
    rw [deleteHashTable, if_neg hs.ne', hl.freeBuckets, h₁, Option.bind_eq_bind, Option.bind_some, h₂]
    rfl
  · rw [← Mem.card_blocks_freeAll hm, hl.length_freed]

/-! ## Lost nodes -/

/-- The nodes that an operation takes out of a bucket without freeing them: those behind an emptied head that
is filled, or the one before a removed node whose `prev` skips it. -/
def lost (str : κ → CString) (t : HashTable κ ν) : TableOp κ ν → List (Option (κ × ν))
  | .insert key _ =>
      match bucketEntries t (bucket t (str key)) with
      | none :: behind => behind
      | _ => []
  | .lookup _ => []
  | .remove key =>
      match findNodeByKey str t key with
      | some (some node) =>
          if linkedBack t node then []
          else [do
            let nd ← t.mem.load node
            let skipped ← (← nextOf t.mem (← nd.prev))
            entryOf t.mem skipped]
      | _ => []

/-- Only one bucket has another number of nodes. -/
theorem nodeCount_change (hsize : t'.size = t.size) (hi : i < t.size)
    (hother : ∀ j < t.size, j ≠ i → bucketEntries t' j = bucketEntries t j) :
    nodeCount t' + (bucketEntries t i).length = nodeCount t + (bucketEntries t' i).length := by
  have hmem := Finset.mem_range.mpr hi
  rw [nodeCount, nodeCount, hsize, ← Finset.add_sum_erase _ _ hmem, ← Finset.add_sum_erase _ _ hmem]
  have hrest : ∑ j ∈ (Finset.range t.size).erase i, (bucketEntries t' j).length =
      ∑ j ∈ (Finset.range t.size).erase i, (bucketEntries t j).length := by
    refine Finset.sum_congr rfl fun j hj => ?_
    obtain ⟨hne, hj⟩ := Finset.mem_erase.mp hj
    rw [hother j (Finset.mem_range.mp hj) hne]
  omega

theorem blocks_setPrev {next : Option Nat} {p : Nat} (h : setPrev m next p = some m') :
    m'.blocks = m.blocks := by
  cases next with
  | none =>
      cases h
      rfl
  | some b => exact Mem.blocks_modify h

/-- An insertion allocates a node, unless the head of its bucket is free. -/
theorem card_blocks_insert {r : Bool} (hs : 0 < t.size) (h : insertHashItem str t k v = some (r, t')) :
    ∃ hd, t.mem.load (bucket t (str k)) = some hd ∧
      t'.mem.blocks.card = t.mem.blocks.card + if hd.entry = none then 0 else 1 := by
  simp only [insertHashItem, if_neg hs.ne', Option.bind_eq_bind, Option.bind_eq_some_iff] at h
  obtain ⟨hd, hhd, h⟩ := h
  refine ⟨hd, hhd, ?_⟩
  split at h
  · rename_i hblank
    obtain ⟨m, hm, h⟩ := Option.bind_eq_some_iff.mp h
    cases h
    rw [if_pos (Node.entry_eq_none.mpr (by simpa using hblank)), Mem.blocks_modify hm, Nat.add_zero]
  · rename_i hfull
    simp only [Option.bind_eq_some_iff, Option.some.injEq, Prod.mk.injEq, Prod.exists] at h
    obtain ⟨last, prev, -, m, hm, -, rfl⟩ := h
    rw [if_neg fun hnone => hfull (by simpa using Node.entry_eq_none.mp hnone), Mem.blocks_modify hm,
      Mem.card_blocks_malloc]

theorem WellFormed.count_insert {r : Bool} (h : WellFormed t) (hs : 0 < t.size)
    (hins : insertHashItem str t k v = some (r, t')) : WellFormed t' ∧ t'.size = t.size ∧
      t'.mem.blocks.card + nodeCount t =
        t.mem.blocks.card + nodeCount t' + (lost str t (.insert k v)).length := by
  have hi := bucket_lt hs (str k)
  obtain ⟨t₁, ht₁, hwf, hsize, hother, hself⟩ := h.insert hs str k v
  rw [hins] at ht₁
  cases ht₁
  refine ⟨hwf, hsize, ?_⟩
  obtain ⟨hd, hhd, hblocks⟩ := card_blocks_insert hs hins
  obtain ⟨ch, hl⟩ := h
  obtain ⟨behind, hentries⟩ := hl.head_entries hi hhd
  have hcount := nodeCount_change hsize hi hother
  rw [hself, hentries] at hcount
  rw [lost, hentries]
  generalize hd.entry = o at hcount hblocks
  cases o with
  | none =>
      simp only [insertEntry, List.length_cons, List.length_nil, if_true] at hcount hblocks ⊢
      omega
  | some e =>
      simp only [insertEntry, List.length_cons, List.length_append, List.length_nil, reduceCtorEq,
        if_false] at hcount hblocks ⊢
      omega

/-- A removal frees a node, unless it empties one. -/
theorem NodeAt.count_remove {r : Bool} (h : NodeAt t i a A e R)
    (hr : removeHashItemByNode t (some a) = some (r, t')) :
    t'.mem.blocks.card + nodeCount t =
      t.mem.blocks.card + nodeCount t' + if linkedBack t a then 0 else 1 := by
  obtain ⟨-, -, hsize, hother, -⟩ := h.remove hr
  have hbefore := congrArg List.length h.entries
  obtain ⟨ch, lA, lR, hl, hi, hch, rfl, he, rfl⟩ := h
  have hc := hl.chain i hi
  have hcA : Chain t.mem t.size i (lA ++ a :: lR) := hch ▸ hc
  obtain ⟨-, haR', hdisj⟩ := List.nodup_append.mp hcA.nodup
  have haR := (List.nodup_cons.mp haR').1
  obtain ⟨nd, hnd⟩ := hcA.live (a := a) (by simp)
  have hnext := hcA.next_eq hnd
  have hcount := nodeCount_change hsize hi hother
  obtain ⟨-, m', rfl, hcase⟩ := remove_cases hnd hr
  rw [hbefore] at hcount
  simp only [List.length_append, List.length_cons, List.length_map] at hcount
  rcases hcase with ⟨hp, hn, hm'⟩ | ⟨b, tn, m₁, m₂, m₃, hp, hn, htn, h₁, h₂, h₃, h₄⟩ |
    ⟨p, m₁, m₂, hp, h₁, h₂, h₃⟩
  · have hback : linkedBack t a = true := by simp [linkedBack, hnd, hp]
    obtain rfl := List.head?_eq_none_iff.mp (hnext.symm.trans hn)
    obtain ⟨-, -, hbe⟩ := hl.emptied hi hch hnd hm'
    rw [hbe] at hcount
    simp only [List.length_append, List.length_cons, List.length_map, List.length_nil] at hcount
    rw [if_pos hback, show HashTable.mem { t with mem := m' } = m' from rfl, Mem.blocks_modify hm']
    omega
  · have hback : linkedBack t a = true := by simp [linkedBack, hnd, hp]
    obtain ⟨lR', rfl⟩ := List.head?_eq_some_iff.mp (hnext.symm.trans hn)
    have hab : a ≠ b := by rintro rfl; exact haR (by simp)
    have htn' : tn.next = lR'.head? := by
      have happ : lA ++ a :: b :: lR' = (lA ++ [a]) ++ b :: lR' := by simp
      exact (happ ▸ hcA).next_eq htn
    obtain ⟨hsp, -⟩ := spliced_copy hab htn htn' (fun hm => haR (by simp [hm])) h₁ h₂ h₃ h₄
    obtain ⟨-, -, hbe⟩ := hsp.entries (l := []) hl hi hch
    have hfree := Mem.card_blocks_free h₄
    rw [Mem.blocks_modify h₃, blocks_setPrev h₂, Mem.blocks_modify h₁] at hfree
    rw [hbe] at hcount
    simp only [List.length_append, List.length_cons, List.length_map] at hcount
    rw [if_pos hback]
    show m'.blocks.card + _ = _
    omega
  · obtain ⟨pn, hpn, -, -⟩ := Mem.modify_eq_some h₁
    obtain ⟨lA', lM, rfl, hM⟩ : ∃ lA' lM, lA = lA' ++ p :: lM ∧ (lM = [] ∨ ∃ q, lM = [q]) := by
      rcases hcA.prev_cases hnd hp hpn with ⟨lA', rfl⟩ | ⟨lA', q, rfl⟩
      · exact ⟨lA', [], rfl, .inl rfl⟩
      · exact ⟨lA', [q], rfl, .inr ⟨q, rfl⟩⟩
    have hch' : ch i = lA' ++ p :: (lM ++ a :: lR) := by simp [hch]
    have hap : a ≠ p := (hdisj p (by simp) a (by simp)).symm
    have hpR : p ∉ lR := fun hm => hdisj p (by simp) p (by simp [hm]) rfl
    obtain ⟨hsp, -⟩ := spliced_unlink hnd hap hnext hpR h₁ h₂ h₃
    obtain ⟨-, -, hbe⟩ := hsp.entries hl hi hch'
    have hfree := Mem.card_blocks_free h₃
    rw [blocks_setPrev h₂, Mem.blocks_modify h₁] at hfree
    rw [hbe] at hcount
    simp only [List.length_append, List.length_cons, List.length_map] at hcount
    have hback : linkedBack t a = true ↔ lM = [] := by
      rcases hM with rfl | ⟨q, rfl⟩
      · have hpa : nextOf t.mem p = some (some a) := (hch' ▸ hc.linked).nx_next
        simp only [nextOf] at hpa
        simp [linkedBack, hnd, hp, hpa]
      · have hpq : nextOf t.mem p = some (some q) := (hch' ▸ hc.linked).nx_next
        have hqa : q ≠ a := hdisj q (by simp) a (by simp)
        simp only [nextOf] at hpq
        simp [linkedBack, hnd, hp, hpq, hqa]
    show m'.blocks.card + _ = _
    rcases hM with rfl | ⟨q, rfl⟩
    · rw [if_pos (hback.mpr rfl)]
      simp only [List.length_nil] at hcount
      omega
    · rw [if_neg (by simp [hback])]
      simp only [List.length_cons, List.length_nil] at hcount
      omega

theorem nodeCount_new (n : Nat) : nodeCount (newHashTable n : HashTable κ ν) = n := by
  have hone : ∀ i ∈ Finset.range n, (bucketEntries (newHashTable n : HashTable κ ν) i).length = 1 := by
    intro i hi
    rw [entries_new (Finset.mem_range.mp hi)]
    rfl
  exact (Finset.sum_const_nat hone).trans (by rw [Finset.card_range, Nat.mul_one])

/-- Live blocks are in a bucket or lost. -/
theorem count_step {op : TableOp κ ν} {o : List (TableOutput ν)} (h : WellFormed t) (hs : 0 < t.size)
    (hstep : tableStep str t op = some (t', o)) : WellFormed t' ∧ t'.size = t.size ∧
      t'.mem.blocks.card + nodeCount t = t.mem.blocks.card + nodeCount t' + (lost str t op).length := by
  cases op with
  | insert k v =>
      simp only [tableStep, Option.bind_eq_bind, Option.bind_eq_some_iff, Prod.exists, Option.some.injEq,
        Prod.mk.injEq] at hstep
      obtain ⟨r, _, hins, rfl, -⟩ := hstep
      exact h.count_insert hs hins
  | lookup key =>
      simp only [tableStep, Option.bind_eq_bind, Option.bind_eq_some_iff, Option.some.injEq,
        Prod.mk.injEq] at hstep
      obtain ⟨-, -, rfl, -⟩ := hstep
      exact ⟨h, rfl, rfl⟩
  | remove key =>
      simp only [tableStep, Option.bind_eq_bind, Option.bind_eq_some_iff, Prod.exists, Option.some.injEq,
        Prod.mk.injEq] at hstep
      obtain ⟨found, hfind, r, _, hremove, rfl, -⟩ := hstep
      rw [lost, hfind]
      rcases h.find hs str key with ⟨hmiss, -⟩ | ⟨a, before, e, after, hfound, hat, -, -⟩
      · rw [hmiss] at hfind
        cases hfind
        cases hremove
        exact ⟨h, rfl, rfl⟩
      · rw [hfound] at hfind
        cases hfind
        obtain ⟨-, hwf, hsize, -, -⟩ := hat.remove hremove
        refine ⟨hwf, hsize, (hat.count_remove hremove).trans ?_⟩
        simp only
        split <;> rfl

/-! ## Every run -/

/-- Whatever was done with a table, its deletion frees no block twice and uses none that was freed, and what
stays allocated is as many nodes as operations lost: all memory is given back exactly if none lost one. -/
theorem deletion_leaves_lost (str : κ → CString) {n : Nat} (hn : 0 < n) {nodes : List (Option (κ × ν))}
    {tr : List (TableOp κ ν × List (TableOutput ν))}
    (h : (Machine.record (tableStep str) (lost str)).AnyRun (newHashTable n, []) (t, nodes) tr) :
    ∃ m, deleteHashTable t = some (true, { t with mem := m }) ∧ m.blocks.card = nodes.length ∧
      (nodes = [] ↔ ∀ a, m.load a = none) := by
  have hrun := Machine.Run.stateInvariant (I := fun r : HashTable κ ν × List (Option (κ × ν)) =>
      WellFormed r.1 ∧ r.1.size = n ∧ r.1.mem.blocks.card = nodeCount r.1 + r.2.length) h ?_ ?_
  · obtain ⟨hwf, hsize, hcount⟩ := hrun
    obtain ⟨m, hm, hleft⟩ := hwf.delete (hsize.symm ▸ hn)
    have hcard : m.blocks.card = nodes.length := by
      simp only at hcount hleft
      omega
    refine ⟨m, hm, hcard, ?_⟩
    rw [← List.length_eq_zero_iff, ← hcard, Finset.card_eq_zero, Finset.eq_empty_iff_forall_notMem]
    refine forall_congr' fun a => ?_
    rw [Mem.mem_blocks, ← Option.isSome_iff_exists, Option.not_isSome_iff_eq_none]
  · refine ⟨wellFormed_new n, rfl, ?_⟩
    rw [nodeCount_new, show (newHashTable n : HashTable κ ν).mem = Mem.array n _ from rfl, Mem.blocks_array,
      Finset.card_range]
    rfl
  · rintro ⟨s, before⟩ op ⟨s', after⟩ o ⟨hwf, hsize, hcount⟩ - hstep
    obtain ⟨hs, rfl⟩ := Machine.record_eq_some.mp hstep
    obtain ⟨hwf', hsize', hcount'⟩ := count_step hwf (hsize.symm ▸ hn) hs
    refine ⟨hwf', hsize'.trans hsize, ?_⟩
    rw [List.length_append]
    simp only at hcount hcount' ⊢
    omega

/-- Three keys in one bucket: the removal of the third loses the second. -/
theorem deletion_leaves_lost_example :
    ∃ t nodes tr, (Machine.record (tableStep id) (lost id)).AnyRun (newHashTable 1, []) (t, nodes) tr ∧
      tr.map Prod.fst = [.remove [3], .insert [3] 30, .insert [2] 20, .insert [1] (10 : Nat)] ∧
      nodes = [some ([2], 20)] ∧
      ∃ m, deleteHashTable t = some (true, { t with mem := m }) ∧ m.blocks.card = nodes.length ∧
        (nodes = [] ↔ ∀ a, m.load a = none) := by
  obtain ⟨hrun, hops⟩ := Machine.run_after (Machine.record (tableStep id) (lost id)) Machine.always
    (newHashTable 1, []) [.remove [3], .insert [3] 30, .insert [2] 20, .insert [1] (10 : Nat)] (by decide)
  exact ⟨_, _, _, hrun.any, hops, by decide, deletion_leaves_lost id Nat.one_pos hrun.any⟩

end TermCollection.Dns
