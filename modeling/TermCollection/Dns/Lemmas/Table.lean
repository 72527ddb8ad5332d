import TermCollection.Dns.Lemmas.Chain

/-!
# The chains of a table

The buckets of a table are disjoint chains. Each operation is described by what it does to the entries
of the bucket it works on.
-/

namespace TermCollection.Dns

variable {κ ν : Type} {t t' : HashTable κ ν} {m m' : Mem (Node κ ν)} {a b i j : Nat} {key : CString}
variable {A R l : List Nat} {str : κ → CString} {k : κ} {v : ν} {e : κ × ν}

structure Layout (t : HashTable κ ν) (ch : Nat → List Nat) : Prop where
  size_le : t.size ≤ t.mem.brk
  chain : ∀ i < t.size, Chain t.mem t.size i (ch i)
  disjoint : ∀ i < t.size, ∀ j < t.size, i ≠ j → ∀ a ∈ ch i, a ∉ ch j

/-- The buckets of the table are disjoint chains. -/
def WellFormed (t : HashTable κ ν) : Prop := ∃ ch, Layout t ch

/-! ## Layouts -/

namespace Layout

variable {ch : Nat → List Nat}

theorem dead (h : Layout t ch) (hi : i < t.size) (hbrk : t.mem.brk ≤ m'.brk)
    (hframe : ∀ c < t.mem.brk, c ∉ ch i → m'.load c = t.mem.load c) {q : Nat}
    (hq : t.mem.Dead q) : m'.Dead q := by
  have hqi : q ∉ ch i := by
    intro hmem
    obtain ⟨nd, hnd⟩ := (h.chain i hi).live hmem
    rw [hq.2] at hnd; cases hnd
  exact ⟨Nat.lt_of_lt_of_le hq.1 hbrk, by rw [hframe q hq.1 hqi, hq.2]⟩

theorem load_other (h : Layout t ch) (hi : i < t.size) (hj : j < t.size) (hij : j ≠ i)
    (hframe : ∀ c < t.mem.brk, c ∉ ch i → m'.load c = t.mem.load c) (ha : a ∈ ch j) :
    m'.load a = t.mem.load a :=
  hframe a ((h.chain j hj).lt_brk ha) (h.disjoint j hj i hi hij a ha)

/-- The chain of one bucket is replaced; no other node is touched. -/
theorem replace (h : Layout t ch) (hi : i < t.size) (hbrk : t.mem.brk ≤ m'.brk)
    (hframe : ∀ c < t.mem.brk, c ∉ ch i → m'.load c = t.mem.load c)
    (hl : Chain m' t.size i l) (hmem : ∀ c ∈ l, c ∈ ch i ∨ t.mem.brk ≤ c) :
    Layout { t with mem := m' } (Function.update ch i l) := by
  have hsep : ∀ j < t.size, j ≠ i → ∀ c ∈ ch j, c ∉ l := by
    intro j hj hji c hc hcl
    rcases hmem c hcl with hci | hge
    · exact h.disjoint j hj i hi hji c hc hci
    · exact absurd ((h.chain j hj).lt_brk hc) (Nat.not_lt.mpr hge)
  refine ⟨Nat.le_trans h.size_le hbrk, ?_, ?_⟩
  · intro j hj
    by_cases hji : j = i
    · subst hji; simpa using hl
    · rw [Function.update_of_ne hji]
      refine (h.chain j hj).congr (fun c hc => ?_) fun q hq => h.dead hi hbrk hframe hq
      rw [h.load_other hi hj hji hframe hc]
  · intro x hx y hy hxy c hc
    by_cases hxi : x = i
    · subst hxi
      rw [Function.update_self] at hc
      rw [Function.update_of_ne (Ne.symm hxy)]
      exact fun hcy => hsep y hy (Ne.symm hxy) c hcy hc
    · rw [Function.update_of_ne hxi] at hc
      by_cases hyi : y = i
      · subst hyi; rw [Function.update_self]; exact hsep x hx hxi c hc
      · rw [Function.update_of_ne hyi]; exact h.disjoint x hx y hy hxy c hc

end Layout

/-! ## Entries -/

theorem entriesFrom_chain {l : List Nat} {fuel : Nat} (h : Linked (nextOf m) l)
    (hfuel : l.length ≤ fuel) : entriesFrom m fuel l.head? = l.map (entryOf m) := by
  induction l generalizing fuel with
  | nil => cases fuel <;> rfl
  | cons a l ih =>
      obtain ⟨ha, hl⟩ := h.uncons
      obtain ⟨nd, hnd, hn⟩ := load_of_nextOf ha
      cases fuel with
      | zero => simp at hfuel
      | succ fuel =>
          have hrest := ih hl (by simpa using hfuel)
          simp only [List.head?_cons, entriesFrom, hnd, hn, hrest, List.map_cons, entryOf,
            Option.bind_some]

theorem Layout.entries {ch : Nat → List Nat} (h : Layout t ch) (hi : i < t.size) :
    bucketEntries t i = (ch i).map (entryOf t.mem) := by
  have hc := h.chain i hi
  rw [← entriesFrom_chain hc.linked hc.length_le, hc.head?_eq]
  rfl

/-- The bucket that an operation does not work on keeps its entries. -/
theorem Layout.entries_other {ch : Nat → List Nat} (h : Layout t ch) (hi : i < t.size)
    (hframe : ∀ c < t.mem.brk, c ∉ ch i → m'.load c = t.mem.load c)
    (h' : Layout { t with mem := m' } (Function.update ch i l)) (hj : j < t.size) (hji : j ≠ i) :
    bucketEntries { t with mem := m' } j = bucketEntries t j := by
  rw [h'.entries hj, h.entries hj, Function.update_of_ne hji]
  apply List.map_congr_left
  intro c hc
  simp only [entryOf, h.load_other hi hj hji hframe hc]

theorem layout_new (n : Nat) : Layout (newHashTable n : HashTable κ ν) fun i => [i] := by
  refine ⟨Nat.le_refl _, fun i hi => Chain.of_head (if_pos hi) rfl rfl, ?_⟩
  intro i _ j _ hij a ha hb
  rw [List.mem_singleton] at ha hb
  exact hij (ha.symm.trans hb)

theorem wellFormed_new (n : Nat) : WellFormed (newHashTable n : HashTable κ ν) := ⟨_, layout_new n⟩

theorem entries_new {n : Nat} (hi : i < n) :
    bucketEntries (newHashTable n : HashTable κ ν) i = [none] := by
  rw [(layout_new n).entries hi]
  simp [entryOf, newHashTable, Mem.load_array, hi, Node.entry]

/-! ## Lookup -/

theorem visible_map_some {α : Type} (l : List α) : visible (l.map some) = l := by
  induction l with
  | nil => rfl
  | cons e l ih => simp [visible, ih]

theorem visible_append {α : Type} (l : List α) (r : List (Option α)) :
    visible (l.map some ++ r) = l ++ visible r := by
  induction l with
  | nil => rfl
  | cons e l ih => simp [visible, ih]

theorem visible_append_subset {α : Type} (l r : List (Option α)) :
    visible (l ++ r) ⊆ visible l ++ visible r := by
  induction l with
  | nil => exact List.Subset.refl _
  | cons o l ih =>
      cases o with
      | none => simp [visible]
      | some e => exact List.cons_subset_cons e ih

theorem mem_visibleEntries {e : κ × ν} :
    (i, e) ∈ visibleEntries t ↔ i < t.size ∧ e ∈ visible (bucketEntries t i) := by
  simp [visibleEntries]

/-- The node `a` holds the entry `e`, between nodes that hold the entries `A` and `R`. -/
def NodeAt (t : HashTable κ ν) (i a : Nat) (A : List (Option (κ × ν))) (e : κ × ν)
    (R : List (Option (κ × ν))) : Prop :=
  ∃ ch lA lR, Layout t ch ∧ i < t.size ∧ ch i = lA ++ a :: lR ∧ lA.map (entryOf t.mem) = A ∧
    entryOf t.mem a = some e ∧ lR.map (entryOf t.mem) = R

theorem NodeAt.entries {A R : List (Option (κ × ν))} (h : NodeAt t i a A e R) :
    bucketEntries t i = A ++ some e :: R := by
  obtain ⟨ch, lA, lR, hl, hi, hch, rfl, he, rfl⟩ := h
  rw [hl.entries hi, hch]; simp [he]

theorem findLoop_node {nd : Node κ ν} (str : κ → CString) (key : CString) (fuel : Nat)
    (hnd : m.load a = some nd) : findLoop str m key (fuel + 1) (some a) =
      match nd.entry with
      | none => some none
      | some e => if key = str e.1 then some (some a) else findLoop str m key fuel nd.next := by
  cases hk : nd.key <;> cases hv : nd.value <;> simp [findLoop, hnd, Node.entry, hk, hv]

theorem findLoop_chain {l : List Nat} {fuel : Nat} (str : κ → CString) (key : CString)
    (h : Linked (nextOf m) l) (hfuel : l.length ≤ fuel) :
    (findLoop str m key fuel l.head? = some none ∧
      ∀ e ∈ visible (l.map (entryOf m)), str e.1 ≠ key) ∨
    ∃ (A : List Nat) (b : Nat) (e : κ × ν) (R : List Nat) (es : List (κ × ν)),
      findLoop str m key fuel l.head? = some (some b) ∧ l = A ++ b :: R ∧ entryOf m b = some e ∧
      str e.1 = key ∧ A.map (entryOf m) = es.map some ∧ ∀ e' ∈ es, str e'.1 ≠ key := by
  induction l generalizing fuel with
  | nil => left; cases fuel <;> exact ⟨rfl, by simp [visible]⟩
  | cons a l ih =>
      obtain ⟨ha, hl⟩ := h.uncons
      obtain ⟨nd, hnd, hn⟩ := load_of_nextOf ha
      have hent : entryOf m a = nd.entry := by simp [entryOf, hnd]
      cases fuel with
      | zero => simp at hfuel
      | succ fuel =>
          rw [List.head?_cons, findLoop_node str key fuel hnd, hn, List.map_cons, hent]
          cases he : nd.entry with
          | none => exact .inl ⟨rfl, by simp [visible]⟩
          | some e =>
              by_cases hkey : key = str e.1
              · right
                exact ⟨[], a, e, l, [], if_pos hkey, rfl, hent.trans he, hkey.symm, rfl, by simp⟩
              · simp only [hkey, ↓reduceIte, visible]
                rcases ih hl (by simpa using hfuel) with
                  ⟨hf, hmiss⟩ | ⟨A, b, e', R, es, hf, rfl, hb, hbk, hes, hne⟩
                · left
                  exact ⟨hf, List.forall_mem_cons.mpr ⟨Ne.symm hkey, hmiss⟩⟩
                · right
                  refine ⟨a :: A, b, e', R, e :: es, hf, rfl, hb, hbk, ?_, ?_⟩
                  · rw [List.map_cons, hent, he, hes, List.map_cons]
                  · exact List.forall_mem_cons.mpr ⟨Ne.symm hkey, hne⟩

theorem bucket_lt (hs : 0 < t.size) (key : CString) : bucket t key < t.size := Nat.mod_lt _ hs

/-- A lookup finds the first entry with the key among those it walks over. -/
theorem WellFormed.find (h : WellFormed t) (hs : 0 < t.size) (str : κ → CString) (key : CString) :
    (findNodeByKey str t key = some none ∧
      ∀ e ∈ visible (bucketEntries t (bucket t key)), str e.1 ≠ key) ∨
    ∃ (a : Nat) (A : List (κ × ν)) (e : κ × ν) (R : List (Option (κ × ν))),
      findNodeByKey str t key = some (some a) ∧ NodeAt t (bucket t key) a (A.map some) e R ∧ str e.1 = key ∧ ∀ e' ∈ A, str e'.1 ≠ key := by
  obtain ⟨ch, hl⟩ := h
  have hi := bucket_lt hs key
  have hc := hl.chain _ hi
  have hfind : findNodeByKey str t key =
      findLoop str t.mem key t.mem.brk (ch (bucket t key)).head? := by
    rw [findNodeByKey, if_neg (Nat.pos_iff_ne_zero.mp hs), hc.head?_eq]
  rw [hfind, hl.entries hi]
  rcases findLoop_chain str key hc.linked hc.length_le with
    hmiss | ⟨A, b, e, R, es, hf, hab, hb, hbk, hes, hne⟩
  · exact .inl hmiss
  · exact .inr ⟨b, es, e, _, hf, ⟨ch, A, R, hl, hi, hab, hes, hb, rfl⟩, hbk, hne⟩

theorem NodeAt.load {A R : List (Option (κ × ν))} (h : NodeAt t i a A e R) :
    ∃ nd, t.mem.load a = some nd ∧ nd.key = some e.1 ∧ nd.value = some e.2 := by
  obtain ⟨ch, lA, lR, -, -, -, -, he, -⟩ := h
  obtain ⟨nd, hnd, he⟩ := Option.bind_eq_some_iff.mp he
  exact ⟨nd, hnd, Node.entry_eq_some.mp he⟩

theorem WellFormed.findValue (h : WellFormed t) (hs : 0 < t.size) (str : κ → CString)
    (key : CString) : findValueByKey str t key =
      some (((visible (bucketEntries t (bucket t key))).find? (str ·.1 = key)).map Prod.snd) := by
  rcases h.find hs str key with ⟨hf, hmiss⟩ | ⟨a, A, e, R, hf, hat, hkey, hne⟩
  · have hnone : (visible (bucketEntries t (bucket t key))).find? (str ·.1 = key) = none := by
      simpa using hmiss
    simp [findValueByKey, hf, hnone]
  · obtain ⟨nd, hnd, -, hv⟩ := hat.load
    have hA : A.find? (str ·.1 = key) = none := by simpa using hne
    simp [findValueByKey, hf, hnd, hv, hat.entries, visible_append, visible, hA, hkey]

/-! ## Insertion -/

theorem lastLoop_chain {l : List Nat} {p : Option Nat} {fuel : Nat}
    (h : Linked (nextOf m) (l ++ [a])) (hb : (l ++ [a]).head? = some b)
    (hfuel : (l ++ [a]).length ≤ fuel) :
    lastLoop m fuel b p = some (a, l.getLast?.or p) := by
  induction l generalizing b p fuel with
  | nil =>
      obtain ⟨nd, hnd, hn⟩ := load_of_nextOf h
      cases hb
      cases fuel with
      | zero => simp at hfuel
      | succ fuel => simp [lastLoop, hnd, hn]
  | cons c l ih =>
      rw [List.cons_append] at h hb hfuel
      obtain ⟨hc, hl⟩ := h.uncons
      obtain ⟨nd, hnd, hn⟩ := load_of_nextOf hc
      cases hb
      cases fuel with
      | zero => simp at hfuel
      | succ fuel =>
          obtain ⟨d, hd⟩ : ∃ d, (l ++ [a]).head? = some d := by cases l <;> exact ⟨_, rfl⟩
          have hih := ih hl hd (p := some c) (by simpa using hfuel)
          rw [lastLoop, hnd, Option.bind_eq_bind, Option.bind_some, hn, hd]
          simp only [hih, List.getLast?_cons, Option.some_or]
          cases l.getLast? <;> rfl

/-- An emptied head is overwritten and cuts off what follows it; else the entry comes last. -/
def insertEntry {α : Type} (e : α) : List (Option α) → List (Option α)
  | none :: _ => [some e]
  | l => l ++ [some e]

/-- What an insertion does: an entry is added to the bucket of its key, and the others stay. -/
def Inserts (t : HashTable κ ν) (str : κ → CString) (k : κ) (v : ν) : Prop :=
  ∃ t', insertHashItem str t k v = some (true, t') ∧ WellFormed t' ∧ t'.size = t.size ∧
    (∀ j < t.size, j ≠ bucket t (str k) → bucketEntries t' j = bucketEntries t j) ∧
    bucketEntries t' (bucket t (str k)) = insertEntry (k, v) (bucketEntries t (bucket t (str k)))

theorem Layout.head_entries {ch : Nat → List Nat} {hd : Node κ ν} (hl : Layout t ch)
    (hi : i < t.size) (hhd : t.mem.load i = some hd) :
    ∃ l, bucketEntries t i = hd.entry :: l := by
  obtain ⟨tl, htl, -⟩ := (hl.chain i hi).head
  refine ⟨tl.map (entryOf t.mem), ?_⟩
  rw [hl.entries hi, htl, List.map_cons]
  simp [entryOf, hhd]

/-- The head of a chain is filled when it is empty. -/
theorem Layout.insert_head {ch : Nat → List Nat} {hd : Node κ ν} (hl : Layout t ch)
    (hi : bucket t (str k) < t.size)
    (hhd : t.mem.load (bucket t (str k)) = some hd) (hblank : hd.entry = none) (v : ν) :
    Inserts t str k v := by
  generalize hidx : bucket t (str k) = i at hi hhd
  have himem : i ∈ ch i := List.mem_of_head? (hl.chain i hi).head?_eq
  have hs0 : ¬ t.size = 0 := Nat.ne_of_gt (Nat.zero_lt_of_lt hi)
  obtain ⟨m', hm'⟩ := Mem.modify_of_live hhd fun _ => ⟨some k, some v, none, none⟩
  obtain ⟨-, -, hbrk, hload⟩ := Mem.modify_eq_some hm'
  have hframe : ∀ c < t.mem.brk, c ∉ ch i → m'.load c = t.mem.load c := by
    intro c _ hcmem
    rw [hload, if_neg (by rintro rfl; exact hcmem himem)]
  have hnew : m'.load i = some ⟨some k, some v, none, none⟩ := by rw [hload, if_pos rfl]
  have hl' := hl.replace hi (Nat.le_of_eq hbrk.symm) hframe (Chain.of_head hnew rfl rfl) (by simp [himem])
  obtain ⟨l, hhead⟩ := hl.head_entries hi hhd
  refine ⟨{ t with mem := m' }, ?_, ⟨_, hl'⟩, rfl, ?_, ?_⟩
  · simp [insertHashItem, hs0, hidx, hhd, Node.entry_eq_none.mp hblank, hm']
  · rw [hidx]
    exact fun j hj hji => hl.entries_other hi hframe hl' hj hji
  · rw [hidx, hl'.entries hi, hhead, hblank]
    simp [insertEntry, entryOf, hnew, Node.entry]

/-- The memory with a new node behind the one at `a`. -/
structure Appended (m m' : Mem (Node κ ν)) (a : Nat) (nd : Node κ ν) : Prop where
  brk : m'.brk = m.brk + 1
  new : m'.load m.brk = some nd
  last : m'.load a = (m.load a).map fun nd => { nd with next := some m.brk }
  rest : ∀ c < m.brk, c ≠ a → m'.load c = m.load c

theorem appended_of_live {m : Mem (Node κ ν)} {a : Nat} {an : Node κ ν} (han : m.load a = some an)
    (nd : Node κ ν) :
    ∃ m', (m.malloc nd).2.modify a (fun nd => { nd with next := some m.brk }) = some m' ∧
      Appended m m' a nd := by
  have hab := Mem.lt_brk_of_load han
  have han' : (m.malloc nd).2.load a = some an := by
    rw [Mem.malloc_load, if_neg (Nat.ne_of_lt hab), han]
  obtain ⟨m', hm'⟩ := Mem.modify_of_live han' fun nd => { nd with next := some m.brk }
  obtain ⟨an', han'', hbrk, hload⟩ := Mem.modify_eq_some hm'
  rw [han'] at han''
  cases han''
  refine ⟨m', hm', by rw [hbrk, Mem.malloc_brk], ?_, ?_, ?_⟩
  · rw [hload, if_neg (Nat.ne_of_gt hab), Mem.malloc_load, if_pos rfl]
  · rw [hload, if_pos rfl, han]; rfl
  · intro c hcb hca
    rw [hload, if_neg hca, Mem.malloc_load, if_neg (Nat.ne_of_lt hcb)]

/-- The chain of a bucket with a new last node. -/
theorem Layout.append {ch : Nat → List Nat} {A : List Nat} {a : Nat} {m' : Mem (Node κ ν)} {nd : Node κ ν}
    (hl : Layout t ch) (hi : i < t.size) (hA : ch i = A ++ [a]) (h : Appended t.mem m' a nd)
    (hprev : nd.prev = A.getLast?) (hnext : nd.next = none) :
    WellFormed { t with mem := m' } ∧
      (∀ j < t.size, j ≠ i → bucketEntries { t with mem := m' } j = bucketEntries t j) ∧
      bucketEntries { t with mem := m' } i = bucketEntries t i ++ [nd.entry] := by
  have hc := hl.chain i hi
  have ha : a ∈ ch i := by simp [hA]
  have hframe : ∀ c < t.mem.brk, c ∉ ch i → m'.load c = t.mem.load c := fun c hcb hci =>
    h.rest c hcb (by rintro rfl; exact hci ha)
  have hrest : ∀ c ∈ A, m'.load c = t.mem.load c := by
    intro c hcA
    refine h.rest c (hc.lt_brk (by simp [hA, hcA])) ?_
    rintro rfl
    exact (List.nodup_append.mp (hA ▸ hc.nodup)).2.2 c hcA c (by simp) rfl
  have hbrk : t.mem.brk ≤ m'.brk := h.brk ▸ Nat.le_succ _
  have hc' : Chain m' t.size i (A ++ [a, t.mem.brk]) :=
    (hA ▸ hc).append_new hl.size_le hrest h.last h.new hprev hnext
      fun q hq => hl.dead hi hbrk hframe hq
  have hl' := hl.replace hi hbrk hframe hc' (by
    intro c hcm
    rcases List.mem_append.mp hcm with hcA | hcm
    · exact .inl (by simp [hA, hcA])
    · rcases List.mem_cons.mp hcm with rfl | hcm
      · exact .inl ha
      · exact .inr (Nat.le_of_eq (List.mem_singleton.mp hcm).symm))
  refine ⟨⟨_, hl'⟩, fun j hj hji => hl.entries_other hi hframe hl' hj hji, ?_⟩
  have hent : ∀ c ∈ A ++ [a], entryOf m' c = entryOf t.mem c := by
    intro c hcm
    rcases List.mem_append.mp hcm with hcA | hcm
    · simp only [entryOf, hrest c hcA]
    · rw [List.mem_singleton.mp hcm]
      simp only [entryOf, h.last]
      cases t.mem.load a <;> rfl
  have hsplit : A ++ [a, t.mem.brk] = (A ++ [a]) ++ [t.mem.brk] := by simp
  rw [hl'.entries hi, Function.update_self, hl.entries hi, hA, hsplit, List.map_append,
    List.map_congr_left hent]
  simp [entryOf, h.new]

/-- A new node comes behind the last one when the head holds an entry. -/
theorem Layout.insert_last {ch : Nat → List Nat} {hd : Node κ ν} (hl : Layout t ch)
    (hi : bucket t (str k) < t.size)
    (hhd : t.mem.load (bucket t (str k)) = some hd) (hfull : hd.entry ≠ none) (v : ν) :
    Inserts t str k v := by
  generalize hidx : bucket t (str k) = i at hi hhd
  have hc := hl.chain i hi
  have hs0 : ¬ t.size = 0 := Nat.ne_of_gt (Nat.zero_lt_of_lt hi)
  obtain ⟨A, a, hA⟩ : ∃ A a, ch i = A ++ [a] := by
    rcases List.eq_nil_or_concat' (ch i) with hnil | hcat
    · have himem : i ∈ ch i := List.mem_of_head? hc.head?_eq
      rw [hnil] at himem
      cases himem
    · exact hcat
  have hlast : lastLoop t.mem t.mem.brk i none = some (a, A.getLast?) := by
    have hloop := lastLoop_chain (p := none) (hA ▸ hc.linked) (hA ▸ hc.head?_eq) (hA ▸ hc.length_le)
    rw [hloop, Option.or_none]
  obtain ⟨an, han⟩ := hc.live (a := a) (by simp [hA])
  obtain ⟨m', hm', happended⟩ := appended_of_live han ⟨some k, some v, A.getLast?, none⟩
  obtain ⟨hwf, hother, hself⟩ := hl.append hi hA happended rfl rfl
  refine ⟨{ t with mem := m' }, ?_, hwf, rfl, ?_, ?_⟩
  · have hfilled := mt Node.entry_eq_none.mpr hfull
    simp [insertHashItem, hs0, hidx, hhd, hfilled, hlast, Mem.malloc_fst, hm']
  · rw [hidx]
    exact hother
  · obtain ⟨l, hhead⟩ := hl.head_entries hi hhd
    obtain ⟨e, he⟩ := Option.ne_none_iff_exists'.mp hfull
    rw [hidx, hself, hhead, he]
    rfl

theorem WellFormed.insert (h : WellFormed t) (hs : 0 < t.size) (str : κ → CString) (k : κ) (v : ν) :
    Inserts t str k v := by
  obtain ⟨ch, hl⟩ := h
  have hi := bucket_lt hs (str k)
  have hc := hl.chain _ hi
  obtain ⟨hd, hhd⟩ := hc.live (List.mem_of_head? hc.head?_eq)
  by_cases hblank : hd.entry = none
  · exact hl.insert_head hi hhd hblank v
  · exact hl.insert_last hi hhd hblank v

theorem visible_insertEntry {α : Type} (e : α) (l : List (Option α)) :
    visible (insertEntry e l) ⊆ visible l ++ [e] := by
  unfold insertEntry
  split
  · simp [visible]
  · exact visible_append_subset l [some e]

theorem WellFormed.visible_insert {r : Bool} (h : WellFormed t) (hs : 0 < t.size)
    (hi : insertHashItem str t k v = some (r, t')) (he : (i, e) ∈ visibleEntries t') :
    (i, e) ∈ visibleEntries t ∨ e = (k, v) := by
  obtain ⟨t₁, ht₁, -, hsize, hother, hself⟩ := h.insert hs str k v
  rw [hi] at ht₁
  cases ht₁
  obtain ⟨hilt, hei⟩ := mem_visibleEntries.mp he
  rw [hsize] at hilt
  by_cases hb : i = bucket t (str k)
  · subst hb
    rw [hself] at hei
    rcases List.mem_append.mp (visible_insertEntry _ _ hei) with hei | hei
    · exact .inl (mem_visibleEntries.mpr ⟨hilt, hei⟩)
    · exact .inr (List.mem_singleton.mp hei)
  · rw [hother i hilt hb] at hei
    exact .inl (mem_visibleEntries.mpr ⟨hilt, hei⟩)

end TermCollection.Dns
