import TermCollection.Dns.Lemmas.Table

/-!
# Removal from a bucket

A removal is right when the `prev` of the node is NULL or links back to it. When it links to the node
before, that node leaves the chain as well.
-/

namespace TermCollection.Dns

variable {κ ν : Type} {t t' : HashTable κ ν} {m m' : Mem (Node κ ν)} {a b d i j p size : Nat}
variable {l lA lM lR : List Nat} {A R : List (Option (κ × ν))} {e : κ × ν}

/-- What becomes of the entries around a removed node `a`. -/
inductive Removal (t : HashTable κ ν) (a : Nat) (A R : List (Option (κ × ν))) :
    List (Option (κ × ν)) → Prop
  | emptied : R = [] → linkedBack t a = true → Removal t a A R (A ++ [none])
  | unlinked : linkedBack t a = true → Removal t a A R (A ++ R)
  | skipped (A' : List (Option (κ × ν))) (o : Option (κ × ν)) (p q : Nat) :
      (t.mem.load a).map Node.prev = some (some p) → nextOf t.mem p = some (some q) → q ≠ a →
      entryOf t.mem q = o → A = A' ++ [o] → Removal t a A R (A' ++ R)

/-- The memory after the node at `d` has handed its link to `p`. -/
structure Spliced (m m' : Mem (Node κ ν)) (p d : Nat) (lR : List Nat) : Prop where
  brk : m'.brk = m.brk
  freed : m'.load d = none
  link : ∃ pn pn' dn, m.load p = some pn ∧ m'.load p = some pn' ∧ m.load d = some dn ∧
    pn'.prev = pn.prev ∧ pn'.next = dn.next
  rest : ∀ c, c ≠ p → c ≠ d → m'.load c = if lR.head? = some c then
    (m.load c).map fun nd => { nd with prev := some p } else m.load c

theorem Spliced.layout {ch : Nat → List Nat} (hl : Layout t ch) (hi : i < t.size)
    (hch : ch i = lA ++ p :: (lM ++ d :: lR)) (h : Spliced t.mem m' p d lR) :
    Layout { t with mem := m' } (Function.update ch i (lA ++ p :: lR)) ∧
      ∀ j < t.size, j ≠ i → bucketEntries { t with mem := m' } j = bucketEntries t j := by
  have hc := hl.chain i hi
  obtain ⟨pn, pn', dn, hpn, hpn', hdn, hprev, hnext⟩ := h.link
  have hnd : (lA ++ p :: (lM ++ d :: lR)).Nodup := hch ▸ hc.nodup
  have hframe : ∀ c < t.mem.brk, c ∉ ch i → m'.load c = t.mem.load c := by
    intro c _ hci
    have hne : ∀ x ∈ ch i, c ≠ x := by rintro x hx rfl; exact hci hx
    rw [h.rest c (hne p (by simp [hch])) (hne d (by simp [hch])), if_neg]
    intro hhead
    exact hne c (by simp [hch, List.mem_of_head? hhead]) rfl
  have hA : ∀ c ∈ lA, m'.load c = t.mem.load c := by
    intro c hcA
    have hne : ∀ x ∈ p :: (lM ++ d :: lR), c ≠ x := fun x hx =>
      (List.nodup_append.mp hnd).2.2 c hcA x hx
    rw [h.rest c (hne p (by simp)) (hne d (by simp)), if_neg]
    intro hhead
    exact hne c (by simp [List.mem_of_head? hhead]) rfl
  have hR : ∀ b ∈ lR, m'.load b = if lR.head? = some b then
      (t.mem.load b).map fun nd => { nd with prev := some p } else t.mem.load b := by
    intro b hb
    have hpR := (List.nodup_cons.mp (List.nodup_append.mp hnd).2.1).1
    have hdR := (List.nodup_cons.mp (List.nodup_append.mp
      (List.nodup_cons.mp (List.nodup_append.mp hnd).2.1).2).2.1).1
    apply h.rest
    · rintro rfl; exact hpR (by simp [hb])
    · rintro rfl; exact hdR hb
  have hdead : m'.Dead d := by
    refine ⟨?_, h.freed⟩
    rw [h.brk]
    exact Mem.lt_brk_of_load hdn
  have hcut : Chain m' t.size i (lA ++ p :: lR) :=
    (hch ▸ hc).cut hA hpn hpn' hdn hprev hnext hR hdead
      fun q hq => hl.dead hi (Nat.le_of_eq h.brk.symm) hframe hq
  have hl' := hl.replace hi (Nat.le_of_eq h.brk.symm) hframe hcut (by
    intro c hcm
    left
    rw [hch]
    simp only [List.mem_append, List.mem_cons] at hcm ⊢
    tauto)
  exact ⟨hl', fun j hj hji => hl.entries_other hi hframe hl' hj hji⟩

/-- The entries of all nodes but `p` and `d` stay as they were. -/
theorem Spliced.entryOf_eq (h : Spliced m m' p d lR) {c : Nat} (hp : c ≠ p) (hd : c ≠ d) :
    entryOf m' c = entryOf m c := by
  unfold entryOf
  rw [h.rest c hp hd]
  split
  · cases m.load c <;> rfl
  · rfl

theorem setPrev_eq_some {next : Option Nat} (h : setPrev m next p = some m') :
    m'.brk = m.brk ∧ ∀ c, m'.load c = if next = some c then
      (m.load c).map fun nd => { nd with prev := some p } else m.load c := by
  cases next with
  | none => cases h; simp
  | some b =>
      obtain ⟨bn, hbn, hbrk, hload⟩ := Mem.modify_eq_some h
      refine ⟨hbrk, fun c => ?_⟩
      rw [hload c]
      by_cases hcb : c = b
      · subst hcb; simp [hbn]
      · simp [hcb, Ne.symm hcb]

theorem setPrev_of_live {next : Option Nat} (h : ∀ b, next = some b → ∃ nd, m.load b = some nd)
    (p : Nat) : ∃ m', setPrev m next p = some m' := by
  cases next with
  | none => exact ⟨m, rfl⟩
  | some b =>
      obtain ⟨nd, hnd⟩ := h b rfl
      exact Mem.modify_of_live hnd _

/-- `prev->next = node->next; node->next->prev = prev; free(node)`. -/
theorem spliced_unlink {nd : Node κ ν} {m₁ m₂ : Mem (Node κ ν)} (hnd : m.load a = some nd)
    (hap : a ≠ p) (hap' : nd.next = lR.head?) (hpR : p ∉ lR)
    (h₁ : m.modify p (fun pn => { pn with next := nd.next }) = some m₁)
    (h₂ : setPrev m₁ nd.next p = some m₂) (h₃ : m₂.free a = some m') :
    Spliced m m' p a lR ∧ entryOf m' p = entryOf m p := by
  obtain ⟨pn, hpn, hbrk₁, hload₁⟩ := Mem.modify_eq_some h₁
  obtain ⟨hbrk₂, hload₂⟩ := setPrev_eq_some h₂
  obtain ⟨-, hbrk₃, hload₃⟩ := Mem.free_eq_some h₃
  have hpn' : nd.next ≠ some p := by
    rw [hap']; exact fun hh => hpR (List.mem_of_head? hh)
  have hp : m'.load p = some { pn with next := nd.next } := by
    rw [hload₃, if_neg (Ne.symm hap), hload₂, if_neg hpn', hload₁, if_pos rfl]
  refine ⟨⟨by rw [hbrk₃, hbrk₂, hbrk₁], by rw [hload₃, if_pos rfl], ?_, ?_⟩, ?_⟩
  · exact ⟨pn, _, nd, hpn, hp, hnd, rfl, rfl⟩
  · intro c hcp hca
    rw [hload₃, if_neg hca, hload₂, hload₁, if_neg hcp, hap']
  · simp [entryOf, hp, hpn, Node.entry]

/-- The node takes over the contents of the next one, which is freed. -/
theorem spliced_copy {tn : Node κ ν} {m₁ m₂ m₃ : Mem (Node κ ν)} (hat : a ≠ b)
    (htn : m.load b = some tn) (htn' : tn.next = lR.head?) (haR : a ∉ lR)
    (h₁ : m.modify a (fun nd => { nd with key := tn.key, value := tn.value }) = some m₁)
    (h₂ : setPrev m₁ tn.next a = some m₂)
    (h₃ : m₂.modify a (fun nd => { nd with next := tn.next }) = some m₃)
    (h₄ : m₃.free b = some m') :
    Spliced m m' a b lR ∧ entryOf m' a = entryOf m b := by
  obtain ⟨an, han, hbrk₁, hload₁⟩ := Mem.modify_eq_some h₁
  obtain ⟨hbrk₂, hload₂⟩ := setPrev_eq_some h₂
  obtain ⟨an₂, han₂, hbrk₃, hload₃⟩ := Mem.modify_eq_some h₃
  obtain ⟨-, hbrk₄, hload₄⟩ := Mem.free_eq_some h₄
  have hna : tn.next ≠ some a := by
    rw [htn']; exact fun hh => haR (List.mem_of_head? hh)
  rw [hload₂, if_neg hna, hload₁, if_pos rfl] at han₂
  cases han₂
  have ha : m'.load a = some ⟨tn.key, tn.value, an.prev, tn.next⟩ := by
    rw [hload₄, if_neg hat, hload₃, if_pos rfl]
  refine ⟨⟨by omega, by rw [hload₄, if_pos rfl], ?_, ?_⟩, ?_⟩
  · exact ⟨an, _, tn, han, ha, htn, rfl, rfl⟩
  · intro c hca hcb
    rw [hload₄, if_neg hcb, hload₃, if_neg hca, hload₂, hload₁, if_neg hca, htn']
  · simp [entryOf, ha, htn, Node.entry]

/-! ## The operation -/

/-- The three ways through `removeHashItemByNode`. -/
theorem remove_cases {nd : Node κ ν} {r : Bool} (hnd : t.mem.load a = some nd)
    (h : removeHashItemByNode t (some a) = some (r, t')) : r = true ∧ ∃ m', t' = { t with mem := m' } ∧
      ((nd.prev = none ∧ nd.next = none ∧
        t.mem.modify a (fun nd => { nd with key := none, value := none }) = some m') ∨
      (∃ b tn m₁ m₂ m₃, nd.prev = none ∧ nd.next = some b ∧ t.mem.load b = some tn ∧
        t.mem.modify a (fun nd => { nd with key := tn.key, value := tn.value }) = some m₁ ∧
        setPrev m₁ tn.next a = some m₂ ∧
        m₂.modify a (fun nd => { nd with next := tn.next }) = some m₃ ∧ m₃.free b = some m') ∨
      ∃ p m₁ m₂, nd.prev = some p ∧ t.mem.modify p (fun pn => { pn with next := nd.next }) = some m₁ ∧
        setPrev m₁ nd.next p = some m₂ ∧ m₂.free a = some m') := by
  rw [removeHashItemByNode, hnd, Option.bind_eq_bind, Option.bind_some] at h
  cases hp : nd.prev with
  | none =>
      cases hn : nd.next with
      | none =>
          simp only [hp, hn, Option.bind_eq_bind, Option.bind_eq_some_iff, Option.some.injEq,
            Prod.mk.injEq] at h
          obtain ⟨m', hm', rfl, rfl⟩ := h
          exact ⟨rfl, m', rfl, .inl ⟨rfl, rfl, hm'⟩⟩
      | some b =>
          simp only [hp, hn, Option.bind_eq_bind, Option.bind_eq_some_iff, Option.some.injEq,
            Prod.mk.injEq] at h
          obtain ⟨tn, htn, m₁, h₁, m₂, h₂, m₃, h₃, m', h₄, rfl, rfl⟩ := h
          exact ⟨rfl, m', rfl, .inr (.inl ⟨b, tn, m₁, m₂, m₃, rfl, rfl, htn, h₁, h₂, h₃, h₄⟩)⟩
  | some p =>
      simp only [hp, Option.bind_eq_bind, Option.bind_eq_some_iff, Option.some.injEq,
        Prod.mk.injEq] at h
      obtain ⟨m₁, h₁, m₂, h₂, m', h₃, rfl, rfl⟩ := h
      exact ⟨rfl, m', rfl, .inr (.inr ⟨p, m₁, m₂, rfl, h₁, h₂, h₃⟩)⟩

theorem Spliced.entries {ch : Nat → List Nat} (h : Spliced t.mem m' p d lR) (hl : Layout t ch)
    (hi : i < t.size) (hch : ch i = lA ++ p :: (l ++ d :: lR)) :
    WellFormed { t with mem := m' } ∧
      (∀ j < t.size, j ≠ i → bucketEntries { t with mem := m' } j = bucketEntries t j) ∧
      bucketEntries { t with mem := m' } i =
        lA.map (entryOf t.mem) ++ entryOf m' p :: lR.map (entryOf t.mem) := by
  obtain ⟨hl', hother⟩ := h.layout hl hi hch
  refine ⟨⟨_, hl'⟩, hother, ?_⟩
  have hnd : (lA ++ p :: (l ++ d :: lR)).Nodup := hch ▸ (hl.chain i hi).nodup
  obtain ⟨-, hpl, hdisj⟩ := List.nodup_append.mp hnd
  obtain ⟨hpR, hMd⟩ := List.nodup_cons.mp hpl
  have hdR := (List.nodup_cons.mp (List.nodup_append.mp hMd).2.1).1
  have hA : ∀ c ∈ lA, entryOf m' c = entryOf t.mem c := fun c hc =>
    h.entryOf_eq (hdisj c hc p (by simp)) (hdisj c hc d (by simp))
  have hR : ∀ c ∈ lR, entryOf m' c = entryOf t.mem c := fun c hc =>
    h.entryOf_eq (by rintro rfl; exact hpR (by simp [hc])) (by rintro rfl; exact hdR hc)
  rw [hl'.entries hi, Function.update_self, List.map_append, List.map_cons,
    List.map_congr_left hA, List.map_congr_left hR]

/-- The only node of a bucket, or the last one, is emptied and stays. -/
theorem Layout.emptied {ch : Nat → List Nat} {nd : Node κ ν} (hl : Layout t ch) (hi : i < t.size)
    (hch : ch i = lA ++ [a]) (hnd : t.mem.load a = some nd)
    (hm : t.mem.modify a (fun nd => { nd with key := none, value := none }) = some m') :
    WellFormed { t with mem := m' } ∧
      (∀ j < t.size, j ≠ i → bucketEntries { t with mem := m' } j = bucketEntries t j) ∧
      bucketEntries { t with mem := m' } i = lA.map (entryOf t.mem) ++ [none] := by
  have hc := hl.chain i hi
  obtain ⟨nd', hnd', hbrk, hload⟩ := Mem.modify_eq_some hm
  rw [hnd] at hnd'
  cases hnd'
  have hframe : ∀ c < t.mem.brk, c ∉ ch i → m'.load c = t.mem.load c := by
    intro c _ hci
    rw [hload, if_neg (by rintro rfl; exact hci (by simp [hch]))]
  have hc' : Chain m' t.size i (ch i) := by
    refine hc.congr (fun c _ => ?_) fun q hq => hl.dead hi (Nat.le_of_eq hbrk.symm) hframe hq
    rw [hload]
    split
    · rename_i hca; rw [hca, hnd]; rfl
    · rfl
  have hl' := hl.replace hi (Nat.le_of_eq hbrk.symm) hframe hc' fun c hcm => .inl hcm
  refine ⟨⟨_, hl'⟩, fun j hj hji => hl.entries_other hi hframe hl' hj hji, ?_⟩
  have hdisj := (List.nodup_append.mp (hch ▸ hc.nodup)).2.2
  have hent : ∀ c ∈ lA, entryOf m' c = entryOf t.mem c := by
    intro c hcm
    have hca : c ≠ a := hdisj c hcm a (by simp)
    simp [entryOf, hload, hca]
  have hblank : entryOf m' a = none := by simp [entryOf, hload, Node.entry]
  rw [hl'.entries hi, Function.update_self, hch, List.map_append, List.map_congr_left hent,
    List.map_singleton, hblank]

/-- A removal keeps the table well formed and works on one bucket. -/
theorem NodeAt.remove {r : Bool} (h : NodeAt t i a A e R)
    (hr : removeHashItemByNode t (some a) = some (r, t')) :
    r = true ∧ WellFormed t' ∧ t'.size = t.size ∧
      (∀ j < t.size, j ≠ i → bucketEntries t' j = bucketEntries t j) ∧
      Removal t a A R (bucketEntries t' i) := by
  obtain ⟨ch, lA, lR, hl, hi, hch, rfl, he, rfl⟩ := h
  have hc := hl.chain i hi
  have hcA : Chain t.mem t.size i (lA ++ a :: lR) := hch ▸ hc
  obtain ⟨-, haR', hdisj⟩ := List.nodup_append.mp hcA.nodup
  have haR := (List.nodup_cons.mp haR').1
  obtain ⟨nd, hnd⟩ := hcA.live (a := a) (by simp)
  have hnext := hcA.next_eq hnd
  obtain ⟨rfl, m', rfl, hcase⟩ := remove_cases hnd hr
  refine ⟨rfl, ?_⟩
  rcases hcase with ⟨hp, hn, hm'⟩ | ⟨b, tn, m₁, m₂, m₃, hp, hn, htn, h₁, h₂, h₃, h₄⟩ |
    ⟨p, m₁, m₂, hp, h₁, h₂, h₃⟩
  · have hback : linkedBack t a = true := by simp [linkedBack, hnd, hp]
    obtain rfl := List.head?_eq_none_iff.mp (hnext.symm.trans hn)
    obtain ⟨hwf, hother, hbe⟩ := hl.emptied hi hch hnd hm'
    refine ⟨hwf, rfl, hother, ?_⟩
    rw [hbe]
    exact .emptied rfl hback
  · have hback : linkedBack t a = true := by simp [linkedBack, hnd, hp]
    obtain ⟨lR', rfl⟩ := List.head?_eq_some_iff.mp (hnext.symm.trans hn)
    have hab : a ≠ b := by rintro rfl; exact haR (by simp)
    have htn' : tn.next = lR'.head? := by
      have happ : lA ++ a :: b :: lR' = (lA ++ [a]) ++ b :: lR' := by simp
      exact (happ ▸ hcA).next_eq htn
    obtain ⟨hsp, hent⟩ := spliced_copy hab htn htn' (fun hm => haR (by simp [hm])) h₁ h₂ h₃ h₄
    obtain ⟨hwf, hother, hbe⟩ := hsp.entries (l := []) hl hi hch
    refine ⟨hwf, rfl, hother, ?_⟩
    rw [hbe, hent]
    exact .unlinked hback
  · obtain ⟨pn, hpn, -, -⟩ := Mem.modify_eq_some h₁
    obtain ⟨lA', lM, rfl, hM⟩ : ∃ lA' lM, lA = lA' ++ p :: lM ∧ (lM = [] ∨ ∃ q, lM = [q]) := by
      rcases hcA.prev_cases hnd hp hpn with ⟨lA', rfl⟩ | ⟨lA', q, rfl⟩
      · exact ⟨lA', [], rfl, .inl rfl⟩
      · exact ⟨lA', [q], rfl, .inr ⟨q, rfl⟩⟩
    have hch' : ch i = lA' ++ p :: (lM ++ a :: lR) := by simp [hch]
    have hap : a ≠ p := (hdisj p (by simp) a (by simp)).symm
    have hpR : p ∉ lR := fun hm => hdisj p (by simp) p (by simp [hm]) rfl
    obtain ⟨hsp, hpe⟩ := spliced_unlink hnd hap hnext hpR h₁ h₂ h₃
    obtain ⟨hwf, hother, hbe⟩ := hsp.entries hl hi hch'
    refine ⟨hwf, rfl, hother, ?_⟩
    have happ : lA'.map (entryOf t.mem) ++ entryOf t.mem p :: lR.map (entryOf t.mem) =
        (lA' ++ [p]).map (entryOf t.mem) ++ lR.map (entryOf t.mem) := by simp
    rw [hbe, hpe, happ]
    rcases hM with rfl | ⟨q, rfl⟩
    · have hpa : nextOf t.mem p = some (some a) := (hch' ▸ hc.linked).nx_next
      simp only [nextOf] at hpa
      exact .unlinked (by simp [linkedBack, hnd, hp, hpa])
    · have hpq : nextOf t.mem p = some (some q) := (hch' ▸ hc.linked).nx_next
      have hqa : q ≠ a := hdisj q (by simp) a (by simp)
      exact .skipped _ (entryOf t.mem q) p q (by simp [hnd, hp]) hpq hqa rfl (by simp)

/-- A removal brings no entry to light. -/
theorem NodeAt.visible_remove {r : Bool} {A : List (κ × ν)} {e' : κ × ν}
    (h : NodeAt t i a (A.map some) e R) (hr : removeHashItemByNode t (some a) = some (r, t'))
    (he : (j, e') ∈ visibleEntries t') : (j, e') ∈ visibleEntries t := by
  obtain ⟨-, -, hsize, hother, hrem⟩ := h.remove hr
  obtain ⟨hj, hej⟩ := mem_visibleEntries.mp he
  rw [hsize] at hj
  by_cases hji : j = i
  · subst hji
    refine mem_visibleEntries.mpr ⟨hj, ?_⟩
    rw [h.entries, visible_append, visible]
    generalize bucketEntries t' j = es at hrem hej
    cases hrem with
    | emptied =>
        rw [visible_append, visible, List.append_nil] at hej
        · exact List.mem_append_left _ hej
        · simp
    | unlinked =>
        rw [visible_append] at hej
        simp only [List.mem_append, List.mem_cons] at hej ⊢
        tauto
    | skipped A' o p q _ _ _ _ hA =>
        obtain ⟨B, C, rfl, rfl, -⟩ := List.map_eq_append_iff.mp hA
        rw [visible_append] at hej
        simp only [List.mem_append, List.mem_cons] at hej ⊢
        tauto
  · rw [hother j hj hji] at hej
    exact mem_visibleEntries.mpr ⟨hj, hej⟩

theorem setPrev_live {next : Option Nat} (h : setPrev m next p = some m')
    (hb : ∃ nd, m.load b = some nd) : ∃ nd, m'.load b = some nd := by
  cases next with
  | none => cases h; exact hb
  | some c => exact Mem.modify_live h hb

/-- A removal through a sound `prev` is defined. -/
theorem NodeAt.remove_defined (h : NodeAt t i a A e R) (hback : linkedBack t a = true) :
    ∃ t', removeHashItemByNode t (some a) = some (true, t') := by
  obtain ⟨ch, lA, lR, hl, hi, hch, -, -, -⟩ := h
  have hcA : Chain t.mem t.size i (lA ++ a :: lR) := hch ▸ hl.chain i hi
  obtain ⟨nd, hnd⟩ := hcA.live (a := a) (by simp)
  have hnext := hcA.next_eq hnd
  have hlive : ∀ b, nd.next = some b → ∃ bn, t.mem.load b = some bn := by
    intro b hb
    rw [hnext] at hb
    exact hcA.live (by simp [List.mem_of_head? hb])
  cases hp : nd.prev with
  | none =>
      cases hn : nd.next with
      | none =>
          obtain ⟨m', hm'⟩ := Mem.modify_of_live hnd fun nd => { nd with key := none, value := none }
          exact ⟨{ t with mem := m' }, by simp [removeHashItemByNode, hnd, hp, hn, hm']⟩
      | some b =>
          obtain ⟨tn, htn⟩ := hlive b hn
          have hcb : ∀ c, tn.next = some c → ∃ cn, t.mem.load c = some cn := by
            intro c hc
            obtain ⟨lR', rfl⟩ := List.head?_eq_some_iff.mp (hnext.symm.trans hn)
            have happ : lA ++ a :: b :: lR' = (lA ++ [a]) ++ b :: lR' := by simp
            have hbR : Chain t.mem t.size i ((lA ++ [a]) ++ b :: lR') := happ ▸ hcA
            rw [hbR.next_eq htn] at hc
            exact hcA.live (by simp [List.mem_of_head? hc])
          obtain ⟨m₁, h₁⟩ := Mem.modify_of_live hnd
            fun nd => { nd with key := tn.key, value := tn.value }
          obtain ⟨m₂, h₂⟩ := setPrev_of_live (fun c hc => Mem.modify_live h₁ (hcb c hc)) a
          obtain ⟨an, han⟩ := setPrev_live h₂ (Mem.modify_live h₁ ⟨nd, hnd⟩)
          obtain ⟨m₃, h₃⟩ := Mem.modify_of_live han fun nd => { nd with next := tn.next }
          obtain ⟨bn, hbn⟩ :=
            Mem.modify_live h₃ (setPrev_live h₂ (Mem.modify_live h₁ ⟨tn, htn⟩))
          obtain ⟨m₄, h₄⟩ := Mem.free_of_live hbn
          exact ⟨{ t with mem := m₄ }, by simp [removeHashItemByNode, hnd, hp, hn, htn, h₁, h₂, h₃, h₄]⟩
  | some p =>
      obtain ⟨pn, hpn⟩ : ∃ pn, t.mem.load p = some pn := by
        cases hpl : t.mem.load p with
        | none => simp [linkedBack, hnd, hp, hpl] at hback
        | some pn => exact ⟨pn, rfl⟩
      obtain ⟨m₁, h₁⟩ := Mem.modify_of_live hpn fun pn => { pn with next := nd.next }
      obtain ⟨m₂, h₂⟩ := setPrev_of_live (fun b hb => Mem.modify_live h₁ (hlive b hb)) p
      obtain ⟨an, han⟩ := setPrev_live h₂ (Mem.modify_live h₁ ⟨nd, hnd⟩)
      obtain ⟨m₃, h₃⟩ := Mem.free_of_live han
      exact ⟨{ t with mem := m₃ }, by simp [removeHashItemByNode, hnd, hp, h₁, h₂, h₃]⟩

end TermCollection.Dns
