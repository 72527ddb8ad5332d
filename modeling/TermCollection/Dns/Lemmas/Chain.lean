import TermCollection.Lib.Linked
import TermCollection.Dns.HashTable
import Mathlib.Data.List.Induction
import Mathlib.Data.List.Perm.Subperm

/-!
# One bucket of the hash table

A bucket is a chain of nodes that starts in the array. The `next` links are always sound. The `prev`
links are not: a node that was appended to a chain of two or more carries the node before its
predecessor. A `prev` that is not null therefore points one or two nodes back, or to a freed node.
-/

namespace TermCollection.Dns

variable {κ ν : Type} {m m' : Mem (Node κ ν)} {a b d i p : Nat} {l A M R : List Nat}

def Node.links (nd : Node κ ν) : Option Nat × Option Nat := (nd.prev, nd.next)

def nextOf (m : Mem (Node κ ν)) (a : Nat) : Option (Option Nat) := (m.load a).map Node.next

def entryOf (m : Mem (Node κ ν)) (a : Nat) : Option (κ × ν) := (m.load a).bind Node.entry

theorem Node.entry_eq_some {nd : Node κ ν} {e : κ × ν} :
    nd.entry = some e ↔ nd.key = some e.1 ∧ nd.value = some e.2 := by
  cases hk : nd.key <;> cases hv : nd.value <;> simp [Node.entry, hk, hv, Prod.ext_iff]

theorem Node.entry_eq_none {nd : Node κ ν} :
    nd.entry = none ↔ nd.key = none ∨ nd.value = none := by
  cases hk : nd.key <;> cases hv : nd.value <;> simp [Node.entry, hk, hv]

theorem load_of_nextOf {o : Option Nat} (h : nextOf m a = some o) :
    ∃ nd, m.load a = some nd ∧ nd.next = o := by
  simpa [nextOf] using h

/-! ## The `prev` links -/

/-- The two nodes before the present one: the one before the predecessor, and the predecessor. -/
abbrev Window := Option Nat × Option Nat

def Window.push (w : Window) (a : Nat) : Window := (w.2, some a)

/-- A `prev` link is null, or points one or two nodes back, or to a freed node. -/
def BackLink (m : Mem (Node κ ν)) (w : Window) (a : Nat) : Prop :=
  ∀ nd q, m.load a = some nd → nd.prev = some q → w.1 = some q ∨ w.2 = some q ∨ m.Dead q

def BackLinks (m : Mem (Node κ ν)) : Window → List Nat → Prop
  | _, [] => True
  | w, a :: l => BackLink m w a ∧ BackLinks m (w.push a) l

theorem BackLinks.append_iff {w : Window} :
    BackLinks m w (l ++ R) ↔ BackLinks m w l ∧ BackLinks m (l.foldl Window.push w) R := by
  induction l generalizing w with
  | nil => simp [BackLinks]
  | cons a l ih => simp [BackLinks, ih, and_assoc]

theorem foldl_push_concat (l : List Nat) (a : Nat) (w : Window) :
    (l ++ [a]).foldl Window.push w = ((l.foldl Window.push w).2, some a) := by
  simp [Window.push]

theorem foldl_push_snd (l : List Nat) : (l.foldl Window.push (none, none)).2 = l.getLast? := by
  cases l using List.reverseRecOn with
  | nil => rfl
  | append_singleton l a => simp [Window.push]

/-- Every node keeps its `prev`, and what was freed stays freed. -/
theorem BackLinks.congr {w : Window} (h : BackLinks m w l)
    (hl : ∀ a ∈ l, (m'.load a).map Node.prev = (m.load a).map Node.prev)
    (hd : ∀ q, m.Dead q → m'.Dead q) : BackLinks m' w l := by
  induction l generalizing w with
  | nil => trivial
  | cons a l ih =>
      refine ⟨?_, ih h.2 fun b hb => hl b (List.mem_cons_of_mem a hb)⟩
      intro nd q hnd hq
      have ha := hl a (by simp)
      rw [hnd, Option.map_some] at ha
      obtain ⟨nd', hnd', hp⟩ := Option.map_eq_some_iff.mp ha.symm
      rcases h.1 nd' q hnd' (by rw [hp, hq]) with hw | hw | hw
      · exact .inl hw
      · exact .inr (.inl hw)
      · exact .inr (.inr (hd q hw))

/-- A node two places back may be replaced once it is freed. -/
theorem BackLinks.reroute {w : Option Nat} (h : BackLinks m (some d, some b) l) (hd : m.Dead d) :
    BackLinks m (w, some b) l := by
  cases l with
  | nil => trivial
  | cons c l =>
      refine ⟨?_, h.2⟩
      intro nd q hnd hq
      rcases h.1 nd q hnd hq with hw | hw | hw
      · cases hw; exact .inr (.inr hd)
      · exact .inr (.inl hw)
      · exact .inr (.inr hw)

/-! ## Chains -/

/-- The nodes `l` are the bucket `i` of an array of `size` heads. -/
structure Chain (m : Mem (Node κ ν)) (size i : Nat) (l : List Nat) : Prop where
  head : ∃ tl, l = i :: tl ∧ ∀ a ∈ tl, size ≤ a
  linked : Linked (nextOf m) l
  nodup : l.Nodup
  headPrev : ∀ nd, m.load i = some nd → nd.prev = none
  back : BackLinks m (none, none) l

namespace Chain

variable {size : Nat}

theorem head?_eq (h : Chain m size i l) : l.head? = some i := by
  obtain ⟨tl, rfl, -⟩ := h.head
  rfl

theorem live (h : Chain m size i l) (ha : a ∈ l) : ∃ nd, m.load a = some nd := by
  obtain ⟨o, ho⟩ := h.linked.live ha
  obtain ⟨nd, hnd, -⟩ := load_of_nextOf ho
  exact ⟨nd, hnd⟩

theorem lt_brk (h : Chain m size i l) (ha : a ∈ l) : a < m.brk := by
  obtain ⟨nd, hnd⟩ := h.live ha
  exact Mem.lt_brk_of_load hnd

theorem length_le (h : Chain m size i l) : l.length ≤ m.brk := by
  have hsub : l ⊆ List.range m.brk := fun a ha => List.mem_range.mpr (h.lt_brk ha)
  simpa using (List.subperm_of_subset h.nodup hsub).length_le

theorem congr (h : Chain m size i l)
    (hl : ∀ a ∈ l, (m'.load a).map Node.links = (m.load a).map Node.links)
    (hd : ∀ q, m.Dead q → m'.Dead q) : Chain m' size i l := by
  have hi : i ∈ l := by obtain ⟨tl, rfl, -⟩ := h.head; simp
  have hprev : ∀ a ∈ l, (m'.load a).map Node.prev = (m.load a).map Node.prev := fun a ha => by
    simpa [Node.links, Function.comp_def] using congrArg (Option.map Prod.fst) (hl a ha)
  have hnext : ∀ a ∈ l, nextOf m' a = nextOf m a := fun a ha => by
    simpa [nextOf, Node.links, Function.comp_def] using congrArg (Option.map Prod.snd) (hl a ha)
  refine ⟨h.head, h.linked.congr hnext, h.nodup, ?_, h.back.congr hprev hd⟩
  intro nd hnd
  have hp := hprev i hi
  rw [hnd, Option.map_some] at hp
  obtain ⟨nd₀, h₀, hp₀⟩ := Option.map_eq_some_iff.mp hp.symm
  rw [← hp₀]; exact h.headPrev nd₀ h₀

theorem next_eq (h : Chain m size i (A ++ a :: R)) {nd : Node κ ν} (hnd : m.load a = some nd) :
    nd.next = R.head? := by
  cases R with
  | nil => simpa [nextOf, hnd] using h.linked.nx_last
  | cons b R => simpa [nextOf, hnd] using h.linked.nx_next

/-- The head is overwritten, and the chain ends there. -/
theorem of_head {nd : Node κ ν} (hnd : m'.load i = some nd)
    (hp : nd.prev = none) (hn : nd.next = none) : Chain m' size i [i] := by
  refine ⟨⟨[], rfl, by simp⟩, by simp [Linked, nextOf, hnd, hn], by simp, ?_, ?_⟩
  · intro nd' h'; rw [hnd] at h'; cases h'; exact hp
  · refine ⟨?_, trivial⟩
    intro nd' q h' hq; rw [hnd] at h'; cases h'; rw [hp] at hq; cases hq

/-- The `prev` of a node in the middle of a chain, when it is live. -/
theorem prev_cases (h : Chain m size i (A ++ a :: R)) {nd pn : Node κ ν} (hnd : m.load a = some nd)
    (hp : nd.prev = some p) (hpn : m.load p = some pn) :
    (∃ A', A = A' ++ [p]) ∨ ∃ A' q, A = A' ++ [p, q] := by
  have hb := ((BackLinks.append_iff.mp h.back).2).1 nd p hnd hp
  rcases hb with hw | hw | hw
  · cases A using List.reverseRecOn with
    | nil => simp at hw
    | append_singleton A q =>
        rw [foldl_push_concat, foldl_push_snd] at hw
        obtain ⟨A', rfl⟩ := List.getLast?_eq_some_iff.mp hw
        exact .inr ⟨A', q, by simp⟩
  · rw [foldl_push_snd] at hw
    obtain ⟨A', rfl⟩ := List.getLast?_eq_some_iff.mp hw
    exact .inl ⟨A', rfl⟩
  · rw [hw.2] at hpn; cases hpn

/-- A new last node, whose `prev` is the node before the last one. -/
theorem append_new (h : Chain m size i (A ++ [a])) (hsize : size ≤ m.brk)
    (hA : ∀ c ∈ A, m'.load c = m.load c)
    (ha : m'.load a = (m.load a).map fun nd => { nd with next := some m.brk })
    {nd : Node κ ν} (hb : m'.load m.brk = some nd) (hprev : nd.prev = A.getLast?)
    (hnext : nd.next = none) (hdead : ∀ q, m.Dead q → m'.Dead q) :
    Chain m' size i (A ++ [a, m.brk]) := by
  have hlive : ∀ c ∈ A ++ [a], (m'.load c).map Node.prev = (m.load c).map Node.prev := by
    intro c hc
    rcases List.mem_append.mp hc with hc | hc
    · rw [hA c hc]
    · rw [List.mem_singleton.mp hc, ha, Option.map_map]; rfl
  obtain ⟨an, han⟩ := h.live (a := a) (by simp)
  refine ⟨?_, ?_, ?_, ?_, ?_⟩
  · obtain ⟨tl, htl, hge⟩ := h.head
    refine ⟨tl ++ [m.brk], ?_, ?_⟩
    · rw [← List.cons_append, ← htl]; simp
    · intro c hc
      rcases List.mem_append.mp hc with hc | hc
      · exact hge c hc
      · rw [List.mem_singleton.mp hc]; exact hsize
  · refine h.linked.append_new (fun c hc => by simp [nextOf, hA c hc]) ?_ ?_
    · simp [nextOf, ha, han]
    · simp [nextOf, hb, hnext]
  · have hnew : m.brk ∉ A ++ [a] := fun hc => absurd (h.lt_brk hc) (Nat.lt_irrefl _)
    have happ : A ++ [a, m.brk] = (A ++ [a]) ++ [m.brk] := by simp
    rw [happ, List.nodup_append]
    refine ⟨h.nodup, by simp, fun c hc d hd => ?_⟩
    rintro rfl
    exact hnew (by rwa [List.mem_singleton.mp hd] at hc)
  · obtain ⟨tl, htl, -⟩ := h.head
    intro nd' hnd'
    have hi := hlive i (by rw [htl]; simp)
    rw [hnd', Option.map_some] at hi
    obtain ⟨nd₀, h₀, hp₀⟩ := Option.map_eq_some_iff.mp hi.symm
    rw [← hp₀]; exact h.headPrev nd₀ h₀
  · have happ : A ++ [a, m.brk] = (A ++ [a]) ++ [m.brk] := by simp
    rw [happ, BackLinks.append_iff]
    refine ⟨h.back.congr hlive hdead, ?_, trivial⟩
    intro nd' q hnd' hq
    rw [hb] at hnd'; cases hnd'
    rw [foldl_push_concat, foldl_push_snd, ← hprev, hq]
    exact .inl rfl

/-- `p` takes over the link of a later node `d`, which is freed. The nodes between them leave the
chain. -/
theorem cut (h : Chain m size i (A ++ p :: (M ++ d :: R)))
    (hA : ∀ c ∈ A, m'.load c = m.load c) {pn pn' dn : Node κ ν} (hpn : m.load p = some pn)
    (hpn' : m'.load p = some pn') (hdn : m.load d = some dn) (hprev : pn'.prev = pn.prev)
    (hnext : pn'.next = dn.next)
    (hR : ∀ b ∈ R, m'.load b = if R.head? = some b then
      (m.load b).map fun nd => { nd with prev := some p } else m.load b)
    (hd : m'.Dead d) (hdead : ∀ q, m.Dead q → m'.Dead q) : Chain m' size i (A ++ p :: R) := by
  have hApp : ∀ c ∈ A ++ [p], (m'.load c).map Node.prev = (m.load c).map Node.prev := by
    intro c hc
    rcases List.mem_append.mp hc with hc | hc
    · rw [hA c hc]
    · rw [List.mem_singleton.mp hc, hpn, hpn', Option.map_some, Option.map_some, hprev]
  have hsub : (A ++ p :: R).Sublist (A ++ p :: (M ++ d :: R)) :=
    .append (.refl A) (.cons_cons p ((List.sublist_cons_self d R).trans (List.sublist_append_right M _)))
  refine ⟨?_, ?_, h.nodup.sublist hsub, ?_, ?_⟩
  · obtain ⟨tl, htl, hge⟩ := h.head
    cases A with
    | nil =>
        simp only [List.nil_append, List.cons.injEq] at htl
        exact ⟨R, by simp [htl.1], fun c hc => hge c (by rw [← htl.2]; simp [hc])⟩
    | cons x A =>
        simp only [List.cons_append, List.cons.injEq] at htl
        refine ⟨A ++ p :: R, by simp [htl.1], fun c hc => hge c ?_⟩
        rw [← htl.2]
        have := (List.cons_sublist_cons.mp hsub).subset hc
        exact this
  · refine h.linked.skip (fun c hc => by simp [nextOf, hA c hc]) (fun c hc => ?_) ?_
    · simp only [nextOf, hR c hc]
      split
      · rw [Option.map_map]; rfl
      · rfl
    · simp [nextOf, hpn', hdn, hnext]
  · intro nd hnd
    have hi : i ∈ A ++ [p] := by
      obtain ⟨tl, htl, -⟩ := h.head
      cases A with
      | nil => simp only [List.nil_append, List.cons.injEq] at htl; simp [htl.1]
      | cons x A => simp only [List.cons_append, List.cons.injEq] at htl; simp [htl.1]
    have hpi := hApp i hi
    rw [hnd, Option.map_some] at hpi
    obtain ⟨nd₀, h₀, hp₀⟩ := Option.map_eq_some_iff.mp hpi.symm
    rw [← hp₀]; exact h.headPrev nd₀ h₀
  · have happ : A ++ p :: (M ++ d :: R) = (A ++ [p]) ++ ((M ++ [d]) ++ R) := by simp
    have happ' : A ++ p :: R = (A ++ [p]) ++ R := by simp
    obtain ⟨hfront, hrest⟩ := BackLinks.append_iff.mp (happ ▸ h.back)
    simp only [BackLinks.append_iff (l := M ++ [d]), foldl_push_concat] at hrest
    rw [happ', BackLinks.append_iff]
    refine ⟨hfront.congr hApp hdead, ?_⟩
    cases R with
    | nil => trivial
    | cons b R =>
        refine ⟨?_, ?_⟩
        · intro nd q hnd hq
          rw [hR b (by simp)] at hnd
          simp only [List.head?_cons, ↓reduceIte, Option.map_eq_some_iff] at hnd
          obtain ⟨nd₀, -, rfl⟩ := hnd
          rw [foldl_push_concat]
          exact .inr (.inl hq)
        · have hbR : b ∉ R := by
            have := (h.nodup.sublist hsub).sublist
              ((List.sublist_cons_self p (b :: R)).trans (List.sublist_append_right A _))
            exact (List.nodup_cons.mp this).1
          have hrest : BackLinks m' (some d, some b) R := by
            refine hrest.2.2.congr (fun c hc => ?_) hdead
            have hcb : b ≠ c := by rintro rfl; exact hbR hc
            rw [hR c (List.mem_cons_of_mem b hc)]; simp [hcb]
          rw [foldl_push_concat]
          exact hrest.reroute hd

end Chain

end TermCollection.Dns
