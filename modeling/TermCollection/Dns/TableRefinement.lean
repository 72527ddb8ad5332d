import TermCollection.Lib.AssocList
import TermCollection.Lib.Machine
import TermCollection.Dns.Lemmas.Removal

/-!
# The hash table as an association list

Operations on a table whose key strings do not change while they are stored.
-/

namespace TermCollection.Dns

variable {κ ν : Type} {n : Nat} {str : κ → CString} {t t' : HashTable κ ν} {key : CString}
variable {l : AssocList CString ν} {e : κ × ν} {k : κ} {v : ν}

inductive TableOp (κ ν : Type) where
  | insert (key : κ) (value : ν)
  | lookup (key : CString)
  | remove (key : CString)

inductive TableOutput (ν : Type) where
  | inserted (ok : Bool)
  | found (value : Option ν)
  | removed (ok : Bool)
  deriving DecidableEq

def tableStep (str : κ → CString) : Machine (HashTable κ ν) (TableOp κ ν) (TableOutput ν)
  | t, .insert key value => do
      let (ok, t) ← insertHashItem str t key value
      some (t, [.inserted ok])
  | t, .lookup key => do
      let value ← findValueByKey str t key
      some (t, [.found value])
  | t, .remove key => do
      let node ← findNodeByKey str t key
      let (ok, t) ← removeHashItemByNode t node
      some (t, [.removed ok])

/-- What the operations mean on an association list. -/
def specStep (str : κ → CString) (l : AssocList CString ν) : TableOp κ ν → AssocList CString ν
  | .insert key value => l.add (str key) value
  | .lookup _ => l
  | .remove key => l.remove key

/-- The association list of a history, whose newest operation stands first. -/
def spec {ω : Type} (str : κ → CString) : List (TableOp κ ν × ω) → AssocList CString ν
  | [] => []
  | (op, _) :: tr => specStep str (spec str tr) op

/-- No insertion goes behind an emptied node, and no removal goes through the wrong `prev`. -/
def safeOp (str : κ → CString) (t : HashTable κ ν) : TableOp κ ν → Bool
  | .insert key _ => (bucketEntries t (bucket t (str key))).tail.all Option.isSome
  | .lookup _ => true
  | .remove key =>
      match findNodeByKey str t key with
      | some (some node) => linkedBack t node
      | _ => true

/-! ## The simulation -/

/-- Entries without an emptied node, or with one at the end. -/
def Packed {α : Type} (es : List α) (l : List (Option α)) : Prop :=
  l = es.map some ∨ l = es.map some ++ [none]

/-- The table stores the entries of the association list, bucket by bucket. -/
structure Refines (str : κ → CString) (t : HashTable κ ν) (l : AssocList CString ν) : Prop where
  nonempty : 0 < t.size
  wellFormed : WellFormed t
  stored : ∀ i < t.size, ∃ es, Packed es (bucketEntries t i) ∧
    es.map (fun e => (str e.1, e.2)) = l.part (bucket t) i

theorem Packed.visible {α : Type} {es : List α} {l : List (Option α)} (h : Packed es l) :
    visible l = es := by
  rcases h with rfl | rfl
  · exact visible_map_some es
  · simp [visible_append, Dns.visible]

theorem Packed.insert {α : Type} {es : List α} {l : List (Option α)} {e : α} (h : Packed es l)
    (hsafe : l.tail.all Option.isSome = true) : Packed (es ++ [e]) (insertEntry e l) := by
  left
  rcases h with rfl | rfl
  · cases es <;> simp [insertEntry]
  · cases es with
    | nil => rfl
    | cons a es => simp at hsafe

/-- The entry after `A` in a packed list, and what is left without it. -/
theorem Packed.split {α : Type} {es A : List α} {e : α} {R : List (Option α)}
    (h : Packed es (A.map some ++ some e :: R)) : ∃ R', es = A ++ e :: R' ∧ Packed R' R := by
  rcases h with h | h
  · have hes := congrArg Dns.visible h
    rw [visible_map_some, visible_append, Dns.visible] at hes
    refine ⟨Dns.visible R, hes.symm, .inl ?_⟩
    rw [← hes] at h
    simpa using h
  · have hes := congrArg Dns.visible h
    simp only [visible_append, Dns.visible, List.append_nil] at hes
    refine ⟨Dns.visible R, hes.symm, .inr ?_⟩
    rw [← hes] at h
    simpa using h

theorem Packed.append {α : Type} {A es : List α} {l : List (Option α)} (h : Packed es l) :
    Packed (A ++ es) (A.map some ++ l) := by
  rcases h with rfl | rfl
  · exact .inl (by simp)
  · exact .inr (by simp)

theorem refines_new (str : κ → CString) (hn : 0 < n) :
    Refines str (newHashTable n : HashTable κ ν) [] := by
  refine ⟨hn, wellFormed_new n, fun i hi => ⟨[], .inr ?_, rfl⟩⟩
  exact entries_new hi

theorem Refines.find (h : Refines str t l) (key : CString) :
    findValueByKey str t key = some (l.get key) := by
  obtain ⟨es, hes, hpart⟩ := h.stored _ (bucket_lt h.nonempty key)
  rw [h.wellFormed.findValue h.nonempty, hes.visible, ← AssocList.get_part (bucket t) l key, ← hpart,
    AssocList.get, List.find?_map]
  simp [Function.comp_def]

theorem Refines.insert (h : Refines str t l) (hsafe : safeOp str t (.insert k v) = true) :
    ∃ t', insertHashItem str t k v = some (true, t') ∧ Refines str t' (l.add (str k) v) := by
  obtain ⟨t', ht', hwf, hsize, hother, hself⟩ := h.wellFormed.insert h.nonempty str k v
  have hbucket : bucket t' = bucket t := by funext key; simp [bucket, hsize]
  refine ⟨t', ht', by rw [hsize]; exact h.nonempty, hwf, fun i hi => ?_⟩
  rw [hsize] at hi
  obtain ⟨es, hes, hpart⟩ := h.stored i hi
  rw [hbucket]
  by_cases hik : i = bucket t (str k)
  · subst hik
    refine ⟨es ++ [(k, v)], ?_, ?_⟩
    · rw [hself]; exact hes.insert hsafe
    · rw [AssocList.part_add_self, AssocList.add, ← hpart]; simp
  · refine ⟨es, ?_, ?_⟩
    · rw [hother i hi hik]; exact hes
    · rw [AssocList.part_add_of_ne (Ne.symm hik), hpart]

theorem Refines.remove (h : Refines str t l) (hsafe : safeOp str t (.remove key) = true) :
    ∃ node ok t', findNodeByKey str t key = some node ∧
      removeHashItemByNode t node = some (ok, t') ∧ Refines str t' (l.remove key) := by
  have hi := bucket_lt h.nonempty key
  obtain ⟨es, hes, hpart⟩ := h.stored _ hi
  rcases h.wellFormed.find h.nonempty str key with ⟨hf, hmiss⟩ | ⟨a, A, e, R, hf, hat, hkey, hne⟩
  · refine ⟨none, false, t, hf, rfl, ?_⟩
    rw [hes.visible] at hmiss
    have habsent : ∀ x ∈ l.part (bucket t) (bucket t key), x.1 ≠ key := by
      rw [← hpart]
      intro x hx
      obtain ⟨y, hy, rfl⟩ := List.mem_map.mp hx
      exact hmiss y hy
    rwa [AssocList.remove_of_part_absent habsent]
  · have hback : linkedBack t a = true := by simpa [safeOp, hf] using hsafe
    obtain ⟨t', ht'⟩ := hat.remove_defined hback
    obtain ⟨-, hwf, hsize, hother, hrem⟩ := hat.remove ht'
    have hbucket : bucket t' = bucket t := by funext key; simp [bucket, hsize]
    refine ⟨some a, true, t', hf, ht', by rw [hsize]; exact h.nonempty, hwf, fun i hi' => ?_⟩
    rw [hsize] at hi'
    rw [hbucket]
    by_cases hik : i = bucket t key
    · subst hik
      rw [hat.entries] at hes
      obtain ⟨R', rfl, hR⟩ := hes.split
      refine ⟨A ++ R', ?_, ?_⟩
      · generalize bucketEntries t' (bucket t key) = es' at hrem
        cases hrem with
        | emptied hnil _ =>
            subst hnil
            rcases hR with hR | hR
            · have hR' : R' = [] := by simpa using hR.symm
              subst hR'
              exact .inr (by simp)
            · simp at hR
        | unlinked _ => exact hR.append
        | skipped A' o p q hp hq hqa _ _ =>
            simp only [nextOf] at hq
            simp [linkedBack, hp, hq, hqa] at hback
      · rw [AssocList.part_remove_self, ← hpart]
        simp only [List.map_append, List.map_cons, hkey]
        rw [AssocList.remove_append]
        intro x hx
        obtain ⟨y, hy, rfl⟩ := List.mem_map.mp hx
        exact hne y hy
    · obtain ⟨es', hes', hpart'⟩ := h.stored i hi'
      refine ⟨es', ?_, ?_⟩
      · rw [hother i hi' hik]; exact hes'
      · rw [AssocList.part_remove_of_ne (Ne.symm hik), hpart']

theorem Refines.step (h : Refines str t l) (op : TableOp κ ν) (hsafe : safeOp str t op = true) :
    ∃ t' o, tableStep str t op = some (t', o) ∧ Refines str t' (specStep str l op) := by
  cases op with
  | insert k v =>
      obtain ⟨t', ht', hr⟩ := h.insert hsafe
      exact ⟨t', [.inserted true], by simp [tableStep, ht'], hr⟩
  | lookup key => exact ⟨t, [.found (l.get key)], by simp [tableStep, h.find key], h⟩
  | remove key =>
      obtain ⟨node, ok, t', hf, ht', hr⟩ := h.remove hsafe
      exact ⟨t', [.removed ok], by simp [tableStep, hf, ht'], hr⟩

theorem Refines.run {tr : List (TableOp κ ν × List (TableOutput ν))} (hn : 0 < n)
    (h : (tableStep str).Run (safeOp str · ·) (newHashTable n) t tr) : Refines str t (spec str tr) := by
  refine Machine.Run.invariant (I := fun t tr => Refines str t (spec str tr)) h (refines_new str hn) ?_
  intro s tr op s' o _ hi hc hs
  obtain ⟨s'', o', hs', hr⟩ := hi.step op hc
  rw [hs] at hs'
  cases hs'
  exact hr

/-! ## Every run -/

/-- After safe operations a lookup answers as the association list does, and the next safe operation
is defined. -/
theorem table_refines_assocList (str : κ → CString) (hn : 0 < n)
    {tr : List (TableOp κ ν × List (TableOutput ν))}
    (h : (tableStep str).Run (safeOp str · ·) (newHashTable n) t tr) :
    (∀ key, findValueByKey str t key = some ((spec str tr).get key)) ∧
      ∀ op, safeOp str t op → ∃ t' o, tableStep str t op = some (t', o) := by
  have hr := Refines.run hn h
  refine ⟨hr.find, fun op hsafe => ?_⟩
  obtain ⟨t', o, hs, -⟩ := hr.step op hsafe
  exact ⟨t', o, hs⟩

theorem table_refines_assocList_example :
    ∃ t tr, (tableStep id).Run (safeOp id · ·) (newHashTable 1) t tr ∧
      tr.map Prod.fst = [.remove [2], .lookup [1], .insert [2] 20, .insert [1] (10 : Nat)] ∧
      findValueByKey id t [1] = some (some 10) ∧ findValueByKey id t [2] = some none := by
  obtain ⟨hrun, hops⟩ := Machine.run_after (tableStep id) (safeOp id) (newHashTable 1)
    [.remove [2], .lookup [1], .insert [2] 20, .insert [1] (10 : Nat)] (by decide)
  have href := table_refines_assocList id Nat.one_pos hrun
  exact ⟨_, _, hrun, hops, href.1 [1], href.1 [2]⟩

/-- Three keys in one bucket: the removal of the third takes the second out of the chain. -/
theorem table_hides_second_key :
    ∃ t tr, (tableStep id).AnyRun (newHashTable 1) t tr ∧
      tr.map Prod.fst = [.remove [3], .insert [3] 30, .insert [2] 20, .insert [1] (10 : Nat)] ∧
      findValueByKey id t [2] = some none ∧ (spec id tr).get [2] = some 20 := by
  obtain ⟨hrun, hops⟩ := Machine.run_after (tableStep id) Machine.always (newHashTable 1)
    [.remove [3], .insert [3] 30, .insert [2] 20, .insert [1] (10 : Nat)] (by decide)
  exact ⟨_, _, hrun.any, hops, by decide, by decide⟩

end TermCollection.Dns
