import Mathlib.Data.List.AList
import Mathlib.Data.List.Induction

/-!
# Hashes that grow when they are read

A hash has one value for a key. Reading the value of a new key makes an entry for it.
-/

namespace TermCollection

abbrev Hash (κ α : Type*) := AList fun _ : κ => α

namespace Hash

variable {κ α β : Type*} [DecidableEq κ]

/-- The value of the key, with the value of new entries. -/
def value (hash : Hash κ α) (new : α) (key : κ) : α := (hash.lookup key).getD new

/-- The hash after its value was read. -/
def touch (hash : Hash κ α) (new : α) (key : κ) : Hash κ α :=
  if key ∈ hash then hash else hash.insert key new

theorem lookup_touch (hash : Hash κ α) (new : α) (key k : κ) :
    (hash.touch new key).lookup k = (hash.lookup k).or (if k = key then some new else none) := by
  unfold touch
  split
  · rename_i hmem
    by_cases hk : k = key
    · subst hk
      obtain ⟨a, ha⟩ := Option.isSome_iff_exists.mp (AList.lookup_isSome.mpr hmem)
      rw [ha, Option.some_or]
    · rw [if_neg hk, Option.or_none]
  · rename_i hmem
    by_cases hk : k = key
    · subst hk
      rw [AList.lookup_insert, AList.lookup_eq_none.mpr hmem, if_pos rfl, Option.none_or]
    · rw [AList.lookup_insert_ne hk, if_neg hk, Option.or_none]

/-- Of several values for a key the last one stays. -/
def insertAll (key : β → κ) (val : β → α) (items : List β) (hash : Hash κ α) : Hash κ α :=
  items.foldl (fun hash item => hash.insert (key item) (val item)) hash

/-- The last item with the key. -/
def lastWith (key : β → κ) (items : List β) (k : κ) : Option β := (items.filter (key · = k)).getLast?

theorem lookup_insertAll (key : β → κ) (val : β → α) (items : List β) (hash : Hash κ α) (k : κ) :
    (insertAll key val items hash).lookup k = ((lastWith key items k).map val).or (hash.lookup k) := by
  induction items using List.reverseRecOn with
  | nil => rfl
  | append_singleton items item ih =>
      rw [insertAll, List.foldl_append, List.foldl_cons, List.foldl_nil, ← insertAll, lastWith,
        List.filter_append]
      by_cases hk : key item = k
      · subst hk
        rw [AList.lookup_insert, List.filter_cons_of_pos (by simp)]
        simp
      · rw [AList.lookup_insert_ne (Ne.symm hk), List.filter_cons_of_neg (by simpa using hk), ih, lastWith,
          List.filter_nil, List.append_nil]

theorem mem_of_lastWith {key : β → κ} {items : List β} {k : κ} {item : β}
    (h : lastWith key items k = some item) : item ∈ items ∧ key item = k := by
  obtain ⟨hmem, hkey⟩ := List.mem_filter.mp (List.mem_of_getLast? h)
  exact ⟨hmem, of_decide_eq_true hkey⟩

theorem isSome_lastWith (key : β → κ) (items : List β) (k : κ) :
    (lastWith key items k).isSome = true ↔ k ∈ items.map key := by
  rw [lastWith, List.getLast?_isSome, ne_eq, List.filter_eq_nil_iff, List.mem_map]
  simp

/-- The item of a key that no two items share. -/
theorem lastWith_of_nodup {key : β → κ} {items : List β} {item : β} (hnodup : (items.map key).Nodup)
    (h : item ∈ items) : lastWith key items (key item) = some item := by
  have hmem : item ∈ items.filter (key · = key item) := List.mem_filter.mpr ⟨h, by simp⟩
  cases hlast : lastWith key items (key item) with
  | none =>
      rw [lastWith, List.getLast?_eq_none_iff] at hlast
      rw [hlast] at hmem
      cases hmem
  | some last =>
      obtain ⟨hlast, hkey⟩ := mem_of_lastWith hlast
      rw [List.inj_on_of_nodup_map hnodup hlast h hkey]

theorem length_entries (hash : Hash κ α) {keys : List κ} (hnodup : keys.Nodup)
    (h : ∀ k, (hash.lookup k).isSome = true ↔ k ∈ keys) : hash.entries.length = keys.length := by
  have hperm : hash.keys.Perm keys := by
    rw [List.perm_ext_iff_of_nodup hash.keys_nodup hnodup]
    intro k
    rw [← h k, AList.lookup_isSome, AList.mem_keys]
  rw [← hperm.length_eq, AList.keys, List.keys, List.length_map]

end Hash

end TermCollection
