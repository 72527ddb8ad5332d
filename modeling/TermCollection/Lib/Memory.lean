import Mathlib.Data.Finset.Card
import Mathlib.Logic.Function.Basic
import Mathlib.Tactic.TypeStar

/-!
# A memory of allocated blocks

Each block holds one value. `malloc` returns an address that was never handed out before, so a freed
address stays dead: reading, writing or freeing it again has no defined result.
-/

namespace TermCollection

/-- `cell a` is the value of the live block at `a`; no address from `brk` on was handed out yet. -/
structure Mem (α : Type*) where
  cell : Nat → Option α
  brk : Nat
  fresh : ∀ a, brk ≤ a → cell a = none

namespace Mem

variable {α : Type*} {m m' : Mem α} {a b : Nat} {v w : α}

/-- The blocks `0 .. n - 1`, each holding `v`. -/
def array (n : Nat) (v : α) : Mem α where
  cell a := if a < n then some v else none
  brk := n
  fresh a h := by simp [Nat.not_lt.mpr h]

def load (m : Mem α) (a : Nat) : Option α := m.cell a

def store (m : Mem α) (a : Nat) (v : α) : Option (Mem α) :=
  match h : m.cell a with
  | none => none
  | some _ => some {
      cell := Function.update m.cell a (some v)
      brk := m.brk
      fresh := fun b hb => by
        have hab : b ≠ a := by rintro rfl; simp [m.fresh b hb] at h
        rw [Function.update_of_ne hab, m.fresh b hb] }

/-- A write to one field of the block at `a`. -/
def modify (m : Mem α) (a : Nat) (f : α → α) : Option (Mem α) := do
  let v ← m.load a
  m.store a (f v)

def malloc (m : Mem α) (v : α) : Nat × Mem α :=
  (m.brk, {
    cell := Function.update m.cell m.brk (some v)
    brk := m.brk + 1
    fresh := fun b hb => by
      rw [Function.update_of_ne (by omega), m.fresh b (by omega)] })

def free (m : Mem α) (a : Nat) : Option (Mem α) :=
  match m.cell a with
  | none => none
  | some _ => some {
      cell := Function.update m.cell a none
      brk := m.brk
      fresh := fun b hb => by
        by_cases hab : b = a
        · simp [hab]
        · rw [Function.update_of_ne hab, m.fresh b hb] }

/-- The block at `a` was handed out and freed. -/
def Dead (m : Mem α) (a : Nat) : Prop := a < m.brk ∧ m.load a = none

theorem load_array (n : Nat) (v : α) (a : Nat) :
    (array n v).load a = if a < n then some v else none := rfl

theorem lt_brk_of_load (h : m.load a = some v) : a < m.brk := by
  by_contra hge
  rw [load, m.fresh a (Nat.not_lt.mp hge)] at h
  cases h

theorem store_of_live (h : m.load a = some v) (w : α) :
    ∃ m', m.store a w = some m' := by
  unfold store
  split
  · rename_i hn; rw [load, hn] at h; cases h
  · exact ⟨_, rfl⟩

theorem store_load (h : m.store a w = some m') (b : Nat) :
    m'.load b = if b = a then some w else m.load b := by
  unfold store at h
  split at h
  · cases h
  · cases h; simp [load, Function.update_apply]

theorem store_brk (h : m.store a w = some m') : m'.brk = m.brk := by
  unfold store at h
  split at h
  · cases h
  · cases h; rfl

theorem modify_of_live (h : m.load a = some v) (f : α → α) : ∃ m', m.modify a f = some m' := by
  simpa [modify, h] using store_of_live h (f v)

theorem modify_eq_some {f : α → α} (h : m.modify a f = some m') :
    ∃ v, m.load a = some v ∧ m'.brk = m.brk ∧
      ∀ b, m'.load b = if b = a then some (f v) else m.load b := by
  unfold modify at h
  cases hv : m.load a with
  | none => simp [hv] at h
  | some v =>
      simp only [hv, Option.bind_eq_bind, Option.bind_some] at h
      exact ⟨v, rfl, store_brk h, store_load h⟩

theorem modify_live {f : α → α} (h : m.modify a f = some m') (hb : ∃ v, m.load b = some v) :
    ∃ v, m'.load b = some v := by
  obtain ⟨v, -, -, hload⟩ := modify_eq_some h
  rw [hload b]
  split
  · exact ⟨_, rfl⟩
  · exact hb

theorem malloc_fst (m : Mem α) (v : α) : (m.malloc v).1 = m.brk := rfl

theorem malloc_brk (m : Mem α) (v : α) : (m.malloc v).2.brk = m.brk + 1 := rfl

theorem malloc_load (m : Mem α) (v : α) (b : Nat) :
    (m.malloc v).2.load b = if b = m.brk then some v else m.load b := by
  simp [malloc, load, Function.update_apply]

theorem free_of_live (h : m.load a = some v) : ∃ m', m.free a = some m' := by
  unfold free
  split
  · rename_i hn; rw [load, hn] at h; cases h
  · exact ⟨_, rfl⟩

theorem free_eq_some (h : m.free a = some m') :
    (∃ v, m.load a = some v) ∧ m'.brk = m.brk ∧
      ∀ b, m'.load b = if b = a then none else m.load b := by
  unfold free at h
  split at h
  · cases h
  · rename_i v hv
    cases h
    exact ⟨⟨v, hv⟩, rfl, fun b => by simp [load, Function.update_apply]⟩

/-! ## The live blocks -/

def blocks (m : Mem α) : Finset Nat := (Finset.range m.brk).filter fun a => (m.load a).isSome

theorem mem_blocks : a ∈ m.blocks ↔ ∃ v, m.load a = some v := by
  rw [blocks, Finset.mem_filter, Finset.mem_range, Option.isSome_iff_exists]
  exact ⟨And.right, fun ⟨v, hv⟩ => ⟨lt_brk_of_load hv, v, hv⟩⟩

theorem blocks_array (n : Nat) (v : α) : (array n v).blocks = Finset.range n := by
  ext a
  rw [mem_blocks, load_array, Finset.mem_range]
  split <;> simp [*]

theorem blocks_modify {f : α → α} (h : m.modify a f = some m') : m'.blocks = m.blocks := by
  obtain ⟨v, hv, -, hload⟩ := modify_eq_some h
  ext b
  rw [mem_blocks, mem_blocks, hload]
  split
  · rename_i hb
    rw [hb, hv]
    exact iff_of_true ⟨_, rfl⟩ ⟨v, rfl⟩
  · rfl

theorem blocks_malloc (m : Mem α) (v : α) : (m.malloc v).2.blocks = insert m.brk m.blocks := by
  ext b
  rw [Finset.mem_insert, mem_blocks, mem_blocks, malloc_load]
  split <;> simp [*]

theorem brk_notMem_blocks (m : Mem α) : m.brk ∉ m.blocks := by
  rw [mem_blocks]
  exact fun ⟨v, hv⟩ => Nat.lt_irrefl _ (lt_brk_of_load hv)

theorem card_blocks_malloc (m : Mem α) (v : α) : (m.malloc v).2.blocks.card = m.blocks.card + 1 := by
  rw [blocks_malloc, Finset.card_insert_of_notMem m.brk_notMem_blocks]

theorem blocks_free (h : m.free a = some m') : a ∈ m.blocks ∧ m'.blocks = m.blocks.erase a := by
  obtain ⟨hlive, -, hload⟩ := free_eq_some h
  refine ⟨mem_blocks.mpr hlive, ?_⟩
  ext b
  rw [Finset.mem_erase, mem_blocks, mem_blocks, hload]
  split <;> simp [*]

theorem card_blocks_free (h : m.free a = some m') : m'.blocks.card + 1 = m.blocks.card := by
  obtain ⟨hmem, hblocks⟩ := blocks_free h
  rw [hblocks, Finset.card_erase_add_one hmem]

/-- The blocks are freed one after the other. -/
def freeAll (m : Mem α) (l : List Nat) : Option (Mem α) := l.foldlM free m

theorem freeAll_append (m : Mem α) (l r : List Nat) :
    m.freeAll (l ++ r) = (m.freeAll l).bind fun m => m.freeAll r := List.foldlM_append

/-- Live blocks can be freed once each. -/
theorem freeAll_of_live {l : List Nat} (hl : l.Nodup) (hlive : ∀ a ∈ l, ∃ v, m.load a = some v) :
    ∃ m', m.freeAll l = some m' ∧ m'.brk = m.brk ∧
      ∀ b, m'.load b = if b ∈ l then none else m.load b := by
  induction l generalizing m with
  | nil => exact ⟨m, rfl, rfl, fun b => rfl⟩
  | cons a l ih =>
      obtain ⟨ha, hl⟩ := List.nodup_cons.mp hl
      obtain ⟨v, hv⟩ := hlive a List.mem_cons_self
      obtain ⟨m₁, h₁⟩ := free_of_live hv
      obtain ⟨-, hbrk₁, hload₁⟩ := free_eq_some h₁
      have hlive₁ : ∀ b ∈ l, ∃ v, m₁.load b = some v := by
        intro b hb
        rw [hload₁, if_neg (by rintro rfl; exact ha hb)]
        exact hlive b (List.mem_cons_of_mem a hb)
      obtain ⟨m', h', hbrk, hload⟩ := ih hl hlive₁
      refine ⟨m', ?_, hbrk.trans hbrk₁, fun b => ?_⟩
      · rw [freeAll, List.foldlM_cons, h₁]
        exact h'
      · rw [hload, hload₁]
        by_cases hb : b = a <;> simp [hb, ha]

theorem card_blocks_freeAll {l : List Nat} (h : m.freeAll l = some m') :
    m'.blocks.card + l.length = m.blocks.card := by
  induction l generalizing m with
  | nil =>
      cases h
      rfl
  | cons a l ih =>
      rw [freeAll, List.foldlM_cons] at h
      obtain ⟨m₁, h₁, h⟩ := Option.bind_eq_some_iff.mp h
      have := card_blocks_free h₁
      have := ih h
      rw [List.length_cons]
      omega

end Mem

end TermCollection
