import Mathlib.Data.List.MinMax
import Mathlib.Data.List.Nodup
import Mathlib.Data.Prod.Lex
import Mathlib.Data.Set.Card
import Mathlib.Data.Set.Finite.Lattice
import Mathlib.Data.Set.Finite.Lemmas

/-!
# Settling places by the least ride

A search settles one place after the other, by the least ride that leads from a settled place to one that is
not settled. It judges a ride by itself, whatever the way before it. So of two ways to one place it does not
keep the one whose greatest ride, after the two ways part, is the greater one.
-/

namespace TermCollection

/-- Rides between places. A way is the list of its rides, from the start on. -/
structure Network (ν κ ρ : Type*) where
  start : ν
  goal : ρ → ν
  key : ρ → κ
  /-- What decides between rides with one key from one place. -/
  tie : ρ → ℕ
  /-- The ride can be taken at the end of the way. -/
  Offer : List ρ → ρ → Prop
  goal_of_key : ∀ {e e' : ρ}, key e = key e' → goal e = goal e'
  eq_of_tie : ∀ {P e e'}, Offer P e → Offer P e' → tie e = tie e' → e = e'

namespace Network

section Ways

variable {ν κ ρ : Type*} (N : Network ν κ ρ)

/-- The place at the end of a way. -/
def place (P : List ρ) : ν := (P.getLast?.map N.goal).getD N.start

/-- A way that comes to no place twice. -/
inductive Way : List ρ → Prop
  | nil : Way []
  | ride {P : List ρ} {e : ρ} : Way P → N.Offer P e → N.goal e ∉ N.start :: P.map N.goal → Way (P ++ [e])

/-- The ride leads from one of the ways to a place to which none of them leads. -/
structure Candidate (ways : List (List ρ)) (P : List ρ) (e : ρ) : Prop where
  way : P ∈ ways
  offer : N.Offer P e
  fresh : ∀ Q ∈ ways, N.place Q ≠ N.goal e

/-- The first way stands before the second one. -/
def Earlier (ways : List (List ρ)) (P Q : List ρ) : Prop :=
  ∃ before after, ways = before ++ after ∧ P ∈ before ∧ Q ∈ after

variable {N} {ways : List (List ρ)} {P Q R W : List ρ} {e : ρ}

@[simp] theorem place_nil : N.place [] = N.start := rfl

@[simp] theorem place_concat : N.place (P ++ [e]) = N.goal e := by simp [place]

/-- What stands behind the first part of a list ends as the list does. -/
theorem eq_concat_of_append {α : Type*} {C A P : List α} {e : α} (h : C ++ A = P ++ [e]) (hA : A ≠ []) :
    ∃ A', A = A' ++ [e] ∧ P = C ++ A' := by
  obtain ⟨A, f, rfl⟩ := (List.eq_nil_or_concat' A).resolve_left hA
  rw [← List.append_assoc] at h
  obtain ⟨rfl, rfl⟩ := List.append_singleton_inj.mp h
  exact ⟨A, rfl, rfl⟩

theorem earlier_concat (h : Earlier (ways ++ [W]) P Q) : Earlier ways P Q ∨ P ∈ ways ∧ Q = W := by
  obtain ⟨before, after, hways, hP, hQ⟩ := h
  obtain ⟨after, rfl, rfl⟩ := eq_concat_of_append hways.symm (List.ne_nil_of_mem hQ)
  rcases List.mem_append.mp hQ with hQ | hQ
  · exact .inl ⟨before, after, rfl, hP, hQ⟩
  · exact .inr ⟨List.mem_append_left _ hP, List.mem_singleton.mp hQ⟩

theorem Way.part (h : N.Way (P ++ R)) : N.Way P := by
  induction R using List.reverseRecOn with
  | nil => rwa [List.append_nil] at h
  | append_singleton R f ih =>
      rw [← List.append_assoc] at h
      generalize hway : P ++ R ++ [f] = V at h
      cases h with
      | nil => simp at hway
      | ride h _ _ =>
          obtain ⟨rfl, -⟩ := List.append_singleton_inj.mp hway
          exact ih h

theorem Way.nodup (h : N.Way P) : (N.start :: P.map N.goal).Nodup := by
  induction h with
  | nil => exact List.nodup_singleton _
  | ride _ _ hnew ih =>
      rw [List.map_append, ← List.cons_append]
      exact List.nodup_append.mpr ⟨ih, List.nodup_singleton _, fun v hv w hw heq =>
        hnew (List.mem_singleton.mp hw ▸ heq ▸ hv)⟩

/-- A part of a way leads to each of its places. -/
theorem exists_part_of_mem {v : ν} (hv : v ∈ N.start :: P.map N.goal) : ∃ A B, P = A ++ B ∧ N.place A = v := by
  rcases List.mem_cons.mp hv with rfl | hv
  · exact ⟨[], P, rfl, rfl⟩
  · obtain ⟨f, hf, rfl⟩ := List.mem_map.mp hv
    obtain ⟨A, B, rfl⟩ := List.append_of_mem hf
    exact ⟨A ++ [f], B, by simp, place_concat⟩

/-- Each ride of a way can be taken, and leads to a new place. -/
theorem Way.ride_of_part (h : N.Way (P ++ e :: R)) :
    N.Offer P e ∧ N.goal e ∉ N.start :: P.map N.goal := by
  rw [List.append_cons] at h
  generalize hway : P ++ [e] = V at h
  cases h.part with
  | nil => simp at hway
  | ride _ hoffer hnew =>
      obtain ⟨rfl, rfl⟩ := List.append_singleton_inj.mp hway
      exact ⟨hoffer, hnew⟩

end Ways

variable {ν κ ρ : Type*} [LinearOrder κ] (N : Network ν κ ρ)

/-- The greatest key of some rides. -/
def peak (A : List ρ) : WithBot κ := (A.map N.key).maximum

/-- What is compared of two ways behind the place where they part. -/
def rank (A : List ρ) : WithBot κ ×ₗ WithBot κ ×ₗ ℕ :=
  toLex (N.peak A, toLex (N.peak A.dropLast, (A.getLast?.map N.tie).getD 0))

/-- The first way has the lower rank, after the two part. -/
def Before (P Q : List ρ) : Prop :=
  ∃ C A B, P = C ++ A ∧ Q = C ++ B ∧ A ≠ [] ∧ B ≠ [] ∧ A.head? ≠ B.head? ∧ N.rank A < N.rank B

/-- The second way comes by the first one wherever it meets it before its own end. -/
def Joins (P J : List ρ) : Prop :=
  ∀ {P' J'}, P' <+: P → J' <+: J → J' ≠ J → N.place P' = N.place J' → P' = J'

/-- Each part of the way goes before every other way to its place that joins it. -/
def Kept (D : List ρ) : Prop :=
  ∀ {P e R}, D = P ++ e :: R → ∀ {J}, N.Way J → N.place J = N.goal e → N.Joins P J → J ≠ P ++ [e] →
    N.Before (P ++ [e]) J

/-- One way to each place to which rides lead from these ways, before which none of the rides goes. -/
structure Stable (S : Set (List ρ)) : Prop where
  start : [] ∈ S
  part : ∀ {P e}, P ++ [e] ∈ S → P ∈ S ∧ N.Way (P ++ [e])
  place_inj : ∀ {P Q}, P ∈ S → Q ∈ S → N.place P = N.place Q → P = Q
  unblocked : ∀ {P e}, P ∈ S → N.Offer P e → ∃ Q ∈ S, N.place Q = N.goal e ∧ ¬ N.Before (P ++ [e]) Q

/-- The ride of the first way is taken rather than that of the second one. -/
def Preferred (ways : List (List ρ)) (P : List ρ) (e : ρ) (Q : List ρ) (f : ρ) : Prop :=
  N.key e < N.key f ∨ N.key e = N.key f ∧ (P = Q ∧ N.tie e ≤ N.tie f ∨ Earlier ways P Q)

/-- The ways by which the places were settled, in their order. -/
inductive Settled : List (List ρ) → Prop
  | start : Settled [[]]
  | next {ways : List (List ρ)} {P : List ρ} {e : ρ} : Settled ways → N.Candidate ways P e →
      (∀ {Q f}, N.Candidate ways Q f → N.Preferred ways P e Q f) → Settled (ways ++ [P ++ [e]])

variable {N} {ways : List (List ρ)} {P Q W A B C D : List ρ} {e f : ρ}

/-! ## Peaks -/

@[simp] theorem peak_nil : N.peak [] = ⊥ := rfl

theorem peak_concat (A : List ρ) (e : ρ) : N.peak (A ++ [e]) = max (N.peak A) (N.key e) := by
  rw [peak, List.map_append, List.map_singleton, List.maximum_concat]
  rfl

theorem key_le_peak (A : List ρ) (e : ρ) : (N.key e : WithBot κ) ≤ N.peak (A ++ [e]) := by
  rw [peak_concat]
  exact le_max_right _ _

theorem peak_le_append (A B : List ρ) : N.peak A ≤ N.peak (A ++ B) := by
  rw [peak, peak, List.map_append]
  exact List.maximum_le_of_forall_le fun _ ha => List.le_maximum_of_mem' (List.mem_append_left _ ha)

theorem bot_lt_peak (h : A ≠ []) : ⊥ < N.peak A := by
  obtain ⟨A, e, rfl⟩ := (List.eq_nil_or_concat' A).resolve_left h
  exact (WithBot.bot_lt_coe _).trans_le (key_le_peak A e)

theorem rank_lt_of_peak (h : N.peak A < N.peak B) : N.rank A < N.rank B := Prod.Lex.left _ _ h

theorem rank_concat (A : List ρ) (e : ρ) :
    N.rank (A ++ [e]) = toLex (N.peak (A ++ [e]), toLex (N.peak A, N.tie e)) := by
  simp [rank]

/-! ## The ways of a search -/

theorem Settled.start_mem (h : N.Settled ways) : [] ∈ ways := by
  induction h with
  | start => exact List.mem_singleton_self _
  | next _ _ _ ih => exact List.mem_append_left _ ih

theorem Settled.part_mem (h : N.Settled ways) (hW : C ++ A ∈ ways) : C ∈ ways := by
  induction h generalizing C A with
  | start =>
      rw [List.mem_singleton, List.append_eq_nil_iff] at hW
      rw [hW.1]
      exact List.mem_singleton_self _
  | @next ways P e _ hcand _ ih =>
      rcases List.mem_append.mp hW with hW | hW
      · exact List.mem_append_left _ (ih hW)
      · rw [List.mem_singleton] at hW
        rcases eq_or_ne A [] with rfl | hA
        · rw [List.append_nil] at hW
          exact List.mem_append_right _ (List.mem_singleton.mpr hW)
        · obtain ⟨A, -, rfl⟩ := eq_concat_of_append hW hA
          exact List.mem_append_left _ (ih hcand.way)

/-- Each place is settled by one way. -/
theorem Settled.place_inj (h : N.Settled ways) (hP : P ∈ ways) (hQ : Q ∈ ways)
    (hplace : N.place P = N.place Q) : P = Q := by
  induction h with
  | start => rw [List.mem_singleton.mp hP, List.mem_singleton.mp hQ]
  | @next ways P₀ e _ hcand _ ih =>
      rcases List.mem_append.mp hP with hP | hP <;> rcases List.mem_append.mp hQ with hQ | hQ
      · exact ih hP hQ
      · rw [List.mem_singleton.mp hQ, place_concat] at hplace
        exact absurd hplace (hcand.fresh P hP)
      · rw [List.mem_singleton.mp hP, place_concat] at hplace
        exact absurd hplace.symm (hcand.fresh Q hQ)
      · rw [List.mem_singleton.mp hP, List.mem_singleton.mp hQ]

theorem Settled.nodup (h : N.Settled ways) : ways.Nodup := by
  induction h with
  | start => exact List.nodup_singleton _
  | @next ways P e _ hcand _ ih =>
      rw [List.nodup_append]
      refine ⟨ih, List.nodup_singleton _, fun Q hQ R hR heq => ?_⟩
      rw [List.mem_singleton] at hR
      exact hcand.fresh Q hQ (by rw [heq, hR, place_concat])

/-- The way to a place does not go on from itself. -/
theorem Candidate.not_part (h : N.Candidate ways P e) (hways : N.Settled ways) : P ++ [e] ++ A ∉ ways :=
  fun hmem => h.fresh _ (hways.part_mem hmem) place_concat

theorem Settled.exists_of_mem {v : ν} (h : N.Settled ways) (hP : P ∈ ways) (hv : v ∈ N.start :: P.map N.goal) :
    ∃ Q ∈ ways, N.place Q = v := by
  obtain ⟨A, B, rfl, hplace⟩ := exists_part_of_mem hv
  exact ⟨A, h.part_mem hP, hplace⟩

theorem Settled.way (h : N.Settled ways) (hP : P ∈ ways) : N.Way P := by
  induction h generalizing P with
  | start =>
      rw [List.mem_singleton.mp hP]
      exact .nil
  | @next ways P₀ e hways hcand _ ih =>
      rcases List.mem_append.mp hP with hP | hP
      · exact ih hP
      · rw [List.mem_singleton.mp hP]
        refine .ride (ih hcand.way) hcand.offer fun hmem => ?_
        obtain ⟨Q, hQ, hplace⟩ := hways.exists_of_mem hcand.way hmem
        exact hcand.fresh Q hQ hplace

theorem Earlier.ne (h : Earlier ways P Q) (hways : N.Settled ways) : P ≠ Q := by
  rintro rfl
  obtain ⟨before, after, rfl, hP, hQ⟩ := h
  exact (List.nodup_append.mp hways.nodup).2.2 P hP P hQ rfl

/-! ## Ways that part -/

/-- A ride behind a part of a way starts as the way does. -/
theorem head_of_part (hB : B ≠ []) (D : List ρ) : (B ++ D).head? = B.head? := by
  rw [List.head?_append, List.head?_eq_some_head hB]
  rfl

/-- A way that was settled has less than one that leads to a place which is not settled. -/
theorem Settled.peak_lt_candidate (h : N.Settled ways) (hW : C ++ A ∈ ways) (hP : N.Candidate ways (C ++ B) e)
    (hA : A ≠ []) (hpart : A.head? ≠ (B ++ [e]).head?) : N.peak A < N.peak (B ++ [e]) := by
  induction h generalizing A B C e with
  | start =>
      rw [List.mem_singleton, List.append_eq_nil_iff] at hW
      exact absurd hW.2 hA
  | @next ways P₀ e₀ hways hcand hleast ih =>
      have hold : ∀ {P f}, P ∈ ways → N.Candidate (ways ++ [P₀ ++ [e₀]]) P f → N.Candidate ways P f :=
        fun hmem h => ⟨hmem, h.offer, fun Q hQ => h.fresh Q (List.mem_append_left _ hQ)⟩
      rcases List.mem_append.mp hW with hin | hnew <;> rcases List.mem_append.mp hP.way with hmem | hmem
      · exact ih hin (hold hmem hP) hA hpart
      · -- the ride is one behind the new way
        rw [List.mem_singleton] at hmem
        rcases eq_or_ne B [] with rfl | hB
        · rw [List.append_nil] at hmem
          rw [hmem] at hin
          exact absurd hin (hcand.not_part hways)
        · obtain ⟨B, rfl, rfl⟩ := eq_concat_of_append hmem hB
          rw [head_of_part (by simp)] at hpart
          exact (ih hin hcand hA hpart).trans_le (peak_le_append _ _)
      · -- the new way, against a ride that was a candidate when it was taken
        rw [List.mem_singleton] at hnew
        obtain ⟨A, rfl, rfl⟩ := eq_concat_of_append hnew hA
        have hcand' := hold hmem hP
        have hne : N.key e₀ ≠ N.key e := fun heq => hP.fresh _ (List.mem_append_right _
          (List.mem_singleton_self _)) (place_concat.trans (N.goal_of_key heq))
        have hkey : N.key e₀ < N.key e := (hleast hcand').resolve_right fun h => hne h.1
        have hlast : (N.key e₀ : WithBot κ) < N.peak (B ++ [e]) :=
          (WithBot.coe_lt_coe.mpr hkey).trans_le (key_le_peak B e)
        rw [peak_concat, max_lt_iff]
        refine ⟨?_, hlast⟩
        rcases eq_or_ne A [] with rfl | hA'
        · exact (WithBot.bot_lt_coe _).trans hlast
        · rw [head_of_part hA'] at hpart
          exact ih hcand.way hcand' hA' hpart
      · rw [List.mem_singleton] at hnew hmem
        obtain rfl := List.append_cancel_left (hnew.trans hmem.symm)
        rw [head_of_part hA] at hpart
        exact absurd rfl hpart

/-- Of two ways that were settled and part, the earlier one has less. -/
theorem Settled.peak_lt_of_earlier (h : N.Settled ways) (hearlier : Earlier ways (C ++ A) (C ++ B))
    (hpart : A.head? ≠ B.head?) : N.peak A < N.peak B := by
  induction h with
  | start =>
      obtain ⟨before, after, hways, hP, hQ⟩ := hearlier
      have hlength := congrArg List.length hways
      have hpos := List.length_pos_of_mem hP
      have hpos' := List.length_pos_of_mem hQ
      rw [List.length_singleton, List.length_append] at hlength
      omega
  | @next ways P₀ e₀ hways hcand _ ih =>
      rcases earlier_concat hearlier with hold | ⟨hmem, hnew⟩
      · exact ih hold
      · rcases eq_or_ne B [] with rfl | hB
        · rw [List.append_nil] at hnew
          rw [hnew] at hmem
          exact absurd hmem (hcand.not_part hways)
        · obtain ⟨B, rfl, rfl⟩ := eq_concat_of_append hnew hB
          rcases eq_or_ne A [] with rfl | hA
          · exact bot_lt_peak (by simp)
          · exact hways.peak_lt_candidate hmem hcand hA hpart

/-- Of two ways that lead on and part, each has less before its last ride than the other one. -/
theorem Settled.peak_lt_of_part (h : N.Settled ways) (hP : N.Candidate ways (C ++ A) e)
    (hQ : N.Candidate ways (C ++ B) f) (hpart : (A ++ [e]).head? ≠ (B ++ [f]).head?) :
    N.peak A < N.peak (B ++ [f]) := by
  rcases eq_or_ne A [] with rfl | hA
  · exact bot_lt_peak (by simp)
  · rw [head_of_part hA] at hpart
    exact h.peak_lt_candidate hP.way hQ hA hpart

/-- A ride that is preferred to another one behind the place where the ways part makes a way of lower rank. -/
theorem Settled.rank_lt_of_preferred (h : N.Settled ways) (hP : N.Candidate ways (C ++ A) e)
    (hQ : N.Candidate ways (C ++ B) f) (hpref : N.Preferred ways (C ++ A) e (C ++ B) f)
    (hpart : (A ++ [e]).head? ≠ (B ++ [f]).head?) : N.rank (A ++ [e]) < N.rank (B ++ [f]) := by
  have hbefore := h.peak_lt_of_part hP hQ hpart
  rcases hpref with hless | ⟨hkey, hsame | hearlier⟩
  · refine rank_lt_of_peak ?_
    rw [peak_concat A, max_lt_iff]
    exact ⟨hbefore, (WithBot.coe_lt_coe.mpr hless).trans_le (key_le_peak B f)⟩
  · obtain ⟨hsame, htie⟩ := hsame
    obtain rfl := List.append_cancel_left hsame
    rcases eq_or_ne A [] with rfl | hA
    · have hne : N.tie e ≠ N.tie f := fun heq => hpart (by rw [N.eq_of_tie hP.offer hQ.offer heq])
      rw [rank_concat, rank_concat, peak_concat, peak_concat, hkey, Prod.Lex.lt_iff]
      exact .inr ⟨rfl, Prod.Lex.lt_iff.mpr (.inr ⟨rfl, lt_of_le_of_ne htie hne⟩)⟩
    · rw [head_of_part hA, head_of_part hA] at hpart
      exact absurd rfl hpart
  · have hparted : A.head? ≠ B.head? := by
      rcases eq_or_ne A [] with rfl | hA <;> rcases eq_or_ne B [] with rfl | hB
      · exact absurd rfl (hearlier.ne h)
      · rw [List.head?_eq_some_head hB]
        exact (Option.some_ne_none _).symm
      · rw [List.head?_eq_some_head hA]
        exact Option.some_ne_none _
      · rwa [head_of_part hA, head_of_part hB] at hpart
    have hless := h.peak_lt_of_earlier hearlier hparted
    have hpeak : N.peak (A ++ [e]) ≤ N.peak (B ++ [f]) := by
      rw [peak_concat, peak_concat, hkey]
      exact max_le_max hless.le le_rfl
    rw [rank_concat, rank_concat, Prod.Lex.lt_iff]
    rcases hpeak.lt_or_eq with hlt | heq
    · exact .inl hlt
    · exact .inr ⟨heq, Prod.Lex.lt_iff.mpr (.inl hless)⟩

/-- The way by which a place was settled has no higher rank than one that leads on from the settled places. -/
theorem Settled.rank_le (h : N.Settled ways) (hQ : C ++ A ∈ ways) (hP : C ++ B ∈ ways)
    (hoffer : N.Offer (C ++ B) e) (hplace : N.place (C ++ A) = N.goal e) (hA : A ≠ [])
    (hpart : A.head? ≠ (B ++ [e]).head?) : N.rank A ≤ N.rank (B ++ [e]) := by
  induction h with
  | start =>
      rw [List.mem_singleton, List.append_eq_nil_iff] at hQ
      exact absurd hQ.2 hA
  | @next ways P₀ e₀ hways hcand hleast ih =>
      rcases List.mem_append.mp hQ with hin | hnew <;> rcases List.mem_append.mp hP with hmem | hmem
      · exact ih hin hmem
      · -- the ride could be taken only when the place was settled
        rw [List.mem_singleton] at hmem
        rcases eq_or_ne B [] with rfl | hB
        · rw [List.append_nil] at hmem
          rw [hmem] at hin
          exact absurd hin (hcand.not_part hways)
        · obtain ⟨B, rfl, rfl⟩ := eq_concat_of_append hmem hB
          rw [head_of_part (by simp)] at hpart
          exact (rank_lt_of_peak ((hways.peak_lt_candidate hin hcand hA hpart).trans_le
            (peak_le_append _ _))).le
      · -- the way that was taken, against the ride
        rw [List.mem_singleton] at hnew
        obtain ⟨A, rfl, rfl⟩ := eq_concat_of_append hnew hA
        rw [← List.append_assoc, place_concat] at hplace
        have hcand' : N.Candidate ways (C ++ B) e :=
          ⟨hmem, hoffer, fun R hR => by rw [← hplace]; exact hcand.fresh R hR⟩
        exact (hways.rank_lt_of_preferred hcand hcand' (hleast hcand') hpart).le
      · rw [List.mem_singleton] at hnew hmem
        obtain rfl := List.append_cancel_left (hnew.trans hmem.symm)
        rw [head_of_part hA] at hpart
        exact absurd rfl hpart

/-! ## What is kept -/

/-- No way goes before the one by which its place was settled, if it leads on from the settled places. -/
theorem Settled.not_before (h : N.Settled ways) (hQ : Q ∈ ways) (hP : P ∈ ways) (hoffer : N.Offer P e)
    (hplace : N.place Q = N.goal e) : ¬ N.Before (P ++ [e]) Q := by
  rintro ⟨C, A, B, hPe, rfl, hA, hB, hpart, hrank⟩
  obtain ⟨A, rfl, rfl⟩ := eq_concat_of_append hPe.symm hA
  exact absurd hrank (not_lt.mpr (h.rank_le hQ hP hoffer hplace hB hpart.symm))

/-- Ways that were settled meet only where they come from one way. -/
theorem Settled.joins (h : N.Settled ways) (hP : P ∈ ways) (hQ : Q ∈ ways) : N.Joins P Q := by
  rintro P' Q' ⟨A, rfl⟩ ⟨B, rfl⟩ - hplace
  exact h.place_inj (h.part_mem hP) (h.part_mem hQ) hplace

/-- Two lists of which neither is a part of the other one part somewhere. -/
theorem exists_part_of_not_prefix {X Y : List ρ} (hX : ¬ X <+: Y) (hY : ¬ Y <+: X) :
    ∃ C A B, X = C ++ A ∧ Y = C ++ B ∧ A ≠ [] ∧ B ≠ [] ∧ A.head? ≠ B.head? := by
  induction X generalizing Y with
  | nil => exact absurd List.nil_prefix hX
  | cons x X ih =>
      cases Y with
      | nil => exact absurd List.nil_prefix hY
      | cons y Y =>
          by_cases hxy : x = y
          · subst hxy
            rw [List.cons_prefix_cons] at hX hY
            obtain ⟨C, A, B, rfl, rfl, hparts⟩ := ih (fun h => hX ⟨rfl, h⟩) (fun h => hY ⟨rfl, h⟩)
            exact ⟨x :: C, A, B, rfl, rfl, hparts⟩
          · exact ⟨[], x :: X, y :: Y, rfl, rfl, by simp, by simp, by simpa using hxy⟩

/-- The ride by which a way leaves the settled places. -/
theorem Settled.exists_leaving (h : N.Settled ways) (hQ : Q ∉ ways) :
    ∃ P e R, Q = P ++ e :: R ∧ P ∈ ways ∧ P ++ [e] ∉ ways := by
  induction Q using List.reverseRecOn with
  | nil => exact absurd h.start_mem hQ
  | append_singleton Q f ih =>
      by_cases hmem : Q ∈ ways
      · exact ⟨Q, f, [], rfl, hmem, hQ⟩
      · obtain ⟨P, e, R, rfl, hP, hleaves⟩ := ih hmem
        exact ⟨P, e, R ++ [f], by simp, hP, hleaves⟩

variable {S : Set (List ρ)}

theorem Stable.part_mem (hS : N.Stable S) (hP : C ++ A ∈ S) : C ∈ S := by
  induction A using List.reverseRecOn with
  | nil => rwa [List.append_nil] at hP
  | append_singleton A f ih =>
      rw [← List.append_assoc] at hP
      exact ih (hS.part hP).1

theorem Stable.way (hS : N.Stable S) (hP : P ∈ S) : N.Way P := by
  rcases List.eq_nil_or_concat' P with rfl | ⟨P, e, rfl⟩
  · exact .nil
  · exact (hS.part hP).2

/-- The ride that is preferred to all others goes before each way that leaves the settled places otherwise. -/
theorem Settled.before_of_preferred (h : N.Settled ways) (hcand : N.Candidate ways P e)
    (hleast : ∀ {Q f}, N.Candidate ways Q f → N.Preferred ways P e Q f) (hQ : N.Candidate ways Q f)
    (hne : P ++ [e] ≠ Q ++ [f]) (hend : A = [] ∨ N.goal f ≠ N.goal e) :
    N.Before (P ++ [e]) (Q ++ [f] ++ A) := by
  have hnot : ∀ {P Q e f}, N.Candidate ways P e → Q ∈ ways → P ++ [e] ≠ Q ++ [f] → ¬ P ++ [e] <+: Q ++ [f] := by
    intro P Q e f hcand hQ hne hprefix
    rcases List.prefix_concat_iff.mp hprefix with heq | ⟨R, rfl⟩
    · exact hne heq
    · exact hcand.not_part h hQ
  obtain ⟨C, A₁, B₁, hPe, hQf, hA, hB, hpart⟩ :=
    exists_part_of_not_prefix (hnot hcand hQ.way hne) (hnot hQ hcand.way hne.symm)
  obtain ⟨A₁, rfl, rfl⟩ := eq_concat_of_append hPe.symm hA
  obtain ⟨B₁, rfl, rfl⟩ := eq_concat_of_append hQf.symm hB
  refine ⟨C, A₁ ++ [e], B₁ ++ [f] ++ A, by simp, by simp, by simp, by simp, ?_, ?_⟩
  · rwa [head_of_part (B := B₁ ++ [f]) (by simp)]
  · rcases hend with rfl | hgoal
    · rw [List.append_nil]
      exact h.rank_lt_of_preferred hcand hQ (hleast hQ) hpart
    · -- the ride to another place has the greater key
      have hkey : N.key e < N.key f :=
        (hleast hQ).resolve_right fun hsame => hgoal (N.goal_of_key hsame.1).symm
      refine rank_lt_of_peak (lt_of_lt_of_le ?_ (peak_le_append _ A))
      rw [peak_concat A₁, max_lt_iff]
      exact ⟨h.peak_lt_of_part hcand hQ hpart, (WithBot.coe_lt_coe.mpr hkey).trans_le (key_le_peak B₁ f)⟩

/-- The ways by which places are settled are stable ones. -/
theorem Settled.mem_of_stable (h : N.Settled ways) (hS : N.Stable S) (hW : W ∈ ways) : W ∈ S := by
  induction h generalizing W with
  | start =>
      rw [List.mem_singleton.mp hW]
      exact hS.start
  | @next ways P e hways hcand hleast ih =>
      rcases List.mem_append.mp hW with hW | hW
      · exact ih hW
      · rw [List.mem_singleton] at hW
        obtain ⟨Q, hQ, hplace, hblocks⟩ := hS.unblocked (ih hcand.way) hcand.offer
        suffices hsame : Q = P ++ [e] by rw [hW, ← hsame]; exact hQ
        by_contra hne
        obtain ⟨Q₀, g, R, rfl, hQ₀, hleaves⟩ := hways.exists_leaving fun hmem => hcand.fresh Q hmem hplace
        rw [List.append_cons Q₀] at hQ hplace hne hblocks
        have hpart := hS.part_mem hQ
        have hcand' : N.Candidate ways Q₀ g := by
          refine ⟨hQ₀, (hS.way hpart).ride_of_part (R := []).1, fun J hJ hgoal => hleaves ?_⟩
          rwa [← hS.place_inj (ih hJ) hpart (hgoal.trans place_concat.symm)]
        have hend : R = [] ∨ N.goal g ≠ N.goal e := by
          refine or_iff_not_imp_left.mpr fun hR hgoal => hR ?_
          have hsame := hS.place_inj hpart hQ (by rw [hplace, place_concat, hgoal])
          exact List.self_eq_append_right.mp hsame
        refine hblocks (hways.before_of_preferred hcand hleast hcand' (fun heq => ?_) hend)
        -- a way to the place of a ride does not go on
        have hgoal : N.goal g = N.goal e := congrArg N.goal (List.append_singleton_inj.mp heq).2.symm
        rw [hend.resolve_right (not_not.mpr hgoal), List.append_nil] at hne
        exact hne heq.symm

/-- The ways of all places that can be settled are stable. -/
theorem Settled.stable (h : N.Settled ways) (hclosed : ∀ {P e}, ¬ N.Candidate ways P e) :
    N.Stable {W | W ∈ ways} where
  start := h.start_mem
  part := fun hP => ⟨h.part_mem hP, h.way hP⟩
  place_inj := h.place_inj
  unblocked := by
    intro P e hP hoffer
    obtain ⟨Q, hQ, hplace⟩ : ∃ Q ∈ ways, N.place Q = N.goal e := by
      by_contra hnone
      exact hclosed ⟨hP, hoffer, fun Q hQ hplace => hnone ⟨Q, hQ, hplace⟩⟩
    exact ⟨Q, hQ, hplace, h.not_before hQ hP hoffer hplace⟩

/-- There is one stable set of ways. -/
theorem Settled.eq_of_stable (h : N.Settled ways) (hclosed : ∀ {P e}, ¬ N.Candidate ways P e) (hS : N.Stable S)
    (hW : W ∈ S) : W ∈ ways := by
  induction W using List.reverseRecOn with
  | nil => exact h.start_mem
  | append_singleton W e ih =>
      obtain ⟨hpart, hway⟩ := hS.part hW
      obtain ⟨Q, hQ, hplace⟩ : ∃ Q ∈ ways, N.place Q = N.goal e := by
        by_contra hnone
        exact hclosed ⟨ih hpart, (hway.ride_of_part (R := [])).1, fun Q hQ hplace => hnone ⟨Q, hQ, hplace⟩⟩
      rwa [hS.place_inj hW (h.mem_of_stable hS hQ) (place_concat.trans hplace.symm)]

theorem earlier_of_idxOf_lt [DecidableEq ρ] (hP : P ∈ ways) (hQ : Q ∈ ways) (hlt : ways.idxOf P < ways.idxOf Q) :
    Earlier ways P Q := by
  have hlenP := List.idxOf_lt_length_of_mem hP
  have hlenQ := List.idxOf_lt_length_of_mem hQ
  refine ⟨ways.take (ways.idxOf Q), ways.drop (ways.idxOf Q), (List.take_append_drop _ _).symm, ?_, ?_⟩
  · exact List.mem_take_iff_getElem.mpr ⟨ways.idxOf P, by omega, List.getElem_idxOf hlenP⟩
  · exact List.mem_drop_iff_getElem.mpr ⟨0, by omega, by simp⟩

/-- Of finitely many rides one is preferred to all others. -/
theorem exists_preferred (hfinite : ∀ P, {e | N.Offer P e}.Finite) (hcand : N.Candidate ways P e) :
    ∃ Q f, N.Candidate ways Q f ∧ ∀ {R g}, N.Candidate ways R g → N.Preferred ways Q f R g := by
  classical
  have hsome : {x : List ρ × ρ | N.Candidate ways x.1 x.2}.Finite := by
    refine ((List.finite_toSet ways).biUnion fun Q _ => (hfinite Q).image (Prod.mk Q)).subset ?_
    rintro ⟨Q, f⟩ h
    exact Set.mem_biUnion h.way ⟨f, h.offer, rfl⟩
  obtain ⟨⟨Q, f⟩, hQ, hleast⟩ := Set.exists_min_image _
    (fun x : List ρ × ρ => toLex (N.key x.2, toLex (ways.idxOf x.1, N.tie x.2))) hsome ⟨(P, e), hcand⟩
  refine ⟨Q, f, hQ, fun {R g} hR => ?_⟩
  rcases Prod.Lex.le_iff.mp (hleast (R, g) hR) with hless | ⟨hkey, hrest⟩
  · exact .inl hless
  · refine .inr ⟨hkey, ?_⟩
    rcases Prod.Lex.le_iff.mp hrest with hearlier | ⟨hsame, htie⟩
    · exact .inr (earlier_of_idxOf_lt hQ.way hR.way hearlier)
    · exact .inl ⟨(List.idxOf_inj hQ.way).mp hsame, htie⟩

/-- Places can be settled on until no ride leads on. -/
theorem Settled.exists_closed [Finite ν] (hfinite : ∀ P, {e | N.Offer P e}.Finite) (h : N.Settled ways) :
    ∃ more, N.Settled (ways ++ more) ∧ ∀ {P e}, ¬ N.Candidate (ways ++ more) P e := by
  induction hcount : {v | ∀ R ∈ ways, N.place R ≠ v}.ncard using Nat.strong_induction_on generalizing ways with
  | _ count ih =>
      by_cases hmore : ∃ P e, N.Candidate ways P e
      · obtain ⟨P, e, hcand⟩ := hmore
        obtain ⟨Q, f, hQ, hleast⟩ := exists_preferred hfinite hcand
        have hfewer : {v | ∀ R ∈ ways ++ [Q ++ [f]], N.place R ≠ v}.ncard < count := by
          rw [← hcount]
          refine Set.ncard_lt_ncard ⟨fun v hv R hR => hv R (List.mem_append_left _ hR), fun hsub => ?_⟩
            (Set.toFinite _)
          exact hsub hQ.fresh (Q ++ [f]) (List.mem_append_right _ (List.mem_singleton_self _)) place_concat
        obtain ⟨more, hsettled, hclosed⟩ := ih _ hfewer (h.next hQ hleast) rfl
        rw [List.append_assoc] at hsettled
        exact ⟨_, hsettled, by rwa [List.append_assoc] at hclosed⟩
      · refine ⟨[], by rwa [List.append_nil], fun {P e} hcand => hmore ⟨P, e, ?_⟩⟩
        rwa [List.append_nil] at hcand

/-- The ways by which places were settled are among stable ones. -/
theorem Settled.exists_stable [Finite ν] (hfinite : ∀ P, {e | N.Offer P e}.Finite) (h : N.Settled ways) :
    ∃ S, N.Stable S ∧ ∀ W ∈ ways, W ∈ S := by
  obtain ⟨more, hsettled, hclosed⟩ := h.exists_closed hfinite
  exact ⟨_, hsettled.stable hclosed, fun W hW => List.mem_append_left _ hW⟩

end Network

end TermCollection
