import TermCollection.Dns.Lemmas.Clock
import TermCollection.Dns.Relay

/-!
# Freshness of the cache

The second count of the clock starts anew with each month. Real time does not.
-/

namespace TermCollection.Dns

variable {uv : LibUv} {s s₀ s' : Server} {e : Event} {o : List Output} {row : Nat}
variable {tr : List (Event × List Output)} {t : SystemTime} {ttl : UInt32}
variable {nread : Int} {base : List UInt8} {addr : SockAddrIn} {clock : Nat → SystemTime}

/-! ## Real time -/

/-- The seconds before the first day of the month, less one day. -/
def monthStart (t : SystemTime) : Nat :=
  (daysBeforeYear t.wYear + daysBeforeMonth t.wYear t.wMonth) * 86400

def realSecond (t : SystemTime) : Nat :=
  monthStart t + t.wDay * 86400 + t.wHour * 3600 + t.wMinute * 60 + t.wSecond

def realMillisecond (t : SystemTime) : Nat := realSecond t * 1000 + t.wMilliseconds

/-- The time is before the end of a record that was cached at `t`. -/
def Fresh (t : SystemTime) (ttl : UInt32) (time : SystemTime) : Prop :=
  realMillisecond time < realMillisecond t + ttl.toNat * 1000

/-- A record that was cached at `t` has ended, but for less time than lies between the starts of the
two months. An overflow of the stored end shortens that time. -/
def StaleWindow (t : SystemTime) (ttl : UInt32) (time : SystemTime) : Prop :=
  realMillisecond t + ttl.toNat * 1000 ≤ realMillisecond time ∧
    (realSecond time : Int) < realSecond t + ttl.toNat + (monthStart time - monthStart t) -
      2 ^ 32 * (((now t).toNat + ttl.toNat) / 2 ^ 32 : Nat)

instance (t : SystemTime) (ttl : UInt32) (time : SystemTime) : Decidable (Fresh t ttl time) :=
  inferInstanceAs (Decidable (_ < _))

instance (t : SystemTime) (ttl : UInt32) (time : SystemTime) : Decidable (StaleWindow t ttl time) :=
  inferInstanceAs (Decidable (_ ∧ _))

/-! ## What a row was cached with -/

def cachedIn (row : Nat) : Output → Option (SystemTime × UInt32)
  | .cached row' _ _ ttl time => if row' = row then some (time, ttl) else none
  | _ => none

/-- The time and the TTL of the last record that was cached in a row. -/
def lastCached (row : Nat) : List (Event × List Output) → Option (SystemTime × UInt32)
  | [] => none
  | (_, o) :: tr => (o.reverse.findSome? (cachedIn row)).or (lastCached row tr)

/-- The row that a caching writes. -/
def writtenRow (row : Nat) : Output → Option TransDNSRow
  | .cached row' domain data ttl time =>
      if row' = row then some { type := typeA, ttl := now time + ttl, data := data, domain := domain } else none
  | _ => none

/-- The last row that was written in a place of the DNS table. -/
def lastWritten (row : Nat) : List (Event × List Output) → Option TransDNSRow
  | [] => none
  | (_, o) :: tr => (o.reverse.findSome? (writtenRow row)).or (lastWritten row tr)

/-- The row of the DNS table that a lookup of the request's name finds. -/
def foundRow (s : Server) (e : Event) : Option Nat :=
  match acceptedRequest e with
  | none => none
  | some (_, url, type) =>
      if type = typePTR then none else (lookupRow s url).join.map Prod.snd

/-! ## The stored end -/

theorem realSecond_eq (t : SystemTime) : realSecond t = monthStart t + (now t).toNat := by
  rw [now_toNat, realSecond]
  omega

/-- A caching that is noted for a row has written it. -/
theorem writtenRow_of_cachedIn {x : Output} (h : cachedIn row x = some (t, ttl)) :
    ∃ entry, writtenRow row x = some entry ∧ entry.ttl = now t + ttl := by
  cases x with
  | cached row' domain data ttl' time =>
      simp only [cachedIn, Option.ite_none_right_eq_some, Option.some.injEq, Prod.mk.injEq] at h
      obtain ⟨hrow, rfl, rfl⟩ := h
      exact ⟨_, if_pos hrow, rfl⟩
  | _ => cases h

theorem writtenRow_eq_none {x : Output} : writtenRow row x = none ↔ cachedIn row x = none := by
  cases x with
  | cached row' domain data ttl time => by_cases hrow : row' = row <;> simp [writtenRow, cachedIn, hrow]
  | _ => exact iff_of_true rfl rfl

theorem written_of_cached {o : List Output} (h : o.findSome? (cachedIn row) = some (t, ttl)) :
    ∃ entry, o.findSome? (writtenRow row) = some entry ∧ entry.ttl = now t + ttl := by
  obtain ⟨pre, x, post, rfl, hx, hpre⟩ := List.findSome?_eq_some_iff.mp h
  obtain ⟨entry, hentry, httl⟩ := writtenRow_of_cachedIn hx
  exact ⟨entry, List.findSome?_eq_some_iff.mpr
    ⟨pre, x, post, rfl, hentry, fun y hy => writtenRow_eq_none.mpr (hpre y hy)⟩, httl⟩

theorem lastWritten_of_lastCached (h : lastCached row tr = some (t, ttl)) :
    ∃ entry, lastWritten row tr = some entry ∧ entry.ttl = now t + ttl := by
  induction tr with
  | nil => cases h
  | cons event tr ih =>
      obtain ⟨e, o⟩ := event
      rw [lastCached] at h
      rw [lastWritten]
      cases hcached : o.reverse.findSome? (cachedIn row) with
      | some noted =>
          rw [hcached, Option.some_or, Option.some.injEq] at h
          obtain ⟨entry, hentry, httl⟩ := written_of_cached (h ▸ hcached)
          exact ⟨entry, by rw [hentry, Option.some_or], httl⟩
      | none =>
          have hwritten : o.reverse.findSome? (writtenRow row) = none :=
            List.findSome?_eq_none_iff.mpr fun x hx =>
              writtenRow_eq_none.mpr (List.findSome?_eq_none_iff.mp hcached x hx)
          rw [hcached, Option.none_or] at h
          rw [hwritten, Option.none_or]
          exact ih h

/-- The row is the last one that was written in its place. -/
def Keeps (s : Server) (row : Nat) (written : Option TransDNSRow) : Prop :=
  ∀ entry, written = some entry → s.dnsTable row = entry

theorem findSome_concat {o : List Output} {x : Output} :
    (o ++ [x]).reverse.findSome? (writtenRow row) =
      (writtenRow row x).or (o.reverse.findSome? (writtenRow row)) := by
  rw [List.reverse_append]
  cases h : writtenRow row x <;> simp [h]

theorem keeps_cacheAnswers {temp i : Nat} {answers : List Answer} {before : Option TransDNSRow}
    (h : Keeps s row before) (hc : cacheAnswers temp clock s i answers = some (s', o)) :
    Keeps s' row ((o.reverse.findSome? (writtenRow row)).or before) := by
  have hrule := cacheAnswers_rule
    (I := fun s o => Keeps s row ((o.reverse.findSome? (writtenRow row)).or before))
    (P := fun _ => True) hc (fun _ _ => trivial) h
  apply hrule
  intro s pre ttl result r table time hI _ _ _ _
  rw [findSome_concat]
  by_cases hrow : s.dnsRowCount = row
  · intro entry heq
    simp only [writtenRow, hrow, ↓reduceIte, Option.some_or, Option.some.injEq] at heq
    rw [← heq, Server.cacheRow, hrow]
    exact Function.update_self ..
  · intro entry heq
    simp only [writtenRow, hrow, ↓reduceIte, Option.none_or] at heq
    simpa [Server.cacheRow, Function.update_of_ne (Ne.symm hrow)] using hI entry heq

/-- An output that closes a socket writes no row. -/
theorem keeps_closed {before : Option TransDNSRow} (h : Keeps s row before)
    (hclose : ∀ x ∈ o, ∃ socket, x = .close socket) :
    Keeps s row ((o.reverse.findSome? (writtenRow row)).or before) := by
  have hnone : o.reverse.findSome? (writtenRow row) = none := by
    apply List.findSome?_eq_none_iff.mpr
    intro x hx
    obtain ⟨socket, rfl⟩ := hclose x (List.mem_reverse.mp hx)
    rfl
  rw [hnone]
  exact h

theorem keeps_step (h : Keeps s row (lastWritten row tr)) (hs : serverStep uv s e = some (s', o)) :
    Keeps s' row (lastWritten row ((e, o) :: tr)) := by
  cases e with
  | request nread base addr clock =>
      cases onReadRequest_cases hs with
      | ignored _ _ hclose => exact keeps_closed h fun x hx => ⟨_, hclose x hx⟩
      | ptr => exact h
      | answered => exact h
      | missed => exact h
      | expired => exact h
  | response nread base clock =>
      cases onReadResponse_cases hs with
      | dropped _ _ hclose => exact keeps_closed h fun x hx => ⟨_, hclose x hx⟩
      | relayed temp answers _ cached base' _ _ _ hc _ _ =>
          rw [lastWritten, findSome_concat]
          have hfin : Keeps (s.finish temp) row (lastWritten row tr) := h
          exact keeps_cacheAnswers hfin hc

theorem keeps_run {C : Server → Event → Prop} (hr : (serverStep uv).Run C s₀ s tr) :
    Keeps s row (lastWritten row tr) :=
  hr.invariant (I := fun s tr => Keeps s row (lastWritten row tr)) (fun _ h => by cases h)
    fun _ _ _ _ _ _ h _ hs => keeps_step h hs

/-- The row stores the end of its record as a second count of the month of `t`. -/
theorem stored_end {C : Server → Event → Prop} (hr : (serverStep uv).Run C s₀ s tr)
    (hlast : lastCached row tr = some (t, ttl)) : (s.dnsTable row).ttl = now t + ttl := by
  obtain ⟨entry, hentry, httl⟩ := lastWritten_of_lastCached hlast
  rw [keeps_run hr entry hentry, httl]

/-- An ended record is still taken as valid just in the window. -/
theorem staleWindow_iff (t : SystemTime) (ttl : UInt32) (time : SystemTime) :
    StaleWindow t ttl time ↔ ¬ Fresh t ttl time ∧ now time < now t + ttl := by
  have hn := now_lt t
  have httl := ttl.toNat_lt
  have hlt : now time < now t + ttl ↔ (now time).toNat < ((now t).toNat + ttl.toNat) % 2 ^ 32 := by
    rw [UInt32.lt_iff_toNat_lt, UInt32.toNat_add]
  rw [hlt, StaleWindow, Fresh, Nat.not_lt, realSecond_eq, realSecond_eq]
  constructor
  · rintro ⟨hend, hwin⟩
    exact ⟨hend, by omega⟩
  · rintro ⟨hend, hwin⟩
    exact ⟨hend, by omega⟩

/-! ## Every run -/

/-- A request that finds a cached row is answered from it only while the record is valid, just when it
does not come in the window after the end of the record. -/
theorem cached_row_answers_fresh (uv : LibUv) (hr : (serverStep uv).AnyRun s₀ s tr)
    (hlast : lastCached row tr = some (t, ttl))
    (hs : serverStep uv s (.request nread base addr clock) = some (s', o))
    (hfound : foundRow s (.request nread base addr clock) = some row) :
    (toClients o ≠ [] → Fresh t ttl (clock 0)) ↔ ¬ StaleWindow t ttl (clock 0) := by
  have hstored := stored_end hr hlast
  rw [staleWindow_iff]
  cases onReadRequest_cases hs with
  | ignored _ hacc => rw [foundRow, hacc] at hfound; cases hfound
  | ptr _ _ _ _ hacc => simp [foundRow, hacc] at hfound
  | answered _ _ _ _ row' _ _ hacc hptr _ hrow hvalid =>
      simp only [foundRow, hacc, hptr, ↓reduceIte, hrow, Option.join_some, Option.map_some,
        Option.some.injEq] at hfound
      subst hfound
      rw [hstored] at hvalid
      simp [toClients, hvalid]
  | missed _ _ _ _ hacc hptr _ hrow => simp [foundRow, hacc, hptr, hrow] at hfound
  | expired _ _ _ _ row' _ _ _ hacc hptr _ hrow hend =>
      simp only [foundRow, hacc, hptr, ↓reduceIte, hrow, Option.join_some, Option.map_some,
        Option.some.injEq] at hfound
      subst hfound
      rw [hstored] at hend
      simp [toClients, hend]

/-- The day after `jan31`, nineteen seconds later. -/
def feb1 : SystemTime :=
  { wYear := 2020, wMonth := 2, wDay := 1, wHour := 0, wMinute := 0, wSecond := 10,
    wMilliseconds := 0, milliseconds_lt := jan31.milliseconds_lt }

/-- A query and its response, which is valid for the given time, the newest first. -/
def cachedQuery (ttl : UInt8) : List Event :=
  [responseEvent 0 97 98 ttl [1, 2, 3, 4] jan31, queryEvent 7 97 98 client₁ jan31]

theorem cached_row_answers_fresh_example :
    ∃ s tr s' o, (serverStep dottedUv).AnyRun emptyServer s tr ∧
      serverStep dottedUv s (queryEvent 8 97 98 client₁ feb1) = some (s', o) ∧ toClients o ≠ [] ∧
      Fresh jan31 60 feb1 := by
  obtain ⟨hrun, -⟩ := Machine.run_after (serverStep dottedUv) Machine.always emptyServer
    (cachedQuery 60) (by decide +kernel)
  obtain ⟨s', hs⟩ := Machine.step_after (serverStep dottedUv)
    (Machine.stateAfter (serverStep dottedUv) Machine.always emptyServer (cachedQuery 60))
    (queryEvent 8 97 98 client₁ feb1) (by decide +kernel)
  have hsent : toClients (Machine.outputAfter (serverStep dottedUv)
      (Machine.stateAfter (serverStep dottedUv) Machine.always emptyServer (cachedQuery 60))
      (queryEvent 8 97 98 client₁ feb1)) ≠ [] := by decide +kernel
  have hlast : lastCached 0 (Machine.historyAfter (serverStep dottedUv) Machine.always emptyServer
      (cachedQuery 60)) = some (jan31, 60) := by decide +kernel
  have hfound : foundRow (Machine.stateAfter (serverStep dottedUv) Machine.always emptyServer
      (cachedQuery 60)) (queryEvent 8 97 98 client₁ feb1) = some 0 := by decide +kernel
  have hfresh := (cached_row_answers_fresh dottedUv hrun.any hlast hs hfound).mpr (by decide +kernel)
  exact ⟨_, _, _, _, hrun.any, hs, hsent, hfresh hsent⟩

/-- The record ends five seconds after `jan31`, and is still given out at `feb1`. -/
theorem cached_row_answers_late :
    ∃ s tr s' o, (serverStep dottedUv).AnyRun emptyServer s tr ∧ tr.map Prod.fst = cachedQuery 5 ∧
      lastCached 0 tr = some (jan31, 5) ∧
      serverStep dottedUv s (queryEvent 8 97 98 client₁ feb1) = some (s', o) ∧
      foundRow s (queryEvent 8 97 98 client₁ feb1) = some 0 ∧ toClients o ≠ [] ∧
      realMillisecond feb1 = realMillisecond jan31 + 19000 ∧ ¬ Fresh jan31 5 feb1 := by
  obtain ⟨hrun, hevents⟩ := Machine.run_after (serverStep dottedUv) Machine.always emptyServer
    (cachedQuery 5) (by decide +kernel)
  obtain ⟨s', hs⟩ := Machine.step_after (serverStep dottedUv)
    (Machine.stateAfter (serverStep dottedUv) Machine.always emptyServer (cachedQuery 5))
    (queryEvent 8 97 98 client₁ feb1) (by decide +kernel)
  exact ⟨_, _, _, _, hrun.any, hevents, by decide +kernel, hs, by decide +kernel, by decide +kernel,
    by decide +kernel, by decide +kernel⟩

end TermCollection.Dns
