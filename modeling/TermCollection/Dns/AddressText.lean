import TermCollection.Lib.SelfDelimiting
import TermCollection.Dns.Freshness
import TermCollection.Dns.Lemmas.LocalReplies
import TermCollection.Dns.ResponseBounds

/-!
# Addresses that are read back or shown

The text of an IPv4 address is stored and read back for a later reply. The text of an IPv6 address is only
shown: of its groups that are zero just the first leaves a trace.
-/

namespace TermCollection.Dns

variable {base base' data data' : List UInt8} {ws ws' : List UInt16} {w : UInt16} {text : CString}
variable {start start' n m : Nat} {flag : Bool}

/-! ## IPv4 -/

theorem decimalText_quad (b₀ b₁ b₂ b₃ : UInt8) : decimalText [b₀, b₁, b₂, b₃] =
    decimal b₀.toNat ++ (46 : UInt8) :: (decimal b₁.toNat ++ (46 : UInt8) ::
      (decimal b₂.toNat ++ (46 : UInt8) :: decimal b₃.toNat)) := by
  simp [decimalText]

theorem length_decimalText_quad (b₀ b₁ b₂ b₃ : UInt8) : (decimalText [b₀, b₁, b₂, b₃]).length < 16 := by
  have hlen : ∀ b : UInt8, (decimal b.toNat).length ≤ 3 := fun b => (decimal_byte b.toNat b.toNat_lt).2.1
  have h₀ := hlen b₀
  have h₁ := hlen b₁
  have h₂ := hlen b₂
  have h₃ := hlen b₃
  rw [decimalText_quad]
  simp only [List.length_append, List.length_cons]
  omega

theorem inet_addr_decimalText (b₀ b₁ b₂ b₃ : UInt8) :
    inet_addr_t (decimalText [b₀, b₁, b₂, b₃]) = [b₀, b₁, b₂, b₃] := by
  rw [decimalText_quad, inet_addr_t, inetBytes_dot, inetBytes_dot, inetBytes_dot, inetBytes_last]

/-- A record of type A with the four bytes is read as their text. -/
theorem readAnswer_quad {off : Nat} {ttl : UInt32} {b₀ b₁ b₂ b₃ : UInt8}
    (htype : read2 base (off + 2) = some (nhswap_s typeA))
    (httl : read4 base (off + 6) = some (nhswap_l ttl))
    (hsize : read2 base (off + 10) = some (nhswap_s 4))
    (hdata : slice base (off + 12) 4 = some [b₀, b₁, b₂, b₃]) :
    readAnswer base off = some (.a ttl (decimalText [b₀, b₁, b₂, b₃]), off + 16) := by
  have hlen := read4_range.mp ⟨_, httl⟩
  obtain ⟨name, hname⟩ := read2_range.mpr (show off + 2 ≤ base.length by omega)
  obtain ⟨cls, hcls⟩ := read2_range.mpr (show off + 4 + 2 ≤ base.length by omega)
  have htext : textA [b₀, b₁, b₂, b₃] = some (decimalText [b₀, b₁, b₂, b₃]) :=
    if_pos (Nat.lt_trans (length_decimalText_quad b₀ b₁ b₂ b₃) (by decide))
  have hfour : UInt16.toNat 4 = 4 := by decide
  simp only [readAnswer, hname, htype, hcls, httl, hsize, nhswap_s_nhswap_s, nhswap_l_nhswap_l,
    Option.bind_eq_bind, Option.bind_some, ↓reduceIte, hfour, hdata, htext]

/-- An answer of type A is stored in the next row when a lookup does not find the name of the request. -/
theorem cacheAnswer_stores {s s' : Server} {temp : Nat} {time : SystemTime} {ttl : UInt32} {o : List Output}
    (h : cacheAnswer s temp time (.a ttl text) = some (s', o)) :
    if findValueByKey s.str s.dnsHashTable (s.idTable temp).url = some none then
      o = [.cached s.dnsRowCount (s.idTable temp).url text ttl time] ∧
        (s'.dnsTable s.dnsRowCount).data = text
    else o = [] ∧ s' = s := by
  simp only [cacheAnswer, Option.bind_eq_bind, Option.bind_eq_some_iff] at h
  obtain ⟨found, hfound, h⟩ := h
  cases found with
  | some row =>
      cases h
      rw [hfound, if_neg (by simp)]
      exact ⟨rfl, rfl⟩
  | none =>
      dsimp only at h
      split at h
      · simp only [Option.bind_eq_some_iff, Option.some.injEq, Prod.mk.injEq, Prod.exists] at h
        obtain ⟨r, table, hinsert, rfl, rfl⟩ := h
        rw [if_pos hfound]
        exact ⟨rfl, by simp [Server.cacheRow]⟩
      · cases h

/-- A request that finds the text of a row gets the address that the text stands for. -/
theorem reply_ends_with_address {uv : LibUv} {s s' : Server} {nread : Int} {addr dest : SockAddrIn}
    {clock : Nat → SystemTime} {o : List Output} {row : Nat}
    (h : onReadRequest uv s nread base addr clock = some (s', o)) (hdata : (dest, data) ∈ toClients o)
    (hrow : foundRow s (.request nread base addr clock) = some row) :
    data.drop (nread.toNat + 12) = inet_addr_t (s.dnsTable row).data := by
  have hdrop : ∀ answerNum ip, acceptedRequest (.request nread base addr clock) ≠ none →
      (replyBytes (base.take nread.toNat) answerNum ip).drop (nread.toNat + 12) = ip := by
    intro answerNum ip hacc
    obtain ⟨⟨id, url, type⟩, hacc⟩ := Option.ne_none_iff_exists'.mp hacc
    have hlt := lt_nread_of_accepted hacc
    have hlength : (base.take nread.toNat).length = nread.toNat :=
      List.length_take_of_le (nread_le_of_accepted hacc)
    have hheader : 8 ≤ (base.take nread.toNat).length := by omega
    have hreply := drop_replyBytes answerNum ip hheader
    rw [hlength] at hreply
    rw [← List.drop_drop, hreply]
    rfl
  cases localReply_of_step h hdata with
  | ptr id url result hacc =>
      rw [foundRow, hacc] at hrow
      cases hrow
  | row id url type node row' hacc hptr hfound httl =>
      rw [hdrop _ _ (by rw [hacc]; exact Option.some_ne_none _)]
      simp only [foundRow, hacc, hptr, ↓reduceIte, hfound, Option.join_some, Option.map_some,
        Option.some.injEq] at hrow
      rw [hrow]

/-- The text of the four bytes of an address is what a record of type A is read as, and fits. It is stored
when the name of the request is not found, and stays in the row until the row is written again; and a reply
from a row with it ends with the four bytes. -/
theorem cached_address_round_trip (b₀ b₁ b₂ b₃ : UInt8) :
    ∃ text, textA [b₀, b₁, b₂, b₃] = some text ∧ text.length < 16 ∧
      inet_addr_t text = [b₀, b₁, b₂, b₃] ∧
      (∀ base off ttl, read2 base (off + 2) = some (nhswap_s typeA) →
        read4 base (off + 6) = some (nhswap_l ttl) → read2 base (off + 10) = some (nhswap_s 4) →
        slice base (off + 12) 4 = some [b₀, b₁, b₂, b₃] →
        readAnswer base off = some (.a ttl text, off + 16)) ∧
      (∀ s temp time ttl s' o, cacheAnswer s temp time (.a ttl text) = some (s', o) →
        if findValueByKey s.str s.dnsHashTable (s.idTable temp).url = some none then
          o = [.cached s.dnsRowCount (s.idTable temp).url text ttl time] ∧
            (s'.dnsTable s.dnsRowCount).data = text
        else o = [] ∧ s' = s) ∧
      (∀ uv s₀ s tr row entry, (serverStep uv).AnyRun s₀ s tr → lastWritten row tr = some entry →
        s.dnsTable row = entry) ∧
      ∀ uv s nread base addr clock s' o dest data row,
        onReadRequest uv s nread base addr clock = some (s', o) → (dest, data) ∈ toClients o →
        foundRow s (.request nread base addr clock) = some row → (s.dnsTable row).data = text →
        data.drop (nread.toNat + 12) = [b₀, b₁, b₂, b₃] := by
  have hshort := length_decimalText_quad b₀ b₁ b₂ b₃
  refine ⟨decimalText [b₀, b₁, b₂, b₃], if_pos ?_, hshort, inet_addr_decimalText b₀ b₁ b₂ b₃, ?_, ?_, ?_, ?_⟩
  · exact Nat.lt_trans hshort (by decide)
  · intro base off ttl htype httl hsize hdata
    exact readAnswer_quad htype httl hsize hdata
  · intro s temp time ttl s' o h
    exact cacheAnswer_stores h
  · intro uv s₀ s tr row entry hr hlast
    exact keeps_run hr entry hlast
  · intro uv s nread base addr clock s' o dest data row h hdata hrow htext
    rw [reply_ends_with_address h hdata hrow, htext, inet_addr_decimalText]

/-! ## Hexadecimal numbers -/

def hexDigit (n : Nat) : UInt8 := UInt8.ofNat n.digitChar.toNat

theorem hexDigit_spec : ∀ n < 16, hexDigit n ≠ 58 ∧ ∀ m < 16, hexDigit n = hexDigit m → n = m := by
  decide

theorem hexadecimal_eq (n : Nat) :
    hexadecimal n = if n < 16 then [hexDigit n] else hexadecimal (n / 16) ++ [hexDigit (n % 16)] := by
  rw [hexadecimal, Nat.toDigits_eq_if (by decide)]
  split
  · rfl
  · rw [List.map_append, hexadecimal]
    rfl

theorem hexadecimal_ne_nil (n : Nat) : hexadecimal n ≠ [] := by
  rw [hexadecimal, ne_eq, List.map_eq_nil_iff]
  exact Nat.toDigits_ne_nil

theorem colon_not_mem_hexadecimal (n : Nat) : 58 ∉ hexadecimal n := by
  induction n using Nat.strongRecOn with
  | ind n ih =>
      rw [hexadecimal_eq]
      split
      · rename_i hsmall
        rw [List.mem_singleton]
        exact fun h => (hexDigit_spec n hsmall).1 h.symm
      · rename_i hlarge
        rw [List.mem_append, List.mem_singleton]
        rintro (h | h)
        · exact ih (n / 16) (by omega) h
        · exact (hexDigit_spec (n % 16) (by omega)).1 h.symm

theorem hexadecimal_injective (h : hexadecimal n = hexadecimal m) : n = m := by
  induction n using Nat.strongRecOn generalizing m with
  | ind n ih =>
      have hshort : ∀ {k d c}, hexadecimal k ++ [d] ≠ [c] := by
        intro k d c heq
        have hlength := congrArg List.length heq
        rw [List.length_append, List.length_singleton, List.length_singleton] at hlength
        exact hexadecimal_ne_nil k (List.eq_nil_of_length_eq_zero (by omega))
      rw [hexadecimal_eq n, hexadecimal_eq m] at h
      split at h
      · rename_i hn
        split at h
        · rename_i hm
          exact (hexDigit_spec n hn).2 m hm (List.head_eq_of_cons_eq h)
        · exact absurd h.symm hshort
      · rename_i hn
        split at h
        · exact absurd h hshort
        · rename_i hm
          obtain ⟨hdiv, hmod⟩ := List.append_inj' h rfl
          have hdiv := ih (n / 16) (by omega) hdiv
          have hmod := (hexDigit_spec (n % 16) (by omega)).2 (m % 16) (by omega) (List.head_eq_of_cons_eq hmod)
          omega

theorem length_hexadecimal_word (w : UInt16) : (hexadecimal w.toNat).length ≤ 4 := by
  rw [hexadecimal, List.length_map, Nat.length_toDigits_le_iff (by decide) (by decide)]
  exact w.toNat_lt

/-! ## IPv6 -/

/-- The groups that leave a trace in the text: all that are not zero, and the first zero. -/
def shown : Bool → List UInt16 → List (Option UInt16)
  | _, [] => []
  | firstZFlag, w :: ws =>
      if w = 0 then (if firstZFlag then [] else [none]) ++ shown true ws else some w :: shown firstZFlag ws

/-- The trace of a group, with a colon behind it. -/
def trace (group : Option UInt16) : CString := (group.elim [] fun w => hexadecimal w.toNat) ++ [58]

/-- The colon that is left out behind the last group. -/
def lastColon (ws : List UInt16) : CString := if ∃ w ∈ ws.getLast?, w ≠ 0 then [58] else []

theorem lastColon_cons (w : UInt16) (hws : ws ≠ []) : lastColon (w :: ws) = lastColon ws := by
  rw [lastColon, lastColon, List.getLast?_cons_of_ne_nil hws]

theorem textAAAA_trace (flag : Bool) (ws : List UInt16) :
    textAAAA false flag ws ++ lastColon ws = (shown flag ws).flatMap trace := by
  induction ws generalizing flag with
  | nil => rfl
  | cons w ws ih =>
      rw [textAAAA, shown]
      by_cases hws : ws = []
      · subst hws
        by_cases hw : w = 0 <;> cases flag <;> simp [hw, textAAAA, shown, lastColon, trace]
      · rw [lastColon_cons w hws]
        by_cases hw : w = 0
        · cases flag <;> simp [hw, ih, trace]
        · simp [hw, hws, ih, trace]

theorem colon_not_mem_trace (group : Option UInt16) : 58 ∉ group.elim [] fun w => hexadecimal w.toNat := by
  cases group with
  | none => exact List.not_mem_nil
  | some w => exact colon_not_mem_hexadecimal w.toNat

theorem digits_injective :
    Function.Injective fun group : Option UInt16 => group.elim [] fun w => hexadecimal w.toNat := by
  intro group group' h
  cases group with
  | none =>
      cases group' with
      | none => rfl
      | some w' => exact absurd h.symm (hexadecimal_ne_nil w'.toNat)
  | some w =>
      cases group' with
      | none => exact absurd h (hexadecimal_ne_nil w.toNat)
      | some w' => rw [UInt16.toNat_inj.mp (hexadecimal_injective h)]

theorem selfDelimiting_trace : SelfDelimiting trace := .of_delimiter digits_injective colon_not_mem_trace

theorem flatMap_trace_injective : Function.Injective (List.flatMap trace) :=
  selfDelimiting_trace.flatMap_injective fun group => by simp [trace]

/-! ## What is shown -/

theorem shown_true (ws : List UInt16) : shown true ws = (ws.filter (· ≠ 0)).map some := by
  induction ws with
  | nil => rfl
  | cons w ws ih => by_cases hw : w = 0 <;> simp [shown, hw, ih]

/-- The groups before the first zero, and behind it those that are not zero. -/
theorem shown_false (ws : List UInt16) : shown false ws = (ws.takeWhile (· ≠ 0)).map some ++
    if 0 ∈ ws then none :: ((ws.dropWhile (· ≠ 0)).filter (· ≠ 0)).map some else [] := by
  induction ws with
  | nil => rfl
  | cons w ws ih =>
      by_cases hw : w = 0
      · simp [shown, hw, shown_true]
      · simp [shown, hw, ih, Ne.symm hw]

theorem getLast_shown (flag : Bool) (hw : w ≠ 0) (h : ws.getLast? = some w) :
    (shown flag ws).getLast? = some (some w) := by
  obtain ⟨init, rfl⟩ := List.getLast?_eq_some_iff.mp h
  clear h
  induction init generalizing flag with
  | nil => simp [shown, hw]
  | cons w' init ih => by_cases hw' : w' = 0 <;> cases flag <;> simp [shown, hw', List.getLast?_cons, ih]

/-- Groups of the same number that come out alike: those before the first zero are the same, those that
are not zero are the same, and the last one is zero in both or in neither. -/
structure ShownAlike (ws ws' : List UInt16) : Prop where
  before : ws.takeWhile (· ≠ 0) = ws'.takeWhile (· ≠ 0)
  groups : ws.filter (· ≠ 0) = ws'.filter (· ≠ 0)
  last : ws.getLast? = some 0 ↔ ws'.getLast? = some 0

instance (ws ws' : List UInt16) : Decidable (ShownAlike ws ws') :=
  decidable_of_iff (ws.takeWhile (· ≠ 0) = ws'.takeWhile (· ≠ 0) ∧
      ws.filter (· ≠ 0) = ws'.filter (· ≠ 0) ∧ (ws.getLast? = some 0 ↔ ws'.getLast? = some 0))
    ⟨fun ⟨h₁, h₂, h₃⟩ => ⟨h₁, h₂, h₃⟩, fun h => ⟨h.before, h.groups, h.last⟩⟩

theorem zero_mem_iff (ws : List UInt16) : 0 ∈ ws ↔ (ws.takeWhile (· ≠ 0)).length < ws.length := by
  induction ws with
  | nil => simp
  | cons w ws ih =>
      by_cases hw : w = 0
      · simp [hw]
      · simp [hw, Ne.symm hw, ih]

theorem filterMap_shown (flag : Bool) (ws : List UInt16) :
    (shown flag ws).filterMap id = ws.filter (· ≠ 0) := by
  induction ws generalizing flag with
  | nil => rfl
  | cons w ws ih => by_cases hw : w = 0 <;> cases flag <;> simpa [shown, hw] using ih _

theorem takeWhile_shown (ws : List UInt16) :
    (shown false ws).takeWhile Option.isSome = (ws.takeWhile (· ≠ 0)).map some := by
  induction ws with
  | nil => rfl
  | cons w ws ih => by_cases hw : w = 0 <;> simp [shown, hw, ih]

theorem filter_eq_append (ws : List UInt16) : ws.filter (· ≠ 0) =
    ws.takeWhile (· ≠ 0) ++ (ws.dropWhile (· ≠ 0)).filter (· ≠ 0) := by
  induction ws with
  | nil => rfl
  | cons w ws ih =>
      by_cases hw : w = 0
      · simp [hw]
      · simp [hw] at ih ⊢
        exact ih

theorem shown_eq_iff (hlength : ws.length = ws'.length) : shown false ws = shown false ws' ↔
    ws.takeWhile (· ≠ 0) = ws'.takeWhile (· ≠ 0) ∧ ws.filter (· ≠ 0) = ws'.filter (· ≠ 0) := by
  constructor
  · intro h
    refine ⟨List.map_injective_iff.mpr (Option.some_injective _) ?_, ?_⟩
    · rw [← takeWhile_shown, ← takeWhile_shown, h]
    · rw [← filterMap_shown false, ← filterMap_shown false, h]
  · rintro ⟨hbefore, hgroups⟩
    have hzero : 0 ∈ ws ↔ 0 ∈ ws' := by rw [zero_mem_iff, zero_mem_iff, hbefore, hlength]
    rw [filter_eq_append ws, filter_eq_append ws', hbefore, List.append_cancel_left_eq] at hgroups
    rw [shown_false, shown_false, hbefore, hgroups, if_congr hzero rfl rfl]

theorem lastColon_eq (hws : ws ≠ []) : lastColon ws = if ws.getLast? = some 0 then [] else [58] := by
  rw [lastColon, List.getLast?_eq_some_getLast hws]
  by_cases hzero : ws.getLast hws = 0 <;> simp [hzero]

/-- Texts that are the same do not differ in the last colon. -/
theorem lastColon_of_text (htext : textAAAA false false ws = textAAAA false false ws')
    (hlast : ws.getLast? = some 0) : ws'.getLast? = some 0 ∨ ws' = [] := by
  by_contra hne
  obtain ⟨hzero, hws'⟩ := not_or.mp hne
  have hws : ws ≠ [] := fun hnil => by rw [hnil] at hlast; cases hlast
  have htrace := textAAAA_trace false ws
  have htrace' := textAAAA_trace false ws'
  rw [lastColon_eq hws, if_pos hlast, List.append_nil] at htrace
  rw [lastColon_eq hws', if_neg hzero, ← htext, htrace] at htrace'
  have hshown : shown false ws' = shown false ws ++ [none] := by
    refine flatMap_trace_injective ?_
    rw [← htrace', List.flatMap_append]
    rfl
  obtain ⟨w, hw⟩ := Option.ne_none_iff_exists'.mp (mt List.getLast?_eq_none_iff.mp hws')
  have hw' : w ≠ 0 := fun h => hzero (h ▸ hw)
  have hend := getLast_shown false hw' hw
  rw [hshown, List.getLast?_concat] at hend
  cases hend

/-- The texts of groups of the same number are the same if and only if the groups come out alike. -/
theorem textAAAA_eq_iff (hlength : ws.length = ws'.length) :
    textAAAA false false ws = textAAAA false false ws' ↔ ShownAlike ws ws' := by
  by_cases hws : ws = []
  · subst hws
    rw [List.eq_nil_of_length_eq_zero hlength.symm]
    exact iff_of_true rfl ⟨rfl, rfl, Iff.rfl⟩
  have hws' : ws' ≠ [] := by
    intro hnil
    rw [hnil] at hlength
    exact hws (List.eq_nil_of_length_eq_zero hlength)
  constructor
  · intro htext
    have hlast : ws.getLast? = some 0 ↔ ws'.getLast? = some 0 :=
      ⟨fun h => (lastColon_of_text htext h).resolve_right hws',
        fun h => (lastColon_of_text htext.symm h).resolve_right hws⟩
    have hshown : shown false ws = shown false ws' := by
      refine flatMap_trace_injective ?_
      rw [← textAAAA_trace, ← textAAAA_trace, htext, lastColon_eq hws, lastColon_eq hws',
        if_congr hlast rfl rfl]
    obtain ⟨hbefore, hgroups⟩ := (shown_eq_iff hlength).mp hshown
    exact ⟨hbefore, hgroups, hlast⟩
  · intro h
    have hshown := (shown_eq_iff hlength).mpr ⟨h.before, h.groups⟩
    have htrace := textAAAA_trace false ws
    rw [hshown, ← textAAAA_trace, lastColon_eq hws, lastColon_eq hws', if_congr h.last rfl rfl,
      List.append_cancel_right_eq] at htrace
    exact htrace

/-! ## The data of a record -/

/-- The groups of an address. -/
def groups : List UInt8 → List UInt16
  | hi :: lo :: data => nhswap_s (hi.toUInt16 ||| (lo.toUInt16 <<< 8)) :: groups data
  | _ => []

theorem wordsAt_groups (pre post : List UInt8) : ∀ (n : Nat) (data : List UInt8), data.length = 2 * n →
    wordsAt (pre ++ (data ++ post)) n pre.length = some (groups data)
  | 0, data, h => by
      rw [List.eq_nil_of_length_eq_zero h]
      rfl
  | n + 1, [], h => by cases h
  | n + 1, [b], h => by
      rw [List.length_singleton] at h
      omega
  | n + 1, hi :: lo :: data, h => by
      have hread : read2 (pre ++ (hi :: lo :: data ++ post)) pre.length =
          some (hi.toUInt16 ||| (lo.toUInt16 <<< 8)) := by
        simp [read2]
      have hlength : data.length = 2 * n := by
        rw [List.length_cons, List.length_cons] at h
        omega
      have hrest := wordsAt_groups (pre ++ [hi, lo]) post n data hlength
      rw [List.append_assoc, List.length_append] at hrest
      rw [wordsAt, hread]
      exact congrArg (fun words : Option (List UInt16) => words.bind fun words => some (_ :: words)) hrest

theorem length_textAAAA (flag : Bool) (ws : List UInt16) :
    (textAAAA false flag ws).length ≤ 5 * ws.length := by
  induction ws generalizing flag with
  | nil => exact Nat.le_refl _
  | cons w ws ih =>
      have hhex := length_hexadecimal_word w
      rw [textAAAA, List.length_cons]
      split
      · have hrest := ih true
        rw [List.length_append]
        split <;> simp <;> omega
      · have hrest := ih flag
        rw [List.length_append, List.length_append]
        split <;> simp <;> omega

theorem length_groups (n : Nat) (h : data.length = 2 * n) : (groups data).length = n :=
  length_wordsAt (wordsAt_groups [] [] n data h)

theorem textAAAALoop_slice (h : slice base start 16 = some data) :
    textAAAALoop base start 16 17 0 false [] = some (textAAAA false false (groups data)) ∧
      (groups data).length = 8 := by
  unfold slice at h
  split at h
  · rename_i hfits
    obtain rfl := Option.some.inj h
    have hstart : (base.take start).length = start := List.length_take_of_le (by omega)
    have hlength : ((base.drop start).take 16).length = 2 * 8 := by
      rw [List.length_take_of_le (by rw [List.length_drop]; omega)]
    have hwords := wordsAt_groups (base.take start) ((base.drop start).drop 16) 8 _ hlength
    rw [List.take_append_drop, List.take_append_drop, hstart] at hwords
    have hcount := length_groups 8 hlength
    have hshort := length_textAAAA false (groups ((base.drop start).take 16))
    refine ⟨?_, hcount⟩
    rw [textAAAALoop_eq [] (by decide : 8 = (16 + 1 - 0) / 2) (by decide) rfl, Nat.add_zero, hwords,
      Option.bind_some, List.nil_append]
    refine if_pos (Nat.lt_of_le_of_lt hshort ?_)
    rw [hcount]
    decide
  · cases h

/-- The texts of two addresses are different if and only if the groups before the first zero are, or
those that are not zero, or just one of them ends with a zero. -/
theorem ipv6_texts_differ (h : slice base start 16 = some data) (h' : slice base' start' 16 = some data') :
    ∃ text text', textAAAALoop base start 16 17 0 false [] = some text ∧
      textAAAALoop base' start' 16 17 0 false [] = some text' ∧
      (text ≠ text' ↔ ¬ ShownAlike (groups data) (groups data')) := by
  obtain ⟨htext, hlength⟩ := textAAAALoop_slice h
  obtain ⟨htext', hlength'⟩ := textAAAALoop_slice h'
  exact ⟨_, _, htext, htext', not_congr (textAAAA_eq_iff (hlength.trans hlength'.symm))⟩

/-- The addresses `1:0:2:0:0:0:0:3` and `1:0:0:2:0:0:0:3`. -/
def ipv6First : List UInt8 := [0, 1, 0, 0, 0, 2, 0, 0, 0, 0, 0, 0, 0, 0, 0, 3]

def ipv6Second : List UInt8 := [0, 1, 0, 0, 0, 0, 0, 2, 0, 0, 0, 0, 0, 0, 0, 3]

theorem ipv6_texts_differ_example : slice ipv6First 0 16 = some ipv6First ∧
    slice (ipv6First.map (· + 1)) 0 16 = some (ipv6First.map (· + 1)) ∧
    ∃ text text', textAAAALoop ipv6First 0 16 17 0 false [] = some text ∧
      textAAAALoop (ipv6First.map (· + 1)) 0 16 17 0 false [] = some text' ∧
      (text ≠ text' ↔ ¬ ShownAlike (groups ipv6First) (groups (ipv6First.map (· + 1)))) :=
  ⟨by decide, by decide, ipv6_texts_differ (by decide) (by decide)⟩

/-- Both are shown as `1::2:3`. -/
theorem ipv6_texts_coincide : ipv6First ≠ ipv6Second ∧
    textAAAALoop ipv6First 0 16 17 0 false [] = some [49, 58, 58, 50, 58, 51] ∧
    textAAAALoop ipv6Second 0 16 17 0 false [] = some [49, 58, 58, 50, 58, 51] := by
  decide +kernel

end TermCollection.Dns
