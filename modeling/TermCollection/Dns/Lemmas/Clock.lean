import TermCollection.Dns.Server

/-!
# The second count of the clock

For a valid time the conversions to bytes and to 32 bits lose nothing.
-/

namespace TermCollection.Dns

theorem wDay_bounds (t : SystemTime) : 1 ≤ t.wDay ∧ t.wDay ≤ 31 :=
  ⟨t.day_range.1, Nat.le_trans t.day_range.2 (daysInMonth_le ..)⟩

theorem now_toNat (t : SystemTime) :
    (now t).toNat = t.wDay * 86400 + t.wHour * 3600 + t.wMinute * 60 + t.wSecond := by
  have hd := wDay_bounds t
  have hh := t.hour_lt
  have hm := t.minute_lt
  have hs := t.second_lt
  have hbyte : ∀ n < 60, (UInt8.ofNat n).toNat = n := fun n hn =>
    UInt8.toNat_ofNat_of_lt' (Nat.lt_trans hn (by decide))
  have hsize : UInt32.size = 4294967296 := rfl
  simp only [now, toSecond, syncTime, hbyte t.wDay (by omega), hbyte t.wHour (by omega),
    hbyte t.wMinute hm, hbyte t.wSecond hs]
  rw [UInt32.toNat_ofNat_of_lt' (by omega)]
  omega

/-- Every day of a month is later than the zero of a row that was never filled. -/
theorem le_now (t : SystemTime) : 86400 ≤ (now t).toNat := by
  have hd := wDay_bounds t
  rw [now_toNat]
  omega

theorem now_lt (t : SystemTime) : (now t).toNat < 2764800 := by
  have hd := wDay_bounds t
  have hh := t.hour_lt
  have hm := t.minute_lt
  have hs := t.second_lt
  rw [now_toNat]
  omega

end TermCollection.Dns
