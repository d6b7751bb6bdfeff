import Czy.Sanity.TimeZone

/-! `to_utc_time` and `from_utc_time` are inverse to each other, before 1970 as after it. -/

namespace Czy.TimeZone

/-- From a `time_t` to the fields and back, and from the fields to a `time_t` and back. -/
theorem utcTime_roundTrip :
    (∀ t : ℤ, -31738 ≤ t / 86400 + 2440588 → t / 86400 + 2440588 ≤ 536838867 →
      (∃ time : Gregorian.Time, (toUtcTime t true).Shows time ∧
        (toUtcTime t true).yday.Is time.date.dayOfYear) ∧
      (fromUtcTime (toUtcTime t true)).Is t) ∧
    ∀ (utc : Tm) (time : Gregorian.Time) (yday : Bool), utc.Shows time →
      -31738 ≤ time.date.dayNumber → time.date.dayNumber ≤ 536838867 →
      (fromUtcTime utc).ok = true ∧ (toUtcTime (fromUtcTime utc) yday).Shows time := by
  constructor
  · intro t hlo hhi
    obtain ⟨time, rfl, hshows, hyday⟩ := toUtcTime_is hlo hhi
    rw [time.seconds_div] at hlo hhi
    exact ⟨⟨time, hshows true, hyday⟩, fromUtcTime_is (hshows true) (by omega) hhi⟩
  · intro utc time yday hshows hlo hhi
    have hfrom := fromUtcTime_is hshows (by omega) hhi
    refine ⟨hfrom.2, ?_⟩
    have hdiv := time.seconds_div
    obtain ⟨time', hseconds, hshows', -⟩ := toUtcTime_is (t := time.seconds) (by omega) (by omega)
    obtain rfl := Gregorian.Time.seconds_injective hseconds
    rw [hfrom.eq_of (by omega)]
    exact hshows' yday

theorem utcTime_roundTrip_negative :
    (fromUtcTime (toUtcTime (-1 : ℤ) true)).Is (-1) ∧
    (toUtcTime (fromUtcTime { Tm.zero with year := (-6699 : ℤ), mday := 1 }) false).Shows
      ⟨⟨-4799, 1, 1, by decide⟩, 0, 0, 0, by decide⟩ := by
  refine ⟨(utcTime_roundTrip.1 (-1) (by decide) (by decide)).2, ?_⟩
  refine (utcTime_roundTrip.2 _ ⟨⟨-4799, 1, 1, by decide⟩, 0, 0, 0, by decide⟩ false ?_
    (by decide) (by decide)).2
  exact ⟨⟨rfl, rfl⟩, ⟨rfl, rfl⟩, ⟨rfl, rfl⟩, ⟨rfl, rfl⟩, ⟨rfl, rfl⟩, ⟨rfl, rfl⟩⟩

end Czy.TimeZone
