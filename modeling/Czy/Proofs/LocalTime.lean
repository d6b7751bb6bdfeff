import Czy.Sanity.TimeZone
import Czy.Sanity.ZoneData
import Mathlib.Data.List.Chain

/-! `from_local_time` against `to_local_time`: the search by local time finds the type of
the instant again, or in the repeated hour the type that follows it. -/

namespace Czy.TimeZone

open Timeline

/-- From one type to the next the offset does not decrease, but by the hour at the end of
daylight saving time. -/
def Shift (a b : Localtime) : Prop :=
  a.gmtOffset ≤ b.gmtOffset ∨ a.isDst = true ∧ b.isDst = false ∧ b.gmtOffset + 3600 = a.gmtOffset

/-- A zone as the correction by an hour is written for. -/
structure Data.Regular (data : Data) : Prop extends data.Indexed where
  texts : ∀ ty ∈ data.localtimes, ty.arrbIdx ≤ data.abbreviation.length
  localtime : ∀ tr ∈ data.transitions, tr.localtime = tr.gmttime + (data.typeOf tr).gmtOffset
  spaced : data.transitions.IsChain fun a b => a.gmttime + 7200 ≤ b.gmttime
  shifts : (data.front :: data.transitions.map data.typeOf).IsChain Shift

/-- The same of a table of changes. -/
structure RegularChanges (cur : Localtime) (l : List (ℤ × Localtime)) : Prop where
  spaced : l.IsChain fun c d => c.1 + 7200 ≤ d.1
  shifts : (cur :: l.map Prod.snd).IsChain Shift

def localChanges (l : List (ℤ × Localtime)) : List (ℤ × Localtime) :=
  l.map fun c => (c.1 + c.2.gmtOffset, c.2)

variable {cur ty : Localtime} {g t : ℤ} {l : List (ℤ × Localtime)}

theorem mem_head_localChanges {c : ℤ × Localtime} (hc : c ∈ (localChanges l).head?) :
    ∃ d ∈ l.head?, c = (d.1 + d.2.gmtOffset, d.2) := by
  rw [localChanges, List.head?_map, Option.mem_def, Option.map_eq_some_iff] at hc
  obtain ⟨d, hd, rfl⟩ := hc
  exact ⟨d, hd, rfl⟩

theorem RegularChanges.shift (h : RegularChanges cur ((g, ty) :: l)) : Shift cur ty :=
  (List.isChain_cons.1 h.shifts).1 ty rfl

theorem RegularChanges.next (h : RegularChanges cur ((g, ty) :: l)) {c : ℤ × Localtime}
    (hc : c ∈ l.head?) : g + 7200 ≤ c.1 ∧ Shift ty c.2 := by
  refine ⟨(List.isChain_cons.1 h.spaced).1 c hc, ?_⟩
  refine (List.isChain_cons.1 (List.isChain_cons.1 h.shifts).2).1 c.2 ?_
  rw [List.head?_map, hc]
  rfl

theorem RegularChanges.tail (h : RegularChanges cur ((g, ty) :: l)) : RegularChanges ty l :=
  ⟨(List.isChain_cons.1 h.spaced).2, (List.isChain_cons.1 h.shifts).2⟩

theorem Shift.le {a b : Localtime} (h : Shift a b) : a.gmtOffset ≤ b.gmtOffset + 3600 := by
  rcases h with hle | ⟨-, -, heq⟩
  · omega
  · exact heq.ge

theorem RegularChanges.ascending (h : RegularChanges cur l) : l.Pairwise fun c d => c.1 < d.1 := by
  refine List.isChain_iff_pairwise.1 (h.spaced.imp fun c d hcd => ?_)
  omega

theorem RegularChanges.localAscending : ∀ {l : List (ℤ × Localtime)} {cur : Localtime},
    RegularChanges cur l → (localChanges l).Pairwise fun c d => c.1 < d.1 := by
  intro l cur h
  refine List.isChain_iff_pairwise.1 ?_
  induction l generalizing cur with
  | nil => exact .nil
  | cons c l ih =>
    refine List.isChain_cons.2 ⟨fun d hd => ?_, ih h.tail⟩
    obtain ⟨d, hin, rfl⟩ := mem_head_localChanges hd
    obtain ⟨hspaced, hshift⟩ := h.next hin
    have hle := hshift.le
    change c.1 + c.2.gmtOffset < d.1 + d.2.gmtOffset
    omega

theorem RegularChanges.local_le : ∀ {l : List (ℤ × Localtime)} {ty : Localtime} {g : ℤ},
    RegularChanges ty l → (∀ c ∈ l.head?, g + 7200 ≤ c.1) → g ≤ t →
    g + ty.gmtOffset ≤ t + (inForce t ty l).gmtOffset := by
  intro l
  induction l with
  | nil =>
    intro ty g _ _ hg
    rw [inForce]
    omega
  | cons c l ih =>
    intro ty g h hspaced hg
    obtain ⟨g', ty'⟩ := c
    have hnext : g + 7200 ≤ g' := hspaced _ rfl
    by_cases hle : g' ≤ t
    · rw [inForce_cons_of_le hle]
      have hrest := ih h.tail (fun c hc => (h.next hc).1) hle
      have hshift := h.shift.le
      omega
    · rw [inForce, if_neg hle]
      omega

/-- The instant is in the first pass of a repeated hour, and `found` is the type after it. -/
def Repeats (now found : Localtime) : Prop :=
  now.isDst = true ∧ found.isDst = false ∧ found.gmtOffset + 3600 = now.gmtOffset

/-- The search by local time, by induction on the changes: the type of the instant is found,
or in the repeated hour the next one, which is in force an hour later. -/
theorem RegularChanges.found : ∀ {l : List (ℤ × Localtime)} {cur : Localtime}, RegularChanges cur l →
    let now := inForce t cur l
    let found := inForce (t + now.gmtOffset) cur (localChanges l)
    found = now ∨ Repeats now found ∧ inForce (t + 3600) cur l = found := by
  intro l
  induction l with
  | nil => exact fun _ => .inl rfl
  | cons c l ih =>
    intro cur h
    obtain ⟨g, ty⟩ := c
    change let now := inForce t cur ((g, ty) :: l)
      let found := inForce (t + now.gmtOffset) cur ((g + ty.gmtOffset, ty) :: localChanges l)
      found = now ∨ Repeats now found ∧ inForce (t + 3600) cur ((g, ty) :: l) = found
    by_cases hg : g ≤ t
    · have hbegun := h.tail.local_le (fun c hc => (h.next hc).1) hg
      simp only [inForce_cons_of_le hg, inForce_cons_of_le hbegun,
        inForce_cons_of_le (show g ≤ t + 3600 by omega)]
      exact ih h.tail
    · rw [inForce, if_neg hg]
      by_cases hlocal : g + ty.gmtOffset ≤ t + cur.gmtOffset
      · -- the local time of the next type is reached before the type has begun
        right
        have hrepeats : Repeats cur ty := by
          rcases h.shift with hle | hrepeats
          · omega
          · exact hrepeats
        have heq := hrepeats.2.2
        have hlater : inForce (t + 3600) ty l = ty := inForce_before fun c hc => by
          have := (h.next hc).1
          omega
        have hbefore : inForce (t + cur.gmtOffset) ty (localChanges l) = ty := by
          refine inForce_before fun c hc => ?_
          obtain ⟨d, hin, rfl⟩ := mem_head_localChanges hc
          obtain ⟨hspaced, hshift⟩ := h.next hin
          have hle := hshift.le
          change t + cur.gmtOffset < d.1 + d.2.gmtOffset
          omega
        rw [inForce_cons_of_le hlocal, hbefore,
          inForce_cons_of_le (show g ≤ t + 3600 by omega), hlater]
        exact ⟨hrepeats, rfl⟩
      · left
        exact if_neg hlocal

variable {data : Data}

theorem changes_gmt (data : Data) :
    changes data ⟨true⟩ = data.transitions.map fun tr => (tr.gmttime, data.typeOf tr) := rfl

theorem Data.Regular.changes (h : data.Regular) :
    RegularChanges data.front (changes data ⟨true⟩) where
  spaced := (List.isChain_map _).2 h.spaced
  shifts := by
    rw [changes_gmt, List.map_map]
    exact h.shifts

theorem Data.Regular.changes_local (h : data.Regular) :
    TimeZone.changes data ⟨false⟩ = localChanges (TimeZone.changes data ⟨true⟩) := by
  rw [changes_gmt, localChanges, List.map_map]
  refine List.map_congr_left fun tr htr => ?_
  change (tr.localtime, data.typeOf tr) = _
  rw [h.localtime tr htr]
  rfl

theorem Data.Regular.findGmt (h : data.Regular) (t : ℤ) : findLocaltime data ⟨t, 0, 0⟩ ⟨true⟩ =
    .ok (inForce t data.front (TimeZone.changes data ⟨true⟩)) :=
  findLocaltime_eq h.toIndexed h.changes.ascending _

theorem Data.Regular.findLocal (h : data.Regular) (s : ℤ) : findLocaltime data ⟨0, s, 0⟩ ⟨false⟩ =
    .ok (inForce s data.front (localChanges (TimeZone.changes data ⟨true⟩))) := by
  rw [← h.changes_local]
  refine findLocaltime_eq h.toIndexed ?_ _
  rw [h.changes_local]
  exact h.changes.localAscending

section

variable {gmtimeR : ℤ → LocalTm} {timegm : LocalTm → ℤ}

/-- The fields that `to_local_time` gives for an instant at which `ty` is in force. -/
def localTmOf (gmtimeR : ℤ → LocalTm) (t : ℤ) (ty : Localtime) (zone : String) : LocalTm :=
  { gmtimeR (t + ty.gmtOffset) with
    isdst := if ty.isDst then 1 else 0, gmtoff := ty.gmtOffset, zone := zone }

theorem localTmOf_isdst (t : ℤ) (ty : Localtime) (zone : String) :
    (localTmOf gmtimeR t ty zone).isdst.value = if ty.isDst then 1 else 0 := by
  unfold localTmOf
  split <;> rfl

theorem Data.Regular.inForce_mem (h : data.Regular) (t : ℤ) :
    inForce t data.front (TimeZone.changes data ⟨true⟩) ∈ data.localtimes := by
  have hfound := h.findGmt t
  rcases findLocaltime_cases h.toIndexed ⟨t, 0, 0⟩ ⟨true⟩ with ⟨-, hok⟩ | ⟨i, tr, htr, -, -, hok⟩
  · rw [← Except.ok.inj (hok.symm.trans hfound)]
    exact List.mem_of_mem_head? h.front_eq
  · rw [← Except.ok.inj (hok.symm.trans hfound)]
    exact List.mem_of_getElem? (h.typeOf_eq (List.mem_of_getElem? htr))

theorem toLocalTime_of_found (hfound : findLocaltime data ⟨t, 0, 0⟩ ⟨true⟩ = .ok ty)
    (htext : ty.arrbIdx ≤ data.abbreviation.length) (gmtimeR : ℤ → LocalTm) :
    ∃ zone, toLocalTime gmtimeR ⟨some data⟩ t = .ok (localTmOf gmtimeR t ty zone) := by
  refine ⟨cString (data.abbreviation.drop ty.arrbIdx), ?_⟩
  rw [toLocalTime, check_bind (Option.some_ne_none data), deref_some, ok_bind, hfound, ok_bind,
    textAt, if_pos htext, deref_some, ok_bind]
  rfl

theorem Data.Regular.toLocalTime_eq (h : data.Regular) (gmtimeR : ℤ → LocalTm) (t : ℤ) :
    ∃ zone, toLocalTime gmtimeR ⟨some data⟩ t =
      .ok (localTmOf gmtimeR t (inForce t data.front (TimeZone.changes data ⟨true⟩)) zone) :=
  toLocalTime_of_found (h.findGmt t) (h.texts _ (h.inForce_mem t)) gmtimeR

/-- Every instant is read back from its local time: inside the repeated hour as well, and
before the first and behind the last transition. -/
theorem localTime_roundTrip {Represents : ℤ → Prop}
    (hinverse : ∀ s, Represents s → ∀ isdst gmtoff zone,
      timegm { gmtimeR s with isdst := isdst, gmtoff := gmtoff, zone := zone } = s)
    (h : data.Regular) (t : ℤ)
    (ht : ∀ ty, findLocaltime data ⟨t, 0, 0⟩ ⟨true⟩ = .ok ty → Represents (t + ty.gmtOffset)) :
    ∃ tm, toLocalTime gmtimeR ⟨some data⟩ t = .ok tm ∧
      fromLocalTime gmtimeR timegm ⟨some data⟩ tm = .ok t := by
  obtain ⟨zone, hto⟩ := h.toLocalTime_eq gmtimeR t
  have hfound := h.changes.found (t := t)
  dsimp only at hfound
  refine ⟨_, hto, ?_⟩
  generalize hnow : inForce t data.front (TimeZone.changes data ⟨true⟩) = now at hto hfound
  have hseconds : timegm (localTmOf gmtimeR t now zone) = t + now.gmtOffset :=
    hinverse _ (ht now (by rw [h.findGmt, hnow])) _ _ _
  rw [fromLocalTime, check_bind (Option.some_ne_none data), deref_some, ok_bind]
  simp only [hseconds, h.findLocal, ok_bind]
  generalize inForce (t + now.gmtOffset) data.front
    (localChanges (TimeZone.changes data ⟨true⟩)) = found at hfound
  rcases hfound with rfl | ⟨⟨hdst, hnot, heq⟩, hlater⟩
  · -- the type found is that of the instant, which the second conversion confirms
    have hback : t + found.gmtOffset - found.gmtOffset = t := by omega
    rw [hback, hto, ok_bind]
    cases hdst : found.isDst with
    | false =>
      have hisdst : (localTmOf gmtimeR t found zone).isdst.value = 0 := by simp [localTmOf_isdst, hdst]
      exact if_neg fun hne => hne hisdst
    | true =>
      have hisdst : (localTmOf gmtimeR t found zone).isdst.value = 1 := by simp [localTmOf_isdst, hdst]
      rw [if_pos (by rw [hisdst]; decide), if_neg (by rw [hisdst]; simp)]
      rfl
  · -- an hour later the next type is in force, with the same clock
    obtain ⟨zone', hto'⟩ := h.toLocalTime_eq gmtimeR (t + 3600)
    have hback : t + now.gmtOffset - found.gmtOffset = t + 3600 := by omega
    have hsame : t + 3600 + found.gmtOffset = t + now.gmtOffset := by omega
    rw [hlater] at hto'
    rw [hback, hto', ok_bind]
    have hisdst : (localTmOf gmtimeR t now zone).isdst.value = 1 := by simp [localTmOf_isdst, hdst]
    have hisdst' : (localTmOf gmtimeR (t + 3600) found zone').isdst.value = 0 := by
      simp [localTmOf_isdst, hnot]
    have hclock : (localTmOf gmtimeR (t + 3600) found zone').hour.value =
        (localTmOf gmtimeR t now zone).hour.value ∧
        (localTmOf gmtimeR (t + 3600) found zone').min.value =
        (localTmOf gmtimeR t now zone).min.value := by
      unfold localTmOf
      rw [hsame]
      exact ⟨rfl, rfl⟩
    rw [if_pos (by rw [hisdst]; decide), if_pos ⟨hisdst', hclock⟩]
    exact congrArg Except.ok (by omega)

end

def oneSummer : Data where
  transitions := [⟨1173596400, 1173582000, 1⟩, ⟨1194156000, 1194138000, 0⟩]
  localtimes := [⟨-18000, false, 0⟩, ⟨-14400, true, 4⟩]
  abbreviation := [69, 83, 84, 0, 69, 68, 84, 0]

/-- The UTC conversions of the source in the place of gmtime_r and timegm, and an instant on
either pass of the repeated hour. -/
theorem localTime_roundTrip_repeated :
    let gmtimeR := fun s : ℤ => (⟨toUtcTime s true, 0⟩ : LocalTm)
    let timegm := fun tm : LocalTm => (fromUtcTime tm.toTm).value
    (∃ tm, toLocalTime gmtimeR ⟨some oneSummer⟩ 1194154200 = .ok tm ∧
      fromLocalTime gmtimeR timegm ⟨some oneSummer⟩ tm = .ok 1194154200) ∧
    ∃ tm, toLocalTime gmtimeR ⟨some oneSummer⟩ 1194157800 = .ok tm ∧
      fromLocalTime gmtimeR timegm ⟨some oneSummer⟩ tm = .ok 1194157800 := by
  intro gmtimeR timegm
  have hregular : oneSummer.Regular :=
    { localtimes := by decide
      transitions := by decide
      texts := by decide
      localtime := by decide
      spaced := by decide
      shifts := by simp [oneSummer, Data.front, Data.typeOf, Shift] }
  have hinverse : ∀ s, (-31738 ≤ s / 86400 + 2440588 ∧ s / 86400 + 2440588 ≤ 536838867) →
      ∀ isdst gmtoff zone,
        timegm { gmtimeR s with isdst := isdst, gmtoff := gmtoff, zone := zone } = s := by
    rintro s ⟨hlo, hhi⟩ isdst gmtoff zone
    obtain ⟨time, rfl, hshows, -⟩ := toUtcTime_is hlo hhi
    rw [time.seconds_div] at hlo hhi
    obtain ⟨hyear, hmon, hmday, hhour, hmin, hsec⟩ := hshows true
    exact (fromUtcTime_is ⟨hyear, hmon, hmday, hhour, hmin, hsec⟩ (by omega) hhi).1
  refine ⟨localTime_roundTrip hinverse hregular 1194154200 fun ty hty => ?_,
    localTime_roundTrip hinverse hregular 1194157800 fun ty hty => ?_⟩
  · obtain rfl : ty = ⟨-14400, true, 4⟩ := by
      rw [show findLocaltime oneSummer ⟨1194154200, 0, 0⟩ ⟨true⟩ = .ok ⟨-14400, true, 4⟩ by
        decide] at hty
      exact (Except.ok.inj hty).symm
    decide
  · obtain rfl : ty = ⟨-18000, false, 0⟩ := by
      rw [show findLocaltime oneSummer ⟨1194157800, 0, 0⟩ ⟨true⟩ = .ok ⟨-18000, false, 0⟩ by
        decide] at hty
      exact (Except.ok.inj hty).symm
    decide

end Czy.TimeZone
