import Czy.Sanity.ZoneFile

/-! Reading a zone file: what a complete file leaves in `Data`, and which files leave a zone
that can be used. -/

namespace Czy

namespace TimeZone

/-- The reader inverts the layout: the types and the characters of the file, and a transition
for each of its times, with the local time by the offset of its type. -/
theorem readTimeZoneFile_encode (tz : TZif) (trailing : List UInt8) :
    ∃ data, readTimeZoneFile (some (tz.encode ++ trailing)) Data.new = .ok (true, data) ∧
      data.localtimes =
        tz.types.map (fun ty => ⟨ty.gmtoff.toInt, ty.isdst != 0, ty.abbrind.toNat⟩) ∧
      data.abbreviation = tz.chars ∧
      List.Forall₂ (fun tr transition => ∃ ty, tz.types[tr.2.toNat]? = some ty ∧
        transition = ⟨tr.1.toInt, tr.1.toInt + ty.gmtoff.toInt, tr.2.toNat⟩)
        tz.transitions data.transitions := by
  refine ⟨tz.data, ?_, rfl, rfl, ?_⟩
  · rw [readTimeZoneFile, readZone_encode]
  · rw [TZif.data, Tables.transitionsOf, List.forall₂_map_right_iff, List.forall₂_same]
    intro tr htr
    have hlt := tz.indexed tr htr
    refine ⟨_, List.getElem?_eq_getElem hlt, ?_⟩
    rw [Tables.offset, List.getD_eq_getElem?_getD, List.getElem?_map, List.getElem?_eq_getElem hlt]
    rfl

/-- What a transition names and what a type names is there. -/
structure Data.Complete (data : Data) : Prop extends data.Indexed where
  arrbIdx : ∀ ty ∈ data.localtimes, ty.arrbIdx < data.abbreviation.length

/-- The zone is invalid, or complete, and no conversion leaves its tables. -/
def Usable (zone : TimeZone) : Prop :=
  zone.valid = false ∨ ∃ data, zone.data = some data ∧ data.Complete ∧
    (∀ gmtimeR seconds, ∃ tm, zone.toLocalTime gmtimeR seconds = .ok tm) ∧
    ∀ gmtimeR timegm localTm, ∃ seconds, zone.fromLocalTime gmtimeR timegm localTm = .ok seconds

section

variable {data : Data}

theorem findLocaltime_ok (h : data.Indexed) (sentry : Transition) (comp : Comp) :
    ∃ ty ∈ data.localtimes, findLocaltime data sentry comp = .ok ty := by
  rcases findLocaltime_cases h sentry comp with ⟨-, hok⟩ | ⟨i, tr, htr, -, -, hok⟩
  · exact ⟨data.front, List.mem_of_mem_head? h.front_eq, hok⟩
  · exact ⟨data.typeOf tr, List.mem_of_getElem? (h.typeOf_eq (List.mem_of_getElem? htr)), hok⟩

theorem Data.Complete.toLocalTime_ok (h : data.Complete) (gmtimeR : ℤ → LocalTm) (seconds : ℤ) :
    ∃ tm, toLocalTime gmtimeR ⟨some data⟩ seconds = .ok tm := by
  obtain ⟨ty, hty, hfound⟩ := findLocaltime_ok h.toIndexed ⟨seconds, 0, 0⟩ ⟨true⟩
  have htext : textAt data.abbreviation ty.arrbIdx = some _ := if_pos (h.arrbIdx ty hty).le
  unfold toLocalTime
  rw [check_bind (Option.some_ne_none data), deref_some, ok_bind, hfound, ok_bind]
  dsimp only
  rw [htext, deref_some, ok_bind]
  exact ⟨_, rfl⟩

theorem Data.Complete.fromLocalTime_ok (h : data.Complete) (gmtimeR : ℤ → LocalTm)
    (timegm : LocalTm → ℤ) (localTm : LocalTm) :
    ∃ seconds, fromLocalTime gmtimeR timegm ⟨some data⟩ localTm = .ok seconds := by
  obtain ⟨ty, -, hfound⟩ := findLocaltime_ok h.toIndexed ⟨0, timegm localTm, 0⟩ ⟨false⟩
  obtain ⟨tryTm, htry⟩ := h.toLocalTime_ok gmtimeR (timegm localTm - ty.gmtOffset)
  unfold fromLocalTime
  rw [check_bind (Option.some_ne_none data), deref_some, ok_bind]
  dsimp only
  rw [hfound, ok_bind]
  split
  · rw [htry, ok_bind]
    split <;> exact ⟨_, rfl⟩
  · exact ⟨_, rfl⟩

end

theorem readTimeZoneFile_cases {zonefile : Option (List UInt8)} {loaded : Bool} {data : Data}
    (h : readTimeZoneFile zonefile Data.new = .ok (loaded, data)) :
    loaded = true ∧ (data.abbreviation = [] ∨
      ∃ bytes t, zonefile = some bytes ∧ readZone ⟨bytes, Data.new⟩ = .value () t ∧ t.data = data) := by
  unfold readTimeZoneFile at h
  split at h
  · cases h
    exact ⟨rfl, .inl rfl⟩
  · next bytes =>
    split at h
    · next t hvalue =>
      cases h
      exact ⟨rfl, .inr ⟨bytes, t, rfl, hvalue, rfl⟩⟩
    · next hthrown =>
      cases h
      exact ⟨rfl, .inl (readZone_thrown (s := ⟨bytes, Data.new⟩) rfl hthrown)⟩
    · cases h

/-- Exactly the files that begin with a complete encoding, with a type and all abbreviations,
give a zone that can be used: no file gives an invalid one. -/
theorem ofZoneFile_usable_iff (zonefile : Option (List UInt8)) :
    (∃ zone, ofZoneFile zonefile = .ok zone ∧ zone.Usable) ↔
      ∃ (tz : TZif) (trailing : List UInt8), zonefile = some (tz.encode ++ trailing) ∧
        tz.types ≠ [] ∧ ∀ ty ∈ tz.types, ty.abbrind.toNat < tz.chars.length := by
  constructor
  · rintro ⟨zone, hzone, husable⟩
    obtain ⟨⟨loaded, data⟩, hread, hzone⟩ := bind_ok.1 hzone
    obtain ⟨rfl, hdata⟩ := readTimeZoneFile_cases hread
    cases hzone
    rcases husable with hinvalid | ⟨_, ⟨⟩, hcomplete, -⟩
    · cases hinvalid
    rcases hdata with hnone | ⟨bytes, t, rfl, hvalue, rfl⟩
    · obtain ⟨ty, hty⟩ := List.exists_mem_of_ne_nil _ hcomplete.localtimes
      have hlt := hcomplete.arrbIdx ty hty
      rw [hnone] at hlt
      exact absurd hlt (Nat.not_lt_zero _)
    · obtain ⟨tz, hbytes, hdata⟩ := readZone_value hvalue hcomplete.localtimes
      rw [hdata] at hcomplete
      refine ⟨tz, t.bytes, congrArg some hbytes, fun hnil => hcomplete.localtimes ?_, fun ty hty => ?_⟩
      · exact List.map_eq_nil_iff.2 hnil
      · exact hcomplete.arrbIdx _ (List.mem_map_of_mem hty)
  · rintro ⟨tz, trailing, rfl, htypes, habb⟩
    have hdata : tz.data.Complete := by
      refine ⟨⟨fun hnil => htypes (List.map_eq_nil_iff.1 hnil), fun tr htr => ?_⟩, fun ty hty => ?_⟩
      · obtain ⟨tr', htr', rfl⟩ := List.mem_map.1 htr
        exact (tz.indexed tr' htr').trans_eq (List.length_map _).symm
      · obtain ⟨ty', hty', rfl⟩ := List.mem_map.1 hty
        exact habb ty' hty'
    refine ⟨⟨some tz.data⟩, ?_, .inr ⟨tz.data, rfl, hdata, hdata.toLocalTime_ok, hdata.fromLocalTime_ok⟩⟩
    rw [ofZoneFile, readTimeZoneFile, readZone_encode]
    rfl

/-- A missing file gives a valid zone without a type. -/
theorem ofZoneFile_missing : ¬ ∃ zone, ofZoneFile none = .ok zone ∧ zone.Usable := by
  rintro ⟨zone, hzone, husable⟩
  cases hzone
  rcases husable with hinvalid | ⟨_, ⟨⟩, hcomplete, -⟩
  · cases hinvalid
  · exact hcomplete.localtimes rfl

end TimeZone

end Czy
