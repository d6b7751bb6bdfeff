import Czy.Proofs.LocalTime
import Czy.Sanity.ZoneFile

/-! From the bytes of a zone file to local time: what `to_local_time` gives for an instant is
the type of the last transition in the file that is not behind it. -/

namespace Czy.TimeZone

open Timeline

namespace TZif

def entry (tz : TZif) (i : ℕ) : TypeEntry := tz.types.getD i ⟨0, 0, 0⟩

def entryAt (tz : TZif) (seconds : ℤ) : TypeEntry :=
  inForce seconds (tz.entry 0) (tz.transitions.map fun tr => (tr.1.toInt, tz.entry tr.2.toNat))

def text (tz : TZif) (ty : TypeEntry) : String := cString (tz.chars.drop ty.abbrind.toNat)

variable {tz : TZif}

theorem data_indexed (htypes : tz.types ≠ []) : tz.data.Indexed where
  localtimes := by
    rw [data, Tables.localtimesOf]
    exact mt List.map_eq_nil_iff.1 htypes
  transitions tr htr := by
    rw [data, Tables.transitionsOf] at htr
    obtain ⟨tr', htr', rfl⟩ := List.mem_map.1 htr
    rw [data, Tables.localtimesOf, List.length_map]
    exact tz.indexed tr' htr'

theorem entry_localtime {i : ℕ} (hi : i < tz.types.length) :
    tz.data.localtimes[i]?.getD ⟨0, false, 0⟩ = (tz.entry i).localtime := by
  rw [data, Tables.localtimesOf, entry, List.getElem?_map, List.getElem?_eq_getElem hi,
    List.getD_eq_getElem?_getD, List.getElem?_eq_getElem hi]
  rfl

theorem front_localtime (htypes : tz.types ≠ []) : tz.data.front = (tz.entry 0).localtime := by
  rw [← entry_localtime (List.length_pos_iff.2 htypes), Data.front, List.headD_eq_head?_getD,
    List.head?_eq_getElem?]

theorem data_changes : changes tz.data ⟨true⟩ =
    (tz.transitions.map fun tr => (tr.1.toInt, tz.entry tr.2.toNat)).map
      fun c => (c.1, c.2.localtime) := by
  rw [changes_gmt, List.map_map]
  change (tz.transitions.map _).map _ = _
  rw [List.map_map]
  refine List.map_congr_left fun tr htr => ?_
  exact congrArg (Prod.mk tr.1.toInt) (entry_localtime (tz.indexed tr htr))

theorem entryAt_mem (htypes : tz.types ≠ []) (seconds : ℤ) : tz.entryAt seconds ∈ tz.types := by
  have hentry : ∀ {i : ℕ}, i < tz.types.length → tz.entry i ∈ tz.types := fun {i} hi => by
    rw [entry, List.getD_eq_getElem?_getD, List.getElem?_eq_getElem hi]
    exact List.getElem_mem hi
  refine inForce_mem (hentry (List.length_pos_iff.2 htypes)) fun c hc => ?_
  obtain ⟨tr, htr, rfl⟩ := List.mem_map.1 hc
  exact hentry (tz.indexed tr htr)

theorem findLocaltime_entryAt (htypes : tz.types ≠ [])
    (hsorted : tz.transitions.Pairwise fun a b => a.1.toInt < b.1.toInt) (seconds : ℤ) :
    findLocaltime tz.data ⟨seconds, 0, 0⟩ ⟨true⟩ = .ok (tz.entryAt seconds).localtime := by
  have hascending : (changes tz.data ⟨true⟩).Pairwise fun c d => c.1 < d.1 := by
    rw [data_changes, List.map_map, List.pairwise_map]
    exact hsorted
  rw [findLocaltime_eq (data_indexed htypes) hascending, data_changes, front_localtime htypes,
    inForce_map]
  rfl

end TZif

/-- A file with ascending transitions and the abbreviations that its types name: loaded, it
converts every instant by the type in force, whatever follows the layout in the file. -/
theorem zoneFile_localTime (tz : TZif) (trailing : List UInt8) (htypes : tz.types ≠ [])
    (hsorted : tz.transitions.Pairwise fun a b => a.1.toInt < b.1.toInt)
    (htexts : ∀ ty ∈ tz.types, ty.abbrind.toNat ≤ tz.chars.length) :
    ∃ zone, ofZoneFile (some (tz.encode ++ trailing)) = .ok zone ∧ ∀ gmtimeR seconds,
      zone.toLocalTime gmtimeR seconds = .ok (localTmOf gmtimeR seconds
        (tz.entryAt seconds).localtime (tz.text (tz.entryAt seconds))) := by
  refine ⟨⟨some tz.data⟩, ?_, fun gmtimeR seconds => ?_⟩
  · rw [ofZoneFile, readTimeZoneFile, readZone_encode]
    rfl
  · have hfound := tz.findLocaltime_entryAt htypes hsorted seconds
    have htext : textAt tz.data.abbreviation (tz.entryAt seconds).localtime.arrbIdx =
        some (tz.text (tz.entryAt seconds)) := if_pos (htexts _ (tz.entryAt_mem htypes seconds))
    rw [toLocalTime, check_bind (Option.some_ne_none tz.data), deref_some, ok_bind, hfound, ok_bind]
    dsimp only
    rw [htext, deref_some, ok_bind]
    rfl

def oneSummerFile : TZif where
  transitions := [(1173596400, 1), (1194156000, 0)]
  types := [⟨-18000, 0, 0⟩, ⟨-14400, 1, 4⟩]
  indexed := List.forall_mem_cons.2 ⟨by decide, List.forall_mem_singleton.2 (by decide)⟩
  version := 0
  reserved := List.replicate 15 0
  isgmtcnt := 0
  isstdcnt := 0
  leapcnt := 0
  chars := [69, 83, 84, 0, 69, 68, 84, 0]
  reserved_length := rfl
  transitions_length := by decide
  types_length := by decide
  chars_length := by decide

theorem zoneFile_localTime_oneSummer :
    ∃ zone, ofZoneFile (some (oneSummerFile.encode ++ [])) = .ok zone ∧ ∀ gmtimeR seconds,
      zone.toLocalTime gmtimeR seconds = .ok (localTmOf gmtimeR seconds
        (oneSummerFile.entryAt seconds).localtime (oneSummerFile.text (oneSummerFile.entryAt seconds))) :=
  zoneFile_localTime oneSummerFile [] (by decide) (by decide) (by decide)

end Czy.TimeZone
