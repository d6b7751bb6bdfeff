import Czy.Sanity.ConfigFile
import Mathlib.Data.List.TakeWhile

/-! What is written to a configuration file and loaded from it again. -/

namespace Czy.ConfigureFileReader

open CString

def Writable (m : ConfigMap) : Prop :=
  ∀ key value : List UInt8, m[key]? = some value →
    Clean key ∧ Clean value ∧ (pairLine key value).length < 255

/-- The file that `write_file` leaves, where every `fwrite` succeeds. -/
def written (r : ConfigureFileReader) : ℤ × Option (List UInt8) := r.writeFile true fun _ => 127

/-- Loaded into `e` the file gives the map that was written. -/
def LoadsBack (r e : ConfigureFileReader) (buf : List UInt8) : Prop :=
  ∃ r', e.loadFile r.written.2 buf = .ok r' ∧ r'.configureMap = r.configureMap

/-- `write_file` does not report -1, and the map comes back. -/
def RoundTrips (r e : ConfigureFileReader) (buf : List UInt8) : Prop :=
  r.written.1 ≠ -1 ∧ LoadsBack r e buf

theorem writeFile_reports (r : ConfigureFileReader) (opened : Bool) (taken : ℕ → ℕ) :
    (r.writeFile opened taken).1 = -1 := by
  unfold writeFile
  cases opened with
  | false => rfl
  | true =>
    rw [if_pos rfl]
    split <;> rfl

variable {key value : List UInt8} {m : ConfigMap}

theorem length_szPair_le (key value : List UInt8) : (szPair key value).length ≤ 127 :=
  List.length_take_le _ _

theorem writeLoop_all (i : ℕ) (pairs : List (List UInt8 × List UInt8)) :
    writeLoop (fun _ => 127) i pairs = (pairs.flatMap fun pair => szPair pair.1 pair.2, true) := by
  induction pairs generalizing i with
  | nil => rfl
  | cons pair pairs ih =>
    rw [writeLoop, if_pos (length_szPair_le _ _), ih]
    rfl

theorem written_file (r : ConfigureFileReader) : r.written.2 =
    some (r.configureMap.toList.flatMap fun pair => szPair pair.1 pair.2) := by
  rw [written, writeFile, if_pos rfl, writeLoop_all]

theorem szPair_clean (hk : Clean key) (hv : Clean value) :
    szPair key value = (pairLine key value).take 127 := by
  have hwhole : ∀ {s : List UInt8}, Clean s → s.takeWhile (· ≠ 0) = s := fun h =>
    List.takeWhile_eq_self_iff.2 fun c hc => by
      simp only [decide_eq_true_eq]
      exact fun h0 => h.plain.2.2.1 (h0 ▸ hc)
  rw [szPair, hwhole hk, hwhole hv, pairLine]

theorem written_no_line_end (hm : Writable m) :
    (10 : UInt8) ∉ m.toList.flatMap fun pair => szPair pair.1 pair.2 := by
  intro hin
  obtain ⟨pair, hpair, hin⟩ := List.mem_flatMap.1 hin
  obtain ⟨hk, hv, -⟩ := hm _ _ (Std.ExtTreeMap.mem_toList_iff_getElem?_eq_some.1 hpair)
  rw [szPair_clean hk hv] at hin
  exact (pairLine_plain hk hv).2.2 (List.mem_of_mem_take hin)

theorem length_written_le (pairs : List (List UInt8 × List UInt8)) :
    (pairs.flatMap fun pair => szPair pair.1 pair.2).length ≤ 127 * pairs.length := by
  induction pairs with
  | nil => exact le_rfl
  | cons pair pairs ih =>
    rw [List.flatMap_cons, List.length_append, List.length_cons]
    have := length_szPair_le pair.1 pair.2
    omega

theorem eq_insert_of_mem (hsize : m.size ≤ 1) (hin : m[key]? = some value) :
    m = (∅ : ConfigMap).insert key value := by
  have hmem : (key, value) ∈ m.toList := Std.ExtTreeMap.mem_toList_iff_getElem?_eq_some.2 hin
  rw [← Std.ExtTreeMap.length_toList] at hsize
  have hone : m.toList = [(key, value)] := by
    obtain ⟨pair, hpair⟩ := List.length_eq_one_iff.1
      (le_antisymm hsize (List.length_pos_of_mem hmem))
    rw [hpair] at hmem ⊢
    rw [List.mem_singleton.1 hmem]
  exact Std.ExtTreeMap.ext_toList (by rw [hone]; exact List.Perm.refl _)

theorem loadsBack_of_short {r e : ConfigureFileReader} (he : e.configureMap = ∅)
    (hm : Writable r.configureMap) (hsize : r.configureMap.size ≤ 1)
    (hshort : ∀ key value : List UInt8, r.configureMap[key]? = some value →
      (pairLine key value).length ≤ 127) (buf : List UInt8) : LoadsBack r e buf := by
  unfold LoadsBack
  rw [written_file, loadFile, he]
  by_cases hnil : r.configureMap = ∅
  · rw [hnil]
    exact ⟨_, rfl, rfl⟩
  · obtain ⟨⟨key, value⟩, hmem⟩ := List.exists_mem_of_ne_nil _
      (mt Std.ExtTreeMap.toList_eq_nil_iff.1 hnil)
    have hin := Std.ExtTreeMap.mem_toList_iff_getElem?_eq_some.1 hmem
    obtain ⟨hk, hv, hlen⟩ := hm key value hin
    have hle := hshort key value hin
    have hlist : ((∅ : ConfigMap).insert key value).toList = [(key, value)] := rfl
    rw [eq_insert_of_mem hsize hin, hlist, List.flatMap_singleton, szPair_clean hk hv,
      List.take_of_length_le hle]
    obtain ⟨n, hn⟩ : ∃ n, (pairLine key value).length = n + 1 := by simp [pairLine]
    exact ⟨_, by rw [hn, loadLoop_single hk hv hlen.le n buf ∅]; rfl, rfl⟩

theorem short_of_loadsBack {r e : ConfigureFileReader} (he : e.configureMap = ∅)
    (hm : Writable r.configureMap) {buf : List UInt8} (h : LoadsBack r e buf) :
    r.configureMap.size ≤ 1 ∧ ∀ key value : List UInt8, r.configureMap[key]? = some value →
      (pairLine key value).length ≤ 127 := by
  obtain ⟨r', hload, hback⟩ := h
  rw [written_file, loadFile, he] at hload
  obtain ⟨m', hloop, hr'⟩ := bind_ok.1 hload
  cases hr'
  obtain rfl : m' = r.configureMap := hback
  have hlen := length_written_le r.configureMap.toList
  rw [Std.ExtTreeMap.length_toList] at hlen
  have hone : r.configureMap.size ≤ 1 := by
    have hsize := loadLoop_size hloop (written_no_line_end hm)
    rw [Std.ExtTreeMap.size_empty] at hsize
    omega
  refine ⟨hone, fun key value hin => ?_⟩
  have hentry := loadLoop_entries hloop key value hin
  rw [Std.ExtTreeMap.getElem?_empty] at hentry
  have hle := hentry.resolve_left nofun
  omega

/-- No map makes the round trip: `write_file` reports -1 in any case. The file itself loads
back exactly if it holds at most one line, of at most 127 bytes. -/
theorem write_load (r e : ConfigureFileReader) (he : e.configureMap = ∅)
    (hm : Writable r.configureMap) (buf : List UInt8) :
    ¬ RoundTrips r e buf ∧
      (LoadsBack r e buf ↔ r.configureMap.size ≤ 1 ∧
        ∀ key value : List UInt8, r.configureMap[key]? = some value →
          (pairLine key value).length ≤ 127) := by
  refine ⟨fun h => h.1 (writeFile_reports r true _), short_of_loadsBack he hm, ?_⟩
  rintro ⟨hsize, hshort⟩
  exact loadsBack_of_short he hm hsize hshort buf

theorem insert_empty_entry {k v : List UInt8}
    (h : ((∅ : ConfigMap).insert key value)[k]? = some v) : k = key ∧ v = value := by
  rw [Std.ExtTreeMap.getElem?_insert] at h
  split_ifs at h with hkey
  · rw [Std.compare_eq_iff_eq] at hkey
    exact ⟨hkey.symm, (Option.some.inj h).symm⟩
  · rw [Std.ExtTreeMap.getElem?_empty] at h
    cases h

theorem clean_singleton {c : UInt8} (h : 61 ∉ [c] ∧ 35 ∉ [c] ∧ 0 ∉ [c] ∧ 13 ∉ [c] ∧ 10 ∉ [c])
    (hc : isBlank c = false) : Clean [c] where
  ne_nil := List.cons_ne_nil _ _
  plain := h
  first := fun _ hx => Option.some.inj hx ▸ hc
  last := fun _ hx => Option.some.inj hx ▸ hc

theorem write_load_single :
    ¬ RoundTrips ⟨true, (∅ : ConfigMap).insert [97] [49], []⟩ ⟨false, ∅, []⟩ [] ∧
      LoadsBack ⟨true, (∅ : ConfigMap).insert [97] [49], []⟩ ⟨false, ∅, []⟩ [] := by
  have hclean : Clean [97] ∧ Clean [49] :=
    ⟨clean_singleton (by decide) (by decide), clean_singleton (by decide) (by decide)⟩
  have h := write_load ⟨true, (∅ : ConfigMap).insert [97] [49], []⟩ ⟨false, ∅, []⟩ rfl
    (fun key value hin => by
      obtain ⟨rfl, rfl⟩ := insert_empty_entry hin
      exact ⟨hclean.1, hclean.2, by decide⟩) []
  refine ⟨h.1, h.2.2 ⟨by decide, fun key value hin => ?_⟩⟩
  obtain ⟨rfl, rfl⟩ := insert_empty_entry hin
  decide

/-- Two lines run into one, and the success is reported as a failure. -/
theorem write_load_two :
    written ⟨true, ((∅ : ConfigMap).insert [97] [49]).insert [98] [50], []⟩ =
        (-1, some [97, 61, 49, 98, 61, 50]) ∧
      ¬ RoundTrips ⟨true, ((∅ : ConfigMap).insert [97] [49]).insert [98] [50], []⟩ ⟨false, ∅, []⟩ [] :=
  ⟨by decide, fun h => h.1 (by decide)⟩

end Czy.ConfigureFileReader
