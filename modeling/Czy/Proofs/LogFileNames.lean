import Czy.Proofs.LogRolling
import Czy.Proofs.LogTime
import Czy.Sanity.LogFile
import Czy.Sanity.TimeText
import Mathlib.Data.String.Basic

/-! The names of rolling log files. Whatever the clock does, the names of one `LogFile` sort
as the files were opened, so that the files in the order of their names are the log. -/

namespace Czy

open Columns Logger Logging StepRun

def LogFileOp.clocks : LogFileOp → List ℤ
  | .append _ _ now nowRoll => [now, nowRoll]
  | .flush => []
  | .rollFile now => [now]

def lastClock : ℤ := 253402300800

theorem toNat_ofByte (b : UInt8) : (Char.ofNat b.toNat).toNat = b.toNat := by
  have hb := b.toNat_lt
  have hvalid : b.toNat.isValidChar := .inl (by omega)
  rw [Char.ofNat, dif_pos hvalid]
  rfl

theorem ofByte_lt_iff (b c : UInt8) : Char.ofNat b.toNat < Char.ofNat c.toNat ↔ b < c := by
  rw [Char.lt_def, UInt32.lt_iff_toNat_lt, UInt8.lt_iff_toNat_lt]
  exact iff_of_eq (congrArg₂ _ (toNat_ofByte b) (toNat_ofByte c))

theorem ofByte_inj (b c : UInt8) : Char.ofNat b.toNat = Char.ofNat c.toNat ↔ b = c := by
  rw [← Char.toNat_inj, toNat_ofByte, toNat_ofByte, UInt8.toNat_inj]

namespace LogFile

variable {timeText : ℤ → String} {hostname : String} {pid : ℕ} {l l' : LogFile}

theorem getLogFilename_lt_iff {basename : String} {now now' : ℤ}
    (h : (timeText now).toList.length = (timeText now').toList.length) :
    getLogFilename timeText hostname pid basename now < getLogFilename timeText hostname pid basename now' ↔
      timeText now < timeText now' := by
  simp only [getLogFilename, String.lt_iff_toList_lt, String.toList_append, List.append_assoc]
  rw [append_lt_append_iff rfl, append_lt_append_iff h, or_iff_right (List.lt_irrefl _),
    and_iff_right rfl, or_iff_left]
  exact fun h => List.lt_irrefl _ h.2

variable {gmtimeR : ℤ → LocalTm}

theorem gmtText_toList (now : ℤ) : (gmtText gmtimeR now).toList =
    (timeBuf (gmtimeR now).toTm).map fun b => Char.ofNat b.toNat := String.toList_ofList

theorem exists_nameText (hgmtime : Gmtime gmtimeR) {now : ℤ} (hlo : 0 < now) (hhi : now < lastClock) :
    ∃ time : Gregorian.Time, time.seconds = now ∧ 1000 ≤ time.date.year ∧
      FourDigits time.date.year ∧ timeBuf (gmtimeR now).toTm = nameText time := by
  unfold lastClock at hhi
  obtain ⟨time, hseconds, hshows⟩ := hgmtime now (by omega) (by omega)
  have hyear : 1000 ≤ time.date.year := le_year (by omega)
  have hlast := (year_lt_iff time).2 (by omega)
  have hdiv := time.seconds_div
  exact ⟨time, hseconds, hyear, ⟨by omega, by omega⟩, timeBuf_of_shows hshows (by omega) (by omega)⟩

theorem filename_lt_iff (hgmtime : Gmtime gmtimeR) {basename : String} {now now' : ℤ} (hlo : 0 < now)
    (hhi : now < lastClock) (hlo' : 0 < now') (hhi' : now' < lastClock) :
    getLogFilename (gmtText gmtimeR) hostname pid basename now <
      getLogFilename (gmtText gmtimeR) hostname pid basename now' ↔ now < now' := by
  obtain ⟨time, hseconds, hyear, hfour, htext⟩ := exists_nameText hgmtime hlo hhi
  obtain ⟨time', hseconds', hyear', hfour', htext'⟩ := exists_nameText hgmtime hlo' hhi'
  rw [getLogFilename_lt_iff, String.lt_iff_toList_lt, gmtText_toList, gmtText_toList, htext, htext',
    map_lt_map_iff (fun b _ c _ => ofByte_lt_iff b c) fun b _ c _ => ofByte_inj b c,
    nameText_lt_iff hyear hyear' hfour hfour', hseconds, hseconds']
  rw [gmtText_toList, gmtText_toList, htext, htext', List.length_map, List.length_map,
    length_nameText hyear hfour, length_nameText hyear' hfour']

def Opens (clocks : List ℤ) (l l' : LogFile) : Prop :=
  l'.files.map AppendFile.openedAt = l.files.map AppendFile.openedAt ∨
    ∃ now ∈ clocks, l.lastRoll < now ∧
      l'.files.map AppendFile.openedAt = l.files.map AppendFile.openedAt ++ [now]

theorem Opens.roll {clocks : List ℤ} {now : ℤ} (hnow : now ∈ clocks)
    (hfiles : l'.files.map AppendFile.openedAt = l.files.map AppendFile.openedAt)
    (hlast : l'.lastRoll = l.lastRoll) :
    Opens clocks l (l'.rollFile timeText hostname pid now).1 := by
  unfold Opens
  rw [rollFile_eq, ← hfiles, ← hlast]
  split
  next hlt =>
    refine .inr ⟨now, hnow, hlt, ?_⟩
    simp only [files, Option.toList_some, List.map_append, List.map_singleton, AppendFile.new]
  next => exact .inl rfl

theorem openedAt_written {file : AppendFile} (hfile : l.file = some file) (line : List UInt8)
    (writes : List ℕ) : (l.written file line writes).files.map AppendFile.openedAt =
      l.files.map AppendFile.openedAt := by
  simp only [files, written, hfile, Option.toList_some, List.map_append, List.map_singleton,
    AppendFile.append_eq]

theorem step_opens {o : LogFileOp} (h : l.step timeText hostname pid o = .ok l') :
    Opens o.clocks l l' := by
  cases o with
  | append line writes now nowRoll =>
    obtain ⟨file, hfile, hcases⟩ := appendUnlocked_cases h
    have hwritten := openedAt_written hfile line writes
    rcases hcases with rfl | ⟨-, rfl⟩ | ⟨-, rfl⟩ | ⟨-, -, rfl⟩ | ⟨-, rfl⟩
    · exact .roll (by simp [LogFileOp.clocks]) hwritten rfl
    · exact .roll (by simp [LogFileOp.clocks]) hwritten rfl
    · exact .inl hwritten
    · exact .inl hwritten
    · exact .inl hwritten
  | flush =>
    obtain ⟨_, -, h⟩ := bind_ok.1 h
    cases h
    exact .inl rfl
  | rollFile now =>
    cases h
    exact .roll (List.mem_singleton_self now) rfl rfl

/-- In the order of their names the files hold the lines in order, whoever sorts them. -/
structure SortedByName (l : LogFile) : Prop where
  names : (l.files.map AppendFile.name).Pairwise (· < ·)
  sorted : ∀ files : List AppendFile, files.Perm l.files →
    files.Pairwise (fun f f' => f.name ≤ f'.name) →
    (files.map AppendFile.content).flatten = l.lines.flatten

structure Dated (gmtimeR : ℤ → LocalTm) (hostname : String) (pid : ℕ) (l : LogFile) (file : AppendFile) :
    Prop extends Rolling (gmtText gmtimeR) hostname pid l file where
  dates : ∀ now ∈ l.files.map AppendFile.openedAt, 0 < now ∧ now < lastClock

variable {file : AppendFile}

theorem Dated.sortedByName (hgmtime : Gmtime gmtimeR) (h : Dated gmtimeR hostname pid l file) :
    SortedByName l := by
  have hnames : (l.files.map AppendFile.name).Pairwise (· < ·) := by
    have hclocks := h.clocks
    rw [List.pairwise_map] at hclocks ⊢
    refine hclocks.imp_of_mem fun {f f'} hf hf' hlt => ?_
    obtain ⟨hlo, hhi⟩ := h.dates _ (List.mem_map_of_mem hf)
    obtain ⟨hlo', hhi'⟩ := h.dates _ (List.mem_map_of_mem hf')
    rw [h.names f hf, h.names f' hf']
    exact (filename_lt_iff hgmtime hlo hhi hlo' hhi').2 hlt
  refine ⟨hnames, fun files hperm hsorted => ?_⟩
  have hnodup : (l.files.map AppendFile.name).Nodup := hnames.imp ne_of_lt
  rw [List.pairwise_map] at hnames
  -- a list is sorted in one way only
  have heq : files = l.files := by
    refine List.Perm.eq_of_pairwise (fun f f' hf hf' hle hge => ?_) hsorted (hnames.imp le_of_lt) hperm
    exact List.inj_on_of_nodup_map hnodup (hperm.subset hf) hf' (le_antisymm hle hge)
  rw [heq]
  exact h.intact.content

theorem Dated.step (h : Dated gmtimeR hostname pid l file) {o : LogFileOp}
    (ho : ∀ now ∈ o.clocks, now < lastClock) :
    ∃ l' file', l.step (gmtText gmtimeR) hostname pid o = .ok l' ∧ Dated gmtimeR hostname pid l' file' := by
  obtain ⟨l', file', hstep, hrolling, -⟩ := h.toRolling.step o
  refine ⟨l', file', hstep, hrolling, fun now hnow => ?_⟩
  rcases step_opens hstep with hsame | ⟨at', hat, hlast, hmore⟩
  · exact h.dates now (hsame ▸ hnow)
  · rw [hmore, List.mem_append, List.mem_singleton] at hnow
    rcases hnow with hnow | rfl
    · exact h.dates now hnow
    · have hcurrent : file ∈ l.files := by rw [h.files_eq]; simp
      have hpos := (h.dates _ (List.mem_map_of_mem hcurrent)).1
      rw [h.opened] at hpos
      exact ⟨hpos.trans hlast, ho now hat⟩

/-- Every run from the constructor, with any readings of the clock. -/
theorem names_sort_as_opened (hgmtime : Gmtime gmtimeR) {basename : String}
    {rollSize flushInterval checkEveryN now : ℤ} (hname : '/' ∉ basename.toList) (hroll : 0 ≤ rollSize)
    (hcheck : 1 ≤ checkEveryN) (hnow : 0 < now) (hbefore : now < lastClock) (ops : List LogFileOp)
    (hops : ∀ o ∈ ops, ∀ now ∈ o.clocks, now < lastClock) :
    ∃ l, create (gmtText gmtimeR) hostname pid basename rollSize flushInterval checkEveryN now = .ok l ∧
      SortedByName l ∧
      Holds (LogFile.step (gmtText gmtimeR) hostname pid) (fun _ _ l' => SortedByName l') l ops := by
  obtain ⟨l, file, hcreate, hrolling, -⟩ : ∃ l file, create (gmtText gmtimeR) hostname pid basename
      rollSize flushInterval checkEveryN now = .ok l ∧ Rolling (gmtText gmtimeR) hostname pid l file ∧
      l.lines = [] := rolling_create hname hroll hcheck hnow
  have hopens : Opens [now] (initial basename rollSize flushInterval checkEveryN) l := by
    rw [create_eq hcreate]
    exact .roll (List.mem_singleton_self now) rfl rfl
  have hdated : Dated gmtimeR hostname pid l file := by
    refine ⟨hrolling, fun at' hat => ?_⟩
    rcases hopens with hnone | ⟨_, hmem, -, hone⟩
    · rw [hnone] at hat
      cases hat
    · rw [hone, List.mem_singleton.1 hmem] at hat
      exact List.mem_singleton.1 hat ▸ ⟨hnow, hbefore⟩
  refine ⟨l, hcreate, hdated.sortedByName hgmtime, ?_⟩
  refine holds_along (I := fun l => ∃ file, Dated gmtimeR hostname pid l file)
    (fun l o h ho => ?_) ⟨file, hdated⟩ ((along_true ops l).and_forall hops)
  obtain ⟨file, h⟩ := h
  obtain ⟨l', file', hstep, h'⟩ := h.step ho.2
  exact ⟨l', hstep, ⟨file', h'⟩, h'.sortedByName hgmtime⟩

theorem names_sort_as_opened_setBack :
    let gmtimeR := fun s : ℤ => (⟨TimeZone.toUtcTime s true, 0⟩ : LocalTm)
    ∃ l, create (gmtText gmtimeR) "host" 7 "log" 1 3 2 1700000000 = .ok l ∧ SortedByName l ∧
      Holds (LogFile.step (gmtText gmtimeR) "host" 7) (fun _ _ l' => SortedByName l') l
        [.append [65, 10] [1] 1700000100 1700000100, .append [66, 10] [] 1699999999 1699999999,
          .append [67, 10] [] 1700086400 1700086400] :=
  names_sort_as_opened gmtime_toUtcTime (by decide) (by decide) (by decide) (by decide) (by decide) _
    (by decide)

end LogFile

end Czy
