import Czy.Lib.Run
import Czy.Sanity.LogFile
import Mathlib.Tactic

/-! Rolling log files. Every line is in one file, the files follow each other in the order of
the lines, and their names in the order of the clock. -/

namespace Czy

/-- However the stream takes it, the whole line is appended. -/
theorem AppendFile.appendLoop_eq (content : List UInt8) (written : ℕ) (line : List UInt8)
    (writes : List ℕ) :
    appendLoop content written line writes = (content ++ line, written + line.length) := by
  induction writes generalizing content written line with
  | nil => cases line <;> simp [appendLoop]
  | cons n writes ih =>
    cases line with
    | nil => simp [appendLoop]
    | cons b line =>
      rw [appendLoop, ih, List.append_assoc, List.take_append_drop, Nat.add_assoc,
        ← List.length_append, List.take_append_drop]
      exact nofun

theorem AppendFile.append_eq (file : AppendFile) (line : List UInt8) (writes : List ℕ) :
    file.append line writes = { file with
      content := file.content ++ line
      writeBytes := file.writeBytes + line.length } := by
  rw [append, appendLoop_eq]
  simp only [Nat.zero_add]

namespace LogFile

open StepRun

variable {timeText : ℤ → String} {hostname : String} {pid : ℕ} {l l' : LogFile}

/-- What holds at any time: the lines are in the files in order, each in one; no file is opened
twice; the counter is in its range. -/
structure Intact (timeText : ℤ → String) (hostname : String) (pid : ℕ) (l : LogFile) : Prop where
  content : (l.files.map AppendFile.content).flatten = l.lines.flatten
  whole : ∃ groups : List (List (List UInt8)),
    l.files.map AppendFile.content = groups.map List.flatten ∧ groups.flatten = l.lines
  clocks : (l.files.map AppendFile.openedAt).Pairwise (· < ·)
  names : ∀ file ∈ l.files, file.name = getLogFilename timeText hostname pid l.basename file.openedAt
  distinct : (getLogFilename timeText hostname pid l.basename).Injective →
    (l.files.map AppendFile.name).Nodup
  count : 0 ≤ l.count ∧ l.count < l.checkEveryN

/-- What an operation does: its line is recorded, and where an `append` leaves a file over the
size, the clock was not past the last roll. -/
structure Appended (l : LogFile) (o : LogFileOp) (l' : LogFile) : Prop where
  lines : l'.lines = l.lines ++ match o with
    | .append logline _ _ _ => [logline]
    | _ => []
  size : ∀ logline writes now nowRoll, o = .append logline writes now nowRoll →
    ∀ file ∈ l'.file, l'.rollSize < file.writeBytes → now ≤ l'.lastRoll

/-- The current file, and how the lines are distributed. -/
structure Rolling (timeText : ℤ → String) (hostname : String) (pid : ℕ) (l : LogFile)
    (file : AppendFile) : Prop where
  current : l.file = some file
  opened : file.openedAt = l.lastRoll
  lines : ∃ groups last, l.closed.map AppendFile.content = groups.map List.flatten ∧
    file.content = List.flatten last ∧ l.lines = List.flatten groups ++ last
  clocks : (l.files.map AppendFile.openedAt).Pairwise (· < ·)
  names : ∀ f ∈ l.files, f.name = getLogFilename timeText hostname pid l.basename f.openedAt
  count : 0 ≤ l.count ∧ l.count < l.checkEveryN
  size : 0 ≤ l.rollSize

variable {file : AppendFile}

theorem Rolling.files_eq (h : Rolling timeText hostname pid l file) : l.files = l.closed ++ [file] := by
  rw [files, h.current]
  rfl

theorem Rolling.intact (h : Rolling timeText hostname pid l file) :
    Intact timeText hostname pid l := by
  obtain ⟨groups, last, hclosed, hfile, hlines⟩ := h.lines
  have hwhole : l.files.map AppendFile.content = (groups ++ [last]).map List.flatten := by
    rw [h.files_eq, List.map_append, List.map_append, hclosed, List.map_singleton, hfile,
      List.map_singleton]
  have hflat : (groups ++ [last]).flatten = l.lines := by
    rw [List.flatten_append, List.flatten_singleton, hlines]
  refine ⟨?_, ⟨groups ++ [last], hwhole, hflat⟩, h.clocks, h.names, fun hinj => ?_, h.count⟩
  · rw [hwhole, ← hflat, List.flatten_flatten]
  · have hnames : l.files.map AppendFile.name = (l.files.map AppendFile.openedAt).map
        (getLogFilename timeText hostname pid l.basename) := by
      rw [List.map_map]
      exact List.map_congr_left h.names
    rw [hnames]
    exact List.Nodup.map hinj (h.clocks.imp fun hlt => hlt.ne)

theorem Rolling.openedAt_le (h : Rolling timeText hostname pid l file) :
    ∀ f ∈ l.files, f.openedAt ≤ l.lastRoll := by
  have hclocks := h.clocks
  rw [h.files_eq, List.pairwise_map, List.pairwise_append] at hclocks
  intro f hf
  rw [h.files_eq, List.mem_append, List.mem_singleton] at hf
  rw [← h.opened]
  rcases hf with hf | rfl
  · exact (hclocks.2.2 f hf file (List.mem_singleton_self file)).le
  · exact le_rfl

theorem Rolling.roll (h : Rolling timeText hostname pid l file) (now : ℤ) :
    ∃ file', Rolling timeText hostname pid (l.rollFile timeText hostname pid now).1 file' ∧
      (l.rollFile timeText hostname pid now).1.lines = l.lines ∧
      (l.rollFile timeText hostname pid now).1.rollSize = l.rollSize ∧
      (file'.writeBytes = 0 ∨
        (file' = file ∧ now ≤ (l.rollFile timeText hostname pid now).1.lastRoll)) := by
  rw [rollFile_eq]
  split_ifs with hlt
  · obtain ⟨groups, last, hclosed, hfile, hlines⟩ := h.lines
    refine ⟨_, ⟨rfl, rfl, ⟨groups ++ [last], [], ?_, rfl, ?_⟩, ?_, ?_, h.count, h.size⟩, rfl, rfl,
      .inl rfl⟩
    · rw [h.current]
      simp only [Option.toList_some, List.map_append, List.map_singleton, hclosed, hfile]
    · simp only [List.flatten_append, List.flatten_singleton, List.append_nil, hlines]
    · rw [List.pairwise_map]
      refine List.pairwise_append.2 ⟨List.pairwise_map.1 h.clocks, List.pairwise_singleton _ _, ?_⟩
      intro f hf f' hf'
      rw [List.mem_singleton.1 hf']
      exact (h.openedAt_le f hf).trans_lt hlt
    · intro f hf
      rcases List.mem_append.1 hf with hf | hf
      · exact h.names f hf
      · rw [List.mem_singleton.1 hf]
        rfl
  · exact ⟨file, h, rfl, rfl, .inr ⟨rfl, not_lt.1 hlt⟩⟩

theorem Rolling.write (h : Rolling timeText hostname pid l file) (line : List UInt8)
    (writes : List ℕ) : Rolling timeText hostname pid
      { l with file := some (file.append line writes), lines := l.lines ++ [line] }
      (file.append line writes) := by
  obtain ⟨groups, last, hclosed, hfile, hlines⟩ := h.lines
  have hopened : (file.append line writes).openedAt = file.openedAt := by rw [AppendFile.append_eq]
  have hname : (file.append line writes).name = file.name := by rw [AppendFile.append_eq]
  have hclocks := h.clocks
  have hnames := h.names
  rw [h.files_eq] at hclocks hnames
  refine ⟨rfl, hopened.trans h.opened, ⟨groups, last ++ [line], hclosed, ?_, ?_⟩, ?_, ?_, h.count, h.size⟩
  · rw [AppendFile.append_eq, List.flatten_append, List.flatten_singleton, hfile]
  · simp only [hlines, List.append_assoc]
  · rw [List.map_append] at hclocks
    simpa only [files, Option.toList_some, List.map_append, List.map_singleton, hopened] using hclocks
  · intro f hf
    rcases List.mem_append.1 hf with hf | hf
    · exact hnames f (List.mem_append_left _ hf)
    · rw [List.mem_singleton.1 hf, hname, hopened]
      exact hnames file (List.mem_append_right _ (List.mem_singleton_self file))

theorem Rolling.setCount (h : Rolling timeText hostname pid l file) {n : ℤ}
    (hn : 0 ≤ n ∧ n < l.checkEveryN) : Rolling timeText hostname pid { l with count := n } file :=
  ⟨h.current, h.opened, h.lines, h.clocks, h.names, hn, h.size⟩

theorem appended_of {file' : AppendFile} {line : List UInt8} {writes : List ℕ} {now nowRoll : ℤ}
    (hfile : l'.file = some file') (hlines : l'.lines = l.lines ++ [line])
    (hsize : l'.rollSize < file'.writeBytes → now ≤ l'.lastRoll) :
    Appended l (.append line writes now nowRoll) l' := by
  refine ⟨hlines, ?_⟩
  rintro _ _ _ _ ⟨⟩ f hf hlt
  rw [hfile] at hf
  cases hf
  exact hsize hlt

theorem Rolling.append (h : Rolling timeText hostname pid l file) (line : List UInt8)
    (writes : List ℕ) (now nowRoll : ℤ) :
    ∃ l' file', l.appendUnlocked timeText hostname pid line writes now nowRoll = .ok l' ∧
      Rolling timeText hostname pid l' file' ∧ Appended l (.append line writes now nowRoll) l' := by
  have hwrite := h.write line writes
  have hsize := h.size
  have hcount := h.count
  unfold appendUnlocked
  rw [h.current, deref_some, ok_bind]
  generalize file.append line writes = file₁ at hwrite ⊢
  dsimp only
  split
  next hover =>
    obtain ⟨file', hroll, hlines, hroll_size, hfile'⟩ := hwrite.roll now
    refine ⟨_, file', rfl, hroll, appended_of hroll.current hlines fun hlt => ?_⟩
    rcases hfile' with h0 | ⟨-, hle⟩
    · rw [hroll_size, h0] at hlt
      exact absurd hlt (not_lt.2 hsize)
    · exact hle
  next hunder =>
    have hunder := not_lt.1 hunder
    split
    next hcheck =>
      have hwrite := hwrite.setCount ⟨le_rfl, hcount.1.trans_lt hcount.2⟩
      split
      · -- the period is over
        obtain ⟨file', hroll, hlines, hroll_size, hfile'⟩ := hwrite.roll nowRoll
        refine ⟨_, file', rfl, hroll, appended_of hroll.current hlines fun hlt => ?_⟩
        rw [hroll_size] at hlt
        rcases hfile' with h0 | ⟨rfl, -⟩
        · rw [h0] at hlt
          exact absurd hlt (not_lt.2 hsize)
        · exact absurd hlt (not_lt.2 hunder)
      · split
        · refine ⟨_, file₁, rfl, ⟨rfl, hwrite.opened, hwrite.lines, hwrite.clocks, hwrite.names,
            hwrite.count, hwrite.size⟩, appended_of rfl rfl fun hlt => ?_⟩
          exact absurd hlt (not_lt.2 hunder)
        · exact ⟨_, file₁, rfl, hwrite, appended_of rfl rfl fun hlt => absurd hlt (not_lt.2 hunder)⟩
    next hcheck =>
      have hwrite := hwrite.setCount (n := l.count + 1) ⟨by omega, not_le.1 hcheck⟩
      exact ⟨_, file₁, rfl, hwrite, appended_of rfl rfl fun hlt => absurd hlt (not_lt.2 hunder)⟩

theorem rolling_create {basename : String} {rollSize flushInterval checkEveryN now : ℤ}
    (hname : '/' ∉ basename.toList) (hroll : 0 ≤ rollSize) (hcheck : 1 ≤ checkEveryN)
    (hnow : 0 < now) :
    ∃ l file, create timeText hostname pid basename rollSize flushInterval checkEveryN now = .ok l ∧
      Rolling timeText hostname pid l file ∧ l.lines = [] := by
  unfold create
  rw [check_bind hname]
  dsimp only
  generalize hl : (⟨basename, rollSize, flushInterval, checkEveryN, 0, 0, 0, 0, none, [], []⟩ : LogFile) = l
  rw [rollFile_eq]
  split_ifs with hlt
  · subst hl
    refine ⟨_, _, rfl, ⟨rfl, rfl, ⟨[], [], rfl, rfl, rfl⟩, List.pairwise_singleton _ _, ?_,
      ⟨le_rfl, hcheck⟩, hroll⟩, rfl⟩
    intro f hf
    rw [List.mem_singleton.1 hf]
    rfl
  · subst hl
    exact absurd hnow hlt

theorem Rolling.step (h : Rolling timeText hostname pid l file) (o : LogFileOp) :
    ∃ l' file', l.step timeText hostname pid o = .ok l' ∧ Rolling timeText hostname pid l' file' ∧
      Appended l o l' := by
  cases o with
  | append logline writes now nowRoll => exact h.append logline writes now nowRoll
  | flush =>
    refine ⟨l, file, ?_, h, (List.append_nil _).symm, nofun⟩
    rw [LogFile.step, flush, h.current]
    rfl
  | rollFile now =>
    obtain ⟨file', hroll, hlines, -, -⟩ := h.roll now
    exact ⟨_, file', rfl, hroll, hlines.trans (List.append_nil _).symm, nofun⟩

/-- Every run from the constructor: no line is lost or split, no file opened twice. -/
theorem logFile_run {basename : String} {rollSize flushInterval checkEveryN now : ℤ}
    (hname : '/' ∉ basename.toList) (hroll : 0 ≤ rollSize) (hcheck : 1 ≤ checkEveryN)
    (hnow : 0 < now) (ops : List LogFileOp) :
    ∃ l, create timeText hostname pid basename rollSize flushInterval checkEveryN now = .ok l ∧
      Intact timeText hostname pid l ∧ l.lines = [] ∧
      Holds (LogFile.step timeText hostname pid)
        (fun l o l' => Intact timeText hostname pid l' ∧ Appended l o l') l ops := by
  obtain ⟨l, file, hcreate, hrolling, hlines⟩ := rolling_create hname hroll hcheck hnow
  refine ⟨l, hcreate, hrolling.intact, hlines, ?_⟩
  refine holds_along (I := fun l => ∃ file, Rolling timeText hostname pid l file) (C := fun _ _ => True)
    (fun l o h _ => ?_) ⟨file, hrolling⟩ (along_true ops l)
  obtain ⟨file, h⟩ := h
  obtain ⟨l', file', hs, h', happended⟩ := h.step o
  exact ⟨l', hs, ⟨file', h'⟩, h'.intact, happended⟩

theorem logFile_run_sameSecond :
    ∃ l, create toString "host" 7 "log" 1 3 2 100 = .ok l ∧ Intact toString "host" 7 l ∧
      l.lines = [] ∧ Holds (LogFile.step toString "host" 7)
        (fun l o l' => Intact toString "host" 7 l' ∧ Appended l o l') l
        [.append [65, 10] [1] 101 101, .append [66, 10] [] 101 101] :=
  logFile_run (by decide) (by decide) (by decide) (by decide) _

end LogFile

end Czy
