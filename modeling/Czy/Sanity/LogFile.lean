import Czy.Spec.LogFile

/-! What an `append` to a rolling log file can come to, and what no operation touches. -/

namespace Czy.LogFile

variable {timeText : ℤ → String} {hostname : String} {pid : ℕ} {l l' : LogFile}

def written (l : LogFile) (file : AppendFile) (line : List UInt8) (writes : List ℕ) : LogFile :=
  { l with file := some (file.append line writes), lines := l.lines ++ [line] }

/-- What `roll_file` does, by the clock. -/
theorem rollFile_eq (timeText : ℤ → String) (hostname : String) (pid : ℕ) (l : LogFile) (now : ℤ) :
    (l.rollFile timeText hostname pid now).1 = if l.lastRoll < now then { l with
      lastRoll := now
      lastFlush := now
      startOfPeriod := periodOf now
      file := some (AppendFile.new (getLogFilename timeText hostname pid l.basename now) now)
      closed := l.closed ++ l.file.toList } else l := by
  unfold rollFile
  dsimp only
  split <;> rfl

/-- By size, by the day, with a flush, without one, or with the clock not looked at. -/
theorem appendUnlocked_cases {line : List UInt8} {writes : List ℕ} {now nowRoll : ℤ}
    (h : l.appendUnlocked timeText hostname pid line writes now nowRoll = .ok l') :
    ∃ file, l.file = some file ∧
      (l' = ((l.written file line writes).rollFile timeText hostname pid now).1 ∨
      (periodOf now ≠ l.startOfPeriod ∧
        l' = ({ l.written file line writes with count := 0 }.rollFile timeText hostname pid nowRoll).1) ∨
      (periodOf now = l.startOfPeriod ∧
        l' = { l.written file line writes with count := 0, lastFlush := now }) ∨
      (periodOf now = l.startOfPeriod ∧ now - l.lastFlush ≤ l.flushInterval ∧
        l' = { l.written file line writes with count := 0 }) ∨
      (l.count + 1 < l.checkEveryN ∧ l' = { l.written file line writes with count := l.count + 1 })) := by
  obtain ⟨file, hfile, hrest⟩ := bind_ok.1 h
  have hcurrent : l.file = some file := by
    cases hl : l.file with
    | none => rw [hl] at hfile; cases hfile
    | some f => rw [hl] at hfile; cases hfile; rfl
  refine ⟨file, hcurrent, ?_⟩
  dsimp only at hrest
  split at hrest
  · cases hrest
    exact .inl rfl
  · split at hrest
    · split at hrest
      · rename_i hperiod
        cases hrest
        exact .inr (.inl ⟨hperiod, rfl⟩)
      · rename_i hperiod
        have hperiod := not_not.1 hperiod
        split at hrest
        · cases hrest
          exact .inr (.inr (.inl ⟨hperiod, rfl⟩))
        · rename_i hrecent
          cases hrest
          exact .inr (.inr (.inr (.inl ⟨hperiod, Int.not_lt.1 hrecent, rfl⟩)))
    · rename_i hcount
      cases hrest
      exact .inr (.inr (.inr (.inr ⟨Int.not_le.1 hcount, rfl⟩)))

/-- The settings of the constructor. -/
structure SameSettings (l l' : LogFile) : Prop where
  every : l'.checkEveryN = l.checkEveryN
  interval : l'.flushInterval = l.flushInterval

theorem SameSettings.roll (h : SameSettings l l') (now : ℤ) :
    SameSettings l (l'.rollFile timeText hostname pid now).1 := by
  rw [rollFile_eq]
  split <;> exact ⟨h.every, h.interval⟩

/-- The members before the constructor opens the first file. -/
def initial (basename : String) (rollSize flushInterval checkEveryN : ℤ) : LogFile :=
  ⟨basename, rollSize, flushInterval, checkEveryN, 0, 0, 0, 0, none, [], []⟩

theorem create_eq {basename : String} {rollSize flushInterval checkEveryN now : ℤ}
    (h : create timeText hostname pid basename rollSize flushInterval checkEveryN now = .ok l) :
    l = ((initial basename rollSize flushInterval checkEveryN).rollFile timeText hostname pid now).1 := by
  obtain ⟨_, -, hl⟩ := bind_ok.1 h
  exact (Except.ok.inj hl).symm

theorem create_settings {basename : String} {rollSize flushInterval checkEveryN now : ℤ}
    (h : create timeText hostname pid basename rollSize flushInterval checkEveryN now = .ok l) :
    l.checkEveryN = checkEveryN ∧ l.flushInterval = flushInterval := by
  have hself : SameSettings (initial basename rollSize flushInterval checkEveryN)
    (initial basename rollSize flushInterval checkEveryN) := ⟨rfl, rfl⟩
  have hroll : SameSettings (initial basename rollSize flushInterval checkEveryN) l := by
    rw [create_eq h]
    exact hself.roll now
  exact ⟨hroll.every, hroll.interval⟩

theorem sameSettings_step {o : LogFileOp} (h : l.step timeText hostname pid o = .ok l') :
    SameSettings l l' := by
  cases o with
  | append line writes now nowRoll =>
    obtain ⟨file, -, hcases⟩ := appendUnlocked_cases h
    have hwritten : SameSettings l (l.written file line writes) := ⟨rfl, rfl⟩
    have hcounted : SameSettings l { l.written file line writes with count := 0 } := ⟨rfl, rfl⟩
    rcases hcases with rfl | ⟨-, rfl⟩ | ⟨-, rfl⟩ | ⟨-, -, rfl⟩ | ⟨-, rfl⟩
    · exact hwritten.roll now
    · exact hcounted.roll nowRoll
    · exact ⟨rfl, rfl⟩
    · exact ⟨rfl, rfl⟩
    · exact ⟨rfl, rfl⟩
  | flush =>
    obtain ⟨_, -, h⟩ := bind_ok.1 h
    cases h
    exact ⟨rfl, rfl⟩
  | rollFile now =>
    cases h
    have hself : SameSettings l l := ⟨rfl, rfl⟩
    exact hself.roll now

end Czy.LogFile
