import Czy.Proofs.LogRolling
import Czy.Sanity.LogFile

/-! How long a log file is kept on. The clock is looked at once in `checkEveryN` lines: by
then the file is rolled, or it is of the day and has been flushed not long ago. -/

namespace Czy

open StepRun

/-- An `append` whose readings of the clock are past `last`. -/
def LogFileOp.AppendAfter (last : ℤ) : LogFileOp → Prop
  | .append _ _ now nowRoll => last < now ∧ last < nowRoll
  | .flush => False
  | .rollFile _ => False

instance (last : ℤ) (o : LogFileOp) : Decidable (o.AppendAfter last) :=
  match o with
  | .append _ _ _ _ => inferInstanceAs (Decidable (_ ∧ _))
  | .flush => .isFalse id
  | .rollFile _ => .isFalse id

/-- The first reading of the clock is of another day than the one that the file was opened on. -/
def LogFileOp.AnotherDay (startOfPeriod : ℤ) : LogFileOp → Prop
  | .append _ _ now _ => LogFile.periodOf now ≠ startOfPeriod
  | .flush => False
  | .rollFile _ => False

instance (start : ℤ) (o : LogFileOp) : Decidable (o.AnotherDay start) :=
  match o with
  | .append _ _ _ _ => inferInstanceAs (Decidable (_ ≠ _))
  | .flush => .isFalse id
  | .rollFile _ => .isFalse id

namespace LogFile

variable {timeText : ℤ → String} {hostname : String} {pid : ℕ} {l l' : LogFile} {file : AppendFile}

def Rolled (l l' : LogFile) : Prop := l'.files.length = l.files.length + 1

def FreshAfter (o : LogFileOp) (l : LogFile) : Prop :=
  match o with
  | .append _ _ now _ => l.startOfPeriod = periodOf now ∧ now - l.lastFlush ≤ l.flushInterval
  | _ => False

def Counted (l l' : LogFile) : Prop :=
  l'.count = l.count + 1 ∧ l'.count < l.checkEveryN ∧
    (l'.lastRoll, l'.startOfPeriod) = (l.lastRoll, l.startOfPeriod)

/-- What an `append` does besides writing its line, where the clock is past the last roll. -/
theorem append_cases (hflush : 0 ≤ l.flushInterval) {line : List UInt8}
    {writes : List ℕ} {now nowRoll : ℤ} (hnow : l.lastRoll < now) (hnowRoll : l.lastRoll < nowRoll)
    (hstep : l.step timeText hostname pid (.append line writes now nowRoll) = .ok l') :
    Rolled l l' ∨ (FreshAfter (.append line writes now nowRoll) l' ∧ l'.startOfPeriod = l.startOfPeriod) ∨
      Counted l l' := by
  have hrolls : ∀ {l₁ : LogFile} {now : ℤ}, l₁.files.length = l.files.length → l₁.lastRoll < now →
      Rolled l (l₁.rollFile timeText hostname pid now).1 := by
    intro l₁ now hlen hlt
    rw [rollFile_eq, if_pos hlt, Rolled, ← hlen]
    simp only [files, Option.toList_some, List.length_append, List.length_singleton]
  obtain ⟨file, hfile, hcases⟩ := appendUnlocked_cases hstep
  have hlen : (l.written file line writes).files.length = l.files.length := by
    simp only [files, written, hfile, Option.toList_some, List.length_append, List.length_singleton]
  rcases hcases with rfl | ⟨-, rfl⟩ | ⟨hperiod, rfl⟩ | ⟨hperiod, hrecent, rfl⟩ | ⟨hcount, rfl⟩
  · exact .inl (hrolls hlen hnow)
  · exact .inl (hrolls hlen hnowRoll)
  · exact .inr (.inl ⟨⟨hperiod.symm, (Int.sub_self now).trans_le hflush⟩, rfl⟩)
  · exact .inr (.inl ⟨⟨hperiod.symm, hrecent⟩, rfl⟩)
  · exact .inr (.inr ⟨rfl, hcount, rfl⟩)

structure Waiting (timeText : ℤ → String) (hostname : String) (pid : ℕ) (l₀ l : LogFile) : Prop where
  rolling : ∃ file, Rolling timeText hostname pid l file
  lastRoll : l.lastRoll = l₀.lastRoll
  period : l.startOfPeriod = l₀.startOfPeriod
  interval : 0 ≤ l.flushInterval

theorem Waiting.step {l₀ : LogFile} (h : Waiting timeText hostname pid l₀ l) {o : LogFileOp}
    (ho : o.AppendAfter l₀.lastRoll) : ∃ l', l.step timeText hostname pid o = .ok l' ∧
      ((Rolled l l' ∨ FreshAfter o l' ∧ l'.startOfPeriod = l₀.startOfPeriod) ∨
        Waiting timeText hostname pid l₀ l' ∧
          (l'.checkEveryN - l'.count).toNat < (l.checkEveryN - l.count).toNat) := by
  obtain ⟨file, hrolling⟩ := h.rolling
  cases o with
  | append line writes now nowRoll =>
    obtain ⟨l', file', hstep, hrolling', -⟩ := hrolling.step (.append line writes now nowRoll)
    refine ⟨l', hstep, ?_⟩
    rw [← h.lastRoll] at ho
    have hsettings := sameSettings_step hstep
    rcases append_cases h.interval ho.1 ho.2 hstep with hroll | ⟨hfresh, hperiod⟩ | ⟨hcount, hlt, hsame⟩
    · exact .inl (.inl hroll)
    · exact .inl (.inr ⟨hfresh, hperiod.trans h.period⟩)
    · obtain ⟨hlast, hperiod⟩ := Prod.mk.inj hsame
      refine .inr ⟨⟨⟨file', hrolling'⟩, hlast.trans h.lastRoll, hperiod.trans h.period,
        hsettings.interval ▸ h.interval⟩, ?_⟩
      rw [hsettings.every, hcount]
      omega
  | flush => exact ho.elim
  | rollFile now => exact ho.elim

theorem not_fresh_of_anotherDay {o : LogFileOp} {start : ℤ} (ho : o.AnotherDay start)
    (hperiod : l.startOfPeriod = start) : ¬ FreshAfter o l := by
  cases o with
  | append line writes now nowRoll =>
    intro h
    exact ho (h.1.symm.trans hperiod)
  | flush => exact ho.elim
  | rollFile now => exact ho.elim

end LogFile

end Czy
