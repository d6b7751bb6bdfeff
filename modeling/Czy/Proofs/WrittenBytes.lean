import Czy.Lib.Run
import Czy.Spec.AppendFile
import Mathlib.Tactic

/-! The bytes that a stream takes, and those that `written_bytes` counts. -/

namespace Czy.AppendFile

open StepRun

variable {content content' rest : List UInt8} {written written' : ℕ} {writes : List Fwrite}
  {file file' : AppendFile} {call : AppendCall} {calls : List AppendCall} {name : String}
  {openedAt : ℤ}

/-- The loop ends with an error, and with bytes that the stream has taken in that call. -/
def LosesCount : ℕ → List Fwrite → Prop
  | 0, _ => False
  | _ + 1, [] => False
  | remain + 1, write :: writes =>
    let n := min write.taken (remain + 1)
    if n ≠ remain + 1 ∧ write.error then n ≠ 0 else LosesCount (remain + 1 - n) writes

theorem appendLoopErr_spec (h : appendLoopErr content written rest writes = some (content', written')) :
    ∃ part, part <+: rest ∧ content' = content ++ part ∧ written' ≤ written + part.length ∧
      (written' = written + part.length ↔ ¬ LosesCount rest.length writes) := by
  induction writes generalizing content written rest with
  | nil =>
    cases rest with
    | nil =>
      cases h
      exact ⟨[], List.nil_prefix, by simp, by simp, by simp [LosesCount]⟩
    | cons c rest => cases h
  | cons write writes ih =>
    cases rest with
    | nil =>
      cases h
      exact ⟨[], List.nil_prefix, by simp, by simp, by simp [LosesCount]⟩
    | cons c rest =>
      rw [appendLoopErr] at h
      rw [List.length_cons, LosesCount]
      have hlen : ((c :: rest).take (min write.taken (rest.length + 1))).length =
          min write.taken (rest.length + 1) := by
        rw [List.length_take, List.length_cons]
        omega
      simp only [List.length_cons] at h ⊢
      split_ifs at h ⊢ with hfail
      · cases h
        exact ⟨_, List.take_prefix _ _, rfl, by omega, by rw [hlen]; omega⟩
      · obtain ⟨part, hpart, hcontent, hle, hcount⟩ := ih h
        rw [List.length_drop, List.length_cons] at hcount
        refine ⟨(c :: rest).take (min write.taken (rest.length + 1)) ++ part, ?_, ?_, ?_, ?_⟩
        · conv_rhs => rw [← List.take_append_drop (min write.taken (rest.length + 1)) (c :: rest)]
          exact (List.prefix_append_right_inj _).2 hpart
        · rw [hcontent, List.append_assoc]
        · rw [List.length_append, hlen]
          omega
        · rw [← hcount, List.length_append, hlen]
          omega

def CountLost (call : AppendCall) : Prop := LosesCount call.logline.length call.writes

theorem appendErr_spec (h : file.appendErr call = .ok file') :
    ∃ part, part <+: call.logline ∧ file'.content = file.content ++ part ∧
      file'.writeBytes ≤ file.writeBytes + part.length ∧
      (file'.writeBytes = file.writeBytes + part.length ↔ ¬ CountLost call) := by
  rw [appendErr] at h
  split at h
  · cases h
  · rename_i content written hloop
    cases h
    obtain ⟨part, hpart, hcontent, hle, hcount⟩ := appendLoopErr_spec hloop
    refine ⟨part, hpart, hcontent, ?_, ?_⟩
    · simp only
      omega
    · rw [CountLost, ← hcount]
      simp only
      omega

theorem appendLoopErr_eq (hok : ∀ write ∈ writes, write.error = false)
    (h : appendLoopErr content written rest writes = some (content', written')) :
    appendLoop content written rest (writes.map Fwrite.taken) = (content', written') := by
  induction writes generalizing content written rest with
  | nil =>
    cases rest with
    | nil => exact Option.some.inj h
    | cons c rest => cases h
  | cons write writes ih =>
    rw [List.forall_mem_cons] at hok
    cases rest with
    | nil => exact Option.some.inj h
    | cons c rest =>
      rw [appendLoopErr] at h
      simp only [hok.1, Bool.false_eq_true, and_false, if_false] at h
      have htake : (c :: rest).take (min write.taken (c :: rest).length) =
          (c :: rest).take write.taken := by
        rw [List.take_eq_take_iff]
        omega
      have hdrop : (c :: rest).drop (min write.taken (c :: rest).length) =
          (c :: rest).drop write.taken := by
        rw [List.drop_eq_drop_iff]
        omega
      rw [htake, hdrop] at h
      rw [List.map_cons, appendLoop, List.length_take]
      · exact ih hok.2 h
      · exact List.cons_ne_nil c rest

theorem appendErr_eq (hok : ∀ write ∈ call.writes, write.error = false)
    (h : file.appendErr call = .ok file') :
    file' = file.append call.logline (call.writes.map Fwrite.taken) := by
  rw [appendErr] at h
  split at h
  · cases h
  · rename_i content written hloop
    cases h
    rw [append, appendLoopErr_eq hok hloop]

/-- After every append that returns: the count is that of the bytes taken, and these are
beginnings of the lines, in order. -/
def CountsTaken (name : String) (openedAt : ℤ) (calls : List AppendCall) : Prop :=
  ∀ before after file, calls = before ++ after →
    run appendErr (new name openedAt) before = .ok file →
    file.writeBytes = file.content.length ∧
      ∃ parts, List.Forall₂ (· <+: ·) parts (before.map AppendCall.logline) ∧
        file.content = parts.flatten

theorem run_taken (h : run appendErr file calls = .ok file') :
    ∃ parts, List.Forall₂ (· <+: ·) parts (calls.map AppendCall.logline) ∧
      file'.content = file.content ++ parts.flatten := by
  induction calls generalizing file with
  | nil =>
    cases h
    exact ⟨[], .nil, by simp⟩
  | cons call calls ih =>
    obtain ⟨file₁, h₁, hrest⟩ := run_cons_ok h
    obtain ⟨part, hpart, hcontent, -, -⟩ := appendErr_spec h₁
    obtain ⟨parts, hparts, hall⟩ := ih hrest
    exact ⟨part :: parts, .cons hpart hparts, by rw [hall, hcontent, List.append_assoc]; rfl⟩

/-- What has not been counted once is never made up for. -/
theorem run_counted_iff (hcounted : file.writeBytes = file.content.length)
    (h : run appendErr file calls = .ok file') :
    file'.writeBytes = file'.content.length ↔ ∀ call ∈ calls, ¬ CountLost call := by
  have hnever : file'.writeBytes ≤ file'.content.length :=
    run_inv (I := fun (file : AppendFile) => file.writeBytes ≤ file.content.length)
      (fun file call file' hle h => by
        obtain ⟨part, -, hcontent, hpart, -⟩ := appendErr_spec h
        rw [hcontent, List.length_append]
        omega) hcounted.le h
  rw [← along_forall_iff h, ← last_iff_along
    (I := fun (file : AppendFile) => file.writeBytes = file.content.length)
    (Q := fun (file : AppendFile) => file.content.length ≤ file.writeBytes) (fun file h => h.ge) ?_ ?_ ?_ hcounted h]
  · omega
  · intro file call file' h hle
    obtain ⟨part, -, hcontent, hpart, -⟩ := appendErr_spec h
    rw [hcontent, List.length_append] at hle
    omega
  · intro file call file' hsame h
    obtain ⟨part, -, hcontent, hpart, hcount⟩ := appendErr_spec h
    rw [← hcount, hcontent, List.length_append]
    omega
  · intro file call file' hsame h hle
    obtain ⟨part, -, hcontent, hpart, -⟩ := appendErr_spec h
    rw [hcontent, List.length_append] at hle ⊢
    omega

/-- The count is right as long as no call of `fwrite_unlocked` takes some of what it is offered
and fails at the rest. -/
theorem countsTaken_iff (h : run appendErr (new name openedAt) calls = .ok file) :
    CountsTaken name openedAt calls ↔ ∀ call ∈ calls, ¬ CountLost call := by
  constructor
  · intro hcounts
    exact (run_counted_iff rfl h).1 (hcounts calls [] file (List.append_nil _).symm h).1
  · rintro hclean before after file' rfl hrun
    obtain ⟨parts, hparts, hcontent⟩ := run_taken hrun
    refine ⟨(run_counted_iff rfl hrun).2 fun call hcall => ?_, parts, hparts, hcontent⟩
    exact hclean call (List.mem_append_left _ hcall)

/-- A short call without an error, then an error that takes nothing. -/
theorem countsTaken_short :
    CountsTaken "log" 0 [⟨[97, 98, 99], [⟨2, false⟩, ⟨0, true⟩]⟩] ↔
      ∀ call ∈ [(⟨[97, 98, 99], [⟨2, false⟩, ⟨0, true⟩]⟩ : AppendCall)], ¬ CountLost call :=
  countsTaken_iff (show run appendErr (new "log" 0) _ = .ok ⟨"log", 0, [97, 98], 2⟩ from rfl)

/-- The stream takes one byte of two and fails: `written_bytes()` is 0. -/
theorem not_countsTaken : ¬ CountsTaken "log" 0 [⟨[97, 98], [⟨1, true⟩]⟩] := by
  intro hcounts
  have hcount := (hcounts [⟨[97, 98], [⟨1, true⟩]⟩] [] ⟨"log", 0, [97], 0⟩ rfl rfl).1
  exact absurd hcount (by decide)

end Czy.AppendFile
