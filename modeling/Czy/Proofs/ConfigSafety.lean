import Czy.Sanity.ConfigFile

/-! The files that `Load_file` reads without harm. -/

namespace Czy.ConfigureFileReader

open CString

/-- `Load_file` returns, and its loop has come to the end of the file by then: further
rounds change nothing. -/
def LoadsSafely (r : ConfigureFileReader) (content buf : List UInt8) : Prop :=
  ∃ r', r.loadFile (some content) buf = .ok r' ∧
    ∀ rounds ≥ content.length, loadLoop rounds content buf r.configureMap = .ok r'.configureMap

/-- Nothing but blanks, or no blank at the end. -/
def Trimmable (s : List UInt8) : Prop := s.all isBlank = true ∨ s.getLast?.any isBlank = false

/-- Nothing is left of the line without its comment, or an '=', with strings on both sides
that can be trimmed. -/
def Readable (text : List UInt8) : Prop :=
  uncommented text = [] ∨ ∃ key value, cutAt 61 (uncommented text) = some (key, value) ∧
    Trimmable key ∧ Trimmable value

variable {s text : List UInt8} {m : ConfigMap}

theorem trimmed_ok_iff : (∃ t, trimmed s = .ok t) ↔ Trimmable s := by
  unfold trimmed Trimmable
  split_ifs with hall hlast
  · exact iff_of_true ⟨none, rfl⟩ (.inl hall)
  · refine iff_of_false (by rintro ⟨_, ⟨⟩⟩) ?_
    rintro (h | h)
    · exact hall h
    · rw [hlast] at h
      cases h
  · exact iff_of_true ⟨_, rfl⟩ (.inr (Bool.eq_false_iff.2 hlast))

theorem loadText_ok_iff : (∃ m', loadText m text = .ok m') ↔ Readable text := by
  unfold loadText Readable
  by_cases hnil : uncommented text = []
  · rw [if_pos hnil]
    exact iff_of_true ⟨m, rfl⟩ (.inl hnil)
  · rw [if_neg hnil, or_iff_right hnil, enter]
    cases hcut : cutAt 61 (uncommented text) with
    | none =>
      refine iff_of_false ?_ ?_
      · rintro ⟨_, ⟨⟩⟩
      · rintro ⟨_, _, ⟨⟩, -⟩
    | some split =>
      obtain ⟨key, value⟩ := split
      simp only [Option.some.injEq, Prod.mk.injEq, ← trimmed_ok_iff]
      constructor
      · rintro ⟨m', h⟩
        obtain ⟨k, hk, h₁⟩ := bind_ok.1 h
        obtain ⟨v, hv, -⟩ := bind_ok.1 h₁
        exact ⟨key, value, ⟨rfl, rfl⟩, ⟨k, hk⟩, ⟨v, hv⟩⟩
      · rintro ⟨_, _, ⟨rfl, rfl⟩, ⟨k, hk⟩, ⟨v, hv⟩⟩
        simp only [hk, hv, ok_bind]
        cases k <;> cases v <;> exact ⟨_, rfl⟩

theorem foldlM_loadText_ok_iff {texts : List (List UInt8)} :
    (∃ m', texts.foldlM loadText m = .ok m') ↔ ∀ text ∈ texts, Readable text := by
  induction texts generalizing m with
  | nil => exact iff_of_true ⟨m, rfl⟩ (by simp)
  | cons text texts ih =>
    rw [List.forall_mem_cons, ← loadText_ok_iff (m := m), List.foldlM_cons]
    constructor
    · rintro ⟨m', h⟩
      obtain ⟨m₁, hm₁, hrest⟩ := bind_ok.1 h
      exact ⟨⟨m₁, hm₁⟩, ih.1 ⟨m', hrest⟩⟩
    · rintro ⟨⟨m₁, hm₁⟩, hrest⟩
      obtain ⟨m', hm'⟩ := (ih (m := m₁)).2 hrest
      exact ⟨m', bind_ok.2 ⟨m₁, hm₁, hm'⟩⟩

theorem loadFile_ok_iff {r r' : ConfigureFileReader} {content buf : List UInt8} :
    r.loadFile (some content) buf = .ok r' ↔ ∃ m',
      (lines 10 255 content.length content).foldlM loadText r.configureMap = .ok m' ∧
        r' = { r with configureMap := m', loadOk := true } := by
  rw [loadFile, bind_ok, loadLoop_eq, lines_rounds (Nat.le_succ _) le_rfl]
  exact exists_congr fun m' => and_congr_right fun _ =>
    ⟨fun h => (Except.ok.inj h).symm, fun h => congrArg Except.ok h.symm⟩

/-- A file is loaded without harm exactly when all its lines can be read. -/
theorem load_safely_iff (r : ConfigureFileReader) (content buf : List UInt8) :
    LoadsSafely r content buf ↔ ∀ text ∈ lines 10 255 content.length content, Readable text := by
  rw [← foldlM_loadText_ok_iff (m := r.configureMap)]
  constructor
  · rintro ⟨r', hr', -⟩
    obtain ⟨m', hm', -⟩ := loadFile_ok_iff.1 hr'
    exact ⟨m', hm'⟩
  · rintro ⟨m', hm'⟩
    refine ⟨_, loadFile_ok_iff.2 ⟨m', hm', rfl⟩, fun rounds hr => ?_⟩
    rw [loadLoop_eq, lines_rounds hr le_rfl, hm']

/-- An empty line is enough to make `strchr` return the null pointer that is written to, and a
blank in front of an '=' for the end pointer to become null. -/
theorem load_safely_fails :
    ¬ LoadsSafely ⟨false, ∅, []⟩ [10] [] ∧ ¬ LoadsSafely ⟨false, ∅, []⟩ [107, 32, 61, 49, 10] [] := by
  constructor
  · rintro ⟨r', hr', -⟩
    cases hr'
  · rintro ⟨r', hr', -⟩
    cases hr'

end Czy.ConfigureFileReader
