import Czy.Proofs.LoggingBackEnd

/-! Lines between two visits of the back end: where `append` puts them. -/

namespace Czy.AsyncLogging

open StepRun

def queue (l : AsyncLogging) : List BufferPtr := l.buffers ++ [l.currentBuffer]

def kept (lines : List (List UInt8)) : List (List UInt8) :=
  lines.filter fun line => line.length < kLargeBuffer

/-- The lines kept are appended in order, the first ones to the buffer that was current and
each other one, with its neighbours, to a later buffer. -/
structure KeepsLines (l : AsyncLogging) (lines : List (List UInt8)) (l' : AsyncLogging) : Prop where
  grown : (queue l').flatMap bytes = (queue l).flatMap bytes ++ (kept lines).flatten
  whole : ∃ (first : List (List UInt8)) (later : List (List (List UInt8))),
    first ++ later.flatten = kept lines ∧ (queue l').map bytes =
      l.buffers.map bytes ++ (bytes l.currentBuffer ++ first.flatten) :: later.map List.flatten

/-- There is a current buffer, and the next one is null or empty. -/
structure Ready (l : AsyncLogging) : Prop where
  current : l.currentBuffer.isSome = true
  next : ∀ b ∈ l.nextBuffer, b.data = []

variable {l l' : AsyncLogging} {line : List UInt8} {lines : List (List UInt8)}

theorem kept_cons : kept (line :: lines) =
    (if line.length < kLargeBuffer then [line] else []) ++ kept lines := by
  unfold kept
  rw [List.filter_cons]
  by_cases h : line.length < kLargeBuffer
  · rw [if_pos (decide_eq_true h), if_pos h]
    rfl
  · rw [if_neg (by simpa using h), if_neg h]
    rfl

theorem append_empty {b : FixBuffer kLargeBuffer} (hb : b.data = []) : (b.append line).data =
    (if line.length < kLargeBuffer then [line] else []).flatten := by
  rw [FixBuffer.append_data, FixBuffer.avail, hb, List.nil_append, List.length_nil, Nat.sub_zero]
  split
  · exact (List.append_nil _).symm
  · rfl

theorem append_line (h : Ready l) (line : List UInt8) :
    ∃ l', l.append line = .ok l' ∧ Ready l' ∧
      (line.length < kLargeBuffer ∧ l'.buffers = l.buffers ∧
          bytes l'.currentBuffer = bytes l.currentBuffer ++ line ∨
        l'.buffers = l.buffers ++ [l.currentBuffer] ∧ bytes l'.currentBuffer =
          (if line.length < kLargeBuffer then [line] else []).flatten) := by
  obtain ⟨current, hcurrent⟩ := Option.isSome_iff_exists.1 h.current
  unfold append
  rw [hcurrent, deref_some, ok_bind]
  split
  next havail =>
    have hlt : line.length < kLargeBuffer := Nat.lt_of_lt_of_le havail (Nat.sub_le _ _)
    refine ⟨_, rfl, ⟨rfl, h.next⟩, .inl ⟨hlt, rfl, ?_⟩⟩
    change (current.append line).data = current.data ++ line
    rw [FixBuffer.append_data, if_pos havail]
  next =>
    refine ⟨_, rfl, ⟨rfl, nofun⟩, .inr ⟨rfl, append_empty ?_⟩⟩
    cases hnext : l.nextBuffer with
    | none => rfl
    | some b => exact h.next b hnext

theorem map_bytes_queue (l : AsyncLogging) :
    (queue l).map bytes = l.buffers.map bytes ++ [bytes l.currentBuffer] := by
  rw [queue, List.map_append]
  rfl

/-- That the lines are whole says where all the bytes are. -/
theorem KeepsLines.of_whole (h : ∃ (first : List (List UInt8)) (later : List (List (List UInt8))),
    first ++ later.flatten = kept lines ∧ (queue l').map bytes =
      l.buffers.map bytes ++ (bytes l.currentBuffer ++ first.flatten) :: later.map List.flatten) :
    KeepsLines l lines l' := by
  refine ⟨?_, h⟩
  obtain ⟨first, later, hkept, hqueue⟩ := h
  rw [List.flatMap_def, hqueue, List.flatMap_def, map_bytes_queue, ← hkept]
  simp only [List.flatten_append, List.flatten_cons, List.flatten_nil, List.append_nil,
    List.append_assoc, List.flatten_flatten]

theorem run_keeps (lines : List (List UInt8)) : ∀ {l : AsyncLogging}, Ready l →
    ∃ l', run append l lines = .ok l' ∧ Ready l' ∧ KeepsLines l lines l' := by
  induction lines with
  | nil =>
    intro l h
    refine ⟨l, rfl, h, .of_whole ⟨[], [], rfl, ?_⟩⟩
    rw [map_bytes_queue, List.flatten_nil, List.append_nil]
    rfl
  | cons line lines ih =>
    intro l h
    obtain ⟨l₁, hl₁, h₁, hcases⟩ := append_line h line
    obtain ⟨l', hrun, h', hkeeps⟩ := ih h₁
    refine ⟨l', by rw [run_cons hl₁, hrun], h', .of_whole ?_⟩
    obtain ⟨first, later, hkept, hqueue⟩ := hkeeps.whole
    rcases hcases with ⟨hlt, hbuffers, hcurrent⟩ | ⟨hbuffers, hcurrent⟩
    · refine ⟨line :: first, later, ?_, ?_⟩
      · rw [kept_cons, if_pos hlt, ← hkept]
        rfl
      · rw [hqueue, hbuffers, hcurrent, List.flatten_cons, List.append_assoc]
    · refine ⟨[], ((if line.length < kLargeBuffer then [line] else []) ++ first) :: later, ?_, ?_⟩
      · rw [kept_cons, ← hkept, List.flatten_cons, List.nil_append, List.append_assoc]
      · rw [hqueue, hbuffers, hcurrent, List.map_append]
        simp

/-- The lines shorter than a buffer are kept whole and in order, and after each call there is
a current buffer. -/
theorem append_keeps_lines (h : Ready l) (lines : List (List UInt8)) :
    Holds append (fun _ _ l' => l'.currentBuffer.isSome = true) l lines ∧
      ∃ l', run append l lines = .ok l' ∧ KeepsLines l lines l' := by
  obtain ⟨l', hrun, -, hkeeps⟩ := run_keeps lines h
  refine ⟨holds_along (I := Ready) (C := fun _ _ => True) (fun l line h _ => ?_) h
    (along_true lines l), l', hrun, hkeeps⟩
  obtain ⟨l₁, hl₁, h₁, -⟩ := append_line h line
  exact ⟨l₁, hl₁, h₁, h₁.current⟩

theorem append_keeps_lines_start :
    Holds append (fun _ _ l' => l'.currentBuffer.isSome = true) new [[104, 105], [10]] ∧
      ∃ l', run append new [[104, 105], [10]] = .ok l' ∧ KeepsLines new [[104, 105], [10]] l' :=
  append_keeps_lines ⟨rfl, by rintro b ⟨⟩; rfl⟩ _

end Czy.AsyncLogging
