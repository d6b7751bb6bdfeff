import Czy.Proofs.TypedMessages

/-! Headers prepended to the readable bytes. -/

namespace Czy.Net.Field

open StepRun

/-- The last field prepended is the first one to be read, and reading them all brings the old
bytes back. -/
structure Prepends (b : Buffer) (fs : List Field) : Prop where
  inFront : ∃ b', run prepend b fs = .ok b' ∧ b'.readable = fs.reverse.flatMap encoding ++ b.readable
  readBack : ∃ b' b'', run prepend b fs = .ok b' ∧ readAll fs.reverse b' = .ok (fs.reverse, b'') ∧
    b''.readable = b.readable

variable {b b' : Buffer} {f : Field} {fs : List Field}

theorem prepend_ok_iff : f.prepend b = .ok b' ↔ f.encoding.length ≤ b.prependableBytes ∧ b = b' := by
  rw [prepend_eq, Buffer.prepend, require_bind_ok]
  exact and_congr_right fun _ => ⟨fun h => by cases h; rfl, fun h => congrArg _ h⟩

theorem run_prepend (h : (fs.flatMap encoding).length ≤ b.prependableBytes) :
    run prepend b fs = .ok b := by
  induction fs with
  | nil => rfl
  | cons f fs ih =>
    rw [List.flatMap_cons, List.length_append] at h
    rw [run_cons (prepend_ok_iff.2 ⟨by omega, rfl⟩)]
    exact ih (by omega)

/-- Headers are put in front exactly where there is not a byte of them. -/
theorem prepends_iff (h : b.Inv) (hroom : (fs.flatMap encoding).length ≤ b.prependableBytes) :
    Prepends b fs ↔ ∀ f ∈ fs, f.encoding = [] := by
  have hrun := run_prepend hroom
  have hempty : fs.reverse.flatMap encoding = [] ↔ ∀ f ∈ fs, f.encoding = [] := by
    simp only [List.flatMap_eq_nil_iff, List.mem_reverse]
  constructor
  · rintro ⟨⟨b', hb', hread⟩, -⟩
    obtain rfl : b = b' := by rw [hrun] at hb'; cases hb'; rfl
    exact hempty.1 (List.self_eq_append_left.1 hread)
  · intro hall
    have hread : b.readable = fs.reverse.flatMap encoding ++ b.readable := by
      rw [hempty.2 hall, List.nil_append]
    obtain ⟨b'', hb'', -, hrest⟩ := readAll_front h hread
    exact ⟨⟨b, hrun, hread⟩, b, b'', hrun, hb'', hrest⟩

theorem prepends_nothing : Prepends (.new 16) [.bytes []] :=
  (prepends_iff (Buffer.new_inv 16) (by decide)).2 (by decide)

theorem prependInt32_lost : ¬ Prepends (.new 16) [.int32 4] := by
  rintro ⟨⟨b', hb', hread⟩, -⟩
  cases hb'
  exact absurd hread (by decide)

end Czy.Net.Field
