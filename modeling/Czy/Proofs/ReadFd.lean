import Czy.Sanity.Buffer

/-! What `readFd` adds to the readable bytes. -/

namespace Czy.Net.Buffer

/-- The bytes received are appended; after an error nothing is, and the errno is saved. -/
def ReadsExactly (b : Buffer) (r : Except ℤ (List UInt8)) (savedErrorno : ℤ) : Prop :=
  ∃ b' n saved, b.readFd r savedErrorno = .ok (b', n, saved) ∧ match r with
    | .error errno => b'.readable = b.readable ∧ n < 0 ∧ saved = errno
    | .ok offered => b'.readable = b.readable ++ b.received offered ∧
        n = (b.received offered).length ∧ saved = savedErrorno

/-- Nothing spills into the stack buffer, or the spilled bytes fit in front of the readable ones
and only repeat bytes that lie in the right places already. -/
def Undisturbed (b : Buffer) : Except ℤ (List UInt8) → Prop
  | .error _ => True
  | .ok offered => b.spill offered = [] ∨
      (b.spill offered).length + kCheapPrepend ≤ b.readIndex ∧
        (b.filled offered).Repeats (b.spill offered)

variable {b : Buffer} {offered : List UInt8}

instance (b : Buffer) (r : Except ℤ (List UInt8)) : Decidable (b.Undisturbed r) :=
  match r with
  | .error _ => .isTrue trivial
  | .ok _ => inferInstanceAs (Decidable (_ ∨ _))

theorem filled_fits (h : b.Inv) (hspill : b.spill offered ≠ []) :
    (b.filled offered).Fits (b.spill offered).length ↔
      (b.spill offered).length + kCheapPrepend ≤ b.readIndex := by
  have hpos := List.length_pos_iff.2 hspill
  have hfull : (b.filled offered).writeableBytes = 0 := by
    simp only [filled, writeableBytes, length_tailFilled h, Nat.sub_self]
  unfold Fits
  rw [hfull]
  simp only [filled, prependableBytes]
  omega

theorem append_spill_exact (h : b.Inv) (hspill : b.spill offered ≠ []) :
    (∃ b', (b.filled offered).append (b.spill offered) = .ok b' ∧
        b'.readable = b.readable ++ b.received offered) ↔
      (b.spill offered).length + kCheapPrepend ≤ b.readIndex ∧
        (b.filled offered).Repeats (b.spill offered) := by
  have hsplit : b.readable ++ b.received offered =
      (b.filled offered).readable ++ b.spill offered := by
    rw [filled_readable h hspill, spill, List.append_assoc, List.take_append_drop]
  rw [hsplit, append_exact (filled_inv h offered), filled_fits h hspill]

/-- `readFd` appends exactly what was received where nothing is disturbed. -/
theorem readFd_exact_iff (h : b.Inv) (r : Except ℤ (List UInt8)) (savedErrorno : ℤ) :
    b.ReadsExactly r savedErrorno ↔ b.Undisturbed r := by
  cases r with
  | error errno => exact iff_of_true ⟨b, -1, errno, rfl, rfl, by decide, rfl⟩ trivial
  | ok offered =>
    by_cases hspill : b.spill offered = []
    · obtain ⟨b', hb', -, hread⟩ := readFd_within h hspill savedErrorno
      exact iff_of_true ⟨b', _, _, hb', hread, rfl, rfl⟩ (Or.inl hspill)
    · rw [Undisturbed, or_iff_right hspill, ← append_spill_exact h hspill, ReadsExactly,
        readFd_spill h hspill]
      constructor
      · rintro ⟨b', n, saved, hr, hread, -⟩
        obtain ⟨b₁, hb₁, hres⟩ := map_ok.1 hr
        cases hres
        exact ⟨_, hb₁, hread⟩
      · rintro ⟨b₁, hb₁, hread⟩
        refine ⟨b₁, _, _, ?_, hread, rfl, rfl⟩
        rw [hb₁]
        rfl

theorem readFd_exact_tail : (new 4).ReadsExactly (.ok [1, 2, 3, 4]) 0 :=
  (readFd_exact_iff (new_inv 4) _ 0).2 (by decide)

/-- One byte more than the tail takes: the vector would have to grow. -/
theorem readFd_spills : ¬ (new 4).ReadsExactly (.ok [1, 2, 3, 4, 5]) 0 := by
  rintro ⟨b', n, saved, hr, -⟩
  cases hr

end Czy.Net.Buffer
