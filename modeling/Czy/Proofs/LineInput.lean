import Czy.Lib.Framing
import Czy.Lib.Run
import Czy.Sanity.Buffer
import Czy.Spec.LineInput

/-! The lines that are taken out of a `Buffer` are those of the stream, however it was cut. -/

namespace Czy.Net

open Buffer Framing StepRun

namespace Buffer

variable {b b' : Buffer}

theorem readable_eq_peek (b : Buffer) : Window.window b.buffer b.peek b.beginWriteConst = b.readable := rfl

theorem findCRLF_eq (h : b.Inv) : b.findCRLF =
    if Search.search kCRLF b.readable = b.readable.length then none
    else some (b.peek + Search.search kCRLF b.readable) := by
  have hend : b.peek + b.readable.length = b.beginWriteConst := by
    rw [readable_length h, readableBytes, peek, beginWriteConst, Nat.add_sub_cancel' h.order]
  rw [findCRLF, search, readable_eq_peek, ← hend]
  simp only [Nat.add_left_cancel_iff]

theorem findCRLF_none (h : b.Inv) :
    b.findCRLF = none ↔ Search.search kCRLF b.readable = b.readable.length := by
  rw [findCRLF_eq h]
  split
  · exact iff_of_true rfl ‹_›
  · exact iff_of_false (Option.some_ne_none _) ‹_›

theorem search_room (h : Search.search kCRLF b.readable < b.readable.length) :
    Search.search kCRLF b.readable + kCRLF.length ≤ b.readable.length := by
  have hlen := (Search.prefix_at_search h).length_le
  rw [List.length_drop] at hlen
  omega

theorem takeLine_cases (h : b.Inv) :
    (b.findCRLF = none ∧ b.takeLine = .ok (none, b)) ∨
    ∃ b', Search.search kCRLF b.readable < b.readable.length ∧
      b.takeLine = .ok (some (b.readable.take (Search.search kCRLF b.readable)), b') ∧ b'.Inv ∧
      b'.readable = b.readable.drop (Search.search kCRLF b.readable + kCRLF.length) := by
  have hle : Search.search kCRLF b.readable ≤ b.readable.length := Search.search_le
  rcases hle.eq_or_lt with heq | hlt
  · have hnone := (findCRLF_none h).2 heq
    exact .inl ⟨hnone, by rw [takeLine, hnone]⟩
  · have hroom := search_room hlt
    have hlen := readable_length h
    have hbytes : Search.search kCRLF b.readable ≤ b.readableBytes := by omega
    obtain ⟨b₁, hline, hinv₁, hread₁⟩ := retriveAsString_spec h hbytes
    have hdelimiter : kCRLF.length ≤ b₁.readableBytes := by
      rw [← readable_length hinv₁, hread₁, List.length_drop]
      omega
    obtain ⟨b₂, hcrlf, hinv₂, hread₂⟩ := retrive_spec hinv₁ hdelimiter
    refine .inr ⟨b₂, hlt, ?_, hinv₂, by rw [hread₂, hread₁, List.drop_drop]⟩
    rw [takeLine, findCRLF_eq h, if_neg hlt.ne]
    change (b.retriveAsString (b.peek + Search.search kCRLF b.readable - b.peek) >>= _) = _
    rw [Nat.add_sub_cancel_left, hline, ok_bind]
    change (b₁.retrive kCRLF.length >>= _) = _
    rw [hcrlf]
    rfl

theorem readFd_tail {offered : List UInt8} (h : b.Inv) (hfits : offered.length ≤ b.writeableBytes)
    (savedErrorno : ℤ) : ∃ b', b.readFd (.ok offered) savedErrorno =
        .ok (b', (offered.length : ℤ), savedErrorno) ∧ b'.Inv ∧ b'.readable = b.readable ++ offered := by
  have hreceived : b.received offered = offered := by
    rw [received, capacity]
    split
    · exact List.take_of_length_le (hfits.trans (Nat.le_add_right _ _))
    · exact List.take_of_length_le hfits
  have hspill : b.spill offered = [] := by
    rw [spill, hreceived]
    exact List.drop_eq_nil_iff.2 hfits
  obtain ⟨b', hok, hinv, hread⟩ := readFd_within h hspill savedErrorno
  rw [hreceived] at hok hread
  exact ⟨b', hok, hinv, hread⟩

end Buffer

namespace LineInput

variable {s s' : LineInput}

/-- The stream is the lines taken, and what is still readable. -/
structure Inv (s : LineInput) : Prop where
  buffer : s.buffer.Inv
  frames : Frames kCRLF s.received s.lines s.buffer.readable

theorem new_inv (n : ℕ) : Inv (new n) where
  buffer := Buffer.new_inv n
  frames := by
    change Frames kCRLF [] [] (Buffer.new n).readable
    rw [new_readable]
    exact .nil _ _

theorem step_inv (o : LineOp) (h : Inv s) (hfits : s.Fits o) : ∃ s', s.step o = .ok s' ∧ Inv s' := by
  cases o with
  | readFd r =>
    cases r with
    | error errno =>
      refine ⟨{ s with received := s.received ++ [] }, rfl, h.buffer, ?_⟩
      rw [List.append_nil]
      exact h.frames
    | ok offered =>
      obtain ⟨b', hok, hinv, hread⟩ := readFd_tail h.buffer hfits 0
      refine ⟨{ s with buffer := b', received := s.received ++ offered }, ?_, hinv, ?_⟩
      · rw [step, hok, ok_bind]
        simp only [Int.toNat_natCast, List.take_length]
        rfl
      · rw [hread]
        exact h.frames.append offered
  | takeLine =>
    rcases takeLine_cases h.buffer with ⟨-, hnone⟩ | ⟨b', hlt, hsome, hinv, hread⟩
    · refine ⟨{ s with lines := s.lines ++ [] }, by rw [step, hnone]; rfl, h.buffer, ?_⟩
      rw [List.append_nil]
      exact h.frames
    · refine ⟨_, by rw [step, hsome]; rfl, hinv, ?_⟩
      rw [hread]
      exact h.frames.next (List.cons_ne_nil _ _) hlt

/-- No read or line fails. Once no CRLF is left the lines are those of the stream: no division of
it into lines and a rest without a CRLF is another. -/
theorem lines_of_stream (n : ℕ) {os : List LineOp} (h : Along step Fits (new n) os) :
    ∃ s, run step (new n) os = .ok s ∧ Frames kCRLF s.received s.lines s.buffer.readable ∧
      (s.buffer.findCRLF = none → ∀ lines rest, Frames kCRLF s.received lines rest →
        Search.search kCRLF rest = rest.length → lines = s.lines ∧ rest = s.buffer.readable) := by
  obtain ⟨s, hok, hs⟩ := run_ok_along (fun s o hs ha => step_inv o hs ha) (new_inv n) h
  refine ⟨s, hok, hs.frames, fun hnone lines rest hframes hrest => ?_⟩
  exact hframes.unique (List.cons_ne_nil _ _) hrest hs.frames ((findCRLF_none hs.buffer).1 hnone)

def cutInDelimiter : List LineOp :=
  [.readFd (.ok [97, 98, 13]), .takeLine, .readFd (.error 11), .readFd (.ok [10, 99]), .takeLine,
    .readFd (.ok [13, 10, 100]), .takeLine, .takeLine]

theorem lines_of_stream_cut : ∃ s, run step (new 16) cutInDelimiter = .ok s ∧
    Frames kCRLF s.received s.lines s.buffer.readable ∧
      (s.buffer.findCRLF = none → ∀ lines rest, Frames kCRLF s.received lines rest →
        Search.search kCRLF rest = rest.length → lines = s.lines ∧ rest = s.buffer.readable) :=
  lines_of_stream 16 (by decide +kernel)

example : (run step (new 16) cutInDelimiter).toOption.map LineInput.lines = some [[97, 98], [99]] := by
  decide +kernel

end LineInput

end Czy.Net
