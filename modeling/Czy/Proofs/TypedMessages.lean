import Czy.Lib.Run
import Czy.Sanity.BufferInts

/-! Messages of typed fields that are appended to a buffer and read from it again. -/

namespace Czy.Net

open StepRun

namespace Field

def readAll : List Field → Buffer → Except Fault (List Field × Buffer)
  | [], b => .ok ([], b)
  | f :: fs, b => do
    let (g, b) ← f.readLike b
    let (gs, b) ← readAll fs b
    return (g :: gs, b)

/-- After every append the readable bytes are the encodings so far; reading gives the fields
back and leaves nothing. -/
structure RoundTrips (b : Buffer) (fs : List Field) : Prop where
  inOrder : Holds append (fun b f b' => b'.readable = b.readable ++ f.encoding) b fs
  readBack : ∃ b' b'', run append b fs = .ok b' ∧ b'.readable = fs.flatMap encoding ∧
    readAll fs b' = .ok (fs, b'') ∧ b''.readableBytes = 0

/-- The vector need not grow, and the field only repeats bytes that lie in the right places
already. -/
def Tame (b : Buffer) (f : Field) : Prop :=
  b.Fits f.encoding.length ∧ b.Repeats f.encoding

instance (b : Buffer) (f : Field) : Decidable (f.Tame b) := inferInstanceAs (Decidable (_ ∧ _))

variable {b b' : Buffer} {f : Field} {fs : List Field} {rest : List UInt8}

theorem append_tame_iff (h : b.Inv) :
    (∃ b', f.append b = .ok b' ∧ b'.readable = b.readable ++ f.encoding) ↔ f.Tame b := by
  rw [append_eq]
  exact Buffer.append_exact h

theorem append_inv (h : b.Inv) (ha : f.append b = .ok b') : b'.Inv := by
  rw [append_eq] at ha
  exact (Buffer.append_ok h ha).2.1

theorem readable_of_inOrder (h : b.Inv)
    (hall : Holds append (fun b f b' => b'.readable = b.readable ++ f.encoding) b fs) :
    ∃ b', run append b fs = .ok b' ∧ b'.Inv ∧ b'.readable = b.readable ++ fs.flatMap encoding := by
  induction fs generalizing b with
  | nil => exact ⟨b, rfl, h, (List.append_nil _).symm⟩
  | cons f fs ih =>
    obtain ⟨b₁, hb₁, hread, hrest⟩ := hall
    obtain ⟨b', hb', hinv, hread'⟩ := ih (append_inv h hb₁) hrest
    refine ⟨b', by rw [run_cons hb₁, hb'], hinv, ?_⟩
    rw [hread', hread, List.flatMap_cons, List.append_assoc]

theorem readAll_front (h : b.Inv) (hread : b.readable = fs.flatMap encoding ++ rest) :
    ∃ b', readAll fs b = .ok (fs, b') ∧ b'.Inv ∧ b'.readable = rest := by
  induction fs generalizing b with
  | nil => exact ⟨b, rfl, h, hread⟩
  | cons f fs ih =>
    rw [List.flatMap_cons, List.append_assoc] at hread
    obtain ⟨b₁, hb₁, hinv₁, hread₁⟩ := readLike_front h hread
    obtain ⟨b', hb', hinv, hrest⟩ := ih hinv₁ hread₁
    refine ⟨b', ?_, hinv, hrest⟩
    rw [readAll, hb₁, ok_bind]
    simp only [hb', ok_bind]
    rfl

/-- Typed messages make the round trip exactly where every append is tame. -/
theorem messages_roundTrip_iff (h : b.Inv) (hempty : b.readableBytes = 0) (fs : List Field) :
    RoundTrips b fs ↔ Along append (fun b f => f.Tame b) b fs := by
  have horder : Holds append (fun b f b' => b'.readable = b.readable ++ f.encoding) b fs ↔
      Along append (fun b f => f.Tame b) b fs :=
    holds_iff_along (I := Buffer.Inv) (P := fun _ _ => True) (fun b f hi _ => append_tame_iff hi)
      (fun b f b' hi _ ha _ => append_inv (f := f) hi ha) h (along_true fs b)
  refine ⟨fun hround => horder.1 hround.inOrder, fun htame => ?_⟩
  have hall := horder.2 htame
  obtain ⟨b', hb', hinv, hread⟩ := readable_of_inOrder h hall
  rw [(Buffer.readable_eq_nil h).2 hempty, List.nil_append] at hread
  have hwhole : b'.readable = fs.flatMap encoding ++ [] := by rw [hread, List.append_nil]
  obtain ⟨b'', hb'', hinv', hrest⟩ := readAll_front hinv hwhole
  exact ⟨hall, b', b'', hb', hread, hb'', (Buffer.readable_eq_nil hinv').1 hrest⟩

theorem messages_roundTrip_single : RoundTrips (.new 16) [.int32 0x01020304] :=
  (messages_roundTrip_iff (Buffer.new_inv 16) rfl _).2 (by decide)

theorem messages_overwritten : ¬ RoundTrips (.new 16) [.int16 0x0102, .int16 0x0304] := by
  rintro ⟨-, b', b'', hrun, hread, -⟩
  cases hrun
  exact absurd hread (by decide)

end Field

end Czy.Net
