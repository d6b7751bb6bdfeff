import Czy.Proofs.ByteQueue
import Czy.Sanity.BufferInts

/-! The indices of a buffer, and the room that `ensureWriteableBytes` promises, over any
sequence of calls on any number of buffers. -/

namespace Czy.Net

open StepRun

/-- The operations of `BufferOp`, and those that are not operations of a byte queue. -/
inductive BufferCall (ι : Type)
  | op (o : BufferOp ι)
  | appendField (i : ι) (f : Field)
  | hasWritten (i : ι) (len : ℕ)
  | readFd (i : ι) (r : Except ℤ (List UInt8)) (savedErrorno : ℤ)

namespace Buffers

variable {ι : Type} [DecidableEq ι]

def call (s : Buffers ι) : BufferCall ι → Except Fault (Buffers ι)
  | .op o => s.step o
  | .appendField i f => s.set i (f.append (s.buf i))
  | .hasWritten i len => s.set i ((s.buf i).hasWritten len)
  | .readFd i r savedErrorno => s.set i (((s.buf i).readFd r savedErrorno).map fun res => res.1)

def Precondition (s : Buffers ι) : BufferCall ι → Prop
  | .op o => s.Asserted o
  | .hasWritten i len => len ≤ (s.buf i).writeableBytes
  | _ => True

/-- The call returns with the indices in order, `ensureWriteableBytes` with the room asked for. -/
def Guaranteed (s : Buffers ι) (c : BufferCall ι) : Prop :=
  s.Precondition c → ∃ s', s.call c = .ok s' ∧ s'.Inv ∧
    ∀ i len, c = .op (.ensureWriteableBytes i len) → len ≤ (s'.buf i).writeableBytes

def Roomy (s : Buffers ι) : BufferCall ι → Prop
  | .op (.append i data) => (s.buf i).Fits data.length
  | .op (.ensureWriteableBytes i len) => (s.buf i).Fits len
  | .op (.shirnk i reserve) =>
    sizeT ((s.buf i).readableBytes + reserve) ≤ Buffer.kInittialSize ∧
      sizeOfInt (intOfSize (s.buf i).readableBytes) ≤ Buffer.kInittialSize
  | .appendField i f => (s.buf i).Fits f.encoding.length
  | .readFd i (.ok offered) _ =>
    (s.buf i).spill offered = [] ∨
      ((s.buf i).filled offered).Fits ((s.buf i).spill offered).length
  | _ => True

theorem call_inv {s s' : Buffers ι} {c : BufferCall ι} (h : s.Inv) (hc : s.call c = .ok s') :
    s'.Inv := by
  cases c with
  | op o => exact step_inv h hc
  | appendField i f =>
    obtain ⟨b, hb, rfl⟩ := set_ok hc
    rw [Field.append_eq] at hb
    exact update_inv h (Buffer.appendPtr_inv (h i) hb)
  | hasWritten i len =>
    obtain ⟨b, hb, rfl⟩ := set_ok hc
    exact update_inv h (Buffer.hasWritten_inv (h i) hb)
  | readFd i r savedErrorno =>
    obtain ⟨b, hb, rfl⟩ := set_ok hc
    exact update_inv h (Buffer.readFd_inv (h i) hb)

theorem set_ok_iff {s : Buffers ι} {i : ι} {r : Except Fault Buffer} :
    (∃ s', s.set i r = .ok s') ↔ ∃ b, r = .ok b := by
  constructor
  · rintro ⟨s', hs'⟩
    obtain ⟨b, hb, -⟩ := set_ok hs'
    exact ⟨b, hb⟩
  · rintro ⟨b, rfl⟩
    exact ⟨_, rfl⟩

theorem call_ok_iff {s : Buffers ι} {c : BufferCall ι} (h : s.Inv) (hpre : s.Precondition c) :
    (∃ s', s.call c = .ok s') ↔ s.Roomy c := by
  cases c with
  | op o =>
    cases o with
    | append i data => exact set_ok_iff.trans (Buffer.appendPtr_ok_iff (h i))
    | retrive i len =>
      obtain ⟨b, hb, -⟩ := Buffer.retrive_spec (h i) hpre
      exact iff_of_true (set_ok_iff.2 ⟨b, hb⟩) trivial
    | retriveAll i => exact iff_of_true ⟨_, rfl⟩ trivial
    | retriveAsString i len =>
      obtain ⟨b, hb, -⟩ := Buffer.retriveAsString_spec (h i) hpre
      refine iff_of_true ?_ trivial
      rw [call, step, hb]
      exact ⟨_, rfl⟩
    | unwrite i len =>
      obtain ⟨b, hb, -⟩ := Buffer.unwrite_spec (h i) hpre
      exact iff_of_true (set_ok_iff.2 ⟨b, hb⟩) trivial
    | ensureWriteableBytes i len =>
      refine set_ok_iff.trans ⟨?_, fun hfit => ?_⟩
      · rintro ⟨b, hb⟩
        exact Buffer.ensureWriteableBytes_ok (h i) hb
      · obtain ⟨b, hb, -⟩ := Buffer.ensureWriteableBytes_spec (h i) hfit
        exact ⟨b, hb⟩
    | shirnk i reserve => exact set_ok_iff.trans Buffer.shirnk_ok_iff
    | swap i j => exact iff_of_true ⟨_, rfl⟩ trivial
  | appendField i f =>
    rw [call, Field.append_eq]
    exact set_ok_iff.trans (Buffer.appendPtr_ok_iff (h i))
  | hasWritten i len =>
    have hlen : len ≤ (s.buf i).writeableBytes := hpre
    exact iff_of_true (set_ok_iff.2 ⟨_, require_bind hlen _ _⟩) trivial
  | readFd i r savedErrorno =>
    cases r with
    | error errno => exact iff_of_true ⟨_, rfl⟩ trivial
    | ok offered => exact set_ok_iff.trans (Buffer.readFd_ok_iff (h i))

theorem room_of_ensured {s s' : Buffers ι} {i : ι} {len : ℕ} (h : s.Inv)
    (hs : s.call (.op (.ensureWriteableBytes i len)) = .ok s') : len ≤ (s'.buf i).writeableBytes := by
  obtain ⟨b, hb, rfl⟩ := set_ok hs
  obtain ⟨b', hb', -, -, hroom, -⟩ :=
    Buffer.ensureWriteableBytes_spec (h i) (Buffer.ensureWriteableBytes_ok (h i) hb)
  rw [hb] at hb'
  cases hb'
  simpa using hroom

omit [DecidableEq ι] in
theorem roomy_of_not_precondition {s : Buffers ι} {c : BufferCall ι} (h : ¬ s.Precondition c) :
    s.Roomy c := by
  cases c with
  | op o =>
    cases o with
    | retrive | retriveAsString | unwrite => trivial
    | append | retriveAll | ensureWriteableBytes | shirnk | swap => exact absurd trivial h
  | hasWritten => trivial
  | appendField | readFd => exact absurd trivial h

theorem guaranteed_iff {s : Buffers ι} {c : BufferCall ι} (h : s.Inv) :
    s.Guaranteed c ↔ s.Roomy c := by
  by_cases hpre : s.Precondition c
  · rw [← call_ok_iff h hpre]
    constructor
    · intro hg
      obtain ⟨s', hs', -⟩ := hg hpre
      exact ⟨s', hs'⟩
    · rintro ⟨s', hs'⟩ -
      refine ⟨s', hs', call_inv h hs', ?_⟩
      rintro i len rfl
      exact room_of_ensured h hs'
  · exact iff_of_true (fun hp => absurd hp hpre) (roomy_of_not_precondition hpre)

end Buffers

/-- The indices stay in order in every run; the promises are kept along exactly the runs that
never have to grow a vector. -/
theorem indices_and_room {ι : Type} [DecidableEq ι] (initsize : ι → ℕ) (calls : List (BufferCall ι)) :
    (∀ s, run Buffers.call (.new initsize) calls = .ok s → s.Inv) ∧
      (Along Buffers.call Buffers.Guaranteed (.new initsize) calls ↔
        Along Buffers.call Buffers.Roomy (.new initsize) calls) := by
  have hstep : ∀ (s : Buffers ι) c s', s.Inv → s.call c = .ok s' → s'.Inv :=
    fun _ _ _ h hc => Buffers.call_inv h hc
  have hexact : ∀ (s : Buffers ι) c, s.Inv → (s.Guaranteed c ↔ s.Roomy c) :=
    fun _ _ h => Buffers.guaranteed_iff h
  exact ⟨fun _ hs => run_inv hstep (Buffers.new_inv initsize) hs,
    along_congr hexact hstep (Buffers.new_inv initsize)⟩

/-- A buffer without free space is asked for a single byte. -/
theorem ensureWriteableBytes_fails :
    ¬ Along Buffers.call Buffers.Guaranteed (.new fun _ : Unit => 0)
      [.op (.ensureWriteableBytes () 1)] := by
  rintro ⟨hg, -⟩
  obtain ⟨s', hs', -⟩ := hg trivial
  cases hs'

end Czy.Net
