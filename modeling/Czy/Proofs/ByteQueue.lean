import Czy.Lib.Run
import Czy.Sanity.Buffer

/-! Buffers against byte queues: any number of buffers, any sequence of calls on
them, and the strings handed out on the way. -/

namespace Czy.Net

open StepRun

inductive BufferOp (ι : Type)
  | append (i : ι) (data : List UInt8)
  | retrive (i : ι) (len : ℕ)
  | retriveAll (i : ι)
  | retriveAsString (i : ι) (len : ℕ)
  | unwrite (i : ι) (len : ℕ)
  | ensureWriteableBytes (i : ι) (len : ℕ)
  | shirnk (i : ι) (reserve : ℕ)
  | swap (i j : ι)

/-- The buffers, and the strings `retriveAsString` has returned. -/
structure Buffers (ι : Type) where
  buf : ι → Buffer
  returned : List (List UInt8)

/-- What they stand for: a queue of bytes each. -/
structure ByteQueues (ι : Type) where
  queue : ι → List UInt8
  returned : List (List UInt8)

variable {ι : Type}

namespace Buffers

def new (initsize : ι → ℕ) : Buffers ι := ⟨fun i => Buffer.new (initsize i), []⟩

def abs (s : Buffers ι) : ByteQueues ι := ⟨fun i => (s.buf i).readable, s.returned⟩

def Inv (s : Buffers ι) : Prop := ∀ i, (s.buf i).Inv

theorem new_inv (initsize : ι → ℕ) : (new initsize).Inv := fun _ => Buffer.new_inv _

variable [DecidableEq ι]

def set (s : Buffers ι) (i : ι) (r : Except Fault Buffer) : Except Fault (Buffers ι) := do
  let b ← r
  return { s with buf := Function.update s.buf i b }

def step (s : Buffers ι) : BufferOp ι → Except Fault (Buffers ι)
  | .append i data => s.set i ((s.buf i).append data)
  | .retrive i len => s.set i ((s.buf i).retrive len)
  | .retriveAll i => s.set i (.ok (s.buf i).retriveAll)
  | .retriveAsString i len => do
    let (result, b) ← (s.buf i).retriveAsString len
    return { buf := Function.update s.buf i b, returned := s.returned ++ [result] }
  | .unwrite i len => s.set i ((s.buf i).unwrite len)
  | .ensureWriteableBytes i len => s.set i ((s.buf i).ensureWriteableBytes len)
  | .shirnk i reserve => s.set i ((s.buf i).shirnk reserve)
  | .swap i j =>
    let (this, rhs) := (s.buf i).swap (s.buf j)
    .ok { s with buf := Function.update (Function.update s.buf i this) j rhs }

/-- The preconditions on `len` that the operations assert. -/
def Asserted (s : Buffers ι) : BufferOp ι → Prop
  | .retrive i len | .retriveAsString i len | .unwrite i len => len ≤ (s.buf i).readableBytes
  | _ => True

/-- The vector never has to grow, and `append` finds the buffer empty, appends
nothing, or only repeats bytes that lie in the right places already. -/
def Tame (s : Buffers ι) : BufferOp ι → Prop
  | .append i data => (s.buf i).Fits data.length ∧ (s.buf i).Repeats data
  | .ensureWriteableBytes i len => (s.buf i).Fits len
  | .shirnk i reserve =>
    sizeT ((s.buf i).readableBytes + reserve) ≤ Buffer.kInittialSize ∧
      (s.buf i).readableBytes ≤ Buffer.kInittialSize
  | _ => True

instance (s : Buffers ι) (o : BufferOp ι) : Decidable (s.Asserted o) :=
  match o with
  | .retrive _ _ | .retriveAsString _ _ | .unwrite _ _ => inferInstanceAs (Decidable (_ ≤ _))
  | .append _ _ | .retriveAll _ | .ensureWriteableBytes _ _ | .shirnk _ _ | .swap _ _ =>
    .isTrue trivial

instance (s : Buffers ι) (o : BufferOp ι) : Decidable (s.Tame o) :=
  match o with
  | .append _ _ | .shirnk _ _ => inferInstanceAs (Decidable (_ ∧ _))
  | .ensureWriteableBytes _ _ => inferInstanceAs (Decidable (Buffer.Fits _ _))
  | .retrive _ _ | .retriveAll _ | .retriveAsString _ _ | .unwrite _ _ | .swap _ _ =>
    .isTrue trivial

end Buffers

namespace ByteQueues

def empty : ByteQueues ι := ⟨fun _ => [], []⟩

variable [DecidableEq ι]

def set (q : ByteQueues ι) (i : ι) (bytes : List UInt8) : ByteQueues ι :=
  { q with queue := Function.update q.queue i bytes }

def step (q : ByteQueues ι) : BufferOp ι → ByteQueues ι
  | .append i data => q.set i (q.queue i ++ data)
  | .retrive i len => q.set i ((q.queue i).drop len)
  | .retriveAll i => q.set i []
  | .retriveAsString i len =>
    { q.set i ((q.queue i).drop len) with returned := q.returned ++ [(q.queue i).take len] }
  | .unwrite i len => q.set i ((q.queue i).take ((q.queue i).length - len))
  | .ensureWriteableBytes _ _ | .shirnk _ _ => q
  | .swap i j => { q with queue := Function.update (Function.update q.queue i (q.queue j)) j (q.queue i) }

end ByteQueues

namespace Buffers

theorem new_abs (initsize : ι → ℕ) : (new initsize).abs = .empty := by
  simp [abs, new, ByteQueues.empty]

variable [DecidableEq ι]

theorem update_inv {s : Buffers ι} (h : s.Inv) {i : ι} {b : Buffer} (hb : b.Inv) (k : ι) :
    (Function.update s.buf i b k).Inv := by
  by_cases hk : k = i
  · subst hk; rwa [Function.update_self]
  · rw [Function.update_of_ne hk]; exact h k

theorem readable_update (s : Buffers ι) (i : ι) (b : Buffer) :
    (fun k => (Function.update s.buf i b k).readable) =
      Function.update (fun k => (s.buf k).readable) i b.readable := by
  funext k
  by_cases hk : k = i
  · subst hk; simp
  · simp [hk]

theorem set_ok {s s' : Buffers ι} {i : ι} {r : Except Fault Buffer} (h : s.set i r = .ok s') :
    ∃ b, r = .ok b ∧ s' = { s with buf := Function.update s.buf i b } := by
  obtain ⟨b, hb, hs⟩ := bind_ok.1 h
  cases hs
  exact ⟨b, hb, rfl⟩

theorem set_exact {s : Buffers ι} {i : ι} {r : Except Fault Buffer} {bytes : List UInt8} :
    (∃ s', s.set i r = .ok s' ∧ s'.abs = s.abs.set i bytes) ↔ ∃ b, r = .ok b ∧ b.readable = bytes := by
  constructor
  · rintro ⟨s', hs', habs⟩
    obtain ⟨b, hb, rfl⟩ := set_ok hs'
    have := congrFun (congrArg ByteQueues.queue habs) i
    exact ⟨b, hb, by simpa [abs, ByteQueues.set] using this⟩
  · rintro ⟨b, rfl, rfl⟩
    refine ⟨_, rfl, ?_⟩
    simp only [abs, ByteQueues.set, readable_update]

theorem set_self (q : ByteQueues ι) (i : ι) : q.set i (q.queue i) = q := by
  simp [ByteQueues.set]

theorem step_inv {s s' : Buffers ι} {o : BufferOp ι} (h : s.Inv) (hs : s.step o = .ok s') :
    s'.Inv := by
  cases o with
  | append i data =>
    obtain ⟨b, hb, rfl⟩ := set_ok hs
    exact update_inv h (Buffer.appendPtr_inv (h i) hb)
  | retrive i len =>
    obtain ⟨b, hb, rfl⟩ := set_ok hs
    obtain ⟨b', hb', hinv, -⟩ := Buffer.retrive_spec (h i) (Buffer.retrive_ok hb)
    rw [hb] at hb'; cases hb'
    exact update_inv h hinv
  | retriveAll i =>
    obtain ⟨b, hb, rfl⟩ := set_ok hs
    cases hb
    exact update_inv h (Buffer.retriveAll_inv (h i))
  | retriveAsString i len =>
    obtain ⟨⟨result, b⟩, hb, hs⟩ := bind_ok.1 hs
    cases hs
    obtain ⟨b', hb', hinv, -⟩ := Buffer.retriveAsString_spec (h i) (Buffer.retriveAsString_ok hb)
    rw [hb] at hb'; cases hb'
    exact update_inv h hinv
  | unwrite i len =>
    obtain ⟨b, hb, rfl⟩ := set_ok hs
    obtain ⟨b', hb', hinv, -⟩ := Buffer.unwrite_spec (h i) (Buffer.unwrite_ok hb)
    rw [hb] at hb'; cases hb'
    exact update_inv h hinv
  | ensureWriteableBytes i len =>
    obtain ⟨b, hb, rfl⟩ := set_ok hs
    obtain ⟨b', hb', hinv, -⟩ :=
      Buffer.ensureWriteableBytes_spec (h i) (Buffer.ensureWriteableBytes_ok (h i) hb)
    rw [hb] at hb'; cases hb'
    exact update_inv h hinv
  | shirnk i reserve =>
    obtain ⟨b, hb, rfl⟩ := set_ok hs
    exact update_inv h (Buffer.shirnk_inv hb)
  | swap i j =>
    cases hs
    exact update_inv (s := ⟨Function.update s.buf i (s.buf j), s.returned⟩)
      (fun k => update_inv h (h j) k) (h i)

theorem step_exact {s : Buffers ι} {o : BufferOp ι} (h : s.Inv) (hpre : s.Asserted o) :
    (∃ s', s.step o = .ok s' ∧ s'.abs = s.abs.step o) ↔ s.Tame o := by
  cases o with
  | append i data => exact set_exact.trans (Buffer.append_exact (h i))
  | retrive i len =>
    obtain ⟨b, hb, -, hread⟩ := Buffer.retrive_spec (h i) hpre
    exact iff_of_true (set_exact.2 ⟨b, hb, hread⟩) trivial
  | retriveAll i => exact iff_of_true (set_exact.2 ⟨_, rfl, Buffer.retriveAll_readable _⟩) trivial
  | retriveAsString i len =>
    obtain ⟨b, hb, -, hread⟩ := Buffer.retriveAsString_spec (h i) hpre
    refine iff_of_true
      ⟨⟨Function.update s.buf i b, s.returned ++ [(s.buf i).readable.take len]⟩, ?_, ?_⟩ trivial
    · rw [step, hb]; rfl
    · simp only [abs, ByteQueues.step, ByteQueues.set, readable_update, hread]
  | unwrite i len =>
    obtain ⟨b, hb, -, hread⟩ := Buffer.unwrite_spec (h i) hpre
    exact iff_of_true (set_exact.2 ⟨b, hb, hread⟩) trivial
  | ensureWriteableBytes i len =>
    simp only [Tame, step, ByteQueues.step]
    rw [← set_self s.abs i]
    refine set_exact.trans ⟨fun ⟨b, hb, _⟩ => Buffer.ensureWriteableBytes_ok (h i) hb, fun hfit => ?_⟩
    obtain ⟨b, hb, -, hread, -⟩ := Buffer.ensureWriteableBytes_spec (h i) hfit
    exact ⟨b, hb, hread⟩
  | shirnk i reserve =>
    simp only [Tame, step, ByteQueues.step]
    rw [← Buffer.shirnk_exact (h i)]
    nth_rewrite 1 [← set_self s.abs i]
    exact set_exact
  | swap i j =>
    refine iff_of_true ⟨_, rfl, ?_⟩ trivial
    simp only [abs, ByteQueues.step]
    rw [readable_update ⟨Function.update s.buf i (s.buf j), s.returned⟩ j, readable_update]

end Buffers

/-- Within the asserted preconditions the buffers are byte queues along exactly
the runs whose appends are tame. -/
theorem buffers_track_queues [DecidableEq ι] (initsize : ι → ℕ) (ops : List (BufferOp ι))
    (hpre : Along Buffers.step Buffers.Asserted (Buffers.new initsize) ops) :
    Tracks Buffers.step ByteQueues.step Buffers.abs (Buffers.new initsize) .empty ops ↔
      Along Buffers.step Buffers.Tame (Buffers.new initsize) ops := by
  rw [← Buffers.new_abs initsize]
  exact tracks_iff_along (fun s o h hpre => Buffers.step_exact h hpre)
    (fun s o s' h hs => Buffers.step_inv h hs) (Buffers.new_inv initsize) hpre

theorem buffers_track_queues_drained :
    Tracks Buffers.step ByteQueues.step Buffers.abs (Buffers.new fun _ : Unit => 16) .empty
      [.append () [1, 2], .retriveAsString () 2, .append () [3]] :=
  (buffers_track_queues _ _ (by decide)).2 (by decide)

/-- Two appends in a row: the second lands on top of the first, and the zeroes
behind them become readable. -/
theorem append_overwrites :
    Along Buffers.step Buffers.Asserted (Buffers.new fun _ : Unit => 16)
        [.append () [1, 2], .append () [3, 4]] ∧
      ¬ Tracks Buffers.step ByteQueues.step Buffers.abs (Buffers.new fun _ : Unit => 16) .empty
        [.append () [1, 2], .append () [3, 4]] := by
  refine ⟨by decide, ?_⟩
  rintro ⟨-, s₁, hs₁, -, s₂, hs₂, habs⟩
  cases hs₁
  cases hs₂
  have hread := congrFun (congrArg ByteQueues.queue habs) ()
  exact absurd hread (by decide)

end Czy.Net
