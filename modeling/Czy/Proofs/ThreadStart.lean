import Czy.Proofs.Latch
import Czy.Spec.MThread

/-! The handshake of a thread's start. The child neither stores its id nor counts the latch
down, so the parent never gets behind it, whatever the thread function does. -/

namespace Czy.MThread

open Monitor StepRun

variable {m m' : MThread} {func : ThreadEnd}

/-- The parent has left the latch only with the id stored, and does not sleep in it once the
child has finished. -/
structure Handshake (m : MThread) : Prop where
  stored : m.parent = .behindLatch → 0 < m.tid
  released : m.child = .finished → ∀ op c, m.latch.place .parent ≠ .asleep op c

structure Waits (m : MThread) : Prop where
  started : m.parent = .outside → m.started = false
  count : m.latch.shared = 1
  within : m.latch.Within .parent .wait
  parent : m.parent ≠ .behindLatch

theorem waits_new (name : String) : Waits (new name) := ⟨fun _ => rfl, rfl, State.within_new .., nofun⟩

theorem ofWait_iff {l : Label ThreadSide LatchOp} : ofWait l = true ↔ l.Of .parent .wait := by
  cases l with
  | call t op woken => cases t <;> cases op <;> simp [ofWait, Label.Of]
  | resume t woken => cases t <;> simp [ofWait, Label.Of]
  | spurious t => cases t <;> simp [ofWait, Label.Of]

theorem Waits.waitLatch (h : Waits m) {l : Label ThreadSide LatchOp} (hl : ofWait l = true) :
    Waits (m.waitLatch l) := by
  have hl := ofWait_iff.1 hl
  unfold MThread.waitLatch
  cases hs : Monitor.step CountDownLatch.body m.latch l with
  | error e => exact h
  | ok latch =>
    have hs := stepped_of_step hs
    have hwithin := h.within.stepped (fun _ hrun => (h.within.running hl hrun).2) hs
    have hin : latch.shared = 1 ∧ latch.place .parent ≠ .outside := by
      cases hs with
      | waits t op c running outcome shared place =>
        obtain ⟨rfl, rfl⟩ := h.within.running hl running
        refine ⟨shared.trans h.count, ?_⟩
        rw [place, Function.update_self]
        exact nofun
      | returns t op signal running outcome left others all =>
        obtain ⟨rfl, rfl⟩ := h.within.running hl running
        have hle := (CountDownLatch.wait_returns outcome).2
        rw [h.count] at hle
        exact absurd hle (by decide)
      | spurious t op c label asleep shared place =>
        subst label
        obtain rfl : t = .parent := hl
        refine ⟨shared.trans h.count, ?_⟩
        rw [place, Function.update_self]
        exact nofun
    refine ⟨?_, hin.1, hwithin, ?_⟩
    · simp only [if_neg hin.2]
      exact nofun
    · simp only [if_neg hin.2]
      exact nofun

theorem waitLatch_child (m : MThread) (l : Label ThreadSide LatchOp) :
    (m.waitLatch l).child = m.child := by
  unfold waitLatch
  split <;> rfl

theorem Waits.handshake (h : Waits m) (hchild : m.child ≠ .finished) : Handshake m :=
  ⟨fun hleft => absurd hleft h.parent, fun hfin => absurd hfin hchild⟩

theorem Waits.step (h : Waits m) (hchild : m.child ≠ .finished) (hfunc : func ≠ .returns)
    (l : ThreadStep) : ∃ m', m.step func l = .ok m' ∧ Waits m' ∧ m'.child ≠ .finished := by
  unfold MThread.step
  by_cases habort : m.child = .aborted
  · rw [if_pos habort]
    exact ⟨m, rfl, h, hchild⟩
  rw [if_neg habort]
  cases l with
  | start created =>
    by_cases hout : m.parent = .outside
    · simp only [if_pos hout, start, check_bind (h.started hout)]
      cases created with
      | true => exact ⟨_, rfl, ⟨nofun, h.count, h.within, nofun⟩, nofun⟩
      | false => exact ⟨_, rfl, ⟨nofun, h.count, h.within, nofun⟩, hchild⟩
    · simp only [if_neg hout]
      exact ⟨m, rfl, h, hchild⟩
  | latch l =>
    by_cases hl : m.parent = .atLatch ∧ ofWait l = true
    · simp only [if_pos hl]
      exact ⟨_, rfl, h.waitLatch hl.2, by rw [waitLatch_child]; exact hchild⟩
    · simp only [if_neg hl]
      exact ⟨m, rfl, h, hchild⟩
  | leaveLatch =>
    simp only [if_neg h.parent]
    exact ⟨m, rfl, h, hchild⟩
  | runInThread =>
    by_cases hc : m.child = .created
    · simp only [if_pos hc]
      exact ⟨_, rfl, ⟨h.started, h.count, h.within, h.parent⟩, nofun⟩
    · simp only [if_neg hc]
      exact ⟨m, rfl, h, hchild⟩
  | endFunc =>
    by_cases hr : m.child = .running
    · simp only [if_pos hr]
      cases func with
      | returns => exact absurd rfl hfunc
      | throws => exact ⟨_, rfl, ⟨h.started, h.count, h.within, h.parent⟩, nofun⟩
      | runsOn => exact ⟨m, rfl, h, hchild⟩
    · simp only [if_neg hr]
      exact ⟨m, rfl, h, hchild⟩

theorem handshake_broken (name : String) :
    ¬ Holds (MThread.step .returns) (fun _ _ m' => Handshake m') (new name)
      [.start true, .latch (.call .parent .wait none), .runInThread, .endFunc] := by
  rintro ⟨m₁, h₁, -, m₂, h₂, -, m₃, h₃, -, m₄, h₄, hbad, -⟩
  cases h₁
  cases h₂
  cases h₃
  cases h₄
  exact hbad.released rfl .wait () rfl

/-- The handshake is kept in every run exactly if the thread function does not return. -/
theorem handshake_iff (func : ThreadEnd) (name : String) :
    (∀ ls, Holds (MThread.step func) (fun _ _ m' => Handshake m') (new name) ls) ↔
      func ≠ .returns := by
  constructor
  · rintro hall rfl
    exact handshake_broken name (hall _)
  · intro hfunc ls
    refine holds_along (I := fun m => Waits m ∧ m.child ≠ .finished) (C := fun _ _ => True)
      (fun m l h _ => ?_) ⟨waits_new name, nofun⟩ (along_true ls _)
    obtain ⟨m', hs, hwaits, hchild⟩ := h.1.step h.2 hfunc l
    exact ⟨m', hs, ⟨hwaits, hchild⟩, hwaits.handshake hchild⟩

/-- A thread function that returns, and a parent that waits. -/
theorem not_handshake_returns :
    ¬ Holds (MThread.step .returns) (fun _ _ m' => Handshake m') (new "worker")
      [.start true, .latch (.call .parent .wait none), .runInThread, .endFunc] :=
  handshake_broken "worker"

end Czy.MThread
