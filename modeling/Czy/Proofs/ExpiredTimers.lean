import Czy.Sanity.TimerQueue

/-! What `getExpired` takes out of the queue. -/

namespace Czy.Net.TimerQueue

open StepRun

/-- Of the entries those that are due are returned, in order, and the others are left. -/
structure TakesDue (q : TimerQueue) (now : ℤ) (q' : TimerQueue) : Prop where
  returned : ∃ expired, q'.batch = some expired ∧ expired.Pairwise (· < ·) ∧
    ∀ e, e ∈ expired ↔ e ∈ q.timer ∧ e.time ≤ now
  left : ∀ e, e ∈ q'.timer ↔ e ∈ q.timer ∧ now < e.time
  inStep : InStep q'.heap q'.timer q'.activeTimer
  heap : q'.heap = q.heap

variable {q : TimerQueue}

/-- Whatever the queue holds, exactly the due timers are taken, and no assertion fails. -/
theorem getExpired_takesDue (h : InStep q.heap q.timer q.activeTimer)
    (haddr : ∀ e ∈ q.timer, e.timer < uintptrMax) (now : ℤ) :
    ∃ q', q.getExpired now = .ok q' ∧ TakesDue q now q' := by
  obtain ⟨active, hok, hstep, -⟩ := getExpired_eq h now
  refine ⟨_, hok, ⟨_, rfl, q.timer.below_sorted _, fun e => ?_⟩, fun e => ?_, hstep, rfl⟩
  · rw [OrderedSet.mem_below]
    exact and_congr_right fun he => lt_sentry_iff (haddr e he) now
  · rw [OrderedSet.mem_atLeast]
    exact and_congr_right fun he => by rw [← not_lt, lt_sentry_iff (haddr e he) now, not_le]

theorem getExpired_takesDue_tie :
    ∃ q q', run step (new 0) [.newTimer 32 1 1000000 0 false, .addTimerInLoop 32 true,
        .newTimer 16 2 1000000 0 false, .addTimerInLoop 16 false,
        .newTimer 48 3 2000000 0 false, .addTimerInLoop 48 false] = .ok q ∧
      q.timer.size = 3 ∧ q.getExpired 1000000 = .ok q' ∧ TakesDue q 1000000 q' := by
  obtain ⟨q, hq, hsize⟩ := ok_of_toOption_map
    (x := run step (new 0) [.newTimer 32 1 1000000 0 false, .addTimerInLoop 32 true,
      .newTimer 16 2 1000000 0 false, .addTimerInLoop 16 false,
      .newTimer 48 3 2000000 0 false, .addTimerInLoop 48 false])
    (f := fun q => q.timer.size) (a := 3) (by decide +kernel)
  have hinv := run_inv_allowed (new_inv 0) (by decide +kernel) hq
  obtain ⟨q', hq', htakes⟩ :=
    getExpired_takesDue hinv.inStep (fun e he => hinv.entry_address he) 1000000
  exact ⟨q, q', hq, hsize, hq', htakes⟩

end Czy.Net.TimerQueue
