import Czy.Sanity.TimerQueue

/-! When the timerfd is armed for the timers that wait in the queue. -/

namespace Czy.Net.TimerQueue

open StepRun

/-- With a timer in the queue the timerfd is readable, or armed to fire no later than the
earliest expiration or 100 microseconds after it was armed. -/
def ArmedInTime (q : TimerQueue) : Prop :=
  ∀ e, q.timer.first = some e →
    q.readable = true ∨ ∃ f, q.expiry = some f ∧ f ≤ max e.time (q.armedAt + 100)

/-- Where the code keeps the timerfd armed. `addTimerInLoop` finds the value that `insert`
does not return, and arms where `TimeStamp::now()` is exact or the timer due at once;
`handleRead`, which never arms, leaves no timer or a timerfd armed by a callback. -/
def Rearms (q : TimerQueue) : TimerOp → Prop
  | .addTimerInLoop p found => ∀ tm ∈ q.heap p, found = q.earliestChanged tm.expiration ∧
      (found = true → q.now = q.clock ∨ tm.expiration ≤ q.now + 100)
  | .endHandleRead => q.timer.first = none ∨ q.readable = true ∨ q.expiry.isSome = true
  | _ => True

instance (q : TimerQueue) (o : TimerOp) : Decidable (q.Rearms o) :=
  match o with
  | .addTimerInLoop p _ => inferInstanceAs (Decidable (∀ tm ∈ q.heap p, _))
  | .endHandleRead => inferInstanceAs (Decidable (_ ∨ _ ∨ _))
  | .newTimer _ _ _ _ _ | .cancelInLoop _ | .handleRead | .runTimer | .callbackReturns | .reset _
  | .setClock _ => .isTrue trivial

structure Armed (q : TimerQueue) : Prop where
  inTime : ∀ f, q.expiry = some f → ∀ e ∈ q.timer, f ≤ max e.time (q.armedAt + 100)
  waiting : q.position = .outside → ∀ e, e ∈ q.timer → q.readable = true ∨ q.expiry.isSome = true

variable {q q' : TimerQueue} {o : TimerOp} {p : ℕ} {tm : Timer}

theorem Armed.armedInTime (h : Armed q) (hpos : q.position = .outside) : ArmedInTime q := by
  intro e he
  have hin := OrderedSet.first_mem he
  rcases h.waiting hpos e hin with hread | hset
  · exact .inl hread
  · obtain ⟨f, hf⟩ := Option.isSome_iff_exists.1 hset
    exact .inr ⟨f, hf, h.inTime f hf e hin⟩

/-- Fewer timers need no other firing. -/
theorem Armed.fewer (h : Armed q) (htimer : ∀ e ∈ q'.timer, e ∈ q.timer) (hexpiry : q'.expiry = q.expiry)
    (harmed : q'.armedAt = q.armedAt)
    (hwaiting : q'.position = .outside → q.position = .outside ∧ q'.readable = q.readable) :
    Armed q' := by
  refine ⟨fun f hf e he => ?_, fun hpos e he => ?_⟩
  · rw [harmed]
    exact h.inTime f (hexpiry ▸ hf) e (htimer e he)
  · obtain ⟨hpos, hreadable⟩ := hwaiting hpos
    rw [hreadable, hexpiry]
    exact h.waiting hpos e (htimer e he)

theorem earliestChanged_true {whenAt : ℤ} (h : q.earliestChanged whenAt = true) {e : Entry}
    (he : e ∈ q.timer) : whenAt < e.time := by
  unfold earliestChanged at h
  split at h
  next hnone => exact absurd he (OrderedSet.first_eq_none.1 hnone e)
  next e₀ hfirst =>
    have hle := OrderedSet.first_le hfirst he
    change toLex (e₀.time, e₀.timer) ≤ toLex (e.time, e.timer) at hle
    have hlt : whenAt < e₀.time := of_decide_eq_true h
    rcases Prod.Lex.toLex_le_toLex.1 hle with hlt' | ⟨heq, -⟩
    · exact hlt.trans hlt'
    · exact hlt.trans_eq heq

theorem earliestChanged_false {whenAt : ℤ} (h : q.earliestChanged whenAt = false) :
    ∃ e ∈ q.timer, e.time ≤ whenAt := by
  unfold earliestChanged at h
  split at h
  next => cases h
  next e hfirst => exact ⟨e, OrderedSet.first_mem hfirst, not_lt.1 (of_decide_eq_false h)⟩

theorem addTimerInLoop_armed (h : Inv q) (harm : Armed q) {found : Bool}
    (ha : q.Allowed (.addTimerInLoop p found)) (hc : q.Rearms (.addTimerInLoop p found))
    (hok : q.addTimerInLoop p found = .ok q') : Armed q' := by
  obtain ⟨tm, hp, -, hok', -⟩ := addTimerInLoop_eq h ha.2 found
  obtain rfl := Except.ok.inj (hok.symm.trans hok')
  obtain ⟨hfound, htime⟩ := hc tm hp
  cases found with
  | false =>
    obtain ⟨e₀, he₀, hle⟩ := earliestChanged_false hfound.symm
    refine ⟨fun f hf e he => ?_, fun hpos e _ => harm.waiting hpos e₀ he₀⟩
    rcases OrderedSet.mem_insert.1 he with rfl | he
    · exact (harm.inTime f hf e₀ he₀).trans (max_le_max_right _ hle)
    · exact harm.inTime f hf e he
  | true =>
    refine ⟨fun f hf e he => ?_, fun _ _ _ => .inr rfl⟩
    have hle : tm.expiration ≤ e.time := by
      rcases OrderedSet.mem_insert.1 he with rfl | he
      · exact le_rfl
      · exact (earliestChanged_true hfound.symm he).le
    have hf : q.clock + max (tm.expiration - q.now) 100 = f := Option.some.inj hf
    change f ≤ max e.time (q.clock + 100)
    rcases htime rfl with hexact | hsoon
    · omega
    · omega

theorem step_armed (h : Inv q) (harm : Armed q) (ha : q.Allowed o) (hreset : ∀ now, o ≠ .reset now)
    (hc : q.Rearms o) (hok : step q o = .ok q') : Armed q' := by
  cases o with
  | newTimer => cases hok; exact ⟨harm.inTime, harm.waiting⟩
  | addTimerInLoop p found => exact addTimerInLoop_armed h harm ha hc hok
  | cancelInLoop id =>
    by_cases hactive : id ∈ q.activeTimer
    · obtain ⟨tm, -, -, hok', -⟩ := cancelInLoop_active h hactive
      obtain rfl := Except.ok.inj (hok.symm.trans hok')
      exact harm.fewer (fun e he => (OrderedSet.mem_erase.1 he).2) rfl rfl fun hpos => ⟨hpos, rfl⟩
    · obtain rfl := Except.ok.inj (hok.symm.trans (cancelInLoop_other h hactive))
      split <;> exact ⟨harm.inTime, harm.waiting⟩
  | handleRead =>
    obtain ⟨active, hok', -, -⟩ := handleRead_eq h
    obtain rfl := Except.ok.inj (hok.symm.trans hok')
    exact harm.fewer (fun e he => (OrderedSet.mem_atLeast.1 he).1) rfl rfl fun hpos => by cases hpos
  | runTimer =>
    obtain ⟨e, rest, hpos⟩ := mayRun_iff.1 ha
    obtain ⟨tm, -, hok'⟩ := runTimer_eq h hpos
    obtain rfl := Except.ok.inj (hok.symm.trans hok')
    exact harm.fewer (fun _ he => he) rfl rfl fun hpos => by cases hpos
  | callbackReturns =>
    obtain ⟨rest, hpos⟩ := inCallback_iff.1 ha
    cases hok
    rw [callbackReturns, hpos]
    exact harm.fewer (fun _ he => he) rfl rfl fun hpos => by cases hpos
  | endHandleRead =>
    cases hok
    refine ⟨harm.inTime, fun _ e he => ?_⟩
    rcases hc with hnone | hset
    · exact absurd he (OrderedSet.first_eq_none.1 hnone e)
    · exact hset
  | reset now => exact absurd rfl (hreset now)
  | setClock clock =>
    cases hok
    unfold setClock
    split
    · split
      · exact ⟨fun f hf => (by cases hf), fun _ _ _ => .inl rfl⟩
      · exact harm.fewer (fun _ he => he) rfl rfl fun hpos => ⟨hpos, rfl⟩
    · exact harm.fewer (fun _ he => he) rfl rfl fun hpos => ⟨hpos, rfl⟩

/-- In every run whose steps meet the condition the timerfd is armed in time, whenever the
loop's thread is outside `handleRead`. -/
theorem timerfd_armed_along {clock : ℤ} {os : List TimerOp} (ha : Along step Allowed (new clock) os)
    (hreset : ∀ o ∈ os, ∀ now, o ≠ .reset now) (hc : Along step Rearms (new clock) os)
    (hq : run step (new clock) os = .ok q) (hpos : q.position = .outside) : ArmedInTime q := by
  have hnew : Armed (new clock) := ⟨nofun, fun _ e he => absurd he OrderedSet.not_mem_empty⟩
  refine (run_inv_along (I := fun u => Inv u ∧ Armed u) ?_ ⟨new_inv clock, hnew⟩
    ((ha.and hc).and_forall hreset) hq).2.armedInTime hpos
  rintro u o u' ⟨hu, harm⟩ ⟨⟨hallowed, hrearms⟩, hnot⟩ hok
  exact ⟨hu.step hallowed hok, step_armed hu harm hallowed hnot hrearms hok⟩

/-- A timer that adds the next one in its callback. -/
theorem timerfd_armed_along_chain :
    ∃ q, run step (new 0) [.newTimer 16 1 1000000 0 false, .addTimerInLoop 16 true, .setClock 1000000,
        .handleRead, .runTimer, .newTimer 32 2 2000000 0 false, .addTimerInLoop 32 true,
        .callbackReturns, .endHandleRead] = .ok q ∧ q.timer.size = 1 ∧ ArmedInTime q := by
  obtain ⟨q, hq, hall⟩ := ok_of_toOption_map
    (x := run step (new 0) [.newTimer 16 1 1000000 0 false, .addTimerInLoop 16 true,
      .setClock 1000000, .handleRead, .runTimer, .newTimer 32 2 2000000 0 false,
      .addTimerInLoop 32 true, .callbackReturns, .endHandleRead])
    (f := fun q => (q.timer.size, q.position)) (a := (1, .outside)) (by decide +kernel)
  obtain ⟨hsize, hpos⟩ := Prod.mk.inj hall
  exact ⟨q, hq, hsize,
    timerfd_armed_along (by decide +kernel) (by simp) (by decide +kernel) hq hpos⟩

/-- After the first of two timers the timerfd is not armed for the second. -/
theorem timerfd_not_armed_for_second :
    ∃ q, Along step Allowed (new 0) [.newTimer 16 1 1000000 0 false, .addTimerInLoop 16 true,
        .newTimer 32 2 5000000 0 false, .addTimerInLoop 32 false, .setClock 1000000, .handleRead,
        .runTimer, .callbackReturns, .endHandleRead] ∧
      run step (new 0) [.newTimer 16 1 1000000 0 false, .addTimerInLoop 16 true,
        .newTimer 32 2 5000000 0 false, .addTimerInLoop 32 false, .setClock 1000000, .handleRead,
        .runTimer, .callbackReturns, .endHandleRead] = .ok q ∧
      q.position = .outside ∧ ¬ ArmedInTime q := by
  obtain ⟨q, hq, hall⟩ := ok_of_toOption_map
    (x := run step (new 0) [.newTimer 16 1 1000000 0 false, .addTimerInLoop 16 true,
      .newTimer 32 2 5000000 0 false, .addTimerInLoop 32 false, .setClock 1000000, .handleRead,
      .runTimer, .callbackReturns, .endHandleRead])
    (f := fun q => (q.timer.first, q.position, q.readable, q.expiry))
    (a := (some (toLex (5000000, 32)), .outside, false, none)) (by decide +kernel)
  simp only [Prod.mk.injEq] at hall
  obtain ⟨hfirst, hpos, hread, hexpiry⟩ := hall
  refine ⟨q, by decide +kernel, hq, hpos, fun harmed => ?_⟩
  rcases harmed _ hfirst with hreadable | ⟨f, hf, -⟩
  · rw [hread] at hreadable
    cases hreadable
  · rw [hexpiry] at hf
    cases hf

end Czy.Net.TimerQueue
