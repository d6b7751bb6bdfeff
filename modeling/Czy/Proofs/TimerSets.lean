import Czy.Sanity.TimerQueue

/-! The two sets of the timer queue over all runs: they stay in step, and what a cancel
deletes is the timer that its id was made for. -/

namespace Czy.Net.TimerQueue

open StepRun

/-- An entry is in one set exactly when its counterpart is in the other, both of a live
timer, and no timer is entered twice. -/
structure SetsAgree (q : TimerQueue) : Prop where
  entries : ∀ t p, toLex (t, p) ∈ q.timer ↔
    ∃ tm, q.heap p = some tm ∧ tm.expiration = t ∧ toLex (p, tm.sequence) ∈ q.activeTimer
  live : ∀ p s, toLex (p, s) ∈ q.activeTimer → ∃ tm, q.heap p = some tm ∧ tm.sequence = s
  sizes : q.timer.size = q.activeTimer.size
  once : ∀ t t' p, toLex (t, p) ∈ q.timer → toLex (t', p) ∈ q.timer → t = t'

variable {q q' : TimerQueue}

theorem Inv.setsAgree (h : Inv q) : SetsAgree q where
  entries := h.inStep.mem_timer
  live := h.inStep.live
  sizes := h.inStep.size_eq
  once _ _ _ := h.inStep.once

/-- Whatever is taken for what `insert` ought to return. -/
theorem sets_in_step (clock : ℤ) {os : List TimerOp} (h : Along step Allowed (new clock) os) :
    SetsAgree (new clock) ∧ Holds step (fun _ _ q => SetsAgree q) (new clock) os := by
  refine ⟨(new_inv clock).setsAgree, holds_along (I := Inv) (fun q o hq ha => ?_) (new_inv clock) h⟩
  obtain ⟨q', hok, hq'⟩ := step_inv q o hq ha
  exact ⟨q', hok, hq', hq'.setsAgree⟩

def reentrant : List TimerOp :=
  [.newTimer 16 1 1000000 500000 true, .addTimerInLoop 16 true, .setClock 1000000, .handleRead,
    .runTimer, .cancelInLoop (toLex (16, 1)), .newTimer 32 2 3000000 0 false, .addTimerInLoop 32 false,
    .callbackReturns, .endHandleRead, .reset 1000000, .newTimer 16 3 4000000 0 false,
    .addTimerInLoop 16 true, .cancelInLoop (toLex (16, 1))]

structure Unused (q : TimerQueue) : Prop where
  inv : Inv q
  active : ∀ id, id ∉ q.activeTimer
  batch : q.batch.getD [] = []

theorem new_unused (clock : ℤ) : Unused (new clock) :=
  ⟨new_inv clock, fun _ => OrderedSet.not_mem_empty, rfl⟩

theorem Unused.timer (h : Unused q) (e : Entry) : e ∉ q.timer := by
  intro he
  obtain ⟨tm, -, -, hin⟩ := h.inv.inStep.entry he
  exact h.active _ hin

theorem Unused.reset (h : Unused q) (now : ℤ) (found : Option Bool) :
    q.reset now found = .ok { q with batch := none } := by
  have hempty := OrderedSet.first_eq_none.2 h.timer
  rw [TimerQueue.reset, h.batch, resetLoop, ok_bind]
  simp only [hempty]
  rfl

theorem Unused.strictStep {o : TimerOp} (h : Unused q) (ha : q.Allowed o) (ho : o.adds = false) :
    ∃ q', q.strictStep o = .ok q' ∧ Unused q' := by
  obtain ⟨q', hok, hq'⟩ := step_inv q o h.inv ha
  suffices hkeeps : q.strictStep o = .ok q' ∧ (∀ id, id ∉ q'.activeTimer) ∧ q'.batch.getD [] = [] from
    ⟨q', hkeeps.1, hq', hkeeps.2.1, hkeeps.2.2⟩
  cases o with
  | addTimerInLoop timer found => cases ho
  | newTimer timer sequence whenAt interval repeats =>
    obtain rfl := Except.ok.inj hok
    exact ⟨rfl, h.active, h.batch⟩
  | cancelInLoop id =>
    refine ⟨hok, ?_⟩
    obtain rfl := Except.ok.inj ((cancelInLoop_other h.inv (h.active id)).symm.trans hok)
    split
    · exact ⟨h.active, h.batch⟩
    · exact ⟨h.active, h.batch⟩
  | handleRead =>
    obtain ⟨active, hok', -, hmem⟩ := handleRead_eq h.inv
    obtain rfl := Except.ok.inj (hok.symm.trans hok')
    refine ⟨hok, fun id hin => h.active id ((hmem id).1 hin).1, List.eq_nil_iff_forall_not_mem.2 ?_⟩
    exact fun e he => h.timer e (OrderedSet.mem_below.1 he).1
  | runTimer =>
    obtain ⟨e, rest, hpos⟩ := mayRun_iff.1 ha
    obtain ⟨tm, -, hok'⟩ := runTimer_eq h.inv hpos
    obtain rfl := Except.ok.inj (hok.symm.trans hok')
    exact ⟨hok, h.active, h.batch⟩
  | callbackReturns =>
    refine ⟨hok, ?_⟩
    obtain rfl := Except.ok.inj hok
    unfold callbackReturns
    split
    · exact ⟨h.active, h.batch⟩
    · exact ⟨h.active, h.batch⟩
  | endHandleRead =>
    obtain rfl := Except.ok.inj hok
    exact ⟨rfl, h.active, h.batch⟩
  | reset now =>
    obtain rfl := Except.ok.inj ((h.reset now _).symm.trans hok)
    exact ⟨h.reset now none, h.active, rfl⟩
  | setClock clock =>
    refine ⟨hok, ?_⟩
    obtain rfl := Except.ok.inj hok
    unfold setClock
    split
    · split
      · exact ⟨h.active, h.batch⟩
      · exact ⟨h.active, h.batch⟩
    · exact ⟨h.active, h.batch⟩

theorem strictStep_adds {o : TimerOp} (hok : q.strictStep o = .ok q') : o.adds = false := by
  cases o with
  | addTimerInLoop timer found =>
    obtain ⟨r, hr, -⟩ := bind_ok.1 hok
    exact absurd hr (insert_none r)
  | _ => rfl

/-- As the language has it, the sets stay in step in exactly the runs in which no timer is
added. In a build that goes on behind the calls of `insert` they do in every run, whatever
is taken for the values. -/
theorem timer_sets_in_step_iff (clock : ℤ) (os : List TimerOp) :
    (Along strictStep Allowed (new clock) os →
      (SetsAgree (new clock) ∧ Holds strictStep (fun _ _ q => SetsAgree q) (new clock) os ↔
        ∀ o ∈ os, o.adds = false)) ∧
    (Along step Allowed (new clock) os →
      SetsAgree (new clock) ∧ Holds step (fun _ _ q => SetsAgree q) (new clock) os) := by
  refine ⟨fun h => ⟨fun hall => ?_, fun hnone => ?_⟩, sets_in_step clock⟩
  · exact hall.2.forall_ops (P := fun o => o.adds = false) fun _ _ _ => strictStep_adds
  · refine ⟨(new_inv clock).setsAgree,
      holds_along (I := Unused) (fun q o hq ha => ?_) (new_unused clock) (h.and_forall hnone)⟩
    obtain ⟨q', hok, hq'⟩ := hq.strictStep ha.1 ha.2
    exact ⟨q', hok, hq', hq'.inv.setsAgree⟩

theorem timer_sets_in_step_reentrant :
    (SetsAgree (new 0) ∧ Holds strictStep (fun _ _ q => SetsAgree q) (new 0) reentrant ↔
      ∀ o ∈ reentrant, o.adds = false) ∧
    SetsAgree (new 0) ∧ Holds step (fun _ _ q => SetsAgree q) (new 0) reentrant :=
  ⟨(timer_sets_in_step_iff 0 reentrant).1 (by decide +kernel),
    (timer_sets_in_step_iff 0 reentrant).2 (by decide +kernel)⟩

/-- The first call of `insert` does not return. -/
theorem first_timer_stops :
    Along strictStep Allowed (new 0) [.newTimer 16 1 1000000 0 false, .addTimerInLoop 16 true] ∧
      run strictStep (new 0) [.newTimer 16 1 1000000 0 false, .addTimerInLoop 16 true] =
        .error (.noReturn "TimerQueue::insert") ∧
      ¬ Holds strictStep (fun _ _ q => SetsAgree q) (new 0)
        [.newTimer 16 1 1000000 0 false, .addTimerInLoop 16 true] := by
  have hstop : run strictStep (new 0) [.newTimer 16 1 1000000 0 false, .addTimerInLoop 16 true] =
      .error (.noReturn "TimerQueue::insert") := rfl
  refine ⟨by decide +kernel, hstop, fun hall => ?_⟩
  obtain ⟨q, hq⟩ := hall.run_ok
  cases hstop.symm.trans hq

/-- What a cancel does to the timer of its id, and that it does nothing to any other. -/
structure CancelsOnly (q : TimerQueue) (id : ActiveTimer) (q' : TimerQueue) : Prop where
  queued : id ∈ q.activeTimer → id ∈ q.created ∧ ∃ tm, q.heap id.timer = some tm ∧
    tm.sequence = id.sequence ∧ q'.heap id.timer = none ∧ q'.deleted = q.deleted ++ [id] ∧
    toLex (tm.expiration, id.timer) ∉ q'.timer ∧ id ∉ q'.activeTimer
  absent : id ∉ q.activeTimer → q'.heap = q.heap ∧ q'.timer = q.timer ∧
    q'.activeTimer = q.activeTimer ∧ q'.deleted = q.deleted
  others : ∀ p ≠ id.timer, q'.heap p = q.heap p ∧
    (∀ t, toLex (t, p) ∈ q'.timer ↔ toLex (t, p) ∈ q.timer) ∧
    ∀ s, toLex (p, s) ∈ q'.activeTimer ↔ toLex (p, s) ∈ q.activeTimer

/-- No timer is deleted twice, none of the batch is deleted before `reset`, and a cancel
affects the timer of its id only. -/
structure CancelSafe (q : TimerQueue) (o : TimerOp) (q' : TimerQueue) : Prop where
  deleted_once : q'.deleted.Nodup
  batch : ∀ e ∈ q'.batch.getD [], ∃ tm, q'.heap e.timer = some tm ∧
    toLex (e.timer, tm.sequence) ∈ q'.batchIds ∧ toLex (e.timer, tm.sequence) ∉ q'.deleted
  running : ∀ rest b, q'.position = .running rest b → ∀ id ∈ q'.batchIds, id ∉ q'.deleted
  cancel : ∀ id, o = .cancelInLoop id → CancelsOnly q id q'

theorem cancelInLoop_only (h : Inv q) {id : ActiveTimer} (hok : q.cancelInLoop id = .ok q') :
    CancelsOnly q id q' := by
  by_cases hin : id ∈ q.activeTimer
  · obtain ⟨tm, hp, hseq, hok', hq'⟩ := cancelInLoop_active h hin
    rw [hok] at hok'
    cases hok'
    have hid : toLex (id.timer, tm.sequence) = id := by rw [hseq]; rfl
    refine ⟨fun _ => ⟨?_, tm, hp, hseq, ?_, rfl, ?_, ?_⟩, fun hnot => absurd hin hnot, fun p hne => ?_⟩
    · rw [← hid]
      exact (h.ids _ _ hp).1
    · exact Function.update_self _ _ _
    · exact fun hmem => (OrderedSet.mem_erase.1 hmem).1 rfl
    · exact fun hmem => (OrderedSet.mem_erase.1 hmem).1 hid.symm
    · refine ⟨Function.update_of_ne hne _ _, fun t => ?_, fun s => ?_⟩
      · change _ ∈ q.timer.erase _ ↔ _
        rw [OrderedSet.mem_erase, and_iff_right fun heq => hne (Entry.mk_inj.1 heq).2]
      · change _ ∈ q.activeTimer.erase _ ↔ _
        rw [OrderedSet.mem_erase, and_iff_right fun heq => hne (ActiveTimer.mk_inj.1 heq).1]
  · rw [cancelInLoop_other h hin] at hok
    have hsame : q'.heap = q.heap ∧ q'.timer = q.timer ∧ q'.activeTimer = q.activeTimer ∧
        q'.deleted = q.deleted := by
      rw [← Except.ok.inj hok]
      split <;> exact ⟨rfl, rfl, rfl, rfl⟩
    obtain ⟨hheap, htimer, hactive, hdeleted⟩ := hsame
    refine ⟨fun h => absurd h hin, fun _ => ⟨hheap, htimer, hactive, hdeleted⟩, fun p _ => ?_⟩
    rw [hheap, htimer, hactive]
    exact ⟨rfl, fun _ => Iff.rfl, fun _ => Iff.rfl⟩

/-- In every run, in which an address may be used again but no sequence number, a cancel
is safe, and no operation uses a pointer to a deleted timer. -/
theorem cancel_safe (clock : ℤ) {os : List TimerOp} (h : Along step Allowed (new clock) os) :
    Holds step CancelSafe (new clock) os := by
  refine holds_along (I := Inv) (fun q o hq ha => ?_) (new_inv clock) h
  obtain ⟨q', hok, hq'⟩ := step_inv q o hq ha
  refine ⟨q', hok, hq', hq'.deleted_once, fun e he => ?_, fun rest b hpos id hid => ?_, ?_⟩
  · obtain ⟨tm, htm, hid⟩ := hq'.batch e he
    exact ⟨tm, htm, hid, (hq'.ids _ _ htm).2⟩
  · obtain ⟨-, tm, htm, hseq⟩ := (hq'.running rest b hpos).2 id hid
    have hnot := (hq'.ids _ _ htm).2
    rw [hseq] at hnot
    exact hnot
  · rintro id rfl
    exact cancelInLoop_only hq hok

/-- The last cancel is by the id of a timer whose address is used again. -/
theorem cancel_safe_reentrant : Holds step CancelSafe (new 0) reentrant :=
  cancel_safe 0 (by decide +kernel)

end Czy.Net.TimerQueue
