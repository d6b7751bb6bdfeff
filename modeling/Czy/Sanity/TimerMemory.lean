import Czy.Sanity.TimerQueue

/-! What the operations of a loop do to the memory of its timers. -/

namespace Czy.Net

namespace TimerQueue

variable {q q' q'' : TimerQueue} {p : ℕ}

/-- No timer is made: what lives afterwards has lived before, and is the same timer. -/
structure OnlyDeletes (q q' : TimerQueue) : Prop where
  created : q'.created = q.created
  heap : ∀ p tm', q'.heap p = some tm' →
    ∃ tm, q.heap p = some tm ∧ tm'.sequence = tm.sequence ∧ tm'.repeats = tm.repeats

theorem OnlyDeletes.refl (q : TimerQueue) : OnlyDeletes q q := ⟨rfl, fun _ tm h => ⟨tm, h, rfl, rfl⟩⟩

theorem OnlyDeletes.trans (h : OnlyDeletes q q') (h' : OnlyDeletes q' q'') : OnlyDeletes q q'' where
  created := h'.created.trans h.created
  heap p tm'' hp := by
    obtain ⟨tm', hp', hseq', hrepeats'⟩ := h'.heap p tm'' hp
    obtain ⟨tm, hp, hseq, hrepeats⟩ := h.heap p tm' hp'
    exact ⟨tm, hp, hseq'.trans hseq, hrepeats'.trans hrepeats⟩

theorem OnlyDeletes.of_eq (hcreated : q'.created = q.created) (hheap : q'.heap = q.heap) :
    OnlyDeletes q q' :=
  ⟨hcreated, fun _ tm hp => ⟨tm, hheap ▸ hp, rfl, rfl⟩⟩

theorem OnlyDeletes.none (h : OnlyDeletes q q') (hp : q.heap p = none) : q'.heap p = none := by
  cases hp' : q'.heap p with
  | none => rfl
  | some tm' =>
    obtain ⟨tm, htm, -⟩ := h.heap p tm' hp'
    rw [hp] at htm
    cases htm

theorem insert_onlyDeletes {found : Option Bool} {r : TimerQueue × Bool}
    (h : q.insert p found = .ok r) : OnlyDeletes q r.1 := by
  obtain ⟨tm, -, hr, -⟩ := insert_ok h
  rw [hr]
  exact .of_eq rfl rfl

theorem deleteTimer_onlyDeletes (id : ActiveTimer) : OnlyDeletes q (q.deleteTimer id) where
  created := rfl
  heap p tm hp := by
    change Function.update q.heap id.timer none p = some tm at hp
    by_cases hid : p = id.timer
    · rw [hid, Function.update_self] at hp
      cases hp
    · rw [Function.update_of_ne hid] at hp
      exact ⟨tm, hp, rfl, rfl⟩

theorem addTimerInLoop_onlyDeletes {found : Option Bool} (h : q.addTimerInLoop p found = .ok q') :
    OnlyDeletes q q' := by
  obtain ⟨⟨u, value⟩, hu, h⟩ := bind_ok.1 h
  have hinsert : OnlyDeletes q u := ⟨(insert_onlyDeletes hu).created, (insert_onlyDeletes hu).heap⟩
  cases value with
  | true =>
    obtain ⟨tm, -, h⟩ := bind_ok.1 h
    rw [← Except.ok.inj h]
    exact hinsert.trans (.of_eq rfl rfl)
  | false =>
    rw [← Except.ok.inj h]
    exact hinsert

theorem cancelInLoop_onlyDeletes {id : ActiveTimer} (h : q.cancelInLoop id = .ok q') :
    OnlyDeletes q q' := by
  obtain ⟨-, -, h⟩ := bind_ok.1 h
  split at h
  next =>
    obtain ⟨tm, -, h⟩ := bind_ok.1 h
    obtain ⟨-, -, h⟩ := bind_ok.1 h
    obtain ⟨-, -, h⟩ := bind_ok.1 h
    rw [← Except.ok.inj h]
    exact (deleteTimer_onlyDeletes id).trans (.of_eq rfl rfl)
  next =>
    split at h
    all_goals
      rw [← Except.ok.inj h]
      exact .of_eq rfl rfl

theorem handleRead_onlyDeletes (h : q.handleRead = .ok q') : OnlyDeletes q q' := by
  obtain ⟨u, hu, h⟩ := bind_ok.1 h
  obtain ⟨-, -, hu⟩ := bind_ok.1 hu
  obtain ⟨-, -, hu⟩ := bind_ok.1 hu
  obtain ⟨⟨active, ids⟩, -, hu⟩ := bind_ok.1 hu
  obtain ⟨-, -, hu⟩ := bind_ok.1 hu
  rw [← Except.ok.inj h, ← Except.ok.inj hu]
  exact .of_eq rfl rfl

theorem runTimer_onlyDeletes (h : q.runTimer = .ok q') : OnlyDeletes q q' := by
  rw [runTimer] at h
  split at h
  next =>
    obtain ⟨tm, -, h⟩ := bind_ok.1 h
    rw [← Except.ok.inj h]
    exact .of_eq rfl rfl
  next =>
    rw [← Except.ok.inj h]
    exact .refl q

/-- A repeating timer stays at the address that it has. -/
theorem resetOne_onlyDeletes {found : Option Bool} {now : ℤ} (h : resetOne found q p now = .ok q') :
    OnlyDeletes q q' := by
  obtain ⟨tm, htm, h⟩ := bind_ok.1 h
  split at h
  next =>
    obtain ⟨r, hr, h⟩ := bind_ok.1 h
    have hinsert := insert_onlyDeletes hr
    rw [← Except.ok.inj h]
    refine ⟨hinsert.created, fun p' tm'' hp'' => ?_⟩
    obtain ⟨tm', hp', hseq, hrepeats⟩ := hinsert.heap p' tm'' hp''
    change Function.update q.heap p (some (tm.restart now)) p' = some tm' at hp'
    by_cases hne : p' = p
    · rw [hne, Function.update_self, Option.some.injEq] at hp'
      rw [hne]
      exact ⟨tm, deref_ok htm, hseq.trans (hp' ▸ rfl), hrepeats.trans (hp' ▸ rfl)⟩
    · rw [Function.update_of_ne hne] at hp'
      exact ⟨tm', hp', hseq, hrepeats⟩
  next =>
    rw [← Except.ok.inj h]
    exact deleteTimer_onlyDeletes _

theorem resetLoop_onlyDeletes {found : Option Bool} {now : ℤ} {es : List Entry}
    (h : resetLoop found now es q = .ok q') : OnlyDeletes q q' := by
  induction es generalizing q with
  | nil =>
    rw [← Except.ok.inj h]
    exact .of_eq rfl rfl
  | cons e es ih =>
    obtain ⟨u, hu, h⟩ := bind_ok.1 h
    have hrest := (resetOne_onlyDeletes hu).trans (ih h)
    exact ⟨hrest.created, hrest.heap⟩

theorem reset_onlyDeletes {found : Option Bool} {now : ℤ} (h : q.reset now found = .ok q') :
    OnlyDeletes q q' := by
  obtain ⟨u, hu, h⟩ := bind_ok.1 h
  have hloop := resetLoop_onlyDeletes hu
  split at h
  next =>
    rw [← Except.ok.inj h]
    exact hloop
  next =>
    obtain ⟨tm, -, h⟩ := bind_ok.1 h
    rw [← Except.ok.inj h]
    refine hloop.trans ?_
    split
    · exact .of_eq rfl rfl
    · exact .refl u

theorem step_onlyDeletes {o : TimerOp} (h : q.step o = .ok q')
    (ho : ∀ timer sequence whenAt interval repeats, o ≠ .newTimer timer sequence whenAt interval repeats) :
    OnlyDeletes q q' := by
  cases o with
  | newTimer timer sequence whenAt interval repeats => exact absurd rfl (ho _ _ _ _ _)
  | addTimerInLoop timer found => exact addTimerInLoop_onlyDeletes h
  | cancelInLoop timerid => exact cancelInLoop_onlyDeletes h
  | handleRead => exact handleRead_onlyDeletes h
  | runTimer => exact runTimer_onlyDeletes h
  | callbackReturns =>
    rw [← Except.ok.inj h, callbackReturns]
    split
    · exact .of_eq rfl rfl
    · exact .refl q
  | endHandleRead =>
    rw [← Except.ok.inj h]
    exact .of_eq rfl rfl
  | reset now => exact reset_onlyDeletes h
  | setClock clock =>
    rw [← Except.ok.inj h, setClock]
    split
    · split
      · exact .of_eq rfl rfl
      · exact .of_eq rfl rfl
    · exact .of_eq rfl rfl

end TimerQueue

end Czy.Net
