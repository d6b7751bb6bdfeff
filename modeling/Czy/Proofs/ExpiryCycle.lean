import Czy.Sanity.TimerQueue

/-! One call of `handleRead`, with all that happens while its callbacks run. The timers
that had expired are run once each, and then neither entered again nor deleted. -/

namespace Czy.Net

open StepRun

/-- What can happen while the loop of `handleRead` runs. -/
def TimerOp.InLoop : TimerOp → Bool
  | .handleRead | .endHandleRead | .reset _ => false
  | _ => true

namespace TimerQueue

def cycle (mid : List TimerOp) : List TimerOp := .handleRead :: (mid ++ [.endHandleRead])

/-- The timer of the entry had expired when the call began. -/
def Expired (q : TimerQueue) (e : Entry) : Prop := e ∈ q.timer ∧ e.time ≤ q.now

/-- What a call of `handleRead` in `q` is to do; `q'` is the state that it leaves. -/
structure ExpiryCycle (q : TimerQueue) (mid : List TimerOp) (q' : TimerQueue) : Prop where
  once : ∀ e, Expired q e →
    q'.ran.count (idOf q.heap e) = q.ran.count (idOf q.heap e) + 1
  again : ∀ e tm, Expired q e → q.heap e.timer = some tm → tm.repeats = true →
    .cancelInLoop (idOf q.heap e) ∉ mid →
    toLex (q.now + tm.interval, e.timer) ∈ q'.timer ∧ idOf q.heap e ∈ q'.activeTimer
  gone : ∀ e tm, Expired q e → q.heap e.timer = some tm →
    tm.repeats = false ∨ .cancelInLoop (idOf q.heap e) ∈ mid →
    (∀ e' ∈ q'.timer, idOf q'.heap e' ≠ idOf q.heap e) ∧ idOf q.heap e ∉ q'.activeTimer ∧
      idOf q.heap e ∈ q'.deleted
  others : ∀ pre post u e, cycle mid = pre ++ post → run step q pre = .ok u → e ∈ u.timer →
    (∀ b, Expired q b → idOf q.heap b ≠ idOf u.heap e) →
    .cancelInLoop (idOf u.heap e) ∉ post → e ∈ q'.timer ∧ idOf u.heap e ∈ q'.activeTimer

variable {q q' : TimerQueue} {o : TimerOp} {p : ℕ} {tm : Timer}

/-- The timer at an address is left alone. -/
structure Keeps (q : TimerQueue) (p : ℕ) (q' : TimerQueue) : Prop where
  heap : q'.heap p = q.heap p
  batch : q'.batch = q.batch
  timer : ∀ t, toLex (t, p) ∈ q.timer → toLex (t, p) ∈ q'.timer
  active : ∀ s, toLex (p, s) ∈ q.activeTimer → toLex (p, s) ∈ q'.activeTimer

theorem Keeps.same (hheap : q'.heap = q.heap) (hbatch : q'.batch = q.batch)
    (htimer : q'.timer = q.timer) (hactive : q'.activeTimer = q.activeTimer) : Keeps q p q' :=
  ⟨by rw [hheap], hbatch, fun _ h => htimer ▸ h, fun _ h => hactive ▸ h⟩

theorem Keeps.refl (q : TimerQueue) (p : ℕ) : Keeps q p q := .same rfl rfl rfl rfl

theorem Keeps.trans {q₁ q₂ q₃ : TimerQueue} (h : Keeps q₁ p q₂) (h' : Keeps q₂ p q₃) :
    Keeps q₁ p q₃ :=
  ⟨h'.heap.trans h.heap, h'.batch.trans h.batch, fun t ht => h'.timer t (h.timer t ht),
    fun s hs => h'.active s (h.active s hs)⟩

/-- A step in the loop leaves every live timer alone but the one that it cancels. -/
theorem inLoop_keeps (h : Inv q) (ha : q.Allowed o) (hin : o.InLoop = true)
    (hok : step q o = .ok q') (hp : q.heap p = some tm)
    (hcancel : toLex (p, tm.sequence) ∈ q.activeTimer →
      o ≠ .cancelInLoop (toLex (p, tm.sequence))) : Keeps q p q' := by
  cases o with
  | newTimer p' s whenAt interval repeats =>
    cases hok
    have hne : p ≠ p' := by
      rintro rfl
      rw [ha.1] at hp
      cases hp
    exact ⟨Function.update_of_ne hne _ _, rfl, fun _ h => h, fun _ h => h⟩
  | addTimerInLoop p' found =>
    obtain ⟨tm', -, -, hok', -⟩ := addTimerInLoop_eq h ha.2 found
    obtain rfl := Except.ok.inj (hok.symm.trans hok')
    cases found <;> exact ⟨rfl, rfl, fun _ h => OrderedSet.mem_insert.2 (.inr h),
      fun _ h => OrderedSet.mem_insert.2 (.inr h)⟩
  | cancelInLoop id =>
    by_cases hactive : id ∈ q.activeTimer
    · obtain ⟨tm', hp', hseq, hok', -⟩ := cancelInLoop_active h hactive
      obtain rfl := Except.ok.inj (hok.symm.trans hok')
      have hne : p ≠ id.timer := by
        rintro rfl
        rw [hp] at hp'
        cases hp'
        have hid : toLex (id.timer, tm.sequence) = id := by rw [hseq]; rfl
        rw [hid] at hcancel
        exact hcancel hactive rfl
      exact ⟨Function.update_of_ne hne _ _, rfl,
        fun t h => OrderedSet.mem_erase.2 ⟨fun heq => hne (Entry.mk_inj.1 heq).2, h⟩,
        fun s h => OrderedSet.mem_erase.2 ⟨fun heq => hne (ActiveTimer.mk_inj.1 heq).1, h⟩⟩
    · obtain rfl := Except.ok.inj (hok.symm.trans (cancelInLoop_other h hactive))
      split <;> exact .same rfl rfl rfl rfl
  | handleRead => cases hin
  | runTimer =>
    obtain ⟨e, rest, hpos⟩ := mayRun_iff.1 ha
    obtain ⟨tm', -, hok'⟩ := runTimer_eq h hpos
    obtain rfl := Except.ok.inj (hok.symm.trans hok')
    exact .same rfl rfl rfl rfl
  | callbackReturns =>
    obtain ⟨rest, hpos⟩ := inCallback_iff.1 ha
    cases hok
    rw [callbackReturns, hpos]
    exact .same rfl rfl rfl rfl
  | endHandleRead => cases hin
  | reset now => cases hin
  | setClock clock =>
    cases hok
    unfold setClock
    split
    · split <;> exact .same rfl rfl rfl rfl
    · exact .same rfl rfl rfl rfl

theorem run_keeps {os : List TimerOp} (h : Inv q) (ha : Along step Allowed q os)
    (hin : ∀ o ∈ os, o.InLoop = true) (hok : run step q os = .ok q') (hp : q.heap p = some tm)
    (hcancel : .cancelInLoop (toLex (p, tm.sequence)) ∉ os) : Inv q' ∧ Keeps q p q' := by
  refine run_inv_along (I := fun u => Inv u ∧ Keeps q p u) ?_ ⟨h, .refl q p⟩
    (ha.and_forall (P := fun o => o.InLoop = true ∧ o ≠ .cancelInLoop (toLex (p, tm.sequence)))
      fun o ho => ⟨hin o ho, fun heq => hcancel (heq ▸ ho)⟩) hok
  rintro u o u' ⟨hu, hkeeps⟩ ⟨hallowed, hloop, hne⟩ hstep
  exact ⟨hu.step hallowed hstep, hkeeps.trans
    (inLoop_keeps hu hallowed hloop hstep (hkeeps.heap.trans hp) fun _ => hne)⟩

theorem run_keeps_batch {os : List TimerOp} (h : Inv q) (ha : Along step Allowed q os)
    (hin : ∀ o ∈ os, o.InLoop = true) (hok : run step q os = .ok q') {e : Entry}
    (he : e ∈ q.batch.getD []) : Inv q' ∧ Keeps q e.timer q' := by
  refine run_inv_along (I := fun u => Inv u ∧ Keeps q e.timer u) ?_ ⟨h, .refl q _⟩
    (ha.and_forall hin) hok
  rintro u o u' ⟨hu, hkeeps⟩ ⟨hallowed, hloop⟩ hstep
  have haside : e.timer ∈ u.aside := timer_mem_aside (hkeeps.batch ▸ he)
  obtain ⟨tm, htm⟩ := hu.aside_live _ haside
  exact ⟨hu.step hallowed hstep, hkeeps.trans (inLoop_keeps hu hallowed hloop hstep htm
    fun hactive => absurd hactive (hu.aside_out _ haside _))⟩

theorem inLoop_position (h : Inv q) (ha : q.Allowed o) (hin : o.InLoop = true)
    (hok : step q o = .ok q') : q'.batch = q.batch ∧
    ((q'.position = q.position ∧ q'.ran = q.ran) ∨
    (∃ rest, q.position = .running rest true ∧ q'.position = .running rest false ∧
      q'.ran = q.ran) ∨
    ∃ e rest, q.position = .running (e :: rest) false ∧ q'.position = .running rest true ∧
      q'.ran = q.ran ++ [idOf q.heap e]) := by
  cases o with
  | newTimer => cases hok; exact ⟨rfl, .inl ⟨rfl, rfl⟩⟩
  | addTimerInLoop p found =>
    obtain ⟨tm, -, -, hok', -⟩ := addTimerInLoop_eq h ha.2 found
    obtain rfl := Except.ok.inj (hok.symm.trans hok')
    cases found <;> exact ⟨rfl, .inl ⟨rfl, rfl⟩⟩
  | cancelInLoop id =>
    by_cases hactive : id ∈ q.activeTimer
    · obtain ⟨tm, -, -, hok', -⟩ := cancelInLoop_active h hactive
      obtain rfl := Except.ok.inj (hok.symm.trans hok')
      exact ⟨rfl, .inl ⟨rfl, rfl⟩⟩
    · obtain rfl := Except.ok.inj (hok.symm.trans (cancelInLoop_other h hactive))
      split <;> exact ⟨rfl, .inl ⟨rfl, rfl⟩⟩
  | handleRead => cases hin
  | runTimer =>
    obtain ⟨e, rest, hpos⟩ := mayRun_iff.1 ha
    obtain ⟨tm, hp, hok'⟩ := runTimer_eq h hpos
    obtain rfl := Except.ok.inj (hok.symm.trans hok')
    exact ⟨rfl, .inr (.inr ⟨e, rest, hpos, rfl, by rw [idOf_eq hp]⟩)⟩
  | callbackReturns =>
    obtain ⟨rest, hpos⟩ := inCallback_iff.1 ha
    cases hok
    rw [callbackReturns, hpos]
    exact ⟨rfl, .inr (.inl ⟨rest, rfl, rfl, rfl⟩)⟩
  | endHandleRead => cases hin
  | reset now => cases hin
  | setClock clock =>
    cases hok
    unfold setClock
    split
    · split <;> exact ⟨rfl, .inl ⟨rfl, rfl⟩⟩
    · exact ⟨rfl, .inl ⟨rfl, rfl⟩⟩

/-- Of the batch, `ran` shows what the loop has left behind. -/
structure Progress (q : TimerQueue) (es : List Entry) (u : TimerQueue) : Prop where
  taken : u.batch = some es
  ids : ∀ e ∈ es, idOf u.heap e = idOf q.heap e
  ran : ∃ front rest b, u.position = .running rest b ∧ es = front ++ rest ∧
    u.ran = q.ran ++ front.map (idOf q.heap)

theorem Progress.step {es : List Entry} {u u' : TimerQueue} (hp : Progress q es u) (hu : Inv u)
    (ha : u.Allowed o) (hin : o.InLoop = true) (hok : TimerQueue.step u o = .ok u') :
    Progress q es u' := by
  obtain ⟨hbatch, hmove⟩ := inLoop_position hu ha hin hok
  obtain ⟨front, rest, b, hpos, hsplit, hran⟩ := hp.ran
  refine ⟨hbatch.trans hp.taken, fun e he => ?_, ?_⟩
  · have haside : e.timer ∈ u.aside := timer_mem_aside (by rw [hp.taken]; exact he)
    obtain ⟨tm, htm⟩ := hu.aside_live _ haside
    have hkeeps := inLoop_keeps hu ha hin hok htm
      fun hactive => absurd hactive (hu.aside_out _ haside _)
    rw [← hp.ids e he, idOf, idOf, hkeeps.heap]
  · rcases hmove with ⟨hpos', hran'⟩ | ⟨rest', hat, hpos', hran'⟩ | ⟨e, rest', hat, hpos', hran'⟩
    · exact ⟨front, rest, b, hpos'.trans hpos, hsplit, hran'.trans hran⟩
    · obtain ⟨rfl, rfl⟩ := ReadPosition.running.inj (hpos.symm.trans hat)
      exact ⟨front, rest, false, hpos', hsplit, hran'.trans hran⟩
    · obtain ⟨rfl, rfl⟩ := ReadPosition.running.inj (hpos.symm.trans hat)
      refine ⟨front ++ [e], rest', true, hpos', by rw [hsplit, List.append_assoc]; rfl, ?_⟩
      rw [hran', hran, hp.ids e (hsplit ▸ List.mem_append_right _ List.mem_cons_self),
        List.map_append, List.append_assoc]
      rfl

theorem cycle_parts {mid : List TimerOp} (h : Inv q) (ha : Along step Allowed q (cycle mid))
    (hok : run step q (cycle mid) = .ok q') :
    ∃ active q₂, step q .handleRead = .ok (q.reading active) ∧ Inv (q.reading active) ∧
      run step (q.reading active) mid = .ok q₂ ∧ Along step Allowed (q.reading active) mid ∧
      q₂.position = .running [] false ∧ q' = q₂.endHandleRead := by
  obtain ⟨active, hread, hstep, hmem⟩ := handleRead_eq h
  rw [cycle, run_cons (show step q .handleRead = _ from hread)] at hok
  obtain ⟨q₂, hmid, hend⟩ := run_append_ok hok
  have hrest := ((along_cons_ok (show step q .handleRead = _ from hread) _).1 ha).2
  obtain ⟨hal, hlast⟩ := (along_append hmid _).1 hrest
  cases hend
  exact ⟨active, q₂, hread, h.reading hstep hmem, hmid, hal, hlast.1, rfl⟩

theorem expired_run_once {mid : List TimerOp} (h : Inv q) (ha : Along step Allowed q (cycle mid))
    (hmid : ∀ o ∈ mid, o.InLoop = true) (hok : run step q (cycle mid) = .ok q') :
    q'.ran = q.ran ++ (q.timer.below q.sentry).map (idOf q.heap) := by
  obtain ⟨active, q₂, -, hread, hrun, hal, hpos, rfl⟩ := cycle_parts h ha hok
  have hstart : Progress q (q.timer.below q.sentry) (q.reading active) :=
    ⟨rfl, fun _ _ => rfl, [], _, false, rfl, rfl, (List.append_nil _).symm⟩
  obtain ⟨-, hlast⟩ := run_inv_along
    (I := fun u => Inv u ∧ Progress q (q.timer.below q.sentry) u)
    (fun u o u' ⟨hu, hprogress⟩ ⟨hallowed, hloop⟩ hstep =>
      ⟨hu.step hallowed hstep, hprogress.step hu hallowed hloop hstep⟩) ⟨hread, hstart⟩
    (hal.and_forall hmid) hrun
  obtain ⟨front, rest, b, hat, hsplit, hran⟩ := hlast.ran
  obtain ⟨rfl, -⟩ := ReadPosition.running.inj (hpos.symm.trans hat)
  rw [List.append_nil] at hsplit
  rw [hsplit]
  exact hran

theorem expired_lost {mid : List TimerOp} (h : Inv q) (ha : Along step Allowed q (cycle mid))
    (hmid : ∀ o ∈ mid, o.InLoop = true) (hok : run step q (cycle mid) = .ok q') {e : Entry}
    (he : Expired q e) (hp : q.heap e.timer = some tm) :
    idOf q.heap e ∉ q'.activeTimer ∧ idOf q.heap e ∉ q'.deleted := by
  obtain ⟨active, q₂, -, hread, hrun, hal, -, rfl⟩ := cycle_parts h ha hok
  have hbatch : e ∈ (q.reading active).batch.getD [] :=
    OrderedSet.mem_below.2 ⟨he.1, (expired_iff h he.1).2 he.2⟩
  obtain ⟨hq₂, hkeeps⟩ := run_keeps_batch hread hal hmid hrun hbatch
  have haside : e.timer ∈ q₂.aside := timer_mem_aside (hkeeps.batch ▸ hbatch)
  rw [idOf_eq hp]
  exact ⟨hq₂.aside_out _ haside _, (hq₂.ids _ _ (hkeeps.heap.trans hp)).2⟩

theorem cycle_keeps {mid : List TimerOp} (h : Inv q) (ha : Along step Allowed q (cycle mid))
    (hmid : ∀ o ∈ mid, o.InLoop = true) (hok : run step q (cycle mid) = .ok q')
    {pre post : List TimerOp} {u : TimerQueue} {e : Entry} (hsplit : cycle mid = pre ++ post)
    (hu : run step q pre = .ok u) (he : e ∈ u.timer) (hnot : ¬ Expired q e)
    (hcancel : .cancelInLoop (idOf u.heap e) ∉ post) :
    e ∈ q'.timer ∧ idOf u.heap e ∈ q'.activeTimer := by
  obtain ⟨active, q₂, hfirst, hread, hrun, hal, -, rfl⟩ := cycle_parts h ha hok
  -- what holds from some point of the loop on
  have hloop : ∀ {v : TimerQueue} {os : List TimerOp}, Inv v → Along step Allowed v os →
      (∀ o ∈ os, o.InLoop = true) → run step v os = .ok q₂ → e ∈ v.timer →
      .cancelInLoop (idOf v.heap e) ∉ os → e ∈ q₂.timer ∧ idOf v.heap e ∈ q₂.activeTimer := by
    intro v os hv hav hin hokv hev hcv
    obtain ⟨tm, hp, -, hactive⟩ := hv.inStep.entry hev
    rw [idOf_eq hp] at hcv ⊢
    obtain ⟨-, hkeeps⟩ := run_keeps hv hav hin hokv hp hcv
    exact ⟨hkeeps.timer _ hev, hkeeps.active _ hactive⟩
  cases pre with
  | nil =>
    cases hu
    have hstays : e ∈ (q.reading active).timer := OrderedSet.mem_atLeast.2
      ⟨he, not_lt.1 fun hlt => hnot ⟨he, (expired_iff h he).1 hlt⟩⟩
    have hpost : post = cycle mid := hsplit.symm
    rw [hpost] at hcancel
    exact hloop (v := q.reading active) hread hal hmid hrun hstays fun hin =>
      hcancel (List.mem_cons_of_mem _ (List.mem_append_left _ hin))
  | cons o pre =>
    obtain ⟨rfl, hrest⟩ := List.cons.inj hsplit
    rw [run_cons hfirst] at hu
    rcases List.eq_nil_or_concat' post with rfl | ⟨post, last, rfl⟩
    · -- the call has returned
      rw [show pre = mid ++ [.endHandleRead] from hrest.symm ▸ (List.append_nil pre).symm] at hu
      obtain ⟨v, hv, hend⟩ := run_append_ok hu
      obtain rfl := Except.ok.inj (hrun.symm.trans hv)
      cases hend
      obtain ⟨tm, hp, -, hactive⟩ := (run_inv_allowed hread hal hrun).inStep.entry he
      exact ⟨he, (idOf_eq (h := q₂.endHandleRead.heap) hp).symm ▸ hactive⟩
    · have happend : mid ++ [.endHandleRead] = (pre ++ post) ++ [last] := by
        rw [List.append_assoc]
        exact hrest
      obtain ⟨rfl, -⟩ := List.append_inj' happend rfl
      obtain ⟨v, hv, hafter⟩ := run_append_ok hrun
      obtain rfl := Except.ok.inj (hu.symm.trans hv)
      obtain ⟨hpre, hpost⟩ := (along_append hv _).1 hal
      have hinv := run_inv_allowed hread hpre hv
      exact hloop hinv hpost (fun o ho => hmid o (List.mem_append_right _ ho)) hafter he
        fun hin => hcancel (List.mem_append_left _ hin)

/-- A call does what it is to do exactly when no timer has expired. -/
theorem expiry_cycle_iff {clock : ℤ} {os mid : List TimerOp}
    (hos : Along step Allowed (new clock) os) (hq : run step (new clock) os = .ok q)
    (hmid : ∀ o ∈ mid, o.InLoop = true) (ha : Along step Allowed q (cycle mid))
    (hq' : run step q (cycle mid) = .ok q') :
    ExpiryCycle q mid q' ↔ ∀ e ∈ q.timer, q.now < e.time := by
  have hinv := run_inv_allowed (new_inv clock) hos hq
  constructor
  · intro hcycle e he
    by_contra hle
    have hexpired : Expired q e := ⟨he, not_lt.1 hle⟩
    obtain ⟨tm, hp, -, -⟩ := hinv.inStep.entry he
    obtain ⟨hactive, hdeleted⟩ := expired_lost hinv ha hmid hq' hexpired hp
    by_cases hagain : tm.repeats = true ∧ .cancelInLoop (idOf q.heap e) ∉ mid
    · exact hactive (hcycle.again e tm hexpired hp hagain.1 hagain.2).2
    · refine hdeleted (hcycle.gone e tm hexpired hp ?_).2.2
      rw [not_and_or, Bool.not_eq_true, not_not] at hagain
      exact hagain
  · intro hnone
    have hnot : ∀ e, ¬ Expired q e := fun e he => not_lt.2 he.2 (hnone e he.1)
    exact ⟨fun e he => absurd he (hnot e), fun e tm he => absurd he (hnot e),
      fun e tm he => absurd he (hnot e), fun pre post u e hsplit hu he _ hcancel =>
        cycle_keeps hinv ha hmid hq' hsplit hu he (hnot e) hcancel⟩

theorem expiry_cycle_iff_early :
    ∃ q q', run step (new 0) [.newTimer 16 1 5000000 0 false, .addTimerInLoop 16 true,
        .setClock 1000000] = .ok q ∧
      run step q (cycle [.newTimer 32 2 2000000 0 false]) = .ok q' ∧
      ExpiryCycle q [.newTimer 32 2 2000000 0 false] q' := by
  obtain ⟨q, hq, hall⟩ := ok_of_toOption_map
    (x := run step (new 0) [.newTimer 16 1 5000000 0 false, .addTimerInLoop 16 true,
      .setClock 1000000])
    (f := fun q => (decide (∀ e ∈ q.timer.elems, q.now < e.time),
      decide (Along step Allowed q (cycle [.newTimer 32 2 2000000 0 false])),
      (run step q (cycle [.newTimer 32 2 2000000 0 false])).toOption.map fun q' => q'.timer.size))
    (a := (true, true, some 1)) (by decide +kernel)
  simp only [Prod.mk.injEq, decide_eq_true_eq] at hall
  obtain ⟨hnone, ha, hend⟩ := hall
  obtain ⟨q', hq', -⟩ := ok_of_toOption_map hend
  exact ⟨q, q', hq, hq', (expiry_cycle_iff (by decide +kernel) hq (by decide) ha hq').2 hnone⟩

/-- A repeating timer is not entered again after its first shot. -/
theorem expiry_cycle_fails_repeating :
    ∃ q q', run step (new 0) [.newTimer 16 1 1000000 500000 true, .addTimerInLoop 16 true,
        .setClock 1000000] = .ok q ∧
      Along step Allowed (new 0) [.newTimer 16 1 1000000 500000 true, .addTimerInLoop 16 true,
        .setClock 1000000] ∧
      Along step Allowed q (cycle [.runTimer, .callbackReturns]) ∧
      run step q (cycle [.runTimer, .callbackReturns]) = .ok q' ∧
      ¬ ExpiryCycle q [.runTimer, .callbackReturns] q' := by
  obtain ⟨q, hq, hall⟩ := ok_of_toOption_map
    (x := run step (new 0) [.newTimer 16 1 1000000 500000 true, .addTimerInLoop 16 true,
      .setClock 1000000])
    (f := fun q => (decide (Along step Allowed q (cycle [.runTimer, .callbackReturns])),
      decide (toLex (1000000, 16) ∈ q.timer), q.now, q.heap 16,
      (run step q (cycle [.runTimer, .callbackReturns])).toOption.map fun q' => q'.timer.size))
    (a := (true, true, 1000000, some ⟨1000000, 500000, true, 1⟩, some 0)) (by decide +kernel)
  simp only [Prod.mk.injEq, decide_eq_true_eq] at hall
  obtain ⟨ha, hin, hnow, hp, hend⟩ := hall
  obtain ⟨q', hq', hempty⟩ := ok_of_toOption_map hend
  refine ⟨q, q', hq, by decide +kernel, ha, hq', fun hcycle => ?_⟩
  have hagain := (hcycle.again (toLex (1000000, 16)) _ ⟨hin, hnow.ge⟩ hp rfl (by simp)).1
  rw [OrderedSet.mem_def, List.length_eq_zero_iff.1 hempty] at hagain
  exact List.not_mem_nil hagain

end TimerQueue

end Czy.Net
