import Czy.Proofs.ExpiryCycle
import Czy.Proofs.TimerReset
import Czy.Sanity.TimerMemory

/-! How often a timer runs over whole runs: once each time it is entered, which for a timer
that does not repeat, or for which `reset` is never called, is once; and after a cancel no
more, but for the batch that is being run. -/

namespace Czy.Net.TimerQueue

open StepRun

def toRun (q : TimerQueue) : List Entry :=
  match q.position with
  | .running rest _ => rest
  | .outside => []

def Lives (q : TimerQueue) (id : ActiveTimer) : Prop :=
  ∃ tm, q.heap id.timer = some tm ∧ tm.sequence = id.sequence

def Queued (q : TimerQueue) (id : ActiveTimer) : Prop := id.timer ∈ q.pending ∨ id ∈ q.activeTimer

def Awaits (q : TimerQueue) (id : ActiveTimer) : Prop :=
  q.Lives id ∧ (q.Queued id ∨ id.timer ∈ q.toRun.map Entry.timer)

def Revives (q : TimerQueue) (id : ActiveTimer) : Prop :=
  ∃ e ∈ q.batch.getD [], idOf q.heap e = id ∧ q.goesOn e = true

/-- The invariant, with what the history of the callbacks needs. -/
structure Orderly (q : TimerQueue) : Prop where
  inv : Inv q
  once : (q.toRun.map Entry.timer).Nodup
  made : ∀ id ∈ q.ran, id ∈ q.created

variable {q q' : TimerQueue} {o : TimerOp} {id : ActiveTimer} {es : List Entry} {now : ℤ}
  {found : Option Bool}
  {resets : Prop}

theorem Inv.lives_created (h : Inv q) (hl : q.Lives id) : id ∈ q.created := by
  obtain ⟨tm, hp, hseq⟩ := hl
  have hmade := (h.ids _ _ hp).1
  rw [hseq] at hmade
  exact hmade

theorem Inv.active_lives (h : Inv q) (hin : id ∈ q.activeTimer) : q.Lives id :=
  h.inStep.live id.timer id.sequence hin

theorem OnlyDeletes.lives (h : OnlyDeletes q q') (hl : q'.Lives id) : q.Lives id := by
  obtain ⟨tm', hp', hseq'⟩ := hl
  obtain ⟨tm, hp, hseq, -⟩ := h.heap _ tm' hp'
  exact ⟨tm, hp, hseq ▸ hseq'⟩

theorem toRun_running {rest : List Entry} {b : Bool} (h : q.position = .running rest b) :
    q.toRun = rest := by
  rw [toRun, h]

theorem toRun_congr (h : q'.position = q.position) : q'.toRun = q.toRun := by
  rw [toRun, toRun, h]

theorem Inv.toRun_mem (h : Inv q) {e : Entry} (he : e ∈ q.toRun) : e ∈ q.batch.getD [] := by
  rw [toRun] at he
  split at he
  next rest b hpos => exact (h.running rest b hpos).1 e he
  next => cases he

theorem Inv.below_active (h : Inv q) (hl : q.Lives id)
    (hin : id.timer ∈ (q.timer.below q.sentry).map Entry.timer) : id ∈ q.activeTimer := by
  obtain ⟨e, he, heq⟩ := List.mem_map.1 hin
  obtain ⟨tm, hp, -, hactive⟩ := h.inStep.entry (OrderedSet.mem_below.1 he).1
  obtain ⟨tm', hp', hseq'⟩ := hl
  rw [heq] at hp hactive
  rw [hp', Option.some.injEq] at hp
  rw [← hp, hseq'] at hactive
  exact hactive

/-! The loop of `reset`. -/

structure Beside (q q' : TimerQueue) : Prop where
  pending : q'.pending = q.pending
  ran : q'.ran = q.ran
  position : q'.position = q.position

theorem Beside.refl (q : TimerQueue) : Beside q q := ⟨rfl, rfl, rfl⟩

theorem Beside.trans {q'' : TimerQueue} (h : Beside q q') (h' : Beside q' q'') : Beside q q'' :=
  ⟨h'.pending.trans h.pending, h'.ran.trans h.ran, h'.position.trans h.position⟩

theorem insert_beside {p : ℕ} {r : TimerQueue × Bool} (h : q.insert p found = .ok r) :
    Beside q r.1 := by
  obtain ⟨tm, -, hr, -⟩ := insert_ok h
  rw [hr]
  exact ⟨rfl, rfl, rfl⟩

theorem resetLoop_beside (h : resetLoop found now es q = .ok q') : Beside q q' := by
  induction es generalizing q with
  | nil =>
    rw [← Except.ok.inj h]
    exact ⟨rfl, rfl, rfl⟩
  | cons e es ih =>
    obtain ⟨u, hu, h⟩ := bind_ok.1 h
    have hround : Beside q u := by
      obtain ⟨tm, -, hu⟩ := bind_ok.1 hu
      split at hu
      next =>
        obtain ⟨r, hr, hu⟩ := bind_ok.1 hu
        have hinsert := insert_beside hr
        rw [← Except.ok.inj hu]
        exact ⟨hinsert.pending, hinsert.ran, hinsert.position⟩
      next =>
        rw [← Except.ok.inj hu]
        exact ⟨rfl, rfl, rfl⟩
    exact hround.trans (ih h)

/-- `reset` is its loop, and a setting of the timerfd. -/
theorem reset_loop (h : q.reset now found = .ok q') :
    ∃ u, resetLoop found now (q.batch.getD []) q = .ok u ∧
      (q' = u ∨ ∃ t, q' = u.resetTimerfd t) := by
  obtain ⟨u, hu, h⟩ := bind_ok.1 h
  refine ⟨u, hu, ?_⟩
  split at h
  next => exact .inl (Except.ok.inj h).symm
  next =>
    obtain ⟨tm, -, h⟩ := bind_ok.1 h
    rw [← Except.ok.inj h]
    split
    · exact .inr ⟨_, rfl⟩
    · exact .inl rfl

theorem reset_beside (h : q.reset now found = .ok q') : Beside q q' := by
  obtain ⟨u, hu, hq'⟩ := reset_loop h
  have hloop := resetLoop_beside hu
  rcases hq' with rfl | ⟨t, rfl⟩
  · exact hloop
  · exact ⟨hloop.pending, hloop.ran, hloop.position⟩

theorem reset_active (h : Inv q) (hb : q.batch = some es) (hok : q.reset now (some false) = .ok q')
    (hin : id ∈ q'.activeTimer) : id ∈ q.activeTimer ∨ q.Revives id := by
  obtain ⟨u, hu, hq'⟩ := reset_loop hok
  have hin : id ∈ u.activeTimer := by
    rcases hq' with rfl | ⟨t, rfl⟩
    · exact hin
    · exact hin
  rw [hb, Option.getD_some] at hu
  obtain ⟨v, hv, hdisposes⟩ : ∃ v, resetLoop (some false) now es q = .ok v ∧
      Disposes q es now v := resetLoop_disposes h.inStep (h.disposable hb) fun _ _ _ => rfl
  obtain rfl := Except.ok.inj (hu.symm.trans hv)
  obtain ⟨tm', hp', hseq'⟩ := hdisposes.inStep.live id.timer id.sequence hin
  have hentry := (hdisposes.inStep.mem_timer tm'.expiration id.timer).2
    ⟨tm', hp', rfl, by rw [hseq']; exact hin⟩
  rcases (hdisposes.entered _ _).1 hentry with hold | ⟨e, he, hp, hgoes, -⟩
  · obtain ⟨tm, hp, -, hactive⟩ := (h.inStep.mem_timer _ _).1 hold
    have hother : id.timer ∉ es.map Entry.timer := by
      intro hmem
      obtain ⟨e, he, heq⟩ := List.mem_map.1 hmem
      exact (h.disposable hb).out e he _ (heq ▸ hactive)
    rw [hdisposes.others _ hother, hp, Option.some.injEq] at hp'
    rw [hp', hseq'] at hactive
    exact .inl hactive
  · obtain ⟨tm, htm⟩ := (h.disposable hb).live e he
    have hagain := hdisposes.again e he hgoes
    rw [hp, hp', ← hp, htm, Option.map_some, Option.some.injEq] at hagain
    have hseq : tm.sequence = id.sequence := by rw [← hseq', hagain]
    refine .inr ⟨e, by rw [hb]; exact he, ?_, hgoes⟩
    rw [idOf_eq htm, hp, hseq]
    rfl

/-! What each operation does to a timer that waits, and to the history. -/

theorem step_created (hok : step q o = .ok q') (hid : id ∈ q.created) : id ∈ q'.created := by
  by_cases ho : ∃ timer sequence whenAt interval repeats,
      o = .newTimer timer sequence whenAt interval repeats
  · obtain ⟨p, s, whenAt, interval, repeats, rfl⟩ := ho
    obtain rfl := Except.ok.inj hok
    exact List.mem_append_left _ hid
  · have hdel := step_onlyDeletes hok fun p s whenAt interval repeats heq =>
      ho ⟨p, s, whenAt, interval, repeats, heq⟩
    rw [hdel.created]
    exact hid

theorem step_lives (ha : q.Allowed o) (hok : step q o = .ok q') (hid : id ∈ q.created)
    (hl : q'.Lives id) : q.Lives id := by
  by_cases ho : ∃ timer sequence whenAt interval repeats,
      o = .newTimer timer sequence whenAt interval repeats
  · obtain ⟨p, s, whenAt, interval, repeats, rfl⟩ := ho
    obtain rfl := Except.ok.inj hok
    obtain ⟨tm, hp, hseq⟩ := hl
    change Function.update q.heap p _ id.timer = some tm at hp
    by_cases hne : id.timer = p
    · rw [hne, Function.update_self, Option.some.injEq] at hp
      exact absurd (by rw [← hseq, ← hp]) (ha.2.2 id hid)
    · rw [Function.update_of_ne hne] at hp
      exact ⟨tm, hp, hseq⟩
  · exact (step_onlyDeletes hok fun p s whenAt interval repeats heq =>
      ho ⟨p, s, whenAt, interval, repeats, heq⟩).lives hl

theorem step_queued (h : Inv q) (ha : q.Allowed o) (hok : step q o = .ok q') (hid : id ∈ q.created)
    (hl : q'.Lives id) (hq' : q'.Queued id) :
    q.Queued id ∨ (∃ now, o = .reset now) ∧ q.Revives id := by
  cases o with
  | newTimer p s whenAt interval repeats =>
    obtain rfl := Except.ok.inj hok
    refine .inl (hq'.imp_left fun hin => (List.mem_append.1 hin).resolve_right fun hmem => ?_)
    obtain ⟨tm, hp⟩ := step_lives ha hok hid hl
    rw [List.mem_singleton.1 hmem, ha.1] at hp
    exact absurd hp.1 nofun
  | addTimerInLoop p found =>
    obtain ⟨tm, -, -, hok', -⟩ := addTimerInLoop_eq h ha.2 found
    obtain rfl := Except.ok.inj (hok.symm.trans hok')
    have hentered : id.timer ∈ q.pending.erase p ∨ id ∈ q.activeTimer.insert (toLex (p, tm.sequence)) := by
      cases found with
      | true => exact hq'
      | false => exact hq'
    rcases hentered with hin | hin
    · exact .inl (.inl (List.mem_of_mem_erase hin))
    · rcases OrderedSet.mem_insert.1 hin with rfl | hin
      · exact .inl (.inl ha.2)
      · exact .inl (.inr hin)
  | cancelInLoop timerid =>
    by_cases hin : timerid ∈ q.activeTimer
    · obtain ⟨tm, -, -, hok', -⟩ := cancelInLoop_active h hin
      obtain rfl := Except.ok.inj (hok.symm.trans hok')
      exact .inl (hq'.imp_right fun hmem => (OrderedSet.mem_erase.1 hmem).2)
    · obtain rfl := Except.ok.inj (hok.symm.trans (cancelInLoop_other h hin))
      split at hq'
      · exact .inl hq'
      · exact .inl hq'
  | handleRead =>
    obtain ⟨active, hok', -, hmem⟩ := handleRead_eq h
    obtain rfl := Except.ok.inj (hok.symm.trans hok')
    exact .inl (hq'.imp_right fun hin => ((hmem id).1 hin).1)
  | runTimer =>
    obtain ⟨e, rest, hpos⟩ := mayRun_iff.1 ha
    obtain ⟨tm, -, hok'⟩ := runTimer_eq h hpos
    obtain rfl := Except.ok.inj (hok.symm.trans hok')
    exact .inl hq'
  | callbackReturns =>
    obtain ⟨rest, hpos⟩ := inCallback_iff.1 ha
    obtain rfl := Except.ok.inj hok
    rw [callbackReturns, hpos] at hq'
    exact .inl hq'
  | endHandleRead =>
    obtain rfl := Except.ok.inj hok
    exact .inl hq'
  | reset now =>
    obtain ⟨es, hb⟩ := Option.isSome_iff_exists.1 ha.2
    rcases hq' with hin | hin
    · exact .inl (.inl ((reset_beside hok).pending ▸ hin))
    · rcases reset_active h hb hok hin with hin | hrevives
      · exact .inl (.inr hin)
      · exact .inr ⟨⟨now, rfl⟩, hrevives⟩
  | setClock clock =>
    obtain rfl := Except.ok.inj hok
    have hsame : (q.setClock clock).pending = q.pending ∧
        (q.setClock clock).activeTimer = q.activeTimer := by
      rw [setClock]
      split
      · split <;> exact ⟨rfl, rfl⟩
      · exact ⟨rfl, rfl⟩
    rw [Queued, hsame.1, hsame.2] at hq'
    exact .inl hq'

theorem step_toRun (h : Inv q) (ha : q.Allowed o) (hok : step q o = .ok q') :
    q'.toRun.Sublist q.toRun ∨ q'.toRun = q.timer.below q.sentry := by
  by_cases hin : o.InLoop = true
  · obtain ⟨-, ⟨hpos, -⟩ | ⟨rest, hpos, hpos', -⟩ | ⟨e, rest, hpos, hpos', -⟩⟩ :=
      inLoop_position h ha hin hok
    · exact .inl (by rw [toRun_congr hpos])
    · exact .inl (by rw [toRun_running hpos, toRun_running hpos'])
    · exact .inl (by rw [toRun_running hpos, toRun_running hpos']; exact List.sublist_cons_self _ _)
  · cases o with
    | handleRead =>
      obtain ⟨active, hok', -⟩ := handleRead_eq h
      obtain rfl := Except.ok.inj (hok.symm.trans hok')
      exact .inr rfl
    | endHandleRead =>
      obtain rfl := Except.ok.inj hok
      exact .inl (List.nil_sublist _)
    | reset now =>
      exact .inl (by rw [toRun_congr (reset_beside hok).position])
    | _ => exact absurd rfl hin

theorem step_awaits (h : Inv q) (ha : q.Allowed o) (hok : step q o = .ok q') (hid : id ∈ q.created)
    (hq' : q'.Awaits id) : q.Awaits id ∨ (∃ now, o = .reset now) ∧ q.Revives id := by
  obtain ⟨hl', hqueued | hrun⟩ := hq'
  · have hl := step_lives ha hok hid hl'
    exact (step_queued h ha hok hid hl' hqueued).imp_left fun hqueued => ⟨hl, .inl hqueued⟩
  · have hl := step_lives ha hok hid hl'
    refine .inl ⟨hl, ?_⟩
    rcases step_toRun h ha hok with hsub | heq
    · exact .inr ((hsub.map _).subset hrun)
    · rw [heq] at hrun
      exact .inl (.inr (h.below_active hl hrun))

theorem step_ran (h : Orderly q) (ha : q.Allowed o) (hok : step q o = .ok q') :
    q'.ran = q.ran ∨ ∃ id, q'.ran = q.ran ++ [id] ∧ q.Awaits id ∧ ¬ q'.Awaits id := by
  have hinv := h.inv
  cases o with
  | newTimer p s whenAt interval repeats =>
    obtain rfl := Except.ok.inj hok
    exact .inl rfl
  | addTimerInLoop p found =>
    obtain ⟨tm, -, -, hok', -⟩ := addTimerInLoop_eq hinv ha.2 found
    obtain rfl := Except.ok.inj (hok.symm.trans hok')
    cases found with
    | true => exact .inl rfl
    | false => exact .inl rfl
  | cancelInLoop timerid =>
    by_cases hin : timerid ∈ q.activeTimer
    · obtain ⟨tm, -, -, hok', -⟩ := cancelInLoop_active hinv hin
      obtain rfl := Except.ok.inj (hok.symm.trans hok')
      exact .inl rfl
    · obtain rfl := Except.ok.inj (hok.symm.trans (cancelInLoop_other hinv hin))
      split
      · exact .inl rfl
      · exact .inl rfl
  | handleRead =>
    obtain ⟨active, hok', -⟩ := handleRead_eq hinv
    obtain rfl := Except.ok.inj (hok.symm.trans hok')
    exact .inl rfl
  | runTimer =>
    obtain ⟨e, rest, hpos⟩ := mayRun_iff.1 ha
    obtain ⟨tm, htm, hok'⟩ := runTimer_eq hinv hpos
    obtain rfl := Except.ok.inj (hok.symm.trans hok')
    have htoRun := toRun_running hpos
    have he : e ∈ q.toRun := htoRun ▸ List.mem_cons_self
    have hbatch := timer_mem_aside (hinv.toRun_mem he)
    have honce := h.once
    rw [htoRun, List.map_cons, List.nodup_cons] at honce
    refine .inr ⟨_, rfl, ⟨⟨tm, htm, rfl⟩, .inr (List.mem_map_of_mem he)⟩, ?_⟩
    rintro ⟨-, (hin | hin) | hin⟩
    · obtain ⟨-, -, hdisj⟩ := List.nodup_append.1 hinv.aside_once
      exact hdisj e.timer (List.mem_map_of_mem (hinv.toRun_mem he)) e.timer hin rfl
    · exact hinv.aside_out _ hbatch _ hin
    · exact honce.1 hin
  | callbackReturns =>
    obtain ⟨rest, hpos⟩ := inCallback_iff.1 ha
    obtain rfl := Except.ok.inj hok
    rw [callbackReturns, hpos]
    exact .inl rfl
  | endHandleRead =>
    obtain rfl := Except.ok.inj hok
    exact .inl rfl
  | reset now => exact .inl (reset_beside hok).ran
  | setClock clock =>
    obtain rfl := Except.ok.inj hok
    rw [setClock]
    split
    · split <;> exact .inl rfl
    · exact .inl rfl

theorem new_orderly (clock : ℤ) : Orderly (new clock) := ⟨new_inv clock, .nil, nofun⟩

theorem Orderly.step (h : Orderly q) (ha : q.Allowed o) (hok : step q o = .ok q') : Orderly q' where
  inv := h.inv.step ha hok
  once := by
    rcases step_toRun h.inv ha hok with hsub | heq
    · exact h.once.sublist (hsub.map _)
    · rw [heq]
      exact h.inv.inStep.below_once _
  made id hid := by
    apply step_created hok
    rcases step_ran h ha hok with hran | ⟨id', hran, hawaits, -⟩
    · rw [hran] at hid
      exact h.made id hid
    · rw [hran, List.mem_append, List.mem_singleton] at hid
      rcases hid with hid | rfl
      · exact h.made id hid
      · exact h.inv.lives_created hawaits.1

/-! A timer runs no more than a number of times, which it has not reached while it waits. -/

structure Within (q : TimerQueue) (id : ActiveTimer) (n : ℕ) : Prop where
  ran : q.ran.count id ≤ n
  awaits : q.Awaits id → q.ran.count id < n

theorem Orderly.within_unmade (h : Orderly q) (hid : id ∉ q.created) : Within q id 1 where
  ran := by
    rw [List.count_eq_zero.2 fun hin => hid (h.made id hin)]
    exact Nat.zero_le 1
  awaits hawaits := absurd (h.inv.lives_created hawaits.1) hid

theorem step_count (h : Orderly q) (ha : q.Allowed o) (hok : step q o = .ok q') (id : ActiveTimer) :
    q'.ran.count id = q.ran.count id ∨
      q'.ran.count id = q.ran.count id + 1 ∧ q.Awaits id ∧ ¬ q'.Awaits id := by
  rcases step_ran h ha hok with hran | ⟨id', hran, hawaits, hnot⟩
  · exact .inl (by rw [hran])
  · rw [hran, List.count_append]
    by_cases hsame : id' = id
    · subst hsame
      exact .inr ⟨by rw [List.count_singleton_self], hawaits, hnot⟩
    · exact .inl (by rw [List.count_singleton, if_neg (by simpa using hsame), Nat.add_zero])

theorem step_count_le (h : Orderly q) (ha : q.Allowed o) (hok : step q o = .ok q') (id : ActiveTimer) :
    q.ran.count id ≤ q'.ran.count id := by
  rcases step_count h ha hok id with hcount | ⟨hcount, -⟩
  · exact hcount.ge
  · rw [hcount]
    exact Nat.le_succ _

/-- A step that enters the timer again allows one run more, any other none. -/
theorem step_within (h : Orderly q) (ha : q.Allowed o) (hok : step q o = .ok q') {n m : ℕ}
    (hw : Within q id n) (hn : id ∈ q.created ∨ 1 ≤ n) (hle : n ≤ m)
    (hreset : (∃ now, o = .reset now) → q.Revives id → n < m) : Within q' id m := by
  rcases step_count h ha hok id with hcount | ⟨hcount, hawaits, hnot⟩
  · refine ⟨by rw [hcount]; exact hw.ran.trans hle, fun hq' => ?_⟩
    rw [hcount]
    by_cases hid : id ∈ q.created
    · rcases step_awaits h.inv ha hok hid hq' with hq | ⟨hisReset, hrevives⟩
      · exact (hw.awaits hq).trans_le hle
      · exact hw.ran.trans_lt (hreset hisReset hrevives)
    · rw [List.count_eq_zero.2 fun hin => hid (h.made id hin)]
      exact (hn.resolve_left hid).trans hle
  · exact ⟨by rw [hcount]; exact (hw.awaits hawaits).trans_le hle, fun hq' => absurd hq' hnot⟩

/-! Timers that do not repeat. -/

structure OneShot (q : TimerQueue) (id : ActiveTimer) : Prop where
  made : id ∈ q.created
  repeats : ∀ tm, q.heap id.timer = some tm → tm.sequence = id.sequence → tm.repeats = false

theorem OneShot.not_revives (h : OneShot q id) : ¬ q.Revives id := by
  rintro ⟨e, -, rfl, hgoes⟩
  cases hp : q.heap e.timer with
  | none =>
    rw [goesOn, hp] at hgoes
    cases hgoes
  | some tm =>
    have hrepeats := h.repeats tm hp (by rw [idOf_eq hp]; rfl)
    rw [goesOn_eq hp, hrepeats] at hgoes
    cases hgoes

theorem OneShot.step (h : OneShot q id) (ha : q.Allowed o) (hok : TimerQueue.step q o = .ok q') :
    OneShot q' id := by
  refine ⟨step_created hok h.made, fun tm hp hseq => ?_⟩
  by_cases ho : ∃ timer sequence whenAt interval repeats,
      o = .newTimer timer sequence whenAt interval repeats
  · obtain ⟨p, s, whenAt, interval, repeats, rfl⟩ := ho
    obtain rfl := Except.ok.inj hok
    change Function.update q.heap p _ id.timer = some tm at hp
    by_cases hne : id.timer = p
    · rw [hne, Function.update_self, Option.some.injEq] at hp
      exact absurd (by rw [← hseq, ← hp]) (ha.2.2 id h.made)
    · rw [Function.update_of_ne hne] at hp
      exact h.repeats tm hp hseq
  · obtain ⟨tm₀, hp₀, hseq₀, hrepeats⟩ := (step_onlyDeletes hok fun p s whenAt interval repeats heq =>
      ho ⟨p, s, whenAt, interval, repeats, heq⟩).heap _ tm hp
    exact hrepeats.trans (h.repeats tm₀ hp₀ (hseq₀ ▸ hseq))

theorem Orderly.made_within (h : Orderly q) {p : ℕ} {s whenAt interval : ℤ} {repeats : Bool}
    (ha : q.Allowed (.newTimer p s whenAt interval repeats)) :
    Within (q.newTimer p s whenAt interval repeats) (toLex (p, s)) 1 :=
  step_within h ha rfl (h.within_unmade fun hin => ha.2.2 _ hin rfl) (.inr le_rfl) le_rfl nofun

/-! Cancelled timers. -/

/-- The timer is out of the queue, and stays out, also if `reset` is to be called. -/
structure Cancelled (resets : Prop) (q : TimerQueue) (id : ActiveTimer) : Prop where
  made : id ∈ q.created
  out : q.Lives id → ¬ q.Queued id
  stays : resets → ¬ q.Revives id

theorem Revives.lives (h : Inv q) (hr : q.Revives id) : q.Lives id := by
  obtain ⟨e, he, rfl, -⟩ := hr
  obtain ⟨tm, hp, -⟩ := h.batch e he
  exact ⟨tm, hp, by rw [idOf_eq hp]; rfl⟩

theorem inLoop_canceling (h : Inv q) (ha : q.Allowed o) (hin : o.InLoop = true)
    (hok : step q o = .ok q') (hid : id ∈ q.cancelingTimer) : id ∈ q'.cancelingTimer := by
  cases o with
  | newTimer =>
    obtain rfl := Except.ok.inj hok
    exact hid
  | addTimerInLoop p found =>
    obtain ⟨tm, -, -, hok', -⟩ := addTimerInLoop_eq h ha.2 found
    obtain rfl := Except.ok.inj (hok.symm.trans hok')
    cases found with
    | true => exact hid
    | false => exact hid
  | cancelInLoop timerid =>
    by_cases hactive : timerid ∈ q.activeTimer
    · obtain ⟨tm, -, -, hok', -⟩ := cancelInLoop_active h hactive
      obtain rfl := Except.ok.inj (hok.symm.trans hok')
      exact hid
    · obtain rfl := Except.ok.inj (hok.symm.trans (cancelInLoop_other h hactive))
      split
      · exact OrderedSet.mem_insert.2 (.inr hid)
      · exact hid
  | runTimer =>
    obtain ⟨e, rest, hpos⟩ := mayRun_iff.1 ha
    obtain ⟨tm, -, hok'⟩ := runTimer_eq h hpos
    obtain rfl := Except.ok.inj (hok.symm.trans hok')
    exact hid
  | callbackReturns =>
    obtain ⟨rest, hpos⟩ := inCallback_iff.1 ha
    obtain rfl := Except.ok.inj hok
    rw [callbackReturns, hpos]
    exact hid
  | setClock clock =>
    obtain rfl := Except.ok.inj hok
    rw [setClock]
    split
    · split <;> exact hid
    · exact hid
  | _ => cases hin

theorem goesOn_of_keeps {e : Entry} (hheap : q'.heap e.timer = q.heap e.timer)
    (hcanceling : ∀ id ∈ q.cancelingTimer, id ∈ q'.cancelingTimer) (h : q'.goesOn e = true) :
    q.goesOn e = true := by
  rw [goesOn, idOf, hheap] at h
  rw [goesOn, idOf]
  split at h
  next tm htm =>
    rw [Bool.and_eq_true, decide_eq_true_eq] at h ⊢
    exact ⟨h.1, fun hin => h.2 (hcanceling _ hin)⟩
  next => cases h

theorem resetLoop_batch (h : resetLoop found now es q = .ok q') : q'.batch = none := by
  induction es generalizing q with
  | nil =>
    rw [← Except.ok.inj h]
  | cons e es ih =>
    obtain ⟨u, -, h⟩ := bind_ok.1 h
    exact ih h

theorem step_revives (h : Inv q) (ha : q.Allowed o) (hok : step q o = .ok q') (hr : q'.Revives id) :
    q.Revives id ∨ id ∈ q.activeTimer := by
  obtain ⟨e, he, rfl, hgoes⟩ := hr
  by_cases hin : o.InLoop = true
  · have hbatch := (inLoop_position h ha hin hok).1
    rw [hbatch] at he
    have haside := timer_mem_aside he
    obtain ⟨tm, htm⟩ := h.aside_live _ haside
    have hheap := (inLoop_keeps h ha hin hok htm
      fun hactive => absurd hactive (h.aside_out _ haside _)).heap
    refine .inl ⟨e, he, by rw [idOf, idOf, hheap], ?_⟩
    exact goesOn_of_keeps hheap (fun _ hid => inLoop_canceling h ha hin hok hid) hgoes
  · cases o with
    | handleRead =>
      obtain ⟨active, hok', -⟩ := handleRead_eq h
      obtain rfl := Except.ok.inj (hok.symm.trans hok')
      obtain ⟨tm, hp, -, hactive⟩ := h.inStep.entry (OrderedSet.mem_below.1 he).1
      exact .inr ((idOf_eq hp).symm ▸ hactive)
    | endHandleRead =>
      obtain rfl := Except.ok.inj hok
      exact .inl ⟨e, he, rfl, hgoes⟩
    | reset now =>
      obtain ⟨u, hu, hq'⟩ := reset_loop hok
      have hbatch : q'.batch = none := by
        rcases hq' with rfl | ⟨t, rfl⟩
        · exact resetLoop_batch hu
        · change u.batch = none
          exact resetLoop_batch hu
      rw [hbatch] at he
      cases he
    | _ => exact absurd rfl hin

theorem Cancelled.step (h : Cancelled resets q id) (hq : Inv q) (ha : q.Allowed o)
    (ho : (∃ now, o = .reset now) → resets) (hok : TimerQueue.step q o = .ok q') :
    Cancelled resets q' id where
  made := step_created hok h.made
  out hl hqueued := by
    rcases step_queued hq ha hok h.made hl hqueued with hqueued | ⟨hisReset, hrevives⟩
    · exact h.out (step_lives ha hok h.made hl) hqueued
    · exact h.stays (ho hisReset) hrevives
  stays hresets hrevives := by
    rcases step_revives hq ha hok hrevives with hrevives | hactive
    · exact h.stays hresets hrevives
    · exact h.out (hq.active_lives hactive) (.inr hactive)

/-- What a cancel does for good, once the timer has been added; where a `reset` is to come, while
a batch that has it is being run or none has. -/
theorem cancelInLoop_cancelled (h : Inv q) (hid : id ∈ q.created)
    (hadded : q.Lives id → id.timer ∉ q.pending)
    (hbatch : resets → q.callingExpiredTimers = false → ∀ e ∈ q.batch.getD [], idOf q.heap e ≠ id)
    (hok : q.cancelInLoop id = .ok q') : Cancelled resets q' id := by
  by_cases hin : id ∈ q.activeTimer
  · obtain ⟨tm, -, -, hok', hq'⟩ := cancelInLoop_active h hin
    obtain rfl := Except.ok.inj (hok.symm.trans hok')
    have hgone : ¬ ((q.left id.timer tm).deleteTimer id).Lives id := by
      rintro ⟨tm', hp, -⟩
      change Function.update q.heap id.timer none id.timer = some tm' at hp
      rw [Function.update_self] at hp
      cases hp
    exact ⟨hid, fun hl => absurd hl hgone, fun _ hrevives => hgone (hrevives.lives hq')⟩
  · obtain rfl := Except.ok.inj (hok.symm.trans (cancelInLoop_other h hin))
    split
    next =>
      refine ⟨hid, fun hl hqueued => hqueued.elim (hadded hl) hin, ?_⟩
      rintro - ⟨e, he, heq, hgoes⟩
      obtain ⟨tm, hp, -⟩ := h.batch e he
      rw [goesOn_eq (q := { q with cancelingTimer := q.cancelingTimer.insert id }) hp,
        Bool.and_eq_true, decide_eq_true_eq] at hgoes
      have hsame : toLex (e.timer, tm.sequence) = id := (idOf_eq hp).symm.trans heq
      exact hgoes.2 (OrderedSet.mem_insert.2 (.inl hsame))
    next hcalling =>
      refine ⟨hid, fun hl hqueued => hqueued.elim (hadded hl) hin, ?_⟩
      rintro hresets ⟨e, he, heq, -⟩
      exact hbatch hresets (Bool.eq_false_iff.2 hcalling) e he heq

/-! Whole runs. -/

def isReset : TimerOp → Bool
  | .reset _ => true
  | _ => false

theorem run_within {os : List TimerOp} {n : ℕ} (h : Orderly q) (hw : Within q id n) (hn : 1 ≤ n)
    (ha : Along step Allowed q os) (hok : run step q os = .ok q') :
    Within q' id (n + os.countP isReset) := by
  induction os generalizing q n with
  | nil =>
    obtain rfl := Except.ok.inj hok
    exact hw
  | cons o os ih =>
    obtain ⟨u, hu, hrest⟩ := run_cons_ok hok
    have horderly := h.step ha.1 hu
    by_cases ho : isReset o = true
    · have hnext := step_within h ha.1 hu hw (.inr hn) (Nat.le_succ n) fun _ _ => Nat.lt_succ_self n
      have hlast := ih horderly hnext (hn.trans (Nat.le_succ n)) (ha.2 u hu) hrest
      rw [List.countP_cons_of_pos ho, ← Nat.add_assoc, Nat.add_right_comm]
      exact hlast
    · have hnext := step_within h ha.1 hu hw (.inr hn) le_rfl
        fun ⟨now, heq⟩ => absurd (by rw [heq]; rfl) ho
      rw [List.countP_cons_of_neg ho]
      exact ih horderly hnext hn (ha.2 u hu) hrest

theorem run_orderly {os : List TimerOp} (h : Orderly q) (ha : Along step Allowed q os)
    (hok : run step q os = .ok q') : Orderly q' :=
  run_inv_along (fun _ _ _ h ha hok => h.step ha hok) h ha hok

/-- A timer runs once and once more for each `reset`, so that without any it runs once at most;
and so does a timer that does not repeat, whatever `reset` is called for. -/
theorem runs_at_most (clock : ℤ) {os : List TimerOp} (ha : Along step Allowed (new clock) os)
    (hok : run step (new clock) os = .ok q) (id : ActiveTimer) :
    q.ran.count id ≤ 1 + os.countP isReset ∧
      ∀ whenAt interval, .newTimer id.timer id.sequence whenAt interval false ∈ os →
        q.ran.count id ≤ 1 := by
  have horderly := new_orderly clock
  refine ⟨(run_within horderly (horderly.within_unmade nofun) le_rfl ha hok).ran, ?_⟩
  intro whenAt interval hmade
  obtain ⟨pre, post, rfl⟩ := List.append_of_mem hmade
  obtain ⟨u, hpre, hpost⟩ := run_append_ok hok
  obtain ⟨hapre, hapost⟩ := (along_append hpre _).1 ha
  have hu := run_orderly horderly hapre hpre
  obtain ⟨v, hv, hrest⟩ := run_cons_ok hpost
  obtain rfl := Except.ok.inj hv
  have honeShot : OneShot (u.newTimer id.timer id.sequence whenAt interval false) id := by
    refine ⟨List.mem_append_right _ (List.mem_singleton_self _), fun tm hp _ => ?_⟩
    change Function.update u.heap id.timer _ id.timer = some tm at hp
    rw [Function.update_self, Option.some.injEq] at hp
    rw [← hp]
  refine (run_inv_along (I := fun v => Orderly v ∧ OneShot v id ∧ Within v id 1) ?_
    ⟨hu.step hapost.1 rfl, honeShot, hu.made_within hapost.1⟩ (hapost.2 _ rfl) hrest).2.2.ran
  rintro v o v' ⟨hv, hone, hw⟩ hallowed hstep
  exact ⟨hv.step hallowed hstep, hone.step hallowed hstep,
    step_within hv hallowed hstep hw (.inr le_rfl) le_rfl
      fun _ hrevives => absurd hrevives hone.not_revives⟩

def dueTwice : List TimerOp :=
  [.newTimer 16 1 1000000 500000 true, .addTimerInLoop 16 true, .newTimer 32 2 1000000 0 false,
    .addTimerInLoop 32 false, .setClock 1000000, .handleRead, .runTimer, .callbackReturns, .runTimer,
    .callbackReturns, .endHandleRead, .reset 1000000, .setClock 2000000, .handleRead, .runTimer]

theorem runs_at_most_dueTwice : ∃ q, run step (new 0) dueTwice = .ok q ∧
    q.ran = [toLex (16, 1), toLex (32, 2), toLex (16, 1)] ∧
    q.ran.count (toLex (16, 1)) ≤ 1 + dueTwice.countP isReset ∧ q.ran.count (toLex (32, 2)) ≤ 1 := by
  obtain ⟨q, hq, hran⟩ := ok_of_toOption_map (x := run step (new 0) dueTwice) (f := TimerQueue.ran)
    (a := [toLex (16, 1), toLex (32, 2), toLex (16, 1)]) (by decide +kernel)
  have ha : Along step Allowed (new 0) dueTwice := by decide +kernel
  exact ⟨q, hq, hran, (runs_at_most 0 ha hq (toLex (16, 1))).1,
    (runs_at_most 0 ha hq (toLex (32, 2))).2 1000000 0 (by decide)⟩

theorem cancelInLoop_beside (h : Inv q) (hok : q.cancelInLoop id = .ok q') : Beside q q' := by
  by_cases hin : id ∈ q.activeTimer
  · obtain ⟨tm, -, -, hok', -⟩ := cancelInLoop_active h hin
    obtain rfl := Except.ok.inj (hok.symm.trans hok')
    exact ⟨rfl, rfl, rfl⟩
  · obtain rfl := Except.ok.inj (hok.symm.trans (cancelInLoop_other h hin))
    split
    · exact ⟨rfl, rfl, rfl⟩
    · exact .refl q

theorem Lives.mem_ids (hl : q.Lives id) (hin : id.timer ∈ es.map Entry.timer) :
    id ∈ es.map (idOf q.heap) := by
  obtain ⟨tm, hp, hseq⟩ := hl
  obtain ⟨e, he, heq⟩ := List.mem_map.1 hin
  rw [← heq] at hp
  refine List.mem_map.2 ⟨e, he, ?_⟩
  rw [idOf_eq hp, heq, hseq]
  rfl

theorem Cancelled.within (h : Cancelled resets q' id) (hdel : OnlyDeletes q q') (hbeside : Beside q q') :
    Within q' id (q.ran.count id + if id ∈ q.toRun.map (idOf q.heap) then 1 else 0) := by
  refine ⟨by rw [hbeside.ran]; exact Nat.le_add_right _ _, ?_⟩
  rintro ⟨hl, hqueued | hrun⟩
  · exact absurd hqueued (h.out hl)
  · rw [toRun_congr hbeside.position] at hrun
    rw [hbeside.ran, if_pos ((hdel.lives hl).mem_ids hrun)]
    exact Nat.lt_succ_self _

/-- A cancel is for good: the timer runs no more, but if it stands in the batch that is being run
and has not had its turn. -/
theorem cancel_final (clock : ℤ) {os os' : List TimerOp}
    (ha : Along step Allowed (new clock) (os ++ .cancelInLoop id :: os'))
    (hq : run step (new clock) os = .ok q)
    (hq' : run step (new clock) (os ++ .cancelInLoop id :: os') = .ok q')
    (hid : id ∈ q.created) (hadded : q.Lives id → id.timer ∉ q.pending)
    (hbatch : (∃ now, .reset now ∈ os') → q.callingExpiredTimers = false →
      ∀ e ∈ q.batch.getD [], idOf q.heap e ≠ id) :
    q.ran.count id ≤ q'.ran.count id ∧
      q'.ran.count id ≤ q.ran.count id + if id ∈ q.toRun.map (idOf q.heap) then 1 else 0 := by
  obtain ⟨hapre, hapost⟩ := (along_append hq _).1 ha
  have horderly := run_orderly (new_orderly clock) hapre hq
  rw [run_append hq] at hq'
  obtain ⟨u, hu, hrest⟩ := run_cons_ok hq'
  have hbeside := cancelInLoop_beside horderly.inv hu
  have hcancelled := cancelInLoop_cancelled horderly.inv hid hadded hbatch hu
  have hwithin := hcancelled.within (cancelInLoop_onlyDeletes hu) hbeside
  obtain ⟨-, -, hlast, hle⟩ := run_inv_along
    (I := fun v => Orderly v ∧ Cancelled (∃ now, .reset now ∈ os') v id ∧
      Within v id (q.ran.count id + if id ∈ q.toRun.map (idOf q.heap) then 1 else 0) ∧
      q.ran.count id ≤ v.ran.count id)
    (fun v o v' ⟨hv, hc, hw, hle⟩ ⟨hallowed, ho⟩ hstep => ⟨hv.step hallowed hstep,
      hc.step hv.inv hallowed ho hstep,
      step_within hv hallowed hstep hw (.inl hc.made) le_rfl
        fun hisReset hrevives => absurd hrevives (hc.stays (ho hisReset)),
      hle.trans (step_count_le hv hallowed hstep id)⟩)
    ⟨horderly.step hapost.1 hu, hcancelled, hwithin, by rw [hbeside.ran]⟩
    ((hapost.2 u hu).and_forall fun o ho ⟨now, heq⟩ => ⟨now, heq ▸ ho⟩) hrest
  exact ⟨hle, hlast.ran⟩

theorem cancel_final_inCallback : ∃ q q',
    run step (new 0) [.newTimer 16 1 1000000 500000 true, .addTimerInLoop 16 true, .setClock 1000000,
      .handleRead, .runTimer] = .ok q ∧
    run step (new 0) ([.newTimer 16 1 1000000 500000 true, .addTimerInLoop 16 true,
      .setClock 1000000, .handleRead, .runTimer] ++ .cancelInLoop (toLex (16, 1)) ::
      [.callbackReturns, .endHandleRead, .reset 1000000, .setClock 2000000, .handleRead]) = .ok q' ∧
    q.ran.count (toLex (16, 1)) ≤ q'.ran.count (toLex (16, 1)) ∧
    q'.ran.count (toLex (16, 1)) ≤ q.ran.count (toLex (16, 1)) +
      if toLex (16, 1) ∈ q.toRun.map (idOf q.heap) then 1 else 0 := by
  obtain ⟨q, hq, hstate⟩ := ok_of_toOption_map
    (x := run step (new 0) [.newTimer 16 1 1000000 500000 true, .addTimerInLoop 16 true,
      .setClock 1000000, .handleRead, .runTimer])
    (f := fun q => (q.created, q.pending, q.callingExpiredTimers))
    (a := ([toLex (16, 1)], [], true)) (by decide +kernel)
  obtain ⟨q', hq', -⟩ := ok_of_toOption_map
    (x := run step (new 0) ([.newTimer 16 1 1000000 500000 true, .addTimerInLoop 16 true,
      .setClock 1000000, .handleRead, .runTimer] ++ .cancelInLoop (toLex (16, 1)) ::
      [.callbackReturns, .endHandleRead, .reset 1000000, .setClock 2000000, .handleRead]))
    (f := TimerQueue.ran) (a := [toLex (16, 1)]) (by decide +kernel)
  rw [Prod.mk.injEq, Prod.mk.injEq] at hstate
  obtain ⟨hcreated, hpending, hcalling⟩ := hstate
  refine ⟨q, q', hq, hq', cancel_final 0 (by decide +kernel) hq hq' ?_ (fun _ => ?_) fun _ hnot => ?_⟩
  · rw [hcreated]
    exact List.mem_singleton_self _
  · rw [hpending]
    exact List.not_mem_nil
  · rw [hcalling] at hnot
    cases hnot

end Czy.Net.TimerQueue
