import Czy.Sanity.TimerQueue

/-! What `reset` does with the timers of its vector. -/

namespace Czy.Net.TimerQueue

open StepRun

def goesOn (q : TimerQueue) (e : Entry) : Bool :=
  match q.heap e.timer with
  | some timer => timer.repeats && decide (idOf q.heap e ∉ q.cancelingTimer)
  | none => false

/-- Timers that `reset` may be given: distinct, live, and none of them in the queue. -/
structure Disposable (q : TimerQueue) (expired : List Entry) : Prop where
  distinct : (expired.map Entry.timer).Nodup
  live : ∀ e ∈ expired, ∃ tm, q.heap e.timer = some tm
  out : ∀ e ∈ expired, ∀ s, toLex (e.timer, s) ∉ q.activeTimer

/-- Each timer is entered again, at `now` plus its interval, or deleted once; those in the
queue stay. -/
structure Disposes (q : TimerQueue) (expired : List Entry) (now : ℤ) (q' : TimerQueue) : Prop where
  entered : ∀ t p, toLex (t, p) ∈ q'.timer ↔ toLex (t, p) ∈ q.timer ∨
    ∃ e ∈ expired, e.timer = p ∧ q.goesOn e = true ∧ ∃ tm, q.heap p = some tm ∧ now + tm.interval = t
  deleted : q'.deleted = q.deleted ++ (expired.filter fun e => !q.goesOn e).map (idOf q.heap)
  gone : ∀ e ∈ expired, q.goesOn e = false → q'.heap e.timer = none
  again : ∀ e ∈ expired, q.goesOn e = true →
    q'.heap e.timer = (q.heap e.timer).map fun tm => { tm with expiration := now + tm.interval }
  others : ∀ p ∉ expired.map Entry.timer, q'.heap p = q.heap p
  inStep : InStep q'.heap q'.timer q'.activeTimer
  canceling : q'.cancelingTimer = q.cancelingTimer
  clock : q'.clock = q.clock

/-- The timerfd is set for the earliest expiration. -/
def ArmedForEarliest (q q' : TimerQueue) : Prop :=
  ∃ e ∈ q'.timer, (∀ e' ∈ q'.timer, e.time ≤ e'.time) ∧ q'.readable = false ∧
    q'.expiry = some (q.clock + q.howMuchTimeFromNow e.time)

variable {q q' : TimerQueue} {e : Entry} {es : List Entry} {tm : Timer} {now : ℤ} {found : Option Bool}

theorem goesOn_eq (hp : q.heap e.timer = some tm) :
    q.goesOn e = (tm.repeats && decide (toLex (e.timer, tm.sequence) ∉ q.cancelingTimer)) := by
  rw [goesOn, idOf_eq hp, hp]

theorem goesOn_congr (hp : q'.heap e.timer = q.heap e.timer)
    (hc : q'.cancelingTimer = q.cancelingTimer) : q'.goesOn e = q.goesOn e := by
  rw [goesOn, goesOn, idOf, idOf, hp, hc]

theorem Disposes.single
    (hentered : ∀ t p, toLex (t, p) ∈ q'.timer ↔ toLex (t, p) ∈ q.timer ∨
      e.timer = p ∧ q.goesOn e = true ∧ ∃ tm, q.heap p = some tm ∧ now + tm.interval = t)
    (hdeleted : q'.deleted = q.deleted ++ if q.goesOn e then [] else [idOf q.heap e])
    (hgone : q.goesOn e = false → q'.heap e.timer = none)
    (hagain : q.goesOn e = true →
      q'.heap e.timer = (q.heap e.timer).map fun tm => { tm with expiration := now + tm.interval })
    (hothers : ∀ p ≠ e.timer, q'.heap p = q.heap p) (h : InStep q'.heap q'.timer q'.activeTimer)
    (hcanceling : q'.cancelingTimer = q.cancelingTimer) (hclock : q'.clock = q.clock) :
    Disposes q [e] now q' := by
  refine ⟨fun t p => ?_, ?_, fun e' he' => ?_, fun e' he' => ?_, fun p hp => ?_, h, hcanceling, hclock⟩
  · simp only [hentered, List.mem_singleton, exists_eq_left]
  · rw [hdeleted, List.filter_singleton]
    cases q.goesOn e <;> rfl
  · rw [List.mem_singleton.1 he']
    exact hgone
  · rw [List.mem_singleton.1 he']
    exact hagain
  · exact hothers p fun heq => hp (heq ▸ List.mem_singleton_self _)

theorem resetOne_again (h : InStep q.heap q.timer q.activeTimer) (hp : q.heap e.timer = some tm)
    (hout : ∀ s, toLex (e.timer, s) ∉ q.activeTimer) (hgo : q.goesOn e = true)
    (hfound : found.isSome = true) :
    ∃ q', resetOne found q e.timer now = .ok q' ∧ Disposes q [e] now q' := by
  obtain ⟨value, rfl⟩ := Option.isSome_iff_exists.1 hfound
  have hboth := hgo
  rw [goesOn_eq hp, Bool.and_eq_true, decide_eq_true_eq] at hboth
  obtain ⟨hrepeats, hnot⟩ := hboth
  have hrestart : tm.restart now = { tm with expiration := now + tm.interval } := by
    rw [Timer.restart, if_pos hrepeats]
  have hlive : Function.update q.heap e.timer (some (tm.restart now)) e.timer = some (tm.restart now) :=
    Function.update_self _ _ _
  have hagain := h.update hout (some (tm.restart now))
  refine ⟨entered { q with heap := Function.update q.heap e.timer (some (tm.restart now)) } e.timer
    (tm.restart now), ?_, .single (fun t p => ?_) ?_ ?_ (fun _ => ?_)
    (fun p hne => Function.update_of_ne hne _ _) (hagain.enter hlive hout) rfl rfl⟩
  · rw [resetOne, hp, deref_some, ok_bind, if_pos ⟨hrepeats, hnot⟩,
      insert_eq (q := { q with heap := Function.update q.heap e.timer (some (tm.restart now)) })
        hagain hlive hout value]
    rfl
  · change _ ∈ q.timer.insert _ ↔ _
    rw [OrderedSet.mem_insert, Entry.mk_inj, hrestart, or_comm]
    refine or_congr_right ⟨?_, ?_⟩
    · rintro ⟨rfl, rfl⟩
      exact ⟨rfl, hgo, tm, hp, rfl⟩
    · rintro ⟨rfl, -, tm', hp', rfl⟩
      rw [hp] at hp'
      cases hp'
      exact ⟨rfl, rfl⟩
  · rw [hgo]
    exact (List.append_nil _).symm
  · intro hgoes
    rw [hgo] at hgoes
    cases hgoes
  · rw [hp, Option.map_some, ← hrestart]
    exact hlive

theorem resetOne_gone (h : InStep q.heap q.timer q.activeTimer) (hp : q.heap e.timer = some tm)
    (hout : ∀ s, toLex (e.timer, s) ∉ q.activeTimer) (hgo : q.goesOn e = false) :
    ∃ q', resetOne found q e.timer now = .ok q' ∧ Disposes q [e] now q' := by
  have hnot : ¬ (tm.repeats = true ∧ toLex (e.timer, tm.sequence) ∉ q.cancelingTimer) := by
    rw [goesOn_eq hp] at hgo
    simpa using hgo
  refine ⟨q.deleteTimer (toLex (e.timer, tm.sequence)), ?_, .single (fun t p => ?_) ?_
    (fun _ => Function.update_self _ _ _) ?_ (fun p hne => Function.update_of_ne hne _ _)
    (h.update hout none) rfl rfl⟩
  · rw [resetOne, hp, deref_some, ok_bind, if_neg hnot]
    rfl
  · refine (or_iff_left ?_).symm
    rintro ⟨-, hgoes, -⟩
    rw [hgo] at hgoes
    cases hgoes
  · rw [hgo, idOf_eq hp]
    rfl
  · intro hgoes
    rw [hgo] at hgoes
    cases hgoes

/-- Where the timer is entered again, the round ends only if `insert` gives a value. -/
theorem resetOne_returns (hp : q.heap e.timer = some tm) (hgo : q.goesOn e = true)
    (hok : resetOne found q e.timer now = .ok q') : found.isSome = true := by
  rw [goesOn_eq hp, Bool.and_eq_true, decide_eq_true_eq] at hgo
  rw [resetOne, hp, deref_some, ok_bind, if_pos hgo] at hok
  obtain ⟨r, hr, -⟩ := bind_ok.1 hok
  obtain ⟨-, -, -, hfound⟩ := insert_ok hr
  rw [hfound]
  rfl

theorem Disposable.tail {q₁ : TimerQueue} (hd : Disposable q (e :: es))
    (h : InStep q.heap q.timer q.activeTimer) (h₁ : Disposes q [e] now q₁) : Disposable q₁ es := by
  obtain ⟨hdistinct, hlive, hout⟩ := hd
  obtain ⟨hfresh, hdistinct⟩ := List.nodup_cons.1 hdistinct
  have hne : ∀ e' ∈ es, e'.timer ≠ e.timer := fun e' he' heq =>
    hfresh (heq ▸ List.mem_map_of_mem he')
  refine ⟨hdistinct, fun e' he' => ?_, fun e' he' s hs => ?_⟩
  · obtain ⟨tm, hp⟩ := hlive e' (List.mem_cons_of_mem _ he')
    exact ⟨tm, (h₁.others _ fun hin => hne e' he' (List.mem_singleton.1 hin)).trans hp⟩
  · obtain ⟨tm, hp, rfl⟩ := h₁.inStep.live _ _ hs
    have hin := (h₁.inStep.mem_timer tm.expiration e'.timer).2 ⟨tm, hp, rfl, hs⟩
    rcases (h₁.entered _ _).1 hin with hin | ⟨e'', he'', heq, -⟩
    · obtain ⟨tm', -, -, hs'⟩ := (h.mem_timer _ _).1 hin
      exact hout e' (List.mem_cons_of_mem _ he') _ hs'
    · rw [List.mem_singleton.1 he''] at heq
      exact hne e' he' heq.symm

theorem Disposes.cons {q₁ : TimerQueue} (hd : Disposable q (e :: es)) (h₁ : Disposes q [e] now q₁)
    (h' : Disposes q₁ es now q') : Disposes q (e :: es) now q' := by
  obtain ⟨hfresh, -⟩ := List.nodup_cons.1 hd.distinct
  have hne : ∀ e' ∈ es, e'.timer ≠ e.timer := fun e' he' heq =>
    hfresh (heq ▸ List.mem_map_of_mem he')
  have hheap : ∀ e' ∈ es, q₁.heap e'.timer = q.heap e'.timer := fun e' he' =>
    h₁.others _ fun hin => hne e' he' (List.mem_singleton.1 hin)
  have hgo : ∀ e' ∈ es, q₁.goesOn e' = q.goesOn e' := fun e' he' =>
    goesOn_congr (hheap e' he') h₁.canceling
  refine ⟨fun t p => ?_, ?_, fun e' he' hgone => ?_, fun e' he' hgoes => ?_, fun p hp => ?_, h'.inStep,
    h'.canceling.trans h₁.canceling, h'.clock.trans h₁.clock⟩
  · rw [h'.entered, h₁.entered, or_assoc]
    refine or_congr_right ⟨?_, ?_⟩
    · rintro (⟨e', he', hrest⟩ | ⟨e', he', rfl, hgoes, tm, hp, ht⟩)
      · rw [List.mem_singleton.1 he'] at hrest
        exact ⟨e, List.mem_cons_self, hrest⟩
      · rw [hgo e' he'] at hgoes
        rw [hheap e' he'] at hp
        exact ⟨e', List.mem_cons_of_mem _ he', rfl, hgoes, tm, hp, ht⟩
    · rintro ⟨e', he', rfl, hgoes, tm, hp, ht⟩
      rcases List.mem_cons.1 he' with rfl | he'
      · exact .inl ⟨e', List.mem_singleton_self e', rfl, hgoes, tm, hp, ht⟩
      · exact .inr ⟨e', he', rfl, (hgo e' he').trans hgoes, tm, (hheap e' he').trans hp, ht⟩
  · have hfilter : (es.filter fun e' => !q₁.goesOn e') = es.filter fun e' => !q.goesOn e' :=
      List.filter_congr fun e' he' => by rw [hgo e' he']
    have hids : (es.filter fun e' => !q.goesOn e').map (idOf q₁.heap) =
        (es.filter fun e' => !q.goesOn e').map (idOf q.heap) :=
      List.map_congr_left fun e' he' => by rw [idOf, idOf, hheap e' (List.mem_filter.1 he').1]
    rw [h'.deleted, h₁.deleted, hfilter, hids, List.append_assoc, ← List.map_append,
      ← List.filter_append, List.singleton_append]
  · rcases List.mem_cons.1 he' with rfl | he'
    · exact (h'.others _ hfresh).trans (h₁.gone e' (List.mem_singleton_self e') hgone)
    · exact h'.gone e' he' ((hgo e' he').trans hgone)
  · rcases List.mem_cons.1 he' with rfl | he'
    · exact (h'.others _ hfresh).trans (h₁.again e' (List.mem_singleton_self e') hgoes)
    · rw [h'.again e' he' ((hgo e' he').trans hgoes), hheap e' he']
  · rw [List.map_cons, List.mem_cons, not_or] at hp
    exact (h'.others p hp.2).trans (h₁.others p fun hin => hp.1 (List.mem_singleton.1 hin))

theorem Disposes.of_batch {b : Option (List Entry)} (h : Disposes { q with batch := b } es now q') :
    Disposes q es now q' :=
  ⟨h.entered, h.deleted, h.gone, h.again, h.others, h.inStep, h.canceling, h.clock⟩

theorem Disposes.resetTimerfd (h : Disposes q es now q') (t : ℤ) :
    Disposes q es now (q'.resetTimerfd t) :=
  ⟨h.entered, h.deleted, h.gone, h.again, h.others, h.inStep, h.canceling, h.clock⟩

theorem Disposable.goesOn_tail {q₁ : TimerQueue} (hd : Disposable q (e :: es))
    (h₁ : Disposes q [e] now q₁) : ∀ e' ∈ es, q₁.goesOn e' = q.goesOn e' := by
  obtain ⟨hfresh, -⟩ := List.nodup_cons.1 hd.distinct
  intro e' he'
  refine goesOn_congr (h₁.others _ fun hin => hfresh ?_) h₁.canceling
  rw [← List.mem_singleton.1 hin]
  exact List.mem_map_of_mem he'

theorem resetLoop_disposes (h : InStep q.heap q.timer q.activeTimer) (hd : Disposable q es)
    (hret : ∀ e ∈ es, q.goesOn e = true → found.isSome = true) :
    ∃ q', resetLoop found now es q = .ok q' ∧ Disposes q es now q' := by
  induction es generalizing q with
  | nil =>
    exact ⟨_, rfl, fun t p => (or_iff_left nofun).symm, (List.append_nil _).symm, nofun, nofun,
      fun _ _ => rfl, h, rfl, rfl⟩
  | cons e es ih =>
    obtain ⟨tm, hp⟩ := hd.live e List.mem_cons_self
    have hout := hd.out e List.mem_cons_self
    have hround : ∃ q₁, resetOne found { q with batch := some es } e.timer now = .ok q₁ ∧
        Disposes { q with batch := some es } [e] now q₁ := by
      cases hgo : q.goesOn e with
      | true =>
        exact resetOne_again (q := { q with batch := some es }) h hp hout hgo
          (hret e List.mem_cons_self hgo)
      | false => exact resetOne_gone (q := { q with batch := some es }) h hp hout hgo
    obtain ⟨q₁, hok, hone⟩ := hround
    have h₁ := hone.of_batch
    have htail : ∀ e' ∈ es, q₁.goesOn e' = true → found.isSome = true := by
      intro e' he' hgo
      rw [hd.goesOn_tail h₁ e' he'] at hgo
      exact hret e' (List.mem_cons_of_mem _ he') hgo
    obtain ⟨q', hloop, h'⟩ := ih h₁.inStep (hd.tail h h₁) htail
    exact ⟨q', by rw [resetLoop, hok, ok_bind, hloop], h₁.cons hd h'⟩

theorem resetLoop_returns (h : InStep q.heap q.timer q.activeTimer) (hd : Disposable q es)
    (hok : resetLoop found now es q = .ok q') :
    ∀ e ∈ es, q.goesOn e = true → found.isSome = true := by
  induction es generalizing q with
  | nil => nofun
  | cons e es ih =>
    obtain ⟨tm, hp⟩ := hd.live e List.mem_cons_self
    obtain ⟨q₁, hone, hloop⟩ := bind_ok.1 hok
    cases hgo : q.goesOn e with
    | true =>
      have hfound := resetOne_returns (q := { q with batch := some es }) hp hgo hone
      exact fun _ _ _ => hfound
    | false =>
      obtain ⟨q₂, hok₂, hone₂⟩ : ∃ q₂, resetOne found { q with batch := some es } e.timer now = .ok q₂ ∧
          Disposes { q with batch := some es } [e] now q₂ :=
        resetOne_gone h hp (hd.out e List.mem_cons_self) hgo
      obtain rfl := Except.ok.inj (hone.symm.trans hok₂)
      have h₁ := hone₂.of_batch
      intro e' he' hgoes
      rcases List.mem_cons.1 he' with rfl | he'
      · rw [hgo] at hgoes
        cases hgoes
      · refine ih h₁.inStep (hd.tail h h₁) hloop e' he' ?_
        rw [hd.goesOn_tail h₁ e' he', hgoes]

/-- Each timer of the vector is disposed of, and the timerfd set for what is then the
earliest. -/
structure DisposesAndArms (q : TimerQueue) (expired : List Entry) (now : ℤ) (q' : TimerQueue) :
    Prop where
  disposes : Disposes q expired now q'
  arms : (∃ e, e ∈ q'.timer) → (∀ e ∈ q'.timer, 0 < e.time) → ArmedForEarliest q q'

theorem reset_disposes (h : InStep q.heap q.timer q.activeTimer) (hb : q.batch = some es)
    (hd : Disposable q es) (hret : ∀ e ∈ es, q.goesOn e = true → found.isSome = true) :
    ∃ q', q.reset now found = .ok q' ∧ DisposesAndArms q es now q' := by
  obtain ⟨q', hloop, h'⟩ : ∃ q', resetLoop found now es q = .ok q' ∧ Disposes q es now q' :=
    resetLoop_disposes h hd hret
  rw [reset, hb, Option.getD_some, hloop, ok_bind]
  cases hfirst : q'.timer.first with
  | none =>
    refine ⟨q', rfl, h', ?_⟩
    rintro ⟨e, he⟩
    exact absurd he (OrderedSet.first_eq_none.1 hfirst e)
  | some e =>
    have hin := OrderedSet.first_mem hfirst
    obtain ⟨tm, hp, htime, -⟩ := h'.inStep.entry hin
    simp only [hp, deref_some, ok_bind]
    split_ifs with hpos
    · refine ⟨_, rfl, h'.resetTimerfd _, fun _ _ => ⟨e, hin, fun e' he' => ?_, rfl, ?_⟩⟩
      · exact Prod.Lex.monotone_fst _ _ (OrderedSet.first_le hfirst he')
      · change some (q'.clock + q'.howMuchTimeFromNow tm.expiration) = _
        rw [howMuchTimeFromNow, howMuchTimeFromNow, TimerQueue.now, TimerQueue.now, h'.clock, htime]
    · exact ⟨q', rfl, h', fun _ hall => absurd (htime ▸ hall e hin) hpos⟩

/-- As the language has it, `reset` does its work exactly when it has no timer to enter again;
in a build that goes on behind the calls of `insert`, always. -/
theorem reset_disposes_iff (h : InStep q.heap q.timer q.activeTimer) (hb : q.batch = some es)
    (hd : Disposable q es) (now : ℤ) :
    ((∃ q', q.reset now none = .ok q' ∧ DisposesAndArms q es now q') ↔
      ∀ e ∈ es, q.goesOn e = false) ∧
    ∀ value, ∃ q', q.reset now (some value) = .ok q' ∧ DisposesAndArms q es now q' := by
  refine ⟨⟨?_, fun hgone => reset_disposes h hb hd fun e he hgo => ?_⟩,
    fun value => reset_disposes h hb hd fun _ _ _ => rfl⟩
  · rintro ⟨q', hok, -⟩ e he
    rw [reset, hb, Option.getD_some] at hok
    obtain ⟨u, hloop, -⟩ := bind_ok.1 hok
    have hret := resetLoop_returns h hd hloop e he
    exact Bool.eq_false_iff.2 fun hgo => Bool.false_ne_true (hret hgo)
  · rw [hgone e he] at hgo
    cases hgo

theorem Inv.disposable (h : Inv q) (hb : q.batch = some es) : Disposable q es := by
  have hin : ∀ e ∈ es, e.timer ∈ q.aside := fun e he =>
    timer_mem_aside (by rw [hb]; exact he)
  refine ⟨?_, fun e he => h.aside_live _ (hin e he), fun e he => h.aside_out _ (hin e he)⟩
  have honce := (List.nodup_append.1 h.aside_once).1
  rw [hb] at honce
  exact honce

/-- Of two timers that have expired one repeats; a third waits. -/
theorem reset_disposes_repeating :
    ∃ q, run step (new 0) [.newTimer 16 1 1000000 500000 true, .addTimerInLoop 16 true,
        .newTimer 32 2 1000000 0 false, .addTimerInLoop 32 false,
        .newTimer 48 3 2000000 0 false, .addTimerInLoop 48 false, .setClock 1000000, .handleRead,
        .runTimer, .callbackReturns, .runTimer, .callbackReturns, .endHandleRead] = .ok q ∧
      q.batch = some [toLex (1000000, 16), toLex (1000000, 32)] ∧
      ((∃ q', q.reset 1000000 none = .ok q' ∧
        DisposesAndArms q [toLex (1000000, 16), toLex (1000000, 32)] 1000000 q') ↔
        ∀ e ∈ [toLex (1000000, 16), toLex (1000000, 32)], q.goesOn e = false) ∧
      ∀ value, ∃ q', q.reset 1000000 (some value) = .ok q' ∧
        DisposesAndArms q [toLex (1000000, 16), toLex (1000000, 32)] 1000000 q' := by
  obtain ⟨q, hq, hb⟩ := ok_of_toOption_map
    (x := run step (new 0) [.newTimer 16 1 1000000 500000 true, .addTimerInLoop 16 true,
      .newTimer 32 2 1000000 0 false, .addTimerInLoop 32 false,
      .newTimer 48 3 2000000 0 false, .addTimerInLoop 48 false, .setClock 1000000, .handleRead,
      .runTimer, .callbackReturns, .runTimer, .callbackReturns, .endHandleRead])
    (f := fun q => q.batch) (a := some [toLex (1000000, 16), toLex (1000000, 32)]) (by decide +kernel)
  have hinv := run_inv_allowed (new_inv 0) (by decide +kernel) hq
  exact ⟨q, hq, hb, reset_disposes_iff hinv.inStep hb (hinv.disposable hb) 1000000⟩

/-- A timer that repeats, and has expired. -/
def oneRepeating : TimerQueue :=
  { new 1000000 with
    heap := Function.update (fun _ => none) 16 (some ⟨1000000, 500000, true, 1⟩)
    batch := some [toLex (1000000, 16)] }

/-- The call of `insert` for it does not return. -/
theorem reset_stops_at_insert :
    InStep oneRepeating.heap oneRepeating.timer oneRepeating.activeTimer ∧
      oneRepeating.batch = some [toLex (1000000, 16)] ∧
      Disposable oneRepeating [toLex (1000000, 16)] ∧
      oneRepeating.reset 1000000 none = .error (.noReturn "TimerQueue::insert") ∧
      ¬ ∃ q', oneRepeating.reset 1000000 none = .ok q' ∧
        Disposes oneRepeating [toLex (1000000, 16)] 1000000 q' := by
  have hstop : oneRepeating.reset 1000000 none = .error (.noReturn "TimerQueue::insert") := rfl
  refine ⟨⟨fun _ _ => iff_of_false OrderedSet.not_mem_empty ?_,
    fun _ _ hin => absurd hin OrderedSet.not_mem_empty⟩, rfl,
    ⟨List.nodup_singleton _, fun e he => ?_, fun _ _ _ => OrderedSet.not_mem_empty⟩, hstop, ?_⟩
  · rintro ⟨tm, -, -, hin⟩
    exact OrderedSet.not_mem_empty hin
  · rw [List.mem_singleton.1 he]
    exact ⟨_, rfl⟩
  · rintro ⟨q', hok, -⟩
    cases hstop.symm.trans hok

end Czy.Net.TimerQueue
