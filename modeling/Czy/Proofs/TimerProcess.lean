import Czy.Proofs.TimerSets
import Czy.Sanity.TimerMemory
import Czy.Spec.TimerProcess

/-! Timers that any threads create for any loops of a process: whatever the order of their
steps, no two timers have one sequence number, and no `TimerId` of one loop names a timer of
another. -/

namespace Czy.Net

namespace TimerProcess

open StepRun

variable {ι τ : Type} {s s' : TimerProcess ι τ}

structure Inv (s : TimerProcess ι τ) : Prop where
  low : 0 ≤ s.numCreated.value
  high : s.numCreated.value < 2 ^ 63
  fetched : ∀ t n, s.numbers t = some n → 0 ≤ n ∧ n < s.numCreated.value
  apart : ∀ t t' n, s.numbers t = some n → s.numbers t' = some n → t = t'
  unused : ∀ t n, s.numbers t = some n → ∀ loop, ∀ id ∈ (s.queues loop).created, id.sequence ≠ n + 1
  within : ∀ loop, ∀ id ∈ (s.queues loop).created, 1 ≤ id.sequence ∧ id.sequence ≤ s.numCreated.value
  once : ∀ loop loop', ∀ id ∈ (s.queues loop).created, ∀ id' ∈ (s.queues loop').created,
    id.sequence = id'.sequence → loop = loop'
  homes : ∀ loop loop' p, (s.queues loop).heap p ≠ none → (s.queues loop').heap p ≠ none → loop = loop'
  queues : ∀ loop, (s.queues loop).Inv

theorem new_inv (clock : ι → ℤ) : Inv (new clock : TimerProcess ι τ) where
  low := le_refl _
  high := show (0 : ℤ) < 2 ^ 63 by decide
  fetched := nofun
  apart := nofun
  unused := nofun
  within := nofun
  once := nofun
  homes _ _ _ h := absurd rfl h
  queues loop := TimerQueue.new_inv (clock loop)

/-- One number names one timer, and one piece of memory belongs to one loop. -/
structure Apart (s : TimerProcess ι τ) : Prop where
  sets : ∀ loop, (s.queues loop).SetsAgree
  numbered : ∀ loop, ((s.queues loop).created.map ActiveTimer.sequence).Nodup
  once : ∀ loop loop', ∀ id ∈ (s.queues loop).created, ∀ id' ∈ (s.queues loop').created,
    id.sequence = id'.sequence → loop = loop' ∧ id = id'
  counted : ∀ loop, ∀ id ∈ (s.queues loop).created,
    1 ≤ id.sequence ∧ id.sequence ≤ s.numCreated.get.1
  homes : ∀ loop loop' p, (s.queues loop).heap p ≠ none → (s.queues loop').heap p ≠ none → loop = loop'

theorem Inv.apart_all (h : Inv s) : Apart s where
  sets loop := (h.queues loop).setsAgree
  numbered loop := (h.queues loop).created_once
  once loop loop' id hid id' hid' heq := by
    obtain rfl := h.once loop loop' id hid id' hid' heq
    exact ⟨rfl, List.inj_on_of_nodup_map (h.queues loop).created_once hid hid' heq⟩
  counted loop id hid := by
    rw [AtomicInt64.get_value]
    exact h.within loop id hid
  homes := h.homes

theorem allowed_queue {loop : ι} {o : TimerOp} (ha : s.Allowed (.queue loop o)) :
    (s.queues loop).Allowed o ∧
      ∀ timer sequence whenAt interval repeats, o ≠ .newTimer timer sequence whenAt interval repeats := by
  cases o with
  | newTimer => exact ha.elim
  | _ => exact ⟨ha, nofun⟩

section

variable [DecidableEq τ]

theorem fetched_cases {numbers : τ → Option ℤ} {t t' : τ} {v n : ℤ}
    (h : Function.update numbers t (some v) t' = some n) :
    t' = t ∧ n = v ∨ t' ≠ t ∧ numbers t' = some n := by
  by_cases ht : t' = t
  · rw [ht, Function.update_self, Option.some.injEq] at h
    exact .inl ⟨ht, h.symm⟩
  · rw [Function.update_of_ne ht] at h
    exact .inr ⟨ht, h⟩

theorem used_cases {numbers : τ → Option ℤ} {t t' : τ} {n : ℤ}
    (h : Function.update numbers t none t' = some n) : t' ≠ t ∧ numbers t' = some n := by
  by_cases ht : t' = t
  · rw [ht, Function.update_self] at h
    cases h
  · rw [Function.update_of_ne ht] at h
    exact ⟨ht, h⟩

theorem Inv.fetch (h : Inv s) {t : τ} (hhigh : s.numCreated.value < 2 ^ 63 - 1) :
    Inv { s with
      numCreated := (s.numCreated.getAndAdd 1).2
      numbers := Function.update s.numbers t (some s.numCreated.value) } := by
  have hlow := h.low
  have hnext : (s.numCreated.getAndAdd 1).2.value = s.numCreated.value + 1 :=
    AtomicInt64.wrap_of_lt (by omega) (by omega)
  refine { h with low := ?_, high := ?_, fetched := ?_, apart := ?_, unused := ?_, within := ?_ }
  · rw [hnext]
    omega
  · rw [hnext]
    omega
  · intro t' n hn
    rw [hnext]
    rcases fetched_cases hn with ⟨-, rfl⟩ | ⟨-, hn⟩
    · omega
    · have := h.fetched t' n hn
      omega
  · intro t₁ t₂ n h₁ h₂
    rcases fetched_cases h₁ with ⟨ht₁, hn⟩ | ⟨-, h₁⟩
    · rcases fetched_cases h₂ with ⟨ht₂, -⟩ | ⟨-, h₂⟩
      · rw [ht₁, ht₂]
      · exact absurd hn (h.fetched t₂ n h₂).2.ne
    · rcases fetched_cases h₂ with ⟨-, hn⟩ | ⟨-, h₂⟩
      · exact absurd hn (h.fetched t₁ n h₁).2.ne
      · exact h.apart t₁ t₂ n h₁ h₂
  · intro t' n hn loop id hid
    rcases fetched_cases hn with ⟨-, rfl⟩ | ⟨-, hn⟩
    · have := (h.within loop id hid).2
      omega
    · exact h.unused t' n hn loop id hid
  · intro loop id hid
    rw [hnext]
    have := h.within loop id hid
    omega

end

section

variable [DecidableEq ι]

theorem created_cases {queues : ι → TimerQueue} {loop loop' : ι} {timer : ℕ} {sequence whenAt interval : ℤ}
    {repeats : Bool} {id : ActiveTimer}
    (h : id ∈ (Function.update queues loop
      ((queues loop).newTimer timer sequence whenAt interval repeats) loop').created) :
    id ∈ (queues loop').created ∨ loop' = loop ∧ id.sequence = sequence := by
  by_cases hl : loop' = loop
  · rw [hl, Function.update_self] at h
    rcases List.mem_append.1 h with h | h
    · exact .inl (hl ▸ h)
    · rw [List.mem_singleton.1 h]
      exact .inr ⟨hl, rfl⟩
  · rw [Function.update_of_ne hl] at h
    exact .inl h

theorem live_cases {queues : ι → TimerQueue} {loop loop' : ι} {timer p : ℕ} {sequence whenAt interval : ℤ}
    {repeats : Bool} (h : (Function.update queues loop
      ((queues loop).newTimer timer sequence whenAt interval repeats) loop').heap p ≠ none) :
    (queues loop').heap p ≠ none ∨ loop' = loop ∧ p = timer := by
  by_cases hl : loop' = loop
  · by_cases hp : p = timer
    · exact .inr ⟨hl, hp⟩
    · rw [hl, Function.update_self] at h
      exact .inl (hl ▸ fun hnone => h ((Function.update_of_ne hp _ _).trans hnone))
  · rw [Function.update_of_ne hl] at h
    exact .inl h

theorem Inv.queue (h : Inv s) {loop : ι} {q : TimerQueue} (hq : q.Inv)
    (hdel : (s.queues loop).OnlyDeletes q) : Inv { s with queues := Function.update s.queues loop q } := by
  have hcreated : ∀ loop', (Function.update s.queues loop q loop').created = (s.queues loop').created := by
    intro loop'
    by_cases hl : loop' = loop
    · rw [hl, Function.update_self, hdel.created]
    · rw [Function.update_of_ne hl]
  have hheap : ∀ loop' p, (Function.update s.queues loop q loop').heap p ≠ none →
      (s.queues loop').heap p ≠ none := by
    intro loop' p hp
    by_cases hl : loop' = loop
    · rw [hl, Function.update_self] at hp
      exact hl ▸ fun hnone => hp (hdel.none hnone)
    · rwa [Function.update_of_ne hl] at hp
  exact { h with
    unused := fun t n hn loop' => by rw [hcreated]; exact h.unused t n hn loop'
    within := fun loop' => by rw [hcreated]; exact h.within loop'
    once := fun loop₁ loop₂ => by rw [hcreated, hcreated]; exact h.once loop₁ loop₂
    homes := fun loop₁ loop₂ p h₁ h₂ => h.homes loop₁ loop₂ p (hheap _ _ h₁) (hheap _ _ h₂)
    queues := (Function.forall_update_iff s.queues fun _ q => q.Inv).2 ⟨hq, fun loop' _ => h.queues loop'⟩ }

end

variable [DecidableEq ι] [DecidableEq τ]

theorem Inv.construct (h : Inv s) {t : τ} {n : ℤ} (hn : s.numbers t = some n) (loop : ι) {timer : ℕ}
    (haddr : timer < uintptrMax) (hfree : ∀ loop, (s.queues loop).heap timer = none)
    (whenAt interval : ℤ) (repeats : Bool) :
    Inv { s with
      numbers := Function.update s.numbers t none
      queues := Function.update s.queues loop
        ((s.queues loop).newTimer timer (n + 1) whenAt interval repeats) } := by
  obtain ⟨hn0, hnlt⟩ := h.fetched t n hn
  have hfresh := h.unused t n hn
  refine { h with
    fetched := fun t' n' hn' => h.fetched t' n' (used_cases hn').2
    apart := fun t₁ t₂ n' h₁ h₂ => h.apart t₁ t₂ n' (used_cases h₁).2 (used_cases h₂).2
    unused := ?_, within := ?_, once := ?_, homes := ?_, queues := ?_ }
  · intro t' n' hn' loop' id hid
    obtain ⟨hne, hn'⟩ := used_cases hn'
    rcases created_cases hid with hid | ⟨-, hseq⟩
    · exact h.unused t' n' hn' loop' id hid
    · intro heq
      rw [hseq, add_left_inj] at heq
      exact hne (h.apart t' t n' hn' (heq ▸ hn))
  · intro loop' id hid
    rcases created_cases hid with hid | ⟨-, hseq⟩
    · exact h.within loop' id hid
    · rw [hseq]
      exact ⟨by omega, hnlt⟩
  · intro loop₁ loop₂ id₁ h₁ id₂ h₂ heq
    rcases created_cases h₁ with h₁ | ⟨hl₁, hseq₁⟩
    · rcases created_cases h₂ with h₂ | ⟨-, hseq₂⟩
      · exact h.once loop₁ loop₂ id₁ h₁ id₂ h₂ heq
      · exact absurd (heq.trans hseq₂) (hfresh loop₁ id₁ h₁)
    · rcases created_cases h₂ with h₂ | ⟨hl₂, -⟩
      · exact absurd (heq.symm.trans hseq₁) (hfresh loop₂ id₂ h₂)
      · rw [hl₁, hl₂]
  · intro loop₁ loop₂ p h₁ h₂
    rcases live_cases h₁ with h₁ | ⟨hl₁, hp₁⟩
    · rcases live_cases h₂ with h₂ | ⟨-, hp₂⟩
      · exact h.homes loop₁ loop₂ p h₁ h₂
      · exact absurd (hfree loop₁) (hp₂ ▸ h₁)
    · rcases live_cases h₂ with h₂ | ⟨hl₂, -⟩
      · exact absurd (hfree loop₂) (hp₁ ▸ h₂)
      · rw [hl₁, hl₂]
  · refine (Function.forall_update_iff s.queues fun _ q => q.Inv).2 ⟨?_, fun loop' _ => h.queues loop'⟩
    exact (h.queues loop).created (hfree loop) haddr (hfresh loop) whenAt interval repeats

theorem construct_uninterrupted {t : τ} (h : s.numbers t = none) (loop : ι) (timer : ℕ)
    (whenAt interval : ℤ) (repeats : Bool) :
    run step s [.fetch t, .construct t loop timer whenAt interval repeats] = .ok { s with
      numCreated := s.numCreated.incrementAndGet.2
      queues := Function.update s.queues loop
        ((s.queues loop).newTimer timer s.numCreated.incrementAndGet.1 whenAt interval repeats) } := by
  have hback : Function.update (Function.update s.numbers t (some s.numCreated.value)) t none =
      s.numbers := by
    rw [Function.update_idem, Function.update_eq_self_iff, h]
  have hread : Function.update s.numbers t (some s.numCreated.value) t = some s.numCreated.value :=
    Function.update_self _ _ _
  simp only [run, step, AtomicInt64.getAndAdd, hread, hback]
  rfl

theorem step_inv (o : TimerProcessOp ι τ) (h : Inv s) (ha : s.Allowed o) :
    ∃ s', s.step o = .ok s' ∧ Inv s' := by
  cases o with
  | fetch t => exact ⟨_, rfl, h.fetch ha.2⟩
  | construct t loop timer whenAt interval repeats =>
    cases hn : s.numbers t with
    | none => exact ⟨s, by rw [step, hn], h⟩
    | some n => exact ⟨_, by rw [step, hn], h.construct hn loop ha.1 ha.2 whenAt interval repeats⟩
  | queue loop o =>
    obtain ⟨ha, ho⟩ := allowed_queue ha
    obtain ⟨q, hok, hq⟩ := TimerQueue.step_inv _ o (h.queues loop) ha
    exact ⟨_, by rw [step, hok, ok_bind]; rfl, h.queue hq (TimerQueue.step_onlyDeletes hok ho)⟩

/-- A cancel by the id of a timer of another loop is none. -/
structure CancelsAtHome (s : TimerProcess ι τ) (o : TimerProcessOp ι τ) (s' : TimerProcess ι τ) : Prop where
  apart : s'.Apart
  foreign : ∀ loop loop' id, o = .queue loop (.cancelInLoop id) → id ∈ (s.queues loop').created →
    loop ≠ loop' → (s'.queues loop).heap = (s.queues loop).heap ∧
      (s'.queues loop).timer = (s.queues loop).timer ∧
      (s'.queues loop).activeTimer = (s.queues loop).activeTimer
  beside : ∀ loop loop' o', o = .queue loop o' → loop' ≠ loop → s'.queues loop' = s.queues loop'

theorem cancelsAtHome {o : TimerProcessOp ι τ} (h : Inv s) (h' : Inv s') (hok : s.step o = .ok s') :
    CancelsAtHome s o s' where
  apart := h'.apart_all
  foreign loop loop' id ho hid hne := by
    subst ho
    obtain ⟨q, hq, hs'⟩ := bind_ok.1 hok
    have hnot : id ∉ (s.queues loop).activeTimer := by
      intro hin
      obtain ⟨tm, htm, hseq⟩ := (h.queues loop).inStep.live id.timer id.sequence hin
      have hmade := ((h.queues loop).ids _ _ htm).1
      rw [hseq] at hmade
      exact hne (h.once loop loop' _ hmade id hid rfl)
    obtain ⟨hheap, htimer, hactive, -⟩ :=
      (TimerQueue.cancelInLoop_only (h.queues loop) hq).absent hnot
    have hat : s'.queues loop = q := by
      rw [← Except.ok.inj hs']
      exact Function.update_self _ _ _
    rw [hat]
    exact ⟨hheap, htimer, hactive⟩
  beside loop loop' o' ho hne := by
    subst ho
    obtain ⟨q, hq, hs'⟩ := bind_ok.1 hok
    rw [← Except.ok.inj hs']
    exact Function.update_of_ne hne _ _

/-- However the constructors of the threads and the operations of the loops alternate. -/
theorem timers_apart (clock : ι → ℤ) {os : List (TimerProcessOp ι τ)}
    (h : Along step Allowed (new clock) os) :
    Apart (new clock : TimerProcess ι τ) ∧ Holds step CancelsAtHome (new clock) os := by
  refine ⟨(new_inv clock).apart_all, holds_along (I := Inv) (fun s o hs ha => ?_) (new_inv clock) h⟩
  obtain ⟨s', hok, hs'⟩ := step_inv o hs ha
  exact ⟨s', hok, hs', cancelsAtHome hs hs' hok⟩

/-- Two threads are in the constructor at once, and the id of the one timer comes to the loop
of the other, at whose address a timer of its own is made later. -/
def twoLoops : List (TimerProcessOp Bool Bool) :=
  [.fetch true, .fetch false, .construct false true 16 1000000 0 false,
    .construct true false 32 2000000 500000 true, .queue true (.addTimerInLoop 16 true),
    .queue false (.addTimerInLoop 32 true), .queue false (.cancelInLoop (toLex (16, 2))),
    .queue true (.cancelInLoop (toLex (16, 2))), .fetch true,
    .construct true false 16 3000000 0 false, .queue false (.addTimerInLoop 16 false),
    .queue false (.cancelInLoop (toLex (16, 2)))]

theorem timers_apart_twoLoops :
    Apart (new fun _ => 0 : TimerProcess Bool Bool) ∧
      Holds step CancelsAtHome (new fun _ => 0) twoLoops :=
  timers_apart (fun _ => 0) (by decide +kernel)

end TimerProcess

end Czy.Net
