import Czy.Sanity.TimerQueue

/-! Whether a timer has expired when the timerfd that was armed for it fires. -/

namespace Czy.Net.TimerQueue

/-- A timer that `runAfter` makes at `t0`, and that the timerfd is armed for at `t1`, is among
those that `getExpired` returns at any time from the firing on. -/
def DueWhenFired (t0 t1 delay : ℤ) : Prop :=
  ∀ (q₀ q₁ q₂ q₃ : TimerQueue) (p : ℕ) (s : ℤ), q₀.clock = t0 → q₁.clock = t1 → Inv q₁ →
    p ∈ q₁.pending → q₁.heap p = (q₀.runAfter p s delay).heap p → q₁.addTimerInLoop p true = .ok q₂ →
    Inv q₃ → toLex (q₀.now + delay, p) ∈ q₃.timer → (∀ f, q₂.expiry = some f → f ≤ q₃.clock) →
    ∃ q₄ expired, q₃.getExpired q₃.now = .ok q₄ ∧ q₄.batch = some expired ∧
      toLex (q₀.now + delay, p) ∈ expired

def fraction (t : ℤ) : ℤ := t % 1000000

/-- The delay is in whole seconds, the timer due in the second in which it is armed for, or
the two fractions of a second make up a whole one. -/
def FractionsFit (t0 t1 delay : ℤ) : Prop :=
  fraction delay = 0 ∨ t0 - fraction t0 + delay ≤ t1 - fraction t1 ∨
    1000000 ≤ fraction t1 +
      if t0 - fraction t0 + delay < t1 - fraction t1 + 100 then 100 else fraction delay

variable {q : TimerQueue} {e : Entry} {p : ℕ} {s delay : ℤ}

theorem now_eq (q : TimerQueue) : q.now = q.clock - fraction q.clock := by
  unfold now fraction
  omega

theorem timespecFromNow_exact (q : TimerQueue) (whenAt : ℤ) :
    (q.timespecFromNow whenAt).1 * 1000000000 + (q.timespecFromNow whenAt).2 =
      q.howMuchTimeFromNow whenAt * 1000 := by
  unfold timespecFromNow
  simp only
  omega

theorem getExpired_contains_iff (h : Inv q) (he : e ∈ q.timer) :
    (∃ q' expired, q.getExpired q.now = .ok q' ∧ q'.batch = some expired ∧ e ∈ expired) ↔
      e.time ≤ q.now := by
  obtain ⟨active, hok, -, -⟩ := getExpired_eq h.inStep q.now
  rw [← expired_iff h he]
  constructor
  · rintro ⟨q', expired, hq', hb, hin⟩
    rw [hok] at hq'
    cases hq'
    cases hb
    exact (OrderedSet.mem_below.1 hin).2
  · exact fun hlt => ⟨_, _, hok, rfl, OrderedSet.mem_below.2 ⟨he, hlt⟩⟩

theorem runAfter_heap (q : TimerQueue) (p : ℕ) (s delay : ℤ) :
    (q.runAfter p s delay).heap p = some ⟨q.now + delay, 0, false, s⟩ := Function.update_self _ _ _

theorem setClock_same (q : TimerQueue) (clock : ℤ) :
    (q.setClock clock).clock = clock ∧ (q.setClock clock).heap = q.heap ∧
      (q.setClock clock).timer = q.timer ∧ (q.setClock clock).pending = q.pending := by
  unfold setClock
  split
  · split <;> exact ⟨rfl, rfl, rfl, rfl⟩
  · exact ⟨rfl, rfl, rfl, rfl⟩

theorem addTimerInLoop_arms {q' : TimerQueue} {tm : Timer} (h : Inv q) (hp : p ∈ q.pending)
    (hheap : q.heap p = some tm) (hok : q.addTimerInLoop p true = .ok q') :
    Inv q' ∧ toLex (tm.expiration, p) ∈ q'.timer ∧
      q'.expiry = some (q.clock + max (tm.expiration - q.now) 100) := by
  obtain ⟨tm', hheap', -, hok', hinv⟩ := addTimerInLoop_eq h hp true
  rw [hheap] at hheap'
  cases hheap'
  obtain rfl := Except.ok.inj (hok.symm.trans hok')
  exact ⟨{ hinv with }, OrderedSet.mem_insert.2 (.inl rfl), rfl⟩

theorem exists_fired (t0 t1 delay : ℤ) :
    ∃ q₁ q₂ q₃ : TimerQueue, q₁.clock = t1 ∧ Inv q₁ ∧ 16 ∈ q₁.pending ∧
      q₁.heap 16 = ((new t0).runAfter 16 1 delay).heap 16 ∧ q₁.addTimerInLoop 16 true = .ok q₂ ∧
      Inv q₃ ∧ toLex ((new t0).now + delay, 16) ∈ q₃.timer ∧ q₂.expiry = some q₃.clock ∧
      q₃.clock = t1 + max ((new t0).now + delay - q₁.now) 100 := by
  have hmade : Inv ((new t0).runAfter 16 1 delay) :=
    (new_inv t0).created rfl (by decide) nofun _ _ _
  have hinv₁ := hmade.step (o := .setClock t1) trivial rfl
  obtain ⟨hclock₁, hheap₁, -, hpending₁⟩ := setClock_same ((new t0).runAfter 16 1 delay) t1
  generalize ((new t0).runAfter 16 1 delay).setClock t1 = q₁ at hinv₁ hclock₁ hheap₁ hpending₁
  have hp : 16 ∈ q₁.pending := by
    rw [hpending₁]
    exact List.mem_singleton_self 16
  have hheap : q₁.heap 16 = some ⟨(new t0).now + delay, 0, false, 1⟩ := by
    rw [hheap₁, runAfter_heap]
  obtain ⟨_, _, _, hok, _⟩ := addTimerInLoop_eq hinv₁ hp true
  obtain ⟨hinv₂, hin, hexpiry⟩ := addTimerInLoop_arms hinv₁ hp hheap hok
  have hinv₃ := hinv₂.step (o := .setClock (t1 + max ((new t0).now + delay - q₁.now) 100)) trivial rfl
  obtain ⟨hclock₃, -, htimer₃, -⟩ :=
    setClock_same _ (t1 + max ((new t0).now + delay - q₁.now) 100)
  refine ⟨q₁, _, _, hclock₁, hinv₁, hp, by rw [hheap₁], hok, hinv₃, htimer₃.symm ▸ hin, ?_, hclock₃⟩
  rw [hexpiry, hclock₃, hclock₁]

theorem DueWhenFired.fits {t0 t1 : ℤ} (hdue : DueWhenFired t0 t1 delay) : FractionsFit t0 t1 delay := by
  obtain ⟨q₁, q₂, q₃, hclock₁, hinv₁, hp, hheap, hok, hinv₃, hin, hexpiry, hclock₃⟩ :=
    exists_fired t0 t1 delay
  have hdone := hdue (new t0) q₁ q₂ q₃ 16 1 rfl hclock₁ hinv₁ hp hheap hok hinv₃ hin
    fun f hf => (Option.some.inj (hexpiry.symm.trans hf)).ge
  have hle : (new t0).now + delay ≤ q₃.now := (getExpired_contains_iff hinv₃ hin).1 hdone
  have hnow : (new t0).now = t0 - fraction t0 := now_eq _
  rw [now_eq q₃] at hle
  rw [now_eq q₁, hclock₁] at hclock₃
  unfold FractionsFit fraction at *
  omega

theorem FractionsFit.due {t0 t1 : ℤ} (hfit : FractionsFit t0 t1 delay) : DueWhenFired t0 t1 delay := by
  intro q₀ q₁ q₂ q₃ p s h₀ h₁ hinv₁ hp hheap hok hinv₃ hin hfired
  rw [runAfter_heap] at hheap
  obtain ⟨-, -, hexpiry⟩ := addTimerInLoop_arms hinv₁ hp hheap hok
  have hle := hfired _ hexpiry
  refine (getExpired_contains_iff hinv₃ hin).2 ?_
  change q₀.now + delay ≤ q₃.now
  simp only [now_eq, h₀, h₁] at hle ⊢
  unfold FractionsFit fraction at *
  omega

/-- The timer is due when its own arming fires exactly where the fractions of a second fit. -/
theorem due_when_fired_iff (t0 t1 delay : ℤ) : DueWhenFired t0 t1 delay ↔ FractionsFit t0 t1 delay :=
  ⟨DueWhenFired.fits, FractionsFit.due⟩

/-- Half a second after the clock began, the clock that is read has not moved. -/
theorem half_second_not_due : ¬ DueWhenFired 0 0 500000 := by
  intro hdue
  have hfits := hdue.fits
  unfold FractionsFit fraction at hfits
  omega

end Czy.Net.TimerQueue
