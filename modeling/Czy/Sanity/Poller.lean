import Czy.Spec.Poller
import Mathlib.Tactic

/-! What `EPollPoller::updateChannel` and `removeChannel` do, by the `index_` they
find. -/

namespace Czy.Net

namespace EPollPoller

variable {ι : Type}

/-- A DEL never fails the caller, and leaves the fd out of the interest list. -/
theorem update_del (p : EPollPoller ι) (ptr : ι) (c : Channel) :
    p.update .del ptr c = .ok { p with kernel := Function.update p.kernel c.fd none } := by
  cases h : p.kernel c.fd with
  | some _ => simp [update, epollCtl, h]
  | none =>
    have hsame : Function.update p.kernel c.fd none = p.kernel := by
      rw [← h, Function.update_eq_self]
    simp [update, epollCtl, h, hsame]

theorem update_add_ok {p p' : EPollPoller ι} {ptr : ι} {c : Channel} :
    p.update .add ptr c = .ok p' ↔ p.kernel c.fd = none ∧
      p' = { p with kernel := Function.update p.kernel c.fd (some ⟨c.events, ptr⟩) } := by
  cases h : p.kernel c.fd <;> simp [update, epollCtl, h, eq_comm]

theorem update_mod_ok {p p' : EPollPoller ι} {ptr : ι} {c : Channel} :
    p.update .mod ptr c = .ok p' ↔ p.kernel c.fd ≠ none ∧
      p' = { p with kernel := Function.update p.kernel c.fd (some ⟨c.events, ptr⟩) } := by
  cases h : p.kernel c.fd <;> simp [update, epollCtl, h, eq_comm]

variable {p : EPollPoller ι} {ptr : ι} {c : Channel} {r : EPollPoller ι × Channel}

theorem removeChannel_ok :
    p.removeChannel ptr c = .ok r ↔ p.channels c.fd ≠ none ∧ c.isNoneEvent = true ∧
      (c.index = KAdded ∨ c.index = KDeleted) ∧
      r = (⟨Function.update p.channels c.fd none,
        if c.index = KAdded then Function.update p.kernel c.fd none else p.kernel⟩,
        c.setIndex KNew) := by
  unfold removeChannel
  simp only [require_bind_ok, Function.update_self, reduceCtorEq, if_false, true_and,
    Function.update_idem]
  refine and_congr_right fun _ => and_congr_right fun _ => and_congr_right fun _ => ?_
  split_ifs with hadd
  · rw [update_del, ok_bind]
    exact ⟨fun hr => by cases hr; rfl, fun hr => by rw [hr]; rfl⟩
  · exact ⟨fun hr => by cases hr; rfl, fun hr => by rw [hr]; rfl⟩

variable [DecidableEq ι]

/-- A channel the poller has never seen gets its first ADD. -/
theorem updateChannel_new (h : c.index = KNew) :
    p.updateChannel ptr c = .ok r ↔ p.channels c.fd = none ∧ p.kernel c.fd = none ∧
      r = (⟨Function.update p.channels c.fd (some ptr),
        Function.update p.kernel c.fd (some ⟨c.events, ptr⟩)⟩, c.setIndex KAdded) := by
  unfold updateChannel
  simp only [h, true_or, if_true, require_bind_ok]
  refine and_congr_right fun _ => ?_
  constructor
  · intro hr
    obtain ⟨p₁, hp₁, hr⟩ := bind_ok.1 hr
    obtain ⟨p₂, hadd, hr⟩ := bind_ok.1 hr
    cases hp₁
    obtain ⟨hkernel, rfl⟩ := update_add_ok.1 hadd
    cases hr
    exact ⟨hkernel, rfl⟩
  · rintro ⟨hkernel, rfl⟩
    exact bind_ok.2 ⟨_, rfl, bind_ok.2 ⟨_, update_add_ok.2 ⟨hkernel, rfl⟩, rfl⟩⟩

/-- A channel taken out of the interest list is added to it again. -/
theorem updateChannel_deleted (h : c.index = KDeleted) :
    p.updateChannel ptr c = .ok r ↔ p.channels c.fd = some ptr ∧ p.kernel c.fd = none ∧
      r = (⟨Function.update p.channels c.fd (some ptr),
        Function.update p.kernel c.fd (some ⟨c.events, ptr⟩)⟩, c.setIndex KAdded) := by
  have hsame (hptr : p.channels c.fd = some ptr) :
      Function.update p.channels c.fd (some ptr) = p.channels := by
    rw [← hptr, Function.update_eq_self]
  have hne : ¬ KDeleted = KNew := by decide
  unfold updateChannel
  simp only [h, hne, or_true, if_true, if_false, require_bind_ok]
  constructor
  · rintro ⟨-, hptr, hr⟩
    obtain ⟨p₁, hp₁, hr⟩ := bind_ok.1 hr
    obtain ⟨p₂, hadd, hr⟩ := bind_ok.1 hr
    cases hp₁
    obtain ⟨hkernel, rfl⟩ := update_add_ok.1 hadd
    cases hr
    exact ⟨hptr, hkernel, by rw [hsame hptr]; rfl⟩
  · rintro ⟨hptr, hkernel, rfl⟩
    refine ⟨by rw [hptr]; simp, hptr, ?_⟩
    rw [hsame hptr]
    exact bind_ok.2 ⟨_, rfl, bind_ok.2 ⟨_, update_add_ok.2 ⟨hkernel, rfl⟩, rfl⟩⟩

/-- A channel in the interest list is taken out when its last revents were empty,
whatever its events are, and modified otherwise. -/
theorem updateChannel_added (h : c.index = KAdded) :
    p.updateChannel ptr c = .ok r ↔ p.channels c.fd ≠ none ∧
      if c.isNoneEvent then
        r = (⟨Function.update p.channels c.fd (some ptr), Function.update p.kernel c.fd none⟩,
          c.setIndex KDeleted)
      else p.kernel c.fd ≠ none ∧
        r = (⟨Function.update p.channels c.fd (some ptr),
          Function.update p.kernel c.fd (some ⟨c.events, ptr⟩)⟩, c) := by
  have hnew : ¬ KAdded = KNew := by decide
  have hdel : ¬ KAdded = KDeleted := by decide
  unfold updateChannel
  simp only [h, hnew, hdel, or_self, if_false, require_bind_ok, true_and]
  refine and_congr_right fun _ => ?_
  split_ifs with hnone
  · rw [update_del, ok_bind]
    exact ⟨fun hr => by cases hr; rfl, fun hr => by rw [hr]; rfl⟩
  · constructor
    · intro hr
      obtain ⟨p₁, hmod, hr⟩ := bind_ok.1 hr
      obtain ⟨hkernel, rfl⟩ := update_mod_ok.1 hmod
      cases hr
      exact ⟨hkernel, rfl⟩
    · rintro ⟨hkernel, rfl⟩
      exact bind_ok.2 ⟨_, update_mod_ok.2 ⟨hkernel, rfl⟩, rfl⟩

/-- With any other `index_` an assertion fails. -/
theorem updateChannel_unknown (hnew : c.index ≠ KNew) (hadd : c.index ≠ KAdded)
    (hdel : c.index ≠ KDeleted) : p.updateChannel ptr c ≠ .ok r := by
  intro h
  unfold updateChannel at h
  simp only [hnew, hdel, or_self, if_false, require_bind_ok] at h
  exact hadd h.2.1

end EPollPoller

end Czy.Net
