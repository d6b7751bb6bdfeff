import Czy.Proofs.ConnectorSockets
import Czy.Proofs.DueTimer
import Czy.Spec.ConnectorClock
import Mathlib.Algebra.Order.BigOperators.Group.Finset
import Mathlib.Data.List.Perm.Basic

/-! How often a connector tries: the delays double up to half a minute, and between the attempts
that follow one `start` they have passed, by the seconds that `TimeStamp::now` reads. -/

namespace Czy.Net

open StepRun

namespace Connector

variable {c c' : Connector} {outcome : Option Errno}

def retries : Option Errno → Bool
  | some .EAGAIN | some .EADDRINUSE | some .EADDRNOTAVAIL | some .ECONNREFUSED
  | some .ENETUNREACH => true
  | _ => false

def delayMs (k : ℕ) : ℕ := min (KInitRetryDelayMs * 2 ^ k) KMaxRetryDelayMs

theorem delayMs_succ (k : ℕ) : delayMs (k + 1) = min (delayMs k * 2) KMaxRetryDelayMs := by
  rw [delayMs, delayMs, pow_succ, ← Nat.mul_assoc, KMaxRetryDelayMs]
  omega

theorem delayMs_of_six_le {k : ℕ} (h : 6 ≤ k) : delayMs k = KMaxRetryDelayMs := by
  have hpow : 2 ^ 6 ≤ 2 ^ k := Nat.pow_le_pow_right (by decide) h
  rw [delayMs, KInitRetryDelayMs, KMaxRetryDelayMs]
  omega

def totalMs (k : ℕ) : ℕ := ∑ i ∈ Finset.range k, delayMs i

theorem totalMs_succ (k : ℕ) : totalMs (k + 1) = totalMs k + delayMs k := Finset.sum_range_succ _ _

theorem totalMs_six_add (k : ℕ) : totalMs (6 + k) = 31500 + 30000 * k := by
  induction k with
  | zero => decide
  | succ k ih =>
    rw [← Nat.add_assoc, totalMs_succ, ih, delayMs_of_six_le (Nat.le_add_right 6 k), KMaxRetryDelayMs]
    omega

theorem connect_kinds (c : Connector) (outcome : Option Errno) :
    c.connect outcome = { c with created := c.created + 1 }.connecting c.created ∨
    (retries outcome = true ∧
      c.connect outcome = .ok ({ c with created := c.created + 1 }.retry c.created)) ∨
    (retries outcome = false ∧
      c.connect outcome = .ok ({ c with created := c.created + 1 }.close c.created)) := by
  rcases outcome with _ | e
  · exact .inl rfl
  · cases e
    case EINPROGRESS | EINTR | EISCONN => exact .inl rfl
    case EAGAIN | EADDRINUSE | EADDRNOTAVAIL | ECONNREFUSED | ENETUNREACH =>
      exact .inr (.inl ⟨rfl, rfl⟩)
    all_goals exact .inr (.inr ⟨rfl, rfl⟩)

/-- An attempt that the connector survives, with what it adds to the timers. -/
structure Attempt (c : Connector) (outcome : Option Errno) (c' : Connector) : Prop where
  idle : Idle c'
  functors : c'.functors = c.functors
  connect_ : c'.connect_ = c.connect_
  cases : (c.connect_ = false ∧ c' = c) ∨
    (c.connect_ = true ∧ retries outcome = true ∧ c'.created = c.created + 1 ∧
      c'.timers = c.timers ++ [c.retryDelayMs] ∧
      c'.retryDelayMs = min (c.retryDelayMs * 2) KMaxRetryDelayMs) ∨
    (c.connect_ = true ∧ retries outcome = false ∧ c'.created = c.created + 1 ∧
      c'.timers = c.timers)

theorem Idle.attempt (h : Idle c) (hs : c.startInLoop outcome = .ok c') : Attempt c outcome c' := by
  have heq : c.startInLoop outcome = if c.connect_ then c.connect outcome else .ok c := by
    unfold startInLoop
    rw [check_bind h.state]
    rfl
  rw [heq] at hs
  split_ifs at hs with hconn
  · rcases connect_kinds c outcome with hok | ⟨hretries, hok⟩ | ⟨hretries, hok⟩
    · have herr := connecting_error (c := { c with created := c.created + 1 }) h.channel c.created
      rw [hok, herr] at hs
      cases hs
    · have hidle := h.retry_created
      rw [hok] at hs
      cases hs
      have heq : { c with created := c.created + 1 }.retry c.created =
          { ({ c with created := c.created + 1 }.close c.created).setState .KDisconnected with
            timers := c.timers ++ [c.retryDelayMs]
            retryDelayMs := min (c.retryDelayMs * 2) KMaxRetryDelayMs } := if_pos hconn
      refine ⟨hidle, ?_, ?_, .inr (.inl ⟨hconn, hretries, ?_, ?_, ?_⟩)⟩ <;> rw [heq] <;> rfl
    · rw [hok] at hs
      cases hs
      exact ⟨h.close_created, rfl, rfl, .inr (.inr ⟨hconn, hretries, rfl, rfl⟩)⟩
  · cases hs
    exact ⟨h, rfl, rfl, .inl ⟨Bool.eq_false_iff.2 hconn, rfl⟩⟩

end Connector

theorem timeStampNow_mono {t t' : ℕ} (h : t ≤ t') : timeStampNow t ≤ timeStampNow t' :=
  Nat.mul_le_mul_right _ (Nat.div_le_div_right h)

theorem timeStampNow_le (t : ℕ) : timeStampNow t ≤ t := Nat.div_mul_le_self _ _

theorem lt_timeStampNow_add (t : ℕ) : t < timeStampNow t + 1000000 := by
  rw [timeStampNow]
  omega

namespace ConnectorClock

open Connector

def pending (s : ConnectorClock) : ℕ :=
  s.connector.timers.length + s.connector.functors.count .startInLoop

/-- What is to come after one `start` at `t₀`: the first attempt, one that waits for its delay
behind the others, or none. -/
inductive Next (t₀ : ℕ) (s : ConnectorClock) : Prop
  | queued (timers : s.connector.timers = []) (due : s.due = [])
      (functors : s.connector.functors.count .startInLoop = 1) (created : s.connector.created = 0)
      (delay : s.connector.retryDelayMs = delayMs 0)
  | waiting (d wake : ℕ) (timers : s.connector.timers = [d]) (due : s.due = [wake])
      (functors : s.connector.functors.count .startInLoop = 0)
      (delay : s.connector.retryDelayMs = delayMs s.connector.created)
      (spaced : timeStampNow t₀ + totalMs s.connector.created * 1000 ≤ wake)
  | over (timers : s.connector.timers = []) (due : s.due = [])
      (functors : s.connector.functors.count .startInLoop = 0)

structure Spaced (t₀ : ℕ) (s : ConnectorClock) : Prop where
  idle : Idle s.connector
  past : timeStampNow t₀ + totalMs (s.connector.created - 1) * 1000 ≤ timeStampNow s.now
  next : Next t₀ s

def Live (s : ConnectorClock) : Prop := s.connector.connect_ = true ∧ s.pending = 1

variable {t₀ now : ℕ} {c c' : Connector} {s s' : ConnectorClock} {outcome : Option Errno}

/-! The expirations are those of the loop's timer queue. -/

theorem expiration_runAfter {q : TimerQueue} (hclock : q.clock = s.now) (p : ℕ) (sequence : ℤ)
    (delayMs : ℕ) : (q.runAfter p sequence (delayMs * 1000)).heap p =
      some ⟨s.expiration delayMs, 0, false, sequence⟩ := by
  rw [TimerQueue.runAfter_heap, TimerQueue.now, hclock, expiration, timeStampNow]
  push_cast
  rfl

/-- A timer may be called where the queue has it among those that have expired. -/
theorem mayHappen_iff_expired {q : TimerQueue} {p i wake : ℕ} (h : q.Inv) (hclock : q.clock = s.now)
    (hwake : s.due[i]? = some wake) (hin : toLex ((wake : ℤ), p) ∈ q.timer) :
    s.mayHappen (.timer i outcome) = true ↔ ∃ q' expired, q.getExpired q.now = .ok q' ∧
      q'.batch = some expired ∧ toLex ((wake : ℤ), p) ∈ expired := by
  rw [TimerQueue.getExpired_contains_iff h hin, mayHappen, hwake, Option.any_some, decide_eq_true_iff,
    TimerQueue.now, hclock]
  change _ ↔ (wake : ℤ) ≤ _
  rw [timeStampNow]
  omega

theorem spaced_of_attempt (ha : Attempt c outcome c') (htimers : c.timers = [])
    (hcount : c.functors.count .startInLoop = 0) (hdelay : c.retryDelayMs = delayMs c.created)
    (hnow : timeStampNow t₀ + totalMs c.created * 1000 ≤ timeStampNow s.now) :
    Spaced t₀ ⟨c', s.now, c'.timers.map s.expiration⟩ ∧
      (c.connect_ = true → retries outcome = true →
        Live ⟨c', s.now, c'.timers.map s.expiration⟩) := by
  have hcount' : c'.functors.count .startInLoop = 0 := by rw [ha.functors, hcount]
  rcases ha.cases with ⟨hconn, rfl⟩ | ⟨hconn, -, hcreated, htimers', hdelay'⟩ |
    ⟨hconn, hretries, hcreated, htimers'⟩
  · refine ⟨⟨ha.idle, ?_, .over htimers (by rw [htimers]; rfl) hcount⟩, fun h => ?_⟩
    · refine le_trans (Nat.add_le_add_left ?_ _) hnow
      exact Nat.mul_le_mul_right _ (Finset.sum_le_sum_of_subset (Finset.range_mono (Nat.sub_le _ _)))
    · rw [hconn] at h
      cases h
  · rw [htimers, List.nil_append] at htimers'
    refine ⟨⟨ha.idle, ?_, .waiting c.retryDelayMs (s.expiration c.retryDelayMs) htimers'
      (by rw [htimers']; rfl) hcount' ?_ ?_⟩, fun _ _ => ⟨ha.connect_.trans hconn, ?_⟩⟩
    · change timeStampNow t₀ + totalMs (c'.created - 1) * 1000 ≤ timeStampNow s.now
      rw [hcreated, Nat.add_sub_cancel]
      exact hnow
    · change c'.retryDelayMs = delayMs c'.created
      rw [hdelay', hcreated, hdelay, delayMs_succ]
    · change timeStampNow t₀ + totalMs c'.created * 1000 ≤ timeStampNow s.now + c.retryDelayMs * 1000
      rw [hcreated, totalMs_succ, hdelay, Nat.add_mul, ← Nat.add_assoc]
      exact Nat.add_le_add_right hnow _
    · rw [pending, htimers', hcount']
      rfl
  · rw [htimers] at htimers'
    refine ⟨⟨ha.idle, ?_, .over htimers' (by rw [htimers']; rfl) hcount'⟩, fun _ h => ?_⟩
    · change timeStampNow t₀ + totalMs (c'.created - 1) * 1000 ≤ timeStampNow s.now
      rw [hcreated, Nat.add_sub_cancel]
      exact hnow
    · rw [hretries] at h
      cases h

theorem Spaced.keep (h : Spaced t₀ s) (hidle : Idle c') (htimers : c'.timers = s.connector.timers)
    (hcount : c'.functors.count .startInLoop = s.connector.functors.count .startInLoop)
    (hcreated : c'.created = s.connector.created)
    (hdelay : c'.retryDelayMs = s.connector.retryDelayMs) (hnow : s.now ≤ now) :
    Spaced t₀ ⟨c', now, s.due⟩ := by
  refine ⟨hidle, ?_, ?_⟩
  · rw [hcreated]
    exact h.past.trans (timeStampNow_mono hnow)
  · rcases h.next with ⟨ht, hd, hf, hc, hr⟩ | ⟨d, wake, ht, hd, hf, hr, hs⟩ | ⟨ht, hd, hf⟩
    · exact .queued (htimers.trans ht) hd (hcount.trans hf) (hcreated.trans hc) (hdelay.trans hr)
    · refine .waiting d wake (htimers.trans ht) hd (hcount.trans hf) ?_ ?_
      · rw [hdelay, hr, hcreated]
      · rw [hcreated]
        exact hs
    · exact .over (htimers.trans ht) hd (hcount.trans hf)

theorem count_eraseIdx {fs : List ConnectorFunctor} {i : ℕ} {f g : ConnectorFunctor}
    (h : fs[i]? = some f) : fs.count g = [f].count g + (fs.eraseIdx i).count g := by
  obtain ⟨hi, rfl⟩ := List.getElem?_eq_some_iff.1 h
  rw [← (List.getElem_cons_eraseIdx_perm hi).count_eq, ← List.count_append]
  rfl

/-- The operations of a client that was started once; `eager` ones neither stop it nor give up. -/
def Started : Operation → Prop
  | .connector (.start _ _) | .connector (.restart _) => False
  | _ => True

def Eager : Operation → Prop
  | .connector .stop => False
  | .connector (.functor _ outcome) | .connector (.timer _ outcome) => retries outcome = true
  | _ => True

theorem step_cases {o : Connector.Operation} (hs : s.step (.connector o) = .ok s') :
    (s.mayHappen o = false ∧ s' = s) ∨ (s.mayHappen o = true ∧ ∃ c, s.connector.step o = .ok c ∧
      s' = ⟨c, s.now, s.rest o ++ (c.timers.drop (s.rest o).length).map s.expiration⟩) := by
  rw [step] at hs
  split_ifs at hs with hmay
  · obtain ⟨c, hstep, hs⟩ := bind_ok.1 hs
    cases hs
    exact .inr ⟨hmay, c, hstep, rfl⟩
  · cases hs
    exact .inl ⟨Bool.eq_false_iff.2 hmay, rfl⟩

theorem Spaced.length_due (h : Spaced t₀ s) : s.connector.timers.length = s.due.length := by
  rcases h.next with ⟨ht, hd, -⟩ | ⟨d, wake, ht, hd, -⟩ | ⟨ht, hd, -⟩
  · rw [ht, hd]
  · rw [ht, hd, List.length_singleton, List.length_singleton]
  · rw [ht, hd]

theorem Spaced.functor (h : Spaced t₀ s) {i : ℕ}
    (hf : s.connector.functors[i]? = some .startInLoop)
    (hs : { s.connector with functors := s.connector.functors.eraseIdx i }.startInLoop outcome = .ok c) :
    Spaced t₀ ⟨c, s.now, s.due ++ (c.timers.drop s.due.length).map s.expiration⟩ ∧
      (Live s → retries outcome = true →
        Live ⟨c, s.now, s.due ++ (c.timers.drop s.due.length).map s.expiration⟩) := by
  have hcount := count_eraseIdx (g := .startInLoop) hf
  rw [List.count_singleton_self] at hcount
  rcases h.next with ⟨ht, hd, hone, hc, hr⟩ | ⟨d, wake, ht, hd, hnone, -⟩ | ⟨ht, hd, hnone⟩
  · have hidle : Idle { s.connector with functors := s.connector.functors.eraseIdx i } :=
      ⟨h.idle.1, h.idle.2, h.idle.3, h.idle.4⟩
    have hnow : timeStampNow t₀ + totalMs s.connector.created * 1000 ≤ timeStampNow s.now := by
      have hpast := h.past
      rw [hc] at hpast ⊢
      exact hpast
    have hrest : (s.connector.functors.eraseIdx i).count .startInLoop = 0 := by omega
    have hattempt := spaced_of_attempt (hidle.attempt hs) ht hrest (by rw [hr, hc])
      hnow
    rw [hd]
    exact ⟨hattempt.1, fun hlive => hattempt.2 hlive.1⟩
  · omega
  · omega

theorem Spaced.timer (h : Spaced t₀ s) {i : ℕ} (hmay : s.mayHappen (.timer i outcome) = true)
    (hs : s.connector.step (.timer i outcome) = .ok c) :
    Spaced t₀ ⟨c, s.now, s.due.eraseIdx i ++ (c.timers.drop (s.due.eraseIdx i).length).map s.expiration⟩ ∧
      (Live s → retries outcome = true → Live
        ⟨c, s.now, s.due.eraseIdx i ++ (c.timers.drop (s.due.eraseIdx i).length).map s.expiration⟩) := by
  rcases h.next with ⟨ht, hd, -⟩ | ⟨d, wake, ht, hd, hnone, hr, hspaced⟩ | ⟨ht, hd, -⟩
  · rw [mayHappen, hd] at hmay
    cases hmay
  · rw [mayHappen, hd] at hmay
    cases i with
    | succ i => cases hmay
    | zero =>
      have hwake : wake ≤ timeStampNow s.now := of_decide_eq_true hmay
      rw [Connector.step, ht, if_pos (show 0 < [d].length from Nat.zero_lt_one)] at hs
      have hidle : Idle { s.connector with timers := [] } :=
        ⟨h.idle.1, h.idle.2, h.idle.3, h.idle.4⟩
      have hattempt := spaced_of_attempt (hidle.attempt hs) rfl hnone hr (hspaced.trans hwake)
      rw [hd]
      exact ⟨hattempt.1, fun hlive => hattempt.2 hlive.1⟩
  · rw [mayHappen, hd] at hmay
    cases hmay

theorem Spaced.unmoved (h : Spaced t₀ s) (hidle : Idle c)
    (htimers : c.timers = s.connector.timers)
    (hcount : c.functors.count .startInLoop = s.connector.functors.count .startInLoop)
    (hcreated : c.created = s.connector.created)
    (hdelay : c.retryDelayMs = s.connector.retryDelayMs) :
    Spaced t₀ ⟨c, s.now, s.due ++ (c.timers.drop s.due.length).map s.expiration⟩ ∧
      (c.connect_ = s.connector.connect_ → Live s →
        Live ⟨c, s.now, s.due ++ (c.timers.drop s.due.length).map s.expiration⟩) := by
  rw [htimers, ← h.length_due, List.drop_length, List.map_nil, List.append_nil]
  refine ⟨h.keep hidle htimers hcount hcreated hdelay le_rfl, fun hconn hlive => ?_⟩
  refine ⟨hconn.trans hlive.1, ?_⟩
  rw [pending, htimers, hcount]
  exact hlive.2

theorem Spaced.nothing (h : Spaced t₀ s) (p : Prop) :
    Spaced t₀ ⟨s.connector, s.now, s.due ++ (s.connector.timers.drop s.due.length).map s.expiration⟩ ∧
      (Live s → p → Live
        ⟨s.connector, s.now, s.due ++ (s.connector.timers.drop s.due.length).map s.expiration⟩) := by
  have hsame := h.unmoved h.idle rfl rfl rfl rfl
  exact ⟨hsame.1, fun hlive _ => hsame.2 rfl hlive⟩

theorem Spaced.step {o : Operation} (h : Spaced t₀ s) (ho : Started o) (hs : s.step o = .ok s') :
    Spaced t₀ s' ∧ (Live s → Eager o → Live s') := by
  cases o with
  | tick ms =>
    cases hs
    exact ⟨h.keep h.idle rfl rfl rfl rfl (Nat.le_add_right _ _), fun hlive _ => hlive⟩
  | connector o =>
    rcases step_cases hs with ⟨-, rfl⟩ | ⟨hmay, c, hstep, rfl⟩
    · exact ⟨h, fun hlive _ => hlive⟩
    · cases o with
      | start inLoopThread outcome => exact ho.elim
      | restart outcome => exact ho.elim
      | stop =>
        cases hstep
        have hidle : Idle s.connector.stop := ⟨h.idle.1, h.idle.2, h.idle.3, h.idle.4⟩
        have hcount : s.connector.stop.functors.count .startInLoop =
            s.connector.functors.count .startInLoop := List.count_append
        exact ⟨(h.unmoved hidle rfl hcount rfl rfl).1, fun _ heager => heager.elim⟩
      | functor i outcome =>
        rw [Connector.step] at hstep
        cases hf : s.connector.functors[i]? with
        | none =>
          rw [hf] at hstep
          cases hstep
          exact h.nothing _
        | some f =>
          rw [hf] at hstep
          cases f with
          | startInLoop => exact h.functor hf hstep
          | stopInLoop =>
            cases hstep
            exact h.nothing _
          | resetChannel =>
            cases hstep
            have hcount := count_eraseIdx (g := .startInLoop) hf
            rw [show [ConnectorFunctor.resetChannel].count .startInLoop = 0 from rfl, Nat.zero_add]
              at hcount
            have hidle : Idle ({ s.connector with
              functors := s.connector.functors.eraseIdx i } : Connector).resetChannel :=
                ⟨h.idle.1, rfl, h.idle.3, h.idle.4⟩
            have hsame := h.unmoved hidle rfl hcount.symm rfl rfl
            exact ⟨hsame.1, fun hlive _ => hsame.2 rfl hlive⟩
      | timer i outcome => exact h.timer hmay hstep
      | writeEvent soError =>
        rw [Connector.step, if_neg (by rw [h.idle.not_registered]; exact Bool.false_ne_true)] at hstep
        cases hstep
        exact h.nothing _
      | errorEvent soError =>
        rw [Connector.step, if_neg (by rw [h.idle.not_registered]; exact Bool.false_ne_true)] at hstep
        cases hstep
        exact h.nothing _

theorem start_spaced {inLoopThread : Bool}
    (hs : step ⟨.new, t₀, []⟩ (.connector (.start inLoopThread outcome)) = .ok s) :
    Spaced t₀ s ∧ ((inLoopThread = true → retries outcome = true) → Live s) := by
  have hpast : timeStampNow t₀ + totalMs 0 * 1000 ≤ timeStampNow t₀ := by
    rw [totalMs, Finset.sum_range_zero, Nat.zero_mul, Nat.add_zero]
  rcases step_cases hs with ⟨hmay, -⟩ | ⟨-, c, hstep, rfl⟩
  · cases hmay
  · cases inLoopThread with
    | true =>
      have hidle : Idle { Connector.new with connect_ := true } := ⟨rfl, rfl, rfl, rfl⟩
      have hattempt := spaced_of_attempt (s := ⟨.new, t₀, []⟩) (hidle.attempt hstep) rfl rfl rfl hpast
      exact ⟨hattempt.1, fun hretries => hattempt.2 rfl (hretries rfl)⟩
    | false =>
      cases hstep
      exact ⟨⟨⟨rfl, rfl, rfl, rfl⟩, hpast, .queued rfl rfl rfl rfl rfl⟩, fun _ => ⟨rfl, rfl⟩⟩

theorem Spaced.pending_le (h : Spaced t₀ s) : s.pending ≤ 1 := by
  rw [pending]
  rcases h.next with ⟨ht, -, hf, -⟩ | ⟨d, wake, ht, -, hf, -⟩ | ⟨ht, -, hf⟩
  · rw [ht, hf]
    exact le_rfl
  · rw [ht, hf]
    exact le_rfl
  · rw [ht, hf]
    exact zero_le_one

/-- Seven attempts in the first half minute, and one in every half minute behind it. -/
theorem Spaced.created_le (h : Spaced t₀ s) :
    s.connector.created ≤ 7 + (s.now + 999999 - t₀) / 30000000 := by
  rcases Nat.lt_or_ge s.connector.created 8 with hfew | hmany
  · omega
  · have hpast := h.past
    have hstart := lt_timeStampNow_add t₀
    have hend := timeStampNow_le s.now
    rw [show s.connector.created - 1 = 6 + (s.connector.created - 7) by omega, totalMs_six_add]
      at hpast
    omega

end ConnectorClock

end Czy.Net
