import Czy.Lib.Run
import Czy.Proofs.Registration

/-! What a channel makes of the events the poller reports to it. -/

namespace Czy.Net

open StepRun

inductive Callback
  | close | error | read | write
  deriving DecidableEq, Repr

namespace Callback

def all : List Callback := [.close, .error, .read, .write]

/-- The events a callback is for. -/
def raisedBy (r : Mask) : Callback → Bool
  | close => r.test POLLHUP && !r.test POLLIN
  | error => r.test POLLERR || r.test POLLNVAL
  | read => r.test POLLIN || r.test POLLPRI || r.test POLLRDHUP
  | write => r.test POLLOUT

theorem filter_all (p : Callback → Bool) : all.filter p =
    (if p close then [close] else []) ++ (if p error then [error] else []) ++
      (if p read then [read] else []) ++ if p write then [write] else [] := by
  change ([close] ++ [error] ++ [read] ++ [write]).filter p = _
  simp only [List.filter_append, List.filter_singleton, cond_eq_ite]

end Callback

/-- A channel, whether `tie_` still finds its owner, and the callbacks invoked so far. -/
structure Dispatcher where
  channel : Channel
  alive : Bool
  called : List Callback

/-- `set` has the callbacks that are set when the event comes, with the calls on
the channel that each of them makes. -/
inductive DispatchOp
  | tie
  | ownerDies
  | change (ch : Change)
  | event (revents : Mask) (set : Callback → Option (List Change))

namespace Dispatcher

def new (fd : ℕ) : Dispatcher := ⟨Channel.new fd, false, []⟩

def holder : Channel.Holder Dispatcher := ⟨channel, fun s c => { s with channel := c }⟩

def invoke (k : Callback) (chs : List Change) (s : Dispatcher) : Dispatcher :=
  { s with channel := chs.foldl (fun c ch => ch.apply c) s.channel, called := s.called ++ [k] }

def callbacks (set : Callback → Option (List Change)) : Channel.Callbacks Dispatcher where
  read := (set .read).map fun chs s => .ok (invoke .read chs s)
  write := (set .write).map fun chs s => .ok (invoke .write chs s)
  close := (set .close).map fun chs s => .ok (invoke .close chs s)
  error := (set .error).map fun chs s => .ok (invoke .error chs s)

def delivers (s : Dispatcher) : Bool := !s.channel.tied || s.alive

/-- The callbacks an event is to invoke, in order. -/
def due (s : Dispatcher) (revents : Mask) (set : Callback → Option (List Change)) : List Callback :=
  if s.delivers then Callback.all.filter fun k => k.raisedBy revents && (set k).isSome else []

end Dispatcher

namespace DispatchOp

def step (s : Dispatcher) : DispatchOp → Except Fault Dispatcher
  | tie => .ok { s with channel := s.channel.tie, alive := true }
  | ownerDies => .ok { s with alive := false }
  | change ch => .ok { s with channel := ch.apply s.channel }
  | event revents set => Channel.handleEvent Dispatcher.holder (Dispatcher.callbacks set) s.alive
      { s with channel := s.channel.setRevents revents }

/-- An event invokes what is due, and leaves `eventHandling_` false. -/
def Right (s : Dispatcher) (o : DispatchOp) (s' : Dispatcher) : Prop :=
  ∀ revents set, o = event revents set →
    s'.called = s.called ++ s.due revents set ∧ s'.channel.eventHandling = false

/-- The error callback is reached by POLLIN: that is no harm when there is none, or
when POLLIN comes exactly with an error. -/
def ErrorsAsInput (s : Dispatcher) : DispatchOp → Prop
  | event revents set => s.delivers = true → (set .error).isSome = true →
    revents.test POLLIN = (revents.test POLLERR || revents.test POLLNVAL)
  | _ => True

instance (s : Dispatcher) (o : DispatchOp) : Decidable (ErrorsAsInput s o) :=
  match o with
  | event _ _ => inferInstanceAs (Decidable (_ → _ → _))
  | tie | ownerDies | change _ => .isTrue trivial

end DispatchOp

/-! Masks -/

theorem Mask.test_bits_or (m a b : Mask) : m.test (a ||| b) = (m.test a || m.test b) := by
  unfold Mask.test
  rw [BitVec.and_or_distrib_left, Bool.eq_iff_iff]
  simp [BitVec.or_eq_zero_iff, imp_iff_not_or]

/-- The mask of the error branch has one bit, that of POLLIN. -/
theorem Channel.errOrNval_eq : errOrNval = POLLIN := by decide

namespace Dispatcher

variable {s s' s'' : Dispatcher} {ks ks' : List Callback}

structure Calls (ks : List Callback) (s s' : Dispatcher) : Prop where
  called : s'.called = s.called ++ ks
  revents : s'.channel.revents = s.channel.revents
  tied : s'.channel.tied = s.channel.tied
  alive : s'.alive = s.alive

theorem Calls.trans (h : Calls ks s s') (h' : Calls ks' s' s'') : Calls (ks ++ ks') s s'' :=
  ⟨by rw [h'.called, h.called, List.append_assoc], h'.revents.trans h.revents,
    h'.tied.trans h.tied, h'.alive.trans h.alive⟩

theorem invoke_calls (k : Callback) (chs : List Change) (s : Dispatcher) :
    Calls [k] s (invoke k chs s) := by
  have hkeep : ∀ (chs : List Change) (c : Channel),
      (chs.foldl (fun c ch => ch.apply c) c).revents = c.revents ∧
        (chs.foldl (fun c ch => ch.apply c) c).tied = c.tied := by
    intro chs
    induction chs with
    | nil => exact fun c => ⟨rfl, rfl⟩
    | cons ch chs ih =>
      intro c
      obtain ⟨hr, ht⟩ := ih (ch.apply c)
      rw [List.foldl_cons, hr, ht]
      cases ch <;> exact ⟨rfl, rfl⟩
  exact ⟨rfl, (hkeep chs s.channel).1, (hkeep chs s.channel).2, rfl⟩

theorem callIf_calls (b : Bool) (cb : Option (List Change)) (k : Callback) (s : Dispatcher) :
    ∃ s', Channel.callIf b (cb.map fun chs s => .ok (invoke k chs s)) s = .ok s' ∧
      Calls (if b && cb.isSome then [k] else []) s s' := by
  have hnone : Calls [] s s := ⟨(List.append_nil _).symm, rfl, rfl, rfl⟩
  cases b with
  | false => exact ⟨s, rfl, hnone⟩
  | true =>
    cases cb with
    | none => exact ⟨s, rfl, hnone⟩
    | some chs => exact ⟨_, rfl, invoke_calls k chs s⟩

variable {r : Mask} {set : Callback → Option (List Change)}

def invoked (r : Mask) (set : Callback → Option (List Change)) : List Callback :=
  Callback.all.filter fun k =>
    (if k = .error then r.test POLLIN else k.raisedBy r) && (set k).isSome

theorem handleEventWithGuard_calls (s : Dispatcher) (set : Callback → Option (List Change)) :
    ∃ s', Channel.handleEventWithGuard holder (callbacks set) s = .ok s' ∧
      s'.channel.eventHandling = false ∧ Calls (invoked s.channel.revents set) s s' := by
  let s₀ : Dispatcher := { s with channel := { s.channel with eventHandling := true } }
  have h₀ : Calls [] s s₀ := ⟨(List.append_nil _).symm, rfl, rfl, rfl⟩
  obtain ⟨s₁, hclose, hc₁⟩ := callIf_calls
    (s₀.channel.revents.test POLLHUP && !s₀.channel.revents.test POLLIN) (set .close) .close s₀
  obtain ⟨s₂, herror, hc₂⟩ := callIf_calls
    (s₁.channel.revents.test Channel.errOrNval) (set .error) .error s₁
  obtain ⟨s₃, hread, hc₃⟩ := callIf_calls
    (s₂.channel.revents.test (POLLIN ||| POLLPRI ||| POLLRDHUP)) (set .read) .read s₂
  obtain ⟨s₄, hwrite, hc₄⟩ := callIf_calls (s₃.channel.revents.test POLLOUT) (set .write) .write s₃
  have h₁ := h₀.trans hc₁
  have h₂ := h₁.trans hc₂
  have h₃ := h₂.trans hc₃
  have h₄ := h₃.trans hc₄
  refine ⟨{ s₄ with channel := { s₄.channel with eventHandling := false } }, ?_, rfl, ?_⟩
  · unfold Channel.handleEventWithGuard
    simp only [holder, callbacks]
    rw [hclose, ok_bind, herror, ok_bind, hread, ok_bind, hwrite]
    rfl
  · refine ⟨h₄.called.trans ?_, h₄.revents, h₄.tied, h₄.alive⟩
    rw [h₁.revents, h₂.revents, h₃.revents, Mask.test_bits_or, Mask.test_bits_or,
      Channel.errOrNval_eq]
    simp [invoked, Callback.filter_all, Callback.raisedBy, s₀]

theorem invoked_eq_iff :
    invoked r set = Callback.all.filter (fun k => k.raisedBy r && (set k).isSome) ↔
      ((set .error).isSome = true → r.test POLLIN = (r.test POLLERR || r.test POLLNVAL)) := by
  constructor
  · intro heq hset
    have hmem : .error ∈ invoked r set ↔ .error ∈
        Callback.all.filter (fun k => k.raisedBy r && (set k).isSome) := by rw [heq]
    rw [Bool.eq_iff_iff]
    simpa [invoked, Callback.all, Callback.raisedBy, hset] using hmem
  · intro herror
    refine List.filter_congr fun k _ => ?_
    by_cases hk : k = .error
    · subst hk
      cases hset : (set .error).isSome with
      | false => simp
      | true => simpa [Callback.raisedBy] using herror hset
    · rw [if_neg hk]

theorem handleEvent_calls (s : Dispatcher) (set : Callback → Option (List Change))
    (h : s.channel.eventHandling = false) :
    ∃ s', Channel.handleEvent holder (callbacks set) s.alive s = .ok s' ∧
      s'.channel.eventHandling = false ∧
        Calls (if s.delivers then invoked s.channel.revents set else []) s s' := by
  obtain ⟨s', hs', hend, hcalls⟩ := handleEventWithGuard_calls s set
  have hnone : Calls [] s s := ⟨(List.append_nil _).symm, rfl, rfl, rfl⟩
  have hget : (holder.get s).tied = s.channel.tied := rfl
  unfold Channel.handleEvent delivers
  rw [hget]
  cases s.channel.tied with
  | false => exact ⟨s', hs', hend, hcalls⟩
  | true =>
    cases s.alive with
    | false => exact ⟨s, rfl, h, hnone⟩
    | true => exact ⟨s', hs', hend, hcalls⟩

end Dispatcher

namespace DispatchOp

variable {s s' : Dispatcher} {o : DispatchOp}

theorem step_eventHandling (h : s.channel.eventHandling = false) (hs : step s o = .ok s') :
    s'.channel.eventHandling = false := by
  cases o with
  | tie => cases hs; exact h
  | ownerDies => cases hs; exact h
  | change ch => cases hs; cases ch <;> exact h
  | event revents set =>
    obtain ⟨t, ht, hend, -⟩ := Dispatcher.handleEvent_calls
      { s with channel := s.channel.setRevents revents } set h
    simp only [step] at hs
    rw [ht] at hs
    cases hs
    exact hend

theorem event_right_iff (h : s.channel.eventHandling = false) (revents : Mask)
    (set : Callback → Option (List Change)) :
    (∃ s', step s (event revents set) = .ok s' ∧ Right s (event revents set) s') ↔
      ErrorsAsInput s (event revents set) := by
  obtain ⟨t, ht, hend, hcalls⟩ := Dispatcher.handleEvent_calls
    { s with channel := s.channel.setRevents revents } set h
  have hright : Right s (event revents set) t ↔
      (if s.delivers then Dispatcher.invoked revents set else []) = s.due revents set := by
    have hcalled : t.called = s.called ++ if s.delivers then Dispatcher.invoked revents set else [] :=
      hcalls.called
    constructor
    · intro hr
      rw [(hr revents set rfl).1] at hcalled
      exact (List.append_cancel_left hcalled).symm
    · rintro hdue revents' set' he
      cases he
      exact ⟨by rw [hcalled, hdue], hend⟩
  have hstep : (∃ s', step s (event revents set) = .ok s' ∧ Right s (event revents set) s') ↔
      Right s (event revents set) t := by
    refine ⟨fun ⟨s', hs', hr⟩ => ?_, fun hr => ⟨t, ht, hr⟩⟩
    obtain rfl : s' = t := by
      simp only [step] at hs'
      rw [ht] at hs'
      cases hs'
      rfl
    exact hr
  rw [hstep, hright]
  unfold Dispatcher.due ErrorsAsInput
  cases s.delivers with
  | false => simp
  | true => simpa using Dispatcher.invoked_eq_iff

theorem step_right_iff (h : s.channel.eventHandling = false) :
    (∃ s', step s o = .ok s' ∧ Right s o s') ↔ ErrorsAsInput s o := by
  cases o with
  | tie => exact iff_of_true ⟨_, rfl, fun _ _ he => by cases he⟩ trivial
  | ownerDies => exact iff_of_true ⟨_, rfl, fun _ _ he => by cases he⟩ trivial
  | change ch => exact iff_of_true ⟨_, rfl, fun _ _ he => by cases he⟩ trivial
  | event revents set => exact event_right_iff h revents set

end DispatchOp

/-- Every event of a run is dispatched to the callbacks it is for exactly when, along
the run, POLLIN reaches no error callback without an error, and no error goes by it. -/
theorem dispatch_iff (fd : ℕ) (ops : List DispatchOp) :
    Holds DispatchOp.step DispatchOp.Right (Dispatcher.new fd) ops ↔
      Along DispatchOp.step DispatchOp.ErrorsAsInput (Dispatcher.new fd) ops :=
  holds_iff_along (I := fun s => s.channel.eventHandling = false) (P := fun _ _ => True)
    (fun _ _ h _ => DispatchOp.step_right_iff h)
    (fun _ _ _ h _ hs _ => DispatchOp.step_eventHandling h hs) rfl (along_true _ _)

/-- An event that is only readable is taken for an error. -/
theorem dispatch_readable_as_error :
    ¬ Holds DispatchOp.step DispatchOp.Right (Dispatcher.new 5)
      [.tie, .event POLLIN fun _ => some []] := by
  rintro ⟨s₁, hs₁, -, s₂, hs₂, hr, -⟩
  cases hs₁
  have hcalled := (hr _ _ rfl).1
  cases hs₂
  revert hcalled
  decide

end Czy.Net
