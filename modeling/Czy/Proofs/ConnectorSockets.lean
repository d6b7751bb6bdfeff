import Czy.Lib.Run
import Czy.Spec.Connector

/-! Where the sockets of a connector go. A connection attempt that the kernel does not refuse
at once ends in the use of a channel that nothing has made; until then every socket is
closed in the step that makes it. -/

namespace Czy.Net.Connector

open StepRun

variable {c c' : Connector} {o : Operation} {outcome : Option Errno}

def held (c : Connector) : List ℕ :=
  (c.channel.filter fun channel => !channel.removed).toList.map ConnectorChannel.fd

/-- Every socket made is in one place, once. -/
structure Owned (c : Connector) : Prop where
  place : ∀ sockfd, c.held.count sockfd + c.closed.count sockfd + c.passed.count sockfd =
    if sockfd < c.created then 1 else 0
  pending : ∀ j < c.created, ∀ k < c.created, j ∉ c.closed → j ∉ c.passed →
    k ∉ c.closed → k ∉ c.passed → j = k
  connecting : c.state = .KConnecting ↔ c.registered = true

/-- What an operation is to keep: the sockets are owned, and `newConnectionCallback_` is
called only for a wanted connection without an error. -/
structure Sound (c : Connector) (o : Operation) (c' : Connector) : Prop where
  owned : Owned c'
  callback : c'.passed ≠ c.passed → c.connect_ = true ∧ o = .writeEvent 0

def proceeds : Option Errno → Bool
  | none | some .EINPROGRESS | some .EINTR | some .EISCONN => true
  | _ => false

def connectOutcome (c : Connector) : Operation → Option (Option Errno)
  | .start true outcome | .restart outcome => some outcome
  | .functor i outcome =>
    if c.functors[i]? = some .startInLoop ∧ c.connect_ = true then some outcome else none
  | .timer i outcome => if i < c.timers.length ∧ c.connect_ = true then some outcome else none
  | _ => none

/-- Every socket has been closed, and there is no channel. -/
structure Idle (c : Connector) : Prop where
  state : c.state = .KDisconnected
  channel : c.channel = none
  closed : c.closed = List.range c.created
  passed : c.passed = []

theorem idle_new : Idle new := ⟨rfl, rfl, rfl, rfl⟩

theorem Idle.not_registered (h : Idle c) : c.registered = false := by
  rw [registered, h.channel]
  rfl

theorem Idle.owned (h : Idle c) : Owned c where
  place sockfd := by
    rw [held, h.channel, h.closed, h.passed, List.count_range]
    simp
  pending j hj _ _ hclosed := by
    rw [h.closed, List.mem_range] at hclosed
    exact absurd hj hclosed
  connecting := by
    rw [h.state, h.not_registered]
    exact ⟨nofun, nofun⟩

theorem connect_cases (c : Connector) (outcome : Option Errno) :
    (proceeds outcome = true ∧
      c.connect outcome = { c with created := c.created + 1 }.connecting c.created) ∨
    (proceeds outcome = false ∧
      c.connect outcome = .ok ({ c with created := c.created + 1 }.retry c.created)) ∨
    (proceeds outcome = false ∧
      c.connect outcome = .ok ({ c with created := c.created + 1 }.close c.created)) := by
  rcases outcome with _ | e
  · exact .inl ⟨rfl, rfl⟩
  · cases e
    case EINPROGRESS | EINTR | EISCONN => exact .inl ⟨rfl, rfl⟩
    case EAGAIN | EADDRINUSE | EADDRNOTAVAIL | ECONNREFUSED | ENETUNREACH =>
      exact .inr (.inl ⟨rfl, rfl⟩)
    all_goals exact .inr (.inr ⟨rfl, rfl⟩)

theorem Idle.close_created (h : Idle c) : Idle ({ c with created := c.created + 1 }.close c.created) where
  state := h.state
  channel := h.channel
  closed := by
    change c.closed ++ [c.created] = List.range (c.created + 1)
    rw [h.closed, List.range_succ]
  passed := h.passed

theorem Idle.retry_created (h : Idle c) :
    Idle ({ c with created := c.created + 1 }.retry c.created) := by
  have hclose := h.close_created
  unfold retry
  dsimp only
  split
  · exact ⟨rfl, hclose.channel, hclose.closed, hclose.passed⟩
  · exact ⟨rfl, hclose.channel, hclose.closed, hclose.passed⟩

/-- Without a channel a connection attempt gets nowhere. -/
theorem connecting_error (h : c.channel = none) (sockfd : ℕ) :
    c.connecting sockfd = .error (.badPointer "channel_") := by
  have hchannel : (c.setState .KConnecting).channel = none := h
  unfold connecting
  dsimp only
  rw [check_bind hchannel, hchannel]
  rfl

theorem Idle.startInLoop_cases (h : Idle c) (outcome : Option Errno) :
    (c.connect_ = true ∧ proceeds outcome = true ∧
      c.startInLoop outcome = .error (.badPointer "channel_")) ∨
    (¬ (c.connect_ = true ∧ proceeds outcome = true) ∧
      ∃ c', c.startInLoop outcome = .ok c' ∧ Idle c') := by
  have heq : c.startInLoop outcome = if c.connect_ then c.connect outcome else .ok c := by
    unfold startInLoop
    rw [check_bind h.state]
    rfl
  rw [heq]
  by_cases hconn : c.connect_ = true
  · rw [if_pos hconn]
    rcases connect_cases c outcome with ⟨hp, hok⟩ | ⟨hp, hok⟩ | ⟨hp, hok⟩
    · refine .inl ⟨hconn, hp, hok.trans ?_⟩
      exact connecting_error (c := { c with created := c.created + 1 }) h.channel _
    · exact .inr ⟨fun hboth => Bool.eq_false_iff.1 hp hboth.2, _, hok, h.retry_created⟩
    · exact .inr ⟨fun hboth => Bool.eq_false_iff.1 hp hboth.2, _, hok, h.close_created⟩
  · rw [if_neg hconn]
    exact .inr ⟨fun hboth => hconn hboth.1, c, rfl, h⟩

theorem Idle.step_cases (h : Idle c) (o : Operation) :
    (∃ c₁ outcome, Idle c₁ ∧ c.step o = c₁.startInLoop outcome ∧
      c.connectOutcome o = if c₁.connect_ = true then some outcome else none) ∨
    (c.connectOutcome o = none ∧ ∃ c', c.step o = .ok c' ∧ Idle c') := by
  cases o with
  | start inLoopThread outcome =>
    cases inLoopThread with
    | true => exact .inl ⟨{ c with connect_ := true }, outcome, ⟨h.1, h.2, h.3, h.4⟩, rfl, rfl⟩
    | false => exact .inr ⟨rfl, _, rfl, ⟨h.1, h.2, h.3, h.4⟩⟩
  | stop => exact .inr ⟨rfl, _, rfl, ⟨h.1, h.2, h.3, h.4⟩⟩
  | restart outcome =>
    exact .inl ⟨{ c.setState .KDisconnected with
      retryDelayMs := KInitRetryDelayMs
      connect_ := true }, outcome, ⟨rfl, h.2, h.3, h.4⟩, rfl, rfl⟩
  | functor i outcome =>
    simp only [step, connectOutcome]
    cases hf : c.functors[i]? with
    | none => exact .inr ⟨if_neg (by simp), c, rfl, h⟩
    | some f =>
      cases f with
      | startInLoop =>
        refine .inl ⟨{ c with functors := c.functors.eraseIdx i }, outcome, ⟨h.1, h.2, h.3, h.4⟩, rfl, ?_⟩
        simp only [true_and]
      | stopInLoop => exact .inr ⟨if_neg (by simp), c, rfl, h⟩
      | resetChannel => exact .inr ⟨if_neg (by simp), _, rfl, ⟨h.1, rfl, h.3, h.4⟩⟩
  | timer i outcome =>
    simp only [step, connectOutcome]
    by_cases hi : i < c.timers.length
    · rw [if_pos hi]
      refine .inl ⟨{ c with timers := c.timers.eraseIdx i }, outcome, ⟨h.1, h.2, h.3, h.4⟩, rfl, ?_⟩
      simp only [hi, true_and]
    · rw [if_neg hi]
      exact .inr ⟨if_neg fun hboth => hi hboth.1, c, rfl, h⟩
  | writeEvent soError =>
    exact .inr ⟨rfl, c, if_neg (by rw [h.not_registered]; exact Bool.false_ne_true), h⟩
  | errorEvent soError =>
    exact .inr ⟨rfl, c, if_neg (by rw [h.not_registered]; exact Bool.false_ne_true), h⟩

theorem Idle.sound (h : Idle c) (h' : Idle c') : Sound c o c' where
  owned := h'.owned
  callback hne := absurd (h'.passed.trans h.passed.symm) hne

theorem Idle.step_iff (h : Idle c) (o : Operation) : (∃ c', c.step o = .ok c' ∧ Sound c o c') ↔
    ∀ outcome ∈ c.connectOutcome o, proceeds outcome = false := by
  rcases h.step_cases o with ⟨c₁, outcome, h₁, hstep, hout⟩ | ⟨hout, c', hs, h'⟩
  · rw [hstep, hout]
    rcases h₁.startInLoop_cases outcome with ⟨hconn, hp, herr⟩ | ⟨hnot, c', hs, h'⟩
    · rw [herr, if_pos hconn]
      refine ⟨nofun, fun hall => ?_⟩
      rw [hall outcome rfl] at hp
      cases hp
    · refine iff_of_true ⟨c', hs, h.sound h'⟩ ?_
      split
      next hconn =>
        rintro _ ⟨⟩
        exact Bool.eq_false_iff.2 fun hp => hnot ⟨hconn, hp⟩
      next => nofun
  · rw [hout]
    exact iff_of_true ⟨c', hs, h.sound h'⟩ nofun

theorem Idle.of_step (h : Idle c) (hs : c.step o = .ok c') : Idle c' := by
  rcases h.step_cases o with ⟨c₁, outcome, h₁, hstep, -⟩ | ⟨-, c'', hs', h'⟩
  · rw [hstep] at hs
    rcases h₁.startInLoop_cases outcome with ⟨-, -, herr⟩ | ⟨-, c'', hs', h'⟩
    · rw [herr] at hs
      cases hs
    · rw [hs'] at hs
      cases hs
      exact h'
  · rw [hs'] at hs
    cases hs
    exact h'

/-- In every run the sockets are owned exactly as long as no `connect` succeeds, is in progress
or is interrupted. -/
theorem sockets_sound_iff (ops : List Operation) : Holds step Sound new ops ↔
    Along step (fun c o => ∀ outcome ∈ c.connectOutcome o, proceeds outcome = false) new ops :=
  holds_iff_along (P := fun _ _ => True) (fun _ o h _ => h.step_iff o)
    (fun _ _ _ h _ hs _ => h.of_step hs) idle_new (along_true ops new)

/-- The first connection attempt that the kernel takes up. -/
theorem sockets_not_sound :
    ¬ Holds step Sound new [.start true (some .EINPROGRESS)] := by
  rintro ⟨c', hs, -⟩
  cases hs

end Czy.Net.Connector
