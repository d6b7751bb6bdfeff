import Czy.Sanity.Lifecycle
import Czy.Sanity.Poller
import Czy.Spec.AttachedConnection

/-! What `connectDestory` leaves of a connection and in its poller. -/

namespace Czy.Net

open EPollPoller StepRun

namespace AttachedConnection

variable {ι : Type} [DecidableEq ι]

/-- The connection is disconnected and without interest in events, and the poller does not know
its fd; no assertion has failed. -/
def TearsDown (s : AttachedConnection ι) (calls : List UserCall) : Prop :=
  ∃ s', s.connectDestory calls = .ok s' ∧ s'.conn.state = .KDisconnected ∧
    s'.conn.channel.events = 0 ∧ s'.poller.channels s.conn.channel.fd = none ∧
    s'.poller.kernel s.conn.channel.fd = none

def Updatable (p : EPollPoller ι) (ptr : ι) (c : Channel) : Prop :=
  c.index = KNew ∧ p.channels c.fd = none ∧ p.kernel c.fd = none ∨
    c.index = KAdded ∧ p.channels c.fd ≠ none ∨
    c.index = KDeleted ∧ p.channels c.fd = some ptr ∧ p.kernel c.fd = none

def Removable (p : EPollPoller ι) (c : Channel) : Prop :=
  p.channels c.fd ≠ none ∧ (c.index = KAdded ∨ c.index = KDeleted ∧ p.kernel c.fd = none)

/-- No events were last delivered, and the connection is still connected, or has been
disconnected with nothing enabled since; the poller knows its channel. -/
def Prepared (s : AttachedConnection ι) : Prop :=
  s.conn.channel.revents = 0 ∧
    (s.conn.state = .KConnected ∧ Updatable s.poller s.ptr s.conn.channel ∨
      s.conn.state = .KDisconnected ∧ s.conn.channel.events = 0 ∧ Removable s.poller s.conn.channel)

variable {p : EPollPoller ι} {ptr : ι} {ch : Channel}

theorem isNoneEvent_iff : ch.isNoneEvent = true ↔ ch.revents = 0 := by
  simp [Channel.isNoneEvent, Channel.KNoneEvent]

theorem update_updatable (hr : ch.revents = 0) :
    (∃ r, p.updateChannel ptr ch = .ok r) ↔ Updatable p ptr ch := by
  have hnone := isNoneEvent_iff.2 hr
  by_cases hnew : ch.index = KNew
  · simp [-IsEmpty.exists_iff, updateChannel_new hnew, Updatable, hnew, KNew, KAdded, KDeleted]
  by_cases hadd : ch.index = KAdded
  · simp [-IsEmpty.exists_iff, updateChannel_added hadd, hnone, Updatable, hadd, KNew, KAdded, KDeleted]
  by_cases hdel : ch.index = KDeleted
  · simp [-IsEmpty.exists_iff, updateChannel_deleted hdel, Updatable, hdel, KNew, KAdded, KDeleted]
  · refine iff_of_false (fun ⟨r, h⟩ => updateChannel_unknown hnew hadd hdel h) ?_
    rintro (h | h | h)
    · exact hnew h.1
    · exact hadd h.1
    · exact hdel h.1

theorem update_kept {r : EPollPoller ι × Channel} (hr : ch.revents = 0)
    (hu : p.updateChannel ptr ch = .ok r) :
    r.2.fd = ch.fd ∧ r.2.revents = 0 ∧ Updatable r.1 ptr r.2 ∧ Removable r.1 r.2 := by
  have hnone := isNoneEvent_iff.2 hr
  rcases update_updatable hr |>.1 ⟨r, hu⟩ with ⟨hnew, -⟩ | ⟨hadd, -⟩ | ⟨hdel, -⟩
  · obtain ⟨-, -, rfl⟩ := (updateChannel_new hnew).1 hu
    simp [Channel.setIndex, hr, Updatable, Removable]
  · obtain ⟨-, h⟩ := (updateChannel_added hadd).1 hu
    rw [if_pos hnone] at h
    subst h
    simp [Channel.setIndex, hr, Updatable, Removable]
  · obtain ⟨-, -, rfl⟩ := (updateChannel_deleted hdel).1 hu
    simp [Channel.setIndex, hr, Updatable, Removable]

omit [DecidableEq ι] in
theorem remove_iff {fd : ℕ} (hfd : ch.fd = fd) (hr : ch.revents = 0) :
    (∃ r, p.removeChannel ptr ch = .ok r ∧ r.1.channels fd = none ∧ r.1.kernel fd = none) ↔
      Removable p ch := by
  subst hfd
  have hnone := isNoneEvent_iff.2 hr
  simp only [removeChannel_ok]
  constructor
  · rintro ⟨r, ⟨hin, -, hindex, rfl⟩, -, hkernel⟩
    refine ⟨hin, hindex.imp_right fun hdel => ⟨hdel, ?_⟩⟩
    have hne : ch.index ≠ KAdded := by rw [hdel]; decide
    rwa [if_neg hne] at hkernel
  · rintro ⟨hin, hadd | ⟨hdel, hkernel⟩⟩
    · refine ⟨_, ⟨hin, hnone, .inl hadd, rfl⟩, Function.update_self _ _ _, ?_⟩
      rw [if_pos hadd]
      exact Function.update_self _ _ _
    · refine ⟨_, ⟨hin, hnone, .inr hdel, rfl⟩, Function.update_self _ _ _, ?_⟩
      have hne : ch.index ≠ KAdded := by rw [hdel]; decide
      rw [if_neg hne]
      exact hkernel

end AttachedConnection

namespace TcpConnection

variable {c c' : TcpConnection}

structure Idles (n : ℕ) (c c' : TcpConnection) : Prop where
  effects : c'.effects = c.effects ++ List.replicate n (Effect.updateChannel 0)
  state : c'.state = .KDisconnected
  events : c'.channel.events = 0
  fd : c'.channel.fd = c.channel.fd
  revents : c'.channel.revents = c.channel.revents

theorem stopReadInLoop_idles (hs : c.state = .KDisconnected) (he : c.channel.events = 0) :
    ∃ n, Idles n c c.stopReadInLoop := by
  unfold stopReadInLoop
  have hmask : c.channel.disableReading.events = 0 := by
    change c.channel.events &&& _ = 0
    rw [he]
    exact BitVec.zero_and
  split_ifs
  · exact ⟨1, by rw [← hmask]; rfl, hs, hmask, rfl, rfl⟩
  · exact ⟨0, (List.append_nil _).symm, hs, he, rfl, rfl⟩

theorem call_idles (hs : c.state = .KDisconnected) (he : c.channel.events = 0) (u : UserCall) :
    ∃ n c', c.call true u = .ok c' ∧ Idles n c c' := by
  have hsame : Idles 0 c c := ⟨(List.append_nil _).symm, hs, he, rfl, rfl⟩
  have hconn : c.state ≠ .KConnected := by rw [hs]; decide
  have hopen : ¬ (c.state = .KConnected ∨ c.state = .KDisConnecting) := by rw [hs]; decide
  cases u with
  | send message w => exact ⟨0, c, if_neg hconn, hsame⟩
  | shutdown => exact ⟨0, c, if_neg hconn, hsame⟩
  | forceClose => exact ⟨0, c, congrArg _ (if_neg hopen), hsame⟩
  | forceCloseWithDealy => exact ⟨0, c, congrArg _ (if_neg hopen), hsame⟩
  | stopRead =>
    obtain ⟨n, hidles⟩ := stopReadInLoop_idles hs he
    exact ⟨n, _, rfl, hidles⟩

theorem userCallback_idles (hs : c.state = .KDisconnected) (he : c.channel.events = 0)
    (calls : List UserCall) : ∃ n c', c.userCallback calls = .ok c' ∧ Idles n c c' := by
  induction calls generalizing c with
  | nil => exact ⟨0, c, rfl, (List.append_nil _).symm, hs, he, rfl, rfl⟩
  | cons u us ih =>
    obtain ⟨n, c₁, hc₁, h₁⟩ := call_idles hs he u
    obtain ⟨m, c', hc', h'⟩ := ih h₁.state h₁.events
    refine ⟨n + m, c', ?_, ?_, h'.state, h'.events, h'.fd.trans h₁.fd, h'.revents.trans h₁.revents⟩
    · rw [userCallback, List.foldlM_cons, hc₁, ok_bind]
      exact hc'
    · rw [h'.effects, h₁.effects, List.append_assoc, List.replicate_append_replicate]

def removed (c : TcpConnection) : TcpConnection :=
  { c.emit .removeChannel with channel := { c.channel with addToLoop := false } }

theorem removeChannel_ok :
    c.removeChannel = .ok c' ↔ c.channel.revents = 0 ∧ c' = c.removed := by
  rw [← AttachedConnection.isNoneEvent_iff]
  constructor
  · intro h
    obtain ⟨ch, hch, hc'⟩ := bind_ok.1 h
    obtain ⟨hnone, hch⟩ := require_bind_ok.1 hch
    cases hch
    cases hc'
    exact ⟨hnone, rfl⟩
  · rintro ⟨hnone, rfl⟩
    rw [removeChannel, Channel.remove, require_bind hnone]
    rfl

theorem connectDestory_connected (hs : c.state = .KConnected) (calls : List UserCall) :
    ∃ (n : ℕ) (c' : TcpConnection), c.connectDestory calls = c'.removeChannel ∧
      c'.state = .KDisconnected ∧ c'.channel.events = 0 ∧ c'.channel.fd = c.channel.fd ∧
      c'.channel.revents = c.channel.revents ∧
      c'.effects = c.effects ++ [Effect.setState .KDisconnected, .updateChannel 0,
        .connectionCallback false] ++ List.replicate n (Effect.updateChannel 0) := by
  obtain ⟨n, c', hok, h⟩ := userCallback_idles
    (c := ((c.setState .KDisconnected).updateChannel .disAbleAll).emit (.connectionCallback false))
    rfl rfl calls
  refine ⟨n, c', ?_, h.state, h.events, h.fd, h.revents, ?_⟩
  · rw [connectDestory, if_pos hs]
    exact (congrArg (· >>= removeChannel) hok).trans (ok_bind _ _)
  · rw [h.effects]
    simp [emit, updateChannel, setState, Channel.disAbleAll, Channel.update, Channel.KNoneEvent]

end TcpConnection

namespace AttachedConnection

variable {ι : Type} [DecidableEq ι] {s s' : AttachedConnection ι} {c : TcpConnection}
  {f : TcpConnection → Except Fault TcpConnection} {es : List Effect}

theorem perform_ok (hf : f s.conn = .ok c) (he : c.effects = s.conn.effects ++ es) :
    s.perform f = .ok s' ↔ ∃ r, run (carryOut s.ptr)
        (s.poller, c.channel.setIndex s.conn.channel.index) es = .ok r ∧
      s' = { s with conn := { c with channel := c.channel.setIndex r.2.index }, poller := r.1 } := by
  rw [perform, hf, ok_bind, he, List.drop_left, bind_ok]
  refine exists_congr fun r => and_congr_right fun _ => ?_
  exact ⟨fun h => by cases h; rfl, fun h => by rw [h]; rfl⟩

omit [DecidableEq ι] in
theorem Updatable.congr {p : EPollPoller ι} {ptr : ι} {ch ch' : Channel} (hfd : ch'.fd = ch.fd)
    (hindex : ch'.index = ch.index) : Updatable p ptr ch' ↔ Updatable p ptr ch := by
  unfold Updatable
  rw [hfd, hindex]

theorem carryOut_update {ptr : ι} {r : EPollPoller ι × Channel} (hr : r.2.revents = 0)
    (hup : Updatable r.1 ptr r.2) : ∃ r', carryOut ptr r (.updateChannel 0) = .ok r' ∧
      r'.2.fd = r.2.fd ∧ r'.2.revents = 0 ∧ Updatable r'.1 ptr r'.2 ∧ Removable r'.1 r'.2 := by
  obtain ⟨p, ch⟩ := r
  have hdisabled : Channel.revents { ch with events := 0 } = 0 := hr
  obtain ⟨r', hr'⟩ := (update_updatable hdisabled).2 ((Updatable.congr rfl rfl).2 hup)
  have hkept := update_kept hdisabled hr'
  exact ⟨r', hr', hkept⟩

theorem run_updates {ptr : ι} (n : ℕ) : ∀ {r : EPollPoller ι × Channel}, r.2.revents = 0 →
    Updatable r.1 ptr r.2 → Removable r.1 r.2 →
    ∃ r', run (carryOut ptr) r (List.replicate n (.updateChannel 0)) = .ok r' ∧ r'.2.fd = r.2.fd ∧
      r'.2.revents = 0 ∧ Removable r'.1 r'.2 := by
  induction n with
  | zero => exact fun hr _ hrem => ⟨_, rfl, rfl, hr, hrem⟩
  | succ n ih =>
    intro r hr hup _
    obtain ⟨r₁, hr₁, hfd, hrev, hup', hrem'⟩ := carryOut_update hr hup
    obtain ⟨r', hr', hfd', hrev', hrem⟩ := ih hrev hup' hrem'
    exact ⟨r', by rw [List.replicate_succ, run_cons hr₁, hr'], hfd'.trans hfd, hrev', hrem⟩

theorem run_removal {p : EPollPoller ι} {ptr : ι} {ch : Channel} (hr : ch.revents = 0) :
    (∃ r, run (carryOut ptr) (p, ch) [.removeChannel] = .ok r ∧ r.1.channels ch.fd = none ∧
      r.1.kernel ch.fd = none) ↔ Removable p ch := by
  refine Iff.trans ⟨?_, ?_⟩ (remove_iff rfl hr : (∃ r, p.removeChannel ptr ch = .ok r ∧ _) ↔ _)
  · rintro ⟨r, hrun, hgone⟩
    obtain ⟨t, ht, hrest⟩ := run_cons_ok hrun
    cases hrest
    exact ⟨_, ht, hgone⟩
  · rintro ⟨r, hr', hgone⟩
    have hstep : carryOut ptr (p, ch) .removeChannel = .ok r := hr'
    exact ⟨r, by rw [run_cons hstep]; rfl, hgone⟩

def teardownEffects (n : ℕ) : List Effect :=
  .setState .KDisconnected :: .updateChannel 0 :: .connectionCallback false ::
    (List.replicate n (Effect.updateChannel 0) ++ [Effect.removeChannel])

theorem run_teardown {p : EPollPoller ι} {ptr : ι} {ch : Channel} (hr : ch.revents = 0) (n : ℕ) :
    (∃ r, run (carryOut ptr) (p, ch) (teardownEffects n) = .ok r ∧
      r.1.channels ch.fd = none ∧ r.1.kernel ch.fd = none) ↔ Updatable p ptr ch := by
  have hdisabled : Channel.revents { ch with events := 0 } = 0 := hr
  constructor
  · rintro ⟨r, hrun, -⟩
    obtain ⟨t, ht, hrun⟩ := run_cons_ok hrun
    cases ht
    obtain ⟨t, ht, -⟩ := run_cons_ok hrun
    exact (Updatable.congr rfl rfl).1 ((update_updatable hdisabled).1 ⟨t, ht⟩)
  · intro hup
    obtain ⟨r₁, hr₁, hfd₁, hrev₁, hup₁, hrem₁⟩ := carryOut_update (r := (p, ch)) hr hup
    obtain ⟨r₂, hr₂, hfd₂, hrev₂, hrem₂⟩ := run_updates n hrev₁ hup₁ hrem₁
    obtain ⟨r, hrm, hgone⟩ := (remove_iff (hfd₂.trans hfd₁) hrev₂).2 hrem₂
    refine ⟨r, ?_, hgone⟩
    have hstate : carryOut ptr (p, ch) (.setState .KDisconnected) = .ok (p, ch) := rfl
    have hcallback : carryOut ptr r₁ (.connectionCallback false) = .ok r₁ := rfl
    have hremove : carryOut ptr r₂ .removeChannel = .ok r := hrm
    rw [teardownEffects, run_cons hstate, run_cons hr₁, run_cons hcallback, run_append hr₂,
      run_cons hremove]
    rfl

theorem tearsDown_of_removal {calls : List UserCall}
    (hdestory : s.conn.connectDestory calls = c.removeChannel)
    (hrev : c.channel.revents = s.conn.channel.revents)
    (he : c.removed.effects = s.conn.effects ++ es) :
    TearsDown s calls ↔ s.conn.channel.revents = 0 ∧ c.state = .KDisconnected ∧ c.channel.events = 0 ∧
      ∃ r, run (carryOut s.ptr) (s.poller, c.removed.channel.setIndex s.conn.channel.index) es = .ok r ∧
        r.1.channels s.conn.channel.fd = none ∧ r.1.kernel s.conn.channel.fd = none := by
  have hok (hquiet : s.conn.channel.revents = 0) : s.conn.connectDestory calls = .ok c.removed := by
    rw [hdestory, TcpConnection.removeChannel_ok]
    exact ⟨hrev.trans hquiet, rfl⟩
  constructor
  · rintro ⟨s', hs', hstate, hevents, hgone⟩
    obtain ⟨c', hc', -⟩ := bind_ok.1 hs'
    have hquiet := hrev.symm.trans (TcpConnection.removeChannel_ok.1 (hdestory.symm.trans hc')).1
    obtain ⟨r, hr, rfl⟩ := (perform_ok (hok hquiet) he).1 hs'
    exact ⟨hquiet, hstate, hevents, r, hr, hgone⟩
  · rintro ⟨hquiet, hstate, hevents, r, hr, hgone⟩
    exact ⟨_, (perform_ok (hok hquiet) he).2 ⟨r, hr, rfl⟩, hstate, hevents, hgone⟩

theorem tearsDown_connected {calls : List UserCall} (hs : s.conn.state = .KConnected) :
    TearsDown s calls ↔ s.conn.channel.revents = 0 ∧ Updatable s.poller s.ptr s.conn.channel := by
  obtain ⟨n, c, hdestory, hstate, hevents, hfd, hrev, heff⟩ :=
    TcpConnection.connectDestory_connected hs calls
  have hremoved : c.removed.effects = s.conn.effects ++ teardownEffects n := by
    change c.effects ++ [.removeChannel] = _
    rw [heff, List.append_assoc, List.append_assoc]
    rfl
  rw [tearsDown_of_removal hdestory hrev hremoved, and_iff_right hstate, and_iff_right hevents, ← hfd]
  refine and_congr_right fun hr => ?_
  have hquiet : (c.removed.channel.setIndex s.conn.channel.index).revents = 0 := hrev.trans hr
  exact (run_teardown hquiet n).trans (Updatable.congr hfd rfl)

theorem tearsDown_other {calls : List UserCall} (hs : s.conn.state ≠ .KConnected) :
    TearsDown s calls ↔ s.conn.channel.revents = 0 ∧ s.conn.state = .KDisconnected ∧
      s.conn.channel.events = 0 ∧ Removable s.poller s.conn.channel := by
  have hdestory : s.conn.connectDestory calls = s.conn.removeChannel := if_neg hs
  rw [tearsDown_of_removal hdestory rfl rfl]
  refine and_congr_right fun hr => and_congr_right fun _ => and_congr_right fun _ => ?_
  have hquiet : (s.conn.removed.channel.setIndex s.conn.channel.index).revents = 0 := hr
  exact run_removal hquiet

theorem tearsDown_iff (s : AttachedConnection ι) (calls : List UserCall) :
    TearsDown s calls ↔ Prepared s := by
  unfold Prepared
  by_cases hs : s.conn.state = .KConnected
  · rw [tearsDown_connected hs, hs]
    simp
  · rw [tearsDown_other hs]
    simp [hs]

theorem carryOut_constructed {ptr : ι} {r r' : EPollPoller ι × Channel} {e : Effect}
    (hindex : r.2.index = 0) (h : carryOut ptr r e = .ok r') : r'.2.index = 0 := by
  cases e with
  | updateChannel events =>
    have hch : Channel.index { r.2 with events := events } = 0 := hindex
    exact absurd h (updateChannel_unknown (by rw [hch]; decide) (by rw [hch]; decide)
      (by rw [hch]; decide))
  | removeChannel =>
    obtain ⟨-, -, hknown, -⟩ := removeChannel_ok.1 h
    rw [hindex] at hknown
    exact absurd hknown (by decide)
  | setState | write | shutdownWrite | connectionCallback | messageCallback | writeCompleteCallback
  | highWaterMarkCallback | closeCallback =>
    cases h
    exact hindex

theorem step_constructed {o : ConnOp} (hindex : s.conn.channel.index = 0) (h : s.step o = .ok s') :
    s'.conn.channel.index = 0 := by
  obtain ⟨c, -, h⟩ := bind_ok.1 h
  obtain ⟨r, hr, h⟩ := bind_ok.1 h
  cases h
  exact run_inv (I := fun r => r.2.index = 0) (fun _ _ _ hr => carryOut_constructed hr) hindex hr

/-- The constructor's `index_` is that of every state reached, and with it no connection is
prepared. -/
theorem runs_not_prepared {sockfd : ℕ} {writeCompleteCallback : Bool} {p : EPollPoller ι} {ptr : ι}
    {ops : List ConnOp}
    (h : run step ⟨TcpConnection.created sockfd writeCompleteCallback, p, ptr⟩ ops = .ok s) :
    ¬ Prepared s := by
  have hindex : s.conn.channel.index = 0 :=
    run_inv (I := fun s => s.conn.channel.index = 0) (fun _ _ _ => step_constructed) rfl h
  rintro ⟨-, ⟨-, hup⟩ | ⟨-, -, -, hrem⟩⟩
  · simp [Updatable, hindex, KNew, KAdded, KDeleted] at hup
  · simp [hindex, KAdded, KDeleted] at hrem

/-- Prepared connections are torn down and no others; no run of the code prepares one. -/
theorem teardown_exact (p : EPollPoller ι) (ptr : ι) (sockfd : ℕ) (writeCompleteCallback : Bool) :
    (∀ (s : AttachedConnection ι) calls, TearsDown s calls ↔ Prepared s) ∧
      ∀ ops s calls, run step ⟨TcpConnection.created sockfd writeCompleteCallback, p, ptr⟩ ops = .ok s →
        ¬ TearsDown s calls :=
  ⟨tearsDown_iff, fun _ _ _ hrun htears => runs_not_prepared hrun ((tearsDown_iff _ _).1 htears)⟩

/-- Destroyed after `shutdown`, which has set KDisConnecting: nothing is disabled, and the poller
does not find the channel. -/
theorem shutdown_not_tornDown :
    ∃ s, run step ⟨TcpConnection.created 5 false, EPollPoller.new, ()⟩
        [.connectEstablished, .call true .shutdown] = .ok s ∧
      s.conn.state = .KDisConnecting ∧ ¬ TearsDown s [] := by
  refine ⟨_, rfl, rfl, ?_⟩
  rintro ⟨s', hs', -⟩
  cases hs'

end AttachedConnection

end Czy.Net
