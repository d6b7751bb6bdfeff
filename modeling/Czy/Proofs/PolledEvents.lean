import Czy.Lib.Batches
import Czy.Lib.Run
import Czy.Sanity.Poller
import Czy.Spec.PolledEvents
import Mathlib.Data.List.Nodup

/-! No channel waits for long in the kernel's ready list: the event list doubles whenever a poll
fills it, and what one poll does not report stands nearer to the front at the next. -/

namespace Czy.Net.PolledEvents

open Batches EPollPoller StepRun

variable {ι : Type} {s s' : PolledEvents ι} {poller : EPollPoller ι} {channels : ι → Channel}
  {fd : ℕ} {ptr : ι} {c : Channel} {events : ℕ → Mask}

/-- The interest list and the `index_` of the channels are in step with `channels_`. -/
structure Registered (poller : EPollPoller ι) (channels : ι → Channel) : Prop where
  found : ∀ fd event, poller.kernel fd = some event → poller.channels fd = some event.ptr
  named : ∀ fd ptr, poller.channels fd = some ptr → (channels ptr).fd = fd
  indexed : ∀ ptr, (channels ptr).index ≠ KNew → poller.channels (channels ptr).fd = some ptr
  deleted : ∀ ptr, (channels ptr).index = KDeleted → poller.kernel (channels ptr).fd = none

structure Inv (s : PolledEvents ι) : Prop where
  registered : Registered s.poller s.channels
  ready : ∀ fd ∈ s.ready, s.poller.kernel fd ≠ none
  once : s.ready.Nodup

theorem Inv.length_epollWait (h : Inv s) (events : ℕ → Mask) :
    (s.epollWait events).length = min s.eventList s.ready.length := by
  rw [epollWait, List.filterMap_length_eq_length.2, List.length_take]
  intro fd hfd
  obtain ⟨event, hevent⟩ := Option.ne_none_iff_exists'.1 (h.ready fd (List.mem_of_mem_take hfd))
  rw [hevent]
  rfl

theorem kernel_of_epollWait {event : EpollEvent ι} (h : event ∈ s.epollWait events) :
    ∃ fd event', s.poller.kernel fd = some event' ∧ event'.ptr = event.ptr := by
  obtain ⟨fd, -, hsome⟩ := List.mem_filterMap.1 h
  obtain ⟨event', hkernel, rfl⟩ := Option.map_eq_some_iff.1 hsome
  exact ⟨fd, event', hkernel, rfl⟩

theorem Inv.ptrs_nodup (h : Inv s) (events : ℕ → Mask) :
    ((s.epollWait events).map EpollEvent.ptr).Nodup := by
  rw [epollWait, List.map_filterMap]
  refine List.Nodup.filterMap (fun fd fd' ptr hfd hfd' => ?_) (h.once.sublist (List.take_sublist _ _))
  rw [Option.map_map, Option.mem_def, Option.map_eq_some_iff] at hfd hfd'
  obtain ⟨event, hevent, rfl⟩ := hfd
  obtain ⟨event', hevent', hptr⟩ := hfd'
  have hptr : event'.ptr = event.ptr := hptr
  rw [← h.registered.named fd _ (h.registered.found fd event hevent),
    ← h.registered.named fd' _ (h.registered.found fd' event' hevent'), hptr]

theorem Registered.fd_ne (h : Registered poller channels)
    (hat : ∀ ptr', poller.channels (channels ptr).fd = some ptr' → ptr' = ptr) {ptr' : ι}
    (hne : ptr' ≠ ptr) (hindex : (channels ptr').index ≠ KNew) :
    (channels ptr').fd ≠ (channels ptr).fd := by
  intro hfd
  have hchannel := h.indexed ptr' hindex
  rw [hfd] at hchannel
  exact hne (hat ptr' hchannel)

section

variable [DecidableEq ι]

theorem Registered.congr (h : Registered poller channels) (hfd : c.fd = (channels ptr).fd)
    (hindex : c.index = (channels ptr).index) :
    Registered poller (Function.update channels ptr c) := by
  have hsame : ∀ ptr', (Function.update channels ptr c ptr').fd = (channels ptr').fd ∧
      (Function.update channels ptr c ptr').index = (channels ptr').index := by
    intro ptr'
    by_cases hptr : ptr' = ptr
    · rw [hptr, Function.update_self]
      exact ⟨hfd, hindex⟩
    · rw [Function.update_of_ne hptr]
      exact ⟨rfl, rfl⟩
  refine ⟨h.found, fun fd ptr' hchannel => ?_, fun ptr' hnew => ?_, fun ptr' hdel => ?_⟩
  · rw [(hsame ptr').1]
    exact h.named fd ptr' hchannel
  · rw [(hsame ptr').2] at hnew
    rw [(hsame ptr').1]
    exact h.indexed ptr' hnew
  · rw [(hsame ptr').2] at hdel
    rw [(hsame ptr').1]
    exact h.deleted ptr' hdel

/-- `channels_` and the interest list change at the descriptor of one channel alone. -/
theorem Registered.change (h : Registered poller channels) (hfd : c.fd = (channels ptr).fd)
    (hat : ∀ ptr', poller.channels (channels ptr).fd = some ptr' → ptr' = ptr)
    {entry : Option ι} {event : Option (EpollEvent ι)}
    (hevent : ∀ e, event = some e → entry = some e.ptr) (hentry : ∀ ptr', entry = some ptr' → ptr' = ptr)
    (hindexed : c.index ≠ KNew → entry = some ptr) (hdeleted : c.index = KDeleted → event = none) :
    Registered ⟨Function.update poller.channels (channels ptr).fd entry,
      Function.update poller.kernel (channels ptr).fd event⟩ (Function.update channels ptr c) := by
  have hother : ∀ {ptr'}, ptr' ≠ ptr → (channels ptr').index ≠ KNew →
      (channels ptr').fd ≠ (channels ptr).fd := fun hne hindex => h.fd_ne hat hne hindex
  refine ⟨fun fd e he => ?_, fun fd ptr' hptr' => ?_, fun ptr' hindex => ?_, fun ptr' hdel => ?_⟩
  · change Function.update poller.channels _ _ fd = _
    change Function.update poller.kernel _ _ fd = _ at he
    by_cases hat' : fd = (channels ptr).fd
    · rw [hat', Function.update_self] at he ⊢
      exact hevent e he
    · rw [Function.update_of_ne hat'] at he ⊢
      exact h.found fd e he
  · change Function.update poller.channels _ _ fd = _ at hptr'
    by_cases hat' : fd = (channels ptr).fd
    · rw [hat', Function.update_self] at hptr'
      rw [hentry ptr' hptr', Function.update_self, hfd, hat']
    · rw [Function.update_of_ne hat'] at hptr'
      have hnamed := h.named fd ptr' hptr'
      rw [Function.update_of_ne fun heq => hat' (by rw [← hnamed, heq])]
      exact hnamed
  · change Function.update poller.channels _ _ _ = _
    by_cases hptr : ptr' = ptr
    · rw [hptr, Function.update_self] at hindex ⊢
      rw [hfd, Function.update_self]
      exact hindexed hindex
    · rw [Function.update_of_ne hptr] at hindex ⊢
      rw [Function.update_of_ne (hother hptr hindex)]
      exact h.indexed ptr' hindex
  · change Function.update poller.kernel _ _ _ = _
    by_cases hptr : ptr' = ptr
    · rw [hptr, Function.update_self] at hdel ⊢
      rw [hfd, Function.update_self]
      exact hdeleted hdel
    · rw [Function.update_of_ne hptr] at hdel ⊢
      rw [Function.update_of_ne (hother hptr (by rw [hdel]; decide))]
      exact h.deleted ptr' hdel

theorem Registered.enter (h : Registered poller channels) (hfd : c.fd = (channels ptr).fd)
    (hat : ∀ ptr', poller.channels (channels ptr).fd = some ptr' → ptr' = ptr)
    {event : Option (EpollEvent ι)} (hevent : ∀ e, event = some e → e.ptr = ptr)
    (hdeleted : c.index = KDeleted → event = none) :
    Registered ⟨Function.update poller.channels c.fd (some ptr),
      Function.update poller.kernel c.fd event⟩ (Function.update channels ptr c) := by
  rw [hfd]
  exact h.change hfd hat (fun e he => congrArg some (hevent e he).symm)
    (fun _ hptr' => (Option.some.inj hptr').symm) (fun _ => rfl) hdeleted

theorem Registered.updateChannel (h : Registered poller channels) (hfd : c.fd = (channels ptr).fd)
    (hindex : c.index = (channels ptr).index) {r : EPollPoller ι × Channel}
    (hok : poller.updateChannel ptr c = .ok r) : Registered r.1 (Function.update channels ptr r.2) := by
  have hadded : (c.setIndex KAdded).index ≠ KDeleted := show KAdded ≠ KDeleted by decide
  have hevent : ∀ e, some (⟨c.events, ptr⟩ : EpollEvent ι) = some e → e.ptr = ptr := by
    rintro e he
    rw [← Option.some.inj he]
  by_cases hnew : c.index = KNew
  · obtain ⟨hnone, -, rfl⟩ := (updateChannel_new hnew).1 hok
    rw [hfd] at hnone
    exact h.enter (c := c.setIndex KAdded) hfd
      (fun ptr' hptr' => absurd (hnone.symm.trans hptr') (Option.some_ne_none ptr').symm) hevent
      fun hdel => absurd hdel hadded
  · have hptr := h.indexed ptr (hindex ▸ hnew)
    have hat : ∀ ptr', poller.channels (channels ptr).fd = some ptr' → ptr' = ptr := fun ptr' hptr' =>
      Option.some.inj (hptr'.symm.trans hptr)
    by_cases hdel : c.index = KDeleted
    · obtain ⟨-, -, rfl⟩ := (updateChannel_deleted hdel).1 hok
      exact h.enter (c := c.setIndex KAdded) hfd hat hevent fun hdel => absurd hdel hadded
    · by_cases hadd : c.index = KAdded
      · obtain ⟨-, hr⟩ := (updateChannel_added hadd).1 hok
        split at hr
        next =>
          rw [hr]
          exact h.enter (c := c.setIndex KDeleted) hfd hat (fun _ he => absurd he.symm (Option.some_ne_none _))
            fun _ => rfl
        next =>
          rw [hr.2]
          exact h.enter hfd hat hevent fun hdel' => absurd hdel' hdel
      · exact absurd hok (updateChannel_unknown hnew hadd hdel)

theorem Registered.removeChannel (h : Registered poller channels) {r : EPollPoller ι × Channel}
    (hok : poller.removeChannel ptr (channels ptr) = .ok r) :
    Registered r.1 (Function.update channels ptr r.2) := by
  obtain ⟨-, -, hindex, rfl⟩ := removeChannel_ok.1 hok
  have hnew : (channels ptr).index ≠ KNew := by
    rcases hindex with hindex | hindex
    · rw [hindex]
      decide
    · rw [hindex]
      decide
  have hkernel : (if (channels ptr).index = KAdded then
      Function.update poller.kernel (channels ptr).fd none else poller.kernel) =
        Function.update poller.kernel (channels ptr).fd none := by
    split_ifs with hadd
    · rfl
    · rw [← h.deleted ptr (hindex.resolve_left hadd), Function.update_eq_self]
  rw [hkernel]
  exact h.change (c := (channels ptr).setIndex KNew) rfl
    (fun _ hptr' => Option.some.inj (hptr'.symm.trans (h.indexed ptr hnew)))
    (fun _ he => absurd he.symm (Option.some_ne_none _))
    (fun _ hptr' => absurd hptr'.symm (Option.some_ne_none _)) (fun hnot => absurd rfl hnot) fun _ => rfl

theorem fillActiveList_ok {reported : List (EpollEvent ι)} (h : Registered poller channels)
    (hfound : ∀ event ∈ reported, ∃ fd event', poller.kernel fd = some event' ∧ event'.ptr = event.ptr)
    (honce : (reported.map EpollEvent.ptr).Nodup) (active : List ι) :
    ∃ channels', fillActiveList poller reported channels active =
        .ok (channels', active ++ reported.map EpollEvent.ptr) ∧ Registered poller channels' ∧
      (∀ event ∈ reported, (channels' event.ptr).revents = event.events) ∧
      ∀ ptr ∉ reported.map EpollEvent.ptr, channels' ptr = channels ptr := by
  induction reported generalizing channels active with
  | nil => exact ⟨channels, by rw [List.map_nil, List.append_nil]; rfl, h, nofun, fun _ _ => rfl⟩
  | cons event reported ih =>
    obtain ⟨fd, event', hkernel, hptr⟩ := hfound event List.mem_cons_self
    have hchannel := h.found fd event' hkernel
    rw [hptr] at hchannel
    have hfd := h.named fd event.ptr hchannel
    have hsome : poller.channels (channels event.ptr).fd = some event.ptr := by rw [hfd, hchannel]
    have hnone : poller.channels (channels event.ptr).fd ≠ none := by
      rw [hsome]
      exact Option.some_ne_none _
    rw [List.map_cons, List.nodup_cons] at honce
    obtain ⟨channels', hok, h', hrevents, hothers⟩ := ih
      (h.congr (c := (channels event.ptr).setRevents event.events) rfl rfl)
      (fun e he => hfound e (List.mem_cons_of_mem _ he)) honce.2 (active ++ [event.ptr])
    refine ⟨channels', ?_, h', fun e he => ?_, fun ptr hptr => ?_⟩
    · rw [fillActiveList, require_bind hnone, require_bind hsome, hok, List.map_cons, List.append_assoc]
      rfl
    · rcases List.mem_cons.1 he with rfl | he
      · rw [hothers _ honce.1, Function.update_self]
        rfl
      · exact hrevents e he
    · rw [List.map_cons, List.mem_cons, not_or] at hptr
      rw [hothers _ hptr.2, Function.update_of_ne hptr.1]

theorem poll_eq (h : Inv s) (events : ℕ → Mask) :
    ∃ channels, s.poll events = .ok { s with
        channels := channels
        ready := s.ready.drop s.eventList ++ s.ready.take s.eventList
        activeChannels := (s.epollWait events).map EpollEvent.ptr
        eventList := if s.eventList ≤ s.ready.length then 2 * s.eventList else s.eventList } ∧
      Registered s.poller channels ∧
      ∀ event ∈ s.epollWait events, (channels event.ptr).revents = event.events := by
  have hlen := h.length_epollWait events
  obtain ⟨channels, hfill, hregistered, hrevents, -⟩ := fillActiveList_ok h.registered
    (fun _ hevent => kernel_of_epollWait hevent) (h.ptrs_nodup events) []
  rw [poll]
  by_cases hpos : 0 < (s.epollWait events).length
  · refine ⟨channels, ?_, hregistered, hrevents⟩
    have hroom : (s.epollWait events).length ≤ s.eventList := hlen.le.trans (min_le_left _ _)
    rw [if_pos hpos, require_bind hroom, hfill, ok_bind]
    by_cases hfull : s.eventList ≤ s.ready.length
    · have hnum : (s.epollWait events).length = s.eventList := hlen.trans (min_eq_left hfull)
      change Except.ok (if (s.epollWait events).length = s.eventList then _ else _) = _
      rw [if_pos hnum, if_pos hfull, hnum, Nat.mul_comm]
      rfl
    · have hnum : (s.epollWait events).length ≠ s.eventList := by omega
      change Except.ok (if (s.epollWait events).length = s.eventList then _ else _) = _
      rw [if_neg hnum, if_neg hfull]
      rfl
  · have hnone : s.epollWait events = [] := List.length_eq_zero_iff.1 (Nat.eq_zero_of_not_pos hpos)
    have hsize : (if s.eventList ≤ s.ready.length then 2 * s.eventList else s.eventList) =
        s.eventList := by
      rw [hnone, List.length_nil] at hlen
      split
      · omega
      · rfl
    refine ⟨s.channels, ?_, h.registered, ?_⟩
    · rw [if_neg hpos, hnone, hsize]
      rfl
    · rw [hnone]
      exact nofun

theorem mem_rotated {n fd : ℕ} {ready : List ℕ} :
    fd ∈ ready.drop n ++ ready.take n ↔ fd ∈ ready := by
  rw [List.mem_append, or_comm, ← List.mem_append, List.take_append_drop]

theorem Inv.put (h : Inv s) {r : EPollPoller ι × Channel}
    (hr : Registered r.1 (Function.update s.channels ptr r.2)) : Inv (s.put ptr r) :=
  ⟨hr, fun _ hfd => Option.isSome_iff_ne_none.1 (List.mem_filter.1 hfd).2, h.once.filter _⟩

theorem step_inv (o : PollOp ι) (h : Inv s) (ha : s.Allowed o) : ∃ s', s.step o = .ok s' ∧ Inv s' := by
  cases o with
  | poll events =>
    obtain ⟨channels, hok, hregistered, -⟩ := poll_eq h events
    refine ⟨_, hok, hregistered, fun fd hfd => h.ready fd (mem_rotated.1 hfd), ?_⟩
    rw [List.nodup_append_comm, List.take_append_drop]
    exact h.once
  | pollFails => exact ⟨_, rfl, h.registered, h.ready, h.once⟩
  | updateChannel ptr events =>
    obtain ⟨s', hok⟩ := ha
    obtain ⟨r, hr, rfl⟩ := map_ok.1 hok
    exact ⟨_, hok, h.put (h.registered.updateChannel
      (c := { s.channels ptr with events := events }) rfl rfl hr)⟩
  | removeChannel ptr =>
    obtain ⟨s', hok⟩ := ha
    obtain ⟨r, hr, rfl⟩ := map_ok.1 hok
    exact ⟨_, hok, h.put (h.registered.removeChannel hr)⟩
  | becomesReady fd =>
    refine ⟨_, rfl, h.registered, fun fd' hfd' => ?_, ?_⟩
    · rcases List.mem_append.1 hfd' with hfd' | hfd'
      · exact h.ready fd' hfd'
      · rw [List.mem_singleton.1 hfd']
        exact ha.1
    · exact List.nodup_append.2 ⟨h.once, List.nodup_singleton _, fun a ha' b hb heq =>
        ha.2 (List.mem_singleton.1 hb ▸ heq ▸ ha')⟩
  | drained fd =>
    exact ⟨_, rfl, h.registered, fun fd' hfd' => h.ready fd' (List.mem_filter.1 hfd').1, h.once.filter _⟩

/-- The channel of the descriptor becomes active, with what the kernel finds of it. -/
def Dispatched (fd : ℕ) (_ : PolledEvents ι) (o : PollOp ι) (s' : PolledEvents ι) : Prop :=
  ∃ events channel, o = .poll events ∧ s'.poller.channels fd = some channel ∧
    channel ∈ s'.activeChannels ∧ (s'.channels channel).revents = events fd

theorem poll_dispatches (h : Inv s) (hin : fd ∈ s.ready) (hlt : s.ready.idxOf fd < s.eventList)
    (events : ℕ → Mask) :
    ∃ s', s.step (.poll events) = .ok s' ∧ Dispatched fd s (.poll events) s' := by
  obtain ⟨channels, hok, -, hrevents⟩ := poll_eq h events
  obtain ⟨event, hkernel⟩ := Option.ne_none_iff_exists'.1 (h.ready fd hin)
  have hreported : (⟨events fd, event.ptr⟩ : EpollEvent ι) ∈ s.epollWait events :=
    List.mem_filterMap.2 ⟨fd, mem_batch hin hlt, by rw [hkernel]; rfl⟩
  exact ⟨_, hok, events, event.ptr, rfl, h.registered.found fd event hkernel,
    List.mem_map.2 ⟨_, hreported, rfl⟩, hrevents _ hreported⟩

def isPoll : PollOp ι → Bool
  | .poll _ => true
  | _ => false

/-- Nobody reads or writes the descriptor dry, or takes it out of the interest list. -/
def Stays (fd : ℕ) (s : PolledEvents ι) : PollOp ι → Prop
  | .drained fd' => fd' ≠ fd
  | .updateChannel ptr events =>
    ∀ s', s.step (.updateChannel ptr events) = .ok s' → s'.poller.kernel fd ≠ none
  | .removeChannel ptr => ∀ s', s.step (.removeChannel ptr) = .ok s' → s'.poller.kernel fd ≠ none
  | _ => True

theorem put_nearer {r : EPollPoller ι × Channel} (hin : fd ∈ s.ready) (hkernel : r.1.kernel fd ≠ none) :
    fd ∈ (s.put ptr r).ready ∧ (s.put ptr r).ready.idxOf fd ≤ s.ready.idxOf fd := by
  have hkept : (r.1.kernel fd).isSome = true := Option.isSome_iff_ne_none.2 hkernel
  exact ⟨List.mem_filter.2 ⟨hin, hkept⟩, idxOf_filter_le _ hkept⟩

theorem step_nearer {o : PollOp ι} (hin : fd ∈ s.ready) (hstays : Stays fd s o) (ho : isPoll o = false)
    (hok : s.step o = .ok s') :
    fd ∈ s'.ready ∧ s'.ready.idxOf fd ≤ s.ready.idxOf fd ∧ s'.eventList = s.eventList := by
  cases o with
  | poll events => cases ho
  | pollFails =>
    obtain rfl := Except.ok.inj hok
    exact ⟨hin, le_rfl, rfl⟩
  | updateChannel ptr events | removeChannel ptr =>
    have hkernel := hstays s' hok
    obtain ⟨r, -, rfl⟩ := map_ok.1 hok
    exact ⟨(put_nearer hin hkernel).1, (put_nearer hin hkernel).2, rfl⟩
  | becomesReady fd' =>
    obtain rfl := Except.ok.inj hok
    exact ⟨List.mem_append_left _ hin, (List.idxOf_append_of_mem hin).le, rfl⟩
  | drained fd' =>
    obtain rfl := Except.ok.inj hok
    have hkept : decide (fd ≠ fd') = true := decide_eq_true fun heq => hstays heq.symm
    exact ⟨List.mem_filter.2 ⟨hin, hkept⟩, idxOf_filter_le _ hkept, rfl⟩

/-- A poll that does not come as far as the descriptor fills the event list, and doubles it. -/
theorem poll_nearer (h : Inv s) (hin : fd ∈ s.ready) (hle : s.eventList ≤ s.ready.idxOf fd)
    (events : ℕ → Mask) :
    ∃ s', s.step (.poll events) = .ok s' ∧ fd ∈ s'.ready ∧
      s'.ready.idxOf fd + s.eventList = s.ready.idxOf fd ∧ s'.eventList = 2 * s.eventList := by
  obtain ⟨channels, hok, -⟩ := poll_eq h events
  obtain ⟨hback, hidx⟩ := idxOf_after_batch hin hle (s.ready.take s.eventList)
  have hfull : s.eventList ≤ s.ready.length := hle.trans (List.idxOf_lt_length_iff.2 hin).le
  exact ⟨_, hok, List.mem_append_left _ hback, hidx, if_pos hfull⟩

theorem Inv.meets_dispatched {os : List (PollOp ι)} (h : Inv s) (hin : fd ∈ s.ready)
    (ha : Along step (fun s o => s.Allowed o ∧ Stays fd s o) s os)
    (hpolls : s.ready.idxOf fd < taken s.eventList (os.countP isPoll)) :
    Meets step (Dispatched fd) s os := by
  induction os generalizing s with
  | nil =>
    rw [List.countP_nil, taken_zero] at hpolls
    exact absurd hpolls (Nat.not_lt_zero _)
  | cons o os ih =>
    obtain ⟨s', hok, h'⟩ := step_inv o h ha.1.1
    cases ho : isPoll o with
    | false =>
      obtain ⟨hin', hle, hsize⟩ := step_nearer hin ha.1.2 ho hok
      rw [List.countP_cons_of_neg (by rw [ho]; exact Bool.false_ne_true), ← hsize] at hpolls
      exact ⟨s', hok, .inr (ih h' hin' (ha.2 s' hok) (hle.trans_lt hpolls))⟩
    | true =>
      obtain ⟨events, rfl⟩ : ∃ events, o = .poll events := by
        cases o with
        | poll events => exact ⟨events, rfl⟩
        | _ => cases ho
      rcases Nat.lt_or_ge (s.ready.idxOf fd) s.eventList with hlt | hge
      · obtain ⟨t, ht, hdispatched⟩ := poll_dispatches h hin hlt events
        exact ⟨t, ht, .inl hdispatched⟩
      · obtain ⟨t, ht, hin', hidx, hsize⟩ := poll_nearer h hin hge events
        obtain rfl := Except.ok.inj (hok.symm.trans ht)
        rw [List.countP_cons_of_pos ho, taken_succ] at hpolls
        refine ⟨s', hok, .inr (ih h' hin' (ha.2 s' hok) ?_)⟩
        rw [hsize]
        omega

/-- No assertion of `fillActiveList` fails, and a descriptor that stays ready is reported soon: the
polls that do not come as far as it take one, two, four and so on times as many in front of it as
the event list has room for. -/
theorem ready_polled (n : ℕ) (fdOf : ι → ℕ) {os : List (PollOp ι)}
    (hpre : Along step Allowed (new n fdOf) os) :
    ∃ s, run step (new n fdOf) os = .ok s ∧ ∀ fd os', fd ∈ s.ready →
      Along step (fun s o => s.Allowed o ∧ Stays fd s o) s os' →
      s.ready.idxOf fd < taken s.eventList (os'.countP isPoll) → Meets step (Dispatched fd) s os' := by
  have hnew : Inv (new n fdOf) :=
    ⟨⟨nofun, nofun, fun _ hindex => absurd rfl hindex, fun _ _ => rfl⟩, nofun, .nil⟩
  obtain ⟨s, hs, h⟩ := run_ok_along (fun s o h ha => step_inv o h ha) hnew hpre
  exact ⟨s, hs, fun fd os' hin ha hpolls => h.meets_dispatched hin ha hpolls⟩

/-- With room for one event, the last of three is in the second poll. -/
theorem ready_polled_third : ∃ s, run step (new 1 fun fd : ℕ => fd)
      [.updateChannel 2 POLLIN, .updateChannel 3 POLLIN, .updateChannel 4 POLLIN, .updateChannel 5 POLLIN,
        .becomesReady 3, .becomesReady 4, .becomesReady 5] = .ok s ∧
    Meets step (Dispatched 5) s
      [.poll fun _ => POLLIN, .pollFails, .updateChannel 3 POLLPRI, .becomesReady 2,
        .poll fun _ => POLLIN] := by
  have hpre : Along step Allowed (new 1 fun fd : ℕ => fd)
      [.updateChannel 2 POLLIN, .updateChannel 3 POLLIN, .updateChannel 4 POLLIN, .updateChannel 5 POLLIN,
        .becomesReady 3, .becomesReady 4, .becomesReady 5] := by
    refine (along_cons_ok rfl _).2 ⟨⟨_, rfl⟩, ?_⟩
    refine (along_cons_ok rfl _).2 ⟨⟨_, rfl⟩, ?_⟩
    refine (along_cons_ok rfl _).2 ⟨⟨_, rfl⟩, ?_⟩
    refine (along_cons_ok rfl _).2 ⟨⟨_, rfl⟩, ?_⟩
    refine (along_cons_ok rfl _).2 ⟨⟨by decide, by decide⟩, ?_⟩
    refine (along_cons_ok rfl _).2 ⟨⟨by decide, by decide⟩, ?_⟩
    exact (along_cons_ok rfl _).2 ⟨⟨by decide, by decide⟩, trivial⟩
  obtain ⟨s, hs, hpolled⟩ := ready_polled 1 (fun fd : ℕ => fd) hpre
  obtain rfl := Except.ok.inj hs
  refine ⟨_, rfl, hpolled 5 _ ?_ ?_ ?_⟩
  · decide
  · refine (along_cons_ok rfl _).2 ⟨⟨trivial, trivial⟩, ?_⟩
    refine (along_cons_ok rfl _).2 ⟨⟨trivial, trivial⟩, ?_⟩
    refine (along_cons_ok rfl _).2 ⟨⟨⟨_, rfl⟩, fun s' hs' => ?_⟩, ?_⟩
    · rw [← Except.ok.inj hs']
      decide
    refine (along_cons_ok rfl _).2 ⟨⟨⟨by decide, by decide⟩, trivial⟩, ?_⟩
    exact (along_cons_ok rfl _).2 ⟨⟨trivial, trivial⟩, trivial⟩
  · decide

end

end Czy.Net.PolledEvents
