import Czy.Spec.Poller

/-! `EPollPoller::poll` and `fillActiveList` of net/epoll_poller.cpp, as `EventLoop::loop` calls
them, over the ready list of the kernel, with `updateChannel` and `removeChannel` in between. The
channels are level-triggered: what has been reported stands at the end of the list, for as long
as it is ready. -/

namespace Czy.Net

/-- `channels` are the objects, `eventList` is the size of `eventList_`, and `ready` the
descriptors that the kernel has found ready, in the order in which it reports them. -/
structure PolledEvents (ι : Type) where
  poller : EPollPoller ι
  channels : ι → Channel
  eventList : ℕ
  ready : List ℕ
  activeChannels : List ι

/-- `events` is what the kernel finds of each descriptor, or the new `events_` of a channel. -/
inductive PollOp (ι : Type)
  | poll (events : ℕ → Mask)
  | pollFails
  | updateChannel (channel : ι) (events : Mask)
  | removeChannel (channel : ι)
  | becomesReady (fd : ℕ)
  | drained (fd : ℕ)

namespace PolledEvents

variable {ι : Type} [DecidableEq ι]

/-- `kInitEventSize` has no value in the source. Each `index_` is the `KNew` that `updateChannel`
looks for, not the 0 of the constructor, with which no channel is ever registered. -/
def new (kInitEventSize : ℕ) (fd : ι → ℕ) : PolledEvents ι where
  poller := .new
  channels := fun ptr => (Channel.new (fd ptr)).setIndex EPollPoller.KNew
  eventList := kInitEventSize
  ready := []
  activeChannels := []

def fillActiveList (poller : EPollPoller ι) : List (EpollEvent ι) → (ι → Channel) → List ι →
    Except Fault ((ι → Channel) × List ι)
  | [], channels, active => .ok (channels, active)
  | event :: events, channels, active => do
    let channel := event.ptr
    let fd := (channels channel).fd
    require (poller.channels fd ≠ none) "iter != channels_.end()"
    require (poller.channels fd = some channel) "channel == iter->second"
    let channels := Function.update channels channel ((channels channel).setRevents event.events)
    fillActiveList poller events channels (active ++ [channel])

/-- `epoll_wait` with room for `eventList` events. -/
def epollWait (s : PolledEvents ι) (events : ℕ → Mask) : List (EpollEvent ι) :=
  (s.ready.take s.eventList).filterMap fun fd =>
    (s.poller.kernel fd).map fun event => ⟨events fd, event.ptr⟩

def poll (s : PolledEvents ι) (events : ℕ → Mask) : Except Fault (PolledEvents ι) := do
  let reported := s.epollWait events
  let s := { s with ready := s.ready.drop s.eventList ++ s.ready.take s.eventList, activeChannels := [] }
  let numEvents := reported.length
  if numEvents > 0 then
    require (numEvents ≤ s.eventList) "implicit_cast<size_t>(numEvents) <= eventList_.size()"
    let (channels, active) ← fillActiveList s.poller reported s.channels []
    let s := { s with channels := channels, activeChannels := active }
    return if numEvents = s.eventList then { s with eventList := numEvents * 2 } else s
  else
    return s

/-- The poller and the channel that a call gives; the kernel forgets what is no longer in the
interest list. -/
def put (s : PolledEvents ι) (ptr : ι) (r : EPollPoller ι × Channel) : PolledEvents ι :=
  { s with
    poller := r.1
    channels := Function.update s.channels ptr r.2
    ready := s.ready.filter fun fd => (r.1.kernel fd).isSome }

def step (s : PolledEvents ι) : PollOp ι → Except Fault (PolledEvents ι)
  | .poll events => s.poll events
  | .pollFails => .ok { s with activeChannels := [] }
  | .updateChannel ptr events =>
    (s.poller.updateChannel ptr { s.channels ptr with events := events }).map (s.put ptr)
  | .removeChannel ptr => (s.poller.removeChannel ptr (s.channels ptr)).map (s.put ptr)
  | .becomesReady fd => .ok { s with ready := s.ready ++ [fd] }
  | .drained fd => .ok { s with ready := s.ready.filter fun fd' => fd' ≠ fd }

/-- The calls for a channel pass their own assertions, and the kernel reports what is in the
interest list, once. -/
def Allowed (s : PolledEvents ι) : PollOp ι → Prop
  | .updateChannel ptr events => ∃ s', s.step (.updateChannel ptr events) = .ok s'
  | .removeChannel ptr => ∃ s', s.step (.removeChannel ptr) = .ok s'
  | .becomesReady fd => s.poller.kernel fd ≠ none ∧ fd ∉ s.ready
  | _ => True

end PolledEvents

end Czy.Net
