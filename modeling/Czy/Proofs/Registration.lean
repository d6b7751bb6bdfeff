import Czy.Lib.Run
import Czy.Sanity.Poller

/-! Any number of channels on one poller: `index_`, `channels_` and the kernel's
interest list under every sequence of channel calls and poll results. -/

namespace Czy.Net

open StepRun EPollPoller

inductive Change
  | enableReading | disableReading | enableWriting | disableWriting | disAbleAll
  deriving DecidableEq, Repr

def Change.apply : Change → Channel → Channel
  | .enableReading => Channel.enableReading
  | .disableReading => Channel.disableReading
  | .enableWriting => Channel.enableWriting
  | .disableWriting => Channel.disableWriting
  | .disAbleAll => Channel.disAbleAll

inductive RegistryOp (ι : Type)
  | change (i : ι) (ch : Change)
  | remove (i : ι)
  | poll (i : ι) (revents : Mask)
  deriving DecidableEq, Repr

/-- The channels and their poller; whether a channel was updated since it was
constructed or last removed, and whether its last call was `disAbleAll`. -/
structure Registry (ι : Type) where
  chan : ι → Channel
  poller : EPollPoller ι
  updated : ι → Bool
  disabled : ι → Bool

namespace Change

variable (ch : Change) (c : Channel)

@[simp] theorem apply_fd : (ch.apply c).fd = c.fd := by cases ch <;> rfl

@[simp] theorem apply_index : (ch.apply c).index = c.index := by cases ch <;> rfl

@[simp] theorem apply_isNoneEvent : (ch.apply c).isNoneEvent = c.isNoneEvent := by cases ch <;> rfl

theorem apply_disAbleAll_events (h : (ch == .disAbleAll) = true) : (ch.apply c).events = 0 := by
  cases ch <;> first | rfl | cases h

end Change

namespace Registry

variable {ι : Type}

def new (fd : ι → ℕ) : Registry ι :=
  ⟨fun i => Channel.new (fd i), EPollPoller.new, fun _ => false, fun _ => false⟩

/-- `remove` only after `disAbleAll`. -/
def Protocol (s : Registry ι) : RegistryOp ι → Prop
  | .remove i => s.disabled i = true
  | _ => True

instance (s : Registry ι) (o : RegistryOp ι) : Decidable (s.Protocol o) :=
  match o with
  | .remove _ => inferInstanceAs (Decidable (_ = _))
  | .change _ _ | .poll _ _ => .isTrue trivial

def mask (s : Registry ι) (i : ι) : Mask :=
  ((s.poller.kernel (s.chan i).fd).map EpollEvent.events).getD 0

/-- The three copies of what is registered agree. -/
structure Registered (s : Registry ι) : Prop where
  channels : ∀ fd i, s.poller.channels fd = some i ↔ (s.chan i).fd = fd ∧ s.updated i = true
  added : ∀ i, (s.chan i).index = KAdded ↔ s.poller.kernel (s.chan i).fd ≠ none
  deleted : ∀ i, (s.chan i).index = KDeleted ↔
    s.poller.channels (s.chan i).fd = some i ∧ s.poller.kernel (s.chan i).fd = none
  mask : ∀ i, s.mask i = (s.chan i).events

/-- The invariant behind it: the fds are distinct, and `index_` says whether the
poller knows the channel. -/
structure Sound (s : Registry ι) : Prop extends Registered s where
  inj : Function.Injective fun i => (s.chan i).fd
  known : ∀ i, s.updated i = true ↔ (s.chan i).index = KAdded ∨ (s.chan i).index = KDeleted
  disabled : ∀ i, s.disabled i = true → s.updated i = true ∧ (s.chan i).events = 0

/-- `index_` is one the poller knows, and `isNoneEvent`, which looks at the last
revents, is not mistaken about the events. -/
def Answers (s : Registry ι) : RegistryOp ι → Prop
  | .change i ch => (s.chan i).index = KNew ∨ (s.chan i).index = KDeleted ∨
    (s.chan i).index = KAdded ∧
      ((s.chan i).isNoneEvent = true → (ch.apply (s.chan i)).events = 0)
  | .remove i => (s.chan i).isNoneEvent = true
  | .poll _ _ => True

theorem new_sound {fd : ι → ℕ} (h : Function.Injective fd) : (new fd).Sound where
  channels := by simp [new, EPollPoller.new]
  added := by simp [new, EPollPoller.new, Channel.new, KAdded]
  deleted := by simp [new, EPollPoller.new, Channel.new, KDeleted]
  mask := by simp [new, EPollPoller.new, Channel.new, Registry.mask]
  inj := h
  known := by simp [new, Channel.new, KAdded, KDeleted]
  disabled := by simp [new]

theorem channels_of_updated {s : Registry ι} (h : s.Sound) {i : ι} (hu : s.updated i = true) :
    s.poller.channels (s.chan i).fd = some i :=
  (h.channels _ i).2 ⟨rfl, hu⟩

theorem channels_of_new {s : Registry ι} (h : s.Sound) {i : ι} (hnew : (s.chan i).index = KNew) :
    s.poller.channels (s.chan i).fd = none := by
  refine Option.eq_none_iff_forall_ne_some.2 fun j hj => ?_
  obtain ⟨hfd, hu⟩ := (h.channels _ j).1 hj
  obtain rfl : j = i := h.inj hfd
  rcases (h.known j).1 hu with h' | h' <;> rw [hnew] at h' <;> cases h'

theorem kernel_of_new {s : Registry ι} (h : s.Sound) {i : ι} (hnew : (s.chan i).index = KNew) :
    s.poller.kernel (s.chan i).fd = none := by
  by_contra hk
  have := (h.added i).2 hk
  rw [hnew] at this
  cases this

variable [DecidableEq ι]

def set (s : Registry ι) (i : ι) (updated disabled : Bool)
    (r : Except Fault (EPollPoller ι × Channel)) : Except Fault (Registry ι) := do
  let (p, c) ← r
  return ⟨Function.update s.chan i c, p, Function.update s.updated i updated,
    Function.update s.disabled i disabled⟩

def step (s : Registry ι) : RegistryOp ι → Except Fault (Registry ι)
  | .change i ch =>
    s.set i true (ch == .disAbleAll) (s.poller.updateChannel i (ch.apply (s.chan i)))
  | .remove i => s.set i false false do
    let c ← (s.chan i).remove
    s.poller.removeChannel i c
  | .poll i revents =>
    .ok { s with chan := Function.update s.chan i ((s.chan i).setRevents revents) }

theorem set_ok {s s' : Registry ι} {i : ι} {u d : Bool}
    {r : Except Fault (EPollPoller ι × Channel)} (h : s.set i u d r = .ok s') :
    ∃ p c, r = .ok (p, c) ∧ s' = ⟨Function.update s.chan i c, p, Function.update s.updated i u,
      Function.update s.disabled i d⟩ := by
  obtain ⟨⟨p, c⟩, hr, hs⟩ := bind_ok.1 h
  cases hs
  exact ⟨p, c, hr, rfl⟩

/-- A poller's answer for one channel keeps the whole registry sound when it is
sound for that channel: the other channels have other fds. -/
theorem set_sound {s : Registry ι} (h : s.Sound) {i : ι} {u d : Bool} {c : Channel}
    {mapped : Option ι} {entry : Option (EpollEvent ι)} (hfd : c.fd = (s.chan i).fd)
    (hmapped : mapped = if u then some i else none) (hentry : u = false → entry = none)
    (hadded : c.index = KAdded ↔ entry ≠ none)
    (hdeleted : c.index = KDeleted ↔ mapped = some i ∧ entry = none)
    (hmask : (entry.map EpollEvent.events).getD 0 = c.events)
    (hdisabled : d = true → u = true ∧ c.events = 0) :
    Sound ⟨Function.update s.chan i c,
      ⟨Function.update s.poller.channels c.fd mapped, Function.update s.poller.kernel c.fd entry⟩,
      Function.update s.updated i u, Function.update s.disabled i d⟩ := by
  have hne : ∀ j, j ≠ i → (s.chan j).fd ≠ c.fd := fun j hj he => hj (h.inj (he.trans hfd))
  constructor
  · constructor
    · intro fd j
      by_cases hj : j = i <;> by_cases hf : fd = c.fd
      · subst hj hf; cases u <;> simp [hmapped]
      · subst hj
        have := (h.channels fd j).1
        simp only [Function.update_self, Function.update_of_ne hf]
        refine ⟨fun hc => absurd ((this hc).1.symm.trans hfd.symm) hf, fun hc => absurd hc.1.symm hf⟩
      · subst hf
        have := hne j hj
        cases u <;> simp [hmapped, hj, this, Ne.symm hj]
      · simp [hj, hf, h.channels fd j]
    · intro j
      by_cases hj : j = i
      · subst hj; simpa using hadded
      · simp [hj, hne j hj, h.added j]
    · intro j
      by_cases hj : j = i
      · subst hj; simpa using hdeleted
      · simp [hj, hne j hj, h.deleted j]
    · intro j
      by_cases hj : j = i
      · subst hj; simpa [Registry.mask] using hmask
      · simpa [Registry.mask, hj, hne j hj] using h.mask j
  · intro a b hab
    have hfds : ∀ j, (Function.update s.chan i c j).fd = (s.chan j).fd := by
      intro j
      by_cases hj : j = i
      · subst hj; simp [hfd]
      · simp [hj]
    simp only [hfds] at hab
    exact h.inj hab
  · intro j
    by_cases hj : j = i
    · subst hj
      simp only [Function.update_self, hadded, hdeleted, hmapped]
      cases u with
      | false => simp [hentry rfl]
      | true => simpa using (em (entry = none)).symm
    · simpa [hj] using h.known j
  · intro j
    by_cases hj : j = i
    · subst hj; simpa using hdisabled
    · simpa [hj] using h.disabled j

theorem change_sound {s : Registry ι} (h : s.Sound) {i : ι} {ch : Change}
    (ha : s.Answers (.change i ch)) : ∃ s', s.step (.change i ch) = .ok s' ∧ s'.Sound := by
  have hdis : (ch == .disAbleAll) = true → true = true ∧ (ch.apply (s.chan i)).events = 0 :=
    fun hd => ⟨rfl, Change.apply_disAbleAll_events ch _ hd⟩
  have hfd : (ch.apply (s.chan i)).fd = (s.chan i).fd := ch.apply_fd _
  have hix : (ch.apply (s.chan i)).index = (s.chan i).index := ch.apply_index _
  have hne : (ch.apply (s.chan i)).isNoneEvent = (s.chan i).isNoneEvent := ch.apply_isNoneEvent _
  have hstep : s.step (.change i ch) = s.set i true (ch == .disAbleAll)
    (s.poller.updateChannel i (ch.apply (s.chan i))) := rfl
  simp only [Answers] at ha
  generalize ch.apply (s.chan i) = c at *
  rw [hstep]
  rcases ha with hnew | hdel | ⟨hadd, hnone⟩
  · have hup : s.poller.updateChannel i c = .ok _ := (updateChannel_new (hix.trans hnew)).2
      ⟨hfd ▸ channels_of_new h hnew, hfd ▸ kernel_of_new h hnew, rfl⟩
    refine ⟨_, by rw [hup]; rfl, set_sound h (c := c.setIndex KAdded) hfd rfl (by simp) ?_ ?_ rfl hdis⟩
    · simp [Channel.setIndex]
    · simp [Channel.setIndex, KAdded, KDeleted]
  · obtain ⟨hptr, hkernel⟩ := (h.deleted i).1 hdel
    have hup := (updateChannel_deleted (hix.trans hdel)).2 ⟨hfd ▸ hptr, hfd ▸ hkernel, rfl⟩
    refine ⟨_, by rw [hup]; rfl, set_sound h (c := c.setIndex KAdded) hfd rfl (by simp) ?_ ?_ rfl hdis⟩
    · simp [Channel.setIndex]
    · simp [Channel.setIndex, KAdded, KDeleted]
  · have hmapped : s.poller.channels c.fd ≠ none := by
      rw [hfd, channels_of_updated h ((h.known i).2 (Or.inl hadd))]
      simp
    have hkernel := hfd ▸ (h.added i).1 hadd
    cases hb : c.isNoneEvent with
    | true =>
      have hup : s.poller.updateChannel i c = .ok _ :=
        (updateChannel_added (hix.trans hadd)).2 ⟨hmapped, by rw [if_pos hb]⟩
      refine ⟨_, by rw [hup]; rfl, set_sound h (c := c.setIndex KDeleted) hfd rfl (by simp) ?_ ?_ ?_ hdis⟩
      · simp [Channel.setIndex, KAdded, KDeleted]
      · simp [Channel.setIndex]
      · exact (hnone (hne.symm.trans hb)).symm
    | false =>
      have hup : s.poller.updateChannel i c = .ok _ := (updateChannel_added (hix.trans hadd)).2
        ⟨hmapped, by rw [if_neg (by simp [hb])]; exact ⟨hkernel, rfl⟩⟩
      refine ⟨_, by rw [hup]; rfl, set_sound h (c := c) hfd rfl (by simp) ?_ ?_ rfl hdis⟩
      · simp [hix, hadd]
      · simp [hix, hadd, KAdded, KDeleted]

theorem remove_sound {s : Registry ι} (h : s.Sound) {i : ι} (hp : s.disabled i = true)
    (ha : s.Answers (.remove i)) : ∃ s', s.step (.remove i) = .ok s' ∧ s'.Sound := by
  obtain ⟨hu, hevents⟩ := h.disabled i hp
  simp only [Answers] at ha
  have hmapped := channels_of_updated h hu
  have hremove : (s.chan i).remove = .ok { s.chan i with addToLoop := false } :=
    require_bind ha _ _
  have hpoller : s.poller.removeChannel i { s.chan i with addToLoop := false } = .ok _ :=
    removeChannel_ok.2 ⟨by rw [hmapped]; simp, ha, (h.known i).1 hu, rfl⟩
  have hkernel : (if (s.chan i).index = KAdded then
      Function.update s.poller.kernel (s.chan i).fd none else s.poller.kernel) =
      Function.update s.poller.kernel (s.chan i).fd none := by
    split_ifs with hadd
    · rfl
    · rw [← ((h.deleted i).1 (((h.known i).1 hu).resolve_left hadd)).2, Function.update_eq_self]
  simp only [hkernel] at hpoller
  refine ⟨_, by rw [step, hremove, ok_bind, hpoller]; rfl, ?_⟩
  exact set_sound h (c := Channel.setIndex { s.chan i with addToLoop := false } KNew) rfl rfl
    (fun _ => rfl) (by simp [Channel.setIndex, KNew, KAdded])
    (by simp [Channel.setIndex, KNew, KDeleted]) hevents.symm (by simp)

theorem poll_sound {s : Registry ι} (h : s.Sound) (i : ι) (r : Mask) :
    Sound { s with chan := Function.update s.chan i ((s.chan i).setRevents r) } := by
  have hfd (j : ι) : (Function.update s.chan i ((s.chan i).setRevents r) j).fd = (s.chan j).fd := by
    by_cases hj : j = i
    · subst hj; simp [Channel.setRevents]
    · simp [hj]
  have hindex (j : ι) :
      (Function.update s.chan i ((s.chan i).setRevents r) j).index = (s.chan j).index := by
    by_cases hj : j = i
    · subst hj; simp [Channel.setRevents]
    · simp [hj]
  have hevents (j : ι) :
      (Function.update s.chan i ((s.chan i).setRevents r) j).events = (s.chan j).events := by
    by_cases hj : j = i
    · subst hj; simp [Channel.setRevents]
    · simp [hj]
  constructor
  · constructor <;> simp only [Registry.mask, hfd, hindex, hevents]
    · exact h.channels
    · exact h.added
    · exact h.deleted
    · exact h.mask
  · simpa only [hfd] using h.inj
  · simpa only [hindex] using h.known
  · simpa only [hevents] using h.disabled

theorem step_sound {s : Registry ι} (h : s.Sound) {o : RegistryOp ι} (hp : s.Protocol o)
    (ha : s.Answers o) : ∃ s', s.step o = .ok s' ∧ s'.Sound := by
  cases o with
  | change i ch => exact change_sound h ha
  | remove i => exact remove_sound h hp ha
  | poll i r => exact ⟨_, rfl, poll_sound h i r⟩

theorem answers_of_registered {s s' : Registry ι} {o : RegistryOp ι} (hs : s.step o = .ok s')
    (hr : s'.Registered) : s.Answers o := by
  cases o with
  | change i ch =>
    obtain ⟨p, c, hup, rfl⟩ := set_ok hs
    by_cases hnew : (s.chan i).index = KNew
    · exact Or.inl hnew
    by_cases hdel : (s.chan i).index = KDeleted
    · exact Or.inr (Or.inl hdel)
    by_cases hadd : (s.chan i).index = KAdded
    · refine Or.inr (Or.inr ⟨hadd, fun hnone => ?_⟩)
      have hup := ((updateChannel_added (by simpa using hadd)).1 hup).2
      rw [if_pos (by simpa using hnone)] at hup
      cases hup
      have := hr.mask i
      simpa [Registry.mask, Channel.setIndex] using this.symm
    · exact absurd hup (updateChannel_unknown (by simpa using hnew) (by simpa using hadd)
        (by simpa using hdel))
  | remove i =>
    obtain ⟨p, c, hup, rfl⟩ := set_ok hs
    obtain ⟨c', hremove, -⟩ := bind_ok.1 hup
    exact (require_bind_ok.1 hremove).1
  | poll i r => trivial

theorem registered_iff_answers {s : Registry ι} (h : s.Sound) {ops : List (RegistryOp ι)}
    (hp : Along step Protocol s ops) :
    Holds step (fun _ _ s' => s'.Registered) s ops ↔ Along step Answers s ops := by
  refine holds_iff_along (I := Sound) (fun s o h hp => ?_) (fun s o s' h hp hs hr => ?_) h hp
  · refine ⟨fun ⟨s', hs, hr⟩ => answers_of_registered hs hr, fun ha => ?_⟩
    obtain ⟨s', hs, h'⟩ := step_sound h hp ha
    exact ⟨s', hs, h'.toRegistered⟩
  · obtain ⟨t, ht, h'⟩ := step_sound h hp (answers_of_registered hs hr)
    rw [hs] at ht
    cases ht
    exact h'

def Untouched (s : Registry ι) : Prop := ∀ i, (s.chan i).index = 0 ∧ s.disabled i = false

theorem answers_iff_polls : ∀ {ops : List (RegistryOp ι)} {s : Registry ι}, s.Untouched →
    Along step Protocol s ops → (Along step Answers s ops ↔ ∀ o ∈ ops, ∃ i r, o = .poll i r) := by
  intro ops
  induction ops with
  | nil => intro s _ _; simp [Along]
  | cons o ops ih =>
    intro s hs hp
    cases o with
    | change i ch =>
      refine iff_of_false (fun ha => ?_) fun hall => ?_
      · have := ha.1
        simp [Answers, (hs i).1, KNew, KAdded, KDeleted] at this
      · obtain ⟨j, r, h⟩ := hall _ (List.mem_cons_self ..)
        cases h
    | remove i =>
      have := hp.1
      simp [Protocol, (hs i).2] at this
    | poll i r =>
      have hs' : Untouched { s with chan := Function.update s.chan i ((s.chan i).setRevents r) } := by
        intro j
        by_cases hj : j = i
        · subst hj; simpa [Channel.setRevents] using hs j
        · simpa [hj] using hs j
      have hp' := ((along_cons_ok rfl ops).1 hp).2
      rw [along_cons_ok rfl ops, ih hs' hp']
      simp [Answers]

end Registry

variable {ι : Type} [DecidableEq ι]

/-- Freshly constructed channels are registered as they should be in exactly the
runs that never update one: `index_` starts at 0, which is not `KNew`. -/
theorem fresh_channels_registered_iff (fd : ι → ℕ) (hfd : Function.Injective fd)
    (ops : List (RegistryOp ι)) (hp : Along Registry.step Registry.Protocol (Registry.new fd) ops) :
    (Registry.new fd).Registered ∧
        Holds Registry.step (fun _ _ s' => s'.Registered) (Registry.new fd) ops ↔
      ∀ o ∈ ops, ∃ i r, o = .poll i r := by
  have hsound := Registry.new_sound hfd
  rw [and_iff_right hsound.toRegistered, Registry.registered_iff_answers hsound hp]
  exact Registry.answers_iff_polls (fun i => ⟨rfl, rfl⟩) hp

theorem fresh_channels_registered_polled :
    (Registry.new fun i : Fin 2 => i.val + 3).Registered ∧
      Holds Registry.step (fun _ _ s' => s'.Registered) (Registry.new fun i : Fin 2 => i.val + 3)
        [.poll 0 POLLIN, .poll 1 POLLOUT] :=
  (fresh_channels_registered_iff _ (fun i j h => by simpa [Fin.ext_iff] using h) _ (by decide)).2
    (by simp)

/-- The first `enableReading` of a new channel fails the assertion that its fd is
in `channels_`. -/
theorem first_update_fails :
    Along Registry.step Registry.Protocol (Registry.new fun _ : Unit => 3)
        [.change () .enableReading] ∧
      ¬ ((Registry.new fun _ : Unit => 3).Registered ∧
        Holds Registry.step (fun _ _ s' => s'.Registered) (Registry.new fun _ : Unit => 3)
          [.change () .enableReading]) := by
  refine ⟨by decide, ?_⟩
  rintro ⟨-, s, hs, -⟩
  cases hs

/-- With `KNew` for the constructor's 0 the second defect would show: a registered
channel whose last revents were empty is dropped by any update. -/
theorem registered_from_KNew (fd : ι → ℕ) (hfd : Function.Injective fd) (ops : List (RegistryOp ι)) :
    let s : Registry ι := { Registry.new fd with chan := fun i => (Channel.new (fd i)).setIndex KNew }
    Along Registry.step Registry.Protocol s ops →
      (Holds Registry.step (fun _ _ s' => s'.Registered) s ops ↔
        Along Registry.step Registry.Answers s ops) := by
  intro s hp
  have h := Registry.new_sound hfd
  refine Registry.registered_iff_answers (s := s) ⟨⟨h.channels, ?_, ?_, h.mask⟩, h.inj, ?_, h.disabled⟩ hp
  · simp [s, Registry.new, EPollPoller.new, Channel.setIndex, KNew, KAdded]
  · simp [s, Registry.new, EPollPoller.new, Channel.setIndex, KNew, KDeleted]
  · simp [s, Registry.new, Channel.setIndex, KNew, KAdded, KDeleted]

end Czy.Net
