import Czy.Proofs.OutputStream

/-! The half close of a connection against the messages sent before it, from its
loop's thread and from any number of other threads. -/

namespace Czy.Net

open StepRun TcpConnection Buffer

/-- The calls and events of a run. A call from another thread is split where the
loop's thread can come in between: the test of `state_` (with the change of it,
in `shutdown`), then the functor enters the queue. -/
inductive ShutdownOp
  | send (message : List UInt8) (room : Option ℕ)
  | sendTest (message : List UInt8)
  | sendPush (i : ℕ)
  | shutdown
  | shutdownTest
  | shutdownPush
  | handleWrite (room : Option ℕ)
  | runFunctor (room : Option ℕ)

/-- The connection, and what other threads have in their hands: messages past the
test of `state_`, a shutdown past it. As history, the messages given to
`sendInLoop`, and those whose `send` has returned before `shutdown` was called. -/
structure Shutting where
  conn : TcpConnection
  passed : List (List UInt8)
  shutdownPassed : Bool
  given : List (List UInt8)
  due : List (List UInt8)

namespace Shutting

def start (c : TcpConnection) : Shutting := ⟨c, [], false, [], []⟩

/-- A `send` of another thread returns when its functor is in the queue, a `send` on
the loop's thread after `sendInLoop`. -/
def step (s : Shutting) : ShutdownOp → Except Fault Shutting
  | .send message room => do
    let c ← s.conn.send true message (StreamOp.result room)
    if s.conn.state = .KConnected then
      return { s with conn := c, given := s.given ++ [message], due := s.due ++ [message] }
    else return { s with conn := c }
  | .sendTest message =>
    if s.conn.state = .KConnected then .ok { s with passed := s.passed ++ [message] } else .ok s
  | .sendPush i =>
    match s.passed[i]? with
    | none => .ok s
    | some message => .ok { s with
        conn := s.conn.queueInLoop (.sendInLoop message)
        passed := s.passed.eraseIdx i
        due := if s.conn.state = .KConnected then s.due ++ [message] else s.due }
  | .shutdown => do
    let c ← s.conn.shutdown true
    return { s with conn := c }
  | .shutdownTest =>
    if s.conn.state = .KConnected then
      .ok { s with conn := s.conn.setState .KDisConnecting, shutdownPassed := true }
    else .ok s
  | .shutdownPush =>
    if s.shutdownPassed then
      .ok { s with conn := s.conn.queueInLoop .shutdownInLoop, shutdownPassed := false }
    else .ok s
  | .handleWrite room => do
    let c ← s.conn.handleWrite (StreamOp.result room)
    return { s with conn := c }
  | .runFunctor room => do
    let c ← s.conn.runPending (StreamOp.result room) []
    return { s with conn := c, given := s.given ++ queuedMessages (s.conn.pendingFunctors.take 1) }

/-- The kernel's bytes start with whole messages, those that are due among them. -/
def Delivered (s : Shutting) (sent : List UInt8) : Prop :=
  ∃ g, g <+: s.given ∧ s.due.Subperm g ∧ g.flatten <+: sent

def isWrite : Effect → Bool
  | .write _ _ => true
  | _ => false

/-- The half close comes after the last byte that is due, and nothing is written
after it. -/
def Graceful (s : Shutting) : Prop :=
  ∀ pre post, s.conn.effects = pre ++ .shutdownWrite :: post →
    s.Delivered (sentBytes pre) ∧ ∀ e ∈ post, isWrite e = false

/-- When the half close is due to happen: nothing is pending, no message is in the
queue behind it or in the hands of another thread. -/
def Settled (s : Shutting) (behind : List Functor) : Prop :=
  s.conn.channel.isWriting = false →
    s.conn.outputBuffer.readable = [] ∧ queuedMessages behind = [] ∧ s.passed = []

/-- `shutdownInLoop` passes its test in settled states only. -/
def Patient (s : Shutting) : ShutdownOp → Prop
  | .shutdown => s.conn.state = .KConnected → s.Settled s.conn.pendingFunctors
  | .runFunctor _ =>
    s.conn.pendingFunctors.head? = some .shutdownInLoop → s.Settled s.conn.pendingFunctors.tail
  | _ => True

instance (s : Shutting) (behind : List Functor) : Decidable (s.Settled behind) :=
  inferInstanceAs (Decidable (_ → _))

instance (s : Shutting) (o : ShutdownOp) : Decidable (s.Patient o) :=
  match o with
  | .shutdown | .runFunctor _ => inferInstanceAs (Decidable (_ → _))
  | .send _ _ | .sendTest _ | .sendPush _ | .shutdownTest | .shutdownPush | .handleWrite _ =>
    .isTrue trivial

end Shutting

namespace TcpConnection

variable {c c' : TcpConnection} {message : List UInt8} {w : WriteResult}

/-- What neither shuts down nor changes the state or the read interest. -/
structure Calm (c c' : TcpConnection) : Prop where
  state : c'.state = c.state
  writing : c'.channel.isWriting = c.channel.isWriting
  notices : Notices c c'
  shut : .shutdownWrite ∈ c'.effects → .shutdownWrite ∈ c.effects

theorem Calm.trans {a b c : TcpConnection} (h : Calm a b) (h' : Calm b c) : Calm a c :=
  ⟨h'.state.trans h.state, h'.writing.trans h.writing, h.notices.trans h'.notices,
    fun hs => h.shut (h'.shut hs)⟩

theorem offer_calm (c : TcpConnection) (message : List UInt8) (w : WriteResult) :
    Calm c (c.offer message w) := by
  refine ⟨by simp, by simp, offer_notices c message w, ?_⟩
  rw [offer_effects, offered]
  split_ifs <;> simp

theorem buffered_calm (c : TcpConnection) (rest : List UInt8) (buf : Buffer) :
    Calm c (c.buffered rest buf) := by
  refine ⟨by simp, ?_, buffered_notices c rest buf, ?_⟩
  · rw [buffered_channel]
    split_ifs <;> simp
  · rw [buffered_effects]
    split_ifs <;> simp

theorem sendInLoop_calm (ho : c.Open) (h : c.sendInLoop message w = .ok c') : Calm c c' := by
  rw [sendInLoop_eq _ _ _ ho.ne_disconnected] at h
  split_ifs at h with hleft
  · cases h
    exact offer_calm c message w
  · obtain ⟨buf, -, rfl⟩ := bufferRemaining_ok.1 h
    exact (offer_calm c message w).trans (buffered_calm _ _ buf)

/-- If nothing is pending after `sendInLoop`, nothing was before, and the kernel has
accepted the whole message. -/
theorem sendInLoop_flushed (ho : c.Open) (hinv : c.outputBuffer.Inv) {room : Option ℕ}
    (h : c.sendInLoop message (StreamOp.result room) = .ok c')
    (hempty : c'.outputBuffer.readable = []) :
    c.outputBuffer.readable = [] ∧ sentBytes c'.effects = sentBytes c.effects ++ message := by
  rw [sendInLoop_eq _ _ _ ho.ne_disconnected] at h
  split_ifs at h with hleft
  · cases h
    refine ⟨by simpa using hempty, ?_⟩
    have hsplit := c.offered_left message room
    rw [hleft, List.append_nil] at hsplit
    rw [offer_effects, sentBytes_append, hsplit]
  · obtain ⟨buf, hbuf, rfl⟩ := bufferRemaining_ok.1 h
    rw [offer_outputBuffer] at hbuf
    obtain ⟨-, -, hread⟩ := append_ok hinv hbuf
    rw [buffered_outputBuffer, hread] at hempty
    simp [hleft] at hempty

theorem handleWrite_calm (hinv : c.outputBuffer.Inv) (hw : c.channel.isWriting = true)
    (h : c.handleWrite w = .ok c') : Calm c c' := by
  obtain ⟨buf, -, -, hok⟩ := handleWrite_writing w hinv hw
  rw [hok] at h
  cases h
  have hwritten : Calm c (c.written w buf) := ⟨rfl, rfl, .none rfl, by simp⟩
  split_ifs
  · refine hwritten.trans ⟨by simp, by simp, writeDrained_notices _, ?_⟩
    rw [writeDrained_effects _ (by simpa using hw)]
    simp
  · exact hwritten

end TcpConnection

namespace Shutting

variable {s s' : Shutting}

/-- The invariant. With the read interest on, `isWriting` is true and nothing is ever
shut; with it off, nothing is ever drained. -/
structure Orderly (s : Shutting) : Prop where
  isOpen : s.conn.Open
  buffer : s.conn.outputBuffer.Inv
  queue : ∀ f ∈ s.conn.pendingFunctors,
    isNotice f = true ∨ f = .shutdownInLoop ∨ ∃ message, f = .sendInLoop message
  account : s.due.Subperm (s.given ++ queuedMessages s.conn.pendingFunctors)
  called : .shutdownInLoop ∈ s.conn.pendingFunctors ∨ s.shutdownPassed = true →
    s.conn.state ≠ .KConnected
  unshut : s.conn.channel.isWriting = true → .shutdownWrite ∉ s.conn.effects
  flushed : s.conn.channel.isWriting = false → s.conn.outputBuffer.readable = [] →
    sentBytes s.conn.effects = s.given.flatten
  quiet : .shutdownWrite ∈ s.conn.effects → s.conn.state ≠ .KConnected ∧
    queuedMessages s.conn.pendingFunctors = [] ∧ s.passed = []
  graceful : s.Graceful

theorem graceful_of_not_shut (h : .shutdownWrite ∉ s.conn.effects) : s.Graceful := by
  intro pre post he
  exact absurd (by rw [he]; simp) h

theorem graceful_emit (h : s.Graceful) {e : Effect} (he : isWrite e = false)
    (hd : e = .shutdownWrite → s.Delivered (sentBytes s.conn.effects))
    (heff : s'.conn.effects = s.conn.effects ++ [e]) (hg : s'.given = s.given)
    (hdue : s'.due = s.due) : s'.Graceful := by
  intro pre post hsplit
  have hsame : s'.Delivered = s.Delivered := by
    unfold Delivered
    rw [hg, hdue]
  rw [heff] at hsplit
  rw [hsame]
  rcases List.eq_nil_or_concat post with rfl | ⟨post', e', rfl⟩
  · obtain ⟨rfl, rfl⟩ := List.append_singleton_inj.1 hsplit
    exact ⟨hd rfl, by simp⟩
  · rw [List.concat_eq_append, ← List.cons_append, ← List.append_assoc] at hsplit
    obtain ⟨hold, rfl⟩ := List.append_singleton_inj.1 hsplit
    obtain ⟨hdel, hpost⟩ := h pre post' hold
    refine ⟨hdel, fun f hf => ?_⟩
    rw [List.concat_eq_append] at hf
    rcases List.mem_append.1 hf with hf | hf
    · exact hpost f hf
    · rw [List.mem_singleton.1 hf]
      exact he

theorem Orderly.delivered (h : s.Orderly) {behind : List Functor}
    (hq : queuedMessages s.conn.pendingFunctors = queuedMessages behind)
    (hset : s.Settled behind) (hw : s.conn.channel.isWriting = false) :
    s.Delivered (sentBytes s.conn.effects) := by
  obtain ⟨hempty, hbehind, -⟩ := hset hw
  refine ⟨s.given, List.prefix_rfl, ?_, ?_⟩
  · have hacc := h.account
    rwa [hq, hbehind, List.append_nil] at hacc
  · rw [h.flushed hw hempty]

theorem mem_of_notices {c c' : TcpConnection} (h : Notices c c') {f : Functor}
    (hf : isNotice f = false) (hm : f ∈ c'.pendingFunctors) : f ∈ c.pendingFunctors := by
  obtain ⟨fs, hfs, hn⟩ := h
  rw [hfs] at hm
  rcases List.mem_append.1 hm with hm | hm
  · exact hm
  · rw [hn f hm] at hf
    cases hf

theorem queuedMessages_of_notices {c c' : TcpConnection} (h : Notices c c') :
    queuedMessages c'.pendingFunctors = queuedMessages c.pendingFunctors := by
  obtain ⟨fs, hfs, hn⟩ := h
  rw [hfs, queuedMessages_append, queuedMessages_notices hn, List.append_nil]

theorem queue_of_notices {c c' : TcpConnection} (h : Notices c c')
    (hq : ∀ f ∈ c.pendingFunctors,
      isNotice f = true ∨ f = .shutdownInLoop ∨ ∃ message, f = .sendInLoop message) :
    ∀ f ∈ c'.pendingFunctors,
      isNotice f = true ∨ f = .shutdownInLoop ∨ ∃ message, f = .sendInLoop message := by
  obtain ⟨fs, hfs, hn⟩ := h
  intro f hf
  rw [hfs] at hf
  rcases List.mem_append.1 hf with hf | hf
  · exact hq f hf
  · exact Or.inl (hn f hf)

theorem given_orderly {c : TcpConnection} {message : List UInt8} {room : Option ℕ}
    {due : List (List UInt8)} (h : s.Orderly) (hnot : .shutdownWrite ∉ s.conn.effects)
    (fs : List Functor) (hfs : ∀ f ∈ fs, f ∈ s.conn.pendingFunctors)
    (hacc : due.Subperm (s.given ++ [message] ++ queuedMessages fs))
    (hs : { s.conn with pendingFunctors := fs }.sendInLoop message (StreamOp.result room) = .ok c) :
    Orderly { s with conn := c, given := s.given ++ [message], due := due } := by
  have hcalm := sendInLoop_calm (c := { s.conn with pendingFunctors := fs }) h.isOpen hs
  have hinv := sendInLoop_inv (c := { s.conn with pendingFunctors := fs }) h.isOpen h.buffer hs
  have hnot' : .shutdownWrite ∉ c.effects := fun hm => hnot (hcalm.shut hm)
  refine ⟨hinv.1, hinv.2, ?_, ?_, ?_, fun _ => hnot', ?_, fun hm => absurd hm hnot',
    graceful_of_not_shut hnot'⟩
  · exact queue_of_notices hcalm.notices fun f hf => h.queue f (hfs f hf)
  · rw [queuedMessages_of_notices hcalm.notices]
    exact hacc
  · intro hcall
    rw [hcalm.state]
    refine h.called (hcall.imp_left fun hm => hfs _ (mem_of_notices hcalm.notices rfl hm))
  · intro hw hempty
    rw [hcalm.writing] at hw
    obtain ⟨hbefore, hsent⟩ :=
      sendInLoop_flushed (c := { s.conn with pendingFunctors := fs }) h.isOpen h.buffer hs hempty
    rw [hsent, h.flushed hw hbefore]
    simp

theorem emit_orderly (h : s.Orderly) {e : Effect} (he : isWrite e = false)
    (hne : e ≠ .shutdownWrite) : Orderly { s with conn := s.conn.emit e } := by
  have hsent : sentBytes (s.conn.emit e).effects = sentBytes s.conn.effects := by
    change sentBytes (s.conn.effects ++ [e]) = _
    rw [sentBytes_append]
    cases e <;> simp_all [sentBytes, isWrite]
  have hshut : .shutdownWrite ∈ (s.conn.emit e).effects → .shutdownWrite ∈ s.conn.effects := by
    intro hm
    rcases List.mem_append.1 hm with hm | hm
    · exact hm
    · exact absurd (List.mem_singleton.1 hm).symm hne
  refine ⟨h.isOpen, h.buffer, h.queue, h.account, h.called, fun hw hm => h.unshut hw (hshut hm),
    fun hw hempty => ?_, fun hm => h.quiet (hshut hm), ?_⟩
  · rw [← h.flushed hw hempty]
    exact hsent
  · exact graceful_emit h.graceful he (fun heq => absurd heq hne) rfl rfl rfl

theorem pop_orderly (h : s.Orderly) {f : Functor} {fs : List Functor}
    (hq : s.conn.pendingFunctors = f :: fs) (hf : queuedMessages [f] = []) :
    Orderly { s with conn := { s.conn with pendingFunctors := fs } } := by
  have hsub : ∀ g ∈ fs, g ∈ s.conn.pendingFunctors := fun g hg => by
    rw [hq]
    exact List.mem_cons_of_mem _ hg
  have hsame : queuedMessages s.conn.pendingFunctors = queuedMessages fs := by
    rw [hq, ← List.singleton_append, queuedMessages_append, hf, List.nil_append]
  refine ⟨h.isOpen, h.buffer, fun g hg => h.queue g (hsub g hg), ?_, ?_, h.unshut, h.flushed, ?_,
    h.graceful⟩
  · rw [← hsame]
    exact h.account
  · exact fun hc => h.called (hc.imp_left (hsub _))
  · intro hm
    rw [← hsame]
    exact h.quiet hm

theorem disconnecting_orderly (h : s.Orderly) (hc : s.conn.state = .KConnected) (b : Bool) :
    Orderly { s with conn := s.conn.setState .KDisConnecting, shutdownPassed := b } := by
  have hnot : .shutdownWrite ∉ s.conn.effects := fun hm => (h.quiet hm).1 hc
  have he := emit_orderly h (e := .setState .KDisConnecting) rfl (by simp)
  have hne : (s.conn.setState .KDisConnecting).state ≠ .KConnected := by simp [setState]
  exact ⟨Or.inr rfl, he.buffer, he.queue, he.account, fun _ => hne, he.unshut, he.flushed,
    fun hm => ⟨hne, (he.quiet hm).2⟩, he.graceful⟩

theorem shutdownInLoop_orderly (h : s.Orderly) (hstate : s.conn.state ≠ .KConnected)
    (hset : s.Settled s.conn.pendingFunctors) :
    Orderly { s with conn := s.conn.shutdownInLoop } := by
  unfold shutdownInLoop
  by_cases hw : s.conn.channel.isWriting = true
  · rw [if_pos hw]
    exact h
  · rw [if_neg hw]
    have hoff : s.conn.channel.isWriting = false := Bool.eq_false_iff.2 hw
    refine ⟨h.isOpen, h.buffer, h.queue, h.account, h.called, fun hon => absurd hon hw, ?_, ?_, ?_⟩
    · intro _ hempty
      rw [← h.flushed hoff hempty]
      change sentBytes (s.conn.effects ++ [_]) = _
      rw [sentBytes_append]
      exact List.append_nil _
    · exact fun _ => ⟨hstate, (hset hoff).2⟩
    · exact graceful_emit h.graceful rfl (fun _ => h.delivered rfl hset hoff) rfl rfl rfl

theorem runPending_orderly (h : s.Orderly) {room : Option ℕ} (hp : s.Patient (.runFunctor room))
    (hs : s.step (.runFunctor room) = .ok s') : s'.Orderly := by
  obtain ⟨c, hc, hs⟩ := bind_ok.1 hs
  cases hs
  unfold runPending at hc
  cases hq : s.conn.pendingFunctors with
  | nil =>
    rw [hq] at hc
    cases hc
    simpa [queuedMessages] using h
  | cons f fs =>
    rw [hq] at hc
    have hhead : queuedMessages (List.take 1 (f :: fs)) = queuedMessages [f] := rfl
    rw [hhead]
    cases f with
    | sendInLoop message =>
      refine given_orderly h (fun hm => ?_) fs (fun g hg => ?_) ?_ hc
      · have := (h.quiet hm).2.1
        rw [hq] at this
        simp [queuedMessages] at this
      · rw [hq]
        exact List.mem_cons_of_mem _ hg
      · have hacc := h.account
        rw [hq] at hacc
        simpa [queuedMessages] using hacc
    | shutdownInLoop =>
      cases hc
      have hpop := pop_orderly h hq rfl
      have hset := hp (by rw [hq]; rfl)
      rw [hq] at hset
      have hstate := h.called (Or.inl (by rw [hq]; exact List.mem_cons_self ..))
      simpa [queuedMessages] using shutdownInLoop_orderly hpop hstate hset
    | forceCloseInLoop => simpa [hq, isNotice] using h.queue .forceCloseInLoop
    | stopReadInLoop => simpa [hq, isNotice] using h.queue .stopReadInLoop
    | writeCompleteCallback =>
      cases hc
      simpa [queuedMessages] using emit_orderly (pop_orderly h hq rfl) (e := .writeCompleteCallback)
        rfl (by simp)
    | writeCompleteMember =>
      cases hc
      simpa [queuedMessages] using pop_orderly h hq rfl
    | highWaterMarkCallback len =>
      cases hc
      simpa [queuedMessages] using emit_orderly (pop_orderly h hq rfl)
        (e := .highWaterMarkCallback len) rfl (by simp)

theorem step_orderly (h : s.Orderly) {o : ShutdownOp} (hp : s.Patient o) (hs : s.step o = .ok s') :
    s'.Orderly := by
  cases o with
  | send message room =>
    obtain ⟨c, hc, hs⟩ := bind_ok.1 hs
    by_cases hcon : s.conn.state = .KConnected
    · rw [if_pos hcon] at hs
      cases hs
      rw [TcpConnection.send, if_pos hcon] at hc
      refine given_orderly h (fun hm => (h.quiet hm).1 hcon) _ (fun g hg => hg) ?_ hc
      have hacc := (List.subperm_append_right [message]).2 h.account
      refine hacc.trans (List.Perm.subperm ?_)
      rw [List.append_assoc, List.append_assoc]
      exact (List.perm_append_comm).append_left _
    · rw [if_neg hcon] at hs
      cases hs
      rw [TcpConnection.send, if_neg hcon] at hc
      cases hc
      exact h
  | sendTest message =>
    by_cases hcon : s.conn.state = .KConnected
    · simp only [step, if_pos hcon] at hs
      cases hs
      exact { h with quiet := fun hm => absurd hcon (h.quiet hm).1 }
    · simp only [step, if_neg hcon] at hs
      cases hs
      exact h
  | sendPush i =>
    cases hi : s.passed[i]? with
    | none =>
      simp only [step, hi] at hs
      cases hs
      exact h
    | some message =>
      simp only [step, hi] at hs
      cases hs
      have hnot : .shutdownWrite ∉ s.conn.effects := fun hm => by
        rw [(h.quiet hm).2.2] at hi
        simp at hi
      have hone : queuedMessages [.sendInLoop message] = [message] := rfl
      refine ⟨h.isOpen, h.buffer, ?_, ?_, ?_, h.unshut, h.flushed, fun hm => absurd hm hnot,
        graceful_of_not_shut hnot⟩
      · intro f hf
        rcases List.mem_append.1 hf with hf | hf
        · exact h.queue f hf
        · exact Or.inr (Or.inr ⟨message, List.mem_singleton.1 hf⟩)
      · have hacc := (List.subperm_append_right [message]).2 h.account
        simp only [TcpConnection.queueInLoop, queuedMessages_append, hone, ← List.append_assoc]
        split_ifs
        · exact hacc
        · exact (List.sublist_append_left _ _).subperm.trans hacc
      · intro hcall
        refine h.called (hcall.imp_left fun hm => ?_)
        rcases List.mem_append.1 hm with hm | hm
        · exact hm
        · cases List.mem_singleton.1 hm
  | shutdown =>
    obtain ⟨c, hc, hs⟩ := bind_ok.1 hs
    cases hs
    by_cases hcon : s.conn.state = .KConnected
    · rw [TcpConnection.shutdown, if_pos hcon] at hc
      cases hc
      have hdis := disconnecting_orderly h hcon s.shutdownPassed
      exact shutdownInLoop_orderly hdis (by simp [setState]) (hp hcon)
    · rw [TcpConnection.shutdown, if_neg hcon] at hc
      cases hc
      exact h
  | shutdownTest =>
    by_cases hcon : s.conn.state = .KConnected
    · simp only [step, if_pos hcon] at hs
      cases hs
      exact disconnecting_orderly h hcon true
    · simp only [step, if_neg hcon] at hs
      cases hs
      exact h
  | shutdownPush =>
    by_cases hpass : s.shutdownPassed = true
    · simp only [step, if_pos hpass] at hs
      cases hs
      have hne := h.called (Or.inr hpass)
      have hone : queuedMessages [.shutdownInLoop] = [] := rfl
      have hsame : queuedMessages (s.conn.pendingFunctors ++ [.shutdownInLoop]) =
          queuedMessages s.conn.pendingFunctors := by
        rw [queuedMessages_append, hone, List.append_nil]
      refine ⟨h.isOpen, h.buffer, ?_, ?_, fun _ => hne, h.unshut, h.flushed, ?_, h.graceful⟩
      · intro f hf
        rcases List.mem_append.1 hf with hf | hf
        · exact h.queue f hf
        · exact Or.inr (Or.inl (List.mem_singleton.1 hf))
      · simp only [TcpConnection.queueInLoop, hsame]
        exact h.account
      · simp only [TcpConnection.queueInLoop, hsame]
        exact h.quiet
    · simp only [step, if_neg hpass] at hs
      cases hs
      exact h
  | handleWrite room =>
    obtain ⟨c, hc, hs⟩ := bind_ok.1 hs
    cases hs
    by_cases hw : s.conn.channel.isWriting = true
    · have hcalm := handleWrite_calm h.buffer hw hc
      have hinv := handleWrite_inv h.isOpen h.buffer hc
      have hnot : .shutdownWrite ∉ c.effects := fun hm => h.unshut hw (hcalm.shut hm)
      have hon : c.channel.isWriting = true := hcalm.writing.trans hw
      refine ⟨hinv.1, hinv.2, queue_of_notices hcalm.notices h.queue, ?_, ?_, fun _ => hnot, ?_,
        fun hm => absurd hm hnot, graceful_of_not_shut hnot⟩
      · simp only [queuedMessages_of_notices hcalm.notices]
        exact h.account
      · intro hcall
        rw [hcalm.state]
        exact h.called (hcall.imp_left (mem_of_notices hcalm.notices rfl))
      · intro hoff
        rw [hon] at hoff
        cases hoff
    · rw [handleWrite_not_writing _ _ (Bool.eq_false_iff.2 hw)] at hc
      cases hc
      exact h
  | runFunctor room => exact runPending_orderly h hp hs

/-- An established connection before its first message, the interests being any. -/
structure Idle (c : TcpConnection) : Prop where
  state : c.state = .KConnected
  buffer : c.outputBuffer.Inv
  empty : c.outputBuffer.readable = []
  queue : c.pendingFunctors = []
  unsent : sentBytes c.effects = []
  unshut : .shutdownWrite ∉ c.effects

theorem start_orderly {c : TcpConnection} (h : Idle c) : (start c).Orderly where
  isOpen := Or.inl h.state
  buffer := h.buffer
  queue := by simp [start, h.queue]
  account := by simp [start]
  called := by simp [start, h.queue]
  unshut := fun _ => h.unshut
  flushed := fun _ _ => h.unsent
  quiet := fun hm => absurd hm h.unshut
  graceful := graceful_of_not_shut h.unshut

end Shutting

/-- In every run whose `shutdownInLoop` passes its test in settled states only, the
half close comes after all that is due, and no write comes after it. -/
theorem shutdown_graceful (c : TcpConnection) (hc : Shutting.Idle c) (ops : List ShutdownOp)
    (hp : Along Shutting.step Shutting.Patient (Shutting.start c) ops) (s : Shutting)
    (hs : run Shutting.step (Shutting.start c) ops = .ok s) : s.Graceful :=
  (run_inv_along (fun _ _ _ h hp hs => Shutting.step_orderly h hp hs) (Shutting.start_orderly hc)
    hp hs).graceful

theorem shutdown_graceful_queued :
    ∃ s, run Shutting.step (Shutting.start ((TcpConnection.new 5).setState .KConnected))
      [.send [1] (some 1), .sendTest [2], .sendPush 0, .shutdownTest, .shutdownPush,
        .runFunctor (some 1), .runFunctor none] = .ok s ∧ s.Graceful := by
  obtain ⟨s, hs, -⟩ := ok_of_toOption_map
    (x := run Shutting.step (Shutting.start ((TcpConnection.new 5).setState .KConnected))
      [.send [1] (some 1), .sendTest [2], .sendPush 0, .shutdownTest, .shutdownPush,
        .runFunctor (some 1), .runFunctor none])
    (f := fun s => s.conn.state) (a := .KDisConnecting) (by decide +kernel)
  refine ⟨s, hs, shutdown_graceful _ ⟨rfl, new_inv _, new_readable _, rfl, rfl, ?_⟩ _ ?_ s hs⟩
  · simp [TcpConnection.setState, TcpConnection.new, emit]
  · decide +kernel

/-- One message of which the kernel takes nothing, then `shutdown`: the half close
does not wait for it. -/
theorem shutdown_cuts_off :
    ∃ s, run Shutting.step (Shutting.start ((TcpConnection.new 5).setState .KConnected))
      [.send [1] none, .shutdown] = .ok s ∧ ¬ s.Graceful := by
  obtain ⟨s, hs, hrun⟩ := ok_of_toOption_map
    (x := run Shutting.step (Shutting.start ((TcpConnection.new 5).setState .KConnected))
      [.send [1] none, .shutdown])
    (f := fun s => (s.conn.effects, s.due))
    (a := ([.setState .KConnected, .write [1] (.error EWOULDBLOCK), .updateChannel POLLOUT,
      .setState .KDisConnecting, .shutdownWrite], [[1]])) (by decide +kernel)
  obtain ⟨heffects, hdue⟩ := Prod.mk.inj hrun
  refine ⟨s, hs, fun hg => ?_⟩
  obtain ⟨⟨g, -, hsub, hsent⟩, -⟩ := hg [.setState .KConnected,
    .write [1] (.error EWOULDBLOCK), .updateChannel POLLOUT, .setState .KDisConnecting] [] heffects
  rw [hdue] at hsub
  have hmem : [1] ∈ g := hsub.subset (List.mem_singleton_self _)
  have hnone : g.flatten = [] := List.prefix_nil.1 hsent
  exact absurd (List.flatten_eq_nil_iff.1 hnone _ hmem) (by simp)

end Czy.Net
