import Czy.Sanity.TcpConnection

/-! What a call does to the life of a connection: how it moves `state_`, and how
often it runs the callbacks that report the end. -/

namespace Czy.Net

/-- The order in which a connection goes through its states. -/
def StateE.rank : StateE → ℕ
  | .KConnecting => 0
  | .KConnected => 1
  | .KDisConnecting => 2
  | .KDisconnected => 3

/-- From `a` through the states that were set to the last one, never backward. -/
def Advances (a : StateE) : List StateE → StateE → Prop
  | [], c => a = c
  | b :: bs, c => a.rank ≤ b.rank ∧ Advances b bs c

theorem Advances.append {a b c : StateE} : ∀ {l m : List StateE}, Advances a l b → Advances b m c →
    Advances a (l ++ m) c := by
  intro l
  induction l generalizing a with
  | nil => intro m h h'; cases h; exact h'
  | cons x l ih => intro m h h'; exact ⟨h.1, ih h.2 h'⟩

theorem Advances.split {a c : StateE} : ∀ {l m : List StateE}, Advances a (l ++ m) c →
    ∃ b, Advances a l b ∧ Advances b m c := by
  intro l
  induction l generalizing a with
  | nil => intro m h; exact ⟨a, rfl, h⟩
  | cons x l ih =>
    intro m h
    obtain ⟨b, hl, hm⟩ := ih h.2
    exact ⟨b, ⟨h.1, hl⟩, hm⟩

theorem Advances.last_unique {a b c : StateE} : ∀ {l : List StateE}, Advances a l b →
    Advances a l c → b = c := by
  intro l
  induction l generalizing a with
  | nil => intro h h'; exact h.symm.trans h'
  | cons x l ih => intro h h'; exact ih h.2 h'.2

namespace TcpConnection

/-- The states set, in order. -/
def stateSets (es : List Effect) : List StateE :=
  es.filterMap fun e => match e with
    | .setState s => some s
    | _ => none

theorem stateSets_append (es es' : List Effect) :
    stateSets (es ++ es') = stateSets es ++ stateSets es' := List.filterMap_append ..

/-- A call that runs the close callback `closes` times and reports DOWN `downs` times:
it never reports UP, moves the state forward, disconnects with the first report,
and turns no read interest on. -/
structure Moves (closes downs : ℕ) (c c' : TcpConnection) : Prop where
  trace : ∃ es, c'.effects = c.effects ++ es ∧ es.count .closeCallback = closes ∧
    es.count (.connectionCallback false) = downs ∧ .connectionCallback true ∉ es ∧
    Advances c.state (stateSets es) c'.state
  down : c'.state = .KDisconnected ↔ c.state = .KDisconnected ∨ 0 < downs
  revents : c'.channel.revents = c.channel.revents
  deaf : c.channel.isWriting = false → c'.channel.isWriting = false

theorem Moves.trans {m n m' n' : ℕ} {a b c : TcpConnection} (h : Moves m n a b)
    (h' : Moves m' n' b c) : Moves (m + m') (n + n') a c := by
  obtain ⟨es, he, hm, hn, hup, hadv⟩ := h.trace
  obtain ⟨es', he', hm', hn', hup', hadv'⟩ := h'.trace
  refine ⟨⟨es ++ es', ?_, ?_, ?_, ?_, ?_⟩, ?_, h'.revents.trans h.revents, fun hd => h'.deaf (h.deaf hd)⟩
  · rw [he', he, List.append_assoc]
  · rw [List.count_append, hm, hm']
  · rw [List.count_append, hn, hn']
  · simp [hup, hup']
  · rw [stateSets_append]
    exact hadv.append hadv'
  · rw [h'.down, h.down, or_assoc]
    refine or_congr_right ?_
    omega

theorem Moves.before {m n : ℕ} {a b c : TcpConnection} (h : Moves 0 0 a b) (h' : Moves m n b c) :
    Moves m n a c := by
  have := h.trans h'
  rwa [Nat.zero_add, Nat.zero_add] at this

/-- Effects that are no part of the life of the connection. -/
def isPlain : Effect → Bool
  | .setState _ | .connectionCallback _ | .closeCallback => false
  | _ => true

/-- A call that leaves the state alone and has plain effects only. -/
theorem Moves.plain {c c' : TcpConnection} (es : List Effect) (hs : c'.state = c.state)
    (he : c'.effects = c.effects ++ es) (hes : ∀ e ∈ es, isPlain e = true)
    (hr : c'.channel.revents = c.channel.revents)
    (hd : c.channel.isWriting = false → c'.channel.isWriting = false) : Moves 0 0 c c' := by
  have hnot : ∀ e, isPlain e = false → e ∉ es := fun e hf hm => by
    rw [hes e hm] at hf
    cases hf
  have hnone : stateSets es = [] := by
    unfold stateSets
    rw [List.filterMap_eq_nil_iff]
    intro e hm
    cases e with
    | setState s => cases hes _ hm
    | _ => rfl
  refine ⟨⟨es, he, ?_, ?_, hnot _ rfl, ?_⟩, by simp [hs], hr, hd⟩
  · exact List.count_eq_zero.2 (hnot _ rfl)
  · exact List.count_eq_zero.2 (hnot _ rfl)
  · rw [hnone]
    exact hs.symm

theorem Moves.same {c c' : TcpConnection} (hs : c'.state = c.state) (he : c'.effects = c.effects)
    (hc : c'.channel = c.channel) : Moves 0 0 c c' :=
  .plain [] hs (by rw [he, List.append_nil]) (by simp) (by rw [hc]) (by rw [hc]; exact id)

theorem Moves.refl (c : TcpConnection) : Moves 0 0 c c := .same rfl rfl rfl

theorem Moves.emit (c : TcpConnection) {e : Effect} (he : isPlain e = true) :
    Moves 0 0 c (c.emit e) :=
  .plain [e] rfl rfl (by simpa using he) rfl id

theorem Moves.queue (c : TcpConnection) (f : Functor) : Moves 0 0 c (c.queueInLoop f) :=
  .same rfl rfl rfl

variable {c c' : TcpConnection} {message : List UInt8} {w : WriteResult}

theorem sendInLoop_moves (h : c.sendInLoop message w = .ok c') : Moves 0 0 c c' := by
  by_cases hs : c.state = .KDisconnected
  · rw [sendInLoop, if_pos hs] at h
    cases h
    exact .refl c
  · rw [sendInLoop_eq _ _ _ hs] at h
    have hoff : Moves 0 0 c (c.offer message w) := by
      refine .plain (c.offered message w) (by simp) (by simp) ?_ (by simp) (by simp)
      unfold offered
      split_ifs
      · simp [isPlain]
      · simp
    split_ifs at h with hleft
    · cases h
      exact hoff
    · obtain ⟨buf, -, rfl⟩ := bufferRemaining_ok.1 h
      refine hoff.trans (.plain _ (by simp) (buffered_effects _ _ _) ?_ ?_ ?_)
      · split_ifs <;> simp [isPlain]
      · rw [buffered_channel]
        split_ifs <;> rfl
      · rw [buffered_channel]
        split_ifs <;> simp

theorem shutdownInLoop_moves (c : TcpConnection) : Moves 0 0 c c.shutdownInLoop := by
  refine .plain _ (by simp) c.shutdownInLoop_effects ?_ (by simp) (by simp)
  split_ifs <;> simp [isPlain]

theorem disconnecting_moves (ho : c.Open) : Moves 0 0 c (c.setState .KDisConnecting) := by
  refine ⟨⟨[.setState .KDisConnecting], rfl, rfl, rfl, by simp, ?_, rfl⟩, ?_, rfl, id⟩
  · rcases ho with h | h <;> simp [h, StateE.rank]
  · simp [setState, ho.ne_disconnected]

theorem forceClose_moves (c : TcpConnection) : Moves 0 0 c c.forceClose := by
  unfold forceClose
  split_ifs with ho
  · exact (disconnecting_moves ho).trans (.queue _ _)
  · exact .refl c

theorem stopReadInLoop_moves (c : TcpConnection) : Moves 0 0 c c.stopReadInLoop := by
  unfold stopReadInLoop
  split_ifs
  · exact .plain _ rfl rfl (by simp [isPlain]) rfl (fun _ => by simp [updateChannel])
  · exact .refl c

theorem runInLoop_moves {inLoop : Bool} {f : Functor} {now : Except Fault TcpConnection}
    (hnow : now = .ok c' → Moves 0 0 c c') (h : c.runInLoop inLoop f now = .ok c') :
    Moves 0 0 c c' := by
  unfold runInLoop at h
  split_ifs at h
  · exact hnow h
  · cases h
    exact .queue c f

theorem call_moves {inLoop : Bool} {u : UserCall} (h : c.call inLoop u = .ok c') :
    Moves 0 0 c c' := by
  cases u with
  | send message w =>
    simp only [call, send] at h
    split_ifs at h
    · exact runInLoop_moves sendInLoop_moves h
    · cases h
      exact .refl c
  | shutdown =>
    simp only [call, shutdown] at h
    split_ifs at h with hc
    · have hdis := disconnecting_moves (Or.inl hc)
      refine hdis.trans (runInLoop_moves (fun hnow => ?_) h)
      cases hnow
      exact shutdownInLoop_moves _
    · cases h
      exact .refl c
  | forceClose =>
    cases h
    exact forceClose_moves c
  | forceCloseWithDealy =>
    cases h
    unfold forceCloseWithDealy
    split_ifs with ho
    · refine (disconnecting_moves ho).before ?_
      exact .same rfl rfl rfl
    · exact .refl c
  | stopRead =>
    refine runInLoop_moves (fun hnow => ?_) h
    cases hnow
    exact stopReadInLoop_moves c

theorem userCallback_moves {calls : List UserCall} (h : c.userCallback calls = .ok c') :
    Moves 0 0 c c' := by
  induction calls generalizing c with
  | nil =>
    cases h
    exact .refl _
  | cons u us ih =>
    rw [userCallback, List.foldlM_cons] at h
    obtain ⟨c₁, hc₁, hrest⟩ := bind_ok.1 h
    exact (call_moves hc₁).trans (ih hrest)

theorem connectionCallback_disconnected (hs : c.state = .KDisconnected) {calls : List UserCall}
    (h : c.connectionCallback calls = .ok c') :
    ∃ es, c'.effects = c.effects ++ .connectionCallback false :: es ∧ es.count .closeCallback = 0 ∧
      es.count (.connectionCallback false) = 0 ∧ .connectionCallback true ∉ es ∧
      Advances .KDisconnected (stateSets es) c'.state ∧ c'.state = .KDisconnected ∧
      c'.channel.revents = c.channel.revents ∧
      (c.channel.isWriting = false → c'.channel.isWriting = false) := by
  have hm := userCallback_moves h
  obtain ⟨es, he, hcl, hdn, hup, hadv⟩ := hm.trace
  have hfalse : c.connected = false := by simp [connected, hs]
  refine ⟨es, ?_, hcl, hdn, hup, ?_, ?_, hm.revents, hm.deaf⟩
  · rw [he, hfalse]
    exact List.append_assoc ..
  · rw [← hs]
    exact hadv
  · exact hm.down.2 (Or.inl hs)

theorem disconnect_moves {calls : List UserCall}
    (h : ((c.setState .KDisconnected).updateChannel .disAbleAll).connectionCallback calls = .ok c') :
    Moves 0 1 c c' := by
  obtain ⟨es, he, hcl, hdn, hup, hadv, hs, hr, hd⟩ := connectionCallback_disconnected rfl h
  refine ⟨⟨.setState .KDisconnected :: .updateChannel 0 :: .connectionCallback false :: es,
    ?_, ?_, ?_, ?_, ?_⟩, by simp [hs], hr, fun _ => hd c.channel.disAbleAll_isWriting⟩
  · rw [he]
    simp [updateChannel, setState, emit, Channel.disAbleAll, Channel.update, Channel.KNoneEvent]
  · simpa using hcl
  · simpa using hdn
  · simpa using hup
  · refine ⟨?_, hadv⟩
    cases c.state <;> decide

theorem handleClose_moves {calls : List UserCall} (h : c.handleClose calls = .ok c') :
    Moves 1 1 c c' := by
  rw [handleClose, require_bind_ok] at h
  obtain ⟨c₁, hc₁, h⟩ := bind_ok.1 h.2
  cases h
  have hdis := disconnect_moves hc₁
  obtain ⟨es, he, hcl, hdn, hup, hadv⟩ := hdis.trace
  refine ⟨⟨es ++ [Effect.closeCallback], ?_, ?_, ?_, ?_, ?_⟩, hdis.down, hdis.revents, hdis.deaf⟩
  · rw [← List.append_assoc, ← he]
    rfl
  · simp [hcl]
  · simp [hdn]
  · simp [hup]
  · rw [stateSets_append]
    exact hadv.append rfl

theorem forceCloseInLoop_moves {calls : List UserCall} (h : c.forceCloseInLoop calls = .ok c') :
    Moves (if c.Open then 1 else 0) (if c.Open then 1 else 0) c c' := by
  unfold forceCloseInLoop at h
  by_cases ho : c.Open
  · rw [if_pos (show _ ∨ _ from ho)] at h
    simpa [ho] using handleClose_moves h
  · rw [if_neg (show ¬ (_ ∨ _) from ho)] at h
    cases h
    simpa [ho] using Moves.refl _

theorem removeChannel_moves (h : c.removeChannel = .ok c') : Moves 0 0 c c' := by
  obtain ⟨ch, hch, h⟩ := bind_ok.1 h
  cases h
  have hremove := (require_bind_ok.1 hch).2
  cases hremove
  exact .plain [.removeChannel] rfl rfl (by simp [isPlain]) rfl id

theorem connectDestory_moves {calls : List UserCall} (h : c.connectDestory calls = .ok c') :
    Moves 0 (if c.state = .KConnected then 1 else 0) c c' := by
  unfold connectDestory at h
  split_ifs at h ⊢ with hc
  · obtain ⟨c₁, hc₁, h⟩ := bind_ok.1 h
    exact (disconnect_moves hc₁).trans (removeChannel_moves h)
  · exact removeChannel_moves h

theorem readFd_eq_zero {b b' : Buffer} {r : Except ℤ (List UInt8)} {n e e' : ℤ}
    (h : b.readFd r e = .ok (b', n, e')) : n = 0 ↔ r = .ok [] := by
  cases r with
  | error errno =>
    cases h
    simp
  | ok offered =>
    have hcap : 0 < (if b.writeableBytes < 65536 then b.writeableBytes + 65536 else b.writeableBytes) := by
      split_ifs <;> omega
    simp only [Buffer.readFd] at h
    generalize (if b.writeableBytes < 65536 then b.writeableBytes + 65536
      else b.writeableBytes) = capacity at h hcap
    have hn : n = (offered.take capacity).length := by
      split_ifs at h
      · cases h
        rfl
      · obtain ⟨b₁, -, hrest⟩ := bind_ok.1 h
        cases hrest
        rfl
    rw [hn]
    cases offered with
    | nil => simp
    | cons x xs => simp; omega

def isEof : Except ℤ (List UInt8) → Bool
  | .ok [] => true
  | _ => false

theorem handleRead_moves {r : Except ℤ (List UInt8)} {calls : List UserCall}
    (h : c.handleRead r calls = .ok c') : Moves (isEof r).toNat (isEof r).toNat c c' := by
  obtain ⟨⟨buf, n, e⟩, hread, hrest⟩ := bind_ok.1 h
  have hzero := readFd_eq_zero hread
  have hbuf : Moves 0 0 c { c with inputBuffer := buf } := .same rfl rfl rfl
  by_cases hr : isEof r = true
  · have hn : n = 0 := by
      rw [hzero]
      unfold isEof at hr
      split at hr
      · rfl
      · cases hr
    simp only at hrest
    rw [if_neg (by omega), if_pos hn] at hrest
    rw [hr]
    exact hbuf.before (handleClose_moves hrest)
  · have hn : n ≠ 0 := by
      intro hn
      rw [hzero.1 hn] at hr
      exact hr rfl
    rw [Bool.eq_false_iff.2 hr]
    simp only at hrest
    split_ifs at hrest
    · exact hbuf.before ((Moves.emit _ rfl).before (userCallback_moves hrest))
    · cases hrest
      exact hbuf

theorem writeDrained_moves (hw : c.channel.isWriting = true) : Moves 0 0 c c.writeDrained :=
  .plain _ (by simp) (writeDrained_effects c hw) (by simp [isPlain]) (by rw [writeDrained_channel]; rfl)
    (by simp)

/-- A write event, whatever the buffer holds. -/
theorem handleWrite_moves (h : c.handleWrite w = .ok c') : Moves 0 0 c c' := by
  have hwrite : Moves 0 0 c (c.write c.outputBuffer.readable w) := .emit _ rfl
  unfold handleWrite at h
  split_ifs at h with hw
  · cases w with
    | error errno =>
      cases h
      exact hwrite
    | ok n =>
      simp only [WriteResult.clamp, Except.map] at h
      split_ifs at h
      · obtain ⟨buf, -, hrest⟩ := bind_ok.1 h
        have hbuf : Moves 0 0 c (c.written (.ok n) buf) := hwrite.before (.same rfl rfl rfl)
        cases hrest
        split_ifs
        · exact hbuf.before (writeDrained_moves hw)
        · exact hbuf
      · cases h
        exact hwrite
  · cases h
    exact .refl _

theorem runPending_moves {calls : List UserCall} (h : c.runPending w calls = .ok c') :
    ∃ k, k ≤ 1 ∧ (0 < k → c.Open) ∧ Moves k k c c' := by
  unfold runPending at h
  split at h
  · cases h
    exact ⟨0, by omega, by simp, .refl _⟩
  · rename_i f fs hq
    have hpop : Moves 0 0 c { c with pendingFunctors := fs } := .same rfl rfl rfl
    suffices hrun : ∃ k, k ≤ 1 ∧ (0 < k → c.Open) ∧ Moves k k { c with pendingFunctors := fs } c' by
      obtain ⟨k, hk, ho, hm⟩ := hrun
      exact ⟨k, hk, ho, hpop.before hm⟩
    cases f with
    | sendInLoop message => exact ⟨0, by omega, by simp, sendInLoop_moves h⟩
    | shutdownInLoop =>
      cases h
      exact ⟨0, by omega, by simp, shutdownInLoop_moves _⟩
    | forceCloseInLoop =>
      refine ⟨_, ?_, fun hk => ?_, forceCloseInLoop_moves h⟩
      · split_ifs <;> omega
      · split_ifs at hk with ho
        · exact ho
        · omega
    | stopReadInLoop =>
      cases h
      exact ⟨0, by omega, by simp, stopReadInLoop_moves _⟩
    | writeCompleteCallback =>
      exact ⟨0, by omega, by simp, (Moves.emit _ rfl).before (userCallback_moves h)⟩
    | writeCompleteMember =>
      cases h
      exact ⟨0, by omega, by simp, .refl _⟩
    | highWaterMarkCallback len =>
      exact ⟨0, by omega, by simp, (Moves.emit _ rfl).before (userCallback_moves h)⟩

theorem timerExpired_moves (c : TcpConnection) (alive : Bool) : Moves 0 0 c (c.timerExpired alive) := by
  have htick : Moves 0 0 c { c with timers := c.timers - 1 } := .same rfl rfl rfl
  unfold timerExpired
  split_ifs
  · exact .refl c
  · exact htick.before (forceClose_moves _)
  · exact htick

end TcpConnection

end Czy.Net
