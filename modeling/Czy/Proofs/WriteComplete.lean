import Czy.Lib.Run
import Czy.Sanity.TcpConnection

/-! The completed writes of a connection against the calls of the user's function for
them. -/

namespace Czy.Net

open StepRun TcpConnection Buffer

/-- `send` is called by a thread other than the loop's and queues the message. What a user
callback sends stands behind the step that runs the callback. -/
inductive CompletionOp
  | sendInLoop (message : List UInt8) (w : WriteResult)
  | send (message : List UInt8)
  | handleWrite (w : WriteResult)
  | startReadInLoop
  | stopReadInLoop
  | runPending (w : WriteResult)

/-- A connection, and how many messages the direct write has taken whole and how many
write events have emptied `outputBuffer_`. -/
structure Completions where
  conn : TcpConnection
  direct : ℕ
  emptied : ℕ

namespace TcpConnection

/-- `sendInLoop`, which has led from `c` to `c'`, wrote the message whole. -/
def SentWhole (c c' : TcpConnection) (message : List UInt8) : Prop :=
  c'.effects = c.effects ++ [Effect.write message (.ok message.length)]

instance (c c' : TcpConnection) (message : List UInt8) : Decidable (SentWhole c c' message) :=
  inferInstanceAs (Decidable (_ = _))

def headMessage (c : TcpConnection) : Option (List UInt8) :=
  match c.pendingFunctors with
  | .sendInLoop message :: _ => some message
  | _ => none

def Emptied (c c' : TcpConnection) : Prop :=
  c.outputBuffer.readable ≠ [] ∧ c'.outputBuffer.readable = []

instance (c c' : TcpConnection) : Decidable (Emptied c c') := inferInstanceAs (Decidable (_ ∧ _))

def completionCalls (c : TcpConnection) : ℕ := c.effects.count .writeCompleteCallback

end TcpConnection

namespace Completions

def start (c : TcpConnection) : Completions := ⟨c, 0, 0⟩

def sent (s : Completions) (message : List UInt8) (c' : TcpConnection) : Completions :=
  { s with conn := c', direct := s.direct + if SentWhole s.conn c' message then 1 else 0 }

end Completions

namespace CompletionOp

def step (s : Completions) : CompletionOp → Except Fault Completions
  | sendInLoop message w => (s.conn.sendInLoop message w).map (s.sent message)
  | send message => (s.conn.send false message (.ok 0)).map fun c' => { s with conn := c' }
  | handleWrite w => (s.conn.handleWrite w).map fun c' =>
    { s with conn := c', emptied := s.emptied + if Emptied s.conn c' then 1 else 0 }
  | startReadInLoop => .ok { s with conn := s.conn.startReadInLoop }
  | stopReadInLoop => .ok { s with conn := s.conn.stopReadInLoop }
  | runPending w => (s.conn.runPending w []).map fun c' =>
    match s.conn.headMessage with
    | some message => s.sent message c'
    | none => { s with conn := c' }

def LeavesSome (s : Completions) : CompletionOp → Prop
  | handleWrite w => s.conn.channel.isWriting = true → s.conn.outputBuffer.readable ≠ [] →
    accepted w s.conn.outputBuffer.readable.length ≠ s.conn.outputBuffer.readable.length
  | _ => True

instance (s : Completions) (o : CompletionOp) : Decidable (LeavesSome s o) :=
  match o with
  | handleWrite _ => inferInstanceAs (Decidable (_ → _ → _))
  | sendInLoop _ _ | send _ | startReadInLoop | stopReadInLoop | runPending _ => .isTrue trivial

end CompletionOp

namespace TcpConnection

variable {a b c c' : TcpConnection} {message : List UInt8} {w : WriteResult} {m n : ℕ}

structure Queues (n : ℕ) (c c' : TcpConnection) : Prop where
  calls : c'.completionCalls = c.completionCalls
  queued : c'.pendingFunctors.count .writeCompleteCallback =
    c.pendingFunctors.count .writeCompleteCallback + n
  callback : c'.hasWriteComplete = c.hasWriteComplete

theorem Queues.refl (c : TcpConnection) : Queues 0 c c := ⟨rfl, rfl, rfl⟩

theorem Queues.trans (h : Queues m a b) (h' : Queues n b c) : Queues (m + n) a c :=
  ⟨h'.calls.trans h.calls, by rw [h'.queued, h.queued, Nat.add_assoc],
    h'.callback.trans h.callback⟩

theorem emit_queues {e : Effect} (he : e ≠ .writeCompleteCallback) (c : TcpConnection) :
    Queues 0 c (c.emit e) :=
  ⟨by simp [completionCalls, emit, he], rfl, rfl⟩

theorem setState_queues (st : StateE) (c : TcpConnection) : Queues 0 c (c.setState st) :=
  ⟨(emit_queues (by simp) c).calls, rfl, rfl⟩

theorem updateChannel_queues (change : Channel → Channel) (c : TcpConnection) :
    Queues 0 c (c.updateChannel change) :=
  ⟨(emit_queues (by simp) c).calls, rfl, rfl⟩

theorem queueInLoop_queues {f : Functor} (hf : f ≠ .writeCompleteCallback) (c : TcpConnection) :
    Queues 0 c (c.queueInLoop f) :=
  ⟨rfl, by simp [queueInLoop, hf], rfl⟩

theorem noteHighWaterMark_queues (k : ℕ) (c : TcpConnection) : Queues 0 c (c.noteHighWaterMark k) := by
  unfold noteHighWaterMark
  simp only
  split_ifs
  · exact queueInLoop_queues (by simp) c
  · exact .refl c

theorem buffered_queues (rest : List UInt8) (buf : Buffer) (c : TcpConnection) :
    Queues 0 c (c.buffered rest buf) := by
  have hnote : Queues 0 c { c.noteHighWaterMark rest.length with outputBuffer := buf } :=
    (noteHighWaterMark_queues rest.length c).trans (n := 0) ⟨rfl, rfl, rfl⟩
  unfold buffered
  simp only
  split_ifs
  · exact hnote
  · exact hnote.trans (updateChannel_queues _ _)

theorem shutdownInLoop_queues (c : TcpConnection) : Queues 0 c c.shutdownInLoop := by
  unfold shutdownInLoop
  split_ifs
  · exact .refl c
  · exact emit_queues (by simp) c

/-- What `handleWrite` queues calls nothing when it runs. -/
theorem writeDrained_queues (c : TcpConnection) : Queues 0 c c.writeDrained := by
  have hdisable := updateChannel_queues .disableWriting c
  unfold writeDrained
  simp only
  split_ifs
  · exact (hdisable.trans (queueInLoop_queues (by simp) _)).trans (shutdownInLoop_queues _)
  · exact hdisable.trans (queueInLoop_queues (by simp) _)
  · exact hdisable.trans (shutdownInLoop_queues _)
  · exact hdisable

theorem startReadInLoop_queues (c : TcpConnection) : Queues 0 c c.startReadInLoop := by
  unfold startReadInLoop
  split_ifs
  · exact (updateChannel_queues .enableReading c).trans (n := 0) ⟨rfl, rfl, rfl⟩
  · exact .refl c

theorem stopReadInLoop_queues (c : TcpConnection) : Queues 0 c c.stopReadInLoop := by
  unfold stopReadInLoop
  split_ifs
  · exact updateChannel_queues .disableReading c
  · exact .refl c

theorem forceCloseInLoop_queues (h : c.forceCloseInLoop [] = .ok c') : Queues 0 c c' := by
  unfold forceCloseInLoop at h
  split_ifs at h
  · obtain ⟨-, h⟩ := require_bind_ok.1 h
    cases h
    have hdown := (setState_queues .KDisconnected c).trans (updateChannel_queues .disAbleAll _)
    exact (hdown.trans (emit_queues (by simp) _)).trans (emit_queues (by simp) _)
  · cases h
    exact .refl c

theorem send_queues (h : c.send false message w = .ok c') : Queues 0 c c' := by
  unfold send at h
  split_ifs at h
  · cases h
    exact queueInLoop_queues (by simp) c
  · cases h
    exact .refl c

def TakesWhole (c : TcpConnection) (message : List UInt8) (w : WriteResult) : Prop :=
  c.Direct ∧ w.clamp message.length = .ok message.length

instance (c : TcpConnection) (message : List UInt8) (w : WriteResult) :
    Decidable (c.TakesWhole message w) := inferInstanceAs (Decidable (_ ∧ _))

theorem offer_queues (hcb : c.hasWriteComplete = true) (message : List UInt8) (w : WriteResult) :
    Queues (if c.TakesWhole message w then 1 else 0) c (c.offer message w) := by
  have hwrite : Queues 0 c (c.write message w) := emit_queues (by simp) c
  by_cases hd : c.Direct
  · have htakes : c.TakesWhole message w ↔ w.clamp message.length = .ok message.length :=
      and_iff_right hd
    simp only [htakes]
    unfold offer writeDirectly
    rw [if_pos hd]
    cases w with
    | error e => exact hwrite
    | ok k =>
      have hclamp : WriteResult.clamp (.ok k) message.length = .ok (min k message.length) := rfl
      have hcb' : (c.write message (.ok k)).hasWriteComplete = true := hcb
      simp only [hclamp, Except.ok.injEq, hcb', and_true]
      by_cases hk : min k message.length = message.length
      · rw [if_pos hk, if_pos (by omega)]
        exact hwrite.trans (n := 1) ⟨rfl, by simp [queueInLoop], rfl⟩
      · rw [if_neg hk, if_neg (by omega)]
        exact hwrite
  · rw [if_neg fun h => hd h.1, offer, if_neg hd]
    exact .refl c

theorem left_of_takesWhole (h : c.TakesWhole message w) : c.left message w = [] := by
  obtain ⟨hd, hw⟩ := h
  unfold left
  rw [if_pos hd]
  cases w with
  | error e => cases hw
  | ok k =>
    have hk : min k message.length = message.length := Except.ok.inj hw
    exact List.drop_of_length_le (by omega)

theorem sentWhole_offer : SentWhole c (c.offer message w) message ↔ c.TakesWhole message w := by
  unfold SentWhole TakesWhole
  rw [offer_effects, List.append_cancel_left_eq, offered]
  split_ifs with hd <;> simp [hd]

theorem not_sentWhole_buffered (hleft : c.left message w ≠ []) (buf : Buffer) :
    ¬ SentWhole c ((c.offer message w).buffered (c.left message w) buf) message := by
  have hnot : ¬ c.TakesWhole message w := fun h => hleft (left_of_takesWhole h)
  unfold SentWhole
  rw [buffered_effects, offer_effects, List.append_assoc, List.append_cancel_left_eq, offered]
  intro he
  by_cases hd : c.Direct
  · rw [if_pos hd] at he
    exact hnot ⟨hd, by injection he with he _; injection he⟩
  · rw [if_neg hd] at he
    split_ifs at he <;> simp at he

theorem sendInLoop_queues (hcb : c.hasWriteComplete = true) (hinv : c.outputBuffer.Inv)
    (h : c.sendInLoop message w = .ok c') :
    Queues (if SentWhole c c' message then 1 else 0) c c' ∧ c'.outputBuffer.Inv := by
  by_cases hs : c.state = .KDisconnected
  · rw [sendInLoop, if_pos hs] at h
    cases h
    have hnot : ¬ SentWhole c c message := by simp [SentWhole]
    rw [if_neg hnot]
    exact ⟨.refl c, hinv⟩
  · rw [sendInLoop_eq _ _ _ hs] at h
    split_ifs at h with hleft
    · cases h
      have hq := offer_queues hcb message w
      simp only [sentWhole_offer]
      exact ⟨hq, by rwa [offer_outputBuffer]⟩
    · obtain ⟨buf, hbuf, rfl⟩ := bufferRemaining_ok.1 h
      have hnot : ¬ c.TakesWhole message w := fun h => hleft (left_of_takesWhole h)
      have hq := offer_queues hcb message w
      rw [if_neg hnot] at hq
      rw [if_neg (not_sentWhole_buffered hleft buf)]
      rw [offer_outputBuffer] at hbuf
      exact ⟨hq.trans (buffered_queues _ buf _), by simpa using (append_ok hinv hbuf).2.1⟩

theorem handleWrite_queues (hinv : c.outputBuffer.Inv) (h : c.handleWrite w = .ok c') :
    Queues 0 c c' ∧ c'.outputBuffer.Inv ∧ (Emptied c c' ↔ c.channel.isWriting = true ∧
      c.outputBuffer.readable ≠ [] ∧
        accepted w c.outputBuffer.readable.length = c.outputBuffer.readable.length) := by
  by_cases hw : c.channel.isWriting = true
  · obtain ⟨buf, hbuf, hread, hok⟩ := handleWrite_writing w hinv hw
    have hwritten : Queues 0 c (c.written w buf) :=
      (emit_queues (e := .write c.outputBuffer.readable (w.clamp c.outputBuffer.readable.length))
        (by simp) c).trans (n := 0) ⟨rfl, rfl, rfl⟩
    have hout : c'.outputBuffer = buf := by
      rw [hok] at h
      cases h
      split_ifs
      · rw [writeDrained_outputBuffer, written_outputBuffer]
      · rw [written_outputBuffer]
    have hle : accepted w c.outputBuffer.readable.length ≤ c.outputBuffer.readable.length := by
      cases w with
      | error e => exact Nat.zero_le _
      | ok k => exact Nat.min_le_right _ _
    refine ⟨?_, by rwa [hout], ?_⟩
    · rw [hok] at h
      cases h
      split_ifs
      · exact hwritten.trans (writeDrained_queues _)
      · exact hwritten
    · unfold Emptied
      rw [hout, hread, List.drop_eq_nil_iff, and_iff_right hw]
      exact and_congr_right fun _ => ⟨fun hge => by omega, fun he => by omega⟩
  · rw [handleWrite_not_writing _ _ (Bool.eq_false_iff.2 hw)] at h
    cases h
    exact ⟨.refl c, hinv, iff_of_false (fun he => he.1 he.2) fun he => hw he.1⟩

theorem runFunctor_queues {f : Functor} (hm : ∀ message, f ≠ .sendInLoop message)
    (hf : f ≠ .writeCompleteCallback) (hinv : c.outputBuffer.Inv)
    (h : c.runFunctor f w [] = .ok c') : Queues 0 c c' ∧ c'.outputBuffer.Inv := by
  cases f with
  | sendInLoop message => exact absurd rfl (hm message)
  | shutdownInLoop => cases h; exact ⟨shutdownInLoop_queues c, by simpa using hinv⟩
  | forceCloseInLoop =>
    refine ⟨forceCloseInLoop_queues h, ?_⟩
    simp only [runFunctor, forceCloseInLoop] at h
    split_ifs at h
    · obtain ⟨-, h⟩ := require_bind_ok.1 h
      cases h
      exact hinv
    · cases h
      exact hinv
  | stopReadInLoop =>
    cases h
    refine ⟨stopReadInLoop_queues c, ?_⟩
    unfold stopReadInLoop
    split_ifs <;> exact hinv
  | writeCompleteCallback => exact absurd rfl hf
  | writeCompleteMember => cases h; exact ⟨.refl c, hinv⟩
  | highWaterMarkCallback len => cases h; exact ⟨emit_queues (by simp) c, hinv⟩

end TcpConnection

namespace Completions

/-- Of the due calls those for direct writes have been made or are queued; nothing
is queued for the write events. -/
structure Inv (base : ℕ) (s : Completions) : Prop where
  buffer : s.conn.outputBuffer.Inv
  callback : s.conn.hasWriteComplete = true
  counted : s.conn.completionCalls + s.conn.pendingFunctors.count .writeCompleteCallback =
    base + s.direct

variable {s s' : Completions} {base n : ℕ} {c' : TcpConnection} {o : CompletionOp}

theorem Inv.queues (h : s.Inv base) (hq : Queues n s.conn c') (hb : c'.outputBuffer.Inv) (e : ℕ) :
    Inv base ⟨c', s.direct + n, e⟩ := by
  refine ⟨hb, hq.callback.trans h.callback, ?_⟩
  have hcount := h.counted
  simp only [hq.calls, hq.queued]
  omega

theorem runPending_inv {w : WriteResult} (h : s.Inv base)
    (hs : CompletionOp.step s (.runPending w) = .ok s') : s'.Inv base := by
  obtain ⟨c', hrun, rfl⟩ := map_ok.1 hs
  unfold runPending at hrun
  cases hfs : s.conn.pendingFunctors with
  | nil =>
    rw [hfs] at hrun
    cases hrun
    simp only [headMessage, hfs]
    exact h
  | cons f fs =>
    rw [hfs] at hrun
    let c₁ : TcpConnection := { s.conn with pendingFunctors := fs }
    have hpop : f ≠ .writeCompleteCallback → Queues 0 s.conn c₁ := fun hf =>
      ⟨rfl, by rw [hfs, List.count_cons_of_ne hf]; rfl, rfl⟩
    by_cases hm : ∃ message, f = .sendInLoop message
    · obtain ⟨message, rfl⟩ := hm
      obtain ⟨hq, hb⟩ := sendInLoop_queues (c := c₁) h.callback h.buffer hrun
      have hhead : s.conn.headMessage = some message := by rw [headMessage, hfs]
      have hsent := h.queues ((hpop (by simp)).trans hq) hb s.emptied
      rw [Nat.zero_add] at hsent
      simp only [hhead]
      exact hsent
    · have hhead : s.conn.headMessage = none := by
        unfold headMessage
        rw [hfs]
        cases f <;> first | rfl | exact absurd ⟨_, rfl⟩ hm
      simp only [hhead]
      by_cases hf : f = .writeCompleteCallback
      · subst hf
        cases hrun
        have hcount := h.counted
        rw [hfs, List.count_cons_self] at hcount
        refine ⟨h.buffer, h.callback, ?_⟩
        simp only [completionCalls, emit, List.count_append, List.count_singleton_self] at hcount ⊢
        omega
      · obtain ⟨hq, hb⟩ := runFunctor_queues (c := c₁) (fun message he => hm ⟨message, he⟩) hf
          h.buffer hrun
        exact h.queues (n := 0) ((hpop hf).trans hq) hb s.emptied

theorem step_inv (h : s.Inv base) (hs : CompletionOp.step s o = .ok s') : s'.Inv base := by
  cases o with
  | sendInLoop message w =>
    obtain ⟨c', hc', rfl⟩ := map_ok.1 hs
    obtain ⟨hq, hb⟩ := sendInLoop_queues h.callback h.buffer hc'
    exact h.queues hq hb _
  | send message =>
    obtain ⟨c', hc', rfl⟩ := map_ok.1 hs
    have hout : c'.outputBuffer = s.conn.outputBuffer := by
      unfold TcpConnection.send at hc'
      split_ifs at hc' <;> cases hc' <;> rfl
    exact h.queues (n := 0) (send_queues hc') (by rw [hout]; exact h.buffer) _
  | handleWrite w =>
    obtain ⟨c', hc', rfl⟩ := map_ok.1 hs
    obtain ⟨hq, hb, -⟩ := handleWrite_queues h.buffer hc'
    exact h.queues hq hb _
  | startReadInLoop =>
    cases hs
    have hout : s.conn.startReadInLoop.outputBuffer = s.conn.outputBuffer := by
      unfold startReadInLoop
      split_ifs <;> rfl
    exact h.queues (n := 0) (startReadInLoop_queues s.conn) (by rw [hout]; exact h.buffer) _
  | stopReadInLoop =>
    cases hs
    have hout : s.conn.stopReadInLoop.outputBuffer = s.conn.outputBuffer := by
      unfold stopReadInLoop
      split_ifs <;> rfl
    exact h.queues (n := 0) (stopReadInLoop_queues s.conn) (by rw [hout]; exact h.buffer) _
  | runPending w => exact runPending_inv h hs

theorem step_emptied (hs : CompletionOp.step s o = .ok s') (ho : ∀ w, o ≠ .handleWrite w) :
    s'.emptied = s.emptied := by
  cases o with
  | handleWrite w => exact absurd rfl (ho w)
  | sendInLoop message w => obtain ⟨_, _, rfl⟩ := map_ok.1 hs; rfl
  | send message => obtain ⟨_, _, rfl⟩ := map_ok.1 hs; rfl
  | startReadInLoop => cases hs; rfl
  | stopReadInLoop => cases hs; rfl
  | runPending w =>
    obtain ⟨_, _, rfl⟩ := map_ok.1 hs
    cases s.conn.headMessage <;> rfl

theorem emptied_le (hs : CompletionOp.step s o = .ok s') : s.emptied ≤ s'.emptied := by
  by_cases ho : ∃ w, o = .handleWrite w
  · obtain ⟨w, rfl⟩ := ho
    obtain ⟨c', -, rfl⟩ := map_ok.1 hs
    exact Nat.le_add_right _ _
  · exact (step_emptied hs fun w he => ho ⟨w, he⟩).ge

theorem step_emptied_iff (h : s.Inv base) (hs : CompletionOp.step s o = .ok s') :
    s'.emptied = s.emptied ↔ CompletionOp.LeavesSome s o := by
  by_cases ho : ∃ w, o = .handleWrite w
  · obtain ⟨w, rfl⟩ := ho
    obtain ⟨c', hc', rfl⟩ := map_ok.1 hs
    obtain ⟨-, -, hemptied⟩ := handleWrite_queues h.buffer hc'
    have hstays : (s.emptied + if Emptied s.conn c' then 1 else 0) = s.emptied ↔
        ¬ Emptied s.conn c' := by
      split_ifs with he <;> simp [he]
    refine hstays.trans ((not_congr hemptied).trans ?_)
    simp only [not_and]
    rfl
  · refine iff_of_true (step_emptied hs fun w he => ho ⟨w, he⟩) ?_
    cases o with
    | handleWrite w => exact absurd ⟨w, rfl⟩ ho
    | _ => trivial

end Completions

/-- The user's function has been called for every completed write exactly when no write
event completed one. -/
theorem write_complete_iff (c : TcpConnection) (hcb : c.hasWriteComplete = true)
    (hinv : c.outputBuffer.Inv) (hnone : .writeCompleteCallback ∉ c.pendingFunctors)
    (ops : List CompletionOp) (s : Completions)
    (hrun : run CompletionOp.step (.start c) ops = .ok s) (hdone : s.conn.pendingFunctors = []) :
    s.conn.completionCalls = c.completionCalls + s.direct + s.emptied ↔
      Along CompletionOp.step CompletionOp.LeavesSome (.start c) ops := by
  have hstart : Completions.Inv c.completionCalls (.start c) :=
    ⟨hinv, hcb, by simp [Completions.start, List.count_eq_zero.2 hnone]⟩
  have hcount := (run_inv (fun _ _ _ => Completions.step_inv) hstart hrun).counted
  rw [hdone, List.count_nil, Nat.add_zero] at hcount
  rw [hcount, eq_comm, Nat.add_eq_left]
  refine last_iff_along (I := fun s => s.Inv c.completionCalls ∧ s.emptied = 0)
    (Q := fun s => s.emptied = 0) (fun _ h => h.2)
    (fun _ _ _ hs h => Nat.eq_zero_of_le_zero (h ▸ Completions.emptied_le hs))
    (fun s o s' h hs => ?_) (fun _ _ _ h hs h' => ⟨Completions.step_inv h.1 hs, h'⟩)
    ⟨hstart, rfl⟩ hrun
  rw [← Completions.step_emptied_iff h.1 hs, h.2]

def watched : TcpConnection :=
  { ((TcpConnection.new 5).setState .KConnected).startReadInLoop with hasWriteComplete := true }

/-- The message goes out with the next write event, and nobody is told. -/
theorem write_complete_unheard :
    ∃ s, run CompletionOp.step (.start watched)
        [.sendInLoop [1, 2] (.ok 2), .handleWrite (.ok 2), .runPending (.ok 0)] = .ok s ∧
      s.conn.pendingFunctors = [] ∧
        s.conn.completionCalls ≠ watched.completionCalls + s.direct + s.emptied := by
  obtain ⟨s, hs, hcounts⟩ := ok_of_toOption_map
    (x := run CompletionOp.step (.start watched)
      [.sendInLoop [1, 2] (.ok 2), .handleWrite (.ok 2), .runPending (.ok 0)])
    (f := fun s => (s.conn.pendingFunctors, s.conn.completionCalls, s.direct, s.emptied))
    (a := ([], 0, 0, 1)) (by decide +kernel)
  simp only [Prod.mk.injEq] at hcounts
  obtain ⟨hdone, hcalls, hdirect, hemptied⟩ := hcounts
  refine ⟨s, hs, hdone, ?_⟩
  rw [hcalls, hdirect, hemptied]
  decide

theorem write_complete_direct :
    ∃ s, run CompletionOp.step
        (.start { (TcpConnection.new 5).setState .KConnected with hasWriteComplete := true })
        [.sendInLoop [1, 2] (.ok 2), .runPending (.ok 0)] = .ok s ∧
      s.conn.completionCalls = 0 + s.direct + s.emptied := by
  obtain ⟨s, hs, hdone⟩ := ok_of_toOption_map
    (x := run CompletionOp.step
      (.start { (TcpConnection.new 5).setState .KConnected with hasWriteComplete := true })
      [.sendInLoop [1, 2] (.ok 2), .runPending (.ok 0)])
    (f := fun s => s.conn.pendingFunctors) (a := []) (by decide +kernel)
  exact ⟨s, hs, (write_complete_iff _ rfl (new_inv _) (by decide) _ s hs hdone).2 (by decide +kernel)⟩

end Czy.Net
