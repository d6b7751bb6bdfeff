import Czy.Sanity.Buffer
import Czy.Sanity.Channel
import Czy.Spec.TcpConnection

/-! What `sendInLoop` and `handleWrite` can do to the state, the channel, the
output buffer and the effects. -/

namespace Czy.Net.TcpConnection

open Buffer

theorem sentBytes_append (es es' : List Effect) :
    sentBytes (es ++ es') = sentBytes es ++ sentBytes es' := by
  induction es with
  | nil => rfl
  | cons e es ih =>
    cases e with
    | write offered r => cases r <;> simp [sentBytes, ih]
    | _ => simpa [sentBytes] using ih

@[simp] theorem sentBytes_write (offered : List UInt8) (w : WriteResult) :
    sentBytes [.write offered (w.clamp offered.length)] =
      match w with
      | .ok n => offered.take n
      | .error _ => [] := by
  cases w with
  | error e => rfl
  | ok n => simp [sentBytes, WriteResult.clamp, Except.map]

variable (c : TcpConnection)

def Open : Prop := c.state = .KConnected ∨ c.state = .KDisConnecting

instance : Decidable c.Open := inferInstanceAs (Decidable (_ ∨ _))

theorem Open.ne_disconnected {c : TcpConnection} (h : c.Open) : c.state ≠ .KDisconnected := by
  rcases h with h | h <;> rw [h] <;> decide

theorem forceClose_of_open {c : TcpConnection} (h : c.Open) :
    c.forceClose = (c.setState .KDisConnecting).queueInLoop .forceCloseInLoop := if_pos h

def Direct : Prop := c.channel.isWriting = false ∧ c.outputBuffer.readableBytes = 0

instance : Decidable c.Direct := inferInstanceAs (Decidable (_ ∧ _))

/-- What `sendInLoop` has left for the output buffer. -/
def left (message : List UInt8) (w : WriteResult) : List UInt8 :=
  if c.Direct then
    match w with
    | .ok n => message.drop n
    | .error errno => if errno = EPIPE ∨ errno = ECONNRESET then [] else message
  else message

def offer (message : List UInt8) (w : WriteResult) : TcpConnection :=
  if c.Direct then (c.writeDirectly message w).1 else c

def offered (message : List UInt8) (w : WriteResult) : List Effect :=
  if c.Direct then [.write message (w.clamp message.length)] else []

section Offer

variable (message : List UInt8) (w : WriteResult)

theorem writeDirectly_cases : (c.writeDirectly message w).1 = c.write message w ∨
    (c.writeDirectly message w).1 = (c.write message w).queueInLoop .writeCompleteCallback := by
  unfold writeDirectly
  cases w with
  | error e => exact Or.inl rfl
  | ok n =>
    simp only [WriteResult.clamp, Except.map]
    split_ifs
    · exact Or.inr rfl
    · exact Or.inl rfl

theorem offer_cases : c.offer message w = c ∧ ¬ c.Direct ∨
    c.Direct ∧ (c.offer message w = c.write message w ∨
      c.offer message w = (c.write message w).queueInLoop .writeCompleteCallback) := by
  unfold offer
  split_ifs with h
  · exact Or.inr ⟨h, writeDirectly_cases c message w⟩
  · exact Or.inl ⟨rfl, h⟩

@[simp] theorem offer_state : (c.offer message w).state = c.state := by
  rcases c.offer_cases message w with ⟨h, -⟩ | ⟨-, h | h⟩ <;> rw [h] <;> rfl

@[simp] theorem offer_channel : (c.offer message w).channel = c.channel := by
  rcases c.offer_cases message w with ⟨h, -⟩ | ⟨-, h | h⟩ <;> rw [h] <;> rfl

@[simp] theorem offer_outputBuffer : (c.offer message w).outputBuffer = c.outputBuffer := by
  rcases c.offer_cases message w with ⟨h, -⟩ | ⟨-, h | h⟩ <;> rw [h] <;> rfl

@[simp] theorem offer_effects :
    (c.offer message w).effects = c.effects ++ c.offered message w := by
  unfold offered
  rcases c.offer_cases message w with ⟨h, hd⟩ | ⟨hd, h | h⟩ <;> rw [h]
  · rw [if_neg hd, List.append_nil]
  · rw [if_pos hd]; rfl
  · rw [if_pos hd]; rfl

@[simp] theorem noteHighWaterMark_state (n : ℕ) : (c.noteHighWaterMark n).state = c.state := by
  unfold noteHighWaterMark
  simp only
  split_ifs <;> rfl

@[simp] theorem noteHighWaterMark_channel (n : ℕ) : (c.noteHighWaterMark n).channel = c.channel := by
  unfold noteHighWaterMark
  simp only
  split_ifs <;> rfl

@[simp] theorem noteHighWaterMark_outputBuffer (n : ℕ) :
    (c.noteHighWaterMark n).outputBuffer = c.outputBuffer := by
  unfold noteHighWaterMark
  simp only
  split_ifs <;> rfl

@[simp] theorem noteHighWaterMark_effects (n : ℕ) : (c.noteHighWaterMark n).effects = c.effects := by
  unfold noteHighWaterMark
  simp only
  split_ifs <;> rfl


theorem writeDirectly_ok (n : ℕ) :
    (c.writeDirectly message (.ok n)).2 = (min n message.length, false) := by
  simp only [writeDirectly, WriteResult.clamp, Except.map]
  split_ifs <;> rfl

theorem writeDirectly_error (errno : ℤ) : (c.writeDirectly message (.error errno)).2 =
    (0, decide (errno ≠ EWOULDBLOCK ∧ (errno = EPIPE ∨ errno = ECONNRESET))) := rfl

/-- The direct write, then the output buffer for what is left. -/
theorem sendInLoop_eq (hs : c.state ≠ .KDisconnected) : c.sendInLoop message w =
    if c.left message w = [] then .ok (c.offer message w)
    else (c.offer message w).bufferRemaining (c.left message w) := by
  unfold sendInLoop left offer
  rw [if_neg hs]
  by_cases hd : c.Direct
  · have hfast : (!c.channel.isWriting) = true ∧ c.outputBuffer.readableBytes = 0 :=
      ⟨by rw [hd.1]; rfl, hd.2⟩
    rw [if_pos hfast, if_pos hd, if_pos hd]
    cases w with
    | ok n =>
      have hsnd := writeDirectly_ok c message n
      generalize c.writeDirectly message (.ok n) = r at hsnd ⊢
      obtain ⟨c₁, nwrote, faultError⟩ := r
      simp only [Prod.mk.injEq] at hsnd
      obtain ⟨rfl, rfl⟩ := hsnd
      simp only
      rw [require_bind (Nat.sub_le _ _)]
      by_cases hn : message.length ≤ n
      · rw [if_neg (by omega), if_pos (List.drop_of_length_le hn)]
        rfl
      · have hleft : message.drop n ≠ [] := by
          rw [ne_eq, List.drop_eq_nil_iff]
          exact hn
        rw [if_pos ⟨rfl, by omega⟩, if_neg hleft, Nat.min_eq_left (by omega)]
    | error errno =>
      have hsnd := writeDirectly_error c message errno
      generalize c.writeDirectly message (.error errno) = r at hsnd ⊢
      obtain ⟨c₁, nwrote, faultError⟩ := r
      simp only [Prod.mk.injEq] at hsnd
      obtain ⟨rfl, rfl⟩ := hsnd
      simp only
      rw [require_bind (Nat.sub_le _ _)]
      by_cases hf : errno = EPIPE ∨ errno = ECONNRESET
      · have hne : errno ≠ EWOULDBLOCK := by rcases hf with rfl | rfl <;> decide
        rw [if_neg (by simp [hf, hne]), if_pos (by rw [if_pos hf])]
        rfl
      · rw [if_neg hf]
        by_cases hm : message = []
        · rw [if_neg (by simp [hm]), if_pos hm]
          rfl
        · rw [if_pos ⟨by simp [hf], by simpa [List.length_pos_iff] using hm⟩, if_neg hm]
          rfl
  · have hslow : ¬ ((!c.channel.isWriting) = true ∧ c.outputBuffer.readableBytes = 0) := by
      intro h
      exact hd ⟨by simpa using h.1, h.2⟩
    rw [if_neg hslow, if_neg hd, if_neg hd]
    simp only
    rw [require_bind (Nat.sub_le _ _)]
    by_cases hm : message = []
    · rw [if_neg (by simp [hm]), if_pos hm]
      rfl
    · rw [if_pos ⟨rfl, by simpa [List.length_pos_iff] using hm⟩, if_neg hm]
      rfl

end Offer

def buffered (rest : List UInt8) (buf : Buffer) : TcpConnection :=
  let c := { c.noteHighWaterMark rest.length with outputBuffer := buf }
  if c.channel.isWriting then c else c.updateChannel .enableWriting

section Buffered

variable (rest : List UInt8) (buf : Buffer)

theorem bufferRemaining_ok {c c' : TcpConnection} {rest : List UInt8} :
    c.bufferRemaining rest = .ok c' ↔
      ∃ buf, c.outputBuffer.append rest = .ok buf ∧ c.buffered rest buf = c' := by
  unfold bufferRemaining buffered
  simp only [bind_ok, noteHighWaterMark_outputBuffer, noteHighWaterMark_channel]
  refine exists_congr fun buf => and_congr_right fun _ => ?_
  split_ifs <;> simp [pure, Except.pure]

@[simp] theorem buffered_state : (c.buffered rest buf).state = c.state := by
  unfold buffered
  simp only
  split_ifs <;> simp [updateChannel, emit]

@[simp] theorem buffered_outputBuffer : (c.buffered rest buf).outputBuffer = buf := by
  unfold buffered
  simp only
  split_ifs <;> rfl

theorem buffered_channel : (c.buffered rest buf).channel =
    if c.channel.isWriting then c.channel else c.channel.enableWriting := by
  unfold buffered
  simp only [noteHighWaterMark_channel]
  split_ifs <;> simp [updateChannel, emit]

theorem buffered_effects : (c.buffered rest buf).effects =
    c.effects ++ if c.channel.isWriting then [] else
      [.updateChannel c.channel.enableWriting.events] := by
  unfold buffered
  simp only [noteHighWaterMark_channel]
  split_ifs <;> simp [updateChannel, emit]

@[simp] theorem buffered_sentBytes :
    sentBytes (c.buffered rest buf).effects = sentBytes c.effects := by
  rw [buffered_effects, sentBytes_append]
  split_ifs <;> simp [sentBytes]

end Buffered

def accepted (w : WriteResult) (offered : ℕ) : ℕ :=
  match w with
  | .ok n => min n offered
  | .error _ => 0

@[simp] theorem shutdownInLoop_state : c.shutdownInLoop.state = c.state := by
  unfold shutdownInLoop
  split_ifs <;> rfl

@[simp] theorem shutdownInLoop_channel : c.shutdownInLoop.channel = c.channel := by
  unfold shutdownInLoop
  split_ifs <;> rfl

@[simp] theorem shutdownInLoop_outputBuffer :
    c.shutdownInLoop.outputBuffer = c.outputBuffer := by
  unfold shutdownInLoop
  split_ifs <;> rfl

theorem shutdownInLoop_effects : c.shutdownInLoop.effects =
    c.effects ++ if c.channel.isWriting then [] else [.shutdownWrite] := by
  unfold shutdownInLoop
  split_ifs <;> simp [emit]

@[simp] theorem writeDrained_channel : c.writeDrained.channel = c.channel.disableWriting := by
  by_cases hcb : c.hasWriteComplete = true <;> by_cases hs : c.state = .KDisConnecting <;>
    simp [writeDrained, updateChannel, queueInLoop, emit, hcb, hs]

@[simp] theorem writeDrained_state : c.writeDrained.state = c.state := by
  by_cases hcb : c.hasWriteComplete = true <;> by_cases hs : c.state = .KDisConnecting <;>
    simp [writeDrained, updateChannel, queueInLoop, emit, hcb, hs]

@[simp] theorem writeDrained_outputBuffer : c.writeDrained.outputBuffer = c.outputBuffer := by
  by_cases hcb : c.hasWriteComplete = true <;> by_cases hs : c.state = .KDisConnecting <;>
    simp [writeDrained, updateChannel, queueInLoop, emit, hcb, hs]

/-- The read bits that `handleWrite` has found set are still there when it calls
`shutdownInLoop`, which therefore does nothing. -/
theorem writeDrained_effects (h : c.channel.isWriting = true) :
    c.writeDrained.effects = c.effects ++ [.updateChannel c.channel.disableWriting.events] := by
  by_cases hcb : c.hasWriteComplete = true <;> by_cases hs : c.state = .KDisConnecting <;>
    simp [writeDrained, updateChannel, queueInLoop, emit, hcb, hs, shutdownInLoop_effects, h]

def written (w : WriteResult) (buf : Buffer) : TcpConnection :=
  { c.write c.outputBuffer.readable w with outputBuffer := buf }

@[simp] theorem written_state (w : WriteResult) (buf : Buffer) : (c.written w buf).state = c.state :=
  rfl

@[simp] theorem written_channel (w : WriteResult) (buf : Buffer) :
    (c.written w buf).channel = c.channel := rfl

@[simp] theorem written_outputBuffer (w : WriteResult) (buf : Buffer) :
    (c.written w buf).outputBuffer = buf := rfl

@[simp] theorem written_effects (w : WriteResult) (buf : Buffer) : (c.written w buf).effects =
    c.effects ++ [.write c.outputBuffer.readable (w.clamp c.outputBuffer.readable.length)] := rfl

theorem handleWrite_not_writing (w : WriteResult) (h : c.channel.isWriting = false) :
    c.handleWrite w = .ok c := by
  unfold handleWrite
  rw [if_neg (by rw [h]; decide)]

/-- `handleWrite` offers all that is pending and drops what was accepted. -/
theorem handleWrite_writing {c : TcpConnection} (w : WriteResult) (hinv : c.outputBuffer.Inv)
    (h : c.channel.isWriting = true) :
    ∃ buf : Buffer, buf.Inv ∧
      buf.readable = c.outputBuffer.readable.drop (accepted w c.outputBuffer.readable.length) ∧
      c.handleWrite w = .ok (
        if 0 < accepted w c.outputBuffer.readable.length ∧ buf.readableBytes = 0 then
          (c.written w buf).writeDrained
        else c.written w buf) := by
  have hout : (c.write c.outputBuffer.readable w).outputBuffer = c.outputBuffer := rfl
  unfold handleWrite
  rw [if_pos h]
  simp only [hout]
  cases w with
  | error errno => exact ⟨c.outputBuffer, hinv, by simp [accepted], by simp [accepted]; rfl⟩
  | ok n =>
    have hacc : accepted (.ok n) c.outputBuffer.readable.length =
        min n c.outputBuffer.readable.length := rfl
    have hclamp : WriteResult.clamp (.ok n) c.outputBuffer.readable.length =
        .ok (min n c.outputBuffer.readable.length) := rfl
    simp only [hacc, hclamp]
    by_cases hpos : 0 < min n c.outputBuffer.readable.length
    · have hle : min n c.outputBuffer.readable.length ≤ c.outputBuffer.readableBytes := by
        rw [← readable_length hinv]
        exact Nat.min_le_right _ _
      obtain ⟨buf, hbuf, hinv', hread⟩ := retrive_spec hinv hle
      refine ⟨buf, hinv', hread, ?_⟩
      rw [if_pos hpos, hbuf, ok_bind]
      by_cases hempty : buf.readableBytes = 0
      · rw [if_pos hempty, if_pos ⟨hpos, hempty⟩]
        rfl
      · rw [if_neg hempty, if_neg (fun hc => hempty hc.2)]
        rfl
    · have hzero : min n c.outputBuffer.readable.length = 0 := by omega
      refine ⟨c.outputBuffer, hinv, by rw [hzero, List.drop_zero], ?_⟩
      rw [if_neg hpos, if_neg (fun hc => hpos hc.1)]
      rfl

def queuedMessages (fs : List Functor) : List (List UInt8) :=
  fs.filterMap fun f => match f with
    | .sendInLoop message => some message
    | _ => none

theorem queuedMessages_append (fs gs : List Functor) :
    queuedMessages (fs ++ gs) = queuedMessages fs ++ queuedMessages gs := List.filterMap_append ..

/-- Functors that only tell the user something. -/
def isNotice : Functor → Bool
  | .writeCompleteCallback | .writeCompleteMember | .highWaterMarkCallback _ => true
  | .sendInLoop _ | .shutdownInLoop | .forceCloseInLoop | .stopReadInLoop => false

theorem queuedMessages_notices {fs : List Functor} (h : ∀ f ∈ fs, isNotice f = true) :
    queuedMessages fs = [] := by
  unfold queuedMessages
  rw [List.filterMap_eq_nil_iff]
  intro f hf
  have := h f hf
  cases f <;> simp_all [isNotice]

/-- Only notices are queued on the way from one state to the other. -/
def Notices (c c' : TcpConnection) : Prop :=
  ∃ fs, c'.pendingFunctors = c.pendingFunctors ++ fs ∧ ∀ f ∈ fs, isNotice f = true

theorem Notices.none {c c' : TcpConnection} (h : c'.pendingFunctors = c.pendingFunctors) :
    Notices c c' := ⟨[], by rw [h, List.append_nil], by simp⟩

theorem Notices.one {c c' : TcpConnection} {f : Functor}
    (h : c'.pendingFunctors = c.pendingFunctors ++ [f]) (hf : isNotice f = true) : Notices c c' :=
  ⟨[f], h, by simpa using hf⟩

theorem Notices.trans {a b c : TcpConnection} (h : Notices a b) (h' : Notices b c) :
    Notices a c := by
  obtain ⟨fs, hfs, hn⟩ := h
  obtain ⟨gs, hgs, hm⟩ := h'
  refine ⟨fs ++ gs, by rw [hgs, hfs, List.append_assoc], fun f hf => ?_⟩
  rcases List.mem_append.1 hf with hf | hf
  · exact hn f hf
  · exact hm f hf

theorem offer_notices (message : List UInt8) (w : WriteResult) :
    Notices c (c.offer message w) := by
  rcases c.offer_cases message w with ⟨h, -⟩ | ⟨-, h | h⟩ <;> rw [h]
  · exact .none rfl
  · exact .none rfl
  · exact .one rfl rfl

theorem buffered_notices (rest : List UInt8) (buf : Buffer) : Notices c (c.buffered rest buf) := by
  have hsame : (c.buffered rest buf).pendingFunctors =
      (c.noteHighWaterMark rest.length).pendingFunctors := by
    unfold buffered
    simp only
    split_ifs <;> rfl
  refine Notices.trans (b := c.noteHighWaterMark rest.length) ?_ (.none hsame)
  unfold noteHighWaterMark
  simp only
  split_ifs
  · exact .one rfl rfl
  · exact .none rfl

@[simp] theorem shutdownInLoop_pendingFunctors :
    c.shutdownInLoop.pendingFunctors = c.pendingFunctors := by
  unfold shutdownInLoop
  split_ifs <;> rfl

theorem writeDrained_notices : Notices c c.writeDrained := by
  by_cases hcb : c.hasWriteComplete = true <;> by_cases hs : c.state = .KDisConnecting
  · exact .one (f := .writeCompleteMember)
      (by simp [writeDrained, updateChannel, queueInLoop, emit, hcb, hs]) rfl
  · exact .one (f := .writeCompleteMember)
      (by simp [writeDrained, updateChannel, queueInLoop, emit, hcb, hs]) rfl
  · exact .none (by simp [writeDrained, updateChannel, emit, hcb, hs])
  · exact .none (by simp [writeDrained, updateChannel, emit, hcb, hs])

end Czy.Net.TcpConnection
