import Czy.Lib.Run
import Czy.Sanity.TcpConnection

/-! The bytes of a connection on their way to the kernel: what it has accepted,
followed by what is pending, against all messages given to `sendInLoop`. -/

namespace Czy.Net

open StepRun TcpConnection Buffer

inductive StreamOp
  | sendInLoop (message : List UInt8) (room : Option ℕ)
  | handleWrite (room : Option ℕ)

namespace StreamOp

def result : Option ℕ → WriteResult
  | some k => .ok k
  | none => .error EWOULDBLOCK

def step (c : TcpConnection) : StreamOp → Except Fault TcpConnection
  | sendInLoop message room => c.sendInLoop message (result room)
  | handleWrite room => c.handleWrite (result room)

def given : StreamOp → List UInt8
  | sendInLoop message _ => message
  | handleWrite _ => []

end StreamOp

def TcpConnection.stream (c : TcpConnection) : List UInt8 :=
  sentBytes c.effects ++ c.outputBuffer.readable

/-- What `sendInLoop` has left fits without growing the buffer, and is appended to
an empty buffer or repeats bytes that lie in the right places already. -/
def StreamOp.Tame (c : TcpConnection) : StreamOp → Prop
  | .sendInLoop message room =>
    c.outputBuffer.Fits (c.left message (result room)).length ∧
      c.outputBuffer.Repeats (c.left message (result room))
  | .handleWrite _ => True

instance (c : TcpConnection) (o : StreamOp) : Decidable (StreamOp.Tame c o) :=
  match o with
  | .sendInLoop _ _ => inferInstanceAs (Decidable (_ ∧ _))
  | .handleWrite _ => .isTrue trivial

namespace TcpConnection

variable {c c' : TcpConnection} {message : List UInt8} {w : WriteResult}

theorem sendInLoop_inv (ho : c.Open) (hinv : c.outputBuffer.Inv)
    (h : c.sendInLoop message w = .ok c') : c'.Open ∧ c'.outputBuffer.Inv := by
  rw [sendInLoop_eq _ _ _ ho.ne_disconnected] at h
  split_ifs at h with hleft
  · cases h
    exact ⟨by simpa [Open] using ho, by simpa using hinv⟩
  · obtain ⟨buf, hbuf, rfl⟩ := bufferRemaining_ok.1 h
    rw [offer_outputBuffer] at hbuf
    exact ⟨by simpa [Open] using ho, by simpa using appendPtr_inv hinv hbuf⟩

theorem handleWrite_inv (ho : c.Open) (hinv : c.outputBuffer.Inv)
    (h : c.handleWrite w = .ok c') : c'.Open ∧ c'.outputBuffer.Inv := by
  by_cases hw : c.channel.isWriting = true
  · obtain ⟨buf, hbuf, -, hok⟩ := handleWrite_writing w hinv hw
    rw [hok] at h
    cases h
    split_ifs <;> exact ⟨by simpa [Open] using ho, by simpa using hbuf⟩
  · rw [handleWrite_not_writing _ _ (by simpa using hw)] at h
    cases h
    exact ⟨ho, hinv⟩

theorem written_stream (w : WriteResult) {buf : Buffer}
    (hread : buf.readable = c.outputBuffer.readable.drop (accepted w c.outputBuffer.readable.length)) :
    (c.written w buf).stream = c.stream := by
  unfold stream
  rw [written_effects, written_outputBuffer, sentBytes_append, sentBytes_write, hread]
  cases w with
  | ok n =>
    have htake : c.outputBuffer.readable.take n =
        c.outputBuffer.readable.take (min n c.outputBuffer.readable.length) := by
      rw [List.take_eq_take_iff]
      omega
    simp only [accepted]
    rw [htake, List.append_assoc, List.take_append_drop]
  | error e => simp [accepted]

theorem handleWrite_stream (hinv : c.outputBuffer.Inv) (w : WriteResult) :
    ∃ c', c.handleWrite w = .ok c' ∧ c'.stream = c.stream := by
  by_cases hw : c.channel.isWriting = true
  · obtain ⟨buf, -, hread, hok⟩ := handleWrite_writing w hinv hw
    refine ⟨_, hok, ?_⟩
    rw [← written_stream w hread]
    split_ifs
    · rw [stream, stream, writeDrained_effects _ (by simpa using hw), sentBytes_append]
      simp [sentBytes]
    · rfl
  · exact ⟨c, handleWrite_not_writing _ _ (by simpa using hw), rfl⟩

theorem offered_left (message : List UInt8) (room : Option ℕ) :
    sentBytes (c.offered message (StreamOp.result room)) ++ c.left message (StreamOp.result room) =
      message := by
  unfold offered left
  split_ifs with hd
  · cases room with
    | some k => rw [sentBytes_write]; exact List.take_append_drop _ _
    | none => rw [sentBytes_write]; rfl
  · rfl

theorem readable_of_offered (hinv : c.outputBuffer.Inv) (message : List UInt8) (w : WriteResult) :
    c.outputBuffer.readable = [] ∨ c.offered message w = [] := by
  by_cases hd : c.Direct
  · exact Or.inl ((readable_eq_nil hinv).2 hd.2)
  · exact Or.inr (if_neg hd)

/-- The stream grows by the message when what the kernel has not accepted of it ends
up behind what was pending. -/
theorem stream_eq_iff (hinv : c.outputBuffer.Inv) (message : List UInt8) (room : Option ℕ)
    (he : sentBytes c'.effects =
      sentBytes c.effects ++ sentBytes (c.offered message (StreamOp.result room))) :
    c'.stream = c.stream ++ message ↔ c'.outputBuffer.readable =
      c.outputBuffer.readable ++ c.left message (StreamOp.result room) := by
  have hsplit := c.offered_left message room
  have hempty := readable_of_offered hinv message (StreamOp.result room)
  generalize c.offered message (StreamOp.result room) = es at he hsplit hempty
  generalize c.left message (StreamOp.result room) = rest at hsplit ⊢
  subst hsplit
  unfold stream
  rw [he, List.append_assoc, List.append_assoc, List.append_cancel_left_eq]
  rcases hempty with hnil | hnil
  · rw [hnil, List.nil_append, List.nil_append, List.append_cancel_left_eq]
  · rw [hnil]
    rfl

theorem sendInLoop_stream (ho : c.Open) (hinv : c.outputBuffer.Inv) (message : List UInt8)
    (room : Option ℕ) :
    (∃ c', c.sendInLoop message (StreamOp.result room) = .ok c' ∧ c'.stream = c.stream ++ message) ↔
      StreamOp.Tame c (.sendInLoop message room) := by
  unfold StreamOp.Tame
  rw [sendInLoop_eq _ _ _ ho.ne_disconnected]
  simp only
  by_cases hleft : c.left message (StreamOp.result room) = []
  · rw [if_pos hleft, hleft]
    refine iff_of_true ⟨_, rfl, ?_⟩ ⟨Or.inl (Nat.zero_le _), repeats_nil _⟩
    rw [stream_eq_iff hinv message room (by rw [offer_effects, sentBytes_append]), hleft]
    simp
  · rw [if_neg hleft, ← append_exact hinv]
    constructor
    · rintro ⟨c', hok, hstream⟩
      obtain ⟨buf, hbuf, rfl⟩ := bufferRemaining_ok.1 hok
      rw [stream_eq_iff hinv message room
        (by rw [buffered_sentBytes, offer_effects, sentBytes_append])] at hstream
      rw [offer_outputBuffer] at hbuf
      exact ⟨buf, hbuf, by simpa using hstream⟩
    · rintro ⟨buf, hbuf, hread⟩
      refine ⟨_, bufferRemaining_ok.2 ⟨buf, by rw [offer_outputBuffer]; exact hbuf, rfl⟩, ?_⟩
      rw [stream_eq_iff hinv message room
        (by rw [buffered_sentBytes, offer_effects, sentBytes_append])]
      simpa using hread

end TcpConnection

theorem StreamOp.step_inv {c c' : TcpConnection} {o : StreamOp}
    (h : c.Open ∧ c.outputBuffer.Inv) (hs : step c o = .ok c') : c'.Open ∧ c'.outputBuffer.Inv := by
  cases o with
  | sendInLoop message room => exact sendInLoop_inv h.1 h.2 hs
  | handleWrite room => exact handleWrite_inv h.1 h.2 hs

theorem StreamOp.step_exact {c : TcpConnection} {o : StreamOp} (h : c.Open ∧ c.outputBuffer.Inv) :
    (∃ c', step c o = .ok c' ∧ c'.stream = c.stream ++ o.given) ↔ Tame c o := by
  cases o with
  | handleWrite room =>
    refine iff_of_true ?_ trivial
    obtain ⟨c', hok, hstream⟩ := handleWrite_stream h.2 (result room)
    exact ⟨c', hok, by rw [hstream]; exact (List.append_nil _).symm⟩
  | sendInLoop message room =>
    obtain ⟨ho, hinv⟩ := h
    exact sendInLoop_stream ho hinv message room

/-- On an open connection the kernel's bytes and the pending ones are the messages
given so far along exactly the runs whose appends are tame. -/
theorem stream_tracks_messages (c : TcpConnection) (ho : c.Open) (hinv : c.outputBuffer.Inv)
    (ops : List StreamOp) :
    Tracks StreamOp.step (fun sent o => sent ++ o.given) stream c c.stream ops ↔
      Along StreamOp.step StreamOp.Tame c ops :=
  tracks_iff_along (fun _ _ h _ => StreamOp.step_exact h) (fun _ _ _ h hs => StreamOp.step_inv h hs)
    ⟨ho, hinv⟩ (along_true ops c)

theorem stream_tracks_messages_drained :
    Tracks StreamOp.step (fun sent o => sent ++ o.given) stream
      ((TcpConnection.new 5).setState .KConnected) ((TcpConnection.new 5).setState .KConnected).stream
      [.sendInLoop [1, 2, 3] (some 1), .handleWrite (some 2)] :=
  (stream_tracks_messages _ (Or.inl rfl) (new_inv _) _).2 (by decide +kernel)

/-- The kernel takes nothing of the first message; the second is then written over
it in the output buffer. -/
theorem sendInLoop_overwrites :
    ¬ Tracks StreamOp.step (fun sent o => sent ++ o.given) stream
      ((TcpConnection.new 5).setState .KConnected) []
      [.sendInLoop [1, 2] none, .sendInLoop [3, 4] none] := by
  decide +kernel

end Czy.Net
