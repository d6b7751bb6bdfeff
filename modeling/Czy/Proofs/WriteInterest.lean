import Czy.Proofs.OutputStream

/-! The write interest of a connection against its pending output. -/

namespace Czy.Net

open StepRun TcpConnection Buffer

inductive InterestOp
  | sendInLoop (message : List UInt8) (w : WriteResult)
  | handleWrite (w : WriteResult)
  | shutdown (inLoop : Bool)
  | forceClose
  | startReadInLoop
  | stopReadInLoop

def InterestOp.step (c : TcpConnection) : InterestOp → Except Fault TcpConnection
  | sendInLoop message w => c.sendInLoop message w
  | handleWrite w => c.handleWrite w
  | shutdown inLoop => c.shutdown inLoop
  | forceClose => .ok c.forceClose
  | startReadInLoop => .ok c.startReadInLoop
  | stopReadInLoop => .ok c.stopReadInLoop

namespace TcpConnection

def writeInterest (c : TcpConnection) : Bool := Channel.KWriteEvent.test c.channel.events

def readInterest (c : TcpConnection) : Bool := Channel.KReadEvent.test c.channel.events

def InterestTracksPending (c : TcpConnection) : Prop :=
  c.writeInterest = true ↔ c.outputBuffer.readable ≠ []

def Offers (c : TcpConnection) (w : WriteResult) (c' : TcpConnection) : Prop :=
  (∃ es, c'.effects = c.effects ++
    .write c.outputBuffer.readable (w.clamp c.outputBuffer.readable.length) :: es ∧ sentBytes es = []) ∧
  c'.outputBuffer.readable =
    c.outputBuffer.readable.drop (accepted w c.outputBuffer.readable.length)

end TcpConnection

namespace InterestOp

/-- The write interest follows what is pending, and a write event that finds it offers it all. -/
def Right (c : TcpConnection) (o : InterestOp) (c' : TcpConnection) : Prop :=
  c'.InterestTracksPending ∧ ∀ w, o = handleWrite w → c.writeInterest = true → c.Offers w c'

/-- `sendInLoop` finds room for what it has left, and sets the write interest unless
the read interest hides that it is missing; `handleWrite` acts on the write
interest only with the read interest on. -/
def Unhidden (c : TcpConnection) : InterestOp → Prop
  | sendInLoop message w => c.left message w = [] ∨
    c.outputBuffer.Fits (c.left message w).length ∧ (c.readInterest = true → c.writeInterest = true)
  | handleWrite _ => c.writeInterest = true → c.readInterest = true
  | _ => True

instance (c : TcpConnection) (o : InterestOp) : Decidable (Unhidden c o) :=
  match o with
  | sendInLoop _ _ => inferInstanceAs (Decidable (_ ∨ _ ∧ (_ → _)))
  | handleWrite _ => inferInstanceAs (Decidable (_ → _))
  | shutdown _ | forceClose | startReadInLoop | stopReadInLoop => .isTrue trivial

end InterestOp

namespace TcpConnection

variable {c c' : TcpConnection} {message : List UInt8} {w : WriteResult}

/-- An open connection whose write interest is right. -/
structure Tracking (c : TcpConnection) : Prop where
  isOpen : c.Open
  buffer : c.outputBuffer.Inv
  interest : c.InterestTracksPending

theorem Tracking.same (h : c.Tracking) (hs : c'.Open) (hb : c'.outputBuffer = c.outputBuffer)
    (hw : c'.writeInterest = c.writeInterest) : c'.Tracking := by
  refine ⟨hs, by rw [hb]; exact h.buffer, ?_⟩
  unfold InterestTracksPending
  rw [hb, hw]
  exact h.interest

theorem buffered_writeInterest (rest : List UInt8) (buf : Buffer) :
    (c.buffered rest buf).writeInterest = true ↔ (c.readInterest = true → c.writeInterest = true) := by
  have henable : Channel.KWriteEvent.test c.channel.enableWriting.events = true :=
    c.channel.enableWriting_isReading
  unfold writeInterest readInterest
  rw [buffered_channel]
  unfold Channel.isWriting
  split_ifs with hr
  · simp [hr]
  · simp [hr, henable]

/-- What goes to the output buffer is pending afterwards, so the write interest has
to be on. -/
theorem buffered_tracking (h : c.Tracking) {rest : List UInt8} (hrest : rest ≠ []) {buf : Buffer}
    (hbuf : c.outputBuffer.append rest = .ok buf) :
    (c.buffered rest buf).Tracking ↔ (c.readInterest = true → c.writeInterest = true) := by
  obtain ⟨-, hinv, hread⟩ := append_ok h.buffer hbuf
  have hpending : buf.readable ≠ [] := by
    rw [hread]
    simp [hrest]
  have htracks : (c.buffered rest buf).InterestTracksPending ↔
      (c.buffered rest buf).writeInterest = true := by
    unfold InterestTracksPending
    rw [buffered_outputBuffer]
    exact iff_true_right hpending
  rw [← buffered_writeInterest rest buf, ← htracks]
  refine ⟨Tracking.interest, fun hi => ⟨?_, by simpa using hinv, hi⟩⟩
  simpa [Open] using h.isOpen

theorem offer_tracking (h : c.Tracking) (message : List UInt8) (w : WriteResult) :
    (c.offer message w).Tracking :=
  h.same (by simpa [Open] using h.isOpen) (by simp) (by simp [writeInterest])

theorem sendInLoop_right (h : c.Tracking) :
    (∃ c', c.sendInLoop message w = .ok c' ∧ c'.Tracking) ↔
      InterestOp.Unhidden c (.sendInLoop message w) := by
  simp only [InterestOp.Unhidden]
  rw [sendInLoop_eq _ _ _ h.isOpen.ne_disconnected]
  have hoff := offer_tracking h message w
  by_cases hleft : c.left message w = []
  · rw [if_pos hleft]
    exact iff_of_true ⟨_, rfl, hoff⟩ (Or.inl hleft)
  · rw [if_neg hleft, or_iff_right hleft]
    have hhidden : ((c.offer message w).readInterest = true → (c.offer message w).writeInterest = true)
        ↔ (c.readInterest = true → c.writeInterest = true) := by simp [readInterest, writeInterest]
    constructor
    · rintro ⟨c', hok, htrack⟩
      obtain ⟨buf, hbuf, rfl⟩ := bufferRemaining_ok.1 hok
      rw [buffered_tracking hoff hleft hbuf, hhidden] at htrack
      rw [offer_outputBuffer] at hbuf
      exact ⟨(append_ok h.buffer hbuf).1, htrack⟩
    · rintro ⟨hfit, htrack⟩
      obtain ⟨buf, hbuf, -⟩ := append_spec h.buffer hfit
      rw [← offer_outputBuffer c message w] at hbuf
      exact ⟨_, bufferRemaining_ok.2 ⟨buf, hbuf, rfl⟩, by
        rw [buffered_tracking hoff hleft hbuf, hhidden]
        exact htrack⟩

theorem handleWrite_right (h : c.Tracking) (hr : c.readInterest = true) :
    ∃ c', c.handleWrite w = .ok c' ∧ c'.Tracking ∧ c.Offers w c' := by
  obtain ⟨buf, hinv, hread, hok⟩ := handleWrite_writing w h.buffer hr
  refine ⟨_, hok, ?_⟩
  by_cases hdrained : 0 < accepted w c.outputBuffer.readable.length ∧ buf.readableBytes = 0
  · rw [if_pos hdrained]
    have hempty : buf.readable = [] := (readable_eq_nil hinv).2 hdrained.2
    have hoff : (c.written w buf).writeDrained.writeInterest = false := by
      rw [writeInterest, writeDrained_channel]
      exact Channel.disableWriting_isReading _
    refine ⟨⟨by simpa [Open] using h.isOpen, by simpa using hinv, ?_⟩, ?_, by simpa using hread⟩
    · simp [InterestTracksPending, hoff, hempty]
    · refine ⟨[.updateChannel c.channel.disableWriting.events], ?_, rfl⟩
      rw [writeDrained_effects _ (by exact hr), written_effects, List.append_assoc]
      rfl
  · rw [if_neg hdrained]
    have hsame : buf.readable ≠ [] ↔ c.outputBuffer.readable ≠ [] := by
      by_cases hpos : 0 < accepted w c.outputBuffer.readable.length
      · have hrest : buf.readable ≠ [] := fun he => hdrained ⟨hpos, (readable_eq_nil hinv).1 he⟩
        refine iff_of_true hrest fun he => hrest ?_
        rw [hread, he, List.drop_nil]
      · rw [hread, Nat.eq_zero_of_not_pos hpos, List.drop_zero]
    refine ⟨⟨by simpa [Open] using h.isOpen, by simpa using hinv, ?_⟩, ⟨[], by simp, rfl⟩,
      by simpa using hread⟩
    exact h.interest.trans hsame.symm

end TcpConnection

namespace InterestOp

variable {c c' : TcpConnection} {o : InterestOp}

theorem calm_right (h : c.Tracking) (c' : TcpConnection) (hs : c'.Open)
    (hb : c'.outputBuffer = c.outputBuffer) (hw : c'.writeInterest = c.writeInterest)
    (ho : ∀ w, o ≠ handleWrite w)
    (hok : step c o = .ok c') : ∃ c', step c o = .ok c' ∧ Right c o c' ∧ c'.Tracking :=
  ⟨c', hok, ⟨(h.same hs hb hw).interest, fun w he => absurd he (ho w)⟩, h.same hs hb hw⟩

theorem step_right (h : c.Tracking) (hu : Unhidden c o) :
    ∃ c', step c o = .ok c' ∧ Right c o c' ∧ c'.Tracking := by
  have hopen := h.isOpen
  cases o with
  | sendInLoop message w =>
    obtain ⟨c', hok, htrack⟩ := (sendInLoop_right h).2 hu
    exact ⟨c', hok, ⟨htrack.interest, fun _ he => by cases he⟩, htrack⟩
  | handleWrite w =>
    by_cases hr : c.readInterest = true
    · obtain ⟨c', hok, htrack, hoff⟩ := handleWrite_right (w := w) h hr
      refine ⟨c', hok, ⟨htrack.interest, fun w' he _ => ?_⟩, htrack⟩
      cases he
      exact hoff
    · refine ⟨c, handleWrite_not_writing _ _ (Bool.eq_false_iff.2 hr), ⟨h.interest, ?_⟩, h⟩
      exact fun _ _ hw => absurd (hu hw) hr
  | shutdown inLoop =>
    by_cases hc : c.state = .KConnected
    · cases inLoop with
      | true =>
        refine calm_right h (c.setState .KDisConnecting).shutdownInLoop ?_ ?_ ?_ (by simp) ?_
        · simp [Open, setState]
        · simp [setState, emit]
        · simp [writeInterest, setState, emit]
        · simp [step, TcpConnection.shutdown, runInLoop, hc]
      | false =>
        refine calm_right h ((c.setState .KDisConnecting).queueInLoop .shutdownInLoop)
          ?_ rfl rfl (by simp) ?_
        · simp [Open, setState, queueInLoop]
        · simp [step, TcpConnection.shutdown, runInLoop, hc]
    · exact calm_right h _ hopen rfl rfl (by simp) (by simp [step, TcpConnection.shutdown, hc])
  | forceClose =>
    refine calm_right h c.forceClose ?_ ?_ ?_ (by simp) rfl
    · rw [forceClose_of_open hopen]
      simp [Open, setState, queueInLoop]
    · rw [forceClose_of_open hopen]
      rfl
    · rw [forceClose_of_open hopen]
      rfl
  | startReadInLoop =>
    have hkeep : c.channel.enableReading.isReading = c.channel.isReading := by simp
    refine calm_right h c.startReadInLoop ?_ ?_ ?_ (by simp) rfl
    · unfold TcpConnection.startReadInLoop; split_ifs <;> exact hopen
    · unfold TcpConnection.startReadInLoop; split_ifs <;> rfl
    · unfold TcpConnection.startReadInLoop; split_ifs <;> first | exact hkeep | rfl
  | stopReadInLoop =>
    have hkeep : c.channel.disableReading.isReading = c.channel.isReading := by simp
    refine calm_right h c.stopReadInLoop ?_ ?_ ?_ (by simp) rfl
    · unfold TcpConnection.stopReadInLoop; split_ifs <;> exact hopen
    · unfold TcpConnection.stopReadInLoop; split_ifs <;> rfl
    · unfold TcpConnection.stopReadInLoop; split_ifs <;> first | exact hkeep | rfl

theorem unhidden_of_right (h : c.Tracking) (hs : step c o = .ok c') (hr : Right c o c') :
    Unhidden c o := by
  cases o with
  | sendInLoop message w =>
    have hinv := sendInLoop_inv h.isOpen h.buffer hs
    exact (sendInLoop_right h).1 ⟨c', hs, hinv.1, hinv.2, hr.1⟩
  | handleWrite w =>
    intro hw
    by_contra hread
    obtain ⟨⟨es, heff, -⟩, -⟩ := hr.2 w rfl hw
    -- without the read interest nothing is written
    simp only [step] at hs
    rw [handleWrite_not_writing _ _ (Bool.eq_false_iff.2 hread)] at hs
    cases hs
    simp at heff
  | shutdown inLoop => trivial
  | forceClose => trivial
  | startReadInLoop => trivial
  | stopReadInLoop => trivial

end InterestOp

/-- From an open connection whose write interest is right, it stays right along
exactly the runs in which the read interest neither hides nor stops it. -/
theorem interest_tracks_iff (c : TcpConnection) (ho : c.Open) (hinv : c.outputBuffer.Inv)
    (hi : c.InterestTracksPending) (ops : List InterestOp) :
    Holds InterestOp.step InterestOp.Right c ops ↔ Along InterestOp.step InterestOp.Unhidden c ops := by
  refine holds_iff_along (I := Tracking) (P := fun _ _ => True) (fun c o h _ => ?_)
    (fun c o c' h _ hs hr => ?_) ⟨ho, hinv, hi⟩ (along_true ops c)
  · refine ⟨fun ⟨c', hs, hr⟩ => InterestOp.unhidden_of_right h hs hr, fun hu => ?_⟩
    obtain ⟨c', hs, hr, -⟩ := InterestOp.step_right h hu
    exact ⟨c', hs, hr⟩
  · obtain ⟨t, ht, -, htrack⟩ := InterestOp.step_right h (InterestOp.unhidden_of_right h hs hr)
    rw [hs] at ht
    cases ht
    exact htrack

theorem interest_tracks_sent :
    Holds InterestOp.step InterestOp.Right ((TcpConnection.new 5).setState .KConnected)
      [.startReadInLoop, .stopReadInLoop, .sendInLoop [1, 2] (.ok 2), .sendInLoop [3, 4] (.ok 1)] :=
  (interest_tracks_iff _ (Or.inl rfl) (new_inv _)
    (by simp [InterestTracksPending, TcpConnection.new, TcpConnection.setState, emit, writeInterest,
      Channel.new, Mask.test]) _).2 (by decide +kernel)

theorem read_interest_hides_pending :
    ¬ Holds InterestOp.step InterestOp.Right ((TcpConnection.new 5).setState .KConnected)
      [.startReadInLoop, .sendInLoop [1, 2] (.ok 2)] := by
  rintro ⟨c₁, hc₁, -, c₂, hc₂, ⟨htracks, -⟩, -⟩
  cases hc₁
  obtain ⟨c, hc, hpending⟩ := ok_of_toOption_map
    (x := InterestOp.step ((TcpConnection.new 5).setState .KConnected).startReadInLoop
      (.sendInLoop [1, 2] (.ok 2)))
    (f := fun c => (c.writeInterest, c.outputBuffer.readable)) (a := (false, [1, 2]))
    (by decide +kernel)
  obtain rfl : c = c₂ := by
    rw [hc₂] at hc
    cases hc
    rfl
  obtain ⟨hinterest, hread⟩ := Prod.mk.inj hpending
  rw [InterestTracksPending, hinterest, hread] at htracks
  simp at htracks

end Czy.Net
