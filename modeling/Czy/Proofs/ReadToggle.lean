import Czy.Lib.Run
import Czy.Sanity.Channel
import Czy.Spec.ReadToggle

/-! Whether `startRead` and `stopRead` come to an end, and what they leave. -/

namespace Czy.Net

open StepRun

namespace Channel

def hasReadBits (c : Channel) : Bool := c.events &&& KReadEvent == KReadEvent

theorem disableReading_hasReadBits (c : Channel) : c.disableReading.hasReadBits = false := by
  have hnone : c.disableReading.events &&& KReadEvent = 0 := by
    have htest := c.disableReading_isWriting
    simpa [isWriting, Mask.test, BitVec.and_comm] using htest
  unfold hasReadBits
  rw [hnone]
  decide

end Channel

namespace ReadToggle

/-- `isReading()` of the connection, the read bits and the last processed call agree. -/
def Agrees (s : ReadToggle) : Prop :=
  ∀ last, s.processed.getLast? = some last →
    (s.conn.reading = true ↔ s.conn.channel.hasReadBits = true) ∧
      (s.conn.channel.hasReadBits = true ↔ last = .startRead)

/-- The calls come to an end, and so do all functors that are left in the queue; then
the connection agrees with the last call. -/
def Effective (c : TcpConnection) (ops : List ReadOp) : Prop :=
  ∃ fuel s s', run (step fuel) (start c) ops = .ok s ∧
    run (step fuel) s (List.replicate s.pending.length .runPending) = .ok s' ∧ s'.Agrees

/-- No `startRead`, and a `stopRead` only where `reading_` is false already, with the write bit set
or a read bit missing. -/
def Idle (c : TcpConnection) (ops : List ReadOp) : Prop :=
  (∀ inLoop, .call inLoop .startRead ∉ ops) ∧ ((∀ inLoop, .call inLoop .stopRead ∉ ops) ∨
    c.reading = false ∧ (c.channel.isReading = true ∨ c.channel.hasReadBits = false))

variable {s s' : ReadToggle} {c : TcpConnection} {fuel : ℕ} {o : ReadOp} {ops : List ReadOp}

/-- `startRead` on the loop's thread never returns. -/
theorem startRead_diverges (fuel : ℕ) (s : ReadToggle) : runFunctor fuel .startRead s = .error () := by
  induction fuel with
  | zero => rfl
  | succ fuel ih => exact ih

theorem runFunctor_ok {f : ReadFunctor} (h : runFunctor fuel f s = .ok s') : f = .stopReadInLoop ∧
    s' = { s with conn := s.conn.stopReadInLoop, processed := s.processed ++ [.stopRead] } := by
  cases f with
  | startRead => rw [startRead_diverges] at h; cases h
  | stopReadInLoop =>
    cases fuel with
    | zero => cases h
    | succ fuel => cases h; exact ⟨rfl, rfl⟩

theorem step_cases (h : step fuel s o = .ok s') :
    (∃ call, o = .call false call ∧ s' = { s with pending := s.pending ++ [call.bound] }) ∨
    (∃ fs, (o = .call true .stopRead ∧ fs = s.pending ∨
        o = .runPending ∧ s.pending = .stopReadInLoop :: fs) ∧
      s' = ⟨s.conn.stopReadInLoop, fs, s.processed ++ [.stopRead]⟩) ∨
    (o = .runPending ∧ s.pending = [] ∧ s' = s) := by
  cases o with
  | call inLoop call =>
    cases inLoop with
    | false => cases h; exact Or.inl ⟨call, rfl, rfl⟩
    | true =>
      obtain ⟨hf, rfl⟩ := runFunctor_ok (f := call.bound) h
      cases call with
      | startRead => cases hf
      | stopRead => exact Or.inr (Or.inl ⟨_, Or.inl ⟨rfl, rfl⟩, rfl⟩)
  | runPending =>
    simp only [step, runPending] at h
    split at h
    · cases h
      exact Or.inr (Or.inr ⟨rfl, ‹_›, rfl⟩)
    · rename_i f fs hfs
      obtain ⟨rfl, rfl⟩ := runFunctor_ok h
      exact Or.inr (Or.inl ⟨fs, Or.inr ⟨rfl, hfs⟩, rfl⟩)

/-! A `startRead` in the queue -/

theorem drain_ok : ∀ {fs : List ReadFunctor} {s : ReadToggle}, s.pending = fs →
    run (step fuel) s (List.replicate fs.length .runPending) = .ok s' →
      .startRead ∉ fs ∧ s'.pending = [] := by
  intro fs
  induction fs with
  | nil => intro s hs h; cases h; exact ⟨List.not_mem_nil, hs⟩
  | cons f fs ih =>
    intro s hs h
    obtain ⟨t, ht, hrest⟩ := run_cons_ok h
    obtain ⟨_, hc, -⟩ | ⟨gs, hcall | ⟨-, hgs⟩, rfl⟩ | ⟨-, hnil, -⟩ := step_cases ht
    · cases hc
    · cases hcall.1
    · rw [hs] at hgs
      cases hgs
      obtain ⟨hnot, hdone⟩ := ih rfl hrest
      exact ⟨by simp [hnot], hdone⟩
    · rw [hs] at hnil
      cases hnil

theorem step_startRead (h : .startRead ∈ s.pending) (hs : step fuel s o = .ok s') :
    .startRead ∈ s'.pending := by
  obtain ⟨_, -, rfl⟩ | ⟨fs, ⟨-, rfl⟩ | ⟨-, hfs⟩, rfl⟩ | ⟨-, hnil, -⟩ := step_cases hs
  · exact List.mem_append_left _ h
  · exact h
  · rw [hfs] at h
    simpa using h
  · rw [hnil] at h
    cases h

theorem call_startRead {inLoop : Bool} (hs : step fuel s (.call inLoop .startRead) = .ok s') :
    .startRead ∈ s'.pending := by
  obtain ⟨call, hc, rfl⟩ | ⟨fs, ⟨hc, -⟩ | ⟨hc, -⟩, -⟩ | ⟨hc, -⟩ := step_cases hs
  · cases hc
    simp [ReadCall.bound]
  · cases hc
  · cases hc
  · cases hc

theorem startRead_stays {inLoop : Bool} (hmem : .call inLoop .startRead ∈ ops)
    (hrun : run (step fuel) s ops = .ok s') : .startRead ∈ s'.pending := by
  obtain ⟨pre, post, rfl⟩ := List.append_of_mem hmem
  obtain ⟨t, -, hpost⟩ := run_append_ok hrun
  obtain ⟨u, hu, hlast⟩ := run_cons_ok hpost
  exact run_inv (I := fun s => .startRead ∈ s.pending) (fun _ _ _ => step_startRead)
    (call_startRead hu) hlast

/-! Runs without `startRead` -/

/-- `reading_` keeps its value, since `reading_ - true` assigns nothing. -/
@[simp] theorem stopReadInLoop_reading (c : TcpConnection) : c.stopReadInLoop.reading = c.reading := by
  unfold TcpConnection.stopReadInLoop
  split_ifs <;> rfl

@[simp] theorem stopReadInLoop_isReading (c : TcpConnection) :
    c.stopReadInLoop.channel.isReading = c.channel.isReading := by
  unfold TcpConnection.stopReadInLoop
  split_ifs
  · exact c.channel.disableReading_isReading
  · rfl

theorem stopReadInLoop_hasReadBits (c : TcpConnection) :
    c.stopReadInLoop.channel.hasReadBits =
      (!(c.reading || c.channel.isReading) && c.channel.hasReadBits) := by
  unfold TcpConnection.stopReadInLoop
  split_ifs with h
  · have hdisabled : (c.updateChannel .disableReading).channel.hasReadBits = false :=
      c.channel.disableReading_hasReadBits
    have hon : (c.reading || c.channel.isReading) = true := by simpa using h
    rw [hdisabled, hon]
    rfl
  · have hoff : (c.reading || c.channel.isReading) = false := by simpa using h
    rw [hoff]
    rfl

structure Stopping (c : TcpConnection) (s : ReadToggle) : Prop where
  pending : ∀ f ∈ s.pending, f = .stopReadInLoop
  processed : ∀ call ∈ s.processed, call = .stopRead
  reading : s.conn.reading = c.reading
  isReading : s.conn.channel.isReading = c.channel.isReading
  hasReadBits : s.processed ≠ [] → s.conn.channel.hasReadBits =
    (!(c.reading || c.channel.isReading) && c.channel.hasReadBits)
  untouched : s.processed = [] → s.conn = c

def calls (s : ReadToggle) : ℕ := s.processed.length + s.pending.length

theorem start_stopping (c : TcpConnection) : Stopping c (start c) :=
  ⟨by simp [start], by simp [start], rfl, rfl, fun h => absurd rfl h, fun _ => rfl⟩

theorem Stopping.processes (h : Stopping c s) (fs : List ReadFunctor)
    (hfs : ∀ f ∈ fs, f = .stopReadInLoop) :
    Stopping c ⟨s.conn.stopReadInLoop, fs, s.processed ++ [.stopRead]⟩ := by
  refine ⟨hfs, ?_, by simpa using h.reading, by simpa using h.isReading, fun _ => ?_, by simp⟩
  · intro call hc
    rcases List.mem_append.1 hc with hc | hc
    · exact h.processed call hc
    · simpa using hc
  · simp only [stopReadInLoop_hasReadBits, h.reading, h.isReading]
    by_cases hp : s.processed = []
    · rw [h.untouched hp]
    · rw [h.hasReadBits hp]
      cases c.reading <;> cases c.channel.isReading <;> rfl

theorem step_stopping (h : Stopping c s) (ho : ∀ inLoop, o ≠ .call inLoop .startRead)
    (hs : step fuel s o = .ok s') :
    Stopping c s' ∧ s'.calls = s.calls + if o = .runPending then 0 else 1 := by
  obtain ⟨call, rfl, rfl⟩ | ⟨fs, ⟨rfl, rfl⟩ | ⟨rfl, hfs⟩, rfl⟩ | ⟨rfl, -, rfl⟩ := step_cases hs
  · have hcall : call = .stopRead := by
      cases call with
      | startRead => exact absurd rfl (ho false)
      | stopRead => rfl
    subst hcall
    refine ⟨⟨?_, h.processed, h.reading, h.isReading, h.hasReadBits, h.untouched⟩, ?_⟩
    · intro f hf
      rcases List.mem_append.1 hf with hf | hf
      · exact h.pending f hf
      · simpa [ReadCall.bound] using hf
    · simp only [calls, List.length_append, List.length_singleton]
      rfl
  · refine ⟨h.processes _ h.pending, ?_⟩
    simp only [calls, List.length_append, List.length_singleton, reduceCtorEq, if_false]
    omega
  · refine ⟨h.processes _ fun f hf => h.pending f (by rw [hfs]; exact List.mem_cons_of_mem _ hf), ?_⟩
    simp only [calls, hfs, List.length_append, List.length_cons, List.length_nil, if_true]
    omega
  · exact ⟨h, rfl⟩

theorem run_stopping : ∀ {ops : List ReadOp} {s : ReadToggle}, Stopping c s →
    (∀ inLoop, .call inLoop .startRead ∉ ops) → run (step fuel) s ops = .ok s' →
      Stopping c s' ∧ s'.calls = s.calls + ops.countP (· ≠ .runPending) := by
  intro ops
  induction ops with
  | nil => intro s h _ hrun; cases hrun; exact ⟨h, rfl⟩
  | cons o ops ih =>
    intro s h hno hrun
    obtain ⟨t, ht, hrest⟩ := run_cons_ok hrun
    have ho : ∀ inLoop, o ≠ .call inLoop .startRead := fun inLoop he =>
      hno inLoop (by rw [he]; exact List.mem_cons_self)
    obtain ⟨hstop, hcalls⟩ := step_stopping h ho ht
    obtain ⟨hstop', hcalls'⟩ := ih hstop (fun inLoop hm => hno inLoop (List.mem_cons_of_mem _ hm)) hrest
    refine ⟨hstop', ?_⟩
    rw [hcalls', hcalls, List.countP_cons, Nat.add_assoc]
    congr 1
    by_cases ho : o = .runPending <;> simp [ho, Nat.add_comm]

theorem stopping_ends (h : Stopping c s) (ho : ∀ inLoop, o ≠ .call inLoop .startRead) :
    ∃ s', step 1 s o = .ok s' := by
  cases o with
  | call inLoop call =>
    cases inLoop with
    | false => exact ⟨_, rfl⟩
    | true =>
      cases call with
      | startRead => exact absurd rfl (ho true)
      | stopRead => exact ⟨_, rfl⟩
  | runPending =>
    unfold step runPending
    cases hfs : s.pending with
    | nil => exact ⟨_, rfl⟩
    | cons f fs =>
      obtain rfl := h.pending f (by rw [hfs]; exact List.mem_cons_self)
      exact ⟨_, rfl⟩

theorem run_stopping_ends (h : Stopping c s) (hno : ∀ inLoop, .call inLoop .startRead ∉ ops) :
    ∃ s', run (step 1) s ops = .ok s' ∧ Stopping c s' := by
  refine run_ok_along (C := fun _ o => True ∧ ∀ inLoop, o ≠ .call inLoop .startRead)
    (fun s o h ho => ?_) h ?_
  · obtain ⟨s', hs'⟩ := stopping_ends h ho.2
    exact ⟨s', hs', (step_stopping h ho.2 hs').1⟩
  · exact (along_true ops s).and_forall fun o hm inLoop he => hno inLoop (he ▸ hm)

theorem countP_calls (hno : ∀ inLoop, .call inLoop .startRead ∉ ops) (n : ℕ) :
    (ops ++ List.replicate n ReadOp.runPending).countP (· ≠ .runPending) = 0 ↔
      ∀ inLoop, .call inLoop .stopRead ∉ ops := by
  rw [List.countP_eq_zero]
  constructor
  · intro hall inLoop hm
    simpa using hall _ (List.mem_append_left _ hm)
  · intro hnone o hm
    rcases List.mem_append.1 hm with hm | hm
    · cases o with
      | runPending => simp
      | call inLoop call =>
        cases call with
        | startRead => exact absurd hm (hno inLoop)
        | stopRead => exact absurd hm (hnone inLoop)
    · simp [List.eq_of_mem_replicate hm]

theorem Stopping.agrees_iff (h : Stopping c s) (hp : s.processed ≠ []) : s.Agrees ↔
    c.reading = false ∧ (c.channel.isReading = true ∨ c.channel.hasReadBits = false) := by
  have hlast : ∀ last, s.processed.getLast? = some last → last = .stopRead := fun last hl =>
    h.processed last (List.mem_of_getLast? hl)
  have hagrees : s.Agrees ↔ s.conn.reading = false ∧ s.conn.channel.hasReadBits = false := by
    constructor
    · intro ha
      obtain ⟨hr, hb⟩ := ha _ (List.getLast?_eq_getLast_of_ne_nil hp)
      rw [hlast _ (List.getLast?_eq_getLast_of_ne_nil hp)] at hb
      have hoff : ¬ s.conn.channel.hasReadBits = true := fun hb' => by cases hb.1 hb'
      exact ⟨Bool.eq_false_iff.2 fun hr' => hoff (hr.1 hr'), Bool.eq_false_iff.2 hoff⟩
    · rintro ⟨hr, hb⟩ last hl
      rw [hr, hb, hlast last hl]
      simp
  rw [hagrees, h.reading, h.hasReadBits hp]
  refine and_congr_right fun hr => ?_
  rw [hr]
  cases c.channel.isReading <;> simp

end ReadToggle

/-- The calls come to an end and leave the connection as the last one says only where
there is next to nothing for them to do. -/
theorem read_toggle_iff (c : TcpConnection) (ops : List ReadOp) :
    ReadToggle.Effective c ops ↔ ReadToggle.Idle c ops := by
  constructor
  · rintro ⟨fuel, s, s', hrun, hdrain, hagrees⟩
    obtain ⟨hqueue, hempty⟩ := ReadToggle.drain_ok rfl hdrain
    have hno : ∀ inLoop, .call inLoop .startRead ∉ ops := fun _ hm =>
      hqueue (ReadToggle.startRead_stays hm hrun)
    refine ⟨hno, or_iff_not_imp_left.2 fun hstop => ?_⟩
    rw [← run_append hrun] at hdrain
    obtain ⟨hstopping, hcalls⟩ := ReadToggle.run_stopping (ReadToggle.start_stopping c)
      (by simpa using hno) hdrain
    refine (hstopping.agrees_iff fun hp => hstop ?_).1 hagrees
    rw [← ReadToggle.countP_calls hno s.pending.length]
    simpa [ReadToggle.calls, ReadToggle.start, hp, hempty] using hcalls.symm
  · rintro ⟨hno, hidle⟩
    obtain ⟨s, hrun, hs⟩ := ReadToggle.run_stopping_ends (ReadToggle.start_stopping c) hno
    have hnone : ∀ inLoop, ReadOp.call inLoop .startRead ∉
        List.replicate s.pending.length ReadOp.runPending := by simp
    obtain ⟨s', hdrain, hs'⟩ := ReadToggle.run_stopping_ends hs hnone
    refine ⟨1, s, s', hrun, hdrain, ?_⟩
    by_cases hp : s'.processed = []
    · intro last hl
      rw [hp] at hl
      cases hl
    · refine (hs'.agrees_iff hp).2 (hidle.resolve_left fun hnone => hp ?_)
      rw [← run_append hrun] at hdrain
      obtain ⟨-, hcalls⟩ := ReadToggle.run_stopping (ReadToggle.start_stopping c)
        (by simpa using hno) hdrain
      rw [(ReadToggle.countP_calls hno s.pending.length).2 hnone] at hcalls
      exact List.length_eq_zero_iff.1 (Nat.eq_zero_of_add_eq_zero hcalls).1

/-- Two calls on a connection that has just been set up to read: `startRead` does not
return, and after `stopRead` the connection still calls itself reading. -/
theorem read_toggle_fails :
    ¬ ReadToggle.Effective ((TcpConnection.new 5).setState .KConnected).startReadInLoop
        [.call true .startRead] ∧
      ¬ ReadToggle.Effective ((TcpConnection.new 5).setState .KConnected).startReadInLoop
        [.call true .stopRead] := by
  constructor
  · rintro ⟨fuel, s, -, hrun, -⟩
    obtain ⟨t, ht, -⟩ := run_cons_ok hrun
    cases (ReadToggle.startRead_diverges fuel _).symm.trans ht
  · rintro ⟨fuel, s, s', hrun, hdrain, hagrees⟩
    obtain ⟨t, ht, hnil⟩ := run_cons_ok hrun
    cases hnil
    cases fuel with
    | zero => cases ht
    | succ fuel =>
      cases ht
      cases hdrain
      have := hagrees .stopRead rfl
      revert this
      decide

end Czy.Net
