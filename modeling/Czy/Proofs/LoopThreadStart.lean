import Czy.Spec.EventLoopThread

/-! The start of a loop in its own thread. `loop` returns at once, so the pointer is withdrawn
and the loop gone, whether or not the caller has been there. -/

namespace Czy.Net.EventLoopThread

open Monitor StepRun

variable {φ τ : Type} {m m' : EventLoopThread φ τ}

/-- The thread has not ended under a waiting caller, and what `startLoop` has returned is the
loop, which is still there. -/
structure Protocol (m : EventLoopThread φ τ) : Prop where
  released : m.func = .ended → m.monitor.place .caller = .outside
  pointer : ∀ loop, m.result = some loop → loop ≠ none ∧ m.inScope = true

def StaysInLoop (m : EventLoopThread φ τ) : LoopThreadStep φ τ → Prop
  | .withdraw => ¬ (m.func = .looping ∧ m.object.phase = .returned)
  | _ => True

structure Published (m : EventLoopThread φ τ) : Prop where
  func : m.func ≠ .withdrawn ∧ m.func ≠ .ended
  started : m.started = false → m.func = .absent
  shared : m.monitor.shared ≠ none → m.func = .looping
  within : m.monitor.Within .caller .startLoop
  result : ∀ loop, m.result = some loop → loop ≠ none ∧ m.func = .looping

theorem published_new : Published (new : EventLoopThread φ τ) :=
  ⟨⟨nofun, nofun⟩, fun _ => rfl, fun h => absurd rfl h, State.within_new .., nofun⟩

theorem Published.protocol (h : Published m) : Protocol m where
  released hended := absurd hended h.func.2
  pointer loop hres := by
    obtain ⟨hne, hfunc⟩ := h.result loop hres
    exact ⟨hne, by rw [inScope, hfunc]; rfl⟩

theorem ofCaller_iff {l : Label LoopThreadSide LoopThreadOp} :
    ofCaller l = true ↔ l.Of .caller .startLoop := by
  cases l with
  | call t op woken => cases t <;> cases op <;> simp [ofCaller, Label.Of]
  | resume t woken => cases t <;> simp [ofCaller, Label.Of]
  | spurious t => cases t <;> simp [ofCaller, Label.Of]

theorem startLoop_returns {loop loop' : Option Unit} {signal : Signal Unit}
    (h : body .startLoop loop = .returns loop' signal) : loop' = loop ∧ loop ≠ none := by
  cases loop with
  | none => cases h
  | some u =>
    cases h
    exact ⟨rfl, nofun⟩

theorem Published.wait (h : Published m) {l : Label LoopThreadSide LoopThreadOp}
    (hl : ofCaller l = true) : Published (m.wait l) := by
  have hl := ofCaller_iff.1 hl
  unfold EventLoopThread.wait
  cases hs : Monitor.step body m.monitor l with
  | error e => exact h
  | ok monitor =>
    have hs := stepped_of_step hs
    have hwithin := h.within.stepped (fun _ hrun => (h.within.running hl hrun).2) hs
    have hshared : monitor.shared = m.monitor.shared ∧
        (monitor.place .caller = .outside → monitor.shared ≠ none) := by
      cases hs with
      | waits t op c running outcome shared place =>
        obtain ⟨rfl, rfl⟩ := h.within.running hl running
        rw [place, Function.update_self]
        exact ⟨shared, nofun⟩
      | returns t op signal running outcome left others all =>
        obtain ⟨rfl, rfl⟩ := h.within.running hl running
        obtain ⟨heq, hne⟩ := startLoop_returns outcome
        rw [heq]
        exact ⟨rfl, fun _ => hne⟩
      | spurious t op c label asleep shared place =>
        subst label
        obtain rfl : t = .caller := hl
        rw [place, Function.update_self]
        exact ⟨shared, nofun⟩
    refine ⟨h.func, h.started, ?_, hwithin, fun loop hloop => ?_⟩
    · rw [hshared.1]
      exact h.shared
    · dsimp only at hloop
      split at hloop
      next hout =>
        cases hloop
        have hne := hshared.2 hout
        exact ⟨hne, h.shared (hshared.1 ▸ hne)⟩
      next => cases hloop

theorem Published.publish (h : Published m) (hf : m.func = .constructed)
    (woken : Option LoopThreadSide) : Published (m.enterSection .publish woken .looping) := by
  unfold enterSection
  cases hs : Monitor.step body m.monitor (.call .thread .publish woken) with
  | error e => exact h
  | ok monitor =>
    have hs := stepped_of_step hs
    have hother : ∀ op, m.monitor.running (.call .thread .publish woken) = some (.caller, op) →
        op = .startLoop := by
      intro op hrun
      simp only [State.running] at hrun
      split at hrun <;> cases hrun
    refine ⟨⟨by simp, by simp⟩, fun hstart => ?_, fun _ => rfl, h.within.stepped hother hs, ?_⟩
    · rw [h.started hstart] at hf
      cases hf
    · exact fun loop hres => ⟨(h.result loop hres).1, rfl⟩

theorem Published.start (h : Published m) (hs : m.start = .ok m') : Published m' := by
  unfold EventLoopThread.start at hs
  by_cases hstart : m.started = false
  · rw [check_bind hstart] at hs
    cases hs
    have hfunc := h.started hstart
    refine ⟨⟨nofun, nofun⟩, nofun, fun hne => ?_, h.within, fun loop hres => ?_⟩
    · have hloop := h.shared hne
      rw [hfunc] at hloop
      cases hloop
    · have hloop := (h.result loop hres).2
      rw [hfunc] at hloop
      cases hloop
  · rw [check, if_neg hstart] at hs
    cases hs

theorem Published.guarded (h : Published m) {c : Prop} [Decidable c] {next : EventLoopThread φ τ}
    (hnext : c → Published next)
    (hs : (if c then .ok next else .ok m : Except Abort (EventLoopThread φ τ)) = .ok m') :
    Published m' := by
  by_cases hc : c
  · rw [if_pos hc] at hs
    cases hs
    exact hnext hc
  · rw [if_neg hc] at hs
    cases hs
    exact h

variable [DecidableEq τ]

theorem Published.runObject (h : Published m) (o : LoopOp φ τ) : Published (m.runObject o) := by
  unfold EventLoopThread.runObject
  split
  · exact ⟨h.func, h.started, h.shared, h.within, h.result⟩
  · exact h

theorem Published.step (h : Published m) {l : LoopThreadStep φ τ} (hC : StaysInLoop m l)
    (hs : m.step l = .ok m') : Published m' := by
  cases l with
  | start => exact h.start hs
  | wait l => exact h.guarded (fun hl => h.wait hl.2.2) hs
  | publish woken => exact h.guarded (fun hf => h.publish hf woken) hs
  | object o => exact h.guarded (fun _ => h.runObject o) hs
  | withdraw =>
    simp only [EventLoopThread.step, if_neg hC] at hs
    cases hs
    exact h
  | leaveScope =>
    simp only [EventLoopThread.step, if_neg h.func.1] at hs
    cases hs
    exact h

/-- As long as the thread is not behind `loop.loop()`, the protocol holds. -/
theorem loopThread_protocol {ls : List (LoopThreadStep φ τ)}
    (hC : Along EventLoopThread.step StaysInLoop (new : EventLoopThread φ τ) ls)
    (h : run EventLoopThread.step new ls = .ok m) : Protocol m :=
  (run_inv_along (fun _ _ _ h hC hs => h.step hC hs) published_new hC h).protocol

theorem loopThread_protocol_woken : ∃ m : EventLoopThread Unit Unit,
    run EventLoopThread.step new [.start, .wait (.call .caller .startLoop none),
      .publish (some .caller), .object .loop, .wait (.resume .caller none)] = .ok m ∧
    m.result = some (some ()) ∧ Protocol m := by
  have hresult : (run EventLoopThread.step (new : EventLoopThread Unit Unit)
      [.start, .wait (.call .caller .startLoop none), .publish (some .caller), .object .loop,
        .wait (.resume .caller none)]).toOption.map (fun m => m.result) = some (some (some ())) := rfl
  obtain ⟨m, h, hm⟩ := ok_of_toOption_map hresult
  refine ⟨m, h, hm, loopThread_protocol ?_ h⟩
  exact ⟨trivial, fun _ _ => ⟨trivial, fun _ _ => ⟨trivial, fun _ _ => ⟨trivial, fun _ _ =>
    ⟨trivial, fun _ _ => trivial⟩⟩⟩⟩⟩

/-- `loop` returns without a `quit`, and the thread ends before the caller comes to wait. -/
theorem loopThread_ended : ∃ m : EventLoopThread Unit Unit,
    run EventLoopThread.step new [.start, .publish none, .object .loop, .object .test,
      .object .leave, .withdraw, .leaveScope, .wait (.call .caller .startLoop none)] = .ok m ∧
    ¬ Protocol m := by
  have hplace : (run EventLoopThread.step (new : EventLoopThread Unit Unit)
      [.start, .publish none, .object .loop, .object .test, .object .leave, .withdraw, .leaveScope,
        .wait (.call .caller .startLoop none)]).toOption.map
        (fun m => (m.func, m.monitor.place .caller)) = some (.ended, .asleep .startLoop ()) := rfl
  obtain ⟨m, h, hm⟩ := ok_of_toOption_map hplace
  simp only [Prod.mk.injEq] at hm
  obtain ⟨hfunc, hasleep⟩ := hm
  refine ⟨m, h, fun hprotocol => ?_⟩
  have hout := hprotocol.released hfunc
  rw [hasleep] at hout
  cases hout

end Czy.Net.EventLoopThread
