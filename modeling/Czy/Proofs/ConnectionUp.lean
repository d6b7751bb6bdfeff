import Czy.Proofs.CloseOnce

/-! What the user of a server or a client learns of a connection that is up. -/

namespace Czy.Net

open StepRun TcpConnection

/-- The calls after which the read interest may be gone; a functor that was queued may
be one of them. -/
def ConnOp.mayStopReading : ConnOp → Bool
  | .connectDestory _ | .runPending _ _ | .call _ .stopRead => true
  | .handleEvent d => (d.onHup ++ d.onRead).any fun u => match u with
    | .stopRead => true
    | _ => false
  | _ => false

namespace TcpConnection

/-- UP is reported once, before any message and before DOWN. -/
def UpFirst (es : List Effect) : Prop :=
  es.count (.connectionCallback true) = 1 ∧
    ∀ pre post, es = pre ++ .connectionCallback true :: post →
      .messageCallback ∉ pre ∧ .connectionCallback false ∉ pre

/-- From `connectEstablished` on the read interest is set, until it may be given up or
the connection is closed. -/
def ReadsOnceEstablished (c₀ : TcpConnection) (ops : List ConnOp) : Prop :=
  ∀ pre mid post c, ops = pre ++ .connectEstablished :: mid ++ post →
    (∀ o ∈ mid, o.mayStopReading = false) →
    run ConnOp.step c₀ (pre ++ .connectEstablished :: mid) = .ok c → c.state ≠ .KDisconnected →
      c.channel.isWriting = true

/-- UP is never reported and the read interest never set. -/
structure Silent (c : TcpConnection) : Prop where
  up : .connectionCallback true ∉ c.effects
  deaf : c.channel.isWriting = false

variable {c c' : TcpConnection}

theorem connectEstablished_ok (h : c.connectEstablished = .ok c') : c'.state = .KConnected ∧
    c'.effects = c.effects ++ [Effect.setState .KConnecting, .setState .KConnected] ∧
      c'.channel = c.channel.tie := by
  obtain ⟨-, h⟩ := require_bind_ok.1 h
  cases h
  exact ⟨rfl, by simp [setState, emit], rfl⟩

theorem step_silent {o : ConnOp} (h : c.Silent) (hs : o.step c = .ok c') : c'.Silent := by
  by_cases hest : o = .connectEstablished → c.state = .KConnecting
  · obtain ⟨_, _, c₀, he, -, hd, -, hm, -⟩ := step_moves hs hest
    obtain ⟨es, hes, -, -, hup, -⟩ := hm.trace
    refine ⟨?_, hm.deaf (by rw [hd]; exact h.deaf)⟩
    rw [hes, he]
    simpa using ⟨h.up, hup⟩
  · obtain ⟨rfl, -⟩ := Classical.not_imp.1 hest
    obtain ⟨-, he, hc⟩ := connectEstablished_ok hs
    exact ⟨by rw [he]; simpa using h.up, by rw [hc]; exact h.deaf⟩

theorem created_silent (sockfd : ℕ) (cb : Bool) : (created sockfd cb).Silent :=
  ⟨by simp [created, TcpConnection.new], by change Mask.test _ 0 = false; decide⟩

end TcpConnection

/-- No run that establishes a connection reports it or starts to read from it. -/
theorem established_never_up (sockfd : ℕ) (cb : Bool) (ops : List ConnOp) (c : TcpConnection)
    (hrun : run ConnOp.step (created sockfd cb) ops = .ok c) (hest : .connectEstablished ∈ ops) :
    ¬ UpFirst c.effects ∧ ¬ ReadsOnceEstablished (created sockfd cb) ops := by
  have hsilent : ∀ {os : List ConnOp} {c : TcpConnection},
      run ConnOp.step (created sockfd cb) os = .ok c → c.Silent :=
    fun h => run_inv (fun _ _ _ => step_silent) (created_silent sockfd cb) h
  constructor
  · intro hup
    have := List.count_eq_zero.2 (hsilent hrun).up
    rw [hup.1] at this
    cases this
  · intro hreads
    obtain ⟨pre, post, rfl⟩ := List.append_of_mem hest
    rw [← List.singleton_append, ← List.append_assoc] at hrun
    obtain ⟨c₁, hc₁, -⟩ := run_append_ok hrun
    obtain ⟨c₂, -, hlast⟩ := run_append_ok hc₁
    obtain ⟨c₃, hc₃, hnil⟩ := run_cons_ok hlast
    cases hnil
    have hstate := (connectEstablished_ok hc₃).1
    have hread := hreads pre [] post c₁ (by simp) (by simp) hc₁ (by rw [hstate]; decide)
    rw [(hsilent hc₁).deaf] at hread
    cases hread

theorem established_never_up_read :
    ∃ c, run ConnOp.step (created 5 false) [.connectEstablished,
      .handleEvent ⟨POLLIN, true, .ok [7], .ok 0, [], []⟩] = .ok c ∧ ¬ UpFirst c.effects := by
  obtain ⟨c, hs, -⟩ := ok_of_toOption_map
    (x := run ConnOp.step (created 5 false) [.connectEstablished,
      .handleEvent ⟨POLLIN, true, .ok [7], .ok 0, [], []⟩])
    (f := fun c => c.state) (a := .KConnected) (by decide +kernel)
  exact ⟨c, hs, (established_never_up 5 false _ c hs (List.mem_cons_self ..)).1⟩

theorem established_silently :
    ∃ c, run ConnOp.step (created 5 false) [.connectEstablished] = .ok c ∧
      ¬ UpFirst c.effects ∧ ¬ ReadsOnceEstablished (created 5 false) [.connectEstablished] := by
  refine ⟨_, rfl, ?_, ?_⟩
  · intro hup
    exact absurd hup.1 (by decide)
  · intro hreads
    have := hreads [] [] [] _ rfl (by simp) rfl (by decide)
    revert this
    decide

end Czy.Net
