import Czy.Sanity.TcpServer

/-! The connections of a server, over any interleaving of its loops. -/

namespace Czy.Net

open StepRun Stages

def ServerEffect.conn : ServerEffect → TcpConnectionPtr
  | .insert c _ | .connectEstablished c | .closeCallback c | .erase c _ | .connectDestory c => c

def ServerFunctor.conn : ServerFunctor → TcpConnectionPtr
  | .connectEstablished c | .removeConnectionInLoop c | .connectDestory c => c

namespace TcpServer

/-- The connections that `newConnection` has put into `connections_`. -/
def accepted (es : List ServerEffect) : List TcpConnectionPtr :=
  es.filterMap fun e => match e with
    | .insert c _ => some c
    | _ => none

/-- The connections that `removeConnectionInLoop` has processed. -/
def removed (es : List ServerEffect) : List TcpConnectionPtr :=
  es.filterMap fun e => match e with
    | .erase c _ => some c
    | _ => none

/-- What the server owes its connections. A `removeConnectionInLoop` that is not queued any
more has taken its connection out. -/
structure Owned (s : TcpServer) : Prop where
  names : ((accepted s.effects).map (·.name)).Nodup
  fresh : ∀ c old, .insert c old ∈ s.effects → old = none
  erased : ∀ c old, .erase c old ∈ s.effects → old = some c
  connections : ∀ nm c, s.connections nm = some c ↔
    c.name = nm ∧ c ∈ accepted s.effects ∧ c ∉ removed s.effects
  closed : ∀ c, .closeCallback c ∈ s.effects →
    (c ∈ removed s.effects ↔ .removeConnectionInLoop c ∉ s.pendingFunctors baseLoop)
  removes : ∀ c loop, .removeConnectionInLoop c ∈ s.pendingFunctors loop →
    loop = baseLoop ∧ .closeCallback c ∈ s.effects
  removed_closed : ∀ c ∈ removed s.effects, .closeCallback c ∈ s.effects
  established : ∀ c ∈ accepted s.effects, s.effects.count (.connectEstablished c) +
    (s.pendingFunctors c.loop).count (.connectEstablished c) = 1
  destroyed : ∀ c ∈ removed s.effects,
    s.effects.count (.connectDestory c) + (s.pendingFunctors c.loop).count (.connectDestory c) = 1
  destroys : ∀ c loop, .connectDestory c ∈ s.pendingFunctors loop →
    loop = c.loop ∧ c ∈ removed s.effects
  order : ∀ c pre post, s.effects = pre ++ .connectDestory c :: post →
    c ∈ removed pre ∧ .connectEstablished c ∈ pre

/-- Fewer than 2^31 connections are accepted, and a `closeCallback_` runs once, after
`connectEstablished`. -/
def Allowed (s : TcpServer) : ServerAction → Prop
  | .accept => s.allocated + 1 < 2 ^ 31
  | .close c => .connectEstablished c ∈ s.effects ∧ .closeCallback c ∉ s.effects
  | _ => True

instance (s : TcpServer) (a : ServerAction) : Decidable (s.Allowed a) := by
  unfold Allowed
  cases a <;> infer_instance

def life (c : TcpConnectionPtr) : List ServerEffect :=
  [.insert c none, .connectEstablished c, .closeCallback c, .erase c (some c), .connectDestory c]

def due (c : TcpConnectionPtr) : ℕ → Option (LoopId × ServerFunctor)
  | 1 => some (c.loop, .connectEstablished c)
  | 3 => some (baseLoop, .removeConnectionInLoop c)
  | 4 => some (c.loop, .connectDestory c)
  | _ => none

def protocol : Protocol TcpConnectionPtr ServerEffect ServerFunctor LoopId where
  event := ServerEffect.conn
  message := ServerFunctor.conn
  life := life
  due := due
  event_life := by
    intro c e he
    simp only [life, List.mem_cons, List.not_mem_nil, or_false] at he
    rcases he with rfl | rfl | rfl | rfl | rfl <;> rfl
  message_due := by
    intro c k loop f h
    unfold due at h
    split at h <;> cases h <;> rfl

def abs (s : TcpServer) : State ServerEffect ServerFunctor LoopId := ⟨s.effects, s.pendingFunctors⟩

/-- Every connection is at some point of its life, and the names come from the counter. -/
structure Owning (s : TcpServer) : Prop where
  live : Live protocol s.abs
  consistent : s.Consistent
  ipPort : s.ipPort.length ≤ 51
  allocated : s.allocated < 2 ^ 31
  nextConnId : s.allocated + 1 < 2 ^ 31 → s.nextConnId = s.allocated + 1
  selves : (accepted s.effects).map (·.self) = List.range s.allocated
  named : ∀ c ∈ accepted s.effects, c.name = conname s.name s.ipPort (c.self + 1)
  connections : ∀ nm c, s.connections nm = some c ↔
    c.name = nm ∧ c ∈ accepted s.effects ∧ c ∉ removed s.effects

variable {s : TcpServer} {c : TcpConnectionPtr} {k : ℕ}

theorem mem_picked {pick : ServerEffect → Option TcpConnectionPtr}
    {mk : Option TcpConnectionPtr → ServerEffect} (hpick : ∀ e, pick e = some c ↔ ∃ old, e = mk old)
    {es : List ServerEffect} : c ∈ es.filterMap pick ↔ ∃ old, mk old ∈ es := by
  rw [List.mem_filterMap]
  constructor
  · rintro ⟨e, he, hc⟩
    obtain ⟨old, rfl⟩ := (hpick e).1 hc
    exact ⟨old, he⟩
  · rintro ⟨old, he⟩
    exact ⟨_, he, (hpick _).2 ⟨old, rfl⟩⟩

theorem mem_accepted {es : List ServerEffect} :
    c ∈ accepted es ↔ ∃ old, .insert c old ∈ es :=
  mem_picked fun e => by cases e <;> simp

theorem mem_removed {es : List ServerEffect} :
    c ∈ removed es ↔ ∃ old, .erase c old ∈ es :=
  mem_picked fun e => by cases e <;> simp

theorem accepted_append (es es' : List ServerEffect) :
    accepted (es ++ es') = accepted es ++ accepted es' := List.filterMap_append

theorem removed_append (es es' : List ServerEffect) :
    removed (es ++ es') = removed es ++ removed es' := List.filterMap_append

/-- Which functor waits, and in which loop, tells how far its connection has come. -/
theorem due_cases {loop : LoopId} {cb : ServerFunctor} (h : due c k = some (loop, cb)) :
    (k = 1 ∧ loop = c.loop ∧ cb = .connectEstablished c) ∨
      (k = 3 ∧ loop = baseLoop ∧ cb = .removeConnectionInLoop c) ∨
      (k = 4 ∧ loop = c.loop ∧ cb = .connectDestory c) := by
  unfold due at h
  split at h <;> cases h <;> simp

section Stage

variable (h : At protocol s.abs c k)
include h

theorem accepted_of_at : c ∈ accepted s.effects ↔ 1 ≤ k := by
  have hmem := fun old => h.mem_log (e := .insert c old) rfl
  rw [mem_accepted]
  change (∃ old, .insert c old ∈ s.abs.log) ↔ _
  simp only [hmem, protocol, life]
  rcases k with - | k
  · simp
  · simp

theorem removed_of_at : c ∈ removed s.effects ↔ 4 ≤ k := by
  have hmem := fun old => h.mem_log (e := .erase c old) rfl
  rw [mem_removed]
  change (∃ old, .erase c old ∈ s.abs.log) ↔ _
  simp only [hmem, protocol, life]
  rcases k with - | - | - | - | k <;> simp

theorem established_of_at : .connectEstablished c ∈ s.effects ↔ 2 ≤ k := by
  refine (h.mem_log (e := .connectEstablished c) rfl).trans ?_
  simp only [protocol, life]
  rcases k with - | - | k <;> simp

theorem closed_of_at : .closeCallback c ∈ s.effects ↔ 3 ≤ k := by
  refine (h.mem_log (e := .closeCallback c) rfl).trans ?_
  simp only [protocol, life]
  rcases k with - | - | - | k <;> simp

end Stage

theorem Owning.entry (h : s.Owning) (hk : At protocol s.abs c k) (h1 : 1 ≤ k) (h4 : k < 4) :
    s.connections c.name = some c := by
  refine (h.connections _ _).2 ⟨rfl, (accepted_of_at hk).2 h1, fun hr => ?_⟩
  have := (removed_of_at hk).1 hr
  omega

theorem Owning.self_lt (h : s.Owning) (hc : c ∈ accepted s.effects) : c.self < s.allocated := by
  have hmem : c.self ∈ (accepted s.effects).map (·.self) := List.mem_map_of_mem hc
  rw [h.selves] at hmem
  exact List.mem_range.1 hmem

theorem Owning.name_ne (h : s.Owning) (hal : s.allocated + 1 < 2 ^ 31) (hc : c ∈ accepted s.effects) :
    c.name ≠ conname s.name s.ipPort s.nextConnId := by
  have hlt := h.self_lt hc
  rw [h.named c hc, h.nextConnId hal]
  intro heq
  have := conname_injective h.ipPort s.name (by omega) (by omega) (by omega) (by omega) heq
  omega

theorem Owning.at_new (h : s.Owning) (loop : LoopId) : At protocol s.abs (s.nextConn loop) 0 := by
  obtain ⟨k, hk⟩ := h.live (s.nextConn loop)
  rcases Nat.eq_zero_or_pos k with rfl | hpos
  · exact hk
  · have := h.self_lt ((accepted_of_at hk).2 hpos)
    exact absurd this (Nat.lt_irrefl _)

section Moves

variable {es : List ServerEffect} {box : LoopId → List ServerFunctor}

theorem Owning.keep (h : s.Owning) (hstep : Stages.Step protocol s.abs ⟨s.effects ++ es, box⟩)
    (hacc : accepted es = []) (hrem : removed es = []) :
    Owning { s with pendingFunctors := box, effects := s.effects ++ es } := by
  have hacc' : accepted (s.effects ++ es) = accepted s.effects := by
    rw [accepted_append, hacc, List.append_nil]
  have hrem' : removed (s.effects ++ es) = removed s.effects := by
    rw [removed_append, hrem, List.append_nil]
  refine ⟨live_step h.live hstep, h.consistent, h.ipPort, h.allocated, h.nextConnId, ?_, ?_, ?_⟩
  · exact (congrArg _ hacc').trans h.selves
  · intro d hd
    exact h.named d (hacc' ▸ hd)
  · intro nm d
    simp only [hacc', hrem']
    exact h.connections nm d

theorem Owning.erase (h : s.Owning) (hstep : Stages.Step protocol s.abs ⟨s.effects ++ es, box⟩)
    (hacc : accepted es = []) (hrem : removed es = [c]) (hc : s.connections c.name = some c) :
    Owning { s with
      connections := Function.update s.connections c.name none
      pendingFunctors := box
      effects := s.effects ++ es } := by
  have hacc' : accepted (s.effects ++ es) = accepted s.effects := by
    rw [accepted_append, hacc, List.append_nil]
  have hrem' : removed (s.effects ++ es) = removed s.effects ++ [c] := by
    rw [removed_append, hrem]
  refine ⟨live_step h.live hstep, h.consistent, h.ipPort, h.allocated, h.nextConnId, ?_, ?_, ?_⟩
  · exact (congrArg _ hacc').trans h.selves
  · intro d hd
    exact h.named d (hacc' ▸ hd)
  · intro nm d
    simp only [hacc', hrem', List.mem_append, List.mem_singleton, not_or]
    rcases eq_or_ne nm c.name with rfl | hne
    · rw [Function.update_self]
      refine iff_of_false (by simp) ?_
      rintro ⟨hname, hd, hnot, hdc⟩
      have hentry := (h.connections c.name d).2 ⟨hname, hd, hnot⟩
      rw [hc] at hentry
      exact hdc (Option.some.inj hentry).symm
    · rw [Function.update_of_ne hne, h.connections nm d]
      refine and_congr_right fun hname => and_congr_right fun _ => (and_iff_left ?_).symm
      rintro rfl
      exact hne hname.symm

theorem Owning.insert (h : s.Owning) (hal : s.allocated + 1 < 2 ^ 31) {pool : EventLoopThreadPool}
    (hpool : pool.started = s.started) (loop : LoopId)
    (hstep : Stages.Step protocol s.abs ⟨s.effects ++ es, box⟩)
    (hacc : accepted es = [s.nextConn loop]) (hrem : removed es = []) :
    Owning { s with
      threadPool := pool
      nextConnId := incInt s.nextConnId
      allocated := s.allocated + 1
      connections := Function.update s.connections (s.nextConn loop).name (some (s.nextConn loop))
      pendingFunctors := box
      effects := s.effects ++ es } := by
  have hacc' : accepted (s.effects ++ es) = accepted s.effects ++ [s.nextConn loop] := by
    rw [accepted_append, hacc]
  have hrem' : removed (s.effects ++ es) = removed s.effects := by
    rw [removed_append, hrem, List.append_nil]
  have hnew : s.nextConn loop ∉ removed s.effects := fun hr => by
    have := (removed_of_at (h.at_new loop)).1 hr
    omega
  have hid := h.nextConnId hal
  refine ⟨live_step h.live hstep, ⟨h.consistent.1, hpool⟩, h.ipPort, hal, ?_, ?_, ?_, ?_⟩
  · intro hlt
    simp only at hlt ⊢
    rw [hid, incInt, if_neg (by omega)]
    push_cast
    ring
  · simp only [hacc', List.map_append, h.selves, List.range_succ]
    rfl
  · intro d hd
    simp only [hacc', List.mem_append, List.mem_singleton] at hd
    rcases hd with hd | rfl
    · exact h.named d hd
    · simp only [nextConn, hid]
  · intro nm d
    simp only [hacc', hrem', List.mem_append, List.mem_singleton]
    rcases eq_or_ne nm (s.nextConn loop).name with rfl | hne
    · rw [Function.update_self, Option.some.injEq]
      constructor
      · rintro rfl
        exact ⟨rfl, Or.inr rfl, hnew⟩
      · rintro ⟨hname, hd | hd, -⟩
        · exact absurd hname (h.name_ne hal hd)
        · exact hd.symm
    · rw [Function.update_of_ne hne, h.connections nm d]
      refine and_congr_right fun hname => and_congr_left fun _ => (or_iff_left ?_).symm
      rintro rfl
      exact hne hname.symm

end Moves

theorem accept_owning (h : s.Owning) (hal : s.Allowed .accept) :
    ∃ s', s.step .accept = .ok s' ∧ s'.Owning := by
  by_cases hl : s.listening = true
  · have hstarted := h.consistent.2.trans (h.consistent.1.symm.trans hl)
    obtain ⟨loop, pool, hpool, hnew⟩ := newConnection_ok hstarted
    have hnone : s.connections (s.nextConn loop).name = none := by
      apply Option.eq_none_iff_forall_ne_some.2
      intro d hd
      obtain ⟨hname, hacc, -⟩ := (h.connections _ d).1 hd
      exact h.name_ne hal hacc hname
    have hpool' : pool.started = s.started := hpool.trans (hstarted.symm.trans h.consistent.2)
    have hat := h.at_new loop
    rw [step, if_pos hl, hnew, hnone]
    by_cases hloop : baseLoop = loop
    · rw [runInLoop_here hloop, connectEstablished_call hloop]
      have hown := h.insert hal hpool' loop (Stages.Step.act s.abs _ 0 2 hat rfl) rfl rfl
      refine ⟨_, rfl, ?_⟩
      simp only [emit, List.append_assoc]
      exact hown
    · rw [runInLoop_there hloop]
      exact ⟨_, rfl, h.insert hal hpool' loop (Stages.Step.act s.abs _ 0 1 hat rfl) rfl rfl⟩
  · exact ⟨s, if_neg hl, h⟩

theorem close_owning (h : s.Owning) (hal : s.Allowed (.close c)) :
    ∃ s', s.step (.close c) = .ok s' ∧ s'.Owning := by
  obtain ⟨k, hk⟩ := h.live c
  have h2 := (established_of_at hk).1 hal.1
  have h3 : ¬ 3 ≤ k := fun hle => hal.2 ((closed_of_at hk).2 hle)
  obtain rfl : k = 2 := by omega
  have hentry := h.entry hk (by omega) (by omega)
  rw [step, removeConnection]
  by_cases hloop : c.loop = baseLoop
  · have hentry' : (s.emit (.closeCallback c)).connections c.name = some c := hentry
    rw [runInLoop_here hloop, hloop, call, removeConnectionInLoop_ok hentry']
    have hown := h.erase (Stages.Step.act s.abs c 2 2 hk rfl) rfl rfl hentry
    refine ⟨_, rfl, ?_⟩
    simp only [emit, queueInLoop, List.append_assoc]
    exact hown
  · rw [runInLoop_there hloop]
    exact ⟨_, rfl, h.keep (Stages.Step.act s.abs c 2 1 hk rfl) rfl rfl⟩

theorem runFunctor_owning (h : s.Owning) (loop : LoopId) :
    ∃ s', s.step (.runFunctor loop) = .ok s' ∧ s'.Owning := by
  cases hq : s.pendingFunctors loop with
  | nil => exact ⟨s, by simp only [step, hq], h⟩
  | cons cb cbs =>
    have hmem : cb ∈ s.abs.box loop := by
      change cb ∈ s.pendingFunctors loop
      rw [hq]
      exact List.mem_cons_self
    obtain ⟨c, hc⟩ : ∃ c, cb.conn = c := ⟨_, rfl⟩
    obtain ⟨k, hk⟩ := h.live c
    have hdue := (hk.mem_box hc loop).1 hmem
    simp only [step, hq]
    rcases due_cases hdue with ⟨rfl, rfl, rfl⟩ | ⟨rfl, rfl, rfl⟩ | ⟨rfl, rfl, rfl⟩
    · rw [connectEstablished_call rfl]
      exact ⟨_, rfl, h.keep (Stages.Step.deliver s.abs c 1 1 _ _ _ hk hdue hq) rfl rfl⟩
    · have hentry := h.entry hk (by omega) (by omega)
      rw [call, removeConnectionInLoop_ok]
      · exact ⟨_, rfl, h.erase (Stages.Step.deliver s.abs c 3 1 _ _ _ hk hdue hq) rfl rfl hentry⟩
      · exact hentry
    · rw [connectDestory_call rfl]
      exact ⟨_, rfl, h.keep (Stages.Step.deliver s.abs c 4 1 _ _ _ hk hdue hq) rfl rfl⟩

/-- No step fails, whichever thread takes it. -/
theorem step_owning (h : s.Owning) {a : ServerAction} (hal : s.Allowed a) :
    ∃ s', s.step a = .ok s' ∧ s'.Owning := by
  cases a with
  | setThreadNum n =>
    exact ⟨_, setThreadNum_ok s n, ⟨h.live, h.consistent, h.ipPort, h.allocated, h.nextConnId,
      h.selves, h.named, h.connections⟩⟩
  | start =>
    obtain ⟨s', hs, hcon, hs'⟩ := start_ok h.consistent
    rw [hs'] at hs hcon
    exact ⟨_, hs, ⟨h.live, hcon, h.ipPort, h.allocated, h.nextConnId, h.selves, h.named,
      h.connections⟩⟩
  | accept => exact accept_owning h hal
  | close c => exact close_owning h hal
  | runFunctor loop => exact runFunctor_owning h loop

theorem new_owning {name ipPort : String} (hip : ipPort.length ≤ 51) :
    Owning (new name ipPort) := by
  refine ⟨fun c => ⟨0, rfl, fun _ => rfl⟩, ⟨rfl, rfl⟩, hip, Nat.two_pow_pos 31, fun _ => rfl, rfl,
    ?_, ?_⟩
  · intro c hc
    cases hc
  · intro nm c
    exact iff_of_false (by simp [new]) (fun hc => by cases hc.2.1)

theorem Owning.owned (h : s.Owning) : s.Owned := by
  refine ⟨?_, ?_, ?_, h.connections, ?_, ?_, ?_, ?_, ?_, ?_, ?_⟩
  · have hnames : (accepted s.effects).map (·.name) =
        (List.range s.allocated).map fun i : ℕ => conname s.name s.ipPort (i + 1) := by
      rw [← h.selves, List.map_map]
      exact List.map_congr_left h.named
    rw [hnames]
    refine List.Nodup.map_on (fun i hi j hj heq => ?_) List.nodup_range
    have hi := List.mem_range.1 hi
    have hj := List.mem_range.1 hj
    have := h.allocated
    have := conname_injective h.ipPort s.name (by omega) (by omega) (by omega) (by omega) heq
    omega
  · intro c old hc
    obtain ⟨k, hk⟩ := h.live c
    have hlife := List.mem_of_mem_take ((hk.mem_log rfl).1 hc)
    simpa [protocol, life] using hlife
  · intro c old hc
    obtain ⟨k, hk⟩ := h.live c
    have hlife := List.mem_of_mem_take ((hk.mem_log rfl).1 hc)
    simpa [protocol, life] using hlife
  · intro c hc
    obtain ⟨k, hk⟩ := h.live c
    have h3 := (closed_of_at hk).1 hc
    have hbox := hk.mem_box (f := .removeConnectionInLoop c) rfl baseLoop
    change (_ ∈ s.pendingFunctors baseLoop ↔ due c k = _) at hbox
    rw [removed_of_at hk, hbox]
    rcases h3.eq_or_lt with rfl | h4
    · exact iff_of_false (by omega) (not_not.2 rfl)
    · refine iff_of_true h4 fun hdue => ?_
      rcases due_cases hdue with ⟨-, -, hcb⟩ | ⟨rfl, -, -⟩ | ⟨-, -, hcb⟩
      · cases hcb
      · omega
      · cases hcb
  · intro c loop hc
    obtain ⟨k, hk⟩ := h.live c
    rcases due_cases ((hk.mem_box rfl loop).1 hc) with ⟨-, -, hcb⟩ | ⟨rfl, hloop, -⟩ | ⟨-, -, hcb⟩
    · cases hcb
    · exact ⟨hloop, (closed_of_at hk).2 le_rfl⟩
    · cases hcb
  · intro c hc
    obtain ⟨k, hk⟩ := h.live c
    have h4 := (removed_of_at hk).1 hc
    exact (closed_of_at hk).2 (by omega)
  · intro c hc
    obtain ⟨k, hk⟩ := h.live c
    have h1 := (accepted_of_at hk).1 hc
    have hlog := hk.count_log (e := .connectEstablished c) rfl
    have hbox := hk.count_box (f := .connectEstablished c) rfl c.loop
    refine (congrArg₂ (· + ·) hlog hbox).trans ?_
    rcases k with - | - | - | - | - | k
    · omega
    · simp [protocol, life, due, inBox]
    · simp [protocol, life, due, inBox]
    · by_cases hloop : c.loop = baseLoop
      · simp [protocol, life, due, inBox, hloop]
      · simp [protocol, life, due, inBox, hloop]
    · simp [protocol, life, due, inBox]
    · simp [protocol, life, due, inBox]
  · intro c hc
    obtain ⟨k, hk⟩ := h.live c
    have h4 := (removed_of_at hk).1 hc
    have hlog := hk.count_log (e := .connectDestory c) rfl
    have hbox := hk.count_box (f := .connectDestory c) rfl c.loop
    refine (congrArg₂ (· + ·) hlog hbox).trans ?_
    rcases k with - | - | - | - | - | k
    · omega
    · omega
    · omega
    · omega
    · simp [protocol, life, due, inBox]
    · simp [protocol, life, due, inBox]
  · intro c loop hc
    obtain ⟨k, hk⟩ := h.live c
    rcases due_cases ((hk.mem_box rfl loop).1 hc) with ⟨-, -, hcb⟩ | ⟨-, -, hcb⟩ | ⟨rfl, hloop, -⟩
    · cases hcb
    · cases hcb
    · exact ⟨hloop, (removed_of_at hk).2 le_rfl⟩
  · intro c pre post heq
    obtain ⟨k, hk⟩ := h.live c
    have hpre := hk.before (by simp [protocol, life]) (e := .connectDestory c) (n := 4) rfl heq
    have hmem : ∀ e ∈ (life c).take 4, e ∈ pre := fun e he => by
      change e ∈ (protocol.life c).take 4 at he
      rw [← hpre] at he
      exact (List.mem_filter.1 he).1
    exact ⟨mem_removed.2 ⟨some c, hmem _ (by simp [life])⟩, hmem _ (by simp [life])⟩

/-! Each `accept` of a server that listens is a connection. -/

theorem call_keeps {s' : TcpServer} {t : LoopId} {cb : ServerFunctor} (h : s.call t cb = .ok s') :
    s'.listening = s.listening ∧ s'.allocated = s.allocated := by
  cases cb with
  | removeConnectionInLoop c =>
    obtain ⟨-, -, h⟩ := bind_ok.1 h
    obtain ⟨-, h⟩ := require_bind_ok.1 h
    rw [← Except.ok.inj h]
    exact ⟨rfl, rfl⟩
  | connectEstablished c | connectDestory c =>
    obtain ⟨-, -, h⟩ := bind_ok.1 h
    rw [← Except.ok.inj h]
    exact ⟨rfl, rfl⟩

theorem runInLoop_keeps {s' : TcpServer} {t loop : LoopId} {cb : ServerFunctor}
    (h : s.runInLoop t loop cb = .ok s') : s'.listening = s.listening ∧ s'.allocated = s.allocated := by
  unfold runInLoop at h
  split at h
  next => exact call_keeps h
  next =>
    rw [← Except.ok.inj h]
    exact ⟨rfl, rfl⟩

theorem step_counts (h : s.Owning) {a : ServerAction} {s' : TcpServer} (hok : s.step a = .ok s') :
    (s'.listening = true ↔ s.listening = true ∨ a = .start) ∧
      s'.allocated = s.allocated + if s.listening = true ∧ a = .accept then 1 else 0 := by
  cases a with
  | setThreadNum n =>
    rw [← Except.ok.inj ((setThreadNum_ok s n).symm.trans hok)]
    simp
  | start =>
    change s.start baseLoop = .ok s' at hok
    by_cases hs : s.started = true
    · obtain rfl := Except.ok.inj ((if_pos hs).symm.trans hok)
      simp [h.consistent.1.trans hs]
    · obtain ⟨pool, -, hok⟩ := bind_ok.1 ((if_neg hs).symm.trans hok)
      obtain ⟨-, hok⟩ := require_bind_ok.1 hok
      rw [← Except.ok.inj hok]
      simp
  | accept =>
    by_cases hl : s.listening = true
    · have hstarted := h.consistent.2.trans (h.consistent.1.symm.trans hl)
      obtain ⟨loop, pool, -, hnew⟩ := newConnection_ok hstarted
      have hkeeps := runInLoop_keeps (hnew.symm.trans ((if_pos hl).symm.trans hok))
      simp [hkeeps, hl, emit]
    · obtain rfl := Except.ok.inj ((if_neg hl).symm.trans hok)
      simp [hl]
  | close c =>
    have hkeeps := runInLoop_keeps (s := s.emit (.closeCallback c)) hok
    simp [hkeeps, emit]
  | runFunctor loop =>
    simp only [step] at hok
    split at hok
    next =>
      rw [← Except.ok.inj hok]
      simp
    next cb cbs _ =>
      have hkeeps := call_keeps hok
      simp [hkeeps]

/-- The connections of a run: its `accept`s from the first `start` on. -/
def accepts (actions : List ServerAction) : ℕ := (actions.dropWhile (· ≠ .start)).count .accept

theorem run_counts {actions : List ServerAction} {s' : TcpServer} (h : s.Owning)
    (hal : Along TcpServer.step Allowed s actions) (hok : run TcpServer.step s actions = .ok s') :
    s'.allocated = s.allocated + if s.listening = true then actions.count .accept
      else accepts actions := by
  induction actions generalizing s with
  | nil =>
    rw [← Except.ok.inj hok]
    simp [accepts]
  | cons a actions ih =>
    obtain ⟨u, hu, hrest⟩ := run_cons_ok hok
    obtain ⟨u', hu', hown⟩ := step_owning h hal.1
    obtain rfl := Except.ok.inj (hu.symm.trans hu')
    obtain ⟨hlistening, hallocated⟩ := step_counts h hu
    rw [ih hown (hal.2 u hu) hrest, hallocated]
    by_cases hl : s.listening = true
    · rw [if_pos (hlistening.2 (.inl hl)), if_pos hl, List.count_cons]
      simp only [hl, true_and, beq_iff_eq]
      omega
    · by_cases ha : a = .start
      · rw [if_pos (hlistening.2 (.inr ha)), if_neg hl, accepts, ha]
        simp [hl]
      · rw [if_neg fun hu => (hlistening.1 hu).elim hl ha, if_neg hl, accepts, accepts,
          List.dropWhile_cons_of_pos (by simpa using ha)]
        simp [hl]

end TcpServer

open TcpServer

/-- Whatever the loops do and in whatever order, no assertion of the server fails and it
owns exactly the connections that it has accepted and not yet removed. -/
theorem connections_owned (name ipPort : String) (actions : List ServerAction)
    (hip : ipPort.length ≤ 51) (hal : Along TcpServer.step Allowed (.new name ipPort) actions) :
    ∃ s, run TcpServer.step (.new name ipPort) actions = .ok s ∧ s.Owned ∧
      (accepted s.effects).length = accepts actions := by
  have hnew : Owning (new name ipPort) := new_owning hip
  obtain ⟨s, hs, hown⟩ := run_ok_along (fun _ _ h hal => step_owning h hal) hnew hal
  refine ⟨s, hs, hown.owned, ?_⟩
  have hcount := run_counts hnew hal hs
  rw [← List.length_map (·.self), hown.selves, List.length_range, hcount]
  exact Nat.zero_add _

def oneCloses : List ServerAction :=
  [.setThreadNum 1, .start, .accept, .accept, .runFunctor 1, .close ⟨0, "chat-0.0.0.0:2007#1", 1⟩,
    .runFunctor 0, .runFunctor 1, .runFunctor 1]

/-- The entry of the closed one is gone, and its `connectDestory` has been called. -/
theorem connections_owned_closed :
    ∃ s, run TcpServer.step (.new "chat" "0.0.0.0:2007") oneCloses = .ok s ∧
      (s.Owned ∧ (accepted s.effects).length = 2) ∧
      s.connections "chat-0.0.0.0:2007#1" = none ∧
      s.connections "chat-0.0.0.0:2007#2" = some ⟨1, "chat-0.0.0.0:2007#2", 1⟩ ∧
      .connectDestory ⟨0, "chat-0.0.0.0:2007#1", 1⟩ ∈ s.effects := by
  obtain ⟨s, hs, hends⟩ := ok_of_toOption_map (x := run TcpServer.step (.new "chat" "0.0.0.0:2007") oneCloses)
    (f := fun s => (s.connections "chat-0.0.0.0:2007#1", s.connections "chat-0.0.0.0:2007#2",
      decide (.connectDestory ⟨0, "chat-0.0.0.0:2007#1", 1⟩ ∈ s.effects)))
    (a := (none, some ⟨1, "chat-0.0.0.0:2007#2", 1⟩, true)) (by decide +kernel)
  simp only [Prod.mk.injEq, decide_eq_true_eq] at hends
  obtain ⟨s', hs', howned⟩ :=
    connections_owned "chat" "0.0.0.0:2007" oneCloses (by decide) (by decide +kernel)
  obtain rfl := Except.ok.inj (hs.symm.trans hs')
  exact ⟨s, hs, howned, hends⟩

end Czy.Net
