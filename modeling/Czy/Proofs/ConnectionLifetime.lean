import Czy.Lib.Guarding
import Czy.Lib.Run
import Czy.Spec.SharedConnection

/-! A connection is held until it is closed and all that waits for it has run. The server's map
holds it up to `removeConnectionInLoop`, and that queues `connectDestory`, which holds it, behind
everything that was bound with `this` before. -/

namespace Czy.Net.SharedConnection

open Guarding StepRun

section

variable {τ : Type} {s s' : SharedConnection τ} {f : BoundFunctor τ} {t : τ} {c : SharedCall}

/-- The functors that are still to run. -/
def waiting (s : SharedConnection τ) : List (BoundFunctor τ) := s.functors ++ s.pendingFunctors

/-- Nothing but a later functor keeps the connection for this one. -/
def Unheld (s : SharedConnection τ) (f : BoundFunctor τ) : Prop :=
  s.inMap = false ∧ ∃ t, f.boundBy = some t ∧ t ∉ s.holders

/-- Up, or on the way down from the one call of `closeCallback_` to `connectDestory`. -/
structure Inv (s : SharedConnection τ) : Prop where
  callers : ∀ t, s.calls t ≠ .out → t ∈ s.holders
  guarded : Guarded s.Unheld (· = .connectDestory) s.waiting
  starting : s.state = .KConnecting → s.Settled ∧
    ∃ rest, s.waiting = .connectEstablished :: rest ∧ .connectEstablished ∉ rest
  started : s.state ≠ .KConnecting → .connectEstablished ∉ s.waiting
  up : s.state ≠ .KDisconnected →
    s.closes = 0 ∧ s.inMap = true ∧ s.removals = 0 ∧ .connectDestory ∉ s.waiting
  down : s.state = .KDisconnected → s.Settled ∧ s.closes = 1 ∧
    (s.inMap = true ∧ s.removals = 1 ∨ s.inMap = false ∧ s.removals = 0)

theorem new_inv (ioIsBase : Bool) : Inv (new ioIsBase : SharedConnection τ) where
  callers _ h := absurd rfl h
  guarded := guarded_of_none fun _ _ h => by cases h.1
  starting h := by
    refine ⟨fun _ => rfl, [], ?_, List.not_mem_nil⟩
    cases ioIsBase with
    | false => rfl
    | true => cases h
  started h := by
    cases ioIsBase with
    | false => exact absurd rfl h
    | true => exact List.not_mem_nil
  up _ := by
    refine ⟨rfl, rfl, rfl, ?_⟩
    cases ioIsBase with
    | false => simp [waiting, new]
    | true => exact List.not_mem_nil
  down h := by cases ioIsBase <;> cases h

theorem Inv.state_of_not_held (h : Inv s) (hheld : ¬ s.Held) : s.state = .KDisconnected := by
  by_contra hstate
  exact hheld (.inl (h.up hstate).2.1)

theorem Inv.beside (h : Inv s) (ran : List (BoundFunctor τ)) (removed timers : ℕ) :
    Inv { s with ran := ran, removed := removed, timers := timers } :=
  ⟨h.callers, h.guarded, h.starting, h.started, h.up, h.down⟩

theorem waiting_queueInLoop (s : SharedConnection τ) (f : BoundFunctor τ) :
    (s.queueInLoop f).waiting = s.waiting ++ [f] := (List.append_assoc _ _ _).symm

theorem Inv.queueInLoop (h : Inv s) (hestablished : .connectEstablished ≠ f)
    (hdestory : .connectDestory ≠ f) (hheld : ¬ s.Unheld f) : Inv (s.queueInLoop f) where
  callers := h.callers
  guarded := by
    rw [waiting_queueInLoop]
    exact h.guarded.concat hheld
  starting hstate := by
    obtain ⟨hsettled, rest, hwaiting, hrest⟩ := h.starting hstate
    refine ⟨hsettled, rest ++ [f], by rw [waiting_queueInLoop, hwaiting, List.cons_append], ?_⟩
    exact List.not_mem_append hrest (mt List.mem_singleton.1 hestablished)
  started hstate := by
    rw [waiting_queueInLoop]
    exact List.not_mem_append (h.started hstate) (mt List.mem_singleton.1 hestablished)
  up hstate := by
    obtain ⟨hcloses, hmap, hremovals, hnot⟩ := h.up hstate
    refine ⟨hcloses, hmap, hremovals, ?_⟩
    rw [waiting_queueInLoop]
    exact List.not_mem_append hnot (mt List.mem_singleton.1 hdestory)
  down := h.down

theorem Inv.disconnecting (h : Inv s) (hconnecting : s.state ≠ .KConnecting)
    (hdisconnected : s.state ≠ .KDisconnected) : Inv { s with state := .KDisConnecting } where
  callers := h.callers
  guarded := h.guarded
  starting hstate := by cases hstate
  started _ := h.started hconnecting
  up _ := h.up hdisconnected
  down hstate := by cases hstate

theorem up_of_passes (hpasses : s.passes c = true) (hsets : (CallPlace.tested c).sets = true) :
    s.state ≠ .KConnecting ∧ s.state ≠ .KDisconnected := by
  have hup : s.state = .KConnected ∨ s.state = .KDisConnecting := by
    cases c with
    | send => cases hsets
    | stopRead => cases hsets
    | shutdown => exact .inl (of_decide_eq_true hpasses)
    | forceClose => exact of_decide_eq_true hpasses
    | forceCloseWithDealy => exact of_decide_eq_true hpasses
  rcases hup with hup | hup <;> rw [hup] <;> exact ⟨nofun, nofun⟩

theorem Inv.callInLoop (h : Inv s) (c : SharedCall) : Inv (s.callInLoop c) := by
  unfold SharedConnection.callInLoop
  split
  next hpasses =>
    cases c with
    | send => exact h
    | stopRead => exact h
    | shutdown =>
      obtain ⟨hconnecting, hdisconnected⟩ := up_of_passes hpasses rfl
      exact h.disconnecting hconnecting hdisconnected
    | forceClose =>
      obtain ⟨hconnecting, hdisconnected⟩ := up_of_passes hpasses rfl
      refine (h.disconnecting hconnecting hdisconnected).queueInLoop nofun nofun ?_
      rintro ⟨-, t, ht, -⟩
      cases ht
    | forceCloseWithDealy =>
      obtain ⟨hconnecting, hdisconnected⟩ := up_of_passes hpasses rfl
      exact (h.disconnecting hconnecting hdisconnected).beside s.ran s.removed (s.timers + 1)
  next => exact h

theorem Inv.timerExpired (h : Inv s) : Inv s.timerExpired := by
  have hless := h.beside s.ran s.removed (s.timers - 1)
  unfold SharedConnection.timerExpired
  split
  · exact h
  · change Inv (if _ then _ else _)
    split
    · exact hless.callInLoop .forceClose
    · exact hless

/-- The server lets a closed connection go, and its last functor holds it. -/
theorem letGo_inv (hcallers : ∀ t, s.calls t ≠ .out → t ∈ s.holders)
    (hstarted : .connectEstablished ∉ s.waiting) (hstate : s.state = .KDisconnected)
    (hsettled : s.Settled) (hremovals : s.removals = 0) (hcloses : s.closes = 1) :
    Inv ({ s with inMap := false }.queueInLoop .connectDestory) where
  callers := hcallers
  guarded := by
    rw [waiting_queueInLoop]
    refine guarded_concat ?_ ?_ _
    · rfl
    · rintro ⟨-, t, ht, -⟩
      cases ht
  starting hconnecting := by cases hstate.symm.trans hconnecting
  started _ := by
    rw [waiting_queueInLoop]
    exact List.not_mem_append hstarted (mt List.mem_singleton.1 nofun)
  up hup := absurd hstate hup
  down _ := ⟨hsettled, hcloses, .inr ⟨rfl, hremovals⟩⟩

theorem removeConnectionInLoop_ok (hmap : s.inMap = true) : s.removeConnectionInLoop =
    .ok ({ s with inMap := false }.queueInLoop .connectDestory) := by
  rw [SharedConnection.removeConnectionInLoop, check_bind hmap]
  rfl

theorem Inv.handleClose (h : Inv s) (hconnecting : s.state ≠ .KConnecting)
    (hdisconnected : s.state ≠ .KDisconnected) (hsettled : s.Settled) :
    ∃ s', s.handleClose = .ok s' ∧ Inv s' := by
  obtain ⟨hcloses, hmap, hremovals, hnot⟩ := h.up hdisconnected
  have hcloses' : s.closes + 1 = 1 := by rw [hcloses]
  have hstarted := h.started hconnecting
  unfold SharedConnection.handleClose removeConnection
  split
  next => exact ⟨_, removeConnectionInLoop_ok hmap,
    letGo_inv h.callers hstarted rfl hsettled hremovals hcloses'⟩
  next => exact ⟨_, rfl, {
    callers := h.callers
    guarded := h.guarded
    starting := nofun
    started := fun _ => hstarted
    up := fun hup => absurd rfl hup
    down := fun _ => ⟨hsettled, hcloses', .inl ⟨hmap, by rw [hremovals]⟩⟩ }⟩

theorem Inv.pop (h : Inv s) {functors : List (BoundFunctor τ)} (hfunctors : s.functors = f :: functors)
    (hf : f ≠ .connectEstablished) : Inv { s with ran := s.ran ++ [f], functors := functors } := by
  have hwaiting : s.waiting = f :: (functors ++ s.pendingFunctors) := by
    rw [waiting, hfunctors, List.cons_append]
  have hconnecting : s.state ≠ .KConnecting := fun hstate => by
    obtain ⟨-, rest, hrest, -⟩ := h.starting hstate
    exact hf (List.cons.inj (hwaiting.symm.trans hrest)).1
  have hguarded := h.guarded
  have hstarted := h.started hconnecting
  rw [hwaiting] at hguarded hstarted
  exact {
    callers := h.callers
    guarded := hguarded.2
    starting := fun hstate => absurd hstate hconnecting
    started := fun _ hin => hstarted (List.mem_cons_of_mem f hin)
    up := fun hstate => by
      obtain ⟨hcloses, hmap, hremovals, hnot⟩ := h.up hstate
      rw [hwaiting] at hnot
      exact ⟨hcloses, hmap, hremovals, fun hin => hnot (List.mem_cons_of_mem f hin)⟩
    down := h.down }

/-- Whoever bound the next functor with `this`, the connection is there. -/
theorem Inv.held_of_bound (h : Inv s) {functors : List (BoundFunctor τ)}
    (hfunctors : s.functors = f :: functors) (hf : f.boundBy = some t) :
    ({ s with ran := s.ran ++ [f], functors := functors } : SharedConnection τ).Held := by
  have hguarded := h.guarded
  rw [waiting, hfunctors, List.cons_append] at hguarded
  by_cases hmap : s.inMap = true
  · exact .inl hmap
  by_cases ht : t ∈ s.holders
  · exact .inr (.inl ⟨t, ht⟩)
  obtain ⟨g, hg, rfl⟩ := hguarded.1 ⟨Bool.eq_false_of_not_eq_true hmap, t, hf, ht⟩
  exact .inr (.inr (.inl ⟨_, List.mem_append_right _ hg, rfl⟩))

theorem Inv.connectEstablished (h : Inv s) {functors : List (BoundFunctor τ)}
    (hfunctors : s.functors = .connectEstablished :: functors) :
    Inv { s with state := .KConnected, ran := s.ran ++ [.connectEstablished], functors := functors } := by
  have hwaiting : s.waiting = .connectEstablished :: (functors ++ s.pendingFunctors) := by
    rw [waiting, hfunctors, List.cons_append]
  have hstate : s.state = .KConnecting := by
    by_contra hstate
    exact h.started hstate (hwaiting ▸ List.mem_cons_self)
  have hguarded := h.guarded
  obtain ⟨hsettled, rest, hrest, hnot⟩ := h.starting hstate
  obtain ⟨hcloses, hmap, hremovals, hdestory⟩ := h.up (by rw [hstate]; nofun)
  obtain ⟨-, rfl⟩ := List.cons.inj (hwaiting.symm.trans hrest)
  rw [hwaiting] at hguarded hdestory
  exact {
    callers := h.callers
    guarded := hguarded.2
    starting := nofun
    started := fun _ => hnot
    up := fun _ => ⟨hcloses, hmap, hremovals, fun hin => hdestory (List.mem_cons_of_mem _ hin)⟩
    down := nofun }

theorem Inv.runFunctor (h : Inv s) (hallowed : s.functors.head? = some .forceCloseInLoop →
    s.state = .KConnected ∨ s.state = .KDisConnecting → s.Settled) :
    ∃ s', s.runFunctor = .ok s' ∧ Inv s' := by
  unfold SharedConnection.runFunctor
  split
  next => exact ⟨s, rfl, h⟩
  next f functors hfunctors =>
    cases f with
    | connectEstablished => exact ⟨_, rfl, h.connectEstablished hfunctors⟩
    | sendInLoop t => exact ⟨_, if_pos (h.held_of_bound hfunctors rfl), h.pop hfunctors nofun⟩
    | stopReadInLoop t => exact ⟨_, if_pos (h.held_of_bound hfunctors rfl), h.pop hfunctors nofun⟩
    | shutdownInLoop => exact ⟨_, rfl, h.pop hfunctors nofun⟩
    | writeCompleteCallback => exact ⟨_, rfl, h.pop hfunctors nofun⟩
    | forceCloseInLoop =>
      have hpop := h.pop hfunctors nofun
      dsimp only
      split
      next hup =>
        rw [hfunctors] at hallowed
        refine hpop.handleClose ?_ ?_ (hallowed rfl hup)
        · rcases hup with hup | hup <;> rw [hup] <;> nofun
        · rcases hup with hup | hup <;> rw [hup] <;> nofun
      next => exact ⟨_, rfl, hpop⟩
    | connectDestory =>
      have hstate : s.state = .KDisconnected := by
        by_contra hup
        exact (h.up hup).2.2.2 (by rw [waiting, hfunctors]; exact List.mem_cons_self)
      refine ⟨_, rfl, ?_⟩
      split
      next hup => cases hstate.symm.trans hup
      next => exact h.pop hfunctors nofun

theorem Inv.swap (h : Inv s) (hempty : s.functors = []) :
    Inv { s with functors := s.pendingFunctors, pendingFunctors := [] } := by
  have hwaiting : ({ s with functors := s.pendingFunctors, pendingFunctors := [] } :
      SharedConnection τ).waiting = s.waiting := by
    rw [waiting, waiting, hempty, List.nil_append, List.append_nil]
  exact {
    callers := h.callers
    guarded := by
      rw [hwaiting]
      exact h.guarded
    starting := by
      rw [hwaiting]
      exact h.starting
    started := by
      rw [hwaiting]
      exact h.started
    up := by
      rw [hwaiting]
      exact h.up
    down := h.down }

theorem Inv.up_of_sets (h : Inv s) (hsets : (s.calls t).sets = true) :
    s.state ≠ .KConnecting ∧ s.state ≠ .KDisconnected :=
  ⟨fun hstate => Bool.false_ne_true (((h.starting hstate).1 t).symm.trans hsets),
    fun hstate => Bool.false_ne_true (((h.down hstate).1 t).symm.trans hsets)⟩

def Idle (s : SharedConnection τ) : Prop :=
  s.holders = ∅ ∧ s.pendingFunctors = [] ∧ s.ran = [] ∧ s.functors = [] ∧ s.removals = 0 ∧ s.removed = 0

theorem Inv.not_held (h : Inv s) (hcloses : s.closes ≠ 0) (hidle : s.Idle) : ¬ s.Held := by
  obtain ⟨hholders, hpending, hran, hfunctors, hremovals, hremoved⟩ := hidle
  have hstate : s.state = .KDisconnected := by
    by_contra hup
    exact hcloses (h.up hup).1
  have hmap : s.inMap = false := by
    obtain ⟨-, -, ⟨-, hone⟩ | ⟨hmap, -⟩⟩ := h.down hstate
    · cases hremovals.symm.trans hone
    · exact hmap
  rintro (hin | hheld | ⟨f, hf, -⟩ | hpos)
  · cases hmap.symm.trans hin
  · rw [hholders] at hheld
    exact Finset.not_nonempty_empty hheld
  · rw [hran, hfunctors, hpending] at hf
    cases hf
  · rw [hremovals, hremoved] at hpos
    exact absurd hpos (Nat.lt_irrefl 0)

section

variable [DecidableEq τ]

theorem Inv.obtain (h : Inv s) (t : τ) : Inv { s with holders := insert t s.holders } where
  callers t' ht' := Finset.mem_insert_of_mem (h.callers t' ht')
  guarded := h.guarded.imp fun _ _ ⟨hmap, t', hf, ht'⟩ =>
    ⟨hmap, t', hf, fun hin => ht' (Finset.mem_insert_of_mem hin)⟩
  starting := h.starting
  started := h.started
  up := h.up
  down := h.down

theorem Inv.drop (h : Inv s) (hout : s.calls t = .out)
    (hallowed : s.inMap = true ∨ ∀ f ∈ s.waiting, f.boundBy ≠ some t) :
    Inv { s with holders := s.holders.erase t } where
  callers t' ht' := Finset.mem_erase.2 ⟨fun heq => ht' (heq ▸ hout), h.callers t' ht'⟩
  guarded := by
    refine h.guarded.imp fun f hf ⟨hmap, t', hbound, ht'⟩ => ?_
    rcases hallowed with hin | hnone
    · cases hmap.symm.trans hin
    · have hne : t' ≠ t := fun heq => hnone f hf (heq ▸ hbound)
      exact ⟨hmap, t', hbound, fun hin => ht' (Finset.mem_erase.2 ⟨hne, hin⟩)⟩
  starting := h.starting
  started := h.started
  up := h.up
  down := h.down

theorem Inv.setCall (h : Inv s) {place : CallPlace} (ht : place ≠ .out → t ∈ s.holders)
    (hsets : place.sets = true → s.state ≠ .KConnecting ∧ s.state ≠ .KDisconnected) :
    Inv (s.setCall t place) := by
  have hsettled (hstate : s.state = .KConnecting ∨ s.state = .KDisconnected) (hs : s.Settled) :
      (s.setCall t place).Settled := fun t' => by
    change (Function.update s.calls t place t').sets = false
    by_cases heq : t' = t
    · rw [heq, Function.update_self]
      refine Bool.eq_false_of_not_eq_true fun hplace => ?_
      exact hstate.elim (hsets hplace).1 (hsets hplace).2
    · rw [Function.update_of_ne heq]
      exact hs t'
  exact {
    callers := fun t' ht' => by
      change Function.update s.calls t place t' ≠ _ at ht'
      by_cases heq : t' = t
      · rw [heq, Function.update_self] at ht'
        exact heq ▸ ht ht'
      · rw [Function.update_of_ne heq] at ht'
        exact h.callers t' ht'
    guarded := h.guarded
    starting := fun hstate => ⟨hsettled (.inl hstate) (h.starting hstate).1, (h.starting hstate).2⟩
    started := h.started
    up := h.up
    down := fun hstate => ⟨hsettled (.inr hstate) (h.down hstate).1, (h.down hstate).2⟩ }

theorem Inv.call (h : Inv s) (t : τ) (c : SharedCall) : Inv (s.call t c) := by
  unfold SharedConnection.call
  split
  next hcall =>
    obtain ⟨ht, -, hpasses⟩ := hcall
    exact h.setCall (fun _ => ht) fun hsets => up_of_passes hpasses hsets
  next => exact h

theorem Inv.queueInCall (h : Inv s) (hcall : s.calls t ≠ .out) (hestablished : .connectEstablished ≠ f)
    (hdestory : .connectDestory ≠ f) (hf : f.boundBy = none ∨ f.boundBy = some t) :
    Inv ((s.queueInLoop f).setCall t .out) := by
  have hqueued : Inv (s.queueInLoop f) := by
    refine h.queueInLoop hestablished hdestory fun ⟨_, t', ht', hnot⟩ => ?_
    rcases hf with hnone | hsome
    · cases hnone.symm.trans ht'
    · obtain rfl := Option.some.inj (hsome.symm.trans ht')
      exact hnot (h.callers t hcall)
  exact hqueued.setCall (absurd rfl) nofun

theorem Inv.proceed (h : Inv s) (t : τ) : Inv (s.proceed t) := by
  have hcall {place : CallPlace} (hplace : s.calls t = place) (hout : place ≠ .out) :
      s.calls t ≠ .out := hplace ▸ hout
  unfold SharedConnection.proceed
  split
  next => exact h
  next hc => exact h.queueInCall (hcall hc nofun) nofun nofun (.inr rfl)
  next hc => exact h.queueInCall (hcall hc nofun) nofun nofun (.inr rfl)
  next c hsend hstop hc =>
    have hsets : (s.calls t).sets = true := by
      rw [hc]
      cases c with
      | send => exact absurd rfl hsend
      | stopRead => exact absurd rfl hstop
      | shutdown => rfl
      | forceClose => rfl
      | forceCloseWithDealy => rfl
    obtain ⟨hconnecting, hdisconnected⟩ := h.up_of_sets hsets
    exact (h.disconnecting hconnecting hdisconnected).setCall
      (fun _ => h.callers t (hcall hc nofun)) nofun
  next hc => exact h.queueInCall (hcall hc nofun) nofun nofun (.inl rfl)
  next hc => exact h.queueInCall (hcall hc nofun) nofun nofun (.inl rfl)
  next => exact (h.beside s.ran s.removed (s.timers + 1)).setCall (absurd rfl) nofun
  next => exact h.setCall (absurd rfl) nofun

/-- No operation fails in a state of the invariant, and it is kept. -/
theorem act_inv (o : Operation τ) (h : Inv s) (ha : s.Allowed o) : ∃ s', s.act o = .ok s' ∧ Inv s' := by
  cases o with
  | obtain t =>
    refine ⟨_, rfl, ?_⟩
    split
    · exact h.obtain t
    · exact h
  | drop t =>
    refine ⟨_, rfl, ?_⟩
    split
    next hout => exact h.drop hout ha
    next => exact h
  | call t c => exact ⟨_, rfl, h.call t c⟩
  | proceed t => exact ⟨_, rfl, h.proceed t⟩
  | callInLoop c =>
    refine ⟨_, rfl, ?_⟩
    split
    · exact h.callInLoop c
    · exact h
  | queueCallback =>
    refine ⟨_, rfl, ?_⟩
    split
    · refine h.queueInLoop nofun nofun ?_
      rintro ⟨-, t, ht, -⟩
      cases ht
    · exact h
  | handleEvent closes =>
    rw [act]
    split
    next hcloses =>
      obtain ⟨rfl, -, -⟩ := hcloses
      obtain ⟨hup, hsettled⟩ := ha
      refine h.handleClose ?_ ?_ hsettled
      · rcases hup with hup | hup <;> rw [hup] <;> nofun
      · rcases hup with hup | hup <;> rw [hup] <;> nofun
    next => exact ⟨s, rfl, h⟩
  | timer => exact ⟨_, rfl, h.timerExpired⟩
  | swap =>
    refine ⟨_, rfl, ?_⟩
    split
    next hempty => exact h.swap (List.append_eq_nil_iff.1 hempty).2
    next => exact h
  | runFunctor => exact h.runFunctor ha
  | endPendingFunctors =>
    refine ⟨_, rfl, ?_⟩
    split
    · exact h.beside [] s.removed s.timers
    · exact h
  | removeConnectionInLoop =>
    rw [act]
    split
    next => exact ⟨s, rfl, h⟩
    next hremovals =>
      have hstate : s.state = .KDisconnected := by
        by_contra hup
        exact hremovals (h.up hup).2.2.1
      obtain ⟨hsettled, hcloses, ⟨hmap, hone⟩ | ⟨-, hzero⟩⟩ := h.down hstate
      · refine ⟨_, removeConnectionInLoop_ok hmap, ?_⟩
        have hstarted := h.started (by rw [hstate]; nofun)
        exact (letGo_inv (s := { s with removals := s.removals - 1 }) h.callers hstarted hstate
          hsettled (by rw [hone]) hcloses).beside s.ran (s.removed + 1) s.timers
      · exact absurd hzero hremovals
  | releaseRemovals => exact ⟨_, rfl, h.beside s.ran 0 s.timers⟩

theorem step_inv (o : Operation τ) (h : Inv s) (ha : s.Allowed o) : ∃ s', s.step o = .ok s' ∧ Inv s' := by
  obtain ⟨s', hact, h'⟩ := act_inv o h ha
  refine ⟨s', ?_, h'⟩
  rw [step, hact, ok_bind, check_bind fun _ => h'.state_of_not_held]
  rfl

end

end

/-- A thread sends, asks for a delayed close and gives up its pointer; the timer closes. -/
def delayedClose : List (Operation Bool) :=
  [.swap, .runFunctor, .endPendingFunctors, .obtain true, .call true .send, .proceed true,
    .call true .forceCloseWithDealy, .proceed true, .proceed true, .drop true, .timer, .swap,
    .runFunctor, .runFunctor, .endPendingFunctors, .removeConnectionInLoop, .releaseRemovals, .swap,
    .runFunctor, .endPendingFunctors]

/-- The pointer is given up while a message waits behind `connectDestory`. -/
example : (run step (new false) [.swap, .runFunctor, .endPendingFunctors, .obtain true,
    .call true .send, .handleEvent true, .removeConnectionInLoop, .releaseRemovals, .swap,
    .proceed true, .drop true, .runFunctor, .endPendingFunctors, .swap, .runFunctor]).map
      SharedConnection.closes = .error (.badPointer "this") := by decide

/-- The connection is closed between the test and the `setState` of `forceClose`. -/
example : (run step (new true) [.obtain true, .call true .forceClose, .handleEvent true,
    .proceed true, .proceed true, .swap, .runFunctor, .runFunctor]).map
      SharedConnection.closes = .error (.assertion "n == 1") := by decide

end Czy.Net.SharedConnection
