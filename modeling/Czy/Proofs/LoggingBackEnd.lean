import Czy.Lib.Run
import Czy.Spec.AsyncLogging

/-! The hand-off between `append` and the back end of the asynchronous log. The queued
buffers are never moved to `buffers_to_writes`, so no iteration gets past the point
where its first spare buffer is to be refilled. -/

namespace Czy

open StepRun

/-- The bytes of lines in what `output` was given, those of dropped buffers included. -/
def Chunk.lines : Chunk → List UInt8
  | .buffer data | .dropped data => data
  | .message _ => []

def LoggingOp.Fits : LoggingOp → Prop
  | .append logline => logline.length < kLargeBuffer
  | _ => True

namespace AsyncLogging

def lines (chunks : List Chunk) : List UInt8 := chunks.flatMap Chunk.lines

def Completes (l : AsyncLogging) : LoggingOp → Prop
  | .backEnd _ => l.position = .unlocked
  | _ => False

instance (l : AsyncLogging) (o : LoggingOp) : Decidable (l.Completes o) :=
  match o with
  | .backEnd _ => inferInstanceAs (Decidable (_ = _))
  | .append _ | .stop => .isFalse id

/-- A completed iteration has delivered all that was appended before its locked section,
in order, except for dropped buffers. -/
def Delivers (l : AsyncLogging) (o : LoggingOp) (l' : AsyncLogging) : Prop :=
  l.Completes o → lines l'.output = l'.atLock

/-- The spare buffers are there at the top of an iteration, and `append` finds a buffer.
The mutex is free between any two steps. -/
structure Recycled (l : AsyncLogging) : Prop where
  spares : l.position = .top → l.newBufferPtr1 = some .new ∧ l.newBufferPtr2 = some .new
  empty : l.position = .top → l.buffersToWrites = []
  current : l.currentBuffer.isSome = true

structure FirstIteration (l : AsyncLogging) : Prop where
  current : l.currentBuffer.isSome = true
  collected : l.buffersToWrites = []
  spares : l.position ≠ .unlocked → l.newBufferPtr1 = some .new ∧ l.newBufferPtr2 = some .new
  taken : l.position = .unlocked → l.newBufferPtr1 = none

variable {l : AsyncLogging}

theorem FirstIteration.recycled (h : FirstIteration l) : Recycled l where
  spares htop := h.spares (by rw [htop]; decide)
  empty _ := h.collected
  current := h.current

theorem new_firstIteration : FirstIteration new := ⟨rfl, rfl, fun _ => ⟨rfl, rfl⟩, nofun⟩

/-- Nothing to write out, and nothing to refill the first spare buffer from. -/
theorem writeSection_error (h : FirstIteration l) (hpos : l.position = .unlocked) (stamp : String) :
    ∃ e, l.writeSection stamp = .error e := by
  unfold writeSection
  rw [h.collected, h.taken hpos]
  by_cases hb : l.buffers ≠ []
  · rw [check_bind hb]
    exact ⟨_, rfl⟩
  · rw [check, if_neg hb]
    exact ⟨_, rfl⟩

theorem append_firstIteration (h : FirstIteration l) (logline : List UInt8) :
    ∃ l', l.append logline = .ok l' ∧ FirstIteration l' := by
  obtain ⟨current, hcurrent⟩ := Option.isSome_iff_exists.1 h.current
  obtain ⟨-, hcollected, hspares, htaken⟩ := h
  unfold append
  rw [hcurrent, deref_some, ok_bind]
  split
  · exact ⟨_, rfl, rfl, hcollected, hspares, htaken⟩
  · exact ⟨_, rfl, rfl, hcollected, hspares, htaken⟩

theorem exchange_firstIteration (h : FirstIteration l) (hpos : l.position ≠ .unlocked) :
    FirstIteration l.exchange where
  current := by rw [exchange, (h.spares hpos).1]; rfl
  collected := h.collected
  spares := fun hne => absurd rfl hne
  taken _ := rfl

theorem backEnd_cases (h : FirstIteration l) (hpos : l.position ≠ .unlocked) (stamp : String) :
    ∃ l', l.backEnd stamp = .ok l' ∧
      (l' = l.exchange ∨ ∃ p, p ≠ .unlocked ∧ l' = { l with position := p }) := by
  unfold backEnd
  cases hp : l.position with
  | top =>
    have hfirst : (l.newBufferPtr1.any fun b => b.length == 0) = true := by
      rw [(h.spares hpos).1]
      rfl
    by_cases hrun : l.running = true
    · rw [if_pos hrun, check_bind hfirst, check_bind h.collected]
      exact ⟨_, rfl, .inr ⟨.lock, by decide, rfl⟩⟩
    · rw [if_neg hrun]
      exact ⟨_, rfl, .inr ⟨.returned, by decide, rfl⟩⟩
  | lock =>
    by_cases hb : l.buffers = []
    · exact ⟨_, rfl, .inr ⟨.waiting, by decide, if_pos hb⟩⟩
    · exact ⟨_, rfl, .inl (if_neg hb)⟩
  | waiting => exact ⟨_, rfl, .inl rfl⟩
  | unlocked => exact absurd hp hpos
  | returned => exact ⟨_, rfl, .inr ⟨.returned, by decide, by rw [← hp]⟩⟩

theorem backEnd_firstIteration (h : FirstIteration l) (hpos : l.position ≠ .unlocked)
    (stamp : String) : ∃ l', l.backEnd stamp = .ok l' ∧ FirstIteration l' := by
  obtain ⟨l', hok, rfl | ⟨p, hp, rfl⟩⟩ := backEnd_cases h hpos stamp
  · exact ⟨_, hok, exchange_firstIteration h hpos⟩
  · exact ⟨_, hok, h.current, h.collected, fun _ => h.spares hpos, fun hp' => absurd hp' hp⟩

theorem completes_error (h : FirstIteration l) {o : LoggingOp} (hc : l.Completes o) :
    ∃ e, step l o = .error e := by
  cases o with
  | append => exact hc.elim
  | stop => exact hc.elim
  | backEnd stamp =>
    have hstep : step l (.backEnd stamp) = l.writeSection stamp := by
      unfold step backEnd
      rw [show l.position = .unlocked from hc]
    rw [hstep]
    exact writeSection_error h hc stamp

theorem step_firstIteration (h : FirstIteration l) {o : LoggingOp} (hc : ¬ l.Completes o) :
    ∃ l', step l o = .ok l' ∧ FirstIteration l' := by
  cases o with
  | append logline => exact append_firstIteration h logline
  | stop => exact ⟨_, rfl, h.current, h.collected, h.spares, h.taken⟩
  | backEnd stamp => exact backEnd_firstIteration h hc stamp

theorem firstIteration_of_ok (h : FirstIteration l) {o : LoggingOp} {l' : AsyncLogging}
    (hok : step l o = .ok l') : ¬ l.Completes o ∧ FirstIteration l' := by
  have hc : ¬ l.Completes o := by
    intro hc
    obtain ⟨e, he⟩ := completes_error h hc
    rw [hok] at he
    cases he
  obtain ⟨l'', hok', h'⟩ := step_firstIteration h hc
  rw [hok] at hok'
  cases hok'
  exact ⟨hc, h'⟩

/-- What the first iteration keeps, holds in exactly the runs that complete none. -/
theorem holds_iff_no_iteration {R : AsyncLogging → LoggingOp → AsyncLogging → Prop}
    (hR : ∀ {l o l'}, ¬ Completes l o → FirstIteration l' → R l o l') (os : List LoggingOp) :
    Holds step R new os ↔ Along step (fun l o => ¬ l.Completes o) new os := by
  refine holds_iff_along (I := FirstIteration) (P := fun _ _ => True) ?_ ?_ new_firstIteration
    (along_true os new)
  · intro l o h _
    constructor
    · rintro ⟨l', hok, -⟩
      exact (firstIteration_of_ok h hok).1
    · intro hc
      obtain ⟨l', hok, h'⟩ := step_firstIteration h hc
      exact ⟨l', hok, hR hc h'⟩
  · exact fun l o l' h _ hok _ => (firstIteration_of_ok h hok).2

/-- The log is delivered, without a failed assertion or a bad pointer, in exactly the runs
in which no iteration gets through its write section. -/
theorem delivery_iff_no_iteration (os : List LoggingOp) :
    Holds step Delivers new os ↔ Along step (fun l o => ¬ l.Completes o) new os :=
  holds_iff_no_iteration (fun hc _ hcompletes => absurd hcompletes hc) os

example : Along step (fun l o => ¬ l.Completes o) new
    [.append [104, 105], .backEnd "", .backEnd "", .append [10], .backEnd "", .append [33]] := by
  decide

/-- One line, and the first iteration up to the end of its write section. -/
theorem delivery_fails_first_iteration :
    run step new [.append [104, 105], .backEnd "", .backEnd "", .backEnd "", .backEnd ""] =
      .error (.assertion "!buffers_to_writes.empty()") ∧
    ¬ Holds step Delivers new
      [.append [104, 105], .backEnd "", .backEnd "", .backEnd "", .backEnd ""] := by
  have hrun : run step new [.append [104, 105], .backEnd "", .backEnd "", .backEnd "", .backEnd ""] =
      .error (.assertion "!buffers_to_writes.empty()") := rfl
  refine ⟨hrun, fun h => ?_⟩
  obtain ⟨l', hok⟩ := h.run_ok
  rw [hrun] at hok
  cases hok

/-- The spare buffers are back at the top of every iteration, `append` finds a buffer and
every assertion holds, in exactly the same runs. -/
theorem recycling_iff_no_iteration (os : List LoggingOp) :
    (Recycled new ∧ Holds step (fun _ _ l' => Recycled l') new os) ↔
      Along step (fun l o => ¬ l.Completes o) new os := by
  rw [and_iff_right new_firstIteration.recycled]
  exact holds_iff_no_iteration (fun _ h => h.recycled) os

/-- Without any line, and the back end woken by the timeout. -/
theorem recycling_fails_first_iteration :
    run step new [.backEnd "", .backEnd "", .backEnd "", .backEnd ""] =
      .error (.assertion "!buffers_to_writes.empty()") ∧
    ¬ (Recycled new ∧ Holds step (fun _ _ l' => Recycled l') new
      [.backEnd "", .backEnd "", .backEnd "", .backEnd ""]) := by
  have hrun : run step new [.backEnd "", .backEnd "", .backEnd "", .backEnd ""] =
      .error (.assertion "!buffers_to_writes.empty()") := rfl
  refine ⟨hrun, fun h => ?_⟩
  obtain ⟨l', hok⟩ := h.2.run_ok
  rw [hrun] at hok
  cases hok

def bytes (buf : BufferPtr) : List UInt8 := (buf.map FixBuffer.data).getD []

structure Queued (l : AsyncLogging) : Prop where
  written : l.output = []
  queue : l.buffers.flatMap bytes ++ bytes l.currentBuffer = l.appended
  next : l.nextBuffer.getD .new = .new

theorem append_new {logline : List UInt8} (h : logline.length < kLargeBuffer) :
    (FixBuffer.append .new logline : FixBuffer kLargeBuffer).data = logline := by
  rw [FixBuffer.append_data, if_pos (show logline.length < (FixBuffer.new : FixBuffer kLargeBuffer).avail
    from h)]
  rfl

theorem append_queued (h : Queued l) {logline : List UInt8} (hfits : logline.length < kLargeBuffer)
    {l' : AsyncLogging} (hok : l.append logline = .ok l') : Queued l' := by
  obtain ⟨hwritten, hqueue, hnext⟩ := h
  cases hcurrent : l.currentBuffer with
  | none =>
    rw [append, hcurrent] at hok
    cases hok
  | some current =>
    rw [append, hcurrent, deref_some, ok_bind] at hok
    rw [hcurrent] at hqueue
    split at hok
    next havail =>
      cases hok
      refine ⟨hwritten, ?_, hnext⟩
      rw [← hqueue, List.append_assoc]
      change _ ++ (FixBuffer.append current logline).data = _ ++ (current.data ++ logline)
      rw [FixBuffer.append, dif_pos havail]
    next =>
      cases hok
      refine ⟨hwritten, ?_, rfl⟩
      rw [List.flatMap_append, List.flatMap_singleton, hqueue]
      change _ ++ (FixBuffer.append (l.nextBuffer.getD .new) logline).data = _
      rw [hnext, append_new hfits]

theorem exchange_queued (h : Queued l) (hspare : l.newBufferPtr1 = some .new)
    (hspare2 : l.newBufferPtr2 = some .new) : Queued l.exchange where
  written := h.written
  queue := by
    change (l.buffers ++ [l.currentBuffer]).flatMap bytes ++ bytes l.newBufferPtr1 = l.appended
    rw [hspare, List.flatMap_append, List.flatMap_singleton, h.queue]
    exact List.append_nil _
  next := by
    change (l.nextBuffer.or l.newBufferPtr2).getD .new = .new
    have hnext := h.next
    rw [hspare2]
    cases hn : l.nextBuffer with
    | none => rfl
    | some b =>
      rw [hn] at hnext
      exact hnext

theorem step_queued (h : FirstIteration l) (hq : Queued l) {o : LoggingOp} (hfits : o.Fits)
    {l' : AsyncLogging} (hok : step l o = .ok l') : Queued l' := by
  have hc := (firstIteration_of_ok h hok).1
  cases o with
  | append logline => exact append_queued hq hfits hok
  | stop => cases hok; exact ⟨hq.written, hq.queue, hq.next⟩
  | backEnd stamp =>
    obtain ⟨l'', hok', hcases⟩ := backEnd_cases h hc stamp
    obtain rfl : l' = l'' := by
      rw [show step l (.backEnd stamp) = l.backEnd stamp from rfl, hok'] at hok
      cases hok
      rfl
    obtain rfl | ⟨p, -, rfl⟩ := hcases
    · exact exchange_queued hq (h.spares hc).1 (h.spares hc).2
    · exact ⟨hq.written, hq.queue, hq.next⟩

theorem lines_stay_queued {os : List LoggingOp} {l' : AsyncLogging}
    (hfits : Along step (fun _ o => o.Fits) new os) (hrun : run step new os = .ok l') :
    Queued l' := by
  refine (run_inv_along (I := fun l => FirstIteration l ∧ Queued l) ?_
    ⟨new_firstIteration, rfl, rfl, rfl⟩ hfits hrun).2
  rintro l o l' ⟨h, hq⟩ hfits hok
  exact ⟨(firstIteration_of_ok h hok).2, step_queued h hq hfits hok⟩

end AsyncLogging

end Czy
