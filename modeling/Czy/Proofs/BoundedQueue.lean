import Czy.Spec.BoundedBlockingQueue

/-! The bounded queue. An item that is taken stays in front, and a producer who finds the
queue full waits where the consumers do. -/

namespace Czy.BoundedBlockingQueue

open Monitor StepRun

variable {T τ : Type} {movedFrom : T → T} {q q' : BoundedBlockingQueue T} {op : QueueOp T}
  {c : QueueCond} {signal : Signal QueueCond}

theorem putWith_returns {x : T} (h : putWith x q = .returns q' signal) :
    q.queue.length ≠ q.maxSize ∧
      q' = { q with queue := q.queue ++ [x], wasPut := q.wasPut ++ [x] } := by
  unfold putWith at h
  split at h
  · cases h
  next hfull =>
    cases h
    refine ⟨fun heq => hfull (decide_eq_true heq), ?_⟩
    rw [pushBack, if_neg hfull]

theorem putWith_waits {x : T} (h : putWith x q = .waits c) : q.queue.length = q.maxSize := by
  unfold putWith at h
  split at h
  next hfull => exact of_decide_eq_true hfull
  next => cases h

theorem take_returns (h : take movedFrom q = .returns q' signal) :
    ∃ front rest, q.queue = front :: rest ∧
      q' = { q with queue := movedFrom front :: rest, taken := q.taken ++ [front] } := by
  unfold take at h
  split at h
  next => cases h
  next front rest heq =>
    cases h
    exact ⟨front, rest, heq, rfl⟩

theorem take_waits (h : take movedFrom q = .waits c) : q.queue = [] := by
  unfold take at h
  split at h
  next heq => exact heq
  next => cases h

theorem body_returns (h : body movedFrom op q = .returns q' signal) :
    (op = .take ∧ ∃ front rest, q.queue = front :: rest ∧
      q' = { q with queue := movedFrom front :: rest, taken := q.taken ++ [front] }) ∨
    (op ≠ .take ∧ q.queue.length ≠ q.maxSize ∧
      ∃ x, q' = { q with queue := q.queue ++ [x], wasPut := q.wasPut ++ [x] }) := by
  cases op with
  | put x =>
    obtain ⟨hne, heq⟩ := putWith_returns h
    exact .inr ⟨nofun, hne, x, heq⟩
  | putMove x =>
    obtain ⟨hne, heq⟩ := putWith_returns h
    exact .inr ⟨nofun, hne, x, heq⟩
  | take => exact .inl ⟨rfl, take_returns h⟩

theorem body_waits (h : body movedFrom op q = .waits c) :
    (op = .take ∧ q.queue = []) ∨ (op ≠ .take ∧ q.queue.length = q.maxSize) := by
  cases op with
  | put x => exact .inr ⟨nofun, putWith_waits h⟩
  | putMove x => exact .inr ⟨nofun, putWith_waits h⟩
  | take => exact .inl ⟨rfl, take_waits h⟩

structure Kept (q : BoundedBlockingQueue T) : Prop where
  length : q.queue.length = q.wasPut.length
  bounded : q.queue.length ≤ q.maxSize
  untouched : q.taken = [] → q.queue = q.wasPut

theorem kept_new (maxSize : ℕ) : Kept (new maxSize : BoundedBlockingQueue T) :=
  ⟨rfl, Nat.zero_le _, fun _ => rfl⟩

theorem Kept.returns (h : Kept q) (hq : body movedFrom op q = .returns q' signal) : Kept q' := by
  rcases body_returns hq with ⟨-, front, rest, hqueue, rfl⟩ | ⟨-, hne, x, rfl⟩
  · have hlen : (movedFrom front :: rest).length = q.queue.length := by rw [hqueue]; rfl
    refine ⟨hlen.trans h.length, hlen.trans_le h.bounded, fun hnil => ?_⟩
    exact absurd hnil (List.append_ne_nil_of_right_ne_nil _ (List.cons_ne_nil _ _))
  · have hlt := lt_of_le_of_ne h.bounded hne
    refine ⟨?_, ?_, fun hnil => ?_⟩
    · simp only [List.length_append, h.length]
    · rw [List.length_append]
      exact hlt
    · exact congrArg (· ++ [x]) (h.untouched hnil)

def Fifo (q : BoundedBlockingQueue T) : Prop :=
  q.taken ++ q.queue = q.wasPut ∧ q.queue.length ≤ q.maxSize

theorem Kept.fifo_iff (h : Kept q) : Fifo q ↔ q.taken = [] := by
  constructor
  · rintro ⟨heq, -⟩
    have hlen := congrArg List.length heq
    rw [List.length_append, h.length] at hlen
    exact List.length_eq_zero_iff.1 (by omega)
  · intro hnil
    refine ⟨?_, h.bounded⟩
    rw [hnil, List.nil_append, h.untouched hnil]

theorem full_returns (hfull : q.full = true) (h : body movedFrom op q = .returns q' signal) :
    q'.full = true := by
  have hlen : q.queue.length = q.maxSize := of_decide_eq_true hfull
  rcases body_returns h with ⟨-, front, rest, hqueue, rfl⟩ | ⟨-, hne, -⟩
  · rw [hqueue] at hlen
    exact decide_eq_true hlen
  · exact absurd hlen hne

section

variable {s s' : State τ (BoundedBlockingQueue T) (QueueOp T) QueueCond}
  {l : Label τ (QueueOp T)} {ls : List (Label τ (QueueOp T))}

def TakesNothing (s : State τ (BoundedBlockingQueue T) (QueueOp T) QueueCond)
    (l : Label τ (QueueOp T)) : Prop :=
  ∀ t, s.running l = some (t, .take) → s.shared.queue = []

/-- Everybody is asleep, a producer although the queue is not full or a consumer although it
is not empty. -/
def Stranded (s : State τ (BoundedBlockingQueue T) (QueueOp T) QueueCond) : Prop :=
  (∀ t, ∃ op c, s.place t = .asleep op c) ∧
    ((s.shared.full = false ∧ ∃ t op c, s.place t = .asleep op c ∧ op ≠ .take) ∨
      (s.shared.queue ≠ [] ∧ ∃ t c, s.place t = .asleep .take c))

/-- No `put` finds the queue full while somebody is asleep in `take`. -/
def NoConsumerBehind (s : State τ (BoundedBlockingQueue T) (QueueOp T) QueueCond)
    (l : Label τ (QueueOp T)) : Prop :=
  ∀ t op, s.running l = some (t, op) → op ≠ .take → s.shared.full = true →
    ∀ u c, s.place u ≠ .asleep .take c

/-- Producers sleep only before a full queue, and while consumers sleep before one that is
not empty, somebody is not asleep. -/
structure Attended (s : State τ (BoundedBlockingQueue T) (QueueOp T) QueueCond) : Prop where
  producers : ∀ t op c, s.place t = .asleep op c → op ≠ .take → s.shared.full = true
  consumers : s.shared.queue ≠ [] → ∀ t c, s.place t = .asleep .take c →
    ∃ u, ∀ op d, s.place u ≠ .asleep op d

theorem Attended.not_stranded (h : Attended s) : ¬ Stranded s := by
  rintro ⟨hall, ⟨hfull, t, op, c, hasleep, hne⟩ | ⟨hqueue, t, c, hasleep⟩⟩
  · rw [h.producers t op c hasleep hne] at hfull
    cases hfull
  · obtain ⟨u, hu⟩ := h.consumers hqueue t c hasleep
    obtain ⟨op, d, hd⟩ := hall u
    exact hu op d hd

theorem attended_new (maxSize : ℕ) :
    Attended (State.new (new maxSize) : State τ (BoundedBlockingQueue T) (QueueOp T) QueueCond) :=
  ⟨nofun, fun hne => absurd rfl hne⟩

variable [DecidableEq τ] [Fintype τ]

theorem kept_run {maxSize : ℕ}
    (h : run (step (body movedFrom)) (State.new (new maxSize)) ls = .ok s) : Kept s.shared := by
  refine run_inv (I := fun s => Kept s.shared) (fun s l s' hkept hs => ?_) (kept_new maxSize) h
  rcases (stepped_of_step hs).shared_cases with ⟨heq, -⟩ | ⟨t, op, signal, -, hret⟩
  · rw [heq]
    exact hkept
  · exact hkept.returns hret

theorem taken_step (h : step (body movedFrom) s l = .ok s') :
    s'.shared.taken = [] ↔ s.shared.taken = [] ∧ TakesNothing s l := by
  rcases (stepped_of_step h).shared_cases with ⟨heq, hwaits⟩ | ⟨t, op, signal, hrunning, hret⟩
  · rw [heq]
    refine (and_iff_left fun t hrunning => ?_).symm
    obtain ⟨c, hc⟩ := hwaits t .take hrunning
    exact take_waits hc
  · rcases body_returns hret with ⟨rfl, front, rest, hqueue, heq⟩ | ⟨hne, -, x, heq⟩
    · refine iff_of_false (fun hnil => ?_) fun ⟨_, hnone⟩ => ?_
      · rw [heq] at hnil
        exact absurd hnil (List.append_ne_nil_of_right_ne_nil _ (List.cons_ne_nil _ _))
      · rw [hnone t hrunning] at hqueue
        cases hqueue
    · rw [heq]
      refine (and_iff_left fun t' hrunning' => ?_).symm
      rw [hrunning] at hrunning'
      cases hrunning'
      exact absurd rfl hne

/-- A run leaves a FIFO exactly when nothing has been taken in it. -/
theorem queue_fifo_iff {maxSize : ℕ}
    (h : run (step (body movedFrom)) (State.new (new maxSize)) ls = .ok s) :
    Fifo s.shared ↔ Along (step (body movedFrom)) TakesNothing (State.new (new maxSize)) ls := by
  rw [(kept_run h).fifo_iff]
  exact last_iff_along (I := fun s => s.shared.taken = []) (fun _ hnil => hnil)
    (fun _ _ _ hs hnil => ((taken_step hs).1 hnil).1)
    (fun _ _ _ hnil hs => (taken_step hs).trans (and_iff_right hnil))
    (fun _ _ _ _ _ hnil => hnil) rfl h

theorem queue_fifo_iff_put : ∃ s : State Bool (BoundedBlockingQueue ℕ) (QueueOp ℕ) QueueCond,
    run (step (body id)) (State.new (new 1)) [.call true (.put 7) none] = .ok s ∧
      (Fifo s.shared ↔ Along (step (body id)) TakesNothing
        (State.new (new 1) : State Bool (BoundedBlockingQueue ℕ) (QueueOp ℕ) QueueCond)
        [.call true (.put 7) none]) :=
  ⟨_, rfl, queue_fifo_iff rfl⟩

/-- What has been taken can be taken again. -/
theorem queue_not_fifo : ∃ s : State Bool (BoundedBlockingQueue ℕ) (QueueOp ℕ) QueueCond,
    run (step (body id)) (State.new (new 1))
      [.call true (.put 7) none, .call false .take none] = .ok s ∧ ¬ Fifo s.shared := by
  have hshared : (run (step (body id))
      (State.new (new 1) : State Bool (BoundedBlockingQueue ℕ) (QueueOp ℕ) QueueCond)
      [.call true (.put 7) none, .call false .take none]).toOption.map (fun s => s.shared) =
      some ⟨1, [7], [7], [7]⟩ := rfl
  obtain ⟨s, h, hs⟩ := ok_of_toOption_map hshared
  refine ⟨s, h, fun hfifo => ?_⟩
  rw [hs] at hfifo
  exact absurd hfifo.1 (by decide)

theorem Attended.step (h : Attended s) (hC : NoConsumerBehind s l)
    (hs : step (body movedFrom) s l = .ok s') : Attended s' := by
  have hs := stepped_of_step hs
  refine ⟨fun u op c hu hne => ?_, fun hqueue u c hu => ?_⟩
  · rcases hs.sleeper hu with hbefore | ⟨-, hwaits, hshared⟩
    · have hfull := h.producers u op c hbefore hne
      rcases hs.shared_cases with ⟨heq, -⟩ | ⟨t, op', signal, -, hret⟩
      · rw [heq]
        exact hfull
      · exact full_returns hfull hret
    · rw [hshared]
      rcases body_waits hwaits with ⟨rfl, -⟩ | ⟨-, hfull⟩
      · exact absurd rfl hne
      · exact decide_eq_true hfull
  · have hsleeper := hs.sleeper hu
    cases hs with
    | waits t op d running outcome shared place =>
      rcases body_waits outcome with ⟨rfl, hnil⟩ | ⟨hne, hfull⟩
      · rw [shared, hnil] at hqueue
        exact absurd rfl hqueue
      · rcases hsleeper with hbefore | ⟨hrunning, -⟩
        · exact absurd hbefore (hC t op running hne (decide_eq_true hfull) u c)
        · rw [running] at hrunning
          cases hrunning
          exact absurd rfl hne
    | returns t op signal running outcome left others all =>
      refine ⟨t, fun op d ht => ?_⟩
      rw [left] at ht
      cases ht
    | spurious t op d label asleep shared place =>
      refine ⟨t, fun op d ht => ?_⟩
      rw [place, Function.update_self] at ht
      cases ht

/-- In a run in which no `put` finds the queue full while a consumer sleeps, nobody is stranded. -/
theorem queue_not_stranded {maxSize : ℕ}
    (hC : Along (Monitor.step (body movedFrom)) NoConsumerBehind (State.new (new maxSize)) ls)
    (h : run (Monitor.step (body movedFrom)) (State.new (new maxSize)) ls = .ok s) :
    ¬ Stranded s :=
  (run_inv_along (fun _ _ _ h hC hs => h.step hC hs) (attended_new maxSize) hC h).not_stranded

/-- A consumer, and the producer that wakes it. -/
theorem queue_not_stranded_woken : ∃ s : State Bool (BoundedBlockingQueue ℕ) (QueueOp ℕ) QueueCond,
    run (Monitor.step (body id)) (State.new (new 1))
      [.call true .take none, .call false (.put 7) (some true)] = .ok s ∧ ¬ Stranded s := by
  have hqueue : (run (Monitor.step (body id))
      (State.new (new 1) : State Bool (BoundedBlockingQueue ℕ) (QueueOp ℕ) QueueCond)
      [.call true .take none, .call false (.put 7) (some true)]).toOption.map
        (fun s => s.shared.queue) = some [7] := rfl
  obtain ⟨s, h, -⟩ := ok_of_toOption_map hqueue
  refine ⟨s, h, queue_not_stranded ?_ h⟩
  refine ⟨fun t op hrunning hne => ?_, fun s₁ hs₁ =>
    ⟨fun t op hrunning hne hfull => ?_, fun _ _ => trivial⟩⟩
  · cases hrunning
    exact absurd rfl hne
  · cases hs₁
    cases hfull

/-- Two consumers and a producer: the consumer that is woken leaves the item, puts one itself
and has to wait, like the producer, and nobody wakes the other consumer. -/
theorem queue_stranded : ∃ s : State (Fin 3) (BoundedBlockingQueue ℕ) (QueueOp ℕ) QueueCond,
    run (Monitor.step (body id)) (State.new (new 1))
      [.call 0 .take none, .call 1 .take none, .call 2 (.put 7) (some 0), .resume 0 none,
        .call 0 (.put 8) none, .call 2 (.put 9) none] = .ok s ∧ Stranded s := by
  have hplaces : (run (Monitor.step (body id))
      (State.new (new 1) : State (Fin 3) (BoundedBlockingQueue ℕ) (QueueOp ℕ) QueueCond)
      [.call 0 .take none, .call 1 .take none, .call 2 (.put 7) (some 0), .resume 0 none,
        .call 0 (.put 8) none, .call 2 (.put 9) none]).toOption.map
        (fun s => (s.shared.queue, s.place 0, s.place 1, s.place 2)) =
      some ([7], .asleep (.put 8) .notEmpty, .asleep .take .notEmpty, .asleep (.put 9) .notEmpty) := rfl
  obtain ⟨s, h, hs⟩ := ok_of_toOption_map hplaces
  simp only [Prod.mk.injEq] at hs
  obtain ⟨hqueue, h₀, h₁, h₂⟩ := hs
  refine ⟨s, h, fun t => ?_, .inr ⟨by rw [hqueue]; exact List.cons_ne_nil _ _, 1, _, h₁⟩⟩
  match t with
  | 0 => exact ⟨_, _, h₀⟩
  | 1 => exact ⟨_, _, h₁⟩
  | 2 => exact ⟨_, _, h₂⟩

end

end Czy.BoundedBlockingQueue
