import Czy.Proofs.AcceptorOwnership

/-! A process without free descriptors still answers its readiness events: `handleRead` gives up
its placeholder, accepts and closes one connection and opens the placeholder again. As long as
nobody takes the last descriptor in between, each event takes one connection off the backlog. -/

namespace Czy.Net.Acceptor

open Descriptors StepRun

variable {s s' : Acceptor} {o : Operation}

/-- The event is a true one, `accept` does not fail by itself, `LOG_SYSERR` leaves `errno` alone,
and while the placeholder is closed the others leave a descriptor and a connection. -/
def Undisturbed (s : Acceptor) : Operation → Prop
  | .readEvent failure logged => failure = none ∧ logged = none ∧ s.backlog ≠ []
  | .proceed failure => failure = none
  | .withdraw _ => s.pc ≠ .closeIdle ∧ s.pc ≠ .acceptIdle
  | .otherOpen => s.pc = .acceptIdle ∨ s.pc = .reopen → 1 < room s.table
  | .arrive | .otherClose _ => True
  | .destroy => False

instance (s : Acceptor) : (o : Operation) → Decidable (Undisturbed s o)
  | .readEvent failure logged =>
    inferInstanceAs (Decidable (failure = none ∧ logged = none ∧ s.backlog ≠ []))
  | .proceed failure => inferInstanceAs (Decidable (failure = none))
  | .withdraw _ => inferInstanceAs (Decidable (s.pc ≠ .closeIdle ∧ s.pc ≠ .acceptIdle))
  | .otherOpen =>
    inferInstanceAs (Decidable (s.pc = .acceptIdle ∨ s.pc = .reopen → 1 < room s.table))
  | .arrive | .otherClose _ => .isTrue trivial
  | .destroy => .isFalse id

/-- In each place of `handleRead`: the placeholder or a descriptor for it, and the connections
taken for the events. -/
def Ready (s : Acceptor) : Prop :=
  match s.pc with
  | .atRest | .accepted _ | .closeAccepted => s.idleFd ≠ none ∧ s.taken.length = s.events
  | .closeIdle => s.idleFd ≠ none ∧ s.taken.length + 1 = s.events ∧ s.backlog ≠ []
  | .acceptIdle => 0 < room s.table ∧ s.taken.length + 1 = s.events ∧ s.backlog ≠ []
  | .reopen => 0 < room s.table ∧ s.taken.length = s.events
  | .destroyed => False

/-- Without an error of its own `accept` fails for want of a descriptor or of a connection. -/
theorem acceptCall_none (hbacklog : s.backlog ≠ []) :
    (room s.table = 0 ∧ s.acceptCall none = .error .EMFILE) ∨
      ∃ fd id backlog table, s.acceptCall none = .ok (fd, { s with
        table := table
        backlog := backlog
        taken := s.taken ++ [id] }) := by
  obtain ⟨id, backlog, hcons⟩ := List.exists_cons_of_ne_nil hbacklog
  rcases Nat.eq_zero_or_pos (room s.table) with hroom | hroom
  · cases hfree : lowestFree s.table with
    | none => exact .inl ⟨hroom, by simp only [acceptCall, hfree]⟩
    | some fd => exact absurd (room_of_free (lowestFree_slot hfree)) (by omega)
  · obtain ⟨fd, hfree⟩ := lowestFree_of_room hroom
    exact .inr ⟨fd, id, backlog, _, by simp only [acceptCall, hfree, hcons]; rfl⟩

theorem Ready.handleRead (h : Ready s) (hpc : s.pc = .atRest) (hbacklog : s.backlog ≠ [])
    (hs' : s.handleRead none none = .ok s') : Ready s' := by
  rw [Ready, hpc] at h
  simp only [Acceptor.handleRead] at hs'
  rcases acceptCall_none (s := { s with events := s.events + 1 }) hbacklog with
    ⟨-, herr⟩ | ⟨fd, id, backlog, table, hok⟩
  · rw [herr] at hs'
    cases hs'
    exact ⟨h.1, congrArg Nat.succ h.2, hbacklog⟩
  · rw [hok] at hs'
    cases hs'
    refine ⟨h.1, ?_⟩
    change (s.taken ++ [id]).length = s.events + 1
    rw [List.length_append, h.2]
    rfl

theorem Ready.proceed (h : Ready s) (hown : Owned s) : Ready (s.proceed none) := by
  cases hpc : s.pc with
  | accepted fd =>
    rw [Ready, hpc] at h
    simp only [Acceptor.proceed, hpc]
    split_ifs
    · exact h
    · exact h
  | closeIdle =>
    rw [Ready, hpc] at h
    obtain ⟨hidle, htaken, hbacklog⟩ := h
    obtain ⟨fd, hfd⟩ := Option.ne_none_iff_exists'.1 hidle
    have hopen := (hown.slots.devNull fd).2 (by rw [placeholder, hpc, hfd])
    simp only [Acceptor.proceed, hpc, hfd]
    exact ⟨room_release hopen, htaken, hbacklog⟩
  | acceptIdle =>
    rw [Ready, hpc] at h
    obtain ⟨hroom, htaken, hbacklog⟩ := h
    simp only [Acceptor.proceed, hpc]
    rcases acceptCall_none hbacklog with ⟨hfull, -⟩ | ⟨fd, id, backlog, table, hok⟩
    · omega
    · rw [hok]
      refine ⟨Option.some_ne_none fd, ?_⟩
      change (s.taken ++ [id]).length = s.events
      rw [List.length_append, ← htaken]
      rfl
  | closeAccepted =>
    rw [Ready, hpc] at h
    obtain ⟨hidle, htaken⟩ := h
    obtain ⟨fd, hfd⟩ := Option.ne_none_iff_exists'.1 hidle
    obtain ⟨id, hopen⟩ := hown.slots.hand fd (by rw [hand, hpc, hfd])
    simp only [Acceptor.proceed, hpc, hfd]
    exact ⟨room_release hopen, htaken⟩
  | reopen =>
    rw [Ready, hpc] at h
    obtain ⟨hroom, htaken⟩ := h
    simp only [Acceptor.proceed, hpc]
    rcases allocate_cases s.table FileKind.devNull with ⟨-, hfull⟩ | ⟨fd, table, hok, -⟩
    · omega
    · rw [hok]
      exact ⟨Option.some_ne_none fd, htaken⟩
  | atRest | destroyed =>
    have heq : s.proceed none = s := by simp only [Acceptor.proceed, hpc]
    rw [heq]
    exact h

theorem Ready.others (h : Ready s) {table : List (Option FileKind)} {backlog withdrawn : List ℕ}
    {arrived : ℕ} (hbacklog : s.pc = .closeIdle ∨ s.pc = .acceptIdle → s.backlog ≠ [] → backlog ≠ [])
    (hroom : s.pc = .acceptIdle ∨ s.pc = .reopen → 0 < room s.table → 0 < room table) :
    Ready { s with
      table := table
      backlog := backlog
      withdrawn := withdrawn
      arrived := arrived } := by
  rw [Ready] at h ⊢
  cases hpc : s.pc with
  | atRest | accepted fd | closeAccepted =>
    rw [hpc] at h
    exact h
  | closeIdle =>
    rw [hpc] at h
    exact ⟨h.1, h.2.1, hbacklog (.inl hpc) h.2.2⟩
  | acceptIdle =>
    rw [hpc] at h
    exact ⟨hroom (.inl hpc) h.1, h.2.1, hbacklog (.inr hpc) h.2.2⟩
  | reopen =>
    rw [hpc] at h
    exact ⟨hroom (.inr hpc) h.1, h.2⟩
  | destroyed =>
    rw [hpc] at h
    exact h

theorem Ready.step (h : Ready s) (hown : Owned s) (hok : Undisturbed s o)
    (hs' : s.step o = .ok s') : Ready s' := by
  cases o with
  | readEvent failure logged =>
    obtain ⟨rfl, rfl, hbacklog⟩ := hok
    rw [Acceptor.step] at hs'
    split_ifs at hs' with hpc
    · exact h.handleRead hpc hbacklog hs'
    · cases hs'
      exact h
  | proceed failure =>
    obtain rfl : failure = none := hok
    cases hs'
    exact h.proceed hown
  | destroy => exact hok.elim
  | arrive =>
    cases hs'
    exact h.others (fun _ _ => List.append_ne_nil_of_right_ne_nil _ (List.cons_ne_nil _ _))
      fun _ hroom => hroom
  | withdraw i =>
    cases hs'
    refine h.others (fun hpc _ => ?_) fun _ hroom => hroom
    obtain hpc | hpc := hpc
    · exact absurd hpc hok.1
    · exact absurd hpc hok.2
  | otherOpen =>
    rw [Acceptor.step] at hs'
    rcases allocate_cases s.table FileKind.other with ⟨hnone, -⟩ | ⟨fd, table, hopen, -, -, hroom⟩
    · rw [hnone] at hs'
      cases hs'
      exact h
    · rw [hopen] at hs'
      cases hs'
      refine h.others (fun _ hbacklog => hbacklog) fun hpc _ => ?_
      have := hok hpc
      omega
  | otherClose fd =>
    cases hs'
    split_ifs
    · exact h.others (fun _ hbacklog => hbacklog) fun _ hroom => Nat.lt_of_lt_of_le hroom room_le_release
    · exact h

structure InOrder (s : Acceptor) : Prop where
  sorted : (s.taken ++ s.backlog).Pairwise (· < ·)
  arrived : ∀ id ∈ s.taken ++ s.backlog, id < s.arrived

theorem closeFd_queue (s : Acceptor) (fd : Option ℕ) : (s.closeFd fd).taken = s.taken ∧
    (s.closeFd fd).backlog = s.backlog ∧ (s.closeFd fd).arrived = s.arrived := by
  cases fd with
  | none => exact ⟨rfl, rfl, rfl⟩
  | some fd => exact ⟨rfl, rfl, rfl⟩

theorem proceed_queue (s : Acceptor) (failure : Option AcceptErrno) :
    (s.proceed failure).taken ++ (s.proceed failure).backlog = s.taken ++ s.backlog ∧
      (s.proceed failure).arrived = s.arrived := by
  cases hpc : s.pc with
  | accepted fd =>
    simp only [Acceptor.proceed, hpc]
    split_ifs
    · exact ⟨rfl, rfl⟩
    · exact ⟨rfl, rfl⟩
  | closeIdle | closeAccepted =>
    obtain ⟨htaken, hbacklog, harrived⟩ := closeFd_queue s s.idleFd
    simp only [Acceptor.proceed, hpc, htaken, hbacklog, harrived, and_self]
  | acceptIdle =>
    simp only [Acceptor.proceed, hpc]
    rcases acceptCall_cases s failure with
      ⟨errno, herr⟩ | ⟨fd, id, backlog, table, hbacklog, -, -, hok⟩
    · rw [herr]
      exact ⟨rfl, rfl⟩
    · rw [hok, hbacklog]
      exact ⟨List.append_assoc s.taken [id] backlog, rfl⟩
  | reopen =>
    simp only [Acceptor.proceed, hpc]
    split
    · exact ⟨rfl, rfl⟩
    · exact ⟨rfl, rfl⟩
  | atRest | destroyed =>
    simp only [Acceptor.proceed, hpc, and_self]

theorem InOrder.sublist (h : InOrder s)
    (hsub : (s'.taken ++ s'.backlog).Sublist (s.taken ++ s.backlog)) (harr : s'.arrived = s.arrived) :
    InOrder s' :=
  ⟨h.sorted.sublist hsub, fun id hid => by rw [harr]; exact h.arrived id (hsub.subset hid)⟩

theorem InOrder.of_eq (h : InOrder s) (heq : s'.taken ++ s'.backlog = s.taken ++ s.backlog)
    (harr : s'.arrived = s.arrived) : InOrder s' :=
  h.sublist (by rw [heq]) harr

theorem InOrder.step (h : InOrder s) (hs' : s.step o = .ok s') : InOrder s' := by
  cases o with
  | readEvent failure logged =>
    rw [Acceptor.step] at hs'
    split_ifs at hs' with hpc
    · rcases handleRead_cases hs' with ⟨fd, id, backlog, table, hbacklog, -, -, rfl⟩ | rfl | rfl
      · refine h.of_eq ?_ rfl
        rw [hbacklog]
        exact List.append_assoc s.taken [id] backlog
      · exact h.of_eq rfl rfl
      · exact h.of_eq rfl rfl
    · cases hs'
      exact h
  | proceed failure =>
    cases hs'
    exact h.of_eq (proceed_queue s failure).1 (proceed_queue s failure).2
  | destroy =>
    rw [Acceptor.step] at hs'
    split_ifs at hs' with hpc
    · cases hs'
      obtain ⟨htaken, hbacklog, harrived⟩ := closeFd_queue s s.idleFd
      exact h.of_eq (by rw [destroy, htaken, hbacklog]) harrived
    · cases hs'
      exact h
  | arrive =>
    cases hs'
    refine ⟨?_, fun id hid => ?_⟩
    · rw [← List.append_assoc]
      exact List.pairwise_append.2 ⟨h.sorted, List.pairwise_singleton _ _, fun id hid k hk =>
        List.mem_singleton.1 hk ▸ h.arrived id hid⟩
    · rw [← List.append_assoc, List.mem_append, List.mem_singleton] at hid
      obtain hid | rfl := hid
      · exact Nat.lt_succ_of_lt (h.arrived id hid)
      · exact Nat.lt_succ_self _
  | withdraw i =>
    cases hs'
    exact h.sublist ((List.eraseIdx_sublist _ _).append_left _) rfl
  | otherOpen =>
    rw [Acceptor.step] at hs'
    split at hs'
    · cases hs'
      exact h.of_eq rfl rfl
    · cases hs'
      exact h
  | otherClose fd =>
    cases hs'
    split_ifs
    · exact h.of_eq rfl rfl
    · exact h

theorem create_ready {table : List (Option FileKind)} {callback : Bool}
    (hs : create table callback = .ok s) : Ready s ∧ InOrder s := by
  rw [create] at hs
  split at hs
  · cases hs
  · cases hs
    exact ⟨⟨Option.some_ne_none _, rfl⟩, ⟨List.Pairwise.nil, fun _ hid => absurd hid List.not_mem_nil⟩⟩

/-- After every undisturbed run the placeholder is open again at rest, each readiness event has
taken one connection, in the order of arrival, and those are passed on or dropped. -/
theorem event_takes_one {table : List (Option FileKind)} {callback : Bool} {s₀ : Acceptor}
    (htable : ∀ fd, file table fd = none ∨ file table fd = some .other)
    (hs₀ : create table callback = .ok s₀) {ops : List Operation} (hrun : run step s₀ ops = .ok s)
    (hok : Along step Undisturbed s₀ ops) (hrest : s.pc = .atRest) :
    (∃ fd, s.idleFd = some fd ∧ file s.table fd = some .devNull) ∧ s.taken.length = s.events ∧
      (s.taken ++ s.backlog).Pairwise (· < ·) ∧ s.taken.Perm (s.passed ++ s.dropped) := by
  have hinv : Ready s ∧ Owned s ∧ InOrder s :=
    run_inv_along (I := fun s => Ready s ∧ Owned s ∧ InOrder s) (C := Undisturbed)
      (fun _ _ _ h hok hs' =>
        ⟨h.1.step h.2.1 hok hs', (h.2.1.step_sound hs').owned, h.2.2.step hs'⟩)
      ⟨(create_ready hs₀).1, create_owned htable hs₀, (create_ready hs₀).2⟩ hok hrun
  obtain ⟨hready, hown, horder⟩ := hinv
  rw [Ready, hrest] at hready
  obtain ⟨fd, hfd⟩ := Option.ne_none_iff_exists'.1 hready.1
  refine ⟨⟨fd, hfd, (hown.slots.devNull fd).2 (by rw [placeholder, hrest, hfd])⟩, hready.2,
    horder.sorted, List.perm_iff_count.2 fun id => ?_⟩
  rw [hown.taken id, held_none (by rw [hand, hrest]), List.count_append, List.count_nil]
  omega

theorem event_takes_one_exhausted : ∃ s : Acceptor, (∃ fd, s.idleFd = some fd ∧
    file s.table fd = some .devNull) ∧ s.taken.length = s.events ∧
      (s.taken ++ s.backlog).Pairwise (· < ·) ∧ s.taken.Perm (s.passed ++ s.dropped) := by
  let s₀ : Acceptor :=
    ⟨true, some 1, .atRest, [some .other, some .devNull], [], 0, 0, [], [], [], []⟩
  let ops : List Operation := [.arrive, .readEvent none none, .proceed none, .proceed none,
    .proceed none, .proceed none]
  have hs₀ : create [some .other, none] true = .ok s₀ := rfl
  have hrun : run step s₀ ops = .ok
    ⟨true, some 1, .atRest, [some .other, some .devNull], [], 1, 1, [0], [], [0], []⟩ := rfl
  have hok : Along step Undisturbed s₀ ops := by decide
  exact ⟨_, event_takes_one (free_or_other rfl) hs₀ hrun hok rfl⟩

end Czy.Net.Acceptor
