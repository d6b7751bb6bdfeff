import Czy.Lib.Run
import Czy.Spec.Acceptor
import Mathlib.Data.List.Perm.Basic

/-! Whose descriptor is whose while other threads open and close descriptors between the system
calls of `Acceptor::handleRead`. The acceptor closes only what it has opened itself, every
connection is passed on once or closed, and at rest it holds its placeholder and nothing else. -/

namespace Czy.Net.Acceptor

open Descriptors StepRun

variable {f : ℕ → Option FileKind} {p h : Option ℕ} {passed : List ℕ} {fd id : ℕ}

/-- What the descriptors are open for, with the one of the placeholder and the one that
`handleRead` has in hand. -/
structure Slots (f : ℕ → Option FileKind) (p h : Option ℕ) (passed : List ℕ) : Prop where
  devNull : ∀ fd, f fd = some .devNull ↔ p = some fd
  hand : ∀ fd, h = some fd → ∃ id, f fd = some (.connection id)
  connection : ∀ fd id, f fd = some (.connection id) → id ∈ passed ∨ h = some fd
  single : ∀ fd fd' id, f fd = some (.connection id) → f fd' = some (.connection id) → fd = fd'

theorem Slots.open_devNull (hs : Slots f none h passed) (hfd : f fd = none) :
    Slots (Function.update f fd (some .devNull)) (some fd) h passed where
  devNull k := by grind [Function.update_apply, hs.devNull k]
  hand k hk := by grind [Function.update_apply, hs.hand k hk]
  connection k id hk := by grind [Function.update_apply, hs.connection k id]
  single k k' id hk hk' := by grind [Function.update_apply, hs.single k k' id]

theorem Slots.open_other (hs : Slots f p h passed) (hfd : f fd = none) :
    Slots (Function.update f fd (some .other)) p h passed where
  devNull k := by grind [Function.update_apply, hs.devNull k]
  hand k hk := by grind [Function.update_apply, hs.hand k hk]
  connection k id hk := by grind [Function.update_apply, hs.connection k id]
  single k k' id hk hk' := by grind [Function.update_apply, hs.single k k' id]

theorem Slots.open_connection (hs : Slots f p none passed) (hfd : f fd = none)
    (hnew : id ∉ passed) :
    Slots (Function.update f fd (some (.connection id))) p (some fd) passed where
  devNull k := by grind [Function.update_apply, hs.devNull k]
  hand k hk := ⟨id, by grind [Function.update_apply]⟩
  connection k id hk := by grind [Function.update_apply, hs.connection k id]
  single k k' id hk hk' := by
    grind [Function.update_apply, hs.single k k' id, hs.connection k id, hs.connection k' id]

theorem Slots.close_placeholder (hs : Slots f p none passed) (hp : p = some fd) :
    Slots (Function.update f fd none) none none passed where
  devNull k := by grind [Function.update_apply, hs.devNull k]
  hand k hk := by cases hk
  connection k id hk := by grind [Function.update_apply, hs.connection k id]
  single k k' id hk hk' := by grind [Function.update_apply, hs.single k k' id]

theorem Slots.close_hand (hs : Slots f p h passed) (hh : h = some fd) :
    Slots (Function.update f fd none) p none passed where
  devNull k := by grind [Function.update_apply, hs.devNull k, hs.hand fd hh]
  hand k hk := by cases hk
  connection k id hk := by grind [Function.update_apply, hs.connection k id]
  single k k' id hk hk' := by grind [Function.update_apply, hs.single k k' id]

theorem Slots.close_foreign (hs : Slots f p h passed) (hp : p ≠ some fd) (hh : h ≠ some fd) :
    Slots (Function.update f fd none) p h passed where
  devNull k := by grind [Function.update_apply, hs.devNull k]
  hand k hk := by grind [Function.update_apply, hs.hand k hk]
  connection k id hk := by grind [Function.update_apply, hs.connection k id]
  single k k' id hk hk' := by grind [Function.update_apply, hs.single k k' id]

theorem Slots.pass (hs : Slots f p (some fd) passed) (hfd : f fd = some (.connection id)) :
    Slots f p none (passed ++ [id]) where
  devNull := hs.devNull
  hand k hk := by cases hk
  connection k id hk := by grind [hs.connection k id]
  single := hs.single

def placeholder (s : Acceptor) : Option ℕ :=
  match s.pc with
  | .atRest | .accepted _ | .closeIdle => s.idleFd
  | .acceptIdle | .closeAccepted | .reopen | .destroyed => none

/-- The accepted connection that is neither passed on nor closed yet. -/
def hand (s : Acceptor) : Option ℕ :=
  match s.pc with
  | .accepted connfd => some connfd
  | .closeAccepted => s.idleFd
  | .atRest | .closeIdle | .acceptIdle | .reopen | .destroyed => none

def held (s : Acceptor) : List ℕ := s.hand.toList.flatMap s.connectionAt

/-- Every connection that has arrived is in one place, once. -/
structure Owned (s : Acceptor) : Prop where
  slots : Slots (file s.table) s.placeholder s.hand s.passed
  place : ∀ id, s.backlog.count id + s.held.count id + s.passed.count id + s.dropped.count id +
    s.withdrawn.count id = if id < s.arrived then 1 else 0
  taken : ∀ id, s.taken.count id = s.held.count id + s.passed.count id + s.dropped.count id

/-- What the acceptor does to the descriptors of others. -/
def acts : Operation → Bool
  | .readEvent _ _ | .proceed _ | .destroy => true
  | .arrive | .withdraw _ | .otherOpen | .otherClose _ => false

structure Sound (s : Acceptor) (o : Operation) (s' : Acceptor) : Prop where
  owned : Owned s'
  frame : acts o = true → ∀ fd, s.foreign fd = true → file s'.table fd = file s.table fd

variable {s s' : Acceptor} {failure logged : Option AcceptErrno}

theorem acceptCall_cases (s : Acceptor) (failure : Option AcceptErrno) :
    (∃ errno, s.acceptCall failure = .error errno) ∨ ∃ fd id backlog table,
      s.backlog = id :: backlog ∧ file s.table fd = none ∧
      file table = Function.update (file s.table) fd (some (.connection id)) ∧
      s.acceptCall failure = .ok (fd, { s with
        table := table
        backlog := backlog
        taken := s.taken ++ [id] }) := by
  unfold acceptCall
  split
  next => exact .inl ⟨_, rfl⟩
  next => exact .inl ⟨_, rfl⟩
  next => exact .inl ⟨_, rfl⟩
  next fd id backlog hfree hbacklog =>
    have hslot := lowestFree_slot hfree
    exact .inr ⟨fd, id, backlog, _, hbacklog, file_of_slot hslot, file_set hslot _, rfl⟩

theorem held_none (h : s.hand = none) : s.held = [] := by
  rw [held, h]
  rfl

theorem connectionAt_eq (h : file s.table fd = some (.connection id)) : s.connectionAt fd = [id] := by
  rw [connectionAt, h]

theorem held_some (hh : s.hand = some fd) (hfd : file s.table fd = some (.connection id)) :
    s.held = [id] := by
  rw [held, hh, Option.toList_some, List.flatMap_singleton, connectionAt_eq hfd]

theorem foreign_iff : s.foreign fd = true ↔
    (∃ id ∈ s.passed, file s.table fd = some (.connection id)) ∨ file s.table fd = some .other := by
  unfold foreign
  split
  next id hfile =>
    rw [hfile, decide_eq_true_iff]
    grind
  next hfile => exact iff_of_true rfl (.inr hfile)
  next hfile => grind
  next hfile => grind

theorem frame_open {table : List (Option FileKind)} {kind : FileKind} (hfd : file s.table fd = none)
    (htable : file table = Function.update (file s.table) fd (some kind)) :
    ∀ k, s.foreign k = true → file table k = file s.table k := by
  intro k hk
  rw [foreign_iff] at hk
  rw [htable, Function.update_of_ne]
  rintro rfl
  rw [hfd] at hk
  grind

theorem frame_close (hfd : s.foreign fd = false) :
    ∀ k, s.foreign k = true → file (release s.table fd) k = file s.table k := by
  intro k hk
  rw [file_release, Function.update_of_ne]
  rintro rfl
  rw [hfd] at hk
  cases hk

theorem Owned.hand_not_foreign (h : Owned s) (hh : s.hand = some fd) : s.foreign fd = false := by
  obtain ⟨id, hid⟩ := h.slots.hand fd hh
  have hplace := h.place id
  rw [held_some hh hid, List.count_singleton_self] at hplace
  have hnot : id ∉ s.passed := fun hmem => by
    have := List.count_pos_iff.2 hmem
    split_ifs at hplace <;> omega
  rw [foreign, hid]
  exact decide_eq_false hnot

theorem Owned.placeholder_not_foreign (h : Owned s) (hp : s.placeholder = some fd) :
    s.foreign fd = false := by
  rw [foreign, (h.slots.devNull fd).2 hp]

theorem Owned.waiting_not_passed (h : Owned s) (hid : id ∈ s.backlog) : id ∉ s.passed := by
  intro hmem
  have hplace := h.place id
  have := List.count_pos_iff.2 hid
  have := List.count_pos_iff.2 hmem
  split_ifs at hplace <;> omega

theorem Owned.accept (h : Owned s) (hhand : s.hand = none) {backlog : List ℕ}
    {table : List (Option FileKind)} (hbacklog : s.backlog = id :: backlog)
    (hfd : file s.table fd = none)
    (htable : file table = Function.update (file s.table) fd (some (.connection id)))
    (hs' : s' = { s with
      table := table
      backlog := backlog
      taken := s.taken ++ [id]
      idleFd := s'.idleFd
      pc := s'.pc
      events := s'.events })
    (hp : s'.placeholder = s.placeholder) (hh : s'.hand = some fd) : Owned s' := by
  have hslots := h.slots
  rw [hhand] at hslots
  have hwaiting : id ∈ s.backlog := by
    rw [hbacklog]
    exact List.mem_cons_self
  have hnew := h.waiting_not_passed hwaiting
  have htable' : file s'.table = Function.update (file s.table) fd (some (.connection id)) := by
    rw [hs', ← htable]
  have hheld : s'.held = [id] := held_some hh (by rw [htable', Function.update_self])
  have hpassed : s'.passed = s.passed := by rw [hs']
  refine ⟨?_, fun k => ?_, fun k => ?_⟩
  · rw [hp, hh, htable', hpassed]
    exact hslots.open_connection hfd hnew
  · have hplace := h.place k
    rw [held_none hhand, hbacklog, List.count_cons] at hplace
    rw [hheld, hs']
    simp only [List.count_singleton, List.count_nil] at hplace ⊢
    omega
  · have htaken := h.taken k
    rw [held_none hhand] at htaken
    rw [hheld, hs']
    simp only [List.count_append, List.count_singleton, List.count_nil] at htaken ⊢
    omega

theorem handleRead_cases (hs' : s.handleRead failure logged = .ok s') :
    (∃ fd id backlog table, s.backlog = id :: backlog ∧ file s.table fd = none ∧
      file table = Function.update (file s.table) fd (some (.connection id)) ∧
      s' = { s with
        table := table
        backlog := backlog
        taken := s.taken ++ [id]
        pc := .accepted fd
        events := s.events + 1 }) ∨
    s' = { s with pc := .closeIdle, events := s.events + 1 } ∨ s' = { s with events := s.events + 1 } := by
  unfold handleRead at hs'
  dsimp only at hs'
  rcases acceptCall_cases { s with events := s.events + 1 } failure with
    ⟨errno, herr⟩ | ⟨fd, id, backlog, table, hbacklog, hfd, htable, hok⟩
  · rw [herr] at hs'
    dsimp only at hs'
    split at hs'
    case h_7 | h_8 | h_9 | h_10 | h_11 | h_12 | h_13 | h_14 | h_15 => cases hs'
    all_goals
      split_ifs at hs'
      · exact .inr (.inl (Except.ok.inj hs').symm)
      · exact .inr (.inr (Except.ok.inj hs').symm)
  · rw [hok] at hs'
    exact .inl ⟨fd, id, backlog, table, hbacklog, hfd, htable, (Except.ok.inj hs').symm⟩

theorem Owned.handleRead_sound (h : Owned s) (hpc : s.pc = .atRest)
    (hs' : s.handleRead failure logged = .ok s') : Sound s (.readEvent failure logged) s' := by
  have hhand : s.hand = none := by rw [hand, hpc]
  have hp : s.placeholder = s.idleFd := by rw [placeholder, hpc]
  have hslots := h.slots
  have hplace := h.place
  have htaken := h.taken
  rw [hhand, hp] at hslots
  rw [held_none hhand] at hplace htaken
  rcases handleRead_cases hs' with ⟨fd, id, backlog, table, hbacklog, hfd, htable, rfl⟩ | rfl | rfl
  · refine ⟨h.accept hhand hbacklog hfd htable rfl hp.symm rfl, fun _ => frame_open hfd htable⟩
  · exact ⟨⟨hslots, hplace, htaken⟩, fun _ _ _ => rfl⟩
  · refine ⟨⟨?_, ?_, ?_⟩, fun _ _ _ => rfl⟩
    · rw [placeholder, hand, hpc]
      exact hslots
    · rw [held_none (by rw [hand, hpc])]
      exact hplace
    · rw [held_none (by rw [hand, hpc])]
      exact htaken

theorem Owned.deliver_sound (h : Owned s) (hpc : s.pc = .accepted fd) :
    Sound s (.proceed failure) (s.proceed failure) := by
  have hhand : s.hand = some fd := by rw [hand, hpc]
  have hp : s.placeholder = s.idleFd := by rw [placeholder, hpc]
  obtain ⟨id, hid⟩ := h.slots.hand fd hhand
  have hslots := h.slots
  have hplace := h.place
  have htaken := h.taken
  rw [hhand, hp] at hslots
  rw [held_some hhand hid] at hplace htaken
  simp only [proceed, hpc, connectionAt_eq hid, closeFd]
  split_ifs
  · refine ⟨⟨hslots.pass hid, fun k => ?_, fun k => ?_⟩, fun _ _ _ => rfl⟩
    · have := hplace k
      rw [held_none rfl]
      simp only [List.count_append, List.count_nil] at this ⊢
      omega
    · have := htaken k
      rw [held_none rfl]
      simp only [List.count_append, List.count_nil] at this ⊢
      omega
  · refine ⟨⟨?_, fun k => ?_, fun k => ?_⟩, fun _ => frame_close (h.hand_not_foreign hhand)⟩
    · rw [file_release]
      exact hslots.close_hand rfl
    · have := hplace k
      rw [held_none rfl]
      simp only [List.count_append, List.count_nil] at this ⊢
      omega
    · have := htaken k
      rw [held_none rfl]
      simp only [List.count_append, List.count_nil] at this ⊢
      omega

/-- Wherever the placeholder is closed, nothing of the acceptor's is left open. -/
theorem Owned.close_placeholder (h : Owned s) (hhand : s.hand = none)
    (hp : s.placeholder = s.idleFd) {pc : AcceptorPc} (hpc : pc = .acceptIdle ∨ pc = .destroyed) :
    Owned { s.closeFd s.idleFd with pc := pc } ∧
      ∀ fd, s.foreign fd = true → file (s.closeFd s.idleFd).table fd = file s.table fd := by
  have hslots := h.slots
  have hplace := h.place
  have htaken := h.taken
  rw [hhand, hp] at hslots
  rw [held_none hhand] at hplace htaken
  have hclosed : Slots (file (s.closeFd s.idleFd).table) none none s.passed ∧
      ∀ fd, s.foreign fd = true → file (s.closeFd s.idleFd).table fd = file s.table fd := by
    cases hidle : s.idleFd with
    | none =>
      rw [hidle] at hslots
      exact ⟨hslots, fun _ _ => rfl⟩
    | some fd =>
      refine ⟨?_, frame_close (h.placeholder_not_foreign (hp.trans hidle))⟩
      change Slots (file (release s.table fd)) none none s.passed
      rw [file_release]
      exact hslots.close_placeholder hidle
  refine ⟨?_, hclosed.2⟩
  cases hidle : s.idleFd with
  | none =>
    rw [hidle] at hclosed
    obtain rfl | rfl := hpc
    · exact ⟨hclosed.1, hplace, htaken⟩
    · exact ⟨hclosed.1, hplace, htaken⟩
  | some fd =>
    rw [hidle] at hclosed
    obtain rfl | rfl := hpc
    · exact ⟨hclosed.1, hplace, htaken⟩
    · exact ⟨hclosed.1, hplace, htaken⟩

theorem Owned.closeIdle_sound (h : Owned s) (hpc : s.pc = .closeIdle) :
    Sound s (.proceed failure) (s.proceed failure) := by
  have hclose := h.close_placeholder (by rw [hand, hpc]) (by rw [placeholder, hpc])
    (.inl (rfl : AcceptorPc.acceptIdle = .acceptIdle))
  simp only [proceed, hpc]
  exact ⟨hclose.1, fun _ => hclose.2⟩

theorem Owned.acceptIdle_sound (h : Owned s) (hpc : s.pc = .acceptIdle) :
    Sound s (.proceed failure) (s.proceed failure) := by
  have hhand : s.hand = none := by rw [hand, hpc]
  have hp : s.placeholder = none := by rw [placeholder, hpc]
  simp only [proceed, hpc]
  rcases acceptCall_cases s failure with
    ⟨errno, herr⟩ | ⟨fd, id, backlog, table, hbacklog, hfd, htable, hok⟩
  · have hslots := h.slots
    have hplace := h.place
    have htaken := h.taken
    rw [hhand, hp] at hslots
    rw [held_none hhand] at hplace htaken
    rw [herr]
    exact ⟨⟨hslots, hplace, htaken⟩, fun _ _ _ => rfl⟩
  · rw [hok]
    exact ⟨h.accept hhand hbacklog hfd htable rfl hp.symm rfl, fun _ => frame_open hfd htable⟩

theorem Owned.closeAccepted_sound (h : Owned s) (hpc : s.pc = .closeAccepted) :
    Sound s (.proceed failure) (s.proceed failure) := by
  have hhand : s.hand = s.idleFd := by rw [hand, hpc]
  have hp : s.placeholder = none := by rw [placeholder, hpc]
  simp only [proceed, hpc]
  cases hidle : s.idleFd with
  | none =>
    have hslots := h.slots
    have hplace := h.place
    have htaken := h.taken
    rw [hhand, hp, hidle] at hslots
    rw [held_none (hhand.trans hidle)] at hplace htaken
    simp only [Option.toList_none, List.flatMap_nil, List.append_nil]
    exact ⟨⟨hslots, hplace, htaken⟩, fun _ _ _ => rfl⟩
  | some fd =>
    have hfd := hhand.trans hidle
    obtain ⟨id, hid⟩ := h.slots.hand fd hfd
    have hslots := h.slots
    have hplace := h.place
    have htaken := h.taken
    rw [hfd, hp] at hslots
    rw [held_some hfd hid] at hplace htaken
    simp only [closeFd, Option.toList_some, List.flatMap_singleton, connectionAt_eq hid]
    refine ⟨⟨?_, fun k => ?_, fun k => ?_⟩, fun _ => frame_close (h.hand_not_foreign hfd)⟩
    · rw [file_release]
      exact hslots.close_hand rfl
    · have := hplace k
      rw [held_none rfl]
      simp only [List.count_append, List.count_nil] at this ⊢
      omega
    · have := htaken k
      rw [held_none rfl]
      simp only [List.count_append, List.count_nil] at this ⊢
      omega

theorem Owned.reopen_sound (h : Owned s) (hpc : s.pc = .reopen) :
    Sound s (.proceed failure) (s.proceed failure) := by
  have hhand : s.hand = none := by rw [hand, hpc]
  have hp : s.placeholder = none := by rw [placeholder, hpc]
  have hslots := h.slots
  have hplace := h.place
  have htaken := h.taken
  rw [hhand, hp] at hslots
  rw [held_none hhand] at hplace htaken
  simp only [proceed, hpc]
  rcases allocate_cases s.table FileKind.devNull with ⟨hnone, -⟩ | ⟨fd, table, hok, hfd, htable, -⟩
  · rw [hnone]
    exact ⟨⟨hslots, hplace, htaken⟩, fun _ _ _ => rfl⟩
  · rw [hok]
    refine ⟨⟨?_, hplace, htaken⟩, fun _ => frame_open hfd htable⟩
    change Slots (file table) (some fd) none s.passed
    rw [htable]
    exact hslots.open_devNull hfd

theorem Owned.destroy_sound (h : Owned s) (hpc : s.pc = .atRest) : Sound s .destroy s.destroy := by
  have hclose := h.close_placeholder (by rw [hand, hpc]) (by rw [placeholder, hpc])
    (.inr (rfl : AcceptorPc.destroyed = .destroyed))
  exact ⟨hclose.1, fun _ => hclose.2⟩

theorem Owned.proceed_sound (h : Owned s) (failure : Option AcceptErrno) :
    Sound s (.proceed failure) (s.proceed failure) := by
  cases hpc : s.pc with
  | accepted fd => exact h.deliver_sound hpc
  | closeIdle => exact h.closeIdle_sound hpc
  | acceptIdle => exact h.acceptIdle_sound hpc
  | closeAccepted => exact h.closeAccepted_sound hpc
  | reopen => exact h.reopen_sound hpc
  | atRest | destroyed =>
    have heq : s.proceed failure = s := by simp only [proceed, hpc]
    rw [heq]
    exact ⟨h, fun _ _ _ => rfl⟩

theorem Owned.arrive (h : Owned s) :
    Owned { s with backlog := s.backlog ++ [s.arrived], arrived := s.arrived + 1 } := by
  refine ⟨h.slots, fun id => ?_, h.taken⟩
  have hplace := h.place id
  change (s.backlog ++ [s.arrived]).count id + s.held.count id + s.passed.count id +
    s.dropped.count id + s.withdrawn.count id = if id < s.arrived + 1 then 1 else 0
  rw [List.count_append]
  rcases eq_or_ne id s.arrived with rfl | hne
  · rw [if_neg (Nat.lt_irrefl _)] at hplace
    rw [List.count_singleton_self, if_pos (Nat.lt_succ_self _)]
    omega
  · rw [List.count_eq_zero_of_not_mem (a := id) (l := [s.arrived]) (by simpa using hne),
      Nat.add_zero, hplace]
    exact if_congr (by omega) rfl rfl

theorem Owned.withdraw (h : Owned s) (i : ℕ) :
    Owned { s with
      backlog := s.backlog.eraseIdx i
      withdrawn := s.withdrawn ++ s.backlog[i]?.toList } := by
  refine ⟨h.slots, fun id => ?_, h.taken⟩
  have hplace := h.place id
  change (s.backlog.eraseIdx i).count id + s.held.count id + s.passed.count id +
    s.dropped.count id + (s.withdrawn ++ s.backlog[i]?.toList).count id =
      if id < s.arrived then 1 else 0
  have hmove : (s.backlog.eraseIdx i).count id + s.backlog[i]?.toList.count id =
      s.backlog.count id := by
    by_cases hi : i < s.backlog.length
    · rw [List.getElem?_eq_getElem hi, Option.toList_some, ← List.count_append]
      exact ((List.perm_append_singleton _ _).trans (List.getElem_cons_eraseIdx_perm hi)).count_eq id
    · rw [List.eraseIdx_of_length_le (Nat.not_lt.1 hi), List.getElem?_eq_none (Nat.not_lt.1 hi)]
      rfl
  rw [List.count_append]
  omega

/-- Others open and close descriptors; the connection in hand stays open. -/
theorem Owned.retable (h : Owned s) {table : List (Option FileKind)}
    (hslots : Slots (file table) s.placeholder s.hand s.passed)
    (hkeep : ∀ fd, s.hand = some fd → file table fd = file s.table fd) :
    Owned { s with table := table } := by
  have hheld : ({ s with table := table } : Acceptor).held = s.held := by
    cases hhand : s.hand with
    | none =>
      have hhand' : ({ s with table := table } : Acceptor).hand = none := hhand
      rw [held_none hhand, held_none hhand']
    | some fd =>
      have hhand' : ({ s with table := table } : Acceptor).hand = some fd := hhand
      obtain ⟨id, hid⟩ := h.slots.hand fd hhand
      rw [held_some hhand hid, held_some hhand' ((hkeep fd hhand).trans hid)]
  exact ⟨hslots, fun id => by rw [hheld]; exact h.place id, fun id => by rw [hheld]; exact h.taken id⟩

theorem Owned.otherOpen (h : Owned s) {table : List (Option FileKind)}
    (hfd : file s.table fd = none)
    (htable : file table = Function.update (file s.table) fd (some .other)) :
    Owned { s with table := table } := by
  refine h.retable (by rw [htable]; exact h.slots.open_other hfd) fun k hk => ?_
  obtain ⟨id, hid⟩ := h.slots.hand k hk
  rw [htable, Function.update_of_ne]
  rintro rfl
  rw [hfd] at hid
  cases hid

theorem Owned.otherClose (h : Owned s) (hforeign : s.foreign fd = true) :
    Owned { s with table := release s.table fd } := by
  have hp : s.placeholder ≠ some fd := fun hp => by
    rw [h.placeholder_not_foreign hp] at hforeign
    cases hforeign
  have hh : s.hand ≠ some fd := fun hh => by
    rw [h.hand_not_foreign hh] at hforeign
    cases hforeign
  refine h.retable (by rw [file_release]; exact h.slots.close_foreign hp hh) fun k hk => ?_
  rw [file_release, Function.update_of_ne]
  rintro rfl
  exact hh hk

theorem Owned.step_sound {o : Operation} (h : Owned s) (hs' : s.step o = .ok s') :
    Sound s o s' := by
  cases o with
  | readEvent failure logged =>
    rw [step] at hs'
    split_ifs at hs' with hpc
    · exact h.handleRead_sound hpc hs'
    · cases hs'
      exact ⟨h, fun _ _ _ => rfl⟩
  | proceed failure =>
    cases hs'
    exact h.proceed_sound failure
  | destroy =>
    rw [step] at hs'
    split_ifs at hs' with hpc
    · cases hs'
      exact h.destroy_sound hpc
    · cases hs'
      exact ⟨h, fun _ _ _ => rfl⟩
  | arrive =>
    cases hs'
    exact ⟨h.arrive, nofun⟩
  | withdraw i =>
    cases hs'
    exact ⟨h.withdraw i, nofun⟩
  | otherOpen =>
    rw [step] at hs'
    rcases allocate_cases s.table FileKind.other with ⟨hnone, -⟩ | ⟨fd, table, hok, hfd, htable, -⟩
    · rw [hnone] at hs'
      cases hs'
      exact ⟨h, nofun⟩
    · rw [hok] at hs'
      cases hs'
      exact ⟨h.otherOpen hfd htable, nofun⟩
  | otherClose fd =>
    cases hs'
    split_ifs with hforeign
    · exact ⟨h.otherClose hforeign, nofun⟩
    · exact ⟨h, nofun⟩

theorem create_owned {table : List (Option FileKind)} {callback : Bool}
    (htable : ∀ fd, file table fd = none ∨ file table fd = some .other)
    (hs : create table callback = .ok s) : Owned s := by
  rw [create] at hs
  have hslots : Slots (file table) none none [] := by
    refine ⟨fun fd => ?_, nofun, fun fd id hfd => ?_, fun fd fd' id hfd => ?_⟩
    all_goals grind [htable fd]
  rcases allocate_cases table FileKind.devNull with ⟨hnone, -⟩ | ⟨fd, table', hok, hfd, htable', -⟩
  · rw [hnone] at hs
    cases hs
  · rw [hok] at hs
    cases hs
    refine ⟨?_, fun id => rfl, fun id => rfl⟩
    change Slots (file table') (some fd) none []
    rw [htable']
    exact hslots.open_devNull hfd

theorem free_or_other {table : List (Option FileKind)}
    (h : table.all (fun slot => slot = none ∨ slot = some .other) = true) (fd : ℕ) :
    file table fd = none ∨ file table fd = some .other := by
  rw [file]
  cases hslot : table[fd]? with
  | none => exact .inl rfl
  | some slot => simpa using List.all_eq_true.1 h slot (List.mem_of_getElem? hslot)

/-- However the other threads open and close descriptors in between, the acceptor closes none of
theirs, and every connection is waiting, in hand, passed on, dropped or withdrawn, once. -/
theorem descriptors_owned {table : List (Option FileKind)} {callback : Bool} {s₀ : Acceptor}
    (htable : ∀ fd, file table fd = none ∨ file table fd = some .other)
    (hs₀ : create table callback = .ok s₀) {ops : List Operation} (hrun : run step s₀ ops = .ok s) :
    Holds step Sound s₀ ops :=
  holds_along (I := Owned) (fun _ _ h hok =>
    have ⟨s', hs'⟩ := hok
    ⟨s', hs', (h.step_sound hs').owned, h.step_sound hs'⟩) (create_owned htable hs₀) (along_ok hrun)

/-- The last descriptor is gone, and another thread takes the one that the placeholder leaves. -/
theorem descriptors_owned_taken : ∃ s₀, create [some .other, none, none] true = .ok s₀ ∧
    Holds step Sound s₀ [.arrive, .otherOpen, .readEvent none none, .proceed none, .otherOpen,
      .proceed none, .proceed none, .proceed none] := by
  have hs₀ : create [some .other, none, none] true = .ok
    ⟨true, some 1, .atRest, [some .other, some .devNull, none], [], 0, 0, [], [], [], []⟩ := rfl
  obtain ⟨s, hrun⟩ : ∃ s, run step
    ⟨true, some 1, .atRest, [some .other, some .devNull, none], [], 0, 0, [], [], [], []⟩
    [.arrive, .otherOpen, .readEvent none none, .proceed none, .otherOpen, .proceed none,
      .proceed none, .proceed none] = .ok s := ⟨_, rfl⟩
  exact ⟨_, hs₀, descriptors_owned (free_or_other rfl) hs₀ hrun⟩

end Czy.Net.Acceptor
