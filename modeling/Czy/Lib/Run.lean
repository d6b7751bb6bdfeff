import Mathlib.Data.Nat.Notation
import Mathlib.Logic.Basic

/-! Runs of a step function that may fail. A property of a whole run is reduced
to a property of one step: `Holds` and `Tracks` say that no step fails and what
holds across each one, `Along` says in which states the operations are taken. -/

namespace StepRun

variable {σ α ο ε : Type*}

variable (step : σ → ο → Except ε σ)

/-- The state after the operations, or the first failure. -/
def run : σ → List ο → Except ε σ
  | s, [] => .ok s
  | s, o :: os => match step s o with
    | .ok s' => run s' os
    | .error e => .error e

/-- Every operation is taken in a state in which `C` allows it. -/
def Along (C : σ → ο → Prop) : σ → List ο → Prop
  | _, [] => True
  | s, o :: os => C s o ∧ ∀ s', step s o = .ok s' → Along C s' os

/-- No operation fails, and `R` relates the states around each. -/
def Holds (R : σ → ο → σ → Prop) : σ → List ο → Prop
  | _, [] => True
  | s, o :: os => ∃ s', step s o = .ok s' ∧ R s o s' ∧ Holds R s' os

/-- Some operation does `R`, and none before it fails. -/
def Meets (R : σ → ο → σ → Prop) : σ → List ο → Prop
  | _, [] => False
  | s, o :: os => ∃ s', step s o = .ok s' ∧ (R s o s' ∨ Meets R s' os)

/-- No operation fails, and at every point the state shows the abstract state
that has executed the same operations. -/
def Tracks (spec : α → ο → α) (abs : σ → α) : σ → α → List ο → Prop
  | s, a, [] => abs s = a
  | s, a, o :: os => abs s = a ∧ ∃ s', step s o = .ok s' ∧ Tracks spec abs s' (spec a o) os

variable {step}

theorem run_cons_ok {s s' : σ} {o : ο} {os : List ο} (h : run step s (o :: os) = .ok s') :
    ∃ t, step s o = .ok t ∧ run step t os = .ok s' := by
  unfold run at h
  split at h
  · exact ⟨_, ‹_›, h⟩
  · cases h

theorem run_cons {s t : σ} {o : ο} (h : step s o = .ok t) (os : List ο) :
    run step s (o :: os) = run step t os := by
  simp only [run, h]

theorem run_append {s t : σ} {os : List ο} (h : run step s os = .ok t) (os' : List ο) :
    run step s (os ++ os') = run step t os' := by
  induction os generalizing s with
  | nil =>
    cases h
    rfl
  | cons o os ih =>
    obtain ⟨u, hu, hrest⟩ := run_cons_ok h
    rw [List.cons_append, run_cons hu, ih hrest]

theorem run_append_ok {s s' : σ} {os os' : List ο} (h : run step s (os ++ os') = .ok s') :
    ∃ t, run step s os = .ok t ∧ run step t os' = .ok s' := by
  induction os generalizing s with
  | nil => exact ⟨s, rfl, h⟩
  | cons o os ih =>
    obtain ⟨t, ht, hrest⟩ := run_cons_ok h
    obtain ⟨u, hu, hlast⟩ := ih hrest
    exact ⟨u, by rw [run_cons ht]; exact hu, hlast⟩

theorem along_cons_ok {C : σ → ο → Prop} {s t : σ} {o : ο} (h : step s o = .ok t) (os : List ο) :
    Along step C s (o :: os) ↔ C s o ∧ Along step C t os := by
  refine and_congr_right fun _ => ⟨fun hC => hC t h, fun hC s' hs' => ?_⟩
  obtain rfl : s' = t := by rw [hs'] at h; cases h; rfl
  exact hC

theorem along_cons_error {C : σ → ο → Prop} {s : σ} {o : ο} {e : ε} (h : step s o = .error e)
    (os : List ο) : Along step C s (o :: os) ↔ C s o :=
  and_iff_left fun s' hs' => by rw [h] at hs'; cases hs'

instance Along.decidable (C : σ → ο → Prop) [∀ s o, Decidable (C s o)] :
    ∀ s os, Decidable (Along step C s os)
  | _, [] => .isTrue trivial
  | s, o :: os => match h : step s o with
    | .ok t =>
      have := Along.decidable C t os
      decidable_of_iff _ (along_cons_ok h os).symm
    | .error _ => decidable_of_iff _ (along_cons_error h os).symm

theorem tracks_cons_ok {spec : α → ο → α} {abs : σ → α} {s t : σ} {o : ο} (h : step s o = .ok t)
    (a : α) (os : List ο) : Tracks step spec abs s a (o :: os) ↔
      abs s = a ∧ Tracks step spec abs t (spec a o) os := by
  refine and_congr_right fun _ => ⟨fun ⟨s', hs', hrest⟩ => ?_, fun hrest => ⟨t, h, hrest⟩⟩
  obtain rfl : t = s' := by rw [hs'] at h; cases h; rfl
  exact hrest

theorem not_tracks_cons_error {spec : α → ο → α} {abs : σ → α} {s : σ} {o : ο} {e : ε}
    (h : step s o = .error e) (a : α) (os : List ο) : ¬ Tracks step spec abs s a (o :: os) := by
  rintro ⟨-, s', hs', -⟩
  rw [h] at hs'
  cases hs'

instance Tracks.decidable [DecidableEq α] (spec : α → ο → α) (abs : σ → α) :
    ∀ s a os, Decidable (Tracks step spec abs s a os)
  | s, a, [] => inferInstanceAs (Decidable (abs s = a))
  | s, a, o :: os => match h : step s o with
    | .ok t =>
      have := Tracks.decidable spec abs t (spec a o) os
      decidable_of_iff _ (tracks_cons_ok h a os).symm
    | .error _ => .isFalse (not_tracks_cons_error h a os)

theorem along_append {C : σ → ο → Prop} {s t : σ} {os : List ο} (h : run step s os = .ok t)
    (os' : List ο) : Along step C s (os ++ os') ↔ Along step C s os ∧ Along step C t os' := by
  induction os generalizing s with
  | nil =>
    cases h
    exact (and_iff_right trivial).symm
  | cons o os ih =>
    obtain ⟨u, hu, hrest⟩ := run_cons_ok h
    rw [List.cons_append, along_cons_ok hu, along_cons_ok hu, ih hrest, and_assoc]

theorem Along.and {C D : σ → ο → Prop} {os : List ο} :
    ∀ {s : σ}, Along step C s os → Along step D s os → Along step (fun s o => C s o ∧ D s o) s os := by
  induction os with
  | nil => intro s _ _; trivial
  | cons o os ih =>
    intro s h h'
    exact ⟨⟨h.1, h'.1⟩, fun t ht => ih (h.2 t ht) (h'.2 t ht)⟩

theorem Along.and_forall {C : σ → ο → Prop} {P : ο → Prop} {os : List ο} :
    ∀ {s : σ}, Along step C s os → (∀ o ∈ os, P o) → Along step (fun s o => C s o ∧ P o) s os := by
  induction os with
  | nil => intro s _ _; trivial
  | cons o os ih =>
    intro s h hP
    exact ⟨⟨h.1, hP o List.mem_cons_self⟩, fun t ht =>
      ih (h.2 t ht) fun o' ho' => hP o' (List.mem_cons_of_mem _ ho')⟩

theorem along_ok {os : List ο} {s s' : σ} (h : run step s os = .ok s') :
    Along step (fun s o => ∃ t, step s o = .ok t) s os := by
  induction os generalizing s with
  | nil => trivial
  | cons o os ih =>
    obtain ⟨t, ht, hrest⟩ := run_cons_ok h
    exact (along_cons_ok ht os).2 ⟨⟨t, ht⟩, ih hrest⟩

theorem along_forall_iff {P : ο → Prop} {os : List ο} {s s' : σ} (h : run step s os = .ok s') :
    Along step (fun _ o => P o) s os ↔ ∀ o ∈ os, P o := by
  induction os generalizing s with
  | nil => simp [Along]
  | cons o os ih =>
    obtain ⟨t, ht, hrest⟩ := run_cons_ok h
    rw [along_cons_ok ht, ih hrest, List.forall_mem_cons]

theorem along_true (os : List ο) : ∀ s, Along step (fun _ _ => True) s os := by
  induction os with
  | nil => intro s; trivial
  | cons o os ih => intro s; exact ⟨trivial, fun s' _ => ih s'⟩

/-- What is computed of a result, holds of a result. -/
theorem ok_of_toOption_map {x : Except ε σ} {f : σ → α} {a : α} (h : x.toOption.map f = some a) :
    ∃ s, x = .ok s ∧ f s = a := by
  cases x with
  | error e => cases h
  | ok s => exact ⟨s, rfl, Option.some.inj h⟩

/-- The run lemma: what every step preserves, every run preserves. -/
theorem run_inv {I : σ → Prop} (hstep : ∀ s o s', I s → step s o = .ok s' → I s') :
    ∀ {os : List ο} {s s' : σ}, I s → run step s os = .ok s' → I s' := by
  intro os
  induction os with
  | nil => intro s s' hs h; cases h; exact hs
  | cons o os ih =>
    intro s s' hs h
    obtain ⟨t, ht, hrest⟩ := run_cons_ok h
    exact ih (hstep s o t hs ht) hrest

/-- The run lemma for an invariant that survives only allowed operations. -/
theorem run_inv_along {I : σ → Prop} {C : σ → ο → Prop}
    (hstep : ∀ s o s', I s → C s o → step s o = .ok s' → I s') :
    ∀ {os : List ο} {s s' : σ}, I s → Along step C s os → run step s os = .ok s' → I s' := by
  intro os
  induction os with
  | nil => intro s s' hs _ h; cases h; exact hs
  | cons o os ih =>
    intro s s' hs hC h
    obtain ⟨t, ht, hrest⟩ := run_cons_ok h
    exact ih (hstep s o t hs hC.1 ht) (hC.2 t ht) hrest

/-- Conditions that agree in the states of the invariant agree along every run. -/
theorem along_congr {I : σ → Prop} {C D : σ → ο → Prop} (hCD : ∀ s o, I s → (C s o ↔ D s o))
    (hstep : ∀ s o s', I s → step s o = .ok s' → I s') :
    ∀ {os : List ο} {s : σ}, I s → (Along step C s os ↔ Along step D s os) := by
  intro os
  induction os with
  | nil => intro s _; exact Iff.rfl
  | cons o os ih =>
    intro s hs
    exact and_congr (hCD s o hs) (forall₂_congr fun t ht => ih (hstep s o t hs ht))

/-- The run lemma where the allowed operations do not fail. -/
theorem run_ok_along {I : σ → Prop} {C : σ → ο → Prop}
    (hstep : ∀ s o, I s → C s o → ∃ s', step s o = .ok s' ∧ I s') :
    ∀ {os : List ο} {s : σ}, I s → Along step C s os → ∃ s', run step s os = .ok s' ∧ I s' := by
  intro os
  induction os with
  | nil => intro s hs _; exact ⟨s, rfl, hs⟩
  | cons o os ih =>
    intro s hs hC
    obtain ⟨t, ht, hI⟩ := hstep s o hs hC.1
    rw [run_cons ht]
    exact ih hI (hC.2 t ht)

/-- The run lemma for what each allowed operation does. -/
theorem holds_along {I : σ → Prop} {C : σ → ο → Prop} {R : σ → ο → σ → Prop}
    (hstep : ∀ s o, I s → C s o → ∃ s', step s o = .ok s' ∧ I s' ∧ R s o s') :
    ∀ {os : List ο} {s : σ}, I s → Along step C s os → Holds step R s os := by
  intro os
  induction os with
  | nil => intro s _ _; trivial
  | cons o os ih =>
    intro s hs hC
    obtain ⟨t, ht, hI, hR⟩ := hstep s o hs hC.1
    exact ⟨t, ht, hR, ih hI (hC.2 t ht)⟩

/-- The exactness rule: where a step within the contract `P` does `R` exactly in
the states that `C` allows, a run within the contract does so along `C`. -/
theorem holds_iff_along {I : σ → Prop} {P C : σ → ο → Prop} {R : σ → ο → σ → Prop}
    (hexact : ∀ s o, I s → P s o → ((∃ s', step s o = .ok s' ∧ R s o s') ↔ C s o))
    (hinv : ∀ s o s', I s → P s o → step s o = .ok s' → R s o s' → I s') :
    ∀ {os : List ο} {s : σ}, I s → Along step P s os →
      (Holds step R s os ↔ Along step C s os) := by
  intro os
  induction os with
  | nil => intro s _ _; exact Iff.rfl
  | cons o os ih =>
    intro s hs hP
    constructor
    · rintro ⟨s', hs', hR, hrest⟩
      refine ⟨(hexact s o hs hP.1).1 ⟨s', hs', hR⟩, fun t ht => ?_⟩
      obtain rfl : t = s' := by rw [ht] at hs'; cases hs'; rfl
      exact (ih (hinv s o t hs hP.1 ht hR) (hP.2 t ht)).1 hrest
    · rintro ⟨hc, hrest⟩
      obtain ⟨s', hs', hR⟩ := (hexact s o hs hP.1).2 hc
      exact ⟨s', hs', hR, (ih (hinv s o s' hs hP.1 hs' hR) (hP.2 s' hs')).2 (hrest s' hs')⟩

/-- The exactness rule against an abstract machine: where its states tell which steps do
`R`, the runs whose steps all do so are told by its runs. -/
theorem holds_iff_along_abs {next : α → ο → α} {I : σ → α → Prop} {R : σ → ο → σ → Prop}
    {C : α → ο → Prop} (hexact : ∀ s a o, I s a → ((∃ s', step s o = .ok s' ∧ R s o s') ↔ C a o))
    (hsim : ∀ s a o s', I s a → step s o = .ok s' → R s o s' → I s' (next a o)) :
    ∀ {os : List ο} {s : σ} {a : α}, I s a →
      (Holds step R s os ↔ Along (fun a o => (.ok (next a o) : Except ε α)) C a os) := by
  intro os
  induction os with
  | nil => intro s a _; exact Iff.rfl
  | cons o os ih =>
    intro s a hs
    rw [along_cons_ok rfl os]
    constructor
    · rintro ⟨s', hs', hR, hrest⟩
      exact ⟨(hexact s a o hs).1 ⟨s', hs', hR⟩, (ih (hsim s a o s' hs hs' hR)).1 hrest⟩
    · rintro ⟨hc, hrest⟩
      obtain ⟨s', hs', hR⟩ := (hexact s a o hs).2 hc
      exact ⟨s', hs', hR, (ih (hsim s a o s' hs hs' hR)).2 hrest⟩

/-- The exactness rule for a property that is lost for good once it is lost: the last
state of a run has it exactly when every step was one that `C` allows. -/
theorem last_iff_along {I Q : σ → Prop} {C : σ → ο → Prop} (hQ : ∀ s, I s → Q s)
    (hback : ∀ s o s', step s o = .ok s' → Q s' → Q s)
    (hexact : ∀ s o s', I s → step s o = .ok s' → (Q s' ↔ C s o))
    (hinv : ∀ s o s', I s → step s o = .ok s' → Q s' → I s') :
    ∀ {os : List ο} {s s' : σ}, I s → run step s os = .ok s' → (Q s' ↔ Along step C s os) := by
  intro os
  have hrun : ∀ {os : List ο} {s s' : σ}, run step s os = .ok s' → Q s' → Q s := by
    intro os
    induction os with
    | nil => intro s s' h; cases h; exact id
    | cons o os ih =>
      intro s s' h hq
      obtain ⟨t, ht, hrest⟩ := run_cons_ok h
      exact hback s o t ht (ih hrest hq)
  induction os with
  | nil => intro s s' hs h; cases h; exact iff_of_true (hQ s hs) trivial
  | cons o os ih =>
    intro s s' hs h
    obtain ⟨t, ht, hrest⟩ := run_cons_ok h
    rw [along_cons_ok ht os, ← hexact s o t hs ht]
    refine ⟨fun hq => ?_, fun ⟨hq, hal⟩ => (ih (hinv s o t hs ht hq) hrest).2 hal⟩
    have hqt := hrun hrest hq
    exact ⟨hqt, (ih (hinv s o t hs ht hqt) hrest).1 hq⟩

theorem Holds.run_ok {R : σ → ο → σ → Prop} :
    ∀ {os : List ο} {s : σ}, Holds step R s os → ∃ s', run step s os = .ok s' := by
  intro os
  induction os with
  | nil => intro s _; exact ⟨s, rfl⟩
  | cons o os ih =>
    rintro s ⟨t, ht, -, hrest⟩
    rw [run_cons ht]
    exact ih hrest

/-- Operations that fail in every state are in no run that holds. -/
theorem Holds.forall_ops {R : σ → ο → σ → Prop} {P : ο → Prop}
    (hP : ∀ s o s', step s o = .ok s' → P o) :
    ∀ {os : List ο} {s : σ}, Holds step R s os → ∀ o ∈ os, P o := by
  intro os
  induction os with
  | nil => exact fun _ _ h => absurd h List.not_mem_nil
  | cons o os ih =>
    rintro s ⟨t, ht, -, hrest⟩
    exact List.forall_mem_cons.2 ⟨hP s o t ht, ih hrest⟩

/-- The rank rule: where every step does `R` or comes nearer to it, a run that is long enough
does `R`. -/
theorem meets_of_rank {I : σ → Prop} {C : ο → Prop} {R : σ → ο → σ → Prop} {rank : σ → ℕ}
    (hpos : ∀ s, I s → 0 < rank s)
    (hstep : ∀ s o, I s → C o → ∃ s', step s o = .ok s' ∧ (R s o s' ∨ I s' ∧ rank s' < rank s)) :
    ∀ {os : List ο} {s : σ}, I s → (∀ o ∈ os, C o) → rank s ≤ os.length → Meets step R s os := by
  intro os
  induction os with
  | nil =>
    intro s hs _ hlen
    exact absurd (hpos s hs) (Nat.not_lt.2 hlen)
  | cons o os ih =>
    intro s hs hC hlen
    obtain ⟨s', hs', hR | ⟨hs'', hlt⟩⟩ := hstep s o hs (hC o List.mem_cons_self)
    · exact ⟨s', hs', .inl hR⟩
    · refine ⟨s', hs', .inr (ih hs'' (fun o' ho' => hC o' (List.mem_cons_of_mem _ ho')) ?_)⟩
      rw [List.length_cons] at hlen
      exact Nat.le_of_lt_succ (Nat.lt_of_lt_of_le hlt hlen)

theorem tracks_iff_holds {spec : α → ο → α} {abs : σ → α} :
    ∀ {os : List ο} {s : σ} {a : α}, Tracks step spec abs s a os ↔
      abs s = a ∧ Holds step (fun s o s' => abs s' = spec (abs s) o) s os := by
  intro os
  induction os with
  | nil => intro s a; simp [Tracks, Holds]
  | cons o os ih =>
    intro s a
    constructor
    · rintro ⟨rfl, s', hs', hrest⟩
      obtain ⟨ha, hrest⟩ := ih.1 hrest
      exact ⟨rfl, s', hs', ha, hrest⟩
    · rintro ⟨rfl, s', hs', ha, hrest⟩
      exact ⟨rfl, s', hs', ih.2 ⟨ha, hrest⟩⟩

/-- The exactness rule for a refinement. -/
theorem tracks_iff_along {I : σ → Prop} {P C : σ → ο → Prop} {spec : α → ο → α} {abs : σ → α}
    (hexact : ∀ s o, I s → P s o →
      ((∃ s', step s o = .ok s' ∧ abs s' = spec (abs s) o) ↔ C s o))
    (hinv : ∀ s o s', I s → step s o = .ok s' → I s')
    {os : List ο} {s : σ} (hs : I s) (hP : Along step P s os) :
    Tracks step spec abs s (abs s) os ↔ Along step C s os := by
  rw [tracks_iff_holds, and_iff_right rfl]
  exact holds_iff_along hexact (fun s o s' hs _ h _ => hinv s o s' hs h) hs hP

end StepRun
