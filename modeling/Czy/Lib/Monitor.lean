import Czy.Lib.Run
import Mathlib.Data.Fintype.Basic

/-! Threads around a mutex and condition variables. A section of a function, under the mutex
up to a wait or to the end, is one step. A signal is lost where nobody sleeps on the
condition, it wakes one of the sleepers otherwise, and a sleeper may wake by itself. -/

namespace Monitor

variable {τ σ ω κ : Type}

/-- What a section signals at its end. -/
inductive Signal (κ : Type)
  | none
  | one (c : κ)
  | all (c : κ)

/-- A section ends in a wait, or with the function. -/
inductive Outcome (σ κ : Type)
  | waits (c : κ)
  | returns (shared : σ) (signal : Signal κ)

/-- Where a thread is: in no function, asleep in a wait of one, or behind that wait, about
to run the section again. -/
inductive Place (ω κ : Type)
  | outside
  | asleep (op : ω) (c : κ)
  | awake (op : ω)
  deriving DecidableEq

structure State (τ σ ω κ : Type) where
  shared : σ
  place : τ → Place ω κ

/-- `woken` is the sleeper that a signal to one wakes, if there is one. -/
inductive Label (τ ω : Type)
  | call (t : τ) (op : ω) (woken : Option τ)
  | resume (t : τ) (woken : Option τ)
  | spurious (t : τ)

def Place.wake : Place ω κ → Place ω κ
  | asleep op _ => awake op
  | p => p

def Place.sleepsOn [DecidableEq κ] (c : κ) : Place ω κ → Bool
  | asleep _ d => d = c
  | _ => false

def State.new (shared : σ) : State τ σ ω κ := ⟨shared, fun _ => .outside⟩

def State.running (s : State τ σ ω κ) : Label τ ω → Option (τ × ω)
  | .call t op _ => match s.place t with
    | .outside => some (t, op)
    | _ => none
  | .resume t _ => match s.place t with
    | .awake op => some (t, op)
    | _ => none
  | .spurious _ => none

def Label.Of (t : τ) (op : ω) : Label τ ω → Prop
  | .call u op' _ => u = t ∧ op' = op
  | .resume u _ => u = t
  | .spurious u => u = t

/-- The thread `t` is in no other function than `op`. -/
structure State.Within (s : State τ σ ω κ) (t : τ) (op : ω) : Prop where
  awake : ∀ op', s.place t = .awake op' → op' = op
  asleep : ∀ op' c, s.place t = .asleep op' c → op' = op

theorem State.within_new (shared : σ) (t : τ) (op : ω) :
    (State.new shared : State τ σ ω κ).Within t op := ⟨nofun, nofun⟩

theorem State.Within.running {s : State τ σ ω κ} {l : Label τ ω} {t u : τ} {op op' : ω}
    (h : s.Within t op) (hl : l.Of t op) (hrunning : s.running l = some (u, op')) :
    u = t ∧ op' = op := by
  cases l with
  | call v op₁ woken =>
    obtain ⟨rfl, rfl⟩ := hl
    simp only [State.running] at hrunning
    split at hrunning <;> cases hrunning
    exact ⟨rfl, rfl⟩
  | resume v woken =>
    obtain rfl : v = t := hl
    simp only [State.running] at hrunning
    split at hrunning
    next op₁ hplace =>
      cases hrunning
      exact ⟨rfl, h.awake op' hplace⟩
    next => cases hrunning
  | spurious v => cases hrunning

theorem sleepsOn_wake [DecidableEq κ] (c : κ) (p : Place ω κ) : p.wake.sleepsOn c = false := by
  cases p <;> rfl

/-- Nobody sleeps who would not have to wait again. -/
def Waiting (sec : ω → σ → Outcome σ κ) (s : State τ σ ω κ) : Prop :=
  ∀ t op c, s.place t = .asleep op c → sec op s.shared = .waits c

theorem waiting_new (sec : ω → σ → Outcome σ κ) (shared : σ) :
    Waiting sec (State.new shared : State τ σ ω κ) := by
  rintro t op c ⟨⟩

/-- A section that lets a waiting function go on wakes everybody who waits for that. -/
def Broadcasts (sec : ω → σ → Outcome σ κ) : Prop :=
  ∀ op shared shared' signal, sec op shared = .returns shared' signal →
    ∀ op' c, sec op' shared = .waits c → sec op' shared' = .waits c ∨ signal = .all c

section

variable [DecidableEq τ] [Fintype τ] [DecidableEq κ]

/-- The places after a signal, unless `woken` is not what it wakes. -/
def deliver (place : τ → Place ω κ) : Signal κ → Option τ → Except Unit (τ → Place ω κ)
  | .none, none => .ok place
  | .one c, none => if ∀ u, (place u).sleepsOn c = false then .ok place else .error ()
  | .one c, some u =>
    if (place u).sleepsOn c then .ok (Function.update place u (place u).wake) else .error ()
  | .all c, none => .ok fun u => if (place u).sleepsOn c then (place u).wake else place u
  | _, _ => .error ()

variable (sec : ω → σ → Outcome σ κ)

/-- A section in the thread `t`. -/
def enter (s : State τ σ ω κ) (t : τ) (op : ω) (woken : Option τ) :
    Except Unit (State τ σ ω κ) :=
  match sec op s.shared with
  | .waits c =>
    if woken = none then .ok { s with place := Function.update s.place t (.asleep op c) }
    else .error ()
  | .returns shared signal =>
    match deliver (Function.update s.place t .outside) signal woken with
    | .ok place => .ok ⟨shared, place⟩
    | .error e => .error e

/-- A label that is not possible in the state is an error. -/
def step (s : State τ σ ω κ) : Label τ ω → Except Unit (State τ σ ω κ)
  | .call t op woken => match s.place t with
    | .outside => enter sec s t op woken
    | _ => .error ()
  | .resume t woken => match s.place t with
    | .awake op => enter sec s t op woken
    | _ => .error ()
  | .spurious t => match s.place t with
    | .asleep op _ => .ok { s with place := Function.update s.place t (.awake op) }
    | _ => .error ()

end

section

variable [DecidableEq τ] [DecidableEq κ] {sec : ω → σ → Outcome σ κ} {s s' : State τ σ ω κ}
  {l : Label τ ω}

/-- What a step does: a thread begins to wait, or leaves its function, or wakes by itself. -/
inductive Stepped (sec : ω → σ → Outcome σ κ) (s : State τ σ ω κ) (l : Label τ ω)
    (s' : State τ σ ω κ) : Prop
  | waits (t : τ) (op : ω) (c : κ) (running : s.running l = some (t, op))
    (outcome : sec op s.shared = .waits c) (shared : s'.shared = s.shared)
    (place : s'.place = Function.update s.place t (.asleep op c))
  | returns (t : τ) (op : ω) (signal : Signal κ) (running : s.running l = some (t, op))
    (outcome : sec op s.shared = .returns s'.shared signal) (left : s'.place t = .outside)
    (others : ∀ u, u ≠ t → s'.place u = s.place u ∨ s'.place u = (s.place u).wake)
    (all : ∀ c, signal = .all c → ∀ u, (s'.place u).sleepsOn c = false)
  | spurious (t : τ) (op : ω) (c : κ) (label : l = .spurious t)
    (asleep : s.place t = .asleep op c) (shared : s'.shared = s.shared)
    (place : s'.place = Function.update s.place t (.awake op))

/-- What the step of a thread does to the shared state. -/
theorem Stepped.shared_cases (hs : Stepped sec s l s') :
    (s'.shared = s.shared ∧ ∀ t op, s.running l = some (t, op) → ∃ c, sec op s.shared = .waits c) ∨
      ∃ t op signal, s.running l = some (t, op) ∧ sec op s.shared = .returns s'.shared signal := by
  cases hs with
  | waits t op c running outcome shared place =>
    refine .inl ⟨shared, fun t' op' h => ?_⟩
    rw [running] at h
    cases h
    exact ⟨c, outcome⟩
  | returns t op signal running outcome left others all =>
    exact .inr ⟨t, op, signal, running, outcome⟩
  | spurious t op c label asleep shared place =>
    refine .inl ⟨shared, fun t' op' h => ?_⟩
    rw [label] at h
    cases h

theorem State.Within.stepped {t : τ} {op : ω} (h : s.Within t op)
    (hl : ∀ op', s.running l = some (t, op') → op' = op) (hs : Stepped sec s l s') :
    s'.Within t op := by
  cases hs with
  | waits u op' c running outcome shared place =>
    by_cases hut : t = u
    · subst hut
      have hplace : s'.place t = .asleep op' c := by rw [place, Function.update_self]
      have hop := hl op' running
      constructor <;> simp [hplace, hop]
    · have hplace : s'.place t = s.place t := by rw [place, Function.update_of_ne hut]
      exact ⟨by rw [hplace]; exact h.awake, by rw [hplace]; exact h.asleep⟩
  | returns u op' signal running outcome left others all =>
    by_cases hut : t = u
    · subst hut
      constructor <;> simp [left]
    · rcases others t hut with hplace | hplace
      · exact ⟨by rw [hplace]; exact h.awake, by rw [hplace]; exact h.asleep⟩
      · cases hp : s.place t with
        | outside => constructor <;> simp [hplace, hp, Place.wake]
        | asleep op₁ c =>
          have hop := h.asleep op₁ c hp
          constructor <;> simp [hplace, hp, Place.wake, hop]
        | awake op₁ =>
          have hop := h.awake op₁ hp
          constructor <;> simp [hplace, hp, Place.wake, hop]
  | spurious u op' c label asleep shared place =>
    by_cases hut : t = u
    · subst hut
      have hplace : s'.place t = .awake op' := by rw [place, Function.update_self]
      have hop := h.asleep op' c asleep
      constructor <;> simp [hplace, hop]
    · have hplace : s'.place t = s.place t := by rw [place, Function.update_of_ne hut]
      exact ⟨by rw [hplace]; exact h.awake, by rw [hplace]; exact h.asleep⟩

/-- Who is asleep was asleep before, or has just found that it has to wait. -/
theorem Stepped.sleeper (hs : Stepped sec s l s') {u : τ} {op : ω} {c : κ}
    (hu : s'.place u = .asleep op c) : s.place u = .asleep op c ∨
      (s.running l = some (u, op) ∧ sec op s.shared = .waits c ∧ s'.shared = s.shared) := by
  cases hs with
  | waits t op' d running outcome shared place =>
    rw [place] at hu
    by_cases hut : u = t
    · rw [hut, Function.update_self] at hu
      cases hu
      rw [hut]
      exact .inr ⟨running, outcome, shared⟩
    · rw [Function.update_of_ne hut] at hu
      exact .inl hu
  | returns t op' signal running outcome left others all =>
    have hut : u ≠ t := fun hut => by
      rw [hut, left] at hu
      cases hu
    rcases others u hut with heq | heq
    · exact .inl (heq.symm.trans hu)
    · rw [hu] at heq
      cases hp : s.place u <;> rw [hp] at heq <;> cases heq
  | spurious t op' d label asleep shared place =>
    rw [place] at hu
    by_cases hut : u = t
    · rw [hut, Function.update_self] at hu
      cases hu
    · rw [Function.update_of_ne hut] at hu
      exact .inl hu

theorem Broadcasts.waiting (hsec : Broadcasts sec) (h : Waiting sec s) (hs : Stepped sec s l s') :
    Waiting sec s' := by
  intro u op c hu
  rcases hs.sleeper hu with hbefore | ⟨-, hwaits, hshared⟩
  · have hwaits := h u op c hbefore
    cases hs with
    | waits t op' d running outcome shared place =>
      rw [shared]
      exact hwaits
    | returns t op' signal running outcome left others all =>
      rcases hsec op' _ _ signal outcome op c hwaits with hstill | hall
      · exact hstill
      · have hnot := all c hall u
        rw [hu] at hnot
        exact absurd rfl (of_decide_eq_false hnot)
    | spurious t op' d label asleep shared place =>
      rw [shared]
      exact hwaits
  · rw [hshared]
    exact hwaits

variable [Fintype τ]

theorem deliver_ok {place place' : τ → Place ω κ} {signal : Signal κ} {woken : Option τ}
    (h : deliver place signal woken = .ok place') :
    (∀ u, place' u = place u ∨ place' u = (place u).wake) ∧
      ∀ c, signal = .all c → ∀ u, (place' u).sleepsOn c = false := by
  unfold deliver at h
  split at h
  · cases h
    exact ⟨fun _ => .inl rfl, nofun⟩
  · split at h
    · cases h
      exact ⟨fun _ => .inl rfl, nofun⟩
    · cases h
  · next u =>
    split at h
    · cases h
      refine ⟨fun v => ?_, nofun⟩
      by_cases hv : v = u
      · subst hv
        exact .inr (Function.update_self ..)
      · exact .inl (Function.update_of_ne hv ..)
    · cases h
  · next c =>
    cases h
    refine ⟨fun u => ?_, ?_⟩
    · dsimp only
      split
      · exact .inr rfl
      · exact .inl rfl
    · rintro _ ⟨⟩ u
      dsimp only
      split
      next hu => exact sleepsOn_wake c (place u)
      next hu => exact Bool.eq_false_iff.2 hu
  · cases h

theorem stepped_of_enter {t : τ} {op : ω} {woken : Option τ} (hrunning : s.running l = some (t, op))
    (h : enter sec s t op woken = .ok s') : Stepped sec s l s' := by
  unfold enter at h
  split at h
  next c hout =>
    split at h
    · cases h
      exact .waits t op c hrunning hout rfl rfl
    · cases h
  next shared signal hout =>
    split at h
    next place hplace =>
      cases h
      obtain ⟨hwoken, hall⟩ := deliver_ok hplace
      refine .returns t op signal hrunning hout ?_ (fun u hu => ?_) hall
      · have ht := hwoken t
        rw [Function.update_self] at ht
        exact ht.elim id id
      · have hu' := hwoken u
        rwa [Function.update_of_ne hu] at hu'
    next => cases h

theorem stepped_of_step (h : step sec s l = .ok s') : Stepped sec s l s' := by
  cases l with
  | call t op woken =>
    cases hp : s.place t with
    | outside =>
      simp only [step, hp] at h
      exact stepped_of_enter (by simp only [State.running, hp]) h
    | asleep op c => simp only [step, hp, reduceCtorEq] at h
    | awake op => simp only [step, hp, reduceCtorEq] at h
  | resume t woken =>
    cases hp : s.place t with
    | outside => simp only [step, hp, reduceCtorEq] at h
    | asleep op c => simp only [step, hp, reduceCtorEq] at h
    | awake op =>
      simp only [step, hp] at h
      exact stepped_of_enter (by simp only [State.running, hp]) h
  | spurious t =>
    cases hp : s.place t with
    | outside => simp only [step, hp, reduceCtorEq] at h
    | asleep op c =>
      simp only [step, hp] at h
      cases h
      exact .spurious t op c rfl hp rfl rfl
    | awake op => simp only [step, hp, reduceCtorEq] at h

/-- The rule of the broadcast: no run leaves a sleeper behind. -/
theorem Broadcasts.run_waiting (hsec : Broadcasts sec) {ls : List (Label τ ω)} {shared : σ}
    (h : StepRun.run (step sec) (State.new shared) ls = .ok s) : Waiting sec s :=
  StepRun.run_inv (fun _ _ _ hs h => hsec.waiting hs (stepped_of_step h)) (waiting_new sec shared) h

end

end Monitor
