import Czy.Lib.Run
import Mathlib.Data.Nat.Notation
import Mathlib.Logic.Function.Basic
import Mathlib.Tactic

/-! Items that each go through one fixed life, driven by messages. The events of all
items are interleaved in one log and the messages wait in boxes, in order; an item
has at most one message in flight. -/

namespace Stages

/-- `due i k` is the message in flight, with its box, of an item that has gone through
the first `k` events of its life. -/
structure Protocol (ι ε φ β : Type*) where
  event : ε → ι
  message : φ → ι
  life : ι → List ε
  due : ι → ℕ → Option (β × φ)
  event_life : ∀ i, ∀ e ∈ life i, event e = i
  message_due : ∀ i k b f, due i k = some (b, f) → message f = i

structure State (ε φ β : Type*) where
  log : List ε
  box : β → List φ

variable {ι ε φ β : Type*} [DecidableEq ι]

section Projections

variable (P : Protocol ι ε φ β)

def eventsOf (log : List ε) (i : ι) : List ε := log.filter (fun e => P.event e = i)

def messagesOf (box : List φ) (i : ι) : List φ := box.filter (fun f => P.message f = i)

variable {P} {i j : ι}

theorem eventsOf_append_self {es : List ε} (log : List ε) (hes : ∀ e ∈ es, P.event e = i) :
    eventsOf P (log ++ es) i = eventsOf P log i ++ es := by
  have hall : es.filter (fun e => P.event e = i) = es :=
    List.filter_eq_self.2 fun e he => by simpa using hes e he
  rw [eventsOf, List.filter_append, hall, eventsOf]

theorem eventsOf_append_other {es : List ε} (log : List ε) (hes : ∀ e ∈ es, P.event e = i)
    (hne : j ≠ i) : eventsOf P (log ++ es) j = eventsOf P log j := by
  have hnone : es.filter (fun e => P.event e = j) = [] := by
    apply List.filter_eq_nil_iff.2
    intro e he
    rw [hes e he]
    simpa using hne.symm
  rw [eventsOf, List.filter_append, hnone, List.append_nil, eventsOf]

theorem messagesOf_append_self {f : φ} (box : List φ) (hf : P.message f = i) :
    messagesOf P (box ++ [f]) i = messagesOf P box i ++ [f] := by
  simp [messagesOf, hf]

theorem messagesOf_append_other {f : φ} (box : List φ) (hf : P.message f ≠ j) :
    messagesOf P (box ++ [f]) j = messagesOf P box j := by
  simp [messagesOf, hf]

end Projections

variable [DecidableEq β]

/-- A message, if there is one, goes to the tail of its box. -/
def send (box : β → List φ) : Option (β × φ) → β → List φ
  | none => box
  | some (b, f) => Function.update box b (box b ++ [f])

def inBox : Option (β × φ) → β → List φ
  | none, _ => []
  | some (b, f), b' => if b' = b then [f] else []

variable (P : Protocol ι ε φ β)

/-- Item `i` has gone through the first `k` events of its life. -/
structure At (s : State ε φ β) (i : ι) (k : ℕ) : Prop where
  log : eventsOf P s.log i = (P.life i).take k
  box : ∀ b, messagesOf P (s.box b) i = inBox (P.due i k) b

def Live (s : State ε φ β) : Prop := ∀ i, ∃ k, At P s i k

/-- An item goes through its next `m` events, by itself when it has no message in flight
or else when that message is taken out of its box; its next message is sent. -/
inductive Step : State ε φ β → State ε φ β → Prop
  | act (s : State ε φ β) (i : ι) (k m : ℕ) (h : At P s i k) (hd : P.due i k = none) :
    Step s ⟨s.log ++ ((P.life i).drop k).take m, send s.box (P.due i (k + m))⟩
  | deliver (s : State ε φ β) (i : ι) (k m : ℕ) (b : β) (f : φ) (fs : List φ) (h : At P s i k)
      (hd : P.due i k = some (b, f)) (hb : s.box b = f :: fs) :
    Step s ⟨s.log ++ ((P.life i).drop k).take m,
      send (Function.update s.box b fs) (P.due i (k + m))⟩

variable {P} {s s' : State ε φ β} {i j : ι} {k m : ℕ}

theorem messagesOf_send_other {box : β → List φ} {d : Option (β × φ)}
    (hd : ∀ b f, d = some (b, f) → P.message f = i) (hne : j ≠ i) (b : β) :
    messagesOf P (send box d b) j = messagesOf P (box b) j := by
  rcases d with - | ⟨b', f⟩
  · rfl
  · rw [send]
    rcases eq_or_ne b b' with rfl | hb
    · rw [Function.update_self, messagesOf_append_other]
      rw [hd b f rfl]
      exact hne.symm
    · rw [Function.update_of_ne hb]

theorem messagesOf_send_self {box : β → List φ} {d : Option (β × φ)}
    (hd : ∀ b f, d = some (b, f) → P.message f = i) (hnone : ∀ b, messagesOf P (box b) i = [])
    (b : β) : messagesOf P (send box d b) i = inBox d b := by
  rcases d with - | ⟨b', f⟩
  · exact hnone b
  · rw [send, inBox]
    rcases eq_or_ne b b' with rfl | hb
    · rw [Function.update_self, messagesOf_append_self _ (hd b f rfl), hnone, if_pos rfl]
      rfl
    · rw [Function.update_of_ne hb, hnone, if_neg hb]

theorem messagesOf_pop_other {box : β → List φ} {b : β} {f : φ} {fs : List φ}
    (hb : box b = f :: fs) (hf : P.message f ≠ j) (b' : β) :
    messagesOf P (Function.update box b fs b') j = messagesOf P (box b') j := by
  rcases eq_or_ne b' b with rfl | hne
  · rw [Function.update_self, hb, messagesOf, messagesOf, List.filter_cons_of_neg (by simpa using hf)]
  · rw [Function.update_of_ne hne]

theorem messagesOf_pop_self (h : At P s i k) {b : β} {f : φ} {fs : List φ}
    (hd : P.due i k = some (b, f)) (hb : s.box b = f :: fs) (b' : β) :
    messagesOf P (Function.update s.box b fs b') i = [] := by
  have hf := P.message_due i k b f hd
  have hbox := h.box b'
  rw [hd, inBox] at hbox
  rcases eq_or_ne b' b with rfl | hne
  · rw [if_pos rfl, hb, messagesOf, List.filter_cons_of_pos (by simpa using hf)] at hbox
    rw [Function.update_self]
    exact (List.cons_eq_cons.1 hbox).2
  · rw [Function.update_of_ne hne, hbox, if_neg hne]

/-- The next `m` events of `i` take it from stage `k` to stage `k + m` and leave the
others where they are. -/
theorem eventsOf_advance (h : At P s i k) (m : ℕ) :
    eventsOf P (s.log ++ ((P.life i).drop k).take m) i = (P.life i).take (k + m) ∧
      ∀ j ≠ i, eventsOf P (s.log ++ ((P.life i).drop k).take m) j = eventsOf P s.log j := by
  have hes : ∀ e ∈ ((P.life i).drop k).take m, P.event e = i :=
    fun e he => P.event_life i e (List.mem_of_mem_drop (List.mem_of_mem_take he))
  refine ⟨?_, fun j hne => eventsOf_append_other _ hes hne⟩
  rw [eventsOf_append_self _ hes, h.log, List.take_add]

/-- A step takes one item on and leaves the others where they are. -/
theorem live_step (h : Live P s) (hs : Step P s s') : Live P s' := by
  intro j
  obtain ⟨kj, hj⟩ := h j
  cases hs with
  | act i k m hi hd =>
    have hdue := P.message_due i (k + m)
    obtain ⟨hself, hother⟩ := eventsOf_advance hi m
    rcases eq_or_ne j i with rfl | hne
    · refine ⟨k + m, hself, messagesOf_send_self hdue fun b => ?_⟩
      rw [hi.box b, hd]
      rfl
    · refine ⟨kj, (hother j hne).trans hj.log, fun b => ?_⟩
      rw [messagesOf_send_other hdue hne]
      exact hj.box b
  | deliver i k m b f fs hi hd hb =>
    have hdue := P.message_due i (k + m)
    obtain ⟨hself, hother⟩ := eventsOf_advance hi m
    rcases eq_or_ne j i with rfl | hne
    · exact ⟨k + m, hself, messagesOf_send_self hdue (messagesOf_pop_self hi hd hb)⟩
    · refine ⟨kj, (hother j hne).trans hj.log, fun b' => ?_⟩
      rw [messagesOf_send_other hdue hne, messagesOf_pop_other hb]
      · exact hj.box b'
      · rw [P.message_due i k b f hd]
        exact hne.symm

/-- The events of an item have happened exactly as far as it has come. -/
theorem At.mem_log (h : At P s i k) {e : ε} (he : P.event e = i) :
    e ∈ s.log ↔ e ∈ (P.life i).take k := by
  rw [← h.log, eventsOf, List.mem_filter, decide_eq_true he, and_iff_left rfl]

theorem At.mem_box (h : At P s i k) {f : φ} (hf : P.message f = i) (b : β) :
    f ∈ s.box b ↔ P.due i k = some (b, f) := by
  have hmem : f ∈ s.box b ↔ f ∈ messagesOf P (s.box b) i := by
    rw [messagesOf, List.mem_filter, decide_eq_true hf, and_iff_left rfl]
  rw [hmem, h.box b]
  rcases P.due i k with - | ⟨b', f'⟩
  · simp [inBox]
  · rcases eq_or_ne b b' with rfl | hb
    · simp [inBox, eq_comm]
    · simp [inBox, hb, hb.symm]

theorem At.count_log [DecidableEq ε] (h : At P s i k) {e : ε} (he : P.event e = i) :
    s.log.count e = ((P.life i).take k).count e := by
  rw [← h.log, eventsOf, List.count_filter (by simpa using he)]

theorem At.count_box [DecidableEq φ] (h : At P s i k) {f : φ} (hf : P.message f = i) (b : β) :
    (s.box b).count f = (inBox (P.due i k) b).count f := by
  rw [← h.box b, messagesOf, List.count_filter (by simpa using hf)]

/-- What has happened of an item before one of its events is what comes before it in
its life. -/
theorem At.before (h : At P s i k) (hnodup : (P.life i).Nodup) {e : ε} {n : ℕ}
    (hn : (P.life i)[n]? = some e) {pre post : List ε} (hlog : s.log = pre ++ e :: post) :
    eventsOf P pre i = (P.life i).take n := by
  have he := P.event_life i e (List.mem_of_getElem? hn)
  have hsplit : eventsOf P s.log i = eventsOf P pre i ++ e :: eventsOf P post i := by
    simp [hlog, eventsOf, he]
  obtain ⟨rest, hrest⟩ := List.take_prefix k (P.life i)
  rw [← h.log, hsplit, List.append_assoc] at hrest
  have hat : (P.life i)[(eventsOf P pre i).length]? = some e := by
    rw [← hrest, List.getElem?_append_right le_rfl]
    simp
  obtain ⟨hlt, -⟩ := List.getElem?_eq_some_iff.1 hat
  have hlen := (List.getElem?_inj hlt hnodup).1 (hat.trans hn.symm)
  rw [← hlen, ← hrest, List.take_left]

end Stages
