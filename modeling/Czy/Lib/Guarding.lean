import Mathlib.Data.List.Basic

/-! Queues in which an element that needs a guard has one behind it. First in, first out: the
element is served before its guard has gone. -/

namespace Guarding

variable {α : Type*}

/-- Behind each element that needs it there is a guard. -/
def Guarded (needs guards : α → Prop) : List α → Prop
  | [] => True
  | a :: queue => (needs a → ∃ g ∈ queue, guards g) ∧ Guarded needs guards queue

variable {needs needs' guards : α → Prop} {a g : α}

theorem guarded_of_none {queue : List α} (h : ∀ a ∈ queue, ¬ needs a) :
    Guarded needs guards queue := by
  induction queue with
  | nil => trivial
  | cons a queue ih =>
    refine ⟨fun ha => absurd ha (h a List.mem_cons_self), ih fun b hb => ?_⟩
    exact h b (List.mem_cons_of_mem a hb)

theorem Guarded.imp {queue : List α} (h : Guarded needs guards queue) (himp : ∀ a ∈ queue, needs' a → needs a) :
    Guarded needs' guards queue := by
  induction queue with
  | nil => trivial
  | cons a queue ih =>
    refine ⟨fun ha => h.1 (himp a List.mem_cons_self ha), ih h.2 fun b hb => ?_⟩
    exact himp b (List.mem_cons_of_mem a hb)

/-- What needs no guard can be queued. -/
theorem Guarded.concat {queue : List α} (h : Guarded needs guards queue) (ha : ¬ needs a) :
    Guarded needs guards (queue ++ [a]) := by
  induction queue with
  | nil => exact ⟨fun hneeds => absurd hneeds ha, trivial⟩
  | cons b queue ih =>
    refine ⟨fun hb => ?_, ih h.2⟩
    obtain ⟨g, hg, hguards⟩ := h.1 hb
    exact ⟨g, List.mem_append_left _ hg, hguards⟩

/-- A guard at the end is one for all. -/
theorem guarded_concat (hg : guards g) (hneeds : ¬ needs g) (queue : List α) :
    Guarded needs guards (queue ++ [g]) := by
  induction queue with
  | nil => exact ⟨fun h => absurd h hneeds, trivial⟩
  | cons a queue ih =>
    exact ⟨fun _ => ⟨g, List.mem_append_right _ (List.mem_singleton_self g), hg⟩, ih⟩

end Guarding
