import Mathlib.Data.List.Basic
import Mathlib.Data.Nat.Notation
import Mathlib.Logic.Function.Basic

/-! The descriptors of a process: a table of a fixed number of slots. A new descriptor is the
lowest free slot; a table without one refuses. -/

namespace Descriptors

variable {α : Type*} {t t' : List (Option α)} {a b : α} {fd fd' : ℕ}

def file (t : List (Option α)) (fd : ℕ) : Option α := t[fd]?.join

def lowestFree : List (Option α) → Option ℕ
  | [] => none
  | none :: _ => some 0
  | some _ :: t => (lowestFree t).map Nat.succ

def allocate (t : List (Option α)) (a : α) : Option (ℕ × List (Option α)) :=
  (lowestFree t).map fun fd => (fd, t.set fd (some a))

def release (t : List (Option α)) (fd : ℕ) : List (Option α) := t.set fd none

def room : List (Option α) → ℕ
  | [] => 0
  | none :: t => room t + 1
  | some _ :: t => room t

theorem lowestFree_slot (h : lowestFree t = some fd) : t[fd]? = some none := by
  induction t generalizing fd with
  | nil => cases h
  | cons x t ih =>
    cases x with
    | none =>
      cases h
      rfl
    | some a =>
      obtain ⟨fd, hfd, rfl⟩ := Option.map_eq_some_iff.1 h
      exact ih hfd

theorem lowestFree_of_room (h : 0 < room t) : ∃ fd, lowestFree t = some fd := by
  induction t with
  | nil => cases h
  | cons x t ih =>
    cases x with
    | none => exact ⟨0, rfl⟩
    | some a =>
      obtain ⟨fd, hfd⟩ := ih h
      exact ⟨fd + 1, by rw [lowestFree, hfd]; rfl⟩

theorem room_of_free (h : t[fd]? = some none) : 0 < room t := by
  induction t generalizing fd with
  | nil => cases h
  | cons x t ih =>
    cases x with
    | none => exact Nat.succ_pos _
    | some a =>
      cases fd with
      | zero => cases h
      | succ fd => exact ih h

theorem room_set_some (h : t[fd]? = some none) (a : α) : room (t.set fd (some a)) + 1 = room t := by
  induction t generalizing fd with
  | nil => cases h
  | cons x t ih =>
    cases fd with
    | zero =>
      cases h
      rfl
    | succ fd =>
      have hrest := ih h
      cases x with
      | none => exact congrArg Nat.succ hrest
      | some b => exact hrest

theorem file_release : file (release t fd) = Function.update (file t) fd none := by
  funext k
  rcases eq_or_ne k fd with rfl | hk
  · rw [Function.update_self, file, release, List.getElem?_set, if_pos rfl]
    split_ifs
    · rfl
    · rfl
  · rw [Function.update_of_ne hk, file, file, release, List.getElem?_set_ne hk.symm]

theorem lt_length_of_slot {x : Option α} (h : t[fd]? = some x) : fd < t.length :=
  (List.getElem?_eq_some_iff.1 h).1

theorem file_of_slot {x : Option α} (h : t[fd]? = some x) : file t fd = x := by
  rw [file, h]
  rfl

theorem file_set (h : t[fd]? = some none) (a : α) :
    file (t.set fd (some a)) = Function.update (file t) fd (some a) := by
  funext k
  rcases eq_or_ne k fd with rfl | hk
  · rw [Function.update_self, file, List.getElem?_set_self (lt_length_of_slot h)]
    rfl
  · rw [Function.update_of_ne hk, file, file, List.getElem?_set_ne hk.symm]

/-- Every slot but the new one is as before. -/
theorem allocate_cases (t : List (Option α)) (a : α) :
    (allocate t a = none ∧ room t = 0) ∨ ∃ fd t', allocate t a = some (fd, t') ∧
      file t fd = none ∧ file t' = Function.update (file t) fd (some a) ∧ room t' + 1 = room t := by
  cases h : lowestFree t with
  | none =>
    refine .inl ⟨by rw [allocate, h]; rfl, Nat.eq_zero_of_not_pos fun hroom => ?_⟩
    obtain ⟨fd, hfd⟩ := lowestFree_of_room hroom
    rw [h] at hfd
    cases hfd
  | some fd =>
    have hslot := lowestFree_slot h
    exact .inr ⟨fd, _, by rw [allocate, h]; rfl, file_of_slot hslot, file_set hslot a,
      room_set_some hslot a⟩

/-- A descriptor that is closed can be had again. -/
theorem room_release (h : file t fd = some a) : 0 < room (release t fd) := by
  have hlt : fd < t.length := by
    by_contra hge
    rw [file, List.getElem?_eq_none (Nat.not_lt.1 hge)] at h
    cases h
  exact room_of_free (List.getElem?_set_self hlt)

theorem room_le_release : room t ≤ room (release t fd) := by
  induction t generalizing fd with
  | nil => exact Nat.le_refl _
  | cons x t ih =>
    cases fd with
    | zero =>
      cases x with
      | none => exact Nat.le_refl _
      | some b => exact Nat.le_succ _
    | succ fd =>
      cases x with
      | none => exact Nat.succ_le_succ ih
      | some b => exact ih

end Descriptors
