import Czy.Sanity.Buffer
import Czy.Spec.BufferSearch

/-! Searches and drops by a pointer into the readable bytes. -/

namespace Czy.Net

open Window

/-- The calls; an overload without a pointer has `none`. -/
inductive PointerOp
  | findCRLF (start : Option ℕ)
  | findEOL (start : Option ℕ)
  | retriveUntil (last : ℕ)

namespace Buffer

def HasAt (b : Buffer) (pat : List UInt8) (p : ℕ) : Prop :=
  p + pat.length ≤ b.writeIndex ∧ window b.buffer p (p + pat.length) = pat

def FirstFrom (b : Buffer) (pat : List UInt8) (start : ℕ) : Option ℕ → Prop
  | some p => start ≤ p ∧ b.HasAt pat p ∧ ∀ q, start ≤ q → q < p → ¬ b.HasAt pat q
  | none => ∀ q, start ≤ q → ¬ b.HasAt pat q

def InWindow (b : Buffer) : PointerOp → Prop
  | .findCRLF start => ∀ p ∈ start, b.peek ≤ p ∧ p ≤ b.writeIndex
  | .findEOL start => b.peek ≤ start.getD b.peek ∧ start.getD b.peek < b.writeIndex
  | .retriveUntil last => b.peek ≤ last ∧ last ≤ b.writeIndex

/-- What the call is to do: find the first match, agree with the search from `peek()`, or drop
the bytes in front of the pointer. -/
def Respects (b : Buffer) : PointerOp → Prop
  | .findCRLF (some start) => ∃ r, b.findCRLFFrom start = .ok r ∧ b.FirstFrom kCRLF start r
  | .findCRLF none => b.findCRLFFrom b.peek = .ok b.findCRLF
  | .findEOL (some start) => ∃ r, b.findEOLFrom start = .ok r ∧ b.FirstFrom [10] start r
  | .findEOL none => b.findEOLFrom b.peek = .ok b.findEOL
  | .retriveUntil last => ∃ b', b.retriveUntil last = .ok b' ∧
      b'.readable = b.readable.drop (last - b.peek)

/-- The call bounds itself by the const `beginWrite`, or drops nothing. -/
def ConstBound (b : Buffer) : PointerOp → Prop
  | .findCRLF _ => True
  | .findEOL _ => False
  | .retriveUntil last => last = b.peek

variable {b : Buffer} {pat : List UInt8} {start last p : ℕ}

theorem hasAt_iff (h : b.Inv) (hp : p ≤ b.writeIndex) :
    b.HasAt pat p ↔ pat <+: window b.buffer p b.writeIndex := by
  rw [List.prefix_iff_eq_take]
  have hlen := length_window (i := p) h.bound
  constructor
  · rintro ⟨hend, hwin⟩
    rw [window_take hend, hwin]
  · intro htake
    have hle := congrArg List.length htake
    rw [List.length_take] at hle
    have hend : p + pat.length ≤ b.writeIndex := by omega
    rw [window_take hend] at htake
    exact ⟨hend, htake.symm⟩

theorem search_firstFrom (h : b.Inv) (hpat : pat ≠ []) (hstart : start ≤ b.writeIndex) :
    b.FirstFrom pat start (if b.search start b.writeIndex pat = b.writeIndex then none
      else some (b.search start b.writeIndex pat)) := by
  have hlen := length_window (i := start) h.bound
  have hle : Search.search pat (window b.buffer start b.writeIndex) ≤
      (window b.buffer start b.writeIndex).length := Search.search_le
  have hat {q : ℕ} (hq : start ≤ q) (hend : q ≤ b.writeIndex) :
      b.HasAt pat q ↔ pat <+: (window b.buffer start b.writeIndex).drop (q - start) := by
    rw [hasAt_iff h hend, window_drop, Nat.add_sub_cancel' hq]
  unfold search
  split_ifs with hnone
  · intro q hq hhas
    exact Search.not_prefix_of_search_end hpat (by omega) _
      ((hat hq ((Nat.le_add_right _ _).trans hhas.1)).1 hhas)
  · refine ⟨Nat.le_add_right _ _, (hat (Nat.le_add_right _ _) (by omega)).2 ?_, ?_⟩
    · rw [Nat.add_sub_cancel_left]
      exact Search.prefix_at_search (by omega)
    · intro q hq hlt hhas
      exact Search.not_prefix_before (by omega) ((hat hq (by omega)).1 hhas)

theorem singleton_prefix_drop {s : List UInt8} {c : UInt8} {j : ℕ} :
    [c] <+: s.drop j ↔ s[j]? = some c := by
  rw [← List.head?_drop]
  cases s.drop j with
  | nil => simp
  | cons x s => simp [List.cons_prefix_cons, eq_comm]

theorem findEOL_firstFrom (h : b.Inv) : b.FirstFrom [10] b.peek b.findEOL := by
  have hread : window b.buffer b.peek (b.peek + b.readableBytes) = b.readable := by
    rw [readable, readableBytes, peek, Nat.add_sub_cancel' h.order]
  have hat {q : ℕ} (hq : b.peek ≤ q) (hend : q ≤ b.writeIndex) :
      b.HasAt [10] q ↔ b.readable[q - b.peek]? = some 10 := by
    rw [hasAt_iff h hend, ← singleton_prefix_drop, readable, window_drop, ← peek,
      Nat.add_sub_cancel' hq]
  have hlen := readable_length h
  rw [findEOL, memchr, hread]
  cases hfind : b.readable.idxOf? 10 with
  | none =>
    intro q hq hhas
    have hmem := List.mem_of_getElem? ((hat hq ((Nat.le_add_right _ _).trans hhas.1)).1 hhas)
    exact List.idxOf?_eq_none_iff.1 hfind hmem
  | some i =>
    obtain ⟨hi, heq, hbefore⟩ := List.idxOf?_eq_some_iff.1 hfind
    have hend : b.peek + i ≤ b.writeIndex := by
      unfold readableBytes at hlen
      unfold peek
      omega
    refine ⟨Nat.le_add_right _ _, (hat (Nat.le_add_right _ _) hend).2 ?_, ?_⟩
    · rw [Nat.add_sub_cancel_left, List.getElem?_eq_getElem hi, heq]
    · intro q hq (hlt : q < b.peek + i) hhas
      have hget := (hat hq (by omega)).1 hhas
      rw [List.getElem?_eq_getElem (by omega)] at hget
      exact hbefore _ (by omega) (Option.some.inj hget)

theorem findCRLFFrom_eq (hpeek : b.peek ≤ start) (hend : start ≤ b.writeIndex) :
    b.findCRLFFrom start = .ok (if b.search start b.writeIndex kCRLF = b.writeIndex then none
      else some (b.search start b.writeIndex kCRLF)) := by
  rw [findCRLFFrom, require_bind hpeek, require_bind (c := start ≤ b.beginWriteConst) hend]
  rfl

/-- The two assertions exclude each other. -/
theorem findEOLFrom_fails (b : Buffer) (start : ℕ) (r : Option ℕ) : b.findEOLFrom start ≠ .ok r := by
  intro hr
  rw [findEOLFrom, require_bind_ok, require_bind_ok] at hr
  obtain ⟨hlt, hle, -⟩ := hr
  unfold beginWrite at hlt
  unfold peek at hle
  omega

theorem retriveUntil_ok {b' : Buffer} (hr : b.retriveUntil last = .ok b') : last = b.peek := by
  rw [retriveUntil, require_bind_ok, require_bind_ok] at hr
  obtain ⟨hle, hge, -⟩ := hr
  exact Nat.le_antisymm hge hle

/-- The calls respect the window exactly where they are const or have nothing to do. -/
theorem respects_iff (h : b.Inv) (op : PointerOp) (hin : b.InWindow op) :
    b.Respects op ↔ b.ConstBound op := by
  cases op with
  | findCRLF start =>
    refine iff_of_true ?_ trivial
    cases start with
    | none => exact findCRLFFrom_eq le_rfl h.order
    | some start =>
      obtain ⟨hpeek, hend⟩ := hin start rfl
      exact ⟨_, findCRLFFrom_eq hpeek hend, search_firstFrom h (List.cons_ne_nil _ _) hend⟩
  | findEOL start =>
    refine iff_of_false ?_ not_false
    cases start with
    | none => exact findEOLFrom_fails b b.peek _
    | some start =>
      rintro ⟨r, hr, -⟩
      exact findEOLFrom_fails b start r hr
  | retriveUntil last =>
    constructor
    · rintro ⟨b', hb', -⟩
      exact retriveUntil_ok hb'
    · rintro rfl
      obtain ⟨b', hb', -, hread⟩ := retrive_spec h (Nat.zero_le _)
      refine ⟨b', ?_, ?_⟩
      · rw [retriveUntil, require_bind le_rfl, require_bind (c := b.peek ≤ b.beginWrite) le_rfl,
          Nat.sub_self, hb']
      · rw [hread, Nat.sub_self]

theorem respects_crlf : (⟨[0, 0, 0, 0, 0, 0, 0, 0, 1, 13, 10, 2], 8, 12⟩ : Buffer).Respects
    (.findCRLF (some 9)) :=
  (respects_iff ⟨by decide, by decide, by decide⟩ _ (by rintro p ⟨⟩; decide)).2 trivial

/-- The end of a line is found, but the line cannot be dropped. -/
theorem retriveUntil_fails : ¬ (⟨[0, 0, 0, 0, 0, 0, 0, 0, 1, 10], 8, 10⟩ : Buffer).Respects
    (.retriveUntil 10) := by
  rintro ⟨b', hb', -⟩
  cases hb'

end Buffer

end Czy.Net
