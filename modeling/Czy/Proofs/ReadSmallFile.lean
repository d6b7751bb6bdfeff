import Czy.Spec.FileUtil
import Mathlib.Tactic

/-! A file that is read in pieces of any size. -/

namespace Czy.FileUtil.ReadSmallFile

variable {reads : ℕ → ReadOutcome} {bytes rest : List UInt8} {maxSize fuel : ℕ} {r : ReadToString}
  {errno : ℤ} {k : ℕ}

structure Sound (bytes rest : List UInt8) (maxSize : ℕ) (r : ReadToString) : Prop where
  whole : r.content ++ rest = bytes
  delivered : r.content = r.delivered.flatten
  size : r.content.length ≤ maxSize

def Fails (reads : ℕ → ReadOutcome) (maxSize : ℕ) (r : ReadToString) (errno : ℤ) : Prop :=
  r.content.length < maxSize ∧ reads r.delivered.length = .failed errno

/-- After the loop: `err` is what was to be returned before. -/
structure Finished (reads : ℕ → ReadOutcome) (bytes : List UInt8) (maxSize : ℕ) (err : ℤ)
    (r : ReadToString) : Prop where
  delivered : r.content = r.delivered.flatten
  first : r.content <+: bytes
  size : r.content.length ≤ maxSize
  failed : ∀ errno, Fails reads maxSize r errno → r.err = errno
  complete : (∀ errno, ¬ Fails reads maxSize r errno) → r.content = bytes.take maxSize ∧ r.err = err

/-! One round of the loop. -/

theorem readLoop_full (h : maxSize ≤ r.content.length) :
    readLoop reads maxSize (fuel + 1) rest r = some r := by
  rw [readLoop, if_neg (by omega)]

theorem readLoop_failed (h : r.content.length < maxSize)
    (hread : reads r.delivered.length = .failed errno) :
    readLoop reads maxSize (fuel + 1) rest r = some { r with err := errno } := by
  rw [readLoop, if_pos h]
  simp only [hread, read]

def quota (maxSize k : ℕ) (r : ReadToString) : ℕ :=
  min (k + 1) (min (maxSize - r.content.length) kBuffSize)

theorem quota_pos (h : r.content.length < maxSize) : 0 < quota maxSize k r := by
  unfold quota kBuffSize
  omega

theorem quota_le (maxSize k : ℕ) (r : ReadToString) : quota maxSize k r ≤ maxSize - r.content.length := by
  unfold quota
  omega

theorem readLoop_end (h : r.content.length < maxSize) (hread : reads r.delivered.length = .got k) :
    readLoop reads maxSize (fuel + 1) [] r = some r := by
  rw [readLoop, if_pos h]
  simp only [hread, read, List.take_nil, if_true]

theorem readLoop_more (h : r.content.length < maxSize) (hread : reads r.delivered.length = .got k)
    (hrest : rest ≠ []) :
    readLoop reads maxSize (fuel + 1) rest r =
      readLoop reads maxSize fuel (rest.drop (quota maxSize k r))
        { r with
          content := r.content ++ rest.take (quota maxSize k r)
          delivered := r.delivered ++ [rest.take (quota maxSize k r)] } := by
  have hpos := quota_pos (k := k) h
  have hsome : rest.take (quota maxSize k r) ≠ [] := by
    rw [Ne, List.take_eq_nil_iff, not_or]
    exact ⟨by omega, hrest⟩
  rw [readLoop, if_pos h]
  simp only [hread, read]
  exact if_neg hsome

theorem Sound.more (h : Sound bytes rest maxSize r) (k : ℕ) :
    Sound bytes (rest.drop (quota maxSize k r)) maxSize { r with
      content := r.content ++ rest.take (quota maxSize k r)
      delivered := r.delivered ++ [rest.take (quota maxSize k r)] } where
  whole := by rw [← h.whole, List.append_assoc, List.take_append_drop]
  delivered := by simp [h.delivered]
  size := by
    have hsize := h.size
    have hquota := quota_le maxSize k r
    simp only [List.length_append, List.length_take]
    omega

theorem Sound.finished (h : Sound bytes rest maxSize r)
    (hdone : maxSize ≤ r.content.length ∨ rest = [] ∧ reads r.delivered.length = .got k) :
    Finished reads bytes maxSize r.err r where
  delivered := h.delivered
  first := ⟨rest, h.whole⟩
  size := h.size
  failed errno hfails := by
    obtain hfull | ⟨-, hread⟩ := hdone
    · exact absurd hfails.1 (by omega)
    · cases hread.symm.trans hfails.2
  complete _ := by
    refine ⟨?_, rfl⟩
    have hsize := h.size
    rw [← h.whole]
    obtain hfull | ⟨rfl, -⟩ := hdone
    · rw [List.take_append_of_le_length hfull, List.take_of_length_le hsize]
    · rw [List.append_nil, List.take_of_length_le hsize]

theorem Sound.failed (h : Sound bytes rest maxSize r) (err : ℤ) (hroom : r.content.length < maxSize)
    (hread : reads r.delivered.length = .failed errno) :
    Finished reads bytes maxSize err { r with err := errno } where
  delivered := h.delivered
  first := ⟨rest, h.whole⟩
  size := h.size
  failed errno' hfails := by cases hread.symm.trans hfails.2; rfl
  complete hnone := absurd ⟨hroom, hread⟩ (hnone errno)

theorem with_fuel {n : ℕ} {r' : ReadToString}
    (h : ∀ fuel, n ≤ fuel → readLoop reads maxSize (fuel + 1) rest r = some r') :
    ∀ fuel, n < fuel → readLoop reads maxSize fuel rest r = some r' := by
  intro fuel hfuel
  obtain ⟨fuel, rfl⟩ := Nat.exists_eq_succ_of_ne_zero (Nat.zero_lt_of_lt hfuel).ne'
  exact h fuel (Nat.lt_succ_iff.1 hfuel)

/-- A round for each byte that there is room for, and one more, are enough. -/
theorem readLoop_finishes (reads : ℕ → ReadOutcome) {n : ℕ} (h : Sound bytes rest maxSize r)
    (hn : maxSize - r.content.length ≤ n) :
    ∃ r', (∀ fuel, n < fuel → readLoop reads maxSize fuel rest r = some r') ∧
      Finished reads bytes maxSize r.err r' := by
  induction n generalizing rest r with
  | zero =>
    have hfull : maxSize ≤ r.content.length := by omega
    exact ⟨r, with_fuel fun _ _ => readLoop_full hfull, h.finished (k := 0) (.inl hfull)⟩
  | succ n ih =>
    rcases Nat.lt_or_ge r.content.length maxSize with hroom | hfull
    · cases hread : reads r.delivered.length with
      | failed errno =>
        exact ⟨_, with_fuel fun _ _ => readLoop_failed hroom hread, h.failed r.err hroom hread⟩
      | got k =>
        by_cases hrest : rest = []
        · subst hrest
          exact ⟨r, with_fuel fun _ _ => readLoop_end hroom hread, h.finished (.inr ⟨rfl, hread⟩)⟩
        · have hpos := quota_pos (k := k) hroom
          have hlen := List.length_pos_of_ne_nil hrest
          obtain ⟨r', hr', hfinished⟩ := ih (h.more k) (by
            simp only [List.length_append, List.length_take]
            omega)
          refine ⟨r', with_fuel fun fuel hfuel => ?_, hfinished⟩
          rw [readLoop_more hroom hread hrest]
          exact hr' fuel (by omega)
    · exact ⟨r, with_fuel fun _ _ => readLoop_full hfull, h.finished (k := 0) (.inl hfull)⟩

theorem stat_regular {file : OpenFile} {err : ℤ} {p : Pointers}
    (h : p.fileSize = none ∨ ∃ statbuf, file.fstat = .ok statbuf ∧ statbuf.type = .regular) :
    (stat file err p).1 = err := by
  obtain hnull | ⟨statbuf, hstat, htype⟩ := h
  · rw [stat, if_neg (by simp [hnull])]
  · rw [stat]
    split_ifs
    · simp [hstat, htype]
    · rfl

/-- Whatever the pieces, the string gets the bytes delivered; without an error these are all
that there are, or that there is room for. -/
theorem read_in_pieces {size : ℤ} (h0 : 0 ≤ size) (hint : size < 2 ^ 31) (file : OpenFile)
    (reads : ℕ → ReadOutcome) (content : List UInt8) (p : Pointers) :
    ∃ r, (∀ fuel, size.toNat < fuel → readFile (.ok file) reads fuel size content p = some r) ∧
      r.content = r.delivered.flatten ∧ r.content <+: file.bytes ∧ (r.content.length : ℤ) ≤ size ∧
      (∀ errno, Fails reads size.toNat r errno → r.err = errno) ∧
      ((∀ errno, ¬ Fails reads size.toNat r errno) → r.content = file.bytes.take size.toNat ∧
        ((p.fileSize = none ∨ ∃ statbuf, file.fstat = .ok statbuf ∧ statbuf.type = .regular) →
          r.err = 0)) := by
  have hstart : Sound file.bytes file.bytes size.toNat
      ⟨(stat file 0 p).1, [], (stat file 0 p).2, []⟩ := ⟨rfl, rfl, Nat.zero_le _⟩
  obtain ⟨r, hr, hfinished⟩ := readLoop_finishes reads hstart (Nat.sub_le size.toNat 0)
  refine ⟨r, fun fuel hfuel => ?_, hfinished.delivered, hfinished.first, ?_, hfinished.failed,
    fun hnone => ?_⟩
  · rw [readFile, create, readToString, sizeOfInt_of_nonneg h0 hint]
    exact hr fuel hfuel
  · have := hfinished.size
    omega
  · obtain ⟨hall, herr⟩ := hfinished.complete hnone
    exact ⟨hall, fun hregular => herr.trans (stat_regular hregular)⟩

theorem read_in_two_pieces :
    let file : OpenFile := ⟨[97, 98, 99], .ok ⟨.regular, 3, 0, 0⟩⟩
    let p : Pointers := ⟨some 0, none, none⟩
    ∃ r, (∀ fuel, (5 : ℤ).toNat < fuel → readFile (.ok file) (fun _ => .got 1) fuel 5 [] p = some r) ∧
      r.content = r.delivered.flatten ∧ r.content <+: file.bytes ∧ (r.content.length : ℤ) ≤ 5 ∧
      (∀ errno, Fails (fun _ => .got 1) (5 : ℤ).toNat r errno → r.err = errno) ∧
      ((∀ errno, ¬ Fails (fun _ => .got 1) (5 : ℤ).toNat r errno) →
        r.content = file.bytes.take (5 : ℤ).toNat ∧
        ((p.fileSize = none ∨ ∃ statbuf, file.fstat = .ok statbuf ∧ statbuf.type = .regular) →
          r.err = 0)) :=
  read_in_pieces (by decide) (by decide) _ _ _ _

end Czy.FileUtil.ReadSmallFile
