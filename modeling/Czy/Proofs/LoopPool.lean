import Czy.Sanity.TcpServer
import Mathlib.Data.Int.CardIntervalMod

/-! Which loop a pool gives: in turn, by a hash, or all of them. -/

namespace Czy.Net.EventLoopThreadPool

def getNextLoops (p : EventLoopThreadPool) : ℕ → Except Fault (List LoopId × EventLoopThreadPool)
  | 0 => .ok ([], p)
  | k + 1 => do
    let (before, p') ← getNextLoops p k
    let (loop, p'') ← p'.getNextLoop baseLoop
    return (before ++ [loop], p'')

def IsStarted (n : ℕ) (p : EventLoopThreadPool) : Prop :=
  (new.setThreadNum n).start baseLoop = .ok p

variable {p p' : EventLoopThreadPool} {n k : ℕ}

theorem IsStarted.eq (h : IsStarted n p) : p = ⟨true, n, 0, (List.range n).map (· + 1), .inl rfl⟩ := by
  cases h
  rfl

theorem getNextLoop_eq (hstarted : p.started = true) (hlt : p.next < p.loops.length) :
    ∃ p', p.getNextLoop baseLoop = .ok (p.loops[p.next], p') ∧ p'.started = true ∧
      p'.loops = p.loops ∧ p'.next = (p.next + 1) % p.loops.length := by
  have hne : p.loops ≠ [] := List.ne_nil_of_length_pos (Nat.zero_lt_of_lt hlt)
  unfold getNextLoop
  rw [assertInLoopThread_ok rfl, ok_bind, require_bind hstarted, dif_neg hne]
  refine ⟨_, rfl, hstarted, rfl, ?_⟩
  dsimp only
  split_ifs with hend
  · rw [hend, Nat.mod_self]
  · exact (Nat.mod_eq_of_lt (by omega)).symm

theorem getNextLoops_eq (hstarted : p.started = true) (hne : p.loops ≠ []) (k : ℕ) :
    ∃ loops p', p.getNextLoops k = .ok (loops, p') ∧ p'.started = true ∧ p'.loops = p.loops ∧
      p'.next = (p.next + k) % p.loops.length ∧ loops.length = k ∧
      ∀ i < k, loops[i]? = p.loops[(p.next + i) % p.loops.length]? := by
  have hpos := List.length_pos_of_ne_nil hne
  induction k with
  | zero =>
    refine ⟨[], p, rfl, hstarted, rfl, ?_, rfl, fun i hi => absurd hi (Nat.not_lt_zero i)⟩
    exact (Nat.mod_eq_of_lt (p.next_lt_length hne)).symm
  | succ k ih =>
    obtain ⟨loops, p₁, hloops, hstarted₁, hsame, hnext, hlength, hat⟩ := ih
    have hlt : p₁.next < p₁.loops.length := by
      rw [hnext, hsame]
      exact Nat.mod_lt _ hpos
    obtain ⟨p₂, hp₂, hstarted₂, hsame₂, hnext₂⟩ := getNextLoop_eq hstarted₁ hlt
    refine ⟨loops ++ [p₁.loops[p₁.next]], p₂, ?_, hstarted₂, hsame₂.trans hsame, ?_, ?_, fun i hi => ?_⟩
    · rw [getNextLoops, hloops, ok_bind]
      dsimp only
      rw [hp₂, ok_bind]
      rfl
    · rw [hnext₂, hsame, hnext, Nat.mod_add_mod, Nat.add_assoc]
    · rw [List.length_append, hlength, List.length_singleton]
    · rcases Nat.lt_succ_iff_lt_or_eq.1 hi with hlt | rfl
      · rw [List.getElem?_append_left (by omega), hat i hlt]
      · rw [List.getElem?_append_right hlength.le, hlength, Nat.sub_self, List.getElem?_cons_zero,
          ← List.getElem?_eq_getElem, hsame, hnext]

theorem IsStarted.loops_at (h : IsStarted n p) {i : ℕ} (hi : i < n) : p.loops[i]? = some (i + 1) := by
  rw [h.eq]
  exact (List.getElem?_map).trans (by rw [List.getElem?_range hi]; rfl)

theorem IsStarted.length (h : IsStarted n p) : p.loops.length = n := by
  rw [h.eq]
  simp

theorem IsStarted.getNextLoops (h : IsStarted n p) (hn : 0 < n) (k : ℕ) :
    ∃ p', p.getNextLoops k = .ok ((List.range k).map (fun i => i % n + 1), p') ∧
      p'.started = true ∧ p'.loops = p.loops ∧ p'.next = k % n := by
  have hlength := h.length
  have hstarted : p.started = true := by rw [h.eq]
  have hnext : p.next = 0 := by rw [h.eq]
  have hne : p.loops ≠ [] := List.ne_nil_of_length_pos (by omega)
  obtain ⟨loops, p', hloops, hstarted', hsame, hnext', hcount, hat⟩ := getNextLoops_eq hstarted hne k
  rw [hnext, hlength, Nat.zero_add] at hnext'
  refine ⟨p', ?_, hstarted', hsame, hnext'⟩
  rw [hloops]
  have heq : loops = (List.range k).map fun i => i % n + 1 := by
    refine List.ext_getElem? fun i => ?_
    by_cases hi : i < k
    · rw [hat i hi, hnext, hlength, Nat.zero_add, h.loops_at (Nat.mod_lt i hn), List.getElem?_map,
        List.getElem?_range hi]
      rfl
    · rw [List.getElem?_eq_none (by omega), List.getElem?_eq_none (by simp; omega)]
  rw [heq]

theorem count_turns {j : ℕ} (hn : 0 < n) (hj : j < n) (k : ℕ) :
    ((List.range k).map fun i => i % n + 1).count (j + 1) = k / n ∨
      ((List.range k).map fun i => i % n + 1).count (j + 1) = (k + n - 1) / n := by
  have hcount : ((List.range k).map fun i => i % n + 1).count (j + 1) = k.count (· ≡ j [MOD n]) := by
    rw [List.count, List.countP_map, Nat.count]
    refine List.countP_congr fun i _ => ?_
    simp [Nat.ModEq, Nat.mod_eq_of_lt hj]
  rw [hcount, Nat.count_modEq_card k hn]
  split_ifs with hlt
  · right
    have hsplit := Nat.div_add_mod k n
    rw [Nat.mod_eq_of_lt hj] at hlt
    have hceil : k + n - 1 = n * (k / n + 1) + (k % n - 1) := by
      rw [Nat.mul_add]
      omega
    have hrest : k % n - 1 < n := by have := Nat.mod_lt k hn; omega
    rw [hceil, Nat.mul_add_div hn, Nat.div_eq_of_lt hrest]
  · exact .inl rfl

/-- The loops are given in turn, and so equally often. -/
theorem round_robin (h : IsStarted n p) (hn : 0 < n) (k : ℕ) :
    ∃ loops p', p.getNextLoops k = .ok (loops, p') ∧ p'.next < n ∧ loops.length = k ∧
      (∀ i < k, loops[i]? = p.loops[i % n]?) ∧
      ∀ loop ∈ p.loops, loops.count loop = k / n ∨ loops.count loop = (k + n - 1) / n := by
  obtain ⟨p', hloops, -, -, hnext⟩ := h.getNextLoops hn k
  refine ⟨_, p', hloops, hnext ▸ Nat.mod_lt k hn, by simp, fun i hi => ?_, fun loop hloop => ?_⟩
  · rw [h.loops_at (Nat.mod_lt i hn), List.getElem?_map, List.getElem?_range hi]
    rfl
  · obtain ⟨j, hin, rfl⟩ := List.mem_iff_getElem.1 hloop
    have hj : j < n := h.length ▸ hin
    have hat := h.loops_at hj
    rw [List.getElem?_eq_getElem hin, Option.some.injEq] at hat
    rw [hat]
    exact count_turns hn hj k

theorem round_robin_three : ∃ loops p', (⟨true, 3, 0, [1, 2, 3], .inl rfl⟩ :
      EventLoopThreadPool).getNextLoops 7 = .ok (loops, p') ∧ p'.next < 3 ∧ loops.length = 7 ∧
    (∀ i < 7, loops[i]? = [1, 2, 3][i % 3]?) ∧
    ∀ loop ∈ [1, 2, 3], loops.count loop = 7 / 3 ∨ loops.count loop = (7 + 3 - 1) / 3 :=
  round_robin (n := 3) rfl (by decide) 7

/-- After any number of calls, the loops of the next round, those for all hash codes, and all
loops are the same. -/
def SelectorsAgree (n : ℕ) (p : EventLoopThreadPool) : Prop := ∀ k, ∃ before p₁ loops p₂ all,
  p.getNextLoops k = .ok (before, p₁) ∧ p₁.getNextLoops (max n 1) = .ok (loops, p₂) ∧
  p₁.getAllLoops baseLoop = .ok all ∧ (∀ loop, loop ∈ loops ↔ loop ∈ all) ∧
  ∀ r, (∃ hashCode, p₁.getLoopForHash baseLoop hashCode = .ok r) ↔ ∃ loop ∈ all, r = some loop

theorem getAllLoops_eq (hstarted : p.started = true) (hne : p.loops ≠ []) :
    p.getAllLoops baseLoop = .ok p.loops := by
  rw [getAllLoops, assertInLoopThread_ok rfl, ok_bind, require_bind hstarted, if_neg hne]
  rfl

theorem getLoopForHash_eq (hstarted : p.started = true) (hne : p.loops ≠ []) (hashCode : UInt64) :
    p.getLoopForHash baseLoop hashCode = .ok p.loops[hashCode.toNat % p.loops.length]? := by
  rw [getLoopForHash, assertInLoopThread_ok rfl, ok_bind, require_bind hstarted, if_neg hne]
  rfl

theorem mem_round (hstarted : p.started = true) (hne : p.loops ≠ []) :
    ∃ loops p', p.getNextLoops p.loops.length = .ok (loops, p') ∧
      ∀ loop, loop ∈ loops ↔ loop ∈ p.loops := by
  have hpos := List.length_pos_of_ne_nil hne
  obtain ⟨loops, p', hloops, -, -, -, hlength, hat⟩ := getNextLoops_eq hstarted hne p.loops.length
  refine ⟨loops, p', hloops, fun loop => ⟨fun hin => ?_, fun hin => ?_⟩⟩
  · obtain ⟨i, hi⟩ := List.mem_iff_getElem?.1 hin
    have hlt : i < p.loops.length := hlength ▸ (List.getElem?_eq_some_iff.1 hi).1
    rw [hat i hlt] at hi
    exact List.mem_of_getElem? hi
  · obtain ⟨j, hj⟩ := List.mem_iff_getElem?.1 hin
    have hjlt := (List.getElem?_eq_some_iff.1 hj).1
    have hnext := p.next_lt_length hne
    -- the call that is as far from the first one as the loop is from `next_`
    have hlt : (j + (p.loops.length - p.next)) % p.loops.length < p.loops.length := Nat.mod_lt _ hpos
    have hturn : (p.next + (j + (p.loops.length - p.next)) % p.loops.length) % p.loops.length = j := by
      rw [Nat.add_mod_mod, show p.next + (j + (p.loops.length - p.next)) = j + p.loops.length by omega,
        Nat.add_mod_right, Nat.mod_eq_of_lt hjlt]
    refine List.mem_of_getElem? (i := (j + (p.loops.length - p.next)) % p.loops.length) ?_
    rw [hat _ hlt, hturn, hj]

theorem exists_hash_iff (hstarted : p.started = true) (hne : p.loops ≠ [])
    (hsize : p.loops.length < 2 ^ 31) (r : Option LoopId) :
    (∃ hashCode, p.getLoopForHash baseLoop hashCode = .ok r) ↔ ∃ loop ∈ p.loops, r = some loop := by
  have hpos := List.length_pos_of_ne_nil hne
  constructor
  · rintro ⟨hashCode, hr⟩
    have hlt := Nat.mod_lt hashCode.toNat hpos
    rw [getLoopForHash_eq hstarted hne, List.getElem?_eq_getElem hlt] at hr
    exact ⟨_, List.getElem_mem hlt, (Except.ok.inj hr).symm⟩
  · rintro ⟨loop, hin, rfl⟩
    obtain ⟨j, hj⟩ := List.mem_iff_getElem?.1 hin
    have hjlt := (List.getElem?_eq_some_iff.1 hj).1
    have hword : UInt64.size = 2 ^ 64 := rfl
    refine ⟨UInt64.ofNat j, ?_⟩
    rw [getLoopForHash_eq hstarted hne, UInt64.toNat_ofNat_of_lt' (by omega),
      Nat.mod_eq_of_lt hjlt, hj]

/-- With at least one thread: without one, a hash code gets a null pointer for the base loop. -/
theorem selectors_agree_iff (h : IsStarted n p) (hsize : n < 2 ^ 31) :
    SelectorsAgree n p ↔ 0 < n := by
  constructor
  · intro hagree
    refine Nat.pos_of_ne_zero ?_
    rintro rfl
    obtain ⟨_, _, _, _, all, hbefore, -, -, -, hhash⟩ := hagree 0
    cases hbefore
    rw [h.eq] at hhash
    obtain ⟨loop, -, hnull⟩ := (hhash none).1 ⟨0, rfl⟩
    cases hnull
  · intro hn k
    obtain ⟨p₁, hbefore, hstarted, hsame, -⟩ := h.getNextLoops hn k
    have hlength : p₁.loops.length = n := by rw [hsame, h.length]
    have hne : p₁.loops ≠ [] := List.ne_nil_of_length_pos (by omega)
    obtain ⟨loops, p₂, hloops, hround⟩ := mem_round hstarted hne
    rw [hlength] at hloops
    rw [← Nat.max_eq_left (Nat.succ_le_of_lt hn)] at hloops
    exact ⟨_, p₁, loops, p₂, p₁.loops, hbefore, hloops, getAllLoops_eq hstarted hne, hround,
      exists_hash_iff hstarted hne (by omega)⟩

theorem selectors_agree_two : SelectorsAgree 2 ⟨true, 2, 0, [1, 2], .inl rfl⟩ ↔ 0 < 2 :=
  selectors_agree_iff (n := 2) rfl (by decide)

/-- The pool without threads has the base loop, and no loop for a hash code. -/
theorem selectors_disagree : ¬ SelectorsAgree 0 ⟨true, 0, 0, [], .inl rfl⟩ := by
  intro hagree
  obtain ⟨_, _, _, _, all, hbefore, -, -, -, hhash⟩ := hagree 0
  cases hbefore
  obtain ⟨loop, -, hnull⟩ := (hhash none).1 ⟨0, rfl⟩
  cases hnull

end Czy.Net.EventLoopThreadPool
