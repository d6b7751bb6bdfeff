import Czy.Spec.ConfigFile
import Mathlib.Data.List.TakeWhile

/-! What `trim_space`, `parse_line` and the loop of `Load_file` do on any line, by the strings
that they find in it. -/

namespace Czy.ConfigureFileReader

open CString

variable {s text line buf stream start key value : List UInt8} {m m' : ConfigMap}

theorem cString_append (h : 0 ∉ s) (rest : List UInt8) : cString (s ++ 0 :: rest) = .ok s := by
  rw [cString, str_append h, deref_some]

/-- What `trim_space` makes of a string: a blank at the end is fatal, unless there is nothing
else. -/
def trimmed (s : List UInt8) : Except Abort (Option (List UInt8)) :=
  if s.all isBlank then .ok none
  else if s.getLast?.any isBlank then .error (.badPointer "*end_pos")
  else .ok (some (s.dropWhile isBlank))

theorem dropWhile_eq_nil_iff : s.dropWhile isBlank = [] ↔ s.all isBlank = true := by
  rw [List.dropWhile_eq_nil_iff, List.all_eq_true]

theorem trimSpace_eq (h : 0 ∉ s) (rest : List UInt8) :
    trimSpace (s ++ 0 :: rest) = (trimmed s).map (Option.map (· ++ 0 :: rest)) := by
  have hdrop : 0 ∉ s.dropWhile isBlank := fun hin => h ((List.dropWhile_sublist _).subset hin)
  rw [trimSpace, skip_str (by decide), deref_some, ok_bind, cString_append hdrop, ok_bind, trimmed]
  by_cases hall : s.all isBlank = true
  · rw [if_pos hall, if_pos (by rw [dropWhile_eq_nil_iff.2 hall]; rfl)]
    rfl
  · have hne : s.dropWhile isBlank ≠ [] := mt dropWhile_eq_nil_iff.1 hall
    have hs : s ≠ [] := fun hs => hall (by rw [hs]; rfl)
    have hpos := List.length_pos_of_ne_nil hne
    have hle := (List.dropWhile_sublist (l := s) isBlank).length_le
    rw [if_neg hpos.ne', if_neg hall, cString_append h, ok_bind, List.getLast?_eq_some_getLast hs,
      deref_some, ok_bind, Option.any_some]
    cases isBlank (s.getLast hs) with
    | true => rfl
    | false =>
      simp only [Bool.false_eq_true, if_false, List.length_append]
      rw [if_neg (by omega)]
      rfl

def entered (m : ConfigMap) : Option (List UInt8) → Option (List UInt8) → ConfigMap
  | some key, some value => m.insert key value
  | _, _ => m

def enter (s : List UInt8) (m : ConfigMap) : Except Abort ConfigMap :=
  match cutAt 61 s with
  | none => .error (.badPointer "*p")
  | some (key, value) => do return entered m (← trimmed key) (← trimmed value)

theorem trimmed_ok (h : trimmed s = .ok (some text)) : text = s.dropWhile isBlank := by
  unfold trimmed at h
  split_ifs at h
  · cases h
  · cases h
    rfl

theorem parseLine_eq (h : 0 ∉ s) (rest : List UInt8) (m : ConfigMap) :
    parseLine (s ++ 0 :: rest) m = enter s m := by
  rw [parseLine, chr_eq_cutAt h (by decide), deref_some, ok_bind, enter]
  cases hcut : cutAt 61 s with
  | none => rfl
  | some split =>
    obtain ⟨key, value⟩ := split
    obtain ⟨rfl, -⟩ := cutAt_eq_some hcut
    simp only [List.mem_append, List.mem_cons, not_or] at h
    obtain ⟨hk0, -, hv0⟩ := h
    have hdrop : ∀ {s t : List UInt8}, 0 ∉ s → trimmed s = .ok (some t) → 0 ∉ t := fun hs ht hin =>
      hs ((List.dropWhile_sublist _).subset (trimmed_ok ht ▸ hin))
    simp only [Option.map_some, deref_some, ok_bind, trimSpace_eq hk0, trimSpace_eq hv0]
    cases hk : trimmed key with
    | error e => rfl
    | ok k =>
      cases hv : trimmed value with
      | error e => rfl
      | ok v =>
        cases k with
        | none => rfl
        | some k =>
          cases v with
          | none => rfl
          | some v =>
            simp only [Except.map, Option.map_some, ok_bind, cString_append (hdrop hk0 hk),
              cString_append (hdrop hv0 hv)]
            rfl

def uncommented (text : List UInt8) : List UInt8 := (text.takeWhile (· ≠ 0)).takeWhile (· ≠ 35)

def loadText (m : ConfigMap) (text : List UInt8) : Except Abort ConfigMap :=
  if uncommented text = [] then .ok m else enter (uncommented text) m

/-- What the check of the last byte of `buf` leaves of a line. -/
theorem set_last (h : text.length ≤ 255) (rest : List UInt8) :
    ∃ rest', (if (text ++ 0 :: rest)[255]? = some 10 then (text ++ 0 :: rest).set 255 0
      else text ++ 0 :: rest) = text ++ 0 :: rest' := by
  split_ifs with hlast
  · rcases h.lt_or_eq with hlt | heq
    · obtain ⟨k, hk⟩ := Nat.exists_eq_add_of_lt hlt
      refine ⟨rest.set k 0, ?_⟩
      rw [List.set_append_right _ _ (by omega)]
      have hoff : 255 - text.length = k + 1 := by omega
      rw [hoff, List.set_cons_succ]
    · rw [← heq, List.getElem?_append_right le_rfl, Nat.sub_self] at hlast
      cases hlast
  · exact ⟨rest, rfl⟩

theorem takeWhile_cutAt (c : UInt8) (s : List UInt8) :
    s.takeWhile (· ≠ c) = ((cutAt c s).map Prod.fst).getD s := by
  induction s with
  | nil => rfl
  | cons x s ih =>
    rw [List.takeWhile_cons, cutAt]
    by_cases hx : x = c
    · simp [hx]
    · simp only [ne_eq, hx, not_false_eq_true, decide_true, if_true, if_false, ih]
      cases cutAt c s <;> rfl

/-- A line is read up to its first NUL, and without its comment. -/
theorem handleLine_eq (h : text.length ≤ 255) (rest : List UInt8) (m : ConfigMap) :
    ∃ buf, handleLine (text ++ 0 :: rest) m = (loadText m text).map (buf, ·) := by
  obtain ⟨rest', hset⟩ := set_last h rest
  obtain ⟨rest₁, hstr⟩ := exists_str text rest
  obtain ⟨rest₂, hstr'⟩ := exists_str text rest'
  have hnul : 0 ∉ text.takeWhile (· ≠ 0) := fun hin => by
    simpa using List.mem_takeWhile_imp hin
  have hfinish : ∀ {s : List UInt8}, 0 ∉ s → ∀ rest : List UInt8,
      (do let t ← cString (s ++ 0 :: rest)
          if t.length = 0 then return (s ++ 0 :: rest, m)
          else return (s ++ 0 :: rest, ← parseLine (s ++ 0 :: rest) m) : Except Abort _) =
        (if s = [] then .ok m else enter s m).map (s ++ 0 :: rest, ·) := by
    intro s hs rest
    rw [cString_append hs, ok_bind, parseLine_eq hs]
    simp only [List.length_eq_zero_iff]
    split_ifs
    · rfl
    · cases enter s m <;> rfl
  rw [handleLine, hstr, cString_append hnul, ok_bind, ← hstr]
  simp only [hset]
  rw [hstr', chr_eq_cutAt hnul (by decide), deref_some, ok_bind]
  unfold loadText uncommented
  rw [takeWhile_cutAt 35]
  cases hcut : cutAt 35 (text.takeWhile (· ≠ 0)) with
  | none => exact ⟨_, hfinish hnul rest₂⟩
  | some split =>
    have hsplit : 0 ∉ split.1 := fun hin => hnul (by
      rw [(cutAt_eq_some (s := split.1) (t := split.2) hcut).1]
      exact List.mem_append_left _ hin)
    exact ⟨_, hfinish hsplit _⟩

/-- The loop goes over the lines that `fgets` cuts the stream into. -/
theorem loadLoop_eq (n : ℕ) (stream buf : List UInt8) (m : ConfigMap) :
    loadLoop n stream buf m = (lines 10 255 n stream).foldlM loadText m := by
  induction n generalizing stream buf m with
  | zero => rfl
  | succ n ih =>
    rw [loadLoop, fgets, lines]
    split_ifs with hnil
    · rfl
    · have hlen : (line 10 255 stream).1.length ≤ 255 := length_line_le 255 stream
      obtain ⟨buf', hline⟩ := handleLine_eq hlen (buf.drop ((line 10 255 stream).1.length + 1)) m
      rw [List.foldlM_cons]
      simp only [hline]
      cases loadText m (line 10 255 stream).1 with
      | error e => rfl
      | ok m' => exact ih _ _ _

/-! A line `key=value`. -/

/-- A key or a value that both sides write and read alike. -/
structure Clean (s : List UInt8) : Prop where
  ne_nil : s ≠ []
  plain : 61 ∉ s ∧ 35 ∉ s ∧ 0 ∉ s ∧ 13 ∉ s ∧ 10 ∉ s
  first : ∀ c, s.head? = some c → isBlank c = false
  last : ∀ c, s.getLast? = some c → isBlank c = false

theorem trimmed_clean (h : Clean s) : trimmed s = .ok (some s) := by
  obtain ⟨c, s', rfl⟩ := List.exists_cons_of_ne_nil h.ne_nil
  have hfirst : isBlank c = false := h.first c rfl
  have hlast := List.getLast?_eq_some_getLast (List.cons_ne_nil c s')
  rw [trimmed, List.all_cons, hfirst, hlast, Option.any_some, h.last _ hlast, List.dropWhile_cons,
    hfirst]
  rfl

/-- The whole line, as it stands in the file. -/
def pairLine (key value : List UInt8) : List UInt8 := key ++ 61 :: value

theorem pairLine_plain (hk : Clean key) (hv : Clean value) :
    35 ∉ pairLine key value ∧ 0 ∉ pairLine key value ∧ 10 ∉ pairLine key value := by
  obtain ⟨-, hk35, hk0, -, hk10⟩ := hk.plain
  obtain ⟨-, hv35, hv0, -, hv10⟩ := hv.plain
  simp [pairLine, hk35, hk0, hk10, hv35, hv0, hv10]

theorem uncommented_eq_self (h0 : 0 ∉ s) (h35 : 35 ∉ s) : uncommented s = s := by
  have hwhole : ∀ {c : UInt8}, c ∉ s → s.takeWhile (· ≠ c) = s := fun hc =>
    List.takeWhile_eq_self_iff.2 fun x hx => decide_eq_true fun he => hc (he ▸ hx)
  rw [uncommented, hwhole h0, hwhole h35]

theorem loadText_clean (hk : Clean key) (hv : Clean value) (m : ConfigMap) :
    loadText m (pairLine key value) = .ok (m.insert key value) := by
  obtain ⟨h35, h0, -⟩ := pairLine_plain hk hv
  have hne : pairLine key value ≠ [] := by simp [pairLine]
  rw [loadText, uncommented_eq_self h0 h35, if_neg hne, enter, pairLine, cutAt_append hk.plain.1]
  simp only [trimmed_clean hk, trimmed_clean hv, ok_bind]
  rfl

theorem handleLine_clean (hk : Clean key) (hv : Clean value) (h : (pairLine key value).length ≤ 255)
    (rest : List UInt8) (m : ConfigMap) :
    ∃ buf, handleLine (pairLine key value ++ 0 :: rest) m = .ok (buf, m.insert key value) := by
  obtain ⟨buf, hline⟩ := handleLine_eq h rest m
  exact ⟨buf, by rw [hline, loadText_clean hk hv]; rfl⟩

/-! Any line: at most one entry comes of it, and none of more bytes than it has. -/

/-- The entries that `m'` has and `m` has not: at most one, of at most n bytes. -/
def AddsOne (n : ℕ) (m m' : ConfigMap) : Prop :=
  m' = m ∨ ∃ key value : List UInt8, m' = m.insert key value ∧ (pairLine key value).length ≤ n

theorem loadText_ok (h : loadText m text = .ok m') : AddsOne text.length m m' := by
  have hle : (uncommented text).length ≤ text.length :=
    ((List.takeWhile_sublist _).trans (List.takeWhile_sublist _)).length_le
  unfold loadText at h
  split_ifs at h
  · cases h
    exact .inl rfl
  · unfold enter at h
    split at h
    · cases h
    · rename_i key value hcut
      rw [(cutAt_eq_some hcut).1] at hle
      obtain ⟨k, hk, h₁⟩ := bind_ok.1 h
      obtain ⟨v, hv, h₂⟩ := bind_ok.1 h₁
      cases k with
      | none => cases h₂; exact .inl rfl
      | some k =>
        cases v with
        | none => cases h₂; exact .inl rfl
        | some v =>
          cases h₂
          have hklen := (List.dropWhile_sublist (l := key) isBlank).length_le
          have hvlen := (List.dropWhile_sublist (l := value) isBlank).length_le
          rw [← trimmed_ok hk] at hklen
          rw [← trimmed_ok hv] at hvlen
          refine .inr ⟨k, v, rfl, ?_⟩
          simp only [pairLine, List.length_append, List.length_cons] at hle ⊢
          omega

theorem handleLine_ok (hlen : text.length ≤ 255) {rest : List UInt8}
    (h : handleLine (text ++ 0 :: rest) m = .ok (buf, m')) : AddsOne text.length m m' := by
  obtain ⟨buf', hline⟩ := handleLine_eq hlen rest m
  obtain ⟨m₁, hm₁, hpair⟩ := map_ok.1 (hline ▸ h)
  cases hpair
  exact loadText_ok hm₁

/-- Of a stream come only entries that it has the bytes for. -/
theorem loadLoop_entries {n : ℕ} (h : loadLoop n stream buf m = .ok m') (key value : List UInt8)
    (hin : m'[key]? = some value) :
    m[key]? = some value ∨ (pairLine key value).length ≤ stream.length := by
  induction n generalizing stream buf m with
  | zero => cases h; exact .inl hin
  | succ n ih =>
    unfold loadLoop fgets at h
    split_ifs at h with hnil
    · cases h
      exact .inl hin
    · obtain ⟨⟨buf', m₁⟩, hline, hrest⟩ := bind_ok.1 h
      have happend : ((line 10 255 stream).1 ++ (line 10 255 stream).2).length = stream.length :=
        congrArg List.length (line_append 255 stream)
      rw [List.length_append] at happend
      rcases ih hrest with hm₁ | hle
      · rcases handleLine_ok (length_line_le 255 stream) hline with rfl | ⟨k, v, rfl, hkv⟩
        · exact .inl hm₁
        · rw [Std.ExtTreeMap.getElem?_insert] at hm₁
          split_ifs at hm₁ with hk
          · rw [Std.compare_eq_iff_eq] at hk
            cases hk
            cases hm₁
            exact .inr (hkv.trans (by omega))
          · exact .inl hm₁
      · exact .inr (hle.trans (by omega))

/-- Without line ends every 255 bytes make one entry at most. -/
theorem loadLoop_size {n : ℕ} (h : loadLoop n stream buf m = .ok m') (hnl : 10 ∉ stream) :
    m'.size ≤ m.size + (stream.length + 254) / 255 := by
  induction n generalizing stream buf m with
  | zero => cases h; exact Nat.le_add_right _ _
  | succ n ih =>
    unfold loadLoop fgets at h
    split_ifs at h with hnil
    · cases h
      exact Nat.le_add_right _ _
    · obtain ⟨⟨buf', m₁⟩, hline, hrest⟩ := bind_ok.1 h
      have hpos := List.length_pos_of_ne_nil hnil
      have hstep : m₁.size ≤ m.size + 1 := by
        rcases handleLine_ok (length_line_le 255 stream) hline with rfl | ⟨k, v, rfl, -⟩
        · exact Nat.le_succ _
        · exact Std.ExtTreeMap.size_insert_le
      rw [line_eq_take hnl] at hrest
      have hsize := ih hrest fun hin => hnl (List.mem_of_mem_drop hin)
      rw [List.length_drop] at hsize
      omega

theorem loadLoop_single (hk : Clean key) (hv : Clean value) (h : (pairLine key value).length ≤ 255)
    (n : ℕ) (buf : List UInt8) (m : ConfigMap) :
    loadLoop (n + 2) (pairLine key value) buf m = .ok (m.insert key value) := by
  obtain ⟨-, -, h10⟩ := pairLine_plain hk hv
  obtain ⟨buf', hbuf'⟩ := handleLine_clean hk hv h (buf.drop ((pairLine key value).length + 1)) m
  have hne : pairLine key value ≠ [] := by simp [pairLine]
  rw [loadLoop, fgets, if_neg hne, line_eq_take h10, List.take_of_length_le h,
    List.drop_of_length_le h]
  change (handleLine _ m >>= _) = _
  rw [hbuf', ok_bind]
  rfl

end Czy.ConfigureFileReader
