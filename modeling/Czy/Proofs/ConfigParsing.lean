import Czy.Proofs.ConfigSafety

/-! Well-formed configuration files: what `Load_file` makes of their lines against what
the lines say. -/

namespace Czy.ConfigureFileReader

open CString

structure Blanks where
  bytes : List UInt8
  blank : bytes.all isBlank = true

/-- A value, which may be empty and may hold a '='. -/
structure Value where
  bytes : List UInt8
  plain : 35 ∉ bytes ∧ 0 ∉ bytes ∧ 10 ∉ bytes
  first : bytes.head?.any isBlank = false
  last : bytes.getLast?.any isBlank = false

structure Key extends Value where
  noEq : 61 ∉ bytes

structure Comment where
  bytes : List UInt8
  plain : 0 ∉ bytes ∧ 10 ∉ bytes

inductive Body
  | blank (ws : Blanks)
  | entry (ws₁ : Blanks) (key : Key) (ws₂ ws₃ : Blanks) (value : Value) (ws₄ : Blanks)

def Body.bytes : Body → List UInt8
  | blank ws => ws.bytes
  | entry ws₁ key ws₂ ws₃ value ws₄ => (ws₁.bytes ++ key.bytes ++ ws₂.bytes) ++
      61 :: (ws₃.bytes ++ value.bytes ++ ws₄.bytes)

def commentBytes : Option Comment → List UInt8
  | some comment => 35 :: comment.bytes
  | none => []

structure FileLine where
  body : Body
  comment : Option Comment
  crlf : Bool
  short : (body.bytes ++ commentBytes comment).length < 255

namespace FileLine

def cr (l : FileLine) : List UInt8 := if l.crlf then [13] else []

def text (l : FileLine) : List UInt8 := l.body.bytes ++ commentBytes l.comment ++ l.cr

def assigns (k : List UInt8) (l : FileLine) : Option (List UInt8) :=
  match l.body with
  | .blank _ => none
  | .entry _ key _ _ value _ =>
    if key.bytes = k ∧ key.bytes ≠ [] ∧ value.bytes ≠ [] then some value.bytes else none

/-- An entry for `k`: of those without a value only the ones that have a comment go by. -/
def enters (k : List UInt8) (l : FileLine) : Bool :=
  match l.body with
  | .blank _ => false
  | .entry _ key _ _ value _ =>
    key.bytes = k ∧ key.bytes ≠ [] ∧ (l.comment.isNone ∨ value.bytes ≠ [])

/-- What the code enters into the map: without a comment to cut it off, the end of the line
is part of the value. -/
def loaded (l : FileLine) : Option (List UInt8 × List UInt8) :=
  match l.body with
  | .blank _ => none
  | .entry _ key _ ws₃ value ws₄ =>
    if key.bytes = [] then none
    else if l.comment.isNone then
      some (key.bytes, (ws₃.bytes ++ value.bytes ++ ws₄.bytes ++ l.cr ++ [10]).dropWhile isBlank)
    else if value.bytes = [] then none
    else some (key.bytes, value.bytes)

/-- There is an entry in the line unless it is a comment from its first byte on, and no
string that is trimmed ends with a blank. -/
def Sound (l : FileLine) : Prop :=
  match l.body with
  | .blank ws => l.comment.isSome = true ∧ ws.bytes = []
  | .entry _ key ws₂ _ value ws₄ => (key.bytes = [] ∨ ws₂.bytes = []) ∧
    (l.comment.isSome = true → value.bytes = [] ∨ ws₄.bytes = [])

/-- `fgets` takes the line whole, and it is sound. -/
def Harmless (l : FileLine) : Prop := l.text.length < 255 ∧ l.Sound

def enterInto (m : ConfigMap) (l : FileLine) : ConfigMap :=
  match l.loaded with
  | some (key, value) => m.insert key value
  | none => m

end FileLine

def fileOf (ls : List FileLine) : List UInt8 := ls.flatMap fun l => l.text ++ [10]

/-- After `Load_file` every key has the value that the last of its lines gives to it. -/
def Parses (name : List UInt8) (ls : List FileLine) (buf : List UInt8) : Prop :=
  ∃ r', loadFile ⟨false, ∅, name⟩ (some (fileOf ls)) buf = .ok r' ∧
    ∀ k, r'.configureMap[k]? = ls.reverse.findSome? (FileLine.assigns k)

/-- Of the lines from which something is entered for a key the last one has a comment. -/
def EndsCommented (ls : List FileLine) : Prop :=
  ∀ k l, ls.reverse.find? (FileLine.enters k) = some l → l.comment.isSome = true

variable {s t : List UInt8} {m : ConfigMap}

/-! Strings between blanks -/

theorem Blanks.not_mem (ws : Blanks) {c : UInt8} (hc : isBlank c = false) : c ∉ ws.bytes := by
  intro hin
  rw [List.all_eq_true.1 ws.blank c hin] at hc
  cases hc

theorem Value.not_blank (v : Value) {c : UInt8} {s : List UInt8} (h : v.bytes = c :: s) :
    isBlank c = false := by
  have hfirst := v.first
  rwa [h] at hfirst

theorem dropWhile_padded (ws : Blanks) (v : Value) (hv : v.bytes ≠ []) (t : List UInt8) :
    (ws.bytes ++ (v.bytes ++ t)).dropWhile isBlank = v.bytes ++ t := by
  obtain ⟨c, v', hc⟩ := List.exists_cons_of_ne_nil hv
  rw [List.dropWhile_append_of_pos (List.all_eq_true.1 ws.blank), hc, List.cons_append,
    List.dropWhile_cons, if_neg (Bool.eq_false_iff.1 (v.not_blank hc))]

theorem trimmed_padded (ws ws' : Blanks) (v : Value) :
    trimmed (ws.bytes ++ v.bytes ++ ws'.bytes) =
      if v.bytes = [] then .ok none
      else if ws'.bytes = [] then .ok (some v.bytes) else .error (.badPointer "*end_pos") := by
  unfold trimmed
  by_cases hv : v.bytes = []
  · rw [if_pos hv, if_pos (by rw [hv, List.append_nil, List.all_append, ws.blank, ws'.blank]; rfl)]
  · have hall : (ws.bytes ++ v.bytes ++ ws'.bytes).all isBlank = false := by
      obtain ⟨c, v', hc⟩ := List.exists_cons_of_ne_nil hv
      simp [hc, v.not_blank hc]
    rw [hall, if_neg Bool.false_ne_true, if_neg hv, List.append_assoc, dropWhile_padded ws v hv]
    by_cases hws : ws'.bytes = []
    · have hlast := v.last
      rw [if_pos hws, hws, List.append_nil, List.getLast?_append_of_ne_nil _ hv, hlast]
      rfl
    · have hlast : ((ws.bytes ++ (v.bytes ++ ws'.bytes)).getLast?).any isBlank = true := by
        rw [← List.append_assoc, List.getLast?_append_of_ne_nil _ hws,
          List.getLast?_eq_some_getLast hws]
        exact List.all_eq_true.1 ws'.blank _ (List.getLast_mem hws)
      rw [if_neg hws, hlast, if_pos rfl]

theorem trimmed_line_end (s : List UInt8) :
    trimmed (s ++ [10]) = .ok (some ((s ++ [10]).dropWhile isBlank)) := by
  have hall : (s ++ [10]).all isBlank = false := by
    rw [List.all_append]
    exact Bool.and_eq_false_imp.2 fun _ => rfl
  rw [trimmed, hall, List.getLast?_concat]
  rfl

/-! The lines of a file -/

namespace FileLine

variable (l : FileLine)

theorem not_mem_body {c : UInt8} (hws : isBlank c = false) (hc : c = 35 ∨ c = 0 ∨ c = 10) :
    c ∉ l.body.bytes := by
  have hv : ∀ v : Value, c ∉ v.bytes := by
    rintro ⟨v, ⟨h35, h0, h10⟩, -, -⟩
    rcases hc with rfl | rfl | rfl
    · exact h35
    · exact h0
    · exact h10
  have heq : c ≠ 61 := by rcases hc with rfl | rfl | rfl <;> decide
  cases l.body with
  | blank ws => exact ws.not_mem hws
  | entry ws₁ key ws₂ ws₃ value ws₄ =>
    simp [Body.bytes, Blanks.not_mem _ hws, hv, heq]

theorem newline_not_mem : 10 ∉ l.text := by
  have hcr : (10 : UInt8) ∉ l.cr := by unfold cr; split_ifs <;> decide
  have hcomment : (10 : UInt8) ∉ commentBytes l.comment := by
    cases l.comment with
    | none => exact List.not_mem_nil
    | some comment => simp [commentBytes, comment.plain.2]
  simp [text, hcr, hcomment, l.not_mem_body (c := 10) (by decide) (by decide)]

theorem nul_not_mem : 0 ∉ l.text ++ [10] := by
  have hcr : (0 : UInt8) ∉ l.cr := by unfold cr; split_ifs <;> decide
  have hcomment : (0 : UInt8) ∉ commentBytes l.comment := by
    cases l.comment with
    | none => exact List.not_mem_nil
    | some comment => simp [commentBytes, comment.plain.1]
  simp [text, hcr, hcomment, l.not_mem_body (c := 0) (by decide) (by decide)]

theorem uncommented_line : uncommented (l.text ++ [10]) =
    l.body.bytes ++ if l.comment.isNone then l.cr ++ [10] else [] := by
  have hwhole : (l.text ++ [10]).takeWhile (· ≠ 0) = l.text ++ [10] :=
    List.takeWhile_eq_self_iff.2 fun x hx => decide_eq_true fun he => l.nul_not_mem (he ▸ hx)
  have hbody : 35 ∉ l.body.bytes := l.not_mem_body (by decide) (by decide)
  rw [uncommented, hwhole, takeWhile_cutAt, text]
  cases l.comment with
  | some comment =>
    rw [commentBytes, List.append_assoc, List.append_assoc, List.cons_append, cutAt_append hbody]
    simp
  | none =>
    have hcr : (35 : UInt8) ∉ l.cr := by unfold cr; split_ifs <;> decide
    have hnone : cutAt 35 (l.body.bytes ++ commentBytes none ++ l.cr ++ [10]) = none := by
      rw [cutAt_eq_none]
      simp [commentBytes, hbody, hcr]
    rw [hnone]
    simp [commentBytes]

end FileLine

theorem loadText_blank {l : FileLine} {ws : Blanks} (hb : l.body = .blank ws) (m : ConfigMap) :
    loadText m (l.text ++ [10]) =
      if l.comment.isSome = true ∧ ws.bytes = [] then .ok m else .error (.badPointer "*p") := by
  have hws : 61 ∉ ws.bytes := ws.not_mem (by decide)
  have hcr : (61 : UInt8) ∉ l.cr := by unfold FileLine.cr; split_ifs <;> decide
  have hcut : cutAt 61 (l.body.bytes ++ if l.comment.isNone then l.cr ++ [10] else []) = none := by
    rw [cutAt_eq_none, hb]
    split_ifs <;> simp [Body.bytes, hws, hcr]
  rw [loadText, l.uncommented_line, enter, hcut, hb]
  cases l.comment with
  | none => simp [Body.bytes]
  | some comment => by_cases hnil : ws.bytes = [] <;> simp [Body.bytes, hnil]

theorem loadText_entry {l : FileLine} {ws₁ ws₂ ws₃ ws₄ : Blanks} {key : Key} {value : Value}
    (hb : l.body = .entry ws₁ key ws₂ ws₃ value ws₄) (m : ConfigMap) :
    loadText m (l.text ++ [10]) = (do
      let key ← trimmed (ws₁.bytes ++ key.bytes ++ ws₂.bytes)
      let value ← trimmed (ws₃.bytes ++ value.bytes ++ ws₄.bytes ++
        if l.comment.isNone then l.cr ++ [10] else [])
      return entered m key value) := by
  have hws : ∀ ws : Blanks, 61 ∉ ws.bytes := fun ws => ws.not_mem (by decide)
  have hkey : 61 ∉ ws₁.bytes ++ key.bytes ++ ws₂.bytes := by simp [hws, key.noEq]
  rw [loadText, l.uncommented_line, hb, if_neg (by simp [Body.bytes]), enter, Body.bytes,
    List.append_assoc, List.cons_append, cutAt_append hkey]

theorem loadText_line (l : FileLine) (m : ConfigMap) :
    (l.Sound → loadText m (l.text ++ [10]) = .ok (l.enterInto m)) ∧
      (¬ l.Sound → ∃ e, loadText m (l.text ++ [10]) = .error e) := by
  cases hb : l.body with
  | blank ws =>
    have hloaded : l.loaded = none := by rw [FileLine.loaded, hb]
    rw [loadText_blank hb, FileLine.Sound, FileLine.enterInto, hloaded, hb]
    exact ⟨fun h => if_pos h, fun h => ⟨_, if_neg h⟩⟩
  | entry ws₁ key ws₂ ws₃ value ws₄ =>
    rw [loadText_entry hb, FileLine.Sound, FileLine.enterInto, FileLine.loaded, hb,
      trimmed_padded ws₁ ws₂ key.toValue]
    cases hc : l.comment with
    | none =>
      simp only [Option.isNone_none, if_true, ← List.append_assoc, trimmed_line_end]
      by_cases hk : key.bytes = []
      · simp [hk, entered, ok_bind, pure, Except.pure]
      · by_cases hws : ws₂.bytes = []
        · simp [hk, hws, entered, ok_bind, pure, Except.pure]
        · simp [hk, hws, bind, Except.bind]
    | some comment =>
      simp only [Option.isNone_some, Bool.false_eq_true, if_false, List.append_nil, trimmed_padded]
      by_cases hk : key.bytes = [] <;> by_cases hws : ws₂.bytes = [] <;>
        by_cases hv : value.bytes = [] <;> by_cases hws' : ws₄.bytes = [] <;>
          simp [hk, hws, hv, hws', entered, bind, Except.bind, pure, Except.pure]

/-! The file -/

def FileLine.chunks (l : FileLine) : List (List UInt8) :=
  if l.text.length < 255 then [l.text ++ [10]] else [l.text, [10]]

theorem lines_fileOf {ls : List FileLine} {rounds : ℕ} (h : (fileOf ls).length ≤ rounds) :
    lines 10 255 rounds (fileOf ls) = ls.flatMap FileLine.chunks := by
  induction ls generalizing rounds with
  | nil => cases rounds <;> rfl
  | cons l ls ih =>
    have hfile : fileOf (l :: ls) = l.text ++ 10 :: fileOf ls := by simp [fileOf]
    have hne : l.text ++ 10 :: fileOf ls ≠ [] := by simp
    have hlen : l.text.length ≤ 255 := by
      have hshort := l.short
      have hcr : l.cr.length ≤ 1 := by unfold FileLine.cr; split_ifs <;> simp
      rw [FileLine.text, List.length_append]
      omega
    rw [hfile, List.length_append, List.length_cons] at h
    obtain ⟨rounds, rfl⟩ : ∃ k, rounds = k + 1 := ⟨rounds - 1, by omega⟩
    rw [hfile, List.flatMap_cons, FileLine.chunks, lines, if_neg hne]
    split_ifs with hfit
    · have hrest : lines 10 255 rounds (fileOf ls) = ls.flatMap FileLine.chunks := ih (by omega)
      rw [line_whole l.newline_not_mem hfit]
      simp only [hrest, List.singleton_append]
    · have hfull := line_full l.newline_not_mem (10 :: fileOf ls)
      have hmax : l.text.length = 255 := by omega
      rw [hmax] at hfull
      obtain ⟨rounds, rfl⟩ : ∃ k, rounds = k + 1 := ⟨rounds - 1, by omega⟩
      have hrest : lines 10 255 rounds (fileOf ls) = ls.flatMap FileLine.chunks := ih (by omega)
      have hend : line 10 255 (10 :: fileOf ls) = ([10], fileOf ls) := if_pos rfl
      rw [hfull]
      simp only [lines, hend, reduceCtorEq, if_false, hrest, List.cons_append, List.nil_append]

theorem foldlM_chunks (l : FileLine) (m : ConfigMap) :
    (l.Harmless → l.chunks.foldlM loadText m = .ok (l.enterInto m)) ∧
      (¬ l.Harmless → ∃ e, l.chunks.foldlM loadText m = .error e) := by
  obtain ⟨hok, herr⟩ := loadText_line l m
  unfold FileLine.chunks FileLine.Harmless
  by_cases hfit : l.text.length < 255
  · rw [if_pos hfit, and_iff_right hfit]
    have hone : [l.text ++ [10]].foldlM loadText m = loadText m (l.text ++ [10]) := by
      rw [List.foldlM_cons]
      cases loadText m (l.text ++ [10]) <;> rfl
    rw [hone]
    exact ⟨hok, herr⟩
  · rw [if_neg hfit]
    refine ⟨fun h => absurd h.1 hfit, fun _ => ?_⟩
    rw [List.foldlM_cons]
    cases loadText m l.text with
    | error e => exact ⟨e, rfl⟩
    | ok m' => exact ⟨_, rfl⟩

/-- Lines that are harmless do to the map what they do one by one; another line is the
end of it. -/
theorem foldlM_fileOf (ls : List FileLine) (m : ConfigMap) :
    ((∀ l ∈ ls, l.Harmless) → (ls.flatMap FileLine.chunks).foldlM loadText m =
        .ok (ls.foldl FileLine.enterInto m)) ∧
      (¬ (∀ l ∈ ls, l.Harmless) → ∃ e, (ls.flatMap FileLine.chunks).foldlM loadText m = .error e) := by
  induction ls generalizing m with
  | nil => exact ⟨fun _ => rfl, fun h => absurd (by simp) h⟩
  | cons l ls ih =>
    obtain ⟨hok, herr⟩ := foldlM_chunks l m
    rw [List.flatMap_cons, List.foldlM_append, List.forall_mem_cons]
    by_cases hl : l.Harmless
    · rw [hok hl, ok_bind, and_iff_right hl]
      exact ih _
    · obtain ⟨e, he⟩ := herr hl
      rw [he]
      exact ⟨fun h => absurd h.1 hl, fun _ => ⟨e, rfl⟩⟩

/-! The map -/

def FileLine.loads (k : List UInt8) (l : FileLine) : Option (List UInt8) :=
  l.loaded.bind fun entry => if entry.1 = k then some entry.2 else none

theorem foldl_enterInto (ls : List FileLine) (m : ConfigMap) (k : List UInt8) :
    (ls.foldl FileLine.enterInto m)[k]? = (ls.reverse.findSome? (FileLine.loads k)).or m[k]? := by
  induction ls generalizing m with
  | nil => rfl
  | cons l ls ih =>
    have hone : (l.enterInto m)[k]? = (l.loads k).or m[k]? := by
      unfold FileLine.enterInto FileLine.loads
      cases l.loaded with
      | none => rfl
      | some entry =>
        simp only [Option.bind_some, Std.ExtTreeMap.getElem?_insert, Std.compare_eq_iff_eq]
        split_ifs <;> rfl
    rw [List.foldl_cons, ih, hone, List.reverse_cons, List.findSome?_append, List.findSome?_singleton,
      Option.or_assoc]

theorem mem_dropWhile {c : UInt8} (hc : isBlank c = false) (h : c ∈ s) : c ∈ s.dropWhile isBlank := by
  rw [← List.takeWhile_append_dropWhile (p := isBlank) (l := s), List.mem_append] at h
  refine h.resolve_left fun hin => ?_
  rw [List.mem_takeWhile_imp hin] at hc
  cases hc

theorem FileLine.loads_cases {k v : List UInt8} {l : FileLine} (h : l.loads k = some v) :
    l.comment.isSome = true ∧ l.assigns k = some v ∨ l.comment.isSome = false ∧ 10 ∈ v := by
  unfold loads loaded at h
  unfold assigns
  cases hb : l.body with
  | blank ws => rw [hb] at h; cases h
  | entry ws₁ key ws₂ ws₃ value ws₄ =>
    rw [hb] at h
    by_cases hk : key.bytes = []
    · simp [hk] at h
    · cases hc : l.comment with
      | none =>
        right
        simp only [hk, hc, Option.isNone_none, if_true, if_false, Option.bind_some] at h
        split_ifs at h
        cases h
        exact ⟨rfl, mem_dropWhile (by decide) (List.mem_append_right _ (List.mem_singleton_self 10))⟩
      | some comment =>
        left
        simp only [hk, hc, Option.isNone_some, Bool.false_eq_true, if_false] at h
        by_cases hv : value.bytes = []
        · simp [hv] at h
        · simp only [hv, if_false, Option.bind_some] at h
          split_ifs at h with hkey
          cases h
          exact ⟨rfl, if_pos ⟨hkey, hk, hv⟩⟩

theorem FileLine.enters_eq (k : List UInt8) (l : FileLine) : l.enters k = (l.loads k).isSome := by
  unfold enters loads loaded
  cases l.body with
  | blank ws => rfl
  | entry ws₁ key ws₂ ws₃ value ws₄ =>
    by_cases hk : key.bytes = []
    · simp [hk]
    · by_cases hkey : key.bytes = k
      · subst hkey
        by_cases hv : value.bytes = [] <;> cases l.comment <;> simp [hk, hv]
      · by_cases hv : value.bytes = [] <;> cases l.comment <;> simp [hk, hkey, hv]

theorem FileLine.assigns_ok {k v : List UInt8} {l : FileLine} (h : l.assigns k = some v) :
    10 ∉ v ∧ (l.loads k).isSome = true := by
  unfold assigns at h
  unfold loads loaded
  cases hb : l.body with
  | blank ws => rw [hb] at h; cases h
  | entry ws₁ key ws₂ ws₃ value ws₄ =>
    rw [hb] at h
    simp only at h
    split_ifs at h with hkey
    obtain ⟨rfl, hne, hv⟩ := hkey
    cases h
    refine ⟨value.plain.2.2, ?_⟩
    cases l.comment <;> simp [hne, hv]

theorem findSome_loads_iff (k : List UInt8) (ls : List FileLine) :
    ls.findSome? (FileLine.loads k) = ls.findSome? (FileLine.assigns k) ↔
      ∀ l, ls.find? (FileLine.enters k) = some l → l.comment.isSome = true := by
  induction ls with
  | nil => simp
  | cons l ls ih =>
    rw [List.findSome?_cons, List.findSome?_cons, List.find?_cons, l.enters_eq k]
    cases hl : l.loads k with
    | none =>
      have hassigns : l.assigns k = none := by
        cases ha : l.assigns k with
        | none => rfl
        | some v =>
          have := (FileLine.assigns_ok ha).2
          rw [hl] at this
          cases this
      simp only [hassigns]
      exact ih
    | some v =>
      simp only [Option.isSome_some, Option.some.injEq, forall_eq']
      rcases FileLine.loads_cases hl with ⟨hc, ha⟩ | ⟨hc, hnl⟩
      · rw [ha]
        exact iff_of_true rfl hc
      · refine iff_of_false (fun he => ?_) (by rw [hc]; decide)
        have hclean : ∀ v, (l :: ls).findSome? (FileLine.assigns k) = some v → 10 ∉ v := fun v hv => by
          obtain ⟨l', -, hl'⟩ := List.exists_of_findSome?_eq_some hv
          exact (FileLine.assigns_ok hl').1
        rw [← List.findSome?_cons] at he
        exact hclean v he.symm hnl

/-- A well-formed file is parsed as it should be exactly when its lines are harmless and, for
every key, the last line from which something is entered has a comment. -/
theorem parses_iff (name : List UInt8) (ls : List FileLine) (buf : List UInt8) :
    Parses name ls buf ↔ (∀ l ∈ ls, l.Harmless) ∧ EndsCommented ls := by
  unfold Parses
  simp only [loadFile_ok_iff, lines_fileOf le_rfl]
  obtain ⟨hok, herr⟩ := foldlM_fileOf ls ∅
  by_cases hall : ∀ l ∈ ls, l.Harmless
  · rw [and_iff_right hall, hok hall]
    have hmap : ∀ k, (ls.foldl FileLine.enterInto ∅)[k]? = ls.reverse.findSome? (FileLine.loads k) := by
      intro k
      rw [foldl_enterInto, Std.ExtTreeMap.getElem?_empty, Option.or_none]
    unfold EndsCommented
    simp only [← findSome_loads_iff, ← hmap]
    constructor
    · rintro ⟨r', ⟨m', hm', rfl⟩, hparsed⟩
      cases hm'
      exact hparsed
    · intro hparsed
      exact ⟨_, ⟨_, rfl, rfl⟩, hparsed⟩
  · refine iff_of_false ?_ fun h => hall h.1
    rintro ⟨r', ⟨m', hm', -⟩, -⟩
    obtain ⟨e, he⟩ := herr hall
    rw [he] at hm'
    cases hm'

/-- The line `k=1`: the end of the line becomes part of the value. -/
theorem parses_keeps_line_end : ¬ Parses [] [⟨.entry ⟨[], rfl⟩ ⟨⟨[107], by decide, rfl, rfl⟩, by decide⟩
    ⟨[], rfl⟩ ⟨[], rfl⟩ ⟨[49], by decide, rfl, rfl⟩ ⟨[], rfl⟩, none, false, by decide⟩] [] := by
  rintro ⟨r', hr', hparsed⟩
  cases hr'
  have hk := hparsed [107]
  revert hk
  decide

end Czy.ConfigureFileReader
