import Czy.Lib.Search

/-! Streams of frames that end with a delimiter. The frames are determined by the stream, and
are found in whatever pieces it arrives. -/

namespace Framing

open Search

variable {α : Type*} [DecidableEq α]

/-- The stream begins with these frames, each up to the first delimiter behind those before. -/
structure Frames (pat s : List α) (frames : List (List α)) (rest : List α) : Prop where
  joins : (frames.map (· ++ pat)).flatten ++ rest = s
  first : ∀ frame ∈ frames, search pat (frame ++ pat) = frame.length

variable {pat s t frame rest rest' : List α} {frames frames' : List (List α)} {j : ℕ}

theorem search_eq (hat : pat <+: s.drop j) (hj : j < s.length) (hbefore : ∀ i < j, ¬ pat <+: s.drop i) :
    search pat s = j := by
  rcases Nat.lt_trichotomy (search pat s) j with hlt | heq | hlt
  · exact absurd (prefix_at_search (hlt.trans hj)) (hbefore _ hlt)
  · exact heq
  · exact absurd hat (not_prefix_before hlt)

/-- What comes behind a delimiter does not move it. -/
theorem search_append (hpat : pat ≠ []) (h : search pat (frame ++ pat) = frame.length) (t : List α) :
    search pat (frame ++ pat ++ t) = frame.length := by
  have hpos := List.length_pos_iff.2 hpat
  refine search_eq ?_ ?_ fun i hi hocc => ?_
  · rw [List.append_assoc, List.drop_left]
    exact List.prefix_append _ _
  · rw [List.length_append, List.length_append]
    omega
  · rw [List.drop_append_of_le_length (by rw [List.length_append]; omega)] at hocc
    have hlen : pat.length ≤ ((frame ++ pat).drop i).length := by
      rw [List.length_drop, List.length_append]
      omega
    exact not_prefix_before (h ▸ hi)
      (List.prefix_of_prefix_length_le hocc (List.prefix_append _ t) hlen)

theorem search_take (hpat : pat ≠ []) (h : search pat s < s.length) :
    s = s.take (search pat s) ++ pat ++ s.drop (search pat s + pat.length) ∧
      search pat (s.take (search pat s) ++ pat) = (s.take (search pat s)).length := by
  obtain ⟨t, ht⟩ := prefix_at_search h
  have hlen : (s.take (search pat s)).length = search pat s := List.length_take_of_le h.le
  have hsplit : s.take (search pat s) ++ pat ++ t = s := by
    rw [List.append_assoc, ht, List.take_append_drop]
  have htail : s.drop (search pat s + pat.length) = t := by
    rw [← List.drop_drop, ← ht, List.drop_left]
  refine ⟨by rw [htail, hsplit], ?_⟩
  rw [hlen]
  refine search_eq ?_ ?_ fun i hi hocc => ?_
  · rw [List.drop_append_of_le_length hlen.ge, List.drop_of_length_le hlen.le, List.nil_append]
  · rw [List.length_append, hlen]
    exact Nat.lt_add_of_pos_right (List.length_pos_iff.2 hpat)
  · have hfront : s.take (search pat s) ++ pat <+: s := ⟨t, hsplit⟩
    exact not_prefix_before hi (hocc.trans (hfront.drop i))

theorem Frames.nil (pat s : List α) : Frames pat s [] s := ⟨rfl, nofun⟩

theorem Frames.append (h : Frames pat s frames rest) (t : List α) :
    Frames pat (s ++ t) frames (rest ++ t) :=
  ⟨by rw [← List.append_assoc, h.joins], h.first⟩

theorem Frames.next (hpat : pat ≠ []) (h : Frames pat s frames rest)
    (hlt : search pat rest < rest.length) :
    Frames pat s (frames ++ [rest.take (search pat rest)]) (rest.drop (search pat rest + pat.length)) := by
  obtain ⟨hsplit, hfirst⟩ := search_take hpat hlt
  refine ⟨?_, fun frame hframe => ?_⟩
  · rw [List.map_append, List.flatten_append, List.map_singleton, List.flatten_singleton, List.append_assoc,
      ← hsplit, h.joins]
  · rcases List.mem_append.1 hframe with hframe | hframe
    · exact h.first frame hframe
    · rw [List.mem_singleton.1 hframe]
      exact hfirst

theorem not_drained (hpat : pat ≠ []) (h : Frames pat s [] rest) (h' : Frames pat s (frame :: frames) rest') :
    search pat rest < rest.length := by
  have hsame : frame ++ pat ++ ((frames.map (· ++ pat)).flatten ++ rest') = rest := by
    rw [← List.append_assoc]
    exact h'.joins.trans h.joins.symm
  rw [← hsame, search_append hpat (h'.first frame List.mem_cons_self), List.length_append,
    List.length_append]
  have := List.length_pos_iff.2 hpat
  omega

/-- A stream has one division into frames and a rest without a delimiter. -/
theorem Frames.unique (hpat : pat ≠ []) (h : Frames pat s frames rest)
    (hrest : search pat rest = rest.length) (h' : Frames pat s frames' rest')
    (hrest' : search pat rest' = rest'.length) : frames = frames' ∧ rest = rest' := by
  induction frames generalizing s frames' with
  | nil =>
    cases frames' with
    | nil => exact ⟨rfl, h.joins.trans h'.joins.symm⟩
    | cons frame' frames' =>
      exact absurd hrest (not_drained hpat h h').ne
  | cons frame frames ih =>
    cases frames' with
    | nil => exact absurd hrest' (not_drained hpat h' h).ne
    | cons frame' frames' =>
      have hjoins : frame ++ pat ++ ((frames.map (· ++ pat)).flatten ++ rest) = s := by
        rw [← List.append_assoc]
        exact h.joins
      have hjoins' : frame' ++ pat ++ ((frames'.map (· ++ pat)).flatten ++ rest') = s := by
        rw [← List.append_assoc]
        exact h'.joins
      have hsearch := search_append hpat (h.first frame List.mem_cons_self)
        ((frames.map (· ++ pat)).flatten ++ rest)
      have hsearch' := search_append hpat (h'.first frame' List.mem_cons_self)
        ((frames'.map (· ++ pat)).flatten ++ rest')
      rw [hjoins] at hsearch
      rw [hjoins'] at hsearch'
      have hlen : (frame ++ pat).length = (frame' ++ pat).length := by
        rw [List.length_append, List.length_append, ← hsearch, ← hsearch']
      obtain ⟨hframe, htail⟩ := List.append_inj (hjoins.trans hjoins'.symm) hlen
      obtain ⟨hframes, hrests⟩ := ih ⟨htail, fun f hf => h.first f (List.mem_cons_of_mem _ hf)⟩
        ⟨rfl, fun f hf => h'.first f (List.mem_cons_of_mem _ hf)⟩
      exact ⟨by rw [List.append_cancel_right hframe, hframes], hrests⟩

end Framing
