import Czy.Lib.Run
import Czy.Spec.TimerQueue

/-! The invariant of the timer queue: the two sets name the same live timers, and apart
from them the loop holds those that wait to be added and the batch that has expired. -/

namespace Czy.Net

theorem Entry.eta (e : Entry) : toLex (e.time, e.timer) = e := rfl

theorem Entry.mk_inj {t t' : ℤ} {p p' : ℕ} :
    (toLex (t, p) : Entry) = toLex (t', p') ↔ t = t' ∧ p = p' := by
  rw [EmbeddingLike.apply_eq_iff_eq, Prod.mk.injEq]

theorem ActiveTimer.mk_inj {p p' : ℕ} {s s' : ℤ} :
    (toLex (p, s) : ActiveTimer) = toLex (p', s') ↔ p = p' ∧ s = s' := by
  rw [EmbeddingLike.apply_eq_iff_eq, Prod.mk.injEq]

namespace TimerQueue

/-- The sets hold the same timers, all of them live, each under its own keys. -/
structure InStep (heap : ℕ → Option Timer) (timer : OrderedSet Entry)
    (active : OrderedSet ActiveTimer) : Prop where
  mem_timer : ∀ t p, toLex (t, p) ∈ timer ↔
    ∃ tm, heap p = some tm ∧ tm.expiration = t ∧ toLex (p, tm.sequence) ∈ active
  live : ∀ p s, toLex (p, s) ∈ active → ∃ tm, heap p = some tm ∧ tm.sequence = s

section

variable {heap : ℕ → Option Timer} {timer : OrderedSet Entry} {active : OrderedSet ActiveTimer}

theorem InStep.entry (h : InStep heap timer active) {e : Entry} (he : e ∈ timer) :
    ∃ tm, heap e.timer = some tm ∧ tm.expiration = e.time ∧
      toLex (e.timer, tm.sequence) ∈ active :=
  (h.mem_timer e.time e.timer).1 he

/-- A timer is entered once. -/
theorem InStep.once (h : InStep heap timer active) {t t' : ℤ} {p : ℕ} (ht : toLex (t, p) ∈ timer)
    (ht' : toLex (t', p) ∈ timer) : t = t' := by
  obtain ⟨tm, hp, rfl, -⟩ := (h.mem_timer t p).1 ht
  obtain ⟨tm', hp', rfl, -⟩ := (h.mem_timer t' p).1 ht'
  rw [hp] at hp'
  cases hp'
  rfl

theorem InStep.sequence_unique (h : InStep heap timer active) {p : ℕ} {s s' : ℤ}
    (hs : toLex (p, s) ∈ active) (hs' : toLex (p, s') ∈ active) : s = s' := by
  obtain ⟨tm, hp, rfl⟩ := h.live p s hs
  obtain ⟨tm', hp', rfl⟩ := h.live p s' hs'
  rw [hp] at hp'
  cases hp'
  rfl

def idOf (heap : ℕ → Option Timer) (e : Entry) : ActiveTimer :=
  toLex (e.timer, (heap e.timer).elim 0 Timer.sequence)

theorem idOf_eq {h : ℕ → Option Timer} {e : Entry} {tm : Timer} (hp : h e.timer = some tm) :
    idOf h e = toLex (e.timer, tm.sequence) := by
  rw [idOf, hp]
  rfl

theorem InStep.size_eq (h : InStep heap timer active) : timer.size = active.size := by
  refine OrderedSet.size_eq_of_correspond (idOf heap) ?_ ?_
  · intro e he e' he' heq
    obtain ⟨t, p, rfl⟩ : ∃ t p, e = toLex (t, p) := ⟨e.time, e.timer, rfl⟩
    obtain ⟨t', p', rfl⟩ : ∃ t p, e' = toLex (t, p) := ⟨e'.time, e'.timer, rfl⟩
    obtain rfl : p = p' := (ActiveTimer.mk_inj.1 heq).1
    rw [h.once he he']
  · intro id
    obtain ⟨p, s, rfl⟩ : ∃ p s, id = toLex (p, s) := ⟨id.timer, id.sequence, rfl⟩
    constructor
    · intro hid
      obtain ⟨tm, hp, rfl⟩ := h.live p s hid
      exact ⟨toLex (tm.expiration, p), (h.mem_timer _ _).2 ⟨tm, hp, rfl, hid⟩, idOf_eq hp⟩
    · rintro ⟨e, he, heq⟩
      obtain ⟨tm, hp, -, hactive⟩ := h.entry he
      rw [← heq, idOf_eq hp]
      exact hactive

theorem InStep.update (h : InStep heap timer active) {p : ℕ} (hout : ∀ s, toLex (p, s) ∉ active)
    (x : Option Timer) : InStep (Function.update heap p x) timer active where
  mem_timer t q := by
    rw [h.mem_timer]
    by_cases hq : q = p
    · subst hq
      exact iff_of_false (fun ⟨tm, _, _, hs⟩ => hout _ hs) fun ⟨tm, _, _, hs⟩ => hout _ hs
    · rw [Function.update_of_ne hq]
  live q s hs := by
    have hq : q ≠ p := fun hq => hout s (hq ▸ hs)
    rw [Function.update_of_ne hq]
    exact h.live q s hs

theorem InStep.enter (h : InStep heap timer active) {p : ℕ} {tm : Timer} (hp : heap p = some tm)
    (hout : ∀ s, toLex (p, s) ∉ active) :
    InStep heap (timer.insert (toLex (tm.expiration, p)))
      (active.insert (toLex (p, tm.sequence))) where
  mem_timer t q := by
    rw [OrderedSet.mem_insert, Entry.mk_inj, h.mem_timer]
    constructor
    · rintro (⟨rfl, rfl⟩ | ⟨tm', hq, ht, hs⟩)
      · exact ⟨tm, hp, rfl, OrderedSet.mem_insert.2 (.inl rfl)⟩
      · exact ⟨tm', hq, ht, OrderedSet.mem_insert.2 (.inr hs)⟩
    · rintro ⟨tm', hq, rfl, hs⟩
      rcases OrderedSet.mem_insert.1 hs with heq | hs
      · obtain ⟨rfl, -⟩ := ActiveTimer.mk_inj.1 heq
        rw [hp] at hq
        cases hq
        exact .inl ⟨rfl, rfl⟩
      · exact .inr ⟨tm', hq, rfl, hs⟩
  live q s hs := by
    rcases OrderedSet.mem_insert.1 hs with heq | hs
    · obtain ⟨rfl, rfl⟩ := ActiveTimer.mk_inj.1 heq
      exact ⟨tm, hp, rfl⟩
    · exact h.live q s hs

theorem InStep.leave (h : InStep heap timer active) {p : ℕ} {tm : Timer} (hp : heap p = some tm)
    (hin : toLex (p, tm.sequence) ∈ active) :
    InStep heap (timer.erase (toLex (tm.expiration, p))) (active.erase (toLex (p, tm.sequence))) ∧
      ∀ s, toLex (p, s) ∉ active.erase (toLex (p, tm.sequence)) := by
  have hout : ∀ s, toLex (p, s) ∉ active.erase (toLex (p, tm.sequence)) := by
    intro s hs
    obtain ⟨hne, hs⟩ := OrderedSet.mem_erase.1 hs
    exact hne (by rw [h.sequence_unique hs hin])
  refine ⟨⟨fun t q => ?_, fun q s hs => h.live q s (OrderedSet.mem_erase.1 hs).2⟩, hout⟩
  rw [OrderedSet.mem_erase, h.mem_timer]
  constructor
  · rintro ⟨hne, tm', hq, rfl, hs⟩
    refine ⟨tm', hq, rfl, OrderedSet.mem_erase.2 ⟨fun heq => hne ?_, hs⟩⟩
    obtain ⟨rfl, -⟩ := ActiveTimer.mk_inj.1 heq
    rw [hp] at hq
    cases hq
    rfl
  · rintro ⟨tm', hq, rfl, hs⟩
    refine ⟨fun heq => ?_, tm', hq, rfl, (OrderedSet.mem_erase.1 hs).2⟩
    obtain ⟨-, rfl⟩ := Entry.mk_inj.1 heq
    exact hout _ hs

/-- The loop of `getExpired` finds each expired timer in the other set. -/
theorem eraseActive_ok : ∀ (es : List Entry) (active : OrderedSet ActiveTimer),
    (∀ e ∈ es, ∃ tm, heap e.timer = some tm ∧ toLex (e.timer, tm.sequence) ∈ active) →
    (es.map Entry.timer).Nodup →
    ∃ active', eraseActive heap es active = .ok (active', es.map (idOf heap)) ∧
      ∀ id, id ∈ active' ↔ id ∈ active ∧ id ∉ es.map (idOf heap) := by
  intro es
  induction es with
  | nil => exact fun active _ _ => ⟨active, rfl, by simp⟩
  | cons e es ih =>
    intro active hlive hnodup
    obtain ⟨tm, hp, hin⟩ := hlive e List.mem_cons_self
    obtain ⟨hfresh, hnodup⟩ := List.nodup_cons.1 hnodup
    have hid := idOf_eq hp
    obtain ⟨active', hok, hmem⟩ := ih (active.erase (toLex (e.timer, tm.sequence)))
      (fun e' he' => by
        obtain ⟨tm', hp', hin'⟩ := hlive e' (List.mem_cons_of_mem _ he')
        refine ⟨tm', hp', OrderedSet.mem_erase.2 ⟨fun heq => hfresh ?_, hin'⟩⟩
        rw [← (ActiveTimer.mk_inj.1 heq).1]
        exact List.mem_map_of_mem he') hnodup
    refine ⟨active', ?_, fun id => ?_⟩
    · rw [eraseActive, hp, deref_some, ok_bind, check_bind hin, hok, ok_bind, List.map_cons, hid]
      rfl
    · rw [hmem, OrderedSet.mem_erase, List.map_cons, List.mem_cons, hid, not_or]
      tauto

theorem InStep.below_once (h : InStep heap timer active) (k : Entry) :
    ((timer.below k).map Entry.timer).Nodup := by
  refine List.Nodup.map_on (fun e he e' he' heq => ?_) (timer.below_nodup k)
  have hin := (OrderedSet.mem_below.1 he).1
  have hin' := (OrderedSet.mem_below.1 he').1
  rw [← e.eta] at hin ⊢
  rw [← e'.eta, ← heq] at hin' ⊢
  rw [h.once hin hin']

theorem InStep.take (h : InStep heap timer active) (k : Entry) :
    ∃ active', eraseActive heap (timer.below k) active =
        .ok (active', (timer.below k).map (idOf heap)) ∧
      InStep heap (timer.atLeast k) active' ∧
      ∀ id, id ∈ active' ↔ id ∈ active ∧ id ∉ (timer.below k).map (idOf heap) := by
  have hlive : ∀ e ∈ timer.below k,
      ∃ tm, heap e.timer = some tm ∧ tm.expiration = e.time ∧
        toLex (e.timer, tm.sequence) ∈ active := fun e he =>
    h.entry (OrderedSet.mem_below.1 he).1
  obtain ⟨active', hok, hmem⟩ := eraseActive_ok (timer.below k) active
    (fun e he => by obtain ⟨tm, hp, -, hin⟩ := hlive e he; exact ⟨tm, hp, hin⟩) (h.below_once k)
  refine ⟨active', hok, ⟨fun t p => ?_, fun p s hs => h.live p s ((hmem _).1 hs).1⟩, hmem⟩
  rw [OrderedSet.mem_atLeast, h.mem_timer]
  constructor
  · rintro ⟨⟨tm, hp, rfl, hs⟩, hle⟩
    refine ⟨tm, hp, rfl, (hmem _).2 ⟨hs, fun hid => ?_⟩⟩
    obtain ⟨e, he, heq⟩ := List.mem_map.1 hid
    obtain ⟨hin, hlt⟩ := OrderedSet.mem_below.1 he
    have hsame : e.timer = p := (ActiveTimer.mk_inj.1 heq).1
    rw [← e.eta, hsame] at hin hlt
    rw [h.once hin ((h.mem_timer _ _).2 ⟨tm, hp, rfl, hs⟩)] at hlt
    exact absurd hle (not_le.2 hlt)
  · rintro ⟨tm, hp, rfl, hs⟩
    obtain ⟨hin, hnot⟩ := (hmem _).1 hs
    refine ⟨⟨tm, hp, rfl, hin⟩, not_lt.1 fun hlt => hnot (List.mem_map.2 ⟨toLex (tm.expiration, p), ?_, ?_⟩)⟩
    · exact OrderedSet.mem_below.2 ⟨(h.mem_timer _ _).2 ⟨tm, hp, rfl, hin⟩, hlt⟩
    · exact idOf_eq hp

end

def aside (q : TimerQueue) : List ℕ := (q.batch.getD []).map Entry.timer ++ q.pending

theorem timer_mem_aside {q : TimerQueue} {e : Entry} (he : e ∈ q.batch.getD []) : e.timer ∈ q.aside :=
  List.mem_append_left _ (List.mem_map_of_mem he)

structure Inv (q : TimerQueue) : Prop where
  inStep : InStep q.heap q.timer q.activeTimer
  aside_live : ∀ p ∈ q.aside, ∃ tm, q.heap p = some tm
  aside_out : ∀ p ∈ q.aside, ∀ s, toLex (p, s) ∉ q.activeTimer
  aside_once : q.aside.Nodup
  address : ∀ p tm, q.heap p = some tm → p < uintptrMax
  ids : ∀ p tm, q.heap p = some tm →
    toLex (p, tm.sequence) ∈ q.created ∧ toLex (p, tm.sequence) ∉ q.deleted
  created_once : (q.created.map ActiveTimer.sequence).Nodup
  deleted_created : ∀ id ∈ q.deleted, id ∈ q.created
  deleted_once : q.deleted.Nodup
  batch : ∀ e ∈ q.batch.getD [], ∃ tm, q.heap e.timer = some tm ∧
    toLex (e.timer, tm.sequence) ∈ q.batchIds
  running : ∀ rest b, q.position = .running rest b → (∀ e ∈ rest, e ∈ q.batch.getD []) ∧
    ∀ id ∈ q.batchIds, id.timer ∈ (q.batch.getD []).map Entry.timer ∧
      ∃ tm, q.heap id.timer = some tm ∧ tm.sequence = id.sequence

variable {q q' : TimerQueue} {p : ℕ} {tm : Timer}

theorem new_inv (clock : ℤ) : Inv (new clock) where
  inStep := ⟨fun _ _ => iff_of_false OrderedSet.not_mem_empty nofun,
    fun _ _ hs => absurd hs OrderedSet.not_mem_empty⟩
  aside_live := nofun
  aside_out := nofun
  aside_once := .nil
  address := nofun
  ids := nofun
  created_once := .nil
  deleted_created := nofun
  deleted_once := .nil
  batch := nofun
  running := nofun

def entered (q : TimerQueue) (p : ℕ) (tm : Timer) : TimerQueue :=
  { q with timer := q.timer.insert (toLex (tm.expiration, p))
           activeTimer := q.activeTimer.insert (toLex (p, tm.sequence)) }

def left (q : TimerQueue) (p : ℕ) (tm : Timer) : TimerQueue :=
  { q with timer := q.timer.erase (toLex (tm.expiration, p))
           activeTimer := q.activeTimer.erase (toLex (p, tm.sequence)) }

theorem insert_eq (h : InStep q.heap q.timer q.activeTimer) (hp : q.heap p = some tm)
    (hout : ∀ s, toLex (p, s) ∉ q.activeTimer) (found : Bool) :
    q.insert p (some found) = .ok (q.entered p tm, found) := by
  have hnot : toLex (tm.expiration, p) ∉ q.timer := by
    intro hin
    obtain ⟨tm', -, -, hs⟩ := (h.mem_timer _ _).1 hin
    exact hout _ hs
  rw [insert, check_bind h.size_eq, hp, deref_some, ok_bind, check_bind hnot, check_bind (hout _)]
  rfl

theorem insert_ok {found : Option Bool} {r : TimerQueue × Bool} (h : q.insert p found = .ok r) :
    ∃ tm, q.heap p = some tm ∧ r.1 = q.entered p tm ∧ found = some r.2 := by
  rw [TimerQueue.insert] at h
  obtain ⟨-, -, h⟩ := bind_ok.1 h
  obtain ⟨tm, hp, h⟩ := bind_ok.1 h
  obtain ⟨-, -, h⟩ := bind_ok.1 h
  obtain ⟨-, -, h⟩ := bind_ok.1 h
  obtain ⟨b, hb, h⟩ := bind_ok.1 h
  rw [← Except.ok.inj h]
  exact ⟨tm, deref_ok hp, rfl, missingReturn_ok hb⟩

/-- Without what it ought to return, no call gets to its end. -/
theorem insert_none (r : TimerQueue × Bool) : q.insert p none ≠ .ok r := by
  intro h
  obtain ⟨-, -, -, hfound⟩ := insert_ok h
  cases hfound

namespace Inv

theorem entered (h : Inv q) (hp : q.heap p = some tm) (hout : ∀ s, toLex (p, s) ∉ q.activeTimer)
    (haside : p ∉ q.aside) : Inv (q.entered p tm) :=
  { h with
    inStep := h.inStep.enter hp hout
    aside_out := by
      intro p' hp' s hs
      rcases OrderedSet.mem_insert.1 hs with heq | hs
      · exact haside ((ActiveTimer.mk_inj.1 heq).1 ▸ hp')
      · exact h.aside_out p' hp' s hs }

theorem not_aside (h : Inv q) {s : ℤ} (hin : toLex (p, s) ∈ q.activeTimer) : p ∉ q.aside :=
  fun hp => h.aside_out p hp s hin

theorem left (h : Inv q) (hp : q.heap p = some tm) (hin : toLex (p, tm.sequence) ∈ q.activeTimer) :
    Inv (q.left p tm) :=
  { h with
    inStep := (h.inStep.leave hp hin).1
    aside_out := fun p' hp' s hs => h.aside_out p' hp' s (OrderedSet.mem_erase.1 hs).2 }

theorem updated (h : Inv q) (hout : ∀ s, toLex (p, s) ∉ q.activeTimer) (haside : p ∉ q.aside)
    {x : Option Timer} (hx : ∀ tm', x = some tm' → ∃ tm, q.heap p = some tm ∧
      tm'.sequence = tm.sequence) : Inv { q with heap := Function.update q.heap p x } := by
  have hother : ∀ {p'}, p' ≠ p → Function.update q.heap p x p' = q.heap p' :=
    fun hne => Function.update_of_ne hne _ _
  have hlive : ∀ {p' tm'}, Function.update q.heap p x p' = some tm' →
      ∃ tm, q.heap p' = some tm ∧ tm'.sequence = tm.sequence := by
    intro p' tm' hp'
    by_cases hne : p' = p
    · subst hne
      exact hx tm' (by rw [← hp', Function.update_self])
    · exact ⟨tm', by rw [← hother hne, hp'], rfl⟩
  refine { h with
    inStep := h.inStep.update hout x
    aside_live := fun p' hp' => ?_
    address := fun p' tm' hp' => ?_
    ids := fun p' tm' hp' => ?_
    batch := fun e he => ?_
    running := fun rest b hpos => ?_ }
  · obtain ⟨tm, htm⟩ := h.aside_live p' hp'
    exact ⟨tm, (hother fun heq => haside (heq ▸ hp')).trans htm⟩
  · obtain ⟨tm, htm, -⟩ := hlive hp'
    exact h.address p' tm htm
  · obtain ⟨tm, htm, hseq⟩ := hlive hp'
    rw [hseq]
    exact h.ids p' tm htm
  · obtain ⟨tm, htm, hid⟩ := h.batch e he
    have hne : e.timer ≠ p := fun heq =>
      haside (heq ▸ timer_mem_aside he)
    exact ⟨tm, (hother hne).trans htm, hid⟩
  · obtain ⟨hrest, hids⟩ := h.running rest b hpos
    refine ⟨hrest, fun id hid => ?_⟩
    obtain ⟨hmem, tm, htm, hseq⟩ := hids id hid
    exact ⟨hmem, tm, (hother fun heq => haside (heq ▸ List.mem_append_left _ hmem)).trans htm, hseq⟩

theorem deleted (h : Inv q) (hp : q.heap p = some tm) (hout : ∀ s, toLex (p, s) ∉ q.activeTimer)
    (haside : p ∉ q.aside) : Inv (q.deleteTimer (toLex (p, tm.sequence))) := by
  obtain ⟨hcreated, hnot⟩ := h.ids p tm hp
  have hgone := h.updated hout haside (x := none) nofun
  refine { hgone with
    ids := fun p' tm' hp' => ⟨(hgone.ids p' tm' hp').1, fun hin => ?_⟩
    deleted_created := fun id hid => ?_
    deleted_once := List.nodup_append.2 ⟨h.deleted_once, List.nodup_singleton _,
      fun id hid id' hid' heq => ?_⟩ }
  · rcases List.mem_append.1 hin with hin | hin
    · exact (hgone.ids p' tm' hp').2 hin
    · have hsame : p' = p := (ActiveTimer.mk_inj.1 (List.mem_singleton.1 hin)).1
      have hnone : Function.update q.heap p none p' = none := by rw [hsame, Function.update_self]
      exact Option.some_ne_none tm' (hp'.symm.trans hnone)
  · rcases List.mem_append.1 hid with hid | hid
    · exact h.deleted_created id hid
    · rw [List.mem_singleton.1 hid]
      exact hcreated
  · rw [List.mem_singleton.1 hid'] at heq
    exact hnot (heq ▸ hid)

theorem created (h : Inv q) (hp : q.heap p = none) (haddr : p < uintptrMax) {s : ℤ}
    (hfresh : ∀ id ∈ q.created, id.sequence ≠ s) (whenAt interval : ℤ) (repeats : Bool) :
    Inv (q.newTimer p s whenAt interval repeats) := by
  have hnot : p ∉ q.aside := fun hin => by
    obtain ⟨tm, htm⟩ := h.aside_live p hin
    rw [hp] at htm
    cases htm
  have hout : ∀ s', toLex (p, s') ∉ q.activeTimer := fun s' hs' => by
    obtain ⟨tm, htm, -⟩ := h.inStep.live p s' hs'
    rw [hp] at htm
    cases htm
  have haside : (q.newTimer p s whenAt interval repeats).aside = q.aside ++ [p] :=
    (List.append_assoc _ _ _).symm
  have hself : (q.newTimer p s whenAt interval repeats).heap p =
      some ⟨whenAt, interval, repeats, s⟩ := Function.update_self _ _ _
  have hother : ∀ {p'}, p' ≠ p → (q.newTimer p s whenAt interval repeats).heap p' = q.heap p' :=
    fun hne => Function.update_of_ne hne _ _
  have hid : ∀ id ∈ q.created, id ≠ toLex (p, s) := fun id hid heq => hfresh id hid (heq ▸ rfl)
  refine ⟨h.inStep.update hout _, ?_, ?_, ?_, ?_, ?_, ?_, ?_, h.deleted_once, ?_, ?_⟩
  · intro p' hp'
    rw [haside, List.mem_append, List.mem_singleton] at hp'
    rcases hp' with hp' | rfl
    · rw [hother fun heq => hnot (heq ▸ hp')]
      exact h.aside_live p' hp'
    · exact ⟨_, hself⟩
  · intro p' hp' s'
    rw [haside, List.mem_append, List.mem_singleton] at hp'
    rcases hp' with hp' | rfl
    · exact h.aside_out p' hp' s'
    · exact hout s'
  · rw [haside]
    refine List.nodup_append.2 ⟨h.aside_once, List.nodup_singleton _, fun p' hp' p'' hp'' heq => ?_⟩
    rw [List.mem_singleton.1 hp''] at heq
    exact hnot (heq ▸ hp')
  · intro p' tm' hp'
    by_cases hne : p' = p
    · rw [hne]
      exact haddr
    · rw [hother hne] at hp'
      exact h.address p' tm' hp'
  · intro p' tm' hp'
    by_cases hne : p' = p
    · subst hne
      rw [hself] at hp'
      cases hp'
      exact ⟨List.mem_append_right _ (List.mem_singleton_self _), fun hin =>
        hid _ (h.deleted_created _ hin) rfl⟩
    · rw [hother hne] at hp'
      exact ⟨List.mem_append_left _ (h.ids p' tm' hp').1, (h.ids p' tm' hp').2⟩
  · change ((q.created ++ [toLex (p, s)]).map ActiveTimer.sequence).Nodup
    rw [List.map_append]
    refine List.nodup_append.2 ⟨h.created_once, List.nodup_singleton _, fun s' hs' s'' hs'' heq => ?_⟩
    obtain ⟨id, hidc, rfl⟩ := List.mem_map.1 hs'
    exact hfresh id hidc (heq.trans (List.mem_singleton.1 hs''))
  · exact fun id hin => List.mem_append_left _ (h.deleted_created id hin)
  · intro e he
    obtain ⟨tm, htm, hidb⟩ := h.batch e he
    have hne : e.timer ≠ p := fun heq =>
      hnot (heq ▸ timer_mem_aside he)
    exact ⟨tm, (hother hne).trans htm, hidb⟩
  · intro rest b hpos
    obtain ⟨hrest, hids⟩ := h.running rest b hpos
    refine ⟨hrest, fun id hidb => ?_⟩
    obtain ⟨hmem, htm⟩ := hids id hidb
    rw [hother fun heq => hnot (heq ▸ List.mem_append_left _ hmem)]
    exact ⟨hmem, htm⟩

theorem fewer (h : Inv q) {pending : List ℕ} {batch : Option (List Entry)}
    (hsub : (aside { q with pending := pending, batch := batch }).Sublist q.aside)
    (hbatch : ∀ e ∈ batch.getD [], e ∈ q.batch.getD [])
    (hsame : batch = q.batch ∨ q.position = .outside) :
    Inv { q with pending := pending, batch := batch } := by
  refine { h with
    aside_live := fun p' hp' => h.aside_live p' (hsub.subset hp')
    aside_out := fun p' hp' => h.aside_out p' (hsub.subset hp')
    aside_once := h.aside_once.sublist hsub
    batch := fun e he => h.batch e (hbatch e he)
    running := fun rest b hrun => ?_ }
  rcases hsame with rfl | hpos
  · exact h.running rest b hrun
  · rw [show q.position = .running rest b from hrun] at hpos
    cases hpos

theorem pop_pending (h : Inv q) (hp : p ∈ q.pending) :
    Inv { q with pending := q.pending.erase p } ∧
      p ∉ aside { q with pending := q.pending.erase p } := by
  have hsub : (aside { q with pending := q.pending.erase p }).Sublist q.aside :=
    (List.Sublist.refl _).append List.erase_sublist
  obtain ⟨hbatch, hpending, hdisj⟩ := List.nodup_append.1 h.aside_once
  refine ⟨h.fewer hsub (fun e he => he) (.inl rfl), fun hin => ?_⟩
  rcases List.mem_append.1 hin with hin | hin
  · exact hdisj p hin p hp rfl
  · exact hpending.not_mem_erase hin

theorem pop_batch (h : Inv q) (hpos : q.position = .outside) {e : Entry} {es : List Entry}
    (hb : q.batch = some (e :: es)) :
    Inv { q with batch := some es } ∧ e.timer ∉ aside { q with batch := some es } := by
  have haside : q.aside = e.timer :: aside { q with batch := some es } := by
    rw [aside, hb]
    rfl
  have hsub : (aside { q with batch := some es }).Sublist q.aside := haside ▸ List.sublist_cons_self _ _
  have honce := h.aside_once
  rw [haside] at honce
  refine ⟨h.fewer hsub (fun e' he' => ?_) (.inr hpos), (List.nodup_cons.1 honce).1⟩
  rw [hb]
  exact List.mem_cons_of_mem _ he'

end Inv

/-! What each operation does. -/

theorem addTimerInLoop_eq (h : Inv q) (hp : p ∈ q.pending) (found : Bool) :
    ∃ tm, q.heap p = some tm ∧ (∀ s, toLex (p, s) ∉ q.activeTimer) ∧
      let q' := entered { q with pending := q.pending.erase p } p tm
      q.addTimerInLoop p (some found) =
        .ok (if found then q'.resetTimerfd tm.expiration else q') ∧ Inv q' := by
  have hin : p ∈ q.aside := List.mem_append_right _ hp
  obtain ⟨tm, htm⟩ := h.aside_live p hin
  have hout := h.aside_out p hin
  obtain ⟨hpop, hnot⟩ := h.pop_pending hp
  refine ⟨tm, htm, hout, ?_, hpop.entered htm hout hnot⟩
  rw [addTimerInLoop, insert_eq (q := { q with pending := q.pending.erase p }) hpop.inStep htm hout
    found, ok_bind]
  cases found with
  | false => rfl
  | true =>
    change (deref (q.heap p) "timer" >>= _) = _
    rw [htm, deref_some, ok_bind]
    rfl

theorem cancelInLoop_active (h : Inv q) {id : ActiveTimer} (hin : id ∈ q.activeTimer) :
    ∃ tm, q.heap id.timer = some tm ∧ tm.sequence = id.sequence ∧
      q.cancelInLoop id = .ok ((q.left id.timer tm).deleteTimer id) ∧
      Inv ((q.left id.timer tm).deleteTimer id) := by
  obtain ⟨tm, hp, hseq⟩ := h.inStep.live id.timer id.sequence hin
  have hid : toLex (id.timer, tm.sequence) = id := by rw [hseq]; rfl
  have hin' : toLex (id.timer, tm.sequence) ∈ q.activeTimer := hid.symm ▸ hin
  have hleft := h.left hp hin'
  have hgone := hleft.deleted (p := id.timer) hp (h.inStep.leave hp hin').2 (h.not_aside hin')
  rw [hid] at hgone
  refine ⟨tm, hp, hseq, ?_, hgone⟩
  have hmem : toLex (tm.expiration, id.timer) ∈ q.timer :=
    (h.inStep.mem_timer _ _).2 ⟨tm, hp, rfl, hin'⟩
  have hstate : { q.deleteTimer id with
      timer := q.timer.erase (toLex (tm.expiration, id.timer))
      activeTimer := q.activeTimer.erase id } = (q.left id.timer tm).deleteTimer id := by
    rw [left, hid]
    rfl
  have hsize := hgone.inStep.size_eq
  rw [← hstate] at hsize ⊢
  rw [cancelInLoop, check_bind h.inStep.size_eq, if_pos hin, hp, deref_some, ok_bind, check_bind hmem]
  exact check_bind hsize _ _

theorem cancelInLoop_other (h : Inv q) {id : ActiveTimer} (hin : id ∉ q.activeTimer) :
    q.cancelInLoop id = .ok (if q.callingExpiredTimers then
      { q with cancelingTimer := q.cancelingTimer.insert id } else q) := by
  rw [cancelInLoop, check_bind h.inStep.size_eq, if_neg hin]
  split <;> rfl

def sentryAt (now : ℤ) : Entry := toLex (now, uintptrMax)

def sentry (q : TimerQueue) : Entry := toLex (q.now, uintptrMax)

/-- The entries before a sentry are those that have expired. -/
theorem lt_sentry_iff {e : Entry} (haddr : e.timer < uintptrMax) (now : ℤ) :
    e < sentryAt now ↔ e.time ≤ now := by
  change toLex (e.time, e.timer) < toLex (now, uintptrMax) ↔ _
  rw [Prod.Lex.toLex_lt_toLex]
  constructor
  · rintro (hlt | ⟨heq, -⟩)
    · exact hlt.le
    · exact heq.le
  · intro hle
    rcases hle.lt_or_eq with hlt | heq
    · exact .inl hlt
    · exact .inr ⟨heq, haddr⟩

theorem Inv.entry_address (h : Inv q) {e : Entry} (he : e ∈ q.timer) : e.timer < uintptrMax := by
  obtain ⟨tm, hp, -, -⟩ := h.inStep.entry he
  exact h.address e.timer tm hp

theorem expired_iff (h : Inv q) {e : Entry} (he : e ∈ q.timer) :
    e < q.sentry ↔ e.time ≤ q.now := lt_sentry_iff (h.entry_address he) q.now

theorem getExpired_eq (h : InStep q.heap q.timer q.activeTimer) (now : ℤ) :
    ∃ active, q.getExpired now = .ok
        { q with
          timer := q.timer.atLeast (sentryAt now)
          activeTimer := active
          batch := some (q.timer.below (sentryAt now))
          batchIds := (q.timer.below (sentryAt now)).map (idOf q.heap) } ∧
      InStep q.heap (q.timer.atLeast (sentryAt now)) active ∧
      ∀ id, id ∈ active ↔
        id ∈ q.activeTimer ∧ id ∉ (q.timer.below (sentryAt now)).map (idOf q.heap) := by
  obtain ⟨active, hok, hstep, hmem⟩ := h.take (sentryAt now)
  refine ⟨active, ?_, hstep, hmem⟩
  have hend : ∀ e ∈ (q.timer.atLeast (sentryAt now)).first, now ≤ Entry.time e := by
    intro e he
    have hle := (OrderedSet.mem_atLeast.1 (OrderedSet.first_mem he)).2
    change toLex (now, uintptrMax) ≤ toLex (Entry.time e, Entry.timer e) at hle
    rcases Prod.Lex.toLex_le_toLex.1 hle with hlt | ⟨heq, -⟩
    · exact hlt.le
    · exact heq.le
  rw [getExpired, check_bind h.size_eq]
  change (check (∀ e ∈ (q.timer.atLeast (sentryAt now)).first, now ≤ Entry.time e) _ >>= _) = _
  rw [check_bind hend]
  change (eraseActive q.heap (q.timer.below (sentryAt now)) q.activeTimer >>= _) = _
  rw [hok, ok_bind]
  exact check_bind hstep.size_eq _ _

def reading (q : TimerQueue) (active : OrderedSet ActiveTimer) : TimerQueue :=
  { q with
    timer := q.timer.atLeast q.sentry
    activeTimer := active
    callingExpiredTimers := true
    cancelingTimer := .empty
    batch := some (q.timer.below q.sentry)
    position := .running (q.timer.below q.sentry) false
    readable := false
    batchIds := (q.timer.below q.sentry).map (idOf q.heap) }

theorem handleRead_eq (h : Inv q) :
    ∃ active, q.handleRead = .ok (q.reading active) ∧
      InStep q.heap (q.timer.atLeast q.sentry) active ∧
      ∀ id, id ∈ active ↔ id ∈ q.activeTimer ∧ id ∉ (q.timer.below q.sentry).map (idOf q.heap) := by
  obtain ⟨active, hok, hstep, hmem⟩ := getExpired_eq (q := { q with readable := false }) h.inStep q.now
  refine ⟨active, ?_, hstep, hmem⟩
  rw [handleRead, hok, ok_bind]
  rfl

theorem Inv.reading (h : Inv q) {active : OrderedSet ActiveTimer}
    (hstep : InStep q.heap (q.timer.atLeast q.sentry) active)
    (hmem : ∀ id, id ∈ active ↔ id ∈ q.activeTimer ∧
      id ∉ (q.timer.below q.sentry).map (idOf q.heap)) : Inv (q.reading active) := by
  have hexpired : ∀ e ∈ q.timer.below q.sentry, ∃ tm, q.heap e.timer = some tm ∧
      toLex (e.timer, tm.sequence) ∈ q.activeTimer ∧
      idOf q.heap e = toLex (e.timer, tm.sequence) := by
    intro e he
    obtain ⟨tm, hp, -, hin⟩ := h.inStep.entry (OrderedSet.mem_below.1 he).1
    exact ⟨tm, hp, hin, idOf_eq hp⟩
  obtain ⟨-, hpending, -⟩ := List.nodup_append.1 h.aside_once
  refine { h with
    inStep := hstep
    aside_live := fun p hp => ?_
    aside_out := fun p hp s hs => ?_
    aside_once := List.nodup_append.2 ⟨h.inStep.below_once _, hpending, fun p hp p' hp' heq => ?_⟩
    batch := fun e he => ?_
    running := fun rest b hpos => ⟨?_, fun id hid => ?_⟩ }
  · rcases List.mem_append.1 hp with hp | hp
    · obtain ⟨e, he, rfl⟩ := List.mem_map.1 hp
      obtain ⟨tm, htm, -⟩ := hexpired e he
      exact ⟨tm, htm⟩
    · exact h.aside_live p (List.mem_append_right _ hp)
  · obtain ⟨hin, hnot⟩ := (hmem _).1 hs
    rcases List.mem_append.1 hp with hp | hp
    · obtain ⟨e, he, rfl⟩ := List.mem_map.1 hp
      obtain ⟨tm, -, hactive, hid⟩ := hexpired e he
      rw [h.inStep.sequence_unique hin hactive, ← hid] at hnot
      exact hnot (List.mem_map_of_mem he)
    · exact h.aside_out p (List.mem_append_right _ hp) s hin
  · obtain ⟨e, he, rfl⟩ := List.mem_map.1 hp
    obtain ⟨tm, -, hactive, -⟩ := hexpired e he
    exact h.aside_out p' (List.mem_append_right _ hp') _ (heq ▸ hactive)
  · obtain ⟨tm, htm, -, hide⟩ := hexpired e he
    exact ⟨tm, htm, by rw [← hide]; exact List.mem_map_of_mem he⟩
  · obtain ⟨rfl, -⟩ := ReadPosition.running.inj hpos
    exact fun e he => he
  · obtain ⟨e, he, rfl⟩ := List.mem_map.1 hid
    obtain ⟨tm, htm, -, hide⟩ := hexpired e he
    rw [hide]
    exact ⟨List.mem_map_of_mem he, tm, htm, rfl⟩

theorem runTimer_eq (h : Inv q) {e : Entry} {rest : List Entry}
    (hpos : q.position = .running (e :: rest) false) :
    ∃ tm, q.heap e.timer = some tm ∧ q.runTimer = .ok { q with
      position := .running rest true, ran := q.ran ++ [toLex (e.timer, tm.sequence)] } := by
  have he := (h.running _ _ hpos).1 e List.mem_cons_self
  obtain ⟨tm, htm⟩ := h.aside_live e.timer (timer_mem_aside he)
  refine ⟨tm, htm, ?_⟩
  rw [runTimer, hpos]
  change (deref (q.heap e.timer) _ >>= _) = _
  rw [htm]
  rfl

theorem resetOne_inv (h : Inv q) (hp : q.heap p = some tm) (hout : ∀ s, toLex (p, s) ∉ q.activeTimer)
    (haside : p ∉ q.aside) (now : ℤ) (found : Bool) :
    ∃ q', resetOne (some found) q p now = .ok q' ∧ Inv q' ∧ q'.position = q.position ∧ q'.batch = q.batch := by
  rw [resetOne, hp, deref_some, ok_bind]
  split
  next =>
    have hagain := h.updated hout haside (x := some (tm.restart now))
      fun tm' htm' => ⟨tm, hp, by rw [← Option.some.inj htm']; rfl⟩
    have hlive : Function.update q.heap p (some (tm.restart now)) p = some (tm.restart now) :=
      Function.update_self _ _ _
    rw [insert_eq hagain.inStep hlive hout found, ok_bind]
    exact ⟨_, rfl, hagain.entered hlive hout haside, rfl, rfl⟩
  next => exact ⟨_, rfl, h.deleted hp hout haside, rfl, rfl⟩

theorem resetLoop_inv (now : ℤ) (found : Bool) : ∀ {es : List Entry} {q : TimerQueue}, Inv q →
    q.position = .outside → q.batch = some es → ∃ q', resetLoop (some found) now es q = .ok q' ∧ Inv q' := by
  intro es
  induction es with
  | nil =>
    intro q h hpos hb
    exact ⟨_, rfl, h.fewer (List.sublist_append_right _ _) nofun (.inr hpos)⟩
  | cons e es ih =>
    intro q h hpos hb
    have hin : e.timer ∈ q.aside := by
      rw [aside, hb]
      exact List.mem_cons_self
    obtain ⟨tm, htm⟩ := h.aside_live _ hin
    obtain ⟨hpop, hnot⟩ := h.pop_batch hpos hb
    obtain ⟨q', hok, hq', hpos', hb'⟩ := resetOne_inv hpop htm (h.aside_out _ hin) hnot now found
    rw [resetLoop, hok, ok_bind]
    exact ih hq' (hpos'.trans hpos) hb'

theorem reset_inv (h : Inv q) (hpos : q.position = .outside) (hb : q.batch.isSome) (now : ℤ)
    (found : Bool) : ∃ q', q.reset now (some found) = .ok q' ∧ Inv q' := by
  obtain ⟨es, hes⟩ := Option.isSome_iff_exists.1 hb
  obtain ⟨q', hok, hq'⟩ := resetLoop_inv now found h hpos hes
  rw [reset, hes, Option.getD_some, hok, ok_bind]
  split
  next => exact ⟨q', rfl, hq'⟩
  next e hfirst =>
    obtain ⟨tm, htm, -⟩ := hq'.inStep.entry (OrderedSet.first_mem hfirst)
    rw [htm, deref_some, ok_bind]
    split
    · exact ⟨_, rfl, { hq' with }⟩
    · exact ⟨_, rfl, hq'⟩

theorem mayRun_iff : q.mayRun = true ↔ ∃ e rest, q.position = .running (e :: rest) false := by
  unfold mayRun
  split
  next e rest hpos => exact iff_of_true rfl ⟨e, rest, hpos⟩
  next hne => exact iff_of_false Bool.false_ne_true fun ⟨e, rest, hpos⟩ => hne e rest hpos

theorem inCallback_iff : q.inCallback = true ↔ ∃ rest, q.position = .running rest true := by
  unfold inCallback
  split
  next rest hpos => exact iff_of_true rfl ⟨rest, hpos⟩
  next hne => exact iff_of_false Bool.false_ne_true fun ⟨rest, hpos⟩ => hne rest hpos

/-- No allowed operation fails, and each keeps the invariant. -/
theorem step_inv (q : TimerQueue) (o : TimerOp) (h : Inv q) (ha : q.Allowed o) :
    ∃ q', step q o = .ok q' ∧ Inv q' := by
  cases o with
  | newTimer p s whenAt interval repeats =>
    exact ⟨_, rfl, h.created ha.1 ha.2.1 ha.2.2 whenAt interval repeats⟩
  | addTimerInLoop p found =>
    obtain ⟨tm, -, -, hok, hq'⟩ := addTimerInLoop_eq h ha.2 found
    refine ⟨_, hok, ?_⟩
    split
    · exact { hq' with }
    · exact hq'
  | cancelInLoop id =>
    by_cases hin : id ∈ q.activeTimer
    · obtain ⟨tm, -, -, hok, hq'⟩ := cancelInLoop_active h hin
      exact ⟨_, hok, hq'⟩
    · refine ⟨_, cancelInLoop_other h hin, ?_⟩
      split
      · exact { h with }
      · exact h
  | handleRead =>
    obtain ⟨active, hok, hstep, hmem⟩ := handleRead_eq h
    exact ⟨_, hok, h.reading hstep hmem⟩
  | runTimer =>
    obtain ⟨e, rest, hpos⟩ := mayRun_iff.1 ha
    obtain ⟨tm, -, hok⟩ := runTimer_eq h hpos
    obtain ⟨hrest, hids⟩ := h.running _ _ hpos
    refine ⟨_, hok, { h with running := fun rest' b hpos' => ⟨?_, hids⟩ }⟩
    obtain ⟨rfl, -⟩ := ReadPosition.running.inj hpos'
    exact fun e he => hrest e (List.mem_cons_of_mem _ he)
  | callbackReturns =>
    obtain ⟨rest, hpos⟩ := inCallback_iff.1 ha
    refine ⟨_, rfl, ?_⟩
    rw [callbackReturns, hpos]
    refine { h with running := fun rest' b hpos' => ?_ }
    obtain ⟨rfl, -⟩ := ReadPosition.running.inj hpos'
    exact h.running _ _ hpos
  | endHandleRead => exact ⟨_, rfl, { h with running := nofun }⟩
  | reset now => exact reset_inv h ha.1 ha.2 now false
  | setClock clock =>
    refine ⟨_, rfl, ?_⟩
    unfold setClock
    split
    · split
      · exact { h with }
      · exact { h with }
    · exact { h with }

theorem Inv.step {o : TimerOp} (h : Inv q) (ha : q.Allowed o) (hok : step q o = .ok q') : Inv q' := by
  obtain ⟨q'', hok', hq''⟩ := step_inv q o h ha
  obtain rfl := Except.ok.inj (hok.symm.trans hok')
  exact hq''

theorem run_inv_allowed {os : List TimerOp} (h : Inv q) (ha : StepRun.Along step Allowed q os)
    (hok : StepRun.run step q os = .ok q') : Inv q' :=
  StepRun.run_inv_along (fun _ _ _ h ha hok => h.step ha hok) h ha hok

end TimerQueue

end Czy.Net
