import Mathlib.Data.List.Flatten
import Mathlib.Tactic

/-! Readers of a stream of bytes that store what they read as they go. An exception leaves
what was stored before it. A layout says which bytes a reader takes, what it returns for
them and what it stores; a counted loop reads its items one behind the other. -/

namespace ByteReader

/-- The bytes still to be read, and what has been stored. -/
structure State (δ : Type) where
  bytes : List UInt8
  data : δ

inductive Outcome (ε δ α : Type)
  | value (a : α) (s : State δ)
  | thrown (what : String) (data : δ)
  | fault (e : ε)

def Reader (ε δ α : Type) := State δ → Outcome ε δ α

variable {ε δ α β ρ : Type}

namespace Reader

def bind (p : Reader ε δ α) (f : α → Reader ε δ β) : Reader ε δ β := fun s =>
  match p s with
  | .value a t => f a t
  | .thrown what data => .thrown what data
  | .fault e => .fault e

instance : Monad (Reader ε δ) where
  pure a := fun s => .value a s
  bind := bind

/-- An exception, unless the condition holds. -/
def ensure (c : Prop) [Decidable c] (what : String) : Reader ε δ Unit := fun s =>
  if c then .value () s else .thrown what s.data

def fault (e : ε) : Reader ε δ α := fun _ => .fault e

def modify (store : δ → δ) : Reader ε δ Unit := fun s => .value () ⟨s.bytes, store s.data⟩

/-- `n` bytes, or an exception. -/
def take (n : ℕ) (what : String) : Reader ε δ (List UInt8) := fun s =>
  if n ≤ s.bytes.length then .value (s.bytes.take n) ⟨s.bytes.drop n, s.data⟩
  else .thrown what s.data

/-- `n` times, with the results in order. -/
def times (p : Reader ε δ α) : ℕ → Reader ε δ (List α)
  | 0 => pure []
  | n + 1 => do
    let a ← p
    let as ← times p n
    return a :: as

end Reader

open Reader

section

variable {p : Reader ε δ α} {f : α → Reader ε δ β} {a a' : α} {b : β} {s t : State δ}

theorem pure_value : (pure a : Reader ε δ α) s = .value a' t ↔ a = a' ∧ s = t := by
  constructor
  · intro h
    cases h
    exact ⟨rfl, rfl⟩
  · rintro ⟨rfl, rfl⟩
    rfl

theorem bind_value : (p >>= f) s = .value b t ↔ ∃ a u, p s = .value a u ∧ f a u = .value b t := by
  change Reader.bind p f s = _ ↔ _
  unfold Reader.bind
  cases p s with
  | value a u =>
    refine ⟨fun h => ⟨a, u, rfl, h⟩, ?_⟩
    rintro ⟨a', u', h, h'⟩
    cases h
    exact h'
  | thrown what data => exact ⟨nofun, nofun⟩
  | fault e => exact ⟨nofun, nofun⟩

theorem bind_thrown {what : String} {data : δ} : (p >>= f) s = .thrown what data ↔
    p s = .thrown what data ∨ ∃ a u, p s = .value a u ∧ f a u = .thrown what data := by
  change Reader.bind p f s = _ ↔ _
  unfold Reader.bind
  cases p s with
  | value a u =>
    refine ⟨fun h => .inr ⟨a, u, rfl, h⟩, ?_⟩
    rintro (h | ⟨a', u', h, h'⟩)
    · cases h
    · cases h
      exact h'
  | thrown what' data' =>
    constructor
    · intro h
      cases h
      exact .inl rfl
    · rintro (h | ⟨a', u', h, -⟩)
      · cases h
        rfl
      · cases h
  | fault e =>
    refine ⟨nofun, ?_⟩
    rintro (h | ⟨a', u', h, -⟩) <;> cases h

theorem ensure_value {c : Prop} [Decidable c] {what : String} {u : Unit} :
    (ensure c what : Reader ε δ Unit) s = .value u t ↔ c ∧ s = t := by
  unfold ensure
  split
  next hc =>
    constructor
    · intro h
      cases h
      exact ⟨hc, rfl⟩
    · rintro ⟨-, rfl⟩
      rfl
  next hc => exact ⟨nofun, fun h => absurd h.1 hc⟩

theorem modify_value {store : δ → δ} {u : Unit} :
    (modify store : Reader ε δ Unit) s = .value u t ↔ t = ⟨s.bytes, store s.data⟩ := by
  constructor
  · intro h
    cases h
    rfl
  · rintro rfl
    rfl

end

/-- The bytes of an item, what reading it returns and what it stores. -/
structure Layout (δ ρ α : Type) where
  enc : ρ → List UInt8
  out : ρ → α
  store : ρ → δ → δ

/-- The reader returns exactly on the encodings of the valid items. -/
def Reads (p : Reader ε δ α) (valid : ρ → Prop) (L : Layout δ ρ α) : Prop :=
  ∀ s a t, p s = .value a t ↔
    ∃ r, valid r ∧ s.bytes = L.enc r ++ t.bytes ∧ a = L.out r ∧ t.data = L.store r s.data

namespace Layout

def plain (enc : α → List UInt8) : Layout δ α α := ⟨enc, id, fun _ data => data⟩

def times (L : Layout δ ρ α) : Layout δ (List ρ) (List α) where
  enc rs := rs.flatMap L.enc
  out rs := rs.map L.out
  store rs data := rs.foldl (fun data r => L.store r data) data

theorem plain_times (enc : α → List UInt8) :
    (plain enc).times = (plain fun as => as.flatMap enc : Layout δ (List α) (List α)) := by
  have hstore : ∀ (as : List α) (data : δ), as.foldl (fun data _ => data) data = data := by
    intro as data
    induction as with
    | nil => rfl
    | cons a as ih => exact ih
  simp only [times, plain, List.map_id, hstore]
  rfl

end Layout

theorem reads_take (n : ℕ) (what : String) :
    Reads (take n what : Reader ε δ _) (fun bs => bs.length = n) (Layout.plain fun bs => bs) := by
  intro s bs t
  unfold take
  split
  next hle =>
    constructor
    · intro h
      cases h
      exact ⟨_, List.length_take_of_le hle, (List.take_append_drop n s.bytes).symm, rfl, rfl⟩
    · rintro ⟨_, rfl, hbytes, rfl, hdata⟩
      obtain ⟨rest, data⟩ := t
      simp only [Layout.plain] at hbytes hdata ⊢
      rw [hbytes, List.take_left, List.drop_left, hdata]
  next hlt =>
    refine ⟨nofun, ?_⟩
    rintro ⟨r, rfl, hbytes, -⟩
    rw [hbytes, List.length_append] at hlt
    exact absurd (Nat.le_add_right _ _) hlt

/-- A code of fixed width. -/
theorem reads_fixed {n : ℕ} {what : String} {decode : List UInt8 → α} {enc : α → List UInt8}
    (hlen : ∀ a, (enc a).length = n) (hdec : ∀ a, decode (enc a) = a)
    (henc : ∀ bs, bs.length = n → enc (decode bs) = bs) :
    Reads (do let bs ← take n what; return decode bs : Reader ε δ α) (fun _ => True)
      (Layout.plain enc) := by
  intro s a t
  constructor
  · intro h
    obtain ⟨bs, u, hbs, h⟩ := bind_value.1 h
    obtain ⟨rfl, rfl⟩ := pure_value.1 h
    obtain ⟨_, hn, hbytes, rfl, hdata⟩ := (reads_take n what _ _ _).1 hbs
    refine ⟨decode bs, trivial, ?_, rfl, hdata⟩
    rw [hbytes]
    exact congrArg (· ++ u.bytes) (henc bs hn).symm
  · rintro ⟨_, -, hbytes, rfl, hdata⟩
    refine bind_value.2 ⟨_, t, (reads_take n what _ _ _).2 ⟨_, hlen a, hbytes, rfl, hdata⟩, ?_⟩
    exact pure_value.2 ⟨hdec a, rfl⟩

/-! A read in front of another. -/

section

variable {p : Reader ε δ α} {valid : α → Prop} {enc : α → List UInt8} {f : α → Reader ε δ β}

theorem Reads.of_bind (hp : Reads p valid (Layout.plain enc)) {s t : State δ} {b : β}
    (h : (p >>= f) s = .value b t) :
    ∃ a u, valid a ∧ s.bytes = enc a ++ u.bytes ∧ u.data = s.data ∧ f a u = .value b t := by
  obtain ⟨a, u, ha, h⟩ := bind_value.1 h
  obtain ⟨_, hvalid, hbytes, rfl, hdata⟩ := (hp s a u).1 ha
  exact ⟨_, u, hvalid, hbytes, hdata, h⟩

theorem Reads.bind_enc (hp : Reads p valid (Layout.plain enc)) {a : α} (ha : valid a)
    (rest : List UInt8) (data : δ) : (p >>= f) ⟨enc a ++ rest, data⟩ = f a ⟨rest, data⟩ := by
  have hvalue : p ⟨enc a ++ rest, data⟩ = .value a ⟨rest, data⟩ :=
    (hp _ _ _).2 ⟨a, ha, rfl, rfl, rfl⟩
  change Reader.bind p f _ = _
  rw [Reader.bind, hvalue]

end

section

variable {p : Reader ε δ α} {valid : ρ → Prop} {L : Layout δ ρ α}

theorem Reads.value (hp : Reads p valid L) {r : ρ} (hr : valid r) (rest : List UInt8) (data : δ) :
    p ⟨L.enc r ++ rest, data⟩ = .value (L.out r) ⟨rest, L.store r data⟩ :=
  (hp _ _ _).2 ⟨r, hr, rfl, rfl, rfl⟩

theorem Reads.times (hp : Reads p valid L) :
    ∀ n, Reads (p.times n) (fun rs => rs.length = n ∧ ∀ r ∈ rs, valid r) L.times := by
  intro n
  induction n with
  | zero =>
    intro s as t
    constructor
    · intro h
      obtain ⟨rfl, rfl⟩ := pure_value.1 h
      exact ⟨[], ⟨rfl, nofun⟩, rfl, rfl, rfl⟩
    · rintro ⟨rs, ⟨hn, -⟩, hbytes, has, hdata⟩
      obtain rfl := List.length_eq_zero_iff.1 hn
      obtain ⟨rest, data⟩ := t
      cases hbytes
      cases hdata
      exact pure_value.2 ⟨has.symm, rfl⟩
  | succ n ih =>
    intro s as t
    constructor
    · intro h
      obtain ⟨a, u, ha, h⟩ := bind_value.1 h
      obtain ⟨as', v, has, h⟩ := bind_value.1 h
      obtain ⟨rfl, rfl⟩ := pure_value.1 h
      obtain ⟨r, hr, hb, rfl, hd⟩ := (hp _ _ _).1 ha
      obtain ⟨rs, ⟨hn, hrs⟩, hbs, rfl, hds⟩ := (ih _ _ _).1 has
      refine ⟨r :: rs, ⟨congrArg Nat.succ hn, List.forall_mem_cons.2 ⟨hr, hrs⟩⟩, ?_, rfl, ?_⟩
      · rw [hb, hbs, ← List.append_assoc]
        rfl
      · rw [hds, hd]
        rfl
    · rintro ⟨_ | ⟨r, rs⟩, ⟨hn, hrs⟩, hbytes, rfl, hdata⟩
      · cases hn
      · obtain ⟨bytes, data⟩ := s
        obtain ⟨hr, hrs⟩ := List.forall_mem_cons.1 hrs
        have hbytes : bytes = L.enc r ++ (L.times.enc rs ++ t.bytes) :=
          hbytes.trans (List.append_assoc _ _ _)
        rw [hbytes]
        refine bind_value.2 ⟨_, _, hp.value hr _ _, bind_value.2 ⟨_, _, ?_, pure_value.2 ⟨rfl, rfl⟩⟩⟩
        exact (ih _ _ _).2 ⟨rs, ⟨Nat.succ.inj hn, hrs⟩, rfl, rfl, hdata⟩

end

theorem Reads.times_plain {p : Reader ε δ α} {enc : α → List UInt8}
    (hp : Reads p (fun _ => True) (Layout.plain enc)) (n : ℕ) :
    Reads (p.times n) (fun as => as.length = n) (Layout.plain fun as => as.flatMap enc) := by
  have h := hp.times n
  rw [Layout.plain_times] at h
  simpa only [implies_true, and_true] using h

/-- What has been stored, unless the outcome is a fault. -/
def Outcome.data : Outcome ε δ α → Option δ
  | .value _ t => some t.data
  | .thrown _ data => some data
  | .fault _ => none

/-- What is stored stays in `I`, whether the reader returns or throws. -/
def Keeps (I : δ → Prop) (p : Reader ε δ α) : Prop :=
  ∀ s, I s.data → ∀ data ∈ (p s).data, I data

section

variable {I : δ → Prop} {p : Reader ε δ α} {f : α → Reader ε δ β}

theorem Keeps.value (hp : Keeps I p) {s t : State δ} {a : α} (hI : I s.data)
    (h : p s = .value a t) : I t.data :=
  hp s hI t.data (by rw [h]; rfl)

theorem Keeps.thrown (hp : Keeps I p) {s : State δ} {what : String} {data : δ} (hI : I s.data)
    (h : p s = .thrown what data) : I data :=
  hp s hI data (by rw [h]; rfl)

theorem keeps_pure (a : α) : Keeps I (pure a : Reader ε δ α) := by
  rintro s hI _ ⟨⟩
  exact hI

theorem keeps_ensure (c : Prop) [Decidable c] (what : String) :
    Keeps I (ensure c what : Reader ε δ Unit) := by
  intro s hI data hdata
  unfold ensure at hdata
  split at hdata <;> cases hdata <;> exact hI

theorem keeps_take (n : ℕ) (what : String) : Keeps I (take n what : Reader ε δ _) := by
  intro s hI data hdata
  unfold take at hdata
  split at hdata <;> cases hdata <;> exact hI

theorem keeps_fault (e : ε) : Keeps I (fault e : Reader ε δ α) := by
  rintro s hI _ ⟨⟩

theorem keeps_modify {store : δ → δ} (h : ∀ data, I data → I (store data)) :
    Keeps I (modify store : Reader ε δ Unit) := by
  rintro s hI _ ⟨⟩
  exact h s.data hI

theorem Keeps.bind (hp : Keeps I p) (hf : ∀ a, Keeps I (f a)) : Keeps I (p >>= f) := by
  intro s hI data hdata
  have h := hp s hI
  change data ∈ (Reader.bind p f s).data at hdata
  unfold Reader.bind at hdata
  cases hps : p s with
  | value a t =>
    rw [hps] at h hdata
    exact hf a t (h t.data rfl) data hdata
  | thrown what data' =>
    rw [hps] at h hdata
    exact h data hdata
  | fault e =>
    rw [hps] at hdata
    cases hdata

theorem Keeps.times (hp : Keeps I p) : ∀ n, Keeps I (p.times n)
  | 0 => keeps_pure []
  | n + 1 => hp.bind fun a => (Keeps.times hp n).bind fun as => keeps_pure (a :: as)

end

/-! Big-endian 32-bit numbers. -/

/-- The number of four bytes, the most significant first. -/
def be32toh (bytes : List UInt8) : Int32 :=
  (UInt32.ofNat (bytes.foldl (fun x b => 256 * x + b.toNat) 0)).toInt32

def htobe32 (x : Int32) : List UInt8 :=
  [2 ^ 24, 2 ^ 16, 2 ^ 8, 1].map fun weight => UInt8.ofNat (x.toUInt32.toNat / weight)

theorem be32toh_htobe32 (x : Int32) : be32toh (htobe32 x) = x := by
  have hx : x.toUInt32.toNat < 2 ^ 32 := x.toUInt32.toNat_lt
  have hsum : (htobe32 x).foldl (fun x b => 256 * x + b.toNat) 0 = x.toUInt32.toNat := by
    simp only [htobe32, List.map, List.foldl, UInt8.toNat_ofNat']
    omega
  rw [be32toh, hsum, UInt32.ofNat_toNat, Int32.toInt32_toUInt32]

theorem htobe32_be32toh {bytes : List UInt8} (h : bytes.length = 4) :
    htobe32 (be32toh bytes) = bytes := by
  obtain ⟨b₀, b₁, b₂, b₃, rfl⟩ := List.length_eq_four.1 h
  have hlt : ∀ b : UInt8, b.toNat < 2 ^ 8 := fun b => b.toNat_lt
  have h₀ := hlt b₀
  have h₁ := hlt b₁
  have h₂ := hlt b₂
  have h₃ := hlt b₃
  have hdigit : ∀ {n : ℕ} {b : UInt8}, n % 2 ^ 8 = b.toNat → UInt8.ofNat n = b := fun hn =>
    UInt8.toNat_inj.1 (by rw [UInt8.toNat_ofNat']; exact hn)
  simp only [htobe32, be32toh, List.map, List.foldl, UInt32.toUInt32_toInt32, UInt32.toNat_ofNat']
  rw [hdigit (b := b₀) (by omega), hdigit (b := b₁) (by omega), hdigit (b := b₂) (by omega),
    hdigit (b := b₃) (by omega)]

theorem length_htobe32 (x : Int32) : (htobe32 x).length = 4 := rfl

end ByteReader
