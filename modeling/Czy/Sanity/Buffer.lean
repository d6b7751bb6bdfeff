import Czy.Spec.Buffer
import Mathlib.Tactic

/-! One spec lemma for each operation of Buffer, in terms of the readable bytes. -/

namespace Czy.Net.Buffer

open Window

/-- `len` more bytes fit into the vector as it is, if need be after moving the
readable bytes to the front. -/
def Fits (b : Buffer) (len : ℕ) : Prop :=
  len ≤ b.writeableBytes ∨ len + kCheapPrepend ≤ b.writeableBytes + b.prependableBytes

/-- What lies in the place where `len` appended bytes belong. -/
def stale (b : Buffer) (len : ℕ) : List UInt8 :=
  if len ≤ b.writeableBytes then window b.buffer b.writeIndex (b.writeIndex + len)
  else window b.buffer (kCheapPrepend + b.readableBytes) (kCheapPrepend + b.readableBytes + len)

/-- Appending `data` only repeats bytes that lie in the right places already. -/
def Repeats (b : Buffer) (data : List UInt8) : Prop :=
  data <+: b.readable ++ data ∧
    (b.stale data.length).drop (data.length - b.readableBytes) =
      data.drop (data.length - b.readableBytes)

instance (b : Buffer) (len : ℕ) : Decidable (b.Fits len) := inferInstanceAs (Decidable (_ ∨ _))

instance (b : Buffer) (data : List UInt8) : Decidable (b.Repeats data) :=
  inferInstanceAs (Decidable (_ ∧ _))

theorem new_inv (n : ℕ) : (new n).Inv :=
  ⟨le_rfl, le_rfl, by simp [new]⟩

@[simp] theorem new_readable (n : ℕ) : (new n).readable = [] := window_self _ _

theorem readable_length {b : Buffer} (h : b.Inv) : b.readable.length = b.readableBytes :=
  length_window h.bound

theorem readable_eq_nil {b : Buffer} (h : b.Inv) : b.readable = [] ↔ b.readableBytes = 0 := by
  rw [← List.length_eq_zero_iff, readable_length h]

theorem retriveAll_inv {b : Buffer} (h : b.Inv) : b.retriveAll.Inv := by
  obtain ⟨hp, ho, hb⟩ := h
  exact ⟨le_rfl, le_rfl, by simp only [retriveAll]; omega⟩

@[simp] theorem retriveAll_readable (b : Buffer) : b.retriveAll.readable = [] := window_self _ _

theorem retrive_spec {b : Buffer} {len : ℕ} (h : b.Inv) (hlen : len ≤ b.readableBytes) :
    ∃ b', b.retrive len = .ok b' ∧ b'.Inv ∧ b'.readable = b.readable.drop len := by
  rw [retrive, require_bind hlen]
  obtain ⟨hp, ho, hb⟩ := h
  unfold readableBytes at hlen ⊢
  split_ifs with hlt
  · refine ⟨_, rfl, ⟨by simp only; omega, by simp only; omega, hb⟩, ?_⟩
    exact window_drop.symm
  · refine ⟨_, rfl, retriveAll_inv ⟨hp, ho, hb⟩, ?_⟩
    have hall : b.readable.length ≤ len := by
      rw [readable_length ⟨hp, ho, hb⟩, readableBytes]
      omega
    rw [retriveAll_readable, List.drop_of_length_le hall]

theorem retrive_ok {b b' : Buffer} {len : ℕ} (hr : b.retrive len = .ok b') :
    len ≤ b.readableBytes := by
  rw [retrive, require_bind_ok] at hr
  exact hr.1

theorem retriveAsString_spec {b : Buffer} {len : ℕ} (h : b.Inv) (hlen : len ≤ b.readableBytes) :
    ∃ b', b.retriveAsString len = .ok (b.readable.take len, b') ∧ b'.Inv ∧
      b'.readable = b.readable.drop len := by
  obtain ⟨b', hb', hinv, hread⟩ := retrive_spec h hlen
  have ho := h.order
  refine ⟨b', ?_, hinv, hread⟩
  rw [retriveAsString, require_bind hlen, hb', readable,
    window_take (by unfold readableBytes at hlen; omega)]
  rfl

theorem retriveAsString_ok {b : Buffer} {len : ℕ} {r : List UInt8 × Buffer}
    (hr : b.retriveAsString len = .ok r) : len ≤ b.readableBytes := by
  rw [retriveAsString, require_bind_ok] at hr
  exact hr.1

theorem unwrite_spec {b : Buffer} {len : ℕ} (h : b.Inv) (hlen : len ≤ b.readableBytes) :
    ∃ b', b.unwrite len = .ok b' ∧ b'.Inv ∧
      b'.readable = b.readable.take (b.readable.length - len) := by
  rw [unwrite, require_bind hlen, readable_length h]
  obtain ⟨hp, ho, hb⟩ := h
  unfold readableBytes at hlen ⊢
  refine ⟨_, rfl, ⟨hp, by simp only; omega, by simp only; omega⟩, ?_⟩
  rw [readable, readable, window_take (by omega)]
  simp only
  congr 1
  omega

theorem unwrite_ok {b b' : Buffer} {len : ℕ} (hr : b.unwrite len = .ok b') :
    len ≤ b.readableBytes := by
  rw [unwrite, require_bind_ok] at hr
  exact hr.1

theorem makeSpace_spec {b : Buffer} {len : ℕ} (h : b.Inv) (hlt : b.writeableBytes < len)
    (hfit : len + kCheapPrepend ≤ b.writeableBytes + b.prependableBytes) :
    ∃ b', b.makeSpace len = .ok b' ∧ b'.Inv ∧ b'.readable = b.readable ∧
      len ≤ b'.writeableBytes ∧
      window b'.buffer b'.writeIndex (b'.writeIndex + len) = b.stale len := by
  have hlen := readable_length h
  obtain ⟨hp, ho, hb⟩ := h
  have hwrap : ¬ b.writeableBytes + b.prependableBytes < sizeT (len + kCheapPrepend) := by
    have := Nat.mod_le (len + kCheapPrepend) (2 ^ 64)
    unfold sizeT
    omega
  have hread : kCheapPrepend < b.readIndex := by
    unfold prependableBytes at hfit
    omega
  rw [makeSpace, if_neg hwrap, require_bind hread,
    require_bind (by simp [readableBytes])]
  unfold prependableBytes at hfit
  unfold writeableBytes at hfit hlt ⊢
  unfold readableBytes at hlen
  have hmoved : kCheapPrepend + b.readable.length ≤ b.buffer.length := by omega
  have hsize := length_overwrite hmoved
  refine ⟨_, rfl, ⟨le_rfl, Nat.le_add_right _ _, ?_⟩, ?_, ?_, ?_⟩
  · simp only [readableBytes]
    rw [← hlen]
    exact hmoved.trans hsize.ge
  · have := window_overwrite (d := b.readable) (show kCheapPrepend ≤ b.buffer.length by omega)
    rw [hlen] at this
    exact this
  · simp only [readableBytes]
    change len ≤ (overwrite b.buffer kCheapPrepend b.readable).length - _
    rw [hsize]
    omega
  · rw [stale, if_neg (by unfold writeableBytes; omega)]
    exact window_overwrite_behind (d := b.readable) (by omega) (by rw [hlen]; exact le_rfl)

theorem ensureWriteableBytes_spec {b : Buffer} {len : ℕ} (h : b.Inv) (hfit : b.Fits len) :
    ∃ b', b.ensureWriteableBytes len = .ok b' ∧ b'.Inv ∧ b'.readable = b.readable ∧
      len ≤ b'.writeableBytes ∧
      window b'.buffer b'.writeIndex (b'.writeIndex + len) = b.stale len := by
  unfold ensureWriteableBytes
  by_cases hlt : b.writeableBytes < len
  · obtain ⟨b', hb', hinv, hread, hroom, hstale⟩ :=
      makeSpace_spec h hlt (hfit.resolve_left (by omega))
    refine ⟨b', ?_, hinv, hread, hroom, hstale⟩
    rw [if_pos hlt, hb']
    exact require_bind hroom _ _
  · have hroom : len ≤ b.writeableBytes := by omega
    refine ⟨b, ?_, h, rfl, hroom, by rw [stale, if_pos hroom]⟩
    rw [if_neg hlt]
    exact require_bind hroom _ _

/-- Without the room, one of the assertions on the way fails. -/
theorem ensureWriteableBytes_ok {b b' : Buffer} {len : ℕ} (h : b.Inv)
    (he : b.ensureWriteableBytes len = .ok b') : b.Fits len := by
  obtain ⟨hp, ho, hb⟩ := h
  unfold ensureWriteableBytes at he
  by_cases hlt : b.writeableBytes < len
  · rw [if_pos hlt, makeSpace] at he
    split_ifs at he with hgrow
    · -- reserve leaves the size alone, so the final assertion fails
      obtain ⟨b₁, hb₁, he⟩ := bind_ok.1 he
      cases hb₁
      rw [require_bind_ok] at he
      have hroom := he.1
      unfold writeableBytes reserve at *
      simp only at hroom
      omega
    · obtain ⟨b₁, hb₁, he⟩ := bind_ok.1 he
      rw [require_bind_ok, require_bind_ok] at hb₁
      obtain ⟨-, -, hb₁⟩ := hb₁
      cases hb₁
      rw [require_bind_ok] at he
      have hroom := he.1
      have hsize : (overwrite b.buffer kCheapPrepend b.readable).length = b.buffer.length := by
        refine length_overwrite ?_
        rw [readable_length ⟨hp, ho, hb⟩, readableBytes]
        omega
      right
      unfold writeableBytes readableBytes at *
      unfold prependableBytes
      simp only at hroom
      change len ≤ (overwrite b.buffer kCheapPrepend b.readable).length - _ at hroom
      rw [hsize] at hroom
      omega
  · exact Or.inl (by omega)

theorem appendPtr_spec {b : Buffer} {data : List UInt8} {len : ℕ} (h : b.Inv)
    (hfit : b.Fits len) (hdata : len ≤ data.length) :
    ∃ b', b.appendPtr data len = .ok b' ∧ b'.Inv ∧
      b'.readable = data.take len ++ (b.readable ++ b.stale len).drop len := by
  obtain ⟨b₁, hb₁, ⟨hp, ho, hb⟩, hread, hroom, hstale⟩ := ensureWriteableBytes_spec h hfit
  have htake : (data.take len).length = len := by rw [List.length_take]; omega
  unfold writeableBytes at hroom
  have hsize : (overwrite b₁.buffer b₁.beginWrite (data.take len)).length = b₁.buffer.length :=
    length_overwrite (by rw [htake, beginWrite]; omega)
  have hok : b.appendPtr data len =
      .ok { b₁ with buffer := overwrite b₁.buffer b₁.beginWrite (data.take len)
                    writeIndex := b₁.writeIndex + len } := by
    rw [appendPtr, hb₁]
    exact require_bind (by rw [writeableBytes, hsize]; exact hroom) _ _
  refine ⟨_, hok, ⟨hp, by simp only; omega, by simp only; rw [hsize]; omega⟩, ?_⟩
  -- the bytes land at readIndex_, the window grows by len at its end
  have hfront := window_overwrite (d := data.take len) (show b₁.readIndex ≤ b₁.buffer.length by omega)
  have hbehind := window_overwrite_behind (d := data.take len) (i := b₁.readIndex + len)
    (j := b₁.writeIndex + len) (show b₁.readIndex ≤ b₁.buffer.length by omega) (by omega)
  rw [htake] at hfront
  have hgrown : b.readable ++ b.stale len =
      window b₁.buffer b₁.readIndex (b₁.writeIndex + len) := by
    rw [← hread, ← hstale]
    exact window_append ho (Nat.le_add_right _ _)
  rw [hgrown, window_drop, ← hbehind]
  calc
    window (overwrite b₁.buffer b₁.readIndex (data.take len)) b₁.readIndex (b₁.writeIndex + len) =
        window (overwrite b₁.buffer b₁.readIndex (data.take len)) b₁.readIndex
            (b₁.readIndex + len) ++
          window (overwrite b₁.buffer b₁.readIndex (data.take len)) (b₁.readIndex + len)
            (b₁.writeIndex + len) := (window_append (Nat.le_add_right _ _) (by omega)).symm
    _ = _ := by rw [hfront]

theorem appendPtr_ok {b b' : Buffer} {data : List UInt8} {len : ℕ} (h : b.Inv)
    (ha : b.appendPtr data len = .ok b') : b.Fits len := by
  obtain ⟨b₁, hb₁, -⟩ := bind_ok.1 ha
  exact ensureWriteableBytes_ok h hb₁

/-- What `append` does: the data overwrites the front of the readable bytes. -/
theorem append_spec {b : Buffer} {data : List UInt8} (h : b.Inv) (hfit : b.Fits data.length) :
    ∃ b', b.append data = .ok b' ∧ b'.Inv ∧
      b'.readable = data ++ (b.readable ++ b.stale data.length).drop data.length := by
  have := appendPtr_spec h hfit le_rfl
  rwa [List.take_length] at this

theorem append_ok {b b' : Buffer} {data : List UInt8} (h : b.Inv) (ha : b.append data = .ok b') :
    b.Fits data.length ∧ b'.Inv ∧
      b'.readable = data ++ (b.readable ++ b.stale data.length).drop data.length := by
  have hfit := appendPtr_ok h ha
  obtain ⟨b₁, hb₁, hinv, hread⟩ := append_spec h hfit
  obtain rfl : b' = b₁ := by rw [ha] at hb₁; cases hb₁; rfl
  exact ⟨hfit, hinv, hread⟩

/-- `append` puts its data behind the readable bytes exactly when there is room
and the write over the front of them goes unnoticed. -/
theorem append_exact {b : Buffer} {data : List UInt8} (h : b.Inv) :
    (∃ b', b.append data = .ok b' ∧ b'.readable = b.readable ++ data) ↔
      b.Fits data.length ∧ b.Repeats data := by
  have hmis := misplaced_eq_append_iff b.readable data (b.stale data.length)
  rw [readable_length h] at hmis
  constructor
  · rintro ⟨b', hb', hread⟩
    obtain ⟨hfit, -, hread'⟩ := append_ok h hb'
    exact ⟨hfit, hmis.1 (hread'.symm.trans hread)⟩
  · rintro ⟨hfit, hrep⟩
    obtain ⟨b', hb', -, hread⟩ := append_spec h hfit
    exact ⟨b', hb', hread.trans (hmis.2 hrep)⟩

/-- `append` in terms of the buffer that has made room. -/
theorem appendPtr_cases {b b' : Buffer} {data : List UInt8} {len : ℕ} (h : b.Inv)
    (ha : b.appendPtr data len = .ok b') :
    ∃ b₁ : Buffer, b₁.Inv ∧ b₁.readable = b.readable ∧ len ≤ b₁.writeableBytes ∧
      b' = { b₁ with buffer := overwrite b₁.buffer b₁.readIndex (data.take len)
                     writeIndex := b₁.writeIndex + len } := by
  obtain ⟨b₁, hb₁, hinv, hread, hroom, -⟩ := ensureWriteableBytes_spec h (appendPtr_ok h ha)
  rw [appendPtr, hb₁] at ha
  have ha' := (require_bind_ok.1 ha).2
  cases ha'
  exact ⟨b₁, hinv, hread, hroom, rfl⟩

theorem appendPtr_inv {b b' : Buffer} {data : List UInt8} {len : ℕ} (h : b.Inv)
    (ha : b.appendPtr data len = .ok b') : b'.Inv := by
  obtain ⟨b₁, ⟨hp, ho, hb⟩, -, hroom, rfl⟩ := appendPtr_cases h ha
  have htake : (data.take len).length ≤ len := by rw [List.length_take]; omega
  unfold writeableBytes at hroom
  refine ⟨hp, by simp only; omega, ?_⟩
  simp only
  rw [length_overwrite (by omega)]
  omega

theorem appendPtr_readableBytes {b b' : Buffer} {data : List UInt8} {len : ℕ} (h : b.Inv)
    (ha : b.appendPtr data len = .ok b') : b'.readableBytes = b.readableBytes + len := by
  obtain ⟨b₁, hinv, hread, -, rfl⟩ := appendPtr_cases h ha
  have ho := hinv.order
  have hsame : b₁.readableBytes = b.readableBytes := by
    rw [← readable_length h, ← hread, readable_length hinv]
  rw [← hsame]
  simp only [readableBytes]
  omega

theorem readable_length_le (b : Buffer) : b.readable.length ≤ b.readableBytes := by
  rw [readable, window, List.length_take]
  exact Nat.min_le_left _ _

theorem stale_length_le (b : Buffer) (len : ℕ) : (b.stale len).length ≤ len := by
  unfold stale
  split_ifs <;> rw [window, List.length_take] <;> omega

theorem ensureWriteableBytes_of_room {b : Buffer} {len : ℕ} (h : len ≤ b.writeableBytes) :
    b.ensureWriteableBytes len = .ok b := by
  rw [ensureWriteableBytes, if_neg (by omega)]
  exact require_bind h _ _

theorem new_fits {n len : ℕ} : (new n).Fits len ↔ len ≤ n := by
  have hw : (new n).writeableBytes = n := by simp [new, writeableBytes]
  unfold Fits
  rw [hw]
  simp only [new, prependableBytes]
  omega

/-- `shirnk` copies into a buffer of the initial size, which cannot grow. -/
theorem shirnk_exact {b : Buffer} {reserve : ℕ} (h : b.Inv) :
    (∃ b', b.shirnk reserve = .ok b' ∧ b'.readable = b.readable) ↔
      sizeT (b.readableBytes + reserve) ≤ kInittialSize ∧ b.readableBytes ≤ kInittialSize := by
  have hnew := new_inv kInittialSize
  constructor
  · rintro ⟨b', hb', hread⟩
    obtain ⟨other, hother, ha⟩ := bind_ok.1 hb'
    have hroom := new_fits.1 (ensureWriteableBytes_ok hnew hother)
    refine ⟨hroom, ?_⟩
    rw [ensureWriteableBytes_of_room (by simpa [new, writeableBytes] using hroom)] at hother
    cases hother
    have hfit := new_fits.1 (appendPtr_ok hnew ha)
    have hlen := readable_length_le b'
    rw [hread, readable_length h, appendPtr_readableBytes hnew ha] at hlen
    simp only [new, readableBytes, Nat.sub_self] at hlen hfit ⊢
    omega
  · rintro ⟨hroom, hlen⟩
    have hint : sizeOfInt b.toStringPiece.2 = b.readable.length := by
      rw [readable_length h]
      exact sizeOfInt_intOfSize (by unfold kInittialSize at hlen; omega)
    have hfit : (new kInittialSize).Fits b.readable.length :=
      new_fits.2 (by rw [readable_length h]; exact hlen)
    obtain ⟨b', hb', hinv, hread⟩ := appendPtr_spec hnew hfit (le_refl b.readable.length)
    refine ⟨b', ?_, ?_⟩
    · rw [shirnk, ensureWriteableBytes_of_room (by simpa [new, writeableBytes] using hroom), hint,
        ok_bind]
      exact hb'
    · rw [hread, List.take_length, new_readable, List.nil_append,
        List.drop_of_length_le (stale_length_le _ _), List.append_nil]

theorem shirnk_inv {b b' : Buffer} {reserve : ℕ} (hs : b.shirnk reserve = .ok b') : b'.Inv := by
  obtain ⟨other, hother, ha⟩ := bind_ok.1 hs
  have hnew := new_inv kInittialSize
  obtain ⟨b₁, hb₁, hinv, -⟩ :=
    ensureWriteableBytes_spec hnew (ensureWriteableBytes_ok hnew hother)
  obtain rfl : other = b₁ := by rw [hother] at hb₁; cases hb₁; rfl
  exact appendPtr_inv hinv ha

theorem repeats_nil (b : Buffer) : b.Repeats [] :=
  ⟨List.nil_prefix, by simp [stale]⟩

theorem hasWritten_inv {b b' : Buffer} {len : ℕ} (h : b.Inv) (hw : b.hasWritten len = .ok b') :
    b'.Inv := by
  obtain ⟨hp, ho, hb⟩ := h
  rw [hasWritten, require_bind_ok] at hw
  obtain ⟨hlen, hw⟩ := hw
  cases hw
  unfold writeableBytes at hlen
  exact ⟨hp, by simp only; omega, by simp only; omega⟩

/-- The operations that append fail exactly where the vector would have to grow. -/
theorem appendPtr_ok_iff {b : Buffer} {data : List UInt8} {len : ℕ} (h : b.Inv) :
    (∃ b', b.appendPtr data len = .ok b') ↔ b.Fits len := by
  constructor
  · rintro ⟨b', hb'⟩
    exact appendPtr_ok h hb'
  · intro hfit
    obtain ⟨b₁, hb₁, ⟨-, ho, hb⟩, -, hroom, -⟩ := ensureWriteableBytes_spec h hfit
    have htake : (data.take len).length ≤ len := by rw [List.length_take]; omega
    rw [appendPtr, hb₁]
    refine ⟨_, require_bind ?_ _ _⟩
    unfold writeableBytes at hroom ⊢
    simp only
    rw [length_overwrite (by rw [beginWrite]; omega)]
    exact hroom

theorem shirnk_ok_iff {b : Buffer} {reserve : ℕ} :
    (∃ b', b.shirnk reserve = .ok b') ↔
      sizeT (b.readableBytes + reserve) ≤ kInittialSize ∧
        sizeOfInt (intOfSize b.readableBytes) ≤ kInittialSize := by
  have hnew := new_inv kInittialSize
  have happend : (∃ b', (new kInittialSize).appendPtr b.toStringPiece.1
      (sizeOfInt b.toStringPiece.2) = .ok b') ↔
        sizeOfInt (intOfSize b.readableBytes) ≤ kInittialSize :=
    (appendPtr_ok_iff hnew).trans new_fits
  have hroom {len : ℕ} (hlen : len ≤ kInittialSize) :
      (new kInittialSize).ensureWriteableBytes len = .ok (new kInittialSize) :=
    ensureWriteableBytes_of_room (by simpa [new, writeableBytes] using hlen)
  constructor
  · rintro ⟨b', hb'⟩
    obtain ⟨other, hother, ha⟩ := bind_ok.1 hb'
    have hlen := new_fits.1 (ensureWriteableBytes_ok hnew hother)
    rw [hroom hlen] at hother
    cases hother
    exact ⟨hlen, happend.1 ⟨b', ha⟩⟩
  · rintro ⟨hlen, hsize⟩
    obtain ⟨b', hb'⟩ := happend.2 hsize
    refine ⟨b', ?_⟩
    rw [shirnk, hroom hlen, ok_bind]
    exact hb'

/-! `readFd`: what `readv` put into the vector, and what into the stack buffer. -/

def capacity (b : Buffer) : ℕ :=
  if b.writeableBytes < 65536 then b.writeableBytes + 65536 else b.writeableBytes

def received (b : Buffer) (offered : List UInt8) : List UInt8 := offered.take b.capacity

def spill (b : Buffer) (offered : List UInt8) : List UInt8 :=
  (b.received offered).drop b.writeableBytes

/-- The vector with the received bytes in its free tail. -/
def tailFilled (b : Buffer) (offered : List UInt8) : List UInt8 :=
  overwrite b.buffer b.writeIndex ((b.received offered).take b.writeableBytes)

def filled (b : Buffer) (offered : List UInt8) : Buffer :=
  { b with buffer := b.tailFilled offered, writeIndex := b.buffer.length }

theorem length_tailFilled {b : Buffer} (h : b.Inv) (offered : List UInt8) :
    (b.tailFilled offered).length = b.buffer.length := by
  have hb := h.bound
  refine length_overwrite ?_
  rw [List.length_take]
  unfold writeableBytes
  omega

theorem filled_inv {b : Buffer} (h : b.Inv) (offered : List UInt8) : (b.filled offered).Inv :=
  ⟨h.prepend, h.order.trans h.bound, (length_tailFilled h offered).ge⟩

theorem window_tailFilled {b : Buffer} (h : b.Inv) (offered : List UInt8) :
    window (b.tailFilled offered) b.readIndex
        (b.writeIndex + ((b.received offered).take b.writeableBytes).length) =
      b.readable ++ (b.received offered).take b.writeableBytes := by
  rw [← window_append h.order (Nat.le_add_right _ _), tailFilled, window_overwrite h.bound,
    window_overwrite_before le_rfl h.bound]
  rfl

theorem filled_readable {b : Buffer} {offered : List UInt8} (h : b.Inv)
    (hspill : b.spill offered ≠ []) :
    (b.filled offered).readable = b.readable ++ (b.received offered).take b.writeableBytes := by
  have hlong : b.writeableBytes < (b.received offered).length := by
    rw [spill, Ne, List.drop_eq_nil_iff] at hspill
    omega
  have hb := h.bound
  have hend : b.writeIndex + b.writeableBytes = b.buffer.length := by
    unfold writeableBytes
    omega
  have htail := window_tailFilled h offered
  rw [List.length_take_of_le hlong.le, hend] at htail
  exact htail

theorem readFd_within {b : Buffer} {offered : List UInt8} (h : b.Inv)
    (hspill : b.spill offered = []) (savedErrorno : ℤ) :
    ∃ b', b.readFd (.ok offered) savedErrorno =
        .ok (b', ((b.received offered).length : ℤ), savedErrorno) ∧ b'.Inv ∧
      b'.readable = b.readable ++ b.received offered := by
  rw [spill, List.drop_eq_nil_iff] at hspill
  have htail := window_tailFilled h offered
  have hlen := length_tailFilled h offered
  rw [List.take_of_length_le hspill] at htail
  obtain ⟨hp, ho, hb⟩ := h
  refine ⟨⟨b.tailFilled offered, b.readIndex, b.writeIndex + (b.received offered).length⟩,
    if_pos hspill, ⟨hp, ?_, ?_⟩, htail⟩
  · simp only
    omega
  · unfold writeableBytes at hspill
    simp only
    omega

theorem readFd_spill {b : Buffer} {offered : List UInt8} (h : b.Inv)
    (hspill : b.spill offered ≠ []) (savedErrorno : ℤ) :
    b.readFd (.ok offered) savedErrorno =
      ((b.filled offered).append (b.spill offered)).map fun b' =>
        (b', ((b.received offered).length : ℤ), savedErrorno) := by
  rw [spill, Ne, List.drop_eq_nil_iff] at hspill
  rw [filled, ← length_tailFilled h offered]
  exact if_neg hspill

theorem readFd_inv {b b' : Buffer} {r : Except ℤ (List UInt8)} {savedErrorno : ℤ} (h : b.Inv)
    (hr : (b.readFd r savedErrorno).map (fun res => res.1) = .ok b') : b'.Inv := by
  cases r with
  | error errno =>
    cases hr
    exact h
  | ok offered =>
    by_cases hspill : b.spill offered = []
    · obtain ⟨b₁, hb₁, hinv, -⟩ := readFd_within h hspill savedErrorno
      rw [hb₁] at hr
      cases hr
      exact hinv
    · rw [readFd_spill h hspill] at hr
      obtain ⟨⟨b₁, n, saved⟩, hres, rfl⟩ := map_ok.1 hr
      obtain ⟨b₂, hb₂, hres⟩ := map_ok.1 hres
      cases hres
      exact appendPtr_inv (filled_inv h offered) hb₂

theorem readFd_ok_iff {b : Buffer} {offered : List UInt8} {savedErrorno : ℤ} (h : b.Inv) :
    (∃ b', (b.readFd (.ok offered) savedErrorno).map (fun res => res.1) = .ok b') ↔
      b.spill offered = [] ∨ (b.filled offered).Fits (b.spill offered).length := by
  by_cases hspill : b.spill offered = []
  · obtain ⟨b', hb', -⟩ := readFd_within h hspill savedErrorno
    refine iff_of_true ⟨b', ?_⟩ (Or.inl hspill)
    rw [hb']
    rfl
  · rw [or_iff_right hspill, ← appendPtr_ok_iff (filled_inv h offered), readFd_spill h hspill, append]
    cases (b.filled offered).appendPtr (b.spill offered) (b.spill offered).length with
    | error e => exact iff_of_false (fun ⟨b', hb'⟩ => nomatch hb') (fun ⟨b', hb'⟩ => nomatch hb')
    | ok b₁ => exact iff_of_true ⟨b₁, rfl⟩ ⟨b₁, rfl⟩

end Czy.Net.Buffer
