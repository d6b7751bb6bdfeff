import Czy.Lib.Run
import Czy.Proofs.IntegerFormat

/-! A log stream keeps whole pieces only, and stays inside its array. -/

namespace Czy

open StepRun LogStream

namespace Piece

/-- The piece as it is to appear. -/
def text : Piece → List UInt8
  | bool v => if v then [49] else [48]
  | short v => decimalText v.toInt
  | ushort v => decimalText v.toNat
  | int v => decimalText v.toInt
  | uint v => decimalText v.toNat
  | ulong v => decimalText v.toNat
  | ulonglong v => decimalText v.toNat
  | pointer p => [48, 120] ++ hexText p.toNat
  | char v => [v]
  | cstr (some str) => str.mem.takeWhile (· ≠ 0)
  | cstr none => [40, 110, 117, 108, 108, 41]
  | string v => v
  | stringPiece v => v
  | buffer v => v.data

def isNumber : Piece → Bool
  | short _ | ushort _ | int _ | uint _ | ulong _ | ulonglong _ | pointer _ => true
  | bool _ | char _ | cstr _ | string _ | stringPiece _ | buffer _ => false

def fits (p : Piece) (avail : ℕ) : Bool :=
  if p.isNumber then kMaxNumSize ≤ avail else p.text.length < avail

end Piece

inductive LogOp
  | insert (p : Piece)
  | resetBuffer

namespace LogOp

def step (b : LogStream.Buffer) : LogOp → Except Abort LogStream.Buffer
  | insert p => LogStream.insert b p
  | resetBuffer => .ok b.reset

/-- The content once the operation is done: a piece that has room, or nothing of it. -/
def shown (content : List UInt8) : LogOp → List UInt8
  | insert p => content ++ if p.fits (kSmallBuffer - content.length) then p.text else []
  | resetBuffer => []

/-- The array is not full, and shows what the operation has to show. -/
def Right (b : LogStream.Buffer) (o : LogOp) (b' : LogStream.Buffer) : Prop :=
  b'.length < kSmallBuffer ∧ b'.content = shown b.content o

def PointerFits (b : LogStream.Buffer) : LogOp → Prop
  | insert (.pointer _) => b.length + kMaxNumSize ≤ kSmallBuffer
  | _ => True

end LogOp

namespace RawBuffer

variable {size : ℕ} {b : RawBuffer size}

theorem content_length (h : b.cur ≤ size) : b.content.length = b.cur := by
  rw [content, Window.length_window (h.trans_eq b.whole.symm), Nat.sub_zero]

theorem write_ok (b : RawBuffer size) (pos : ℕ) (bytes : List UInt8) (h : pos + bytes.length ≤ size) :
    ∃ b' : RawBuffer size, b.write pos bytes = .ok b' ∧ b'.cur = b.cur ∧
      ∀ k ≤ bytes.length, Window.window b'.data 0 (pos + k) =
        Window.window b.data 0 pos ++ bytes.take k := by
  have hdata := b.whole
  refine ⟨_, dif_pos h, rfl, fun k hk => ?_⟩
  have hpos : pos ≤ b.data.length := by omega
  rw [← Window.window_append (Nat.zero_le pos) (Nat.le_add_right pos k),
    Window.window_overwrite_before le_rfl hpos,
    ← Window.window_take (j := pos + bytes.length) (by omega), Window.window_overwrite hpos]

theorem append_ok (h : b.cur < size) (hsize : size < 2 ^ 31) (buf : List UInt8) :
    ∃ b', b.append buf = .ok b' ∧ b'.cur < size ∧ b'.content = (FixBuffer.append
      (⟨b.content, (content_length h.le).trans_le h.le⟩ : FixBuffer size) buf).data := by
  have hlen : b.content.length = b.cur := content_length h.le
  have hroom : sizeOfInt b.avail > buf.length ↔ buf.length < size - b.content.length := by
    rw [hlen, sizeOfInt, avail]
    omega
  rw [FixBuffer.append_data, FixBuffer.avail]
  unfold append
  by_cases hfit : buf.length < size - b.content.length
  · rw [if_pos (hroom.2 hfit), if_pos hfit]
    obtain ⟨b', hb', hcur, hcontent⟩ := write_ok b b.cur buf (by omega)
    refine ⟨b'.add buf.length, by rw [hb']; rfl, ?_, ?_⟩
    · change b'.cur + buf.length < size
      omega
    · have hadd : (b'.add buf.length).content = Window.window b'.data 0 (b.cur + buf.length) := by
        rw [← hcur]
        rfl
      rw [hadd, hcontent _ le_rfl, List.take_length]
      rfl
  · rw [if_neg (mt hroom.1 hfit), if_neg hfit, List.append_nil]
    exact ⟨b, rfl, h, rfl⟩

end RawBuffer

namespace LogStream

variable {b : Buffer}

def Inserts (b : Buffer) (p : Piece) (r : Except Abort Buffer) : Prop :=
  ∃ b', r = .ok b' ∧ b'.cur < kSmallBuffer ∧ b'.content = LogOp.shown b.content (.insert p)

theorem append_inserts (h : b.cur < kSmallBuffer) {p : Piece} (hp : p.isNumber = false) :
    Inserts b p (b.append p.text) := by
  obtain ⟨b', hb', hcur, hcontent⟩ := RawBuffer.append_ok h (by decide) p.text
  refine ⟨b', hb', hcur, ?_⟩
  rw [hcontent, FixBuffer.append_data, LogOp.shown]
  simp only [Piece.fits, hp, Bool.false_eq_true, if_false, decide_eq_true_eq]
  rfl

theorem room_iff (h : b.cur < kSmallBuffer) : b.avail ≥ kMaxNumSize ↔
    kMaxNumSize ≤ kSmallBuffer - b.content.length := by
  rw [RawBuffer.content_length h.le, RawBuffer.avail]
  omega

/-- A number is written with its NUL, over which the next piece is written. -/
theorem formatInteger_inserts {T : Type} [IntegerType T] [Div T] [Mod T] [LT T] [DecidableEq T]
    [DecidableLT T] [OfNat T 0] [OfNat T 10] [LawfulIntegerType T] (h : b.cur < kSmallBuffer) {v : T}
    (hv : (toInt v).natAbs < 2 ^ 64) {p : Piece} (hp : p.isNumber = true)
    (htext : p.text = decimalText (toInt v)) : Inserts b p (formatInteger b v) := by
  have hshort := decimalText_length_lt hv
  rw [← htext] at hshort
  have hlen := RawBuffer.content_length h.le
  unfold Inserts formatInteger LogOp.shown
  simp only [Piece.fits, hp, if_true, decide_eq_true_eq]
  by_cases hroom : kMaxNumSize ≤ kSmallBuffer - b.content.length
  · rw [if_pos ((room_iff h).2 hroom), if_pos hroom, convert_eq, ← htext, deref_some, ok_bind]
    obtain ⟨b', hb', hcur, hcontent⟩ := RawBuffer.write_ok b b.cur (p.text ++ [0])
      (by rw [List.length_append, List.length_singleton]; omega)
    refine ⟨b'.add p.text.length, by rw [hb']; rfl, ?_, ?_⟩
    · change b'.cur + p.text.length < kSmallBuffer
      omega
    · have hadd : (b'.add p.text.length).content = Window.window b'.data 0 (b.cur + p.text.length) := by
        rw [← hcur]
        rfl
      rw [hadd, hcontent _ (by simp), List.take_left']
      · rfl
      · rfl
  · rw [if_neg (mt (room_iff h).1 hroom), if_neg hroom, List.append_nil]
    exact ⟨b, rfl, h, rfl⟩

theorem insertPointer_inserts (h : b.cur + kMaxNumSize ≤ kSmallBuffer) (v : UInt64) :
    Inserts b (.pointer v) (insertPointer b v) := by
  have hk : kMaxNumSize = 48 := rfl
  have hcur : b.cur < kSmallBuffer := by omega
  have hlen := RawBuffer.content_length hcur.le
  have hroom : kMaxNumSize ≤ kSmallBuffer - b.content.length := by omega
  have hhex := hexText_length_le v
  obtain ⟨b₁, hb₁, hcur₁, hprefix⟩ := RawBuffer.write_ok b b.cur [48, 120]
    (by simp only [List.length_cons, List.length_nil]; omega)
  obtain ⟨b₂, hb₂, hcur₂, hdigits⟩ := RawBuffer.write_ok b₁ (b₁.cur + 2) (hexText v.toNat) (by omega)
  refine ⟨b₂.add ((hexText v.toNat).length + 2), ?_, ?_, ?_⟩
  · unfold insertPointer
    rw [if_pos ((room_iff hcur).2 hroom), hb₁, ok_bind, convertHex_eq, deref_some, ok_bind]
    simp only [hb₂]
    rfl
  · change b₂.cur + _ < kSmallBuffer
    omega
  · have hadd : (b₂.add ((hexText v.toNat).length + 2)).content =
        Window.window b₂.data 0 (b₁.cur + 2 + (hexText v.toNat).length) := by
      rw [Nat.add_assoc, Nat.add_comm 2, ← hcur₂]
      rfl
    have hfits : (Piece.pointer v).fits (kSmallBuffer - b.content.length) = true := decide_eq_true hroom
    rw [hadd, hdigits _ le_rfl, hcur₁, hprefix 2 le_rfl, LogOp.shown, if_pos hfits, List.take_length,
      List.append_assoc]
    rfl

theorem insertPointer_error (h : ¬ b.cur + kMaxNumSize ≤ kSmallBuffer) (v : UInt64) :
    insertPointer b v = .error (.noReturn "operator<<(const void *)") := by
  have hroom : ¬ b.avail ≥ kMaxNumSize := by
    rw [RawBuffer.avail]
    omega
  rw [insertPointer, if_neg hroom, missingReturn_none]

theorem insert_inserts (h : b.cur < kSmallBuffer) {p : Piece} (hp : ∀ v, p ≠ .pointer v) :
    Inserts b p (insert b p) := by
  cases p with
  | pointer v => exact absurd rfl (hp v)
  | short v =>
    have htoInt : toInt v.toInt32 = v.toInt := Int16.toInt_toInt32 v
    have := v.toInt_lt
    have := v.le_toInt
    exact formatInteger_inserts h (by rw [htoInt]; omega) rfl (by rw [htoInt]; rfl)
  | ushort v =>
    have htoInt : toInt v.toUInt32 = v.toNat := congrArg Nat.cast (UInt16.toNat_toUInt32 v)
    have := v.toNat_lt
    exact formatInteger_inserts h (by rw [htoInt]; omega) rfl (by rw [htoInt]; rfl)
  | int v =>
    have := v.toInt_lt
    have := v.le_toInt
    have hv : (toInt v).natAbs < 2 ^ 64 := by
      change v.toInt.natAbs < _
      omega
    exact formatInteger_inserts h hv rfl rfl
  | uint v =>
    have := v.toNat_lt
    have hv : (toInt v).natAbs < 2 ^ 64 := by
      change v.toNat < _
      omega
    exact formatInteger_inserts h hv rfl rfl
  | ulong v =>
    have hv : (toInt v).natAbs < 2 ^ 64 := v.toNat_lt
    exact formatInteger_inserts h hv rfl rfl
  | ulonglong v =>
    have hv : (toInt v).natAbs < 2 ^ 64 := v.toNat_lt
    exact formatInteger_inserts h hv rfl rfl
  | bool v => exact append_inserts h (p := .bool v) rfl
  | char v => exact append_inserts h (p := .char v) rfl
  | cstr str =>
    cases str with
    | none => exact append_inserts h (p := .cstr none) rfl
    | some str =>
      have hstr := CString.str_of_mem str.terminated
      have hins := append_inserts h (p := .cstr (some str)) rfl
      simp only [insert, hstr, deref_some, ok_bind]
      exact hins
  | string v => exact append_inserts h (p := .string v) rfl
  | stringPiece v => exact append_inserts h (p := .stringPiece v) rfl
  | buffer v => exact append_inserts h (p := .buffer v) rfl

end LogStream

namespace LogOp

variable {b b' : LogStream.Buffer} {o : LogOp}

theorem step_right (h : b.cur < kSmallBuffer) (ho : PointerFits b o) :
    ∃ b', step b o = .ok b' ∧ b'.cur < kSmallBuffer ∧ Right b o b' := by
  cases o with
  | resetBuffer =>
    have hempty : b.reset.cur < kSmallBuffer := Nat.zero_lt_succ _
    exact ⟨b.reset, rfl, hempty, hempty, Window.window_self _ _⟩
  | insert p =>
    have hins : Inserts b p (LogStream.insert b p) := by
      by_cases hp : ∃ v, p = .pointer v
      · obtain ⟨v, rfl⟩ := hp
        exact insertPointer_inserts ho v
      · exact insert_inserts h fun v he => hp ⟨v, he⟩
    obtain ⟨b', hb', hcur, hcontent⟩ := hins
    exact ⟨b', hb', hcur, hcur, hcontent⟩

theorem pointerFits_of_ok (hs : step b o = .ok b') : PointerFits b o := by
  unfold PointerFits
  split
  · by_contra hroom
    cases (insertPointer_error hroom _).symm.trans hs
  · trivial

end LogOp

/-- From whatever the memory holds a stream stays inside its array and shows whole
pieces exactly as long as no pointer comes without room for it. -/
theorem log_stream_whole_iff (memory : Vector UInt8 kSmallBuffer) (ops : List LogOp) :
    Holds LogOp.step LogOp.Right (RawBuffer.new memory) ops ↔
      Along LogOp.step LogOp.PointerFits (RawBuffer.new memory) ops := by
  refine holds_iff_along (I := fun b => b.cur < kSmallBuffer) (P := fun _ _ => True)
    (fun b o h _ => ⟨fun ⟨b', hs, _⟩ => LogOp.pointerFits_of_ok hs, fun ho => ?_⟩)
    (fun b o b' _ _ _ hr => hr.1) (Nat.zero_lt_succ _) (along_true ops _)
  obtain ⟨b', hs, -, hr⟩ := LogOp.step_right h ho
  exact ⟨b', hs, hr⟩

/-- Forty bytes are left when the pointer comes. -/
theorem log_stream_pointer_lost :
    ¬ Holds LogOp.step LogOp.Right (RawBuffer.new (Vector.replicate kSmallBuffer 0))
      [.insert (.string (List.replicate 3960 65)), .insert (.pointer 16)] := by
  rintro ⟨b₁, -, ⟨hlt, hcontent⟩, b₂, hs₂, -⟩
  have hlt' : b₁.cur < kSmallBuffer := hlt
  have hempty : (RawBuffer.new (Vector.replicate kSmallBuffer 0)).content = [] := Window.window_self _ _
  have hfits : (Piece.string (List.replicate 3960 65)).fits kSmallBuffer = true := by
    rw [Piece.fits, Piece.isNumber, if_neg Bool.false_ne_true, Piece.text, List.length_replicate]
    decide
  have hcur : b₁.cur = 3960 := by
    rw [← RawBuffer.content_length hlt'.le, hcontent, LogOp.shown, hempty, List.length_nil,
      Nat.sub_zero, if_pos hfits]
    exact List.length_replicate
  have hroom : ¬ b₁.cur + kMaxNumSize ≤ kSmallBuffer := by
    rw [hcur]
    decide
  cases (insertPointer_error hroom 16).symm.trans hs₂

end Czy
