import Czy.Sanity.Buffer
import Czy.Spec.BufferInts

/-! The fields of a message: what each function of Buffer on integers and byte strings
does, in terms of their bytes in network order. -/

namespace Czy.Net

open ByteOrder Window

/-- What a message is made of. -/
inductive Field
  | int8 (x : BitVec 8)
  | int16 (x : BitVec 16)
  | int32 (x : BitVec 32)
  | int64 (x : BitVec 64)
  | bytes (data : List UInt8)
  deriving DecidableEq

namespace Field

/-- Two's complement, the most significant byte first. -/
def encoding : Field → List UInt8
  | int8 x => bigEndian (w := 1) x
  | int16 x => bigEndian (w := 2) x
  | int32 x => bigEndian (w := 4) x
  | int64 x => bigEndian (w := 8) x
  | bytes data => data

def append (b : Buffer) : Field → Except Fault Buffer
  | int8 x => b.appendInt8 x
  | int16 x => b.appendInt16 x
  | int32 x => b.appendInt32 x
  | int64 x => b.appendInt64 x
  | bytes data => b.append data

def prepend (b : Buffer) : Field → Except Fault Buffer
  | int8 x => b.prependInt8 x
  | int16 x => b.prependInt16 x
  | int32 x => b.prependInt32 x
  | int64 x => b.prependInt64 x
  | bytes data => b.prepend data

/-- A field of the same type and length as this one is read. -/
def readLike (b : Buffer) : Field → Except Fault (Field × Buffer)
  | int8 _ => b.readInt8.map fun r => (int8 r.1, r.2)
  | int16 _ => b.readInt16.map fun r => (int16 r.1, r.2)
  | int32 _ => b.readInt32.map fun r => (int32 r.1, r.2)
  | int64 _ => b.readInt64.map fun r => (int64 r.1, r.2)
  | bytes data => (b.retriveAsString data.length).map fun r => (bytes r.1, r.2)

theorem append_eq (b : Buffer) (f : Field) : f.append b = b.append f.encoding := by
  cases f with
  | int8 x => exact congrArg b.append (bigEndian_one x).symm
  | int16 x => exact congrArg b.append (memory_swapBytes (w := 2) x)
  | int32 x => exact congrArg b.append (memory_swapBytes (w := 4) x)
  | int64 x => exact congrArg b.append (memory_swapBytes (w := 8) x)
  | bytes data => rfl

theorem prepend_eq (b : Buffer) (f : Field) : f.prepend b = b.prepend f.encoding := by
  cases f with
  | int8 x => exact congrArg b.prepend (bigEndian_one x).symm
  | int16 x => exact congrArg b.prepend (memory_swapBytes (w := 2) x)
  | int32 x => exact congrArg b.prepend (memory_swapBytes (w := 4) x)
  | int64 x => exact congrArg b.prepend (memory_swapBytes (w := 8) x)
  | bytes data => rfl

end Field

namespace Buffer

variable {b : Buffer} {w : ℕ} {x : BitVec (8 * w)} {rest : List UInt8}

theorem peekInt_spec (h : b.Inv) (hw : w ≤ b.readableBytes) (cond : String)
    (convert : BitVec (8 * w) → BitVec (8 * w)) :
    b.peekInt w cond convert = .ok (convert (ofMemory w (b.readable.take w))) := by
  have ho := h.order
  rw [peekInt, require_bind hw, readable, window_take (by unfold readableBytes at hw; omega)]
  rfl

theorem peekInt_front (h : b.Inv) (hread : b.readable = bigEndian x ++ rest) (cond : String)
    {convert : BitVec (8 * w) → BitVec (8 * w)} (hconvert : convert (ofMemory w (bigEndian x)) = x) :
    b.peekInt w cond convert = .ok x := by
  have hlen := readable_length h
  rw [hread, List.length_append, length_bigEndian] at hlen
  rw [peekInt_spec h (by omega), hread, List.take_left' (length_bigEndian x), hconvert]

theorem readInt_front (w : ℕ) (convert : BitVec (8 * w) → BitVec (8 * w)) (x : BitVec (8 * w))
    (hconvert : convert (ofMemory w (bigEndian x)) = x) (cond : String)
    (field : BitVec (8 * w) → Field) (h : b.Inv) (hread : b.readable = bigEndian x ++ rest) :
    ∃ b', (b.readInt (peekInt w cond convert) (retrive · w)).map (fun r => (field r.1, r.2)) =
        .ok (field x, b') ∧ b'.Inv ∧ b'.readable = rest := by
  have hlen := readable_length h
  rw [hread, List.length_append, length_bigEndian] at hlen
  obtain ⟨b', hb', hinv, hrest⟩ := retrive_spec h (show w ≤ b.readableBytes by omega)
  rw [hread, List.drop_left' (length_bigEndian x)] at hrest
  refine ⟨b', ?_, hinv, hrest⟩
  rw [readInt, peekInt_front h hread cond hconvert, ok_bind, hb']
  rfl

end Buffer

theorem Field.readLike_front {b : Buffer} {f : Field} {rest : List UInt8} (h : b.Inv)
    (hread : b.readable = f.encoding ++ rest) :
    ∃ b', f.readLike b = .ok (f, b') ∧ b'.Inv ∧ b'.readable = rest := by
  cases f with
  | int8 x =>
    have hone : ofMemory 1 (bigEndian (w := 1) x) = x :=
      (congrArg (ofMemory 1) (bigEndian_one x)).trans (ofMemory_memory (w := 1) x)
    exact Buffer.readInt_front 1 id x hone _ int8 h hread
  | int16 x =>
    exact Buffer.readInt_front 2 networkToHost16 x (swapBytes_ofMemory_bigEndian (w := 2) x) _ int16 h hread
  | int32 x =>
    exact Buffer.readInt_front 4 networkToHost32 x (swapBytes_ofMemory_bigEndian (w := 4) x) _ int32 h hread
  | int64 x =>
    exact Buffer.readInt_front 8 networkToHost64 x (swapBytes_ofMemory_bigEndian (w := 8) x) _ int64 h hread
  | bytes data =>
    have hlen := Buffer.readable_length h
    rw [hread, List.length_append] at hlen
    obtain ⟨b', hb', hinv, hrest⟩ := Buffer.retriveAsString_spec h
      (show data.length ≤ b.readableBytes by simp only [encoding] at hlen; omega)
    rw [hread, encoding, List.drop_left] at hrest
    refine ⟨b', ?_, hinv, hrest⟩
    rw [readLike, hb', hread, encoding, List.take_left]
    rfl

end Czy.Net
