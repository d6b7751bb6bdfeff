import Czy.Sanity.BufferInts

/-! Any sequence of reads of a buffer takes consecutive slices of the readable bytes. -/

namespace Czy.Net

open ByteOrder

inductive ReadRequest
  | readInt8
  | readInt16
  | readInt32
  | readInt64
  | retriveAsString (len : ℕ)
  | peekInt8
  | peekInt16
  | peekInt32
  | peekInt64
  deriving DecidableEq

inductive ReadResult
  | int (n : ℤ)
  | bytes (data : List UInt8)
  deriving DecidableEq

namespace ReadRequest

def exec (b : Buffer) : ReadRequest → Except Fault (ReadResult × Buffer)
  | readInt8 => b.readInt8.map fun r => (.int r.1.toInt, r.2)
  | readInt16 => b.readInt16.map fun r => (.int r.1.toInt, r.2)
  | readInt32 => b.readInt32.map fun r => (.int r.1.toInt, r.2)
  | readInt64 => b.readInt64.map fun r => (.int r.1.toInt, r.2)
  | retriveAsString len => (b.retriveAsString len).map fun r => (.bytes r.1, r.2)
  | peekInt8 => b.peekInt8.map fun x => (.int x.toInt, b)
  | peekInt16 => b.peekInt16.map fun x => (.int x.toInt, b)
  | peekInt32 => b.peekInt32.map fun x => (.int x.toInt, b)
  | peekInt64 => b.peekInt64.map fun x => (.int x.toInt, b)

def execAll : List ReadRequest → Buffer → Except Fault (List ReadResult × Buffer)
  | [], b => .ok ([], b)
  | c :: cs, b => do
    let (r, b) ← c.exec b
    let (rs, b) ← execAll cs b
    return (r :: rs, b)

def width : ReadRequest → ℕ
  | readInt8 | peekInt8 => 1
  | readInt16 | peekInt16 => 2
  | readInt32 | peekInt32 => 4
  | readInt64 | peekInt64 => 8
  | retriveAsString len => len

def IsPeek : ReadRequest → Prop
  | peekInt8 | peekInt16 | peekInt32 | peekInt64 => True
  | _ => False

instance : DecidablePred IsPeek := by
  intro c
  cases c <;> unfold IsPeek <;> infer_instance

def consumed (c : ReadRequest) : ℕ := if c.IsPeek then 0 else c.width

/-- Each peek comes where as many bytes are left as it looks at. -/
def PeeksFit : List ReadRequest → ℕ → Prop
  | [], _ => True
  | c :: cs, n => (c.IsPeek → c.width ≤ n) ∧ PeeksFit cs (n - c.consumed)

def value (slice : List UInt8) : ReadRequest → ReadResult
  | retriveAsString _ => .bytes slice
  | _ => .int (signedBigEndian slice)

def slices : List ReadRequest → List UInt8 → List ReadResult
  | [], _ => []
  | c :: cs, s => c.value (s.take c.width) :: slices cs (s.drop c.consumed)

variable {b : Buffer} {w : ℕ} {cond : String} {convert : BitVec (8 * w) → BitVec (8 * w)}

theorem peekInt_exec (hconvert : ∀ bytes : List UInt8, bytes.length = w →
      convert (ofMemory w bytes) = ofMemory w bytes.reverse) (h : b.Inv)
    (hw : w ≤ b.readableBytes) (cond : String) :
    (b.peekInt w cond convert).map (fun x => (ReadResult.int x.toInt, b)) =
      .ok (.int (signedBigEndian (b.readable.take w)), b) := by
  have hlen : (b.readable.take w).length = w := by
    rw [List.length_take, Buffer.readable_length h]
    omega
  rw [Buffer.peekInt_spec h hw, hconvert _ hlen, Except.map, toInt_ofMemory_reverse hlen]

/-- The last read takes the way of `retriveAll`. -/
theorem readInt_exec (hconvert : ∀ bytes : List UInt8, bytes.length = w →
      convert (ofMemory w bytes) = ofMemory w bytes.reverse) (h : b.Inv)
    (hw : w ≤ b.readableBytes) (cond : String) :
    ∃ b', (b.readInt (Buffer.peekInt w cond convert) (Buffer.retrive · w)).map
        (fun r => (ReadResult.int r.1.toInt, r.2)) =
        .ok (.int (signedBigEndian (b.readable.take w)), b') ∧ b'.Inv ∧
      b'.readable = b.readable.drop w := by
  have hlen : (b.readable.take w).length = w := by
    rw [List.length_take, Buffer.readable_length h]
    omega
  obtain ⟨b', hb', hinv, hrest⟩ := Buffer.retrive_spec h hw
  refine ⟨b', ?_, hinv, hrest⟩
  rw [Buffer.readInt, Buffer.peekInt_spec h hw, ok_bind, hb', ok_bind, hconvert _ hlen,
    ← toInt_ofMemory_reverse hlen]
  rfl

theorem one_convert (bytes : List UInt8) (h : bytes.length = 1) :
    id (ofMemory 1 bytes) = ofMemory 1 bytes.reverse := by
  obtain ⟨x, rfl⟩ := List.length_eq_one_iff.1 h
  rfl

theorem exec_spec {c : ReadRequest} (h : b.Inv) (hw : c.width ≤ b.readableBytes) :
    ∃ b', c.exec b = .ok (c.value (b.readable.take c.width), b') ∧ b'.Inv ∧
      b'.readable = b.readable.drop c.consumed := by
  cases c with
  | readInt8 => exact readInt_exec one_convert h hw _
  | readInt16 => exact readInt_exec (w := 2) (fun _ => swapBytes_ofMemory) h hw _
  | readInt32 => exact readInt_exec (w := 4) (fun _ => swapBytes_ofMemory) h hw _
  | readInt64 => exact readInt_exec (w := 8) (fun _ => swapBytes_ofMemory) h hw _
  | retriveAsString len =>
    obtain ⟨b', hb', hinv, hrest⟩ := Buffer.retriveAsString_spec h
      (show len ≤ b.readableBytes from hw)
    exact ⟨b', by rw [exec, hb']; rfl, hinv, hrest⟩
  | peekInt8 => exact ⟨b, peekInt_exec one_convert h hw _, h, rfl⟩
  | peekInt16 => exact ⟨b, peekInt_exec (w := 2) (fun _ => swapBytes_ofMemory) h hw _, h, rfl⟩
  | peekInt32 => exact ⟨b, peekInt_exec (w := 4) (fun _ => swapBytes_ofMemory) h hw _, h, rfl⟩
  | peekInt64 => exact ⟨b, peekInt_exec (w := 8) (fun _ => swapBytes_ofMemory) h hw _, h, rfl⟩

theorem peekInt_short (hw : b.readableBytes < w) :
    (b.peekInt w cond convert).map (fun x => (ReadResult.int x.toInt, b)) =
      .error (.assertion cond) := by
  rw [Buffer.peekInt, require, if_neg (by omega)]
  rfl

theorem exec_short {c : ReadRequest} (hpeek : c.IsPeek) (hw : b.readableBytes < c.width) :
    ∃ cond, c.exec b = .error (.assertion cond) := by
  cases c with
  | peekInt8 => exact ⟨_, peekInt_short hw⟩
  | peekInt16 => exact ⟨_, peekInt_short hw⟩
  | peekInt32 => exact ⟨_, peekInt_short hw⟩
  | peekInt64 => exact ⟨_, peekInt_short hw⟩
  | _ => exact hpeek.elim

/-- The calls read consecutive slices, and what they leave is the rest of the bytes. -/
def ReadsSlices (b : Buffer) (calls : List ReadRequest) (b' : Buffer) : Prop :=
  execAll calls b = .ok (slices calls b.readable, b') ∧ b'.Inv ∧
    b'.readable = b.readable.drop (calls.map consumed).sum

/-- The calls before `c` have left fewer bytes than `c` peeks at. -/
def PeeksTooFar (b' : Buffer) (c : ReadRequest) : Prop :=
  c.IsPeek ∧ b'.readableBytes < c.width ∧ ∃ cond, c.exec b' = .error (.assertion cond)

theorem readsSlices_cons {b₁ b' : Buffer} {c : ReadRequest} {calls : List ReadRequest}
    (hc : c.exec b = .ok (c.value (b.readable.take c.width), b₁))
    (hrest : b₁.readable = b.readable.drop c.consumed) (h : ReadsSlices b₁ calls b') :
    ReadsSlices b (c :: calls) b' := by
  obtain ⟨hall, hinv, hread⟩ := h
  refine ⟨?_, hinv, ?_⟩
  · rw [execAll, hc, ok_bind]
    simp only [hall, ok_bind, slices, hrest]
    rfl
  · rw [hread, hrest, List.drop_drop, List.map_cons, List.sum_cons]

theorem width_le {c : ReadRequest} {n m : ℕ} (hfits : c.IsPeek → c.width ≤ n)
    (hsum : c.consumed + m ≤ n) : c.width ≤ n := by
  by_cases hpeek : c.IsPeek
  · exact hfits hpeek
  · rw [consumed, if_neg hpeek] at hsum
    omega

/-- Where every peek fits all calls read their slices; else all up to a peek that finds too
few bytes. -/
theorem schedule_reads_slices {calls : List ReadRequest} (h : b.Inv)
    (hsum : (calls.map consumed).sum ≤ b.readableBytes) :
    (PeeksFit calls b.readableBytes → ∃ b', ReadsSlices b calls b') ∧
      (¬ PeeksFit calls b.readableBytes →
        ∃ before c after b', calls = before ++ c :: after ∧ ReadsSlices b before b' ∧
          PeeksTooFar b' c) := by
  induction calls generalizing b with
  | nil => exact ⟨fun _ => ⟨b, rfl, h, rfl⟩, fun hnot => (hnot trivial).elim⟩
  | cons c calls ih =>
    rw [List.map_cons, List.sum_cons] at hsum
    by_cases hfits : c.IsPeek → c.width ≤ b.readableBytes
    · obtain ⟨b₁, hc, hinv, hrest⟩ := exec_spec h (width_le hfits hsum)
      have hlen := congrArg List.length hrest
      rw [List.length_drop, Buffer.readable_length hinv, Buffer.readable_length h] at hlen
      obtain ⟨hall, hfar⟩ := ih hinv (by omega)
      rw [PeeksFit, and_iff_right hfits, ← hlen]
      constructor
      · intro hrests
        obtain ⟨b', hb'⟩ := hall hrests
        exact ⟨b', readsSlices_cons hc hrest hb'⟩
      · intro hnot
        obtain ⟨before, d, after, b', rfl, hbefore, htoo⟩ := hfar hnot
        exact ⟨c :: before, d, after, b', rfl, readsSlices_cons hc hrest hbefore, htoo⟩
    · obtain ⟨hpeek, hshort⟩ := Classical.not_imp.1 hfits
      refine ⟨fun hall => (hfits hall.1).elim, fun _ => ⟨[], c, calls, b, rfl, ⟨rfl, h, rfl⟩, hpeek, ?_⟩⟩
      exact ⟨Nat.lt_of_not_le hshort, exec_short hpeek (Nat.lt_of_not_le hshort)⟩

theorem schedule_reads_all :
    ∃ b', ReadsSlices ⟨[0, 0, 0, 0, 0, 0, 0, 0, 255, 254, 7], 8, 11⟩
      [peekInt16, readInt16, readInt8] b' :=
  (schedule_reads_slices (b := ⟨[0, 0, 0, 0, 0, 0, 0, 0, 255, 254, 7], 8, 11⟩)
    ⟨by decide, by decide, by decide⟩ (by decide)).1
    ⟨fun _ => by decide, fun hpeek => hpeek.elim, fun hpeek => hpeek.elim, trivial⟩

/-- A peek at two bytes where there is one, which is then read. -/
theorem schedule_peeks_too_far :
    Buffer.Inv ⟨[0, 0, 0, 0, 0, 0, 0, 0, 7], 8, 9⟩ ∧
      ([peekInt16, readInt8].map consumed).sum ≤
        Buffer.readableBytes ⟨[0, 0, 0, 0, 0, 0, 0, 0, 7], 8, 9⟩ ∧
      execAll [peekInt16, readInt8] ⟨[0, 0, 0, 0, 0, 0, 0, 0, 7], 8, 9⟩ =
        .error (.assertion "readableBytes() >= sizeof(int16_t)") ∧
      ¬ ∃ b', ReadsSlices ⟨[0, 0, 0, 0, 0, 0, 0, 0, 7], 8, 9⟩ [peekInt16, readInt8] b' := by
  have hfails : execAll [peekInt16, readInt8] ⟨[0, 0, 0, 0, 0, 0, 0, 0, 7], 8, 9⟩ =
      .error (.assertion "readableBytes() >= sizeof(int16_t)") := rfl
  refine ⟨⟨by decide, by decide, by decide⟩, by decide, hfails, ?_⟩
  rintro ⟨b', hok, -⟩
  cases hfails.symm.trans hok

end ReadRequest

end Czy.Net
