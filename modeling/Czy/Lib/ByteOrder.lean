import Mathlib.Data.List.Basic
import Mathlib.Tactic

/-! Numbers of a fixed width in bytes, in both byte orders. -/

namespace ByteOrder

/-- The lowest `w` bytes of a number, the least significant first. -/
def littleEndian : ℕ → ℕ → List UInt8
  | 0, _ => []
  | w + 1, n => UInt8.ofNat n :: littleEndian w (n / 256)

def ofLittleEndian : List UInt8 → ℕ
  | [] => 0
  | b :: bytes => b.toNat + 256 * ofLittleEndian bytes

@[simp] theorem length_littleEndian (w n : ℕ) : (littleEndian w n).length = w := by
  induction w generalizing n with
  | zero => rfl
  | succ w ih => rw [littleEndian, List.length_cons, ih]

theorem ofLittleEndian_littleEndian (w n : ℕ) : ofLittleEndian (littleEndian w n) = n % 256 ^ w := by
  induction w generalizing n with
  | zero => rw [pow_zero, Nat.mod_one]; rfl
  | succ w ih =>
    rw [littleEndian, ofLittleEndian, ih, pow_succ', Nat.mod_mul, UInt8.toNat_ofNat']

theorem littleEndian_ofLittleEndian (bytes : List UInt8) :
    littleEndian bytes.length (ofLittleEndian bytes) = bytes := by
  induction bytes with
  | nil => rfl
  | cons b bytes ih =>
    have hb : b.toNat < 256 := b.toNat_lt
    have hdigit : UInt8.ofNat (b.toNat + 256 * ofLittleEndian bytes) = b := by
      apply UInt8.toNat_inj.1
      rw [UInt8.toNat_ofNat']
      omega
    have hrest : (b.toNat + 256 * ofLittleEndian bytes) / 256 = ofLittleEndian bytes := by omega
    rw [List.length_cons, ofLittleEndian, littleEndian, hdigit, hrest, ih]

variable {w : ℕ}

/-- The memory of a word on a machine that stores the least significant byte first. -/
def memory (x : BitVec (8 * w)) : List UInt8 := littleEndian w x.toNat

def ofMemory (w : ℕ) (bytes : List UInt8) : BitVec (8 * w) := BitVec.ofNat _ (ofLittleEndian bytes)

/-- The bytes of a word in network order. -/
def bigEndian (x : BitVec (8 * w)) : List UInt8 := (memory x).reverse

/-- The word with its bytes in the reverse order. -/
def swapBytes (x : BitVec (8 * w)) : BitVec (8 * w) := ofMemory w (bigEndian x)

@[simp] theorem length_memory (x : BitVec (8 * w)) : (memory x).length = w := length_littleEndian _ _

@[simp] theorem length_bigEndian (x : BitVec (8 * w)) : (bigEndian x).length = w := by
  rw [bigEndian, List.length_reverse, length_memory]

@[simp] theorem ofMemory_memory (x : BitVec (8 * w)) : ofMemory w (memory x) = x := by
  have hx : x.toNat < 256 ^ w := by
    have := x.isLt
    rwa [pow_mul] at this
  rw [ofMemory, memory, ofLittleEndian_littleEndian, Nat.mod_eq_of_lt hx, BitVec.ofNat_toNat,
    BitVec.setWidth_eq]

theorem ofLittleEndian_lt (bytes : List UInt8) : ofLittleEndian bytes < 2 ^ (8 * bytes.length) := by
  have hself := congrArg ofLittleEndian (littleEndian_ofLittleEndian bytes)
  rw [ofLittleEndian_littleEndian] at hself
  rw [pow_mul, ← hself]
  exact Nat.mod_lt _ (by positivity)

theorem memory_ofMemory {bytes : List UInt8} (h : bytes.length = w) : memory (ofMemory w bytes) = bytes := by
  subst h
  have hlt := ofLittleEndian_lt bytes
  rw [memory, ofMemory, BitVec.toNat_ofNat, Nat.mod_eq_of_lt hlt, littleEndian_ofLittleEndian]

/-- A word in network order, as it stands in memory. -/
@[simp] theorem memory_swapBytes (x : BitVec (8 * w)) : memory (swapBytes x) = bigEndian x :=
  memory_ofMemory (length_bigEndian x)

@[simp] theorem swapBytes_swapBytes (x : BitVec (8 * w)) : swapBytes (swapBytes x) = x := by
  rw [swapBytes, bigEndian, memory_swapBytes, bigEndian, List.reverse_reverse, ofMemory_memory]

/-- What network order gives back of the bytes that it was given. -/
theorem swapBytes_ofMemory_bigEndian (x : BitVec (8 * w)) : swapBytes (ofMemory w (bigEndian x)) = x :=
  swapBytes_swapBytes x

theorem bigEndian_one (x : BitVec (8 * 1)) : bigEndian x = memory x := rfl

def ofBigEndian (bytes : List UInt8) : ℕ := bytes.foldl (fun n b => b.toNat + 256 * n) 0

/-- The same in two's complement: of the numbers of that many bytes, the upper half stands for
the negative ones. -/
def signedBigEndian (bytes : List UInt8) : ℤ :=
  if 2 * ofBigEndian bytes < 2 ^ (8 * bytes.length) then ofBigEndian bytes
  else (ofBigEndian bytes : ℤ) - 2 ^ (8 * bytes.length)

theorem ofLittleEndian_reverse (bytes : List UInt8) :
    ofLittleEndian bytes.reverse = ofBigEndian bytes := by
  have hfold : ∀ s, ofLittleEndian s = s.foldr (fun b n => b.toNat + 256 * n) 0 := by
    intro s
    induction s with
    | nil => rfl
    | cons b s ih => rw [ofLittleEndian, ih, List.foldr_cons]
  rw [hfold, List.foldr_reverse, ofBigEndian]

theorem swapBytes_ofMemory {bytes : List UInt8} (h : bytes.length = w) :
    swapBytes (ofMemory w bytes) = ofMemory w bytes.reverse := by
  rw [swapBytes, bigEndian, memory_ofMemory h]

theorem toInt_ofMemory_reverse {bytes : List UInt8} (h : bytes.length = w) :
    (ofMemory w bytes.reverse).toInt = signedBigEndian bytes := by
  subst h
  have hlt := ofLittleEndian_lt bytes.reverse
  rw [List.length_reverse, ofLittleEndian_reverse] at hlt
  rw [BitVec.toInt_eq_toNat_cond, ofMemory, ofLittleEndian_reverse, BitVec.toNat_ofNat,
    Nat.mod_eq_of_lt hlt, signedBigEndian]
  push_cast
  rfl

end ByteOrder
