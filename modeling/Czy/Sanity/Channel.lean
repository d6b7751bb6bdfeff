import Czy.Spec.Channel
import Mathlib.Tactic

/-! The two interests in `events_` do not disturb each other. The read bits are
what `isWriting` tests, the write bit is what `isReading` tests. -/

namespace Czy.Net

namespace Mask

/-- Bits that are set or cleared elsewhere leave a test alone. -/
theorem test_or_of_disjoint {m b : Mask} (h : m &&& b = 0) (e : Mask) :
    m.test (e ||| b) = m.test e := by
  unfold test
  rw [BitVec.and_or_distrib_left, h]
  simp

theorem test_and_not_of_disjoint {m b : Mask} (h : m &&& ~~~b = m) (e : Mask) :
    m.test (e &&& ~~~b) = m.test e := by
  unfold test
  rw [BitVec.and_comm e, ← BitVec.and_assoc, h]

theorem test_or_self {m : Mask} (h : m ≠ 0) (e : Mask) : m.test (e ||| m) = true := by
  have habs : m &&& (e ||| m) = m := by
    ext i hi
    simp only [BitVec.getElem_and, BitVec.getElem_or]
    cases m[i] <;> simp
  unfold test
  rw [habs]
  simpa using h

theorem test_and_not_self (m e : Mask) : m.test (e &&& ~~~m) = false := by
  have hnone : m &&& (e &&& ~~~m) = 0 := by
    ext i hi
    simp only [BitVec.getElem_and, BitVec.getElem_not]
    cases m[i] <;> simp
  unfold test
  rw [hnone]
  rfl

end Mask

namespace Channel

variable (c : Channel)

@[simp] theorem enableWriting_isWriting : c.enableWriting.isWriting = c.isWriting :=
  Mask.test_or_of_disjoint (by decide) _

@[simp] theorem disableWriting_isWriting : c.disableWriting.isWriting = c.isWriting :=
  Mask.test_and_not_of_disjoint (by decide) _

@[simp] theorem enableReading_isReading : c.enableReading.isReading = c.isReading :=
  Mask.test_or_of_disjoint (by decide) _

@[simp] theorem disableReading_isReading : c.disableReading.isReading = c.isReading :=
  Mask.test_and_not_of_disjoint (by decide) _

@[simp] theorem enableWriting_isReading : c.enableWriting.isReading = true :=
  Mask.test_or_self (by decide) _

@[simp] theorem disableWriting_isReading : c.disableWriting.isReading = false :=
  Mask.test_and_not_self _ _

@[simp] theorem disableReading_isWriting : c.disableReading.isWriting = false :=
  Mask.test_and_not_self _ _

@[simp] theorem disAbleAll_isWriting : c.disAbleAll.isWriting = false := by
  change KReadEvent.test 0 = false
  decide

end Channel

end Czy.Net
