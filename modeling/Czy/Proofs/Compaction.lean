import Czy.Sanity.Buffer

/-! `makeSpace` moves the readable bytes to the front within the vector. -/

namespace Czy.Net.Buffer

open Window

/-- The copy in place does what a copy by way of another vector would do. -/
theorem makeSpaceInPlace_eq {b : Buffer} (h : b.Inv) (len : ℕ) :
    b.makeSpaceInPlace len = b.makeSpace len := by
  obtain ⟨hp, ho, hb⟩ := h
  have hend : b.readIndex + (b.writeIndex - b.readIndex) = b.writeIndex := by omega
  rw [makeSpaceInPlace, makeSpace, copyForward_eq hp (by omega), hend]

theorem makeSpace_cases {b b' : Buffer} {len : ℕ} (hm : b.makeSpace len = .ok b') :
    b' = b ∨ kCheapPrepend < b.readIndex ∧
      b' = ⟨overwrite b.buffer kCheapPrepend b.readable, kCheapPrepend,
        kCheapPrepend + b.readableBytes⟩ := by
  rw [makeSpace] at hm
  split_ifs at hm with hgrow
  · cases hm
    exact .inl rfl
  · rw [require_bind_ok, require_bind_ok] at hm
    obtain ⟨hread, -, hm⟩ := hm
    cases hm
    exact .inr ⟨hread, rfl⟩

/-- Where the bytes in front of the readable ones make up for what is missing behind them, the
readable bytes move to `kCheapPrepend`, and none is overwritten before it has been read. -/
theorem compaction {b : Buffer} {len : ℕ} (h : b.Inv) (hlt : b.writeableBytes < len)
    (hfit : len + kCheapPrepend ≤ b.writeableBytes + b.prependableBytes) :
    kCheapPrepend < b.readIndex ∧
      (∀ k < b.readableBytes, (copyForward b.buffer b.readIndex kCheapPrepend k)[b.readIndex + k]? =
        b.buffer[b.readIndex + k]?) ∧
      ∃ b', b.makeSpaceInPlace len = .ok b' ∧ b'.readIndex = kCheapPrepend ∧
        b'.readable = b.readable ∧ b'.buffer.length = b.buffer.length ∧ len ≤ b'.writeableBytes := by
  obtain ⟨b', hb', -, hread, hroom, -⟩ := makeSpace_spec h hlt hfit
  have hlen := readable_length h
  obtain rfl | ⟨hprepend, rfl⟩ := makeSpace_cases hb'
  · exact absurd hlt (by omega)
  rw [← makeSpaceInPlace_eq h] at hb'
  obtain ⟨hp, ho, hb⟩ := h
  unfold readableBytes at hlen
  refine ⟨hprepend, fun k hk => getElem?_copyForward hp ?_, _, hb', rfl, hread,
    length_overwrite (by omega), hroom⟩
  unfold readableBytes at hk
  omega

theorem compaction_overlap :
    let b : Buffer := ⟨[0, 0, 0, 0, 0, 0, 0, 0, 0, 0, 1, 2, 3, 0], 10, 13⟩
    kCheapPrepend < b.readIndex ∧
      (∀ k < b.readableBytes, (copyForward b.buffer b.readIndex kCheapPrepend k)[b.readIndex + k]? =
        b.buffer[b.readIndex + k]?) ∧
      ∃ b', b.makeSpaceInPlace 3 = .ok b' ∧ b'.readIndex = kCheapPrepend ∧
        b'.readable = b.readable ∧ b'.buffer.length = b.buffer.length ∧ 3 ≤ b'.writeableBytes :=
  compaction ⟨by decide, by decide, by decide⟩ (by decide) (by decide)

end Czy.Net.Buffer
