import Citizen.MessageBuffer.Field

open Bits

namespace rl.MessageBuffer

variable {lengthHack : Bool}

@[simp] theorem hackLength_false (n : Nat) : hackLength false n = n := by simp [hackLength]

theorem le_hackLength (n : Nat) : n ≤ hackLength lengthHack n := by
  rw [hackLength]
  split <;> omega

/-- The accumulator of `ReadBitsSingle` holds the bits before byte `idx`, the
newest at bit `shift`; the low `shift` bits are still to come. -/
private def Gathered (data : List Byte) (shift count idx : Nat) (acc : BitVec 32) : Prop :=
  ∀ i < 32, acc.getLsbD i = (decide (shift ≤ i ∧ i < 8 * count) && bitAt data (8 * idx + shift - 1 - i))

private theorem getLsbD_getD {data : List Byte} {idx j : Nat} (hj : j < 8) :
    (data.getD idx 0).getLsbD j = bitAt data (8 * idx + 7 - j) := by
  rw [bitAt, show (8 * idx + 7 - j) / 8 = idx by omega, show (8 * idx + 7 - j) % 8 = 7 - j by omega,
    BitVec.getLsbD_eq_getMsbD]
  simp [hj]

private theorem gathered_first (data : List Byte) (shift idx : Nat) :
    Gathered data shift 1 (idx + 1) ((data.getD idx 0 <<< shift).setWidth 32) := by
  intro i hi
  rw [BitVec.getLsbD_setWidth, BitVec.getLsbD_shiftLeft]
  by_cases hin : shift ≤ i ∧ i < 8
  · rw [getLsbD_getD (by omega)]
    simp [hi, hin, show ¬ i < shift by omega, show 8 * idx + 7 - (i - shift) = 8 * (idx + 1) + shift - 1 - i by omega]
  · rcases Nat.lt_or_ge i shift with h | h
    · simp [h, show ¬ shift ≤ i by omega]
    · simp [show ¬ i < 8 by omega]

private theorem Gathered.step {data : List Byte} {shift count idx : Nat} {acc : BitVec 32}
    (h : Gathered data shift count idx acc) (hshift : shift < 8) (hcount : 1 ≤ count) :
    Gathered data shift (count + 1) (idx + 1)
      ((data.getD idx 0).setWidth 32 <<< shift ||| acc <<< 8) := by
  intro i hi
  rw [BitVec.getLsbD_or, BitVec.getLsbD_shiftLeft, BitVec.getLsbD_shiftLeft, BitVec.getLsbD_setWidth,
    h _ (by omega)]
  rcases Nat.lt_or_ge i shift with hlow | hlow
  · simp [hlow, show ¬ shift ≤ i by omega, show ¬ shift ≤ i - 8 by omega]
  · rcases Nat.lt_or_ge i (shift + 8) with hmid | hmid
    · rw [getLsbD_getD (by omega)]
      have hold : (decide (i < 32) && (!decide (i < 8) && (decide (shift ≤ i - 8 ∧ i - 8 < 8 * count) &&
          bitAt data (8 * idx + shift - 1 - (i - 8))))) = false := by
        by_cases h8 : i < 8
        · simp [h8]
        · simp [show ¬ shift ≤ i - 8 by omega]
      simp only [Bool.and_assoc] at hold ⊢
      rw [hold]
      simp [hi, show ¬ i < shift by omega, show i - shift < 32 by omega, hlow,
        show i < 8 * (count + 1) by omega,
        show 8 * idx + 7 - (i - shift) = 8 * (idx + 1) + shift - 1 - i by omega]
    · have hnew : (data.getD idx 0).getLsbD (i - shift) = false := BitVec.getLsbD_of_ge _ _ (by omega)
      rw [hnew, show 8 * idx + shift - 1 - (i - 8) = 8 * (idx + 1) + shift - 1 - i by omega]
      simp [hi, show ¬ i < 8 by omega, hlow, show shift ≤ i - 8 by omega,
        show i - 8 < 8 * count ↔ i < 8 * (count + 1) by omega]

private theorem gather_spec {data : List Byte} {shift : Nat} (remaining : Nat) {count idx : Nat} {acc : BitVec 32}
    (h : Gathered data shift count idx acc) (hshift : shift < 8) (hcount : 1 ≤ count) :
    Gathered data shift (count + remaining) (idx + remaining) (gather data shift remaining idx acc) := by
  induction remaining generalizing count idx acc with
  | zero => exact h
  | succ remaining ih =>
    have := ih (h.step hshift hcount) (by omega)
    rw [gather]
    convert this using 1 <;> omega

/-- The final or of `ReadBitsSingle` fills in the bits of the leftover byte. -/
private theorem Gathered.finish {data : List Byte} {shift count idx : Nat} {acc : BitVec 32}
    (h : Gathered data shift count idx acc) (hshift : shift < 8) (hcount : 1 ≤ count) {i : Nat} (hi : i < 32) :
    (if shift ≠ 0 then acc ||| (data.getD idx 0 >>> (8 - shift)).setWidth 32 else acc).getLsbD i =
      (decide (i < 8 * count) && bitAt data (8 * idx + shift - 1 - i)) := by
  by_cases hzero : shift = 0
  · rw [if_neg (by simpa using hzero), h i hi]
    simp [hzero]
  · rw [if_pos hzero, BitVec.getLsbD_or, h i hi, BitVec.getLsbD_setWidth, BitVec.getLsbD_ushiftRight]
    rcases Nat.lt_or_ge i shift with hlow | hlow
    · rw [getLsbD_getD (by omega), show 8 * idx + 7 - (8 - shift + i) = 8 * idx + shift - 1 - i by omega]
      simp [hi, show ¬ shift ≤ i by omega, show i < 8 * count by omega]
    · have hnew : (data.getD idx 0).getLsbD (8 - shift + i) = false := BitVec.getLsbD_of_ge _ _ (by omega)
      rw [hnew]
      simp [hlow]

/-- A successful `ReadBitsSingle` returns the `n` bits at the cursor as a
number, whatever the alignment, and moves past them. -/
theorem readBitsSingle_spec {b : MessageBuffer} {pos n : Nat} (hcur : b.curBit = pos)
    (hn : 1 ≤ hackLength lengthHack n) (hn32 : hackLength lengthHack n ≤ 32)
    (hsmall : pos + hackLength lengthHack n < 2 ^ 31) (hfit : pos + hackLength lengthHack n ≤ b.maxBit) :
    ∃ v : BitVec 32, b.readBitsSingle lengthHack n =
        (some v, { b with curBit := pos + hackLength lengthHack n }) ∧
      ∀ i, v.getLsbD i = (decide (i < hackLength lengthHack n) &&
        bitAt b.data (pos + hackLength lengthHack n - 1 - i)) := by
  generalize hlen : hackLength lengthHack n = len at *
  have hround : (len + 7) &&& 0xF8 = 8 * ((if 8 < len then (len - 9) / 8 + 1 else 0) + 1) := by
    interval_cases len <;> rfl
  have hwrap : int32 (pos + len) = pos + len := int32_eq (by omega) (by omega)
  simp only [readBitsSingle, hlen, hcur, hwrap, if_neg (show ¬ b.maxBit < pos + len by omega), Int.toNat_natCast]
  refine ⟨_, rfl, fun i => ?_⟩
  generalize hrem : (if 8 < len then (len - 9) / 8 + 1 else 0) = remaining at *
  have hacc := gather_spec remaining (gathered_first b.data (pos % 8) (pos / 8)) (by omega) (by omega)
  rw [BitVec.getLsbD_ushiftRight, hround]
  have hbytes : len ≤ 8 * (remaining + 1) ∧ 8 * (remaining + 1) < len + 8 := by
    split at hrem <;> omega
  by_cases hi : i < len
  · rw [hacc.finish (by omega) (by omega) (by omega)]
    simp only [hi, show 8 * (remaining + 1) - len + i < 8 * (1 + remaining) by omega, decide_true, Bool.true_and]
    exact congrArg (bitAt b.data) (by omega)
  · have hfar : ∀ v : BitVec 32, (∀ j < 32, 8 * (remaining + 1) ≤ j → v.getLsbD j = false) →
        v.getLsbD (8 * (remaining + 1) - len + i) = false := by
      intro v hv
      rcases Nat.lt_or_ge (8 * (remaining + 1) - len + i) 32 with h | h
      · exact hv _ h (by omega)
      · exact BitVec.getLsbD_of_ge _ _ h
    rw [hfar _ fun j hj hge => by rw [hacc.finish (by omega) (by omega) hj]; simp; omega]
    simp [hi]

/-- `ReadBitsSingle` past the limit fails, but moves the cursor all the same. -/
theorem readBitsSingle_short {b : MessageBuffer} {pos n : Nat} (hcur : b.curBit = pos)
    (hsmall : pos + hackLength lengthHack n < 2 ^ 31) (hfit : b.maxBit < pos + hackLength lengthHack n) :
    b.readBitsSingle lengthHack n = (none, { b with curBit := pos + hackLength lengthHack n }) := by
  have hwrap : int32 (pos + hackLength lengthHack n) = pos + hackLength lengthHack n :=
    int32_eq (by omega) (by omega)
  simp only [readBitsSingle, hcur, hwrap, if_pos hfit]

/-- A successful `WriteBitsSingle` stores the low `n` bits of the value, most
significant first, and changes no other bit. -/
theorem writeBitsSingle_spec {b : MessageBuffer} {pos n : Nat} (v : BitVec 32) (hcur : b.curBit = pos)
    (hn : 1 ≤ hackLength lengthHack n) (hn32 : hackLength lengthHack n ≤ 32)
    (hsmall : pos + hackLength lengthHack n < 2 ^ 31) (hfit : pos + hackLength lengthHack n ≤ b.maxBit)
    (hroom : pos + hackLength lengthHack n ≤ 8 * b.data.length) :
    ∃ data, b.writeBitsSingle lengthHack v n =
        some (true, { b with data, curBit := pos + hackLength lengthHack n }) ∧
      Splice b.data pos (hackLength lengthHack n) (fun i => v.getLsbD (hackLength lengthHack n - 1 - i)) data := by
  generalize hlen : hackLength lengthHack n = len at *
  have hwrap : int32 (pos + len) = pos + len := int32_eq (by omega) (by omega)
  have hvalue : ∀ i, (v <<< (32 - len)).getMsbD i = (decide (i < len) && v.getLsbD (len - 1 - i)) := by
    intro i
    rw [BitVec.getMsbD_shiftLeft, BitVec.getMsbD_eq_getLsbD]
    by_cases hi : i < len
    · simp [hi, show i + (32 - len) < 32 by omega, show 31 - (i + (32 - len)) = len - 1 - i by omega]
    · simp [hi, show ¬ i + (32 - len) < 32 by omega]
  obtain ⟨data, hdata, hsplice⟩ := mergeField_spec _ (d := b.data) (n := len) (v := v <<< (32 - len))
    (m := (-1 : BitVec 32) <<< (32 - len)) hn (fun i => getMsbD_topMask hn32) (fun i hi => by rw [hvalue]; simp; omega)
    (fun _ => rfl) hroom
  refine ⟨data, ?_, hsplice.congr fun i hi => ?_⟩
  · simp only [writeBitsSingle, hlen, hcur, hwrap, if_neg (show ¬ b.maxBit < pos + len by omega),
      Int.toNat_natCast, hdata]
    rfl
  · rw [hvalue]
    simp [hi]

theorem writeBitsSingle_full {b : MessageBuffer} {pos n : Nat} (v : BitVec 32) (hcur : b.curBit = pos)
    (hsmall : pos + hackLength lengthHack n < 2 ^ 31) (hfit : b.maxBit < pos + hackLength lengthHack n) :
    b.writeBitsSingle lengthHack v n = some (false, b) := by
  have hwrap : int32 (pos + hackLength lengthHack n) = pos + hackLength lengthHack n :=
    int32_eq (by omega) (by omega)
  simp only [writeBitsSingle, hcur, hwrap, if_pos hfit]

end rl.MessageBuffer
