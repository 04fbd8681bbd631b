import Citizen.MessageBuffer.Single
import Citizen.MessageBuffer.CopyBits

open Bits

namespace rl

theorem int32_le {x : Int} (h : 0 ≤ x) : int32 x ≤ x := by
  unfold int32
  split <;> omega

namespace MessageBuffer

variable {lengthHack : Bool}

/-- The cursor is at bit `pos` and the limit is not past the end of the buffer;
this holds of a buffer over any byte string, whatever its size. -/
structure Cursor (b : MessageBuffer) (pos : Nat) : Prop where
  curBit_eq : b.curBit = pos
  maxBit_le : b.maxBit ≤ 8 * b.data.length

theorem ofBytes_cursor (data : List Byte) : (ofBytes data).Cursor 0 := by
  have hlimit : int32 (8 * data.length) ≤ 8 * (data.length : Int) := int32_le (by omega)
  exact ⟨by simp [ofBytes], by simpa only [ofBytes] using hlimit⟩

theorem readBits_spec {b : MessageBuffer} {pos n : Nat} (out : List Byte) (h : b.Cursor pos)
    (hhack : hackLength lengthHack n = n) (hn : 1 ≤ n) (hsmall : pos + n < 2 ^ 31) (hfit : pos + n ≤ b.maxBit)
    (hout : n ≤ 8 * out.length) :
    ∃ out', b.readBits lengthHack out n = some (out', true, { b with curBit := pos + n }) ∧
      Splice out 0 n (fun i => bitAt b.data (pos + i)) out' := by
  have hmax := h.maxBit_le
  have hwrap : int32 (pos + n) = pos + n := int32_eq (by omega) (by omega)
  have hplain : ¬ ((n : Int) = 13 ∧ lengthHack = true) := by
    rintro ⟨h13, hhacked⟩
    have h13' : n = 13 := by omega
    rw [hackLength, if_pos ⟨h13', hhacked⟩] at hhack
    omega
  obtain ⟨out', hcopy, hsplice⟩ := copyBits_spec out b.data 0 pos hn (by omega) (by omega) (by omega) (by omega)
    (not_lastBefore pos (by omega))
  refine ⟨out', ?_, hsplice⟩
  simp only [readBits, if_neg (show ¬ (n : Int) = 0 by omega), if_neg hplain, h.curBit_eq, hwrap,
    if_neg (show ¬ b.maxBit < pos + n by omega), Int.toNat_natCast, hcopy]
  rfl

theorem readBits_zero (b : MessageBuffer) (out : List Byte) : b.readBits lengthHack out 0 = some (out, true, b) :=
  if_pos rfl

/-- A failed `ReadBits` leaves the destination and the cursor alone. -/
theorem readBits_short {b : MessageBuffer} {pos n : Nat} (out : List Byte) (hcur : b.curBit = pos)
    (hhack : hackLength lengthHack n = n) (hn : 1 ≤ n) (hsmall : pos + n < 2 ^ 31) (hfit : b.maxBit < pos + n) :
    b.readBits lengthHack out n = some (out, false, b) := by
  have hwrap : int32 (pos + n) = pos + n := int32_eq (by omega) (by omega)
  have hplain : ¬ ((n : Int) = 13 ∧ lengthHack = true) := by
    rintro ⟨h13, hhacked⟩
    have h13' : n = 13 := by omega
    rw [hackLength, if_pos ⟨h13', hhacked⟩] at hhack
    omega
  simp only [readBits, if_neg (show ¬ (n : Int) = 0 by omega), if_neg hplain, hcur, hwrap, if_pos hfit]

theorem writeBits_spec {b : MessageBuffer} {pos n : Nat} {source : List Byte} (h : b.Cursor pos)
    (hsmall : pos + n < 2 ^ 31) (hfit : pos + n ≤ b.maxBit) (hsource : n ≤ 8 * source.length) :
    ∃ data, b.writeBits source n = some (true, { b with data, curBit := pos + n }) ∧
      Splice b.data pos n (bitAt source) data := by
  have hmax := h.maxBit_le
  have hwrap : int32 (pos + n) = pos + n := int32_eq (by omega) (by omega)
  have hcopy : ∃ data, copyBits b.data source n pos 0 = some data ∧ Splice b.data pos n (bitAt source) data := by
    rcases Nat.eq_zero_or_pos n with rfl | hn
    · exact ⟨b.data, by simp [copyBits], .refl _ _ _⟩
    · obtain ⟨data, hdata, hsplice⟩ := copyBits_spec b.data source pos 0 hn (by omega) (by omega) (by omega) (by omega)
        (not_lastBefore 0 (by omega))
      exact ⟨data, hdata, hsplice.congr fun i _ => by rw [Nat.zero_add]⟩
  obtain ⟨data, hdata, hsplice⟩ := hcopy
  refine ⟨data, ?_, hsplice⟩
  simp only [writeBits, h.curBit_eq, hwrap, if_neg (show ¬ b.maxBit < pos + n by omega), Int.toNat_natCast, hdata]
  rfl

theorem writeBits_full {b : MessageBuffer} {pos n : Nat} {source : List Byte} (hcur : b.curBit = pos)
    (hsmall : pos + n < 2 ^ 31) (hfit : b.maxBit < pos + n) : b.writeBits source n = some (false, b) := by
  have hwrap : int32 (pos + n) = pos + n := int32_eq (by omega) (by omega)
  simp only [writeBits, hcur, hwrap, if_pos hfit]

/-- A number read from any buffer has `n` bits, and the cursor has moved past it. -/
theorem Cursor.readBitsSingle {b b' : MessageBuffer} {pos n : Nat} {v : BitVec 32} (h : b.Cursor pos)
    (hhack : hackLength lengthHack n = n) (hn : 1 ≤ n) (hn32 : n ≤ 32) (hsmall : pos + n < 2 ^ 31)
    (hread : b.readBitsSingle lengthHack n = (some v, b')) :
    v.toNat < 2 ^ n ∧ b'.Cursor (pos + n) ∧ b'.data = b.data ∧ pos + n ≤ b'.maxBit := by
  by_cases hfit : pos + n ≤ b.maxBit
  · obtain ⟨w, hspec, hbits⟩ := readBitsSingle_spec h.curBit_eq (hhack.symm ▸ hn)
      (by omega) (by omega) (by omega)
    rw [hhack] at hspec hbits
    obtain ⟨hv, hb⟩ := Prod.mk.inj (hread.symm.trans hspec)
    cases hv
    subst hb
    refine ⟨?_, ⟨by push_cast; rfl, h.maxBit_le⟩, rfl, hfit⟩
    apply Nat.lt_pow_two_of_testBit
    intro i hi
    have hbit := hbits i
    rw [decide_eq_false (by omega), Bool.false_and] at hbit
    exact hbit
  · rw [readBitsSingle_short h.curBit_eq (by omega) (by omega)] at hread
    cases (Prod.mk.inj hread).1

/-- The buffer holds exactly `data`, is small enough for its 32-bit counters,
and the cursor is at bit `pos`. -/
structure At (b : MessageBuffer) (data : List Byte) (pos : Nat) : Prop where
  data_eq : b.data = data
  curBit_eq : b.curBit = pos
  maxBit_eq : b.maxBit = 8 * data.length
  small : 8 * data.length < 2 ^ 31

theorem At.cursor {b : MessageBuffer} {data : List Byte} {pos : Nat} (h : b.At data pos) : b.Cursor pos :=
  ⟨h.curBit_eq, by rw [h.maxBit_eq, h.data_eq]⟩

theorem ofBytes_at {data : List Byte} (h : 8 * data.length < 2 ^ 31) : (ofBytes data).At data 0 := by
  have hlimit : int32 (8 * data.length) = 8 * (data.length : Int) := int32_eq (by omega) (by omega)
  exact ⟨rfl, by simp [ofBytes], by simpa only [ofBytes] using hlimit, h⟩

theorem At.getCurrentBit {b : MessageBuffer} {data : List Byte} {pos : Nat} (h : b.At data pos) :
    b.getCurrentBit = min pos (8 * data.length) := by
  have hsmall := h.small
  rw [MessageBuffer.getCurrentBit, h.curBit_eq, h.maxBit_eq]
  omega

theorem At.getDataLength {b : MessageBuffer} {data : List Byte} {pos : Nat} (h : b.At data pos) :
    b.getDataLength = (pos + 7) / 8 := by
  rw [MessageBuffer.getDataLength, h.curBit_eq]
  split <;> omega

section Step

variable {b : MessageBuffer} {data : List Byte} {pos n : Nat}

theorem At.write (h : b.At data pos) (v : BitVec 32) (hhack : hackLength lengthHack n = n) (hn : 1 ≤ n)
    (hn32 : n ≤ 32) (hfit : pos + n ≤ 8 * data.length) :
    ∃ b' data', b.write lengthHack n v = some b' ∧ b'.At data' (pos + n) ∧
      Splice data pos n (fun i => v.getLsbD (n - 1 - i)) data' := by
  obtain ⟨rfl, hcur, hmax, hsmall⟩ := h
  obtain ⟨data', hwrite, hsplice⟩ := writeBitsSingle_spec (b := b) v hcur (hhack.symm ▸ hn)
    (by omega) (by omega) (by omega) (by omega)
  rw [hhack] at hwrite hsplice
  have hlen := hsplice.length_eq
  refine ⟨_, data', by rw [MessageBuffer.write, hwrite]; rfl, ⟨rfl, by push_cast; rfl, ?_, ?_⟩, hsplice⟩
  · rw [hlen]
    exact hmax
  · rw [hlen]
    exact hsmall

theorem At.writeBits (h : b.At data pos) (source : List Byte) (hfit : pos + n ≤ 8 * data.length)
    (hsource : n ≤ 8 * source.length) :
    ∃ b' data', b.writeBits source n = some (true, b') ∧ b'.At data' (pos + n) ∧
      Splice data pos n (bitAt source) data' := by
  have hcursor := h.cursor
  obtain ⟨rfl, hcur, hmax, hsmall⟩ := h
  obtain ⟨data', hwrite, hsplice⟩ := writeBits_spec (n := n) hcursor (by omega) (by omega) hsource
  have hlen := hsplice.length_eq
  refine ⟨_, data', hwrite, ⟨rfl, by push_cast; rfl, ?_, ?_⟩, hsplice⟩
  · rw [hlen]
    exact hmax
  · rw [hlen]
    exact hsmall

theorem At.readBits (h : b.At data pos) (out : List Byte) (hhack : hackLength lengthHack n = n)
    (hfit : pos + n ≤ 8 * data.length) (hout : n ≤ 8 * out.length) :
    ∃ b' out', b.readBits lengthHack out n = some (out', true, b') ∧ b'.At data (pos + n) ∧
      Splice out 0 n (fun i => bitAt data (pos + i)) out' := by
  have hmax := h.maxBit_eq
  have hsmall := h.small
  rcases Nat.eq_zero_or_pos n with rfl | hn
  · exact ⟨b, out, readBits_zero b out, h, .refl _ _ _⟩
  · obtain ⟨out', hread, hsplice⟩ := readBits_spec out h.cursor hhack hn
      (by omega) (by omega) hout
    rw [h.data_eq] at hsplice
    exact ⟨_, out', hread, ⟨h.data_eq, by push_cast; rfl, hmax, hsmall⟩, hsplice⟩

/-- A number read back where `v` was stored is `v` cut to `n` bits. -/
theorem At.readBitsSingle {w : Nat} {v : BitVec w} (h : b.At data pos) (hhack : hackLength lengthHack n = n)
    (hn : 1 ≤ n) (hn32 : n ≤ 32) (hfit : pos + n ≤ 8 * data.length) (hfield : Field data pos n v) :
    ∃ b', b.readBitsSingle lengthHack n = (some (BitVec.ofNat 32 (v.toNat % 2 ^ n)), b') ∧ b'.At data (pos + n) := by
  have hmax := h.maxBit_eq
  have hsmall := h.small
  obtain ⟨r, hread, hbits⟩ := readBitsSingle_spec h.curBit_eq (hhack.symm ▸ hn)
    (by omega) (by omega) (by omega)
  rw [hhack] at hread
  refine ⟨{ b with curBit := pos + n }, ?_, ⟨h.data_eq, by push_cast; rfl, hmax, hsmall⟩⟩
  rw [hread]
  congr 2
  apply BitVec.eq_of_getLsbD_eq
  intro i hi
  rw [hbits, hhack, h.data_eq, BitVec.getLsbD_ofNat, Nat.testBit_mod_two_pow]
  by_cases hin : i < n
  · have hbit := hfield (n - 1 - i) (by omega)
    rw [show pos + (n - 1 - i) = pos + n - 1 - i by omega, show n - 1 - (n - 1 - i) = i by omega] at hbit
    rw [hbit]
    simp [hin, hi, BitVec.getLsbD]
  · simp [hin]

end Step

end MessageBuffer

end rl
