import Citizen.MessageBuffer.RoundTrip

open Bits

namespace rl.MessageBuffer

/-- `WriteSigned<int>`: a sign bit, and a negative number with all its bits inverted. -/
def writeSigned (lengthHack : Bool) (b : MessageBuffer) (length : Nat) (data : BitVec 32) : Option MessageBuffer :=
  let sign : BitVec 32 := if data.slt 0 then 1 else 0
  let signEx : BitVec 32 := if data.slt 0 then 0xFFFFFFFF else 0
  let d := data ^^^ signEx
  (b.write lengthHack 1 sign).bind fun b => b.write lengthHack (length - 1) d

/-- `ReadSigned<int>`. -/
def readSigned (lengthHack : Bool) (b : MessageBuffer) (length : Nat) : BitVec 32 × MessageBuffer :=
  let (sign, _, b) := b.read lengthHack 1
  let (data, _, b) := b.read lengthHack (length - 1)
  (sign + (data ^^^ -sign), b)

/-- What is written is read back from the same position. -/
def SignedExact (b : MessageBuffer) (length : Nat) (v : Int) : Prop :=
  ∃ after : MessageBuffer, b.writeSigned false length (BitVec.ofInt 32 v) = some after ∧
    (({ after with curBit := b.curBit } : MessageBuffer).readSigned false length).1.toInt = v

theorem At.readStored {b : MessageBuffer} {data : List Byte} {pos n w : Nat} {v : BitVec w}
    (h : b.At data pos) (hn : 1 ≤ n) (hn32 : n ≤ 32) (hfit : pos + n ≤ 8 * data.length) (hfield : Field data pos n v) :
    ∃ b', b.read false n = (BitVec.ofNat 32 (v.toNat % 2 ^ n), true, b') ∧ b'.At data (pos + n) := by
  obtain ⟨b', hread, hat⟩ := h.readBitsSingle (hackLength_false n) hn hn32 hfit hfield
  exact ⟨b', by rw [MessageBuffer.read, hread], hat⟩

/-- The reader negates the bits that the writer inverted, so a negative number comes back one too large. -/
def comesBack (length : Nat) (v : BitVec 32) : BitVec 32 :=
  if v.slt 0 then -BitVec.ofNat 32 ((~~~v).toNat % 2 ^ (length - 1)) else BitVec.ofNat 32 (v.toNat % 2 ^ (length - 1))

theorem one_add_xor_neg_one (x : BitVec 32) : 1 + (x ^^^ -1) = -x := by
  have hones : (-1 : BitVec 32) = BitVec.allOnes 32 := by decide
  rw [hones, BitVec.xor_allOnes, BitVec.neg_eq_not_add, BitVec.add_comm]
  rfl

theorem writeSigned_readSigned {b : MessageBuffer} {data : List Byte} {pos length : Nat} (h : b.At data pos)
    (v : BitVec 32) (hlength : 2 ≤ length) (hlength32 : length ≤ 32) (hroom : pos + length ≤ 8 * data.length) :
    ∃ after : MessageBuffer, b.writeSigned false length v = some after ∧
      (({ after with curBit := b.curBit } : MessageBuffer).readSigned false length).1 = comesBack length v := by
  obtain ⟨b₁, data₁, hwrite₁, hat₁, hsplice₁⟩ :=
    h.write (if v.slt 0 then 1 else 0) (hackLength_false 1) (by omega) (by omega) (by omega)
  have hlen₁ := hsplice₁.length_eq
  obtain ⟨b₂, data₂, hwrite₂, hat₂, hsplice₂⟩ :=
    hat₁.write (n := length - 1) (v ^^^ (if v.slt 0 then 0xFFFFFFFF else 0)) (hackLength_false _) (by omega) (by omega)
      (by omega)
  have hlen₂ := hsplice₂.length_eq
  refine ⟨b₂, by rw [writeSigned, hwrite₁]; exact hwrite₂, ?_⟩
  have hstart : ({ b₂ with curBit := b.curBit } : MessageBuffer).At data₂ pos :=
    ⟨hat₂.data_eq, h.curBit_eq, hat₂.maxBit_eq, hat₂.small⟩
  have hsignField := (Field.of_splice hsplice₁).splice hsplice₂ le_rfl
  obtain ⟨b₃, hread₁, hat₃⟩ := hstart.readStored le_rfl (by omega) (by omega) hsignField
  obtain ⟨b₄, hread₂, -⟩ := hat₃.readStored (n := length - 1) (by omega) (by omega) (by omega)
    (Field.of_splice hsplice₂)
  rw [readSigned, hread₁]
  dsimp only
  rw [hread₂, comesBack]
  dsimp only
  cases hneg : v.slt 0 with
  | false => simp
  | true =>
    have hinv : v ^^^ 0xFFFFFFFF = ~~~v := BitVec.xor_allOnes
    simp only [if_true, hinv]
    exact one_add_xor_neg_one _

theorem toInt_ofNat_small {m : Nat} (h : m < 2 ^ 31) : (BitVec.ofNat 32 m).toInt = m := by
  rw [BitVec.toInt_ofNat']
  exact Int.bmod_eq_of_le (by omega) (by omega)

theorem comesBack_toInt {length : Nat} {v : Int} (hlength32 : length ≤ 32)
    (hlo : -(2 ^ (length - 1) : Int) ≤ v) (hhi : v < 2 ^ (length - 1)) :
    (comesBack length (BitVec.ofInt 32 v)).toInt = if v < 0 then v + 1 else v := by
  have hpow : 2 ^ (length - 1) ≤ 2 ^ 31 := Nat.pow_le_pow_right (by omega) (by omega)
  have hpowInt : ((2 ^ (length - 1) : Nat) : Int) = 2 ^ (length - 1) := by push_cast; rfl
  have htoInt : (BitVec.ofInt 32 v).toInt = v := by
    rw [BitVec.toInt_ofInt]
    exact Int.bmod_eq_of_le (by omega) (by omega)
  have hslt : (BitVec.ofInt 32 v).slt 0 = decide (v < 0) := by
    rw [BitVec.slt, htoInt]
    rfl
  have htoNat : ((BitVec.ofInt 32 v).toNat : Int) = v % 2 ^ 32 := by
    rw [BitVec.toNat_ofInt]
    omega
  rw [comesBack, hslt]
  by_cases hneg : v < 0
  · have hmagnitude : (~~~(BitVec.ofInt 32 v)).toNat = (-v - 1).toNat := by
      rw [BitVec.toNat_not]
      omega
    rw [if_pos (by simpa using hneg), if_pos hneg, hmagnitude, Nat.mod_eq_of_lt (by omega), BitVec.toInt_neg,
      toInt_ofNat_small (by omega), Int.bmod_eq_of_le (by omega) (by omega)]
    omega
  · have hmagnitude : (BitVec.ofInt 32 v).toNat = v.toNat := by omega
    rw [if_neg (by simpa using hneg), if_neg hneg, hmagnitude, Nat.mod_eq_of_lt (by omega),
      toInt_ofNat_small (by omega)]
    omega

/-- A number written with a sign is read back from the same place exactly if it is not negative. It has room, and is
one of those that `length` bits hold in two's complement. -/
theorem signed_roundTrip_iff (data : List Byte) {offset length : Nat} {v : Int} (hlength : 2 ≤ length)
    (hlength32 : length ≤ 32) (hlo : -(2 ^ (length - 1) : Int) ≤ v) (hhi : v < 2 ^ (length - 1))
    (hsmall : 8 * data.length < 2 ^ 31) (hroom : offset + length ≤ 8 * data.length) :
    SignedExact (seek data offset) length v ↔ 0 ≤ v := by
  have hat : (seek data offset).At data offset := ⟨rfl, rfl, (ofBytes_at hsmall).maxBit_eq, hsmall⟩
  obtain ⟨after, hwrite, hread⟩ := writeSigned_readSigned hat (BitVec.ofInt 32 v) hlength hlength32 hroom
  have hback := comesBack_toInt hlength32 hlo hhi
  rw [← hread] at hback
  constructor
  · rintro ⟨after', hwrite', hexact⟩
    obtain rfl := Option.some.inj (hwrite.symm.trans hwrite')
    rw [hback] at hexact
    split at hexact <;> omega
  · intro hnonneg
    exact ⟨after, hwrite, by rw [hback, if_neg (by omega)]⟩

theorem signed_roundTrip_five : SignedExact (seek [0, 0] 3) 8 5 :=
  (signed_roundTrip_iff [0, 0] (by decide) (by decide) (by decide) (by decide) (by decide) (by decide)).mpr (by decide)

/-- `-1` comes back as 0. -/
theorem signed_minus_one : ¬ SignedExact (seek [0, 0] 3) 8 (-1) := by
  rintro ⟨after, hwrite, hread⟩
  have hwritten : (seek [0, 0] 3).writeSigned false 8 (BitVec.ofInt 32 (-1)) = some ⟨[16, 0], 11, 16⟩ := by
    decide +kernel
  obtain rfl := Option.some.inj (hwritten.symm.trans hwrite)
  revert hread
  decide +kernel

end rl.MessageBuffer
