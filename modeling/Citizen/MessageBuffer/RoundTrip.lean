import Citizen.MessageBuffer.Cursor

open Bits

namespace rl.MessageBuffer

/-- `ReadBit`. -/
def readBit (b : MessageBuffer) : Byte × MessageBuffer :=
  let startIdx := b.curBit.toNat / 8
  let shift := 7 - b.curBit.toNat % 8
  if b.data.length ≤ startIdx then (0, b)
  else ((b.data.getD startIdx 0 >>> shift) &&& 1, { b with curBit := int32 (b.curBit + 1) })

/-- `WriteBit`. -/
def writeBit (b : MessageBuffer) (bit : Byte) : Bool × MessageBuffer :=
  let startIdx := b.curBit.toNat / 8
  let shift := 7 - b.curBit.toNat % 8
  if b.data.length ≤ startIdx then (false, b)
  else
    let byte := (b.data.getD startIdx 0 &&& ~~~((1 : Byte) <<< shift)) ||| (bit <<< shift)
    (true, { b with data := b.data.set startIdx byte, curBit := int32 (b.curBit + 1) })

/-- A `ReadBit` call for each of `n` bits. -/
def readEach : Nat → MessageBuffer → List Byte × MessageBuffer
  | 0, b => ([], b)
  | n + 1, b =>
    let (bit, b) := b.readBit
    let (bits, b) := readEach n b
    (bit :: bits, b)

/-- A `WriteBit` call for each bit, until one fails. -/
def writeEach : List Byte → MessageBuffer → Bool × MessageBuffer
  | [], b => (true, b)
  | bit :: bits, b =>
    match b.writeBit bit with
    | (true, b) => writeEach bits b
    | (false, b) => (false, b)

/-- A bit as `ReadBit` returns it. -/
def bitByte (bit : Bool) : Byte := if bit then 1 else 0

/-- The low `n` bits of a value, most significant first. -/
def lowBits (n : Nat) (v : BitVec 32) : List Byte := (List.range n).map fun i => bitByte (v.getLsbD (n - 1 - i))

variable {lengthHack : Bool}

theorem getLsbD_bitByte (bit : Bool) (k : Nat) : (bitByte bit).getLsbD k = (decide (k = 0) && bit) := by
  cases bit with
  | false => simp [bitByte]
  | true =>
    have hone : bitByte true = (BitVec.twoPow 8 0) := by decide
    rw [hone, BitVec.getLsbD_twoPow]
    simp [eq_comm]

private theorem getMsbD_setBit (b : Byte) (bit : Bool) {s j : Nat} (hs : s < 8) (hj : j < 8) :
    ((b &&& ~~~((1 : Byte) <<< (7 - s))) ||| (bitByte bit <<< (7 - s))).getMsbD j =
      if j = s then bit else b.getMsbD j := by
  have hone : (1 : Byte) = bitByte true := by decide
  simp only [BitVec.getMsbD_eq_getLsbD, hj, decide_true, Bool.true_and, BitVec.getLsbD_or, BitVec.getLsbD_and,
    BitVec.getLsbD_not, BitVec.getLsbD_shiftLeft, hone, getLsbD_bitByte]
  have hlt : 8 - 1 - j < 8 := by omega
  by_cases hjs : j = s
  · have hroom : 7 - s < 8 := by omega
    simp [hjs, hroom]
  · by_cases hlow : 8 - 1 - j < 7 - s
    · simp [hlt, hlow, hjs]
    · have hne : ¬ 8 - 1 - j - (7 - s) = 0 := by omega
      simp [hlt, hlow, hne, hjs]

theorem writeBit_spec {b : MessageBuffer} {pos : Nat} (bit : Bool) (hcur : b.curBit = pos)
    (hsmall : pos + 1 < 2 ^ 31) (hroom : pos < 8 * b.data.length) :
    ∃ data, b.writeBit (bitByte bit) = (true, { b with data, curBit := (pos + 1 : Nat) }) ∧
      Splice b.data pos 1 (fun _ => bit) data := by
  have hwrap : int32 (pos + 1) = (pos + 1 : Nat) := int32_eq (by omega) (by omega)
  have hidx : pos / 8 < b.data.length := by omega
  refine ⟨b.data.set (pos / 8) ((b.data.getD (pos / 8) 0 &&& ~~~((1 : Byte) <<< (7 - pos % 8))) |||
    (bitByte bit <<< (7 - pos % 8))), ?_, ?_⟩
  · rw [writeBit, hcur]
    dsimp only
    rw [Int.toNat_natCast, if_neg (Nat.not_le_of_lt hidx), hwrap]
  · refine ⟨List.length_set, fun i => ?_⟩
    rw [bitAt_set hidx]
    by_cases hbyte : i / 8 = pos / 8
    · rw [if_pos hbyte, getMsbD_setBit _ _ (Nat.mod_lt _ (by omega)) (Nat.mod_lt _ (by omega))]
      have hold : (b.data.getD (pos / 8) 0).getMsbD (i % 8) = bitAt b.data i := by rw [bitAt, hbyte]
      rw [hold]
      by_cases hin : i % 8 = pos % 8
      · rw [if_pos hin, if_pos (by omega)]
      · rw [if_neg hin, if_neg (by omega)]
    · rw [if_neg hbyte, if_neg (by omega)]

/-- `WriteBit` calls store the bits one after the other. -/
theorem writeEach_spec (bits : List Bool) {b : MessageBuffer} {pos : Nat} (hcur : b.curBit = pos)
    (hsmall : pos + bits.length < 2 ^ 31) (hroom : pos + bits.length ≤ 8 * b.data.length) :
    ∃ data, b.writeEach (bits.map bitByte) = (true, { b with data, curBit := (pos + bits.length : Nat) }) ∧
      Splice b.data pos bits.length (fun i => bits.getD i false) data := by
  induction bits generalizing b pos with
  | nil => exact ⟨b.data, by rw [List.map_nil, writeEach, List.length_nil, Nat.add_zero, ← hcur], .refl _ _ _⟩
  | cons bit bits ih =>
    rw [List.length_cons] at hsmall hroom
    obtain ⟨mid, hmid, hfirst⟩ := writeBit_spec bit hcur (by omega) (by omega)
    have hlen := hfirst.length_eq
    obtain ⟨data, hdata, hrest⟩ := ih (b := { b with data := mid, curBit := (pos + 1 : Nat) }) rfl (by omega)
      (by dsimp only; omega)
    refine ⟨data, ?_, ?_⟩
    · rw [List.map_cons, writeEach, hmid]
      dsimp only
      rw [hdata, List.length_cons, Nat.add_assoc, Nat.add_comm 1]
    · have hall := hfirst.trans hrest
      rw [Nat.add_comm 1] at hall
      refine hall.congr fun i hi => ?_
      cases i with
      | zero => rfl
      | succ i => rw [if_neg (by omega), Nat.add_sub_cancel, List.getD_cons_succ]

theorem readBit_spec {b : MessageBuffer} {pos : Nat} (hcur : b.curBit = pos) (hsmall : pos + 1 < 2 ^ 31)
    (hroom : pos < 8 * b.data.length) :
    b.readBit = (bitByte (bitAt b.data pos), { b with curBit := (pos + 1 : Nat) }) := by
  have hwrap : int32 (pos + 1) = (pos + 1 : Nat) := int32_eq (by omega) (by omega)
  rw [readBit, hcur]
  rw [Int.toNat_natCast, if_neg (by omega), hwrap]
  congr 1
  apply BitVec.eq_of_getLsbD_eq
  intro i hi
  have hone : (1 : Byte) = bitByte true := by decide
  rw [BitVec.getLsbD_and, BitVec.getLsbD_ushiftRight, hone, getLsbD_bitByte, getLsbD_bitByte, Bool.and_true]
  by_cases hzero : i = 0
  · subst hzero
    rw [bitAt, BitVec.getMsbD_eq_getLsbD]
    have hlt : pos % 8 < 8 := Nat.mod_lt _ (by omega)
    simp [hlt]
  · simp [hzero]

/-- `ReadBit` calls return the bits one after the other. -/
theorem readEach_spec (n : Nat) {b : MessageBuffer} {pos : Nat} (hcur : b.curBit = pos) (hsmall : pos + n < 2 ^ 31)
    (hroom : pos + n ≤ 8 * b.data.length) :
    b.readEach n = ((List.range n).map fun i => bitByte (bitAt b.data (pos + i)),
      { b with curBit := (pos + n : Nat) }) := by
  induction n generalizing b pos with
  | zero => rw [readEach, List.range_zero, List.map_nil, Nat.add_zero, ← hcur]
  | succ n ih =>
    rw [readEach, readBit_spec hcur (by omega) (by omega)]
    dsimp only
    rw [ih (b := { b with curBit := (pos + 1 : Nat) }) rfl (by omega) (by dsimp only; omega)]
    dsimp only
    rw [List.range_succ_eq_map, List.map_cons, List.map_map]
    have hshift : ∀ i, pos + 1 + i = pos + (i + 1) := fun i => by omega
    simp only [hshift, Nat.add_zero, Function.comp_def]

/-- A buffer over `data` with the cursor at bit `offset`. -/
def seek (data : List Byte) (offset : Nat) : MessageBuffer := { ofBytes data with curBit := offset }

theorem seek_cursor (data : List Byte) (offset : Nat) : (seek data offset).Cursor offset :=
  ⟨rfl, (ofBytes_cursor data).maxBit_le⟩

/-- The scalar calls of length `length` (`n` bits after the length hack) at `b`, which
write `value`: exact if the range fits, and refused otherwise. -/
structure ScalarExact (lengthHack : Bool) (b : MessageBuffer) (length : Nat) (value : BitVec 32) : Prop where
  fits : b.curBit + hackLength lengthHack length ≤ b.maxBit → ∃ after : MessageBuffer,
    b.writeBitsSingle lengthHack value length = some (true, after) ∧
    after.data.length = b.data.length ∧
    (∀ i : Nat, ¬ (b.curBit ≤ i ∧ i < b.curBit + hackLength lengthHack length) → bitAt after.data i = bitAt b.data i) ∧
    { after with curBit := b.curBit }.readBitsSingle lengthHack length =
      (some (BitVec.ofNat 32 (value.toNat % 2 ^ hackLength lengthHack length)), after) ∧
    b.writeEach (lowBits (hackLength lengthHack length) value) = (true, after) ∧
    { after with curBit := b.curBit }.readEach (hackLength lengthHack length) =
      (lowBits (hackLength lengthHack length) value, after)
  refused : b.maxBit < b.curBit + hackLength lengthHack length →
    b.writeBitsSingle lengthHack value length = some (false, b) ∧ (b.readBitsSingle lengthHack length).1 = none

theorem ext_splice {before after after' : List Byte} {pos n : Nat} {src : Nat → Bool}
    (h : Splice before pos n src after) (h' : Splice before pos n src after') : after = after' :=
  ext_bitAt (h.length_eq.trans h'.length_eq.symm) fun i _ => by rw [h.bit, h'.bit]

/-- A stored value is read back cut to the length, with the length hack applied. -/
theorem readBitsSingle_stored {b : MessageBuffer} {pos length : Nat} {v : BitVec 32} (hcur : b.curBit = pos)
    (hn : 1 ≤ hackLength lengthHack length) (hn32 : hackLength lengthHack length ≤ 32)
    (hsmall : pos + hackLength lengthHack length < 2 ^ 31) (hfit : pos + hackLength lengthHack length ≤ b.maxBit)
    (hstored : Field b.data pos (hackLength lengthHack length) v) :
    b.readBitsSingle lengthHack length = (some (BitVec.ofNat 32 (v.toNat % 2 ^ hackLength lengthHack length)),
      { b with curBit := pos + hackLength lengthHack length }) := by
  obtain ⟨r, hread, hbits⟩ := readBitsSingle_spec hcur hn hn32 hsmall hfit
  rw [hread]
  generalize hackLength lengthHack length = n at *
  congr 2
  apply BitVec.eq_of_getLsbD_eq
  intro i hi
  rw [hbits, BitVec.getLsbD_ofNat, Nat.testBit_mod_two_pow]
  by_cases hin : i < n
  · have hbit := hstored (n - 1 - i) (by omega)
    have hpos : pos + (n - 1 - i) = pos + n - 1 - i := by omega
    have hback : n - 1 - (n - 1 - i) = i := by omega
    rw [hpos, hback] at hbit
    rw [hbit]
    simp [hin, hi, BitVec.getLsbD]
  · simp [hin]

/-- The bits of a value, written one by one, are stored as by `WriteBitsSingle`. -/
private theorem writeEach_lowBits {b : MessageBuffer} {pos n : Nat} {v : BitVec 32} {after : List Byte}
    (hcur : b.curBit = pos) (hsmall : pos + n < 2 ^ 31) (hroom : pos + n ≤ 8 * b.data.length)
    (h : Splice b.data pos n (fun i => v.getLsbD (n - 1 - i)) after) :
    b.writeEach (lowBits n v) = (true, { b with data := after, curBit := (pos + n : Nat) }) := by
  have hlen : ((List.range n).map fun i => v.getLsbD (n - 1 - i)).length = n := by simp
  obtain ⟨after', hwrite, h'⟩ := writeEach_spec ((List.range n).map fun i => v.getLsbD (n - 1 - i)) hcur
    (hlen.symm ▸ hsmall) (hlen.symm ▸ hroom)
  rw [hlen] at hwrite h'
  have hsame : Splice b.data pos n (fun i => v.getLsbD (n - 1 - i)) after' := by
    refine h'.congr fun i hi => ?_
    simp [List.getD_eq_getElem?_getD, hi]
  rw [ext_splice h hsame, ← hwrite, List.map_map]
  rfl

private theorem readEach_stored {b : MessageBuffer} {pos n : Nat} {v : BitVec 32} (hcur : b.curBit = pos)
    (hsmall : pos + n < 2 ^ 31) (hroom : pos + n ≤ 8 * b.data.length) (hstored : Field b.data pos n v) :
    b.readEach n = (lowBits n v, { b with curBit := (pos + n : Nat) }) := by
  rw [readEach_spec n hcur hsmall hroom, lowBits]
  congr 1
  refine List.map_congr_left fun i hi => ?_
  rw [hstored i (List.mem_range.mp hi)]

/-- Scalar reads and writes are inverse to each other and agree with the bitwise calls,
for every buffer, offset and value. -/
theorem scalar_roundTrip (lengthHack : Bool) (data : List Byte) {offset length : Nat} (value : BitVec 32)
    (hlength : 1 ≤ length) (hlength32 : length ≤ 32) (hoffset : offset + hackLength lengthHack length < 2 ^ 31) :
    ScalarExact lengthHack (seek data offset) length value := by
  have hn : 1 ≤ hackLength lengthHack length ∧ hackLength lengthHack length ≤ 32 := by
    rw [hackLength]
    split <;> omega
  have hcursor := seek_cursor data offset
  refine ⟨fun hfit => ?_, fun hfit => ?_⟩
  · have hmax := hcursor.maxBit_le
    change (offset : Int) + hackLength lengthHack length ≤ (seek data offset).maxBit at hfit
    obtain ⟨after, hwrite, hsplice⟩ :=
      writeBitsSingle_spec value hcursor.curBit_eq hn.1 hn.2 hoffset hfit (by omega)
    have hlen := hsplice.length_eq
    have hroom : offset + hackLength lengthHack length ≤ 8 * (seek data offset).data.length := by omega
    have hstored : Field after offset (hackLength lengthHack length) value := .of_splice hsplice
    refine ⟨_, hwrite, hlen, fun i hi => hsplice.outside ?_, ?_, ?_, ?_⟩
    · change ¬ ((offset : Int) ≤ i ∧ (i : Int) < offset + hackLength lengthHack length) at hi
      omega
    · exact readBitsSingle_stored hcursor.curBit_eq hn.1 hn.2 hoffset hfit hstored
    · rw [writeEach_lowBits hcursor.curBit_eq hoffset hroom hsplice]
      push_cast
      rfl
    · rw [readEach_stored (b := { seek data offset with data := after }) rfl hoffset (by dsimp only; omega) hstored]
      push_cast
      rfl
  · exact ⟨writeBitsSingle_full value rfl hoffset hfit, by rw [readBitsSingle_short rfl hoffset hfit]⟩

theorem scalar_roundTrip_hacked : ScalarExact true (seek [255, 0, 255, 0] 3) 13 0x8001 :=
  scalar_roundTrip true _ _ (by decide) (by decide) (by decide)

/-- The bulk calls of `n` bits at `b`: what is written is read back, and a refused call
changes nothing. -/
structure BulkExact (lengthHack : Bool) (b : MessageBuffer) (source dest : List Byte) (n : Nat) : Prop where
  fits : b.curBit + n ≤ b.maxBit → ∃ after, b.writeBits source n = some (true, after)
  written : ∀ after, b.writeBits source n = some (true, after) →
    Splice b.data b.curBit.toNat n (bitAt source) after.data ∧
    ∃ dest', { after with curBit := b.curBit }.readBits lengthHack dest n = some (dest', true, after) ∧
      Splice dest 0 n (bitAt source) dest'
  unwritten : ∀ after, b.writeBits source n = some (false, after) → after = b
  unread : ∀ dest' after, b.readBits lengthHack dest n = some (dest', false, after) → dest' = dest ∧ after = b

/-- A refused `ReadBits` leaves the destination and the cursor alone. -/
theorem readBits_false {b after : MessageBuffer} {dest dest' : List Byte} {length : Int}
    (h : b.readBits lengthHack dest length = some (dest', false, after)) : dest' = dest ∧ after = b := by
  rw [readBits] at h
  split at h
  · cases h
  · dsimp only at h
    generalize (if length = 13 ∧ lengthHack = true then 16 else length) = length at h
    split at h
    · cases h
      exact ⟨rfl, rfl⟩
    · obtain ⟨out, -, hout⟩ := Option.bind_eq_some_iff.mp h
      cases hout

theorem writeBits_false {b after : MessageBuffer} {source : List Byte} {length : Int}
    (h : b.writeBits source length = some (false, after)) : after = b := by
  rw [writeBits] at h
  split at h
  · cases h
    rfl
  · obtain ⟨data, -, hdata⟩ := Option.bind_eq_some_iff.mp h
    cases hdata

/-- With the length hack, 13 written bits are read as 16. -/
theorem bulk_hacked {data source dest : List Byte} {offset : Nat} (hoffset : offset + 16 < 2 ^ 31)
    (hfit : offset + 13 ≤ (seek data offset).maxBit) : ¬ BulkExact true (seek data offset) source dest 13 := by
  intro hexact
  obtain ⟨after, hwrite⟩ := hexact.fits (by exact_mod_cast hfit)
  obtain ⟨-, dest', hread, -⟩ := hexact.written after hwrite
  have hafter : after.curBit = offset + 13 := by
    have hwrap : int32 (offset + 13) = offset + 13 := int32_eq (by omega) (by omega)
    rw [writeBits] at hwrite
    split at hwrite
    · cases hwrite
    · obtain ⟨after', -, hdata⟩ := Option.bind_eq_some_iff.mp hwrite
      cases hdata
      exact hwrap
  have hmoved : after.curBit = offset + 16 := by
    have hwrap : int32 (offset + 16) = offset + 16 := int32_eq (by omega) (by omega)
    have hsixteen : (if ((13 : Nat) : Int) = 13 ∧ true = true then (16 : Int) else (13 : Nat)) = 16 := rfl
    rw [readBits, if_neg (by decide)] at hread
    dsimp only at hread
    rw [hsixteen] at hread
    split at hread
    · cases hread
    · obtain ⟨out, -, hout⟩ := Option.bind_eq_some_iff.mp hread
      have hcur := congrArg curBit (Prod.mk.inj (Prod.mk.inj (Option.some.inj hout)).2).2
      exact hcur.symm.trans hwrap
  omega

/-- Bulk reads and writes are inverse to each other, except for 13 bits under the length
hack, which only `ReadBits` takes for 16. -/
theorem bulk_roundTrip_iff (lengthHack : Bool) (data : List Byte) {source dest : List Byte}
    {offset n : Nat} (hn : 1 ≤ n) (hoffset : offset + hackLength lengthHack n < 2 ^ 31)
    (hsource : n ≤ 8 * source.length)
    (hdest : n ≤ 8 * dest.length) :
    BulkExact lengthHack (seek data offset) source dest n ↔
      ¬ (n = 13 ∧ lengthHack = true ∧ offset + 13 ≤ (seek data offset).maxBit) := by
  have hcursor := seek_cursor data offset
  constructor
  · rintro hexact ⟨rfl, rfl, hfit⟩
    exact bulk_hacked hoffset hfit hexact
  · intro hplain
    have hge : n ≤ hackLength lengthHack n := by
      rw [hackLength]
      split <;> omega
    have hwrites : (offset : Int) + n ≤ (seek data offset).maxBit → ∃ after,
        (seek data offset).writeBits source n =
          some (true, { seek data offset with data := after, curBit := offset + n }) ∧
        Splice data offset n (bitAt source) after := fun hfit =>
      writeBits_spec hcursor (by omega) hfit hsource
    refine ⟨fun hfit => ?_, fun after hafter => ?_, fun after => writeBits_false, fun dest' after => readBits_false⟩
    · obtain ⟨after, hwrite, -⟩ := hwrites hfit
      exact ⟨_, hwrite⟩
    · by_cases hfit : (offset : Int) + n ≤ (seek data offset).maxBit
      · obtain ⟨after', hwrite, hsplice⟩ := hwrites hfit
        obtain rfl := (Prod.mk.inj (Option.some.inj (hwrite.symm.trans hafter))).2
        have hhack : hackLength lengthHack n = n := by
          rw [hackLength, if_neg]
          rintro ⟨rfl, rfl⟩
          exact hplain ⟨rfl, rfl, hfit⟩
        have hread : ({ seek data offset with data := after' } : MessageBuffer).Cursor offset :=
          ⟨rfl, by rw [hsplice.length_eq]; exact hcursor.maxBit_le⟩
        obtain ⟨dest', hdest', hcopied⟩ := readBits_spec dest hread hhack hn (by omega) hfit hdest
        refine ⟨hsplice, dest', hdest', hcopied.congr fun i hi => hsplice.inside hi⟩
      · rw [writeBits_full rfl (by omega) (by omega)] at hafter
        cases hafter

theorem bulk_roundTrip_twelve : BulkExact true (seek [0, 255, 0] 3) [171, 205] [0, 0] 12 :=
  (bulk_roundTrip_iff true _ (by decide) (by decide) (by decide) (by decide)).mpr fun h => absurd h.1 (by decide)

/-- Thirteen bits under the length hack are written as 13 and read as 16. -/
theorem bulk_thirteen : ¬ BulkExact true (seek [0, 0, 0] 0) [255, 255] [0, 0] 13 :=
  bulk_hacked (by decide) (by decide)

end rl.MessageBuffer
