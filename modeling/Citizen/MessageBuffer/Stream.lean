import Citizen.MessageBuffer.RoundTrip

namespace Bits

/-- The bits of a byte string. -/
def bitsOf (d : List Byte) : List Bool := (List.range (8 * d.length)).map (bitAt d)

/-- The low `n` bits of a number, most significant first. -/
def fieldBits (n : Nat) {w : Nat} (v : BitVec w) : List Bool := (List.range n).map fun i => v.getLsbD (n - 1 - i)

/-- The bits stored at bit `pos`. -/
def Stored (d : List Byte) (pos : Nat) (bits : List Bool) : Prop :=
  ∀ i < bits.length, bitAt d (pos + i) = bits.getD i false

@[simp] theorem length_bitsOf (d : List Byte) : (bitsOf d).length = 8 * d.length := by simp [bitsOf]

@[simp] theorem length_fieldBits (n : Nat) {w : Nat} (v : BitVec w) : (fieldBits n v).length = n := by
  simp [fieldBits]

theorem getD_bitsOf (d : List Byte) (i : Nat) : (bitsOf d).getD i false = bitAt d i := by
  by_cases hi : i < 8 * d.length
  · simp [bitsOf, List.getD_eq_getElem?_getD, hi]
  · rw [List.getD_eq_default _ _ (by simpa using hi), bitAt_of_length_le (by omega)]

theorem getD_fieldBits {n i : Nat} (hi : i < n) {w : Nat} (v : BitVec w) :
    (fieldBits n v).getD i false = v.getLsbD (n - 1 - i) := by
  simp [fieldBits, List.getD_eq_getElem?_getD, hi]

@[simp] theorem bitsOf_nil : bitsOf [] = [] := rfl

theorem bitsOf_append (d e : List Byte) : bitsOf (d ++ e) = bitsOf d ++ bitsOf e := by
  apply List.ext_getElem
  · simp
    omega
  · intro i h₁ h₂
    have hget : ∀ (l : List Bool) (h : i < l.length), l[i] = l.getD i false := by
      intro l h
      rw [List.getD_eq_getElem _ _ h]
    rw [hget _ h₁, hget _ h₂, getD_bitsOf, bitAt_append]
    split
    · rw [List.getD_append _ _ _ _ (by simpa using ‹_›), getD_bitsOf]
    · rw [List.getD_append_right _ _ _ _ (by simp; omega), getD_bitsOf, length_bitsOf]

theorem fieldBits_congr {n w w' : Nat} {v : BitVec w} {v' : BitVec w'}
    (h : ∀ i < n, v.getLsbD i = v'.getLsbD i) : fieldBits n v = fieldBits n v' := by
  apply List.map_congr_left
  intro i hi
  rw [List.mem_range] at hi
  exact h _ (by omega)

/-- A whole byte is its eight bits. -/
theorem bitsOf_byte (b : Byte) : bitsOf [b] = fieldBits 8 b := by
  apply List.map_congr_left
  intro i hi
  have hi8 : i < 8 := by simpa using hi
  simp [bitAt, Nat.div_eq_of_lt hi8, Nat.mod_eq_of_lt hi8, BitVec.getMsbD_eq_getLsbD, hi8]

namespace Stored

variable {d : List Byte} {pos : Nat} {bits bits' : List Bool}

theorem nil (d : List Byte) (pos : Nat) : Stored d pos [] := fun _ h => absurd h (Nat.not_lt_zero _)

theorem append_iff : Stored d pos (bits ++ bits') ↔ Stored d pos bits ∧ Stored d (pos + bits.length) bits' := by
  constructor
  · intro h
    refine ⟨fun i hi => ?_, fun i hi => ?_⟩
    · rw [h i (by rw [List.length_append]; omega), List.getD_append _ _ _ _ hi]
    · rw [Nat.add_assoc, h _ (by rw [List.length_append]; omega), List.getD_append_right _ _ _ _ (by omega),
        Nat.add_sub_cancel_left]
  · rintro ⟨h, h'⟩ i hi
    rw [List.length_append] at hi
    by_cases hin : i < bits.length
    · rw [h i hin, List.getD_append _ _ _ _ hin]
    · rw [List.getD_append_right _ _ _ _ (by omega), ← h' _ (by omega)]
      congr 1
      omega

theorem self (d : List Byte) : Stored d 0 (bitsOf d) := fun i _ => by rw [Nat.zero_add, getD_bitsOf]

/-- Bits before a replaced range stay, and the range holds the new bits. -/
theorem splice {after : List Byte} {n : Nat} {src : Nat → Bool} (h : Stored d 0 bits)
    (hsplice : Splice d bits.length n src after) (hlen : bits'.length = n)
    (hsrc : ∀ i < n, src i = bits'.getD i false) : Stored after 0 (bits ++ bits') := by
  refine append_iff.mpr ⟨fun i hi => ?_, fun i hi => ?_⟩
  · rw [hsplice.outside (by omega), h i hi]
  · rw [Nat.zero_add, hsplice.inside (by omega), hsrc i (by omega)]

/-- The bits at the start of a byte string are those of its bit string. -/
theorem eq_take (h : Stored d 0 bits) (hlen : bits.length ≤ 8 * d.length) : bits = (bitsOf d).take bits.length := by
  apply List.ext_getElem
  · simpa using hlen
  · intro i h₁ h₂
    have hi : i < (bitsOf d).length := by rw [length_bitsOf]; omega
    rw [List.getElem_take, ← List.getD_eq_getElem _ false h₁, ← List.getD_eq_getElem _ false hi, getD_bitsOf,
      ← h i h₁, Nat.zero_add]

end Stored

end Bits

open Bits

namespace rl.MessageBuffer

variable {lengthHack : Bool}

/-- A buffer of `size` bytes that starts with `bits`, with the cursor after them. -/
structure Written (b : MessageBuffer) (size : Nat) (bits : List Bool) : Prop where
  length_eq : b.data.length = size
  curBit_eq : b.curBit = bits.length
  maxBit_eq : b.maxBit = 8 * size
  small : 8 * size < 2 ^ 31
  fits : bits.length ≤ 8 * size
  stored : Stored b.data 0 bits

namespace Written

variable (lengthHack) {b : MessageBuffer} {size : Nat} {bits : List Bool}

theorem of_splice {b' : MessageBuffer} {n : Nat} {src : Nat → Bool} {new : List Bool} (h : b.Written size bits)
    (hcur : b'.curBit = bits.length + n) (hmax : b'.maxBit = b.maxBit)
    (hsplice : Splice b.data bits.length n src b'.data)
    (hlen : new.length = n) (hsrc : ∀ i < n, src i = new.getD i false) (hfit : bits.length + n ≤ 8 * size) :
    b'.Written size (bits ++ new) where
  length_eq := hsplice.length_eq.trans h.length_eq
  curBit_eq := by rw [hcur, List.length_append, hlen]; push_cast; rfl
  maxBit_eq := hmax.trans h.maxBit_eq
  small := h.small
  fits := by rw [List.length_append, hlen]; exact hfit
  stored := h.stored.splice hsplice hlen hsrc

theorem writeBitsSingle (h : b.Written size bits) (v : BitVec 32) {n : Nat} (hn : 1 ≤ hackLength lengthHack n)
    (hn32 : hackLength lengthHack n ≤ 32) (hfit : bits.length + hackLength lengthHack n ≤ 8 * size) :
    ∃ b', b.writeBitsSingle lengthHack v n = some (true, b') ∧
      b'.Written size (bits ++ fieldBits (hackLength lengthHack n) v) := by
  have hmax := h.maxBit_eq
  have hsmall := h.small
  have hlen := h.length_eq
  obtain ⟨data, hwrite, hsplice⟩ := writeBitsSingle_spec v h.curBit_eq hn hn32 (by omega) (by omega) (by omega)
  exact ⟨_, hwrite, h.of_splice rfl rfl hsplice (length_fieldBits _ _)
    (fun i hi => (getD_fieldBits hi v).symm) hfit⟩

theorem write (h : b.Written size bits) (v : BitVec 32) {n : Nat} (hn : 1 ≤ hackLength lengthHack n)
    (hn32 : hackLength lengthHack n ≤ 32) (hfit : bits.length + hackLength lengthHack n ≤ 8 * size) :
    ∃ b', b.write lengthHack n v = some b' ∧ b'.Written size (bits ++ fieldBits (hackLength lengthHack n) v) := by
  obtain ⟨b', hwrite, hwritten⟩ := h.writeBitsSingle lengthHack v hn hn32 hfit
  exact ⟨b', by rw [MessageBuffer.write, hwrite]; rfl, hwritten⟩

theorem writeBits (h : b.Written size bits) (source : List Byte) {n : Nat} (hfit : bits.length + n ≤ 8 * size)
    (hsource : n ≤ 8 * source.length) :
    ∃ b', b.writeBits source n = some (true, b') ∧ b'.Written size (bits ++ (bitsOf source).take n) := by
  have hmax := h.maxBit_eq
  have hsmall := h.small
  have hlen := h.length_eq
  obtain ⟨data, hwrite, hsplice⟩ := writeBits_spec (n := n) ⟨h.curBit_eq, by omega⟩ (by omega) (by omega) hsource
  refine ⟨_, hwrite, h.of_splice rfl rfl hsplice (by simpa using hsource) (fun i hi => ?_) hfit⟩
  rw [List.getD_eq_getElem?_getD, List.getElem?_take, if_pos hi, ← List.getD_eq_getElem?_getD, getD_bitsOf]

theorem writeBytes (h : b.Written size bits) (source : List Byte) (hfit : bits.length + 8 * source.length ≤ 8 * size) :
    ∃ b', b.writeBits source (8 * source.length) = some (true, b') ∧ b'.Written size (bits ++ bitsOf source) := by
  obtain ⟨b', hwrite, hwritten⟩ := h.writeBits source hfit (Nat.le_refl _)
  refine ⟨b', by simpa using hwrite, ?_⟩
  rwa [List.take_of_length_le (by simp)] at hwritten

theorem writeBit (h : b.Written size bits) (bit : Bool) (hfit : bits.length + 1 ≤ 8 * size) :
    ∃ b', b.writeBit (bitByte bit) = (true, b') ∧ b'.Written size (bits ++ [bit]) := by
  have hlen := h.length_eq
  have hsmall := h.small
  obtain ⟨data, hwrite, hsplice⟩ := writeBit_spec bit h.curBit_eq (by omega) (by omega)
  refine ⟨_, hwrite, h.of_splice (by push_cast; rfl) rfl hsplice rfl (fun i hi => ?_) hfit⟩
  obtain rfl : i = 0 := by omega
  rfl

theorem eq_take (h : b.Written size bits) : bits = (bitsOf b.data).take bits.length :=
  h.stored.eq_take (by rw [h.length_eq]; exact h.fits)

theorem getCurrentBit (h : b.Written size bits) : b.getCurrentBit = bits.length := by
  have hsmall := h.small
  have hfits := h.fits
  rw [MessageBuffer.getCurrentBit, h.curBit_eq, h.maxBit_eq]
  omega

/-- Whole bytes written are the front of the buffer. -/
theorem take_eq {bytes : List Byte} (h : b.Written size (bitsOf bytes)) : b.data.take bytes.length = bytes := by
  have hfits := h.fits
  have hlen := h.length_eq
  rw [length_bitsOf] at hfits
  apply ext_bitAt
  · rw [List.length_take]
    omega
  · intro i hi
    rw [List.length_take] at hi
    have hstored := h.stored i (by rw [length_bitsOf]; omega)
    rw [bitAt_take (by omega)]
    rwa [Nat.zero_add, getD_bitsOf] at hstored

end Written

/-- A buffer over `size` bytes, wherever its cursor is. -/
structure Sized (b : MessageBuffer) (size : Nat) : Prop where
  length_eq : b.data.length = size
  maxBit_eq : b.maxBit = 8 * size
  small : 8 * size < 2 ^ 31

theorem Written.sized {b : MessageBuffer} {size : Nat} {bits : List Bool} (h : b.Written size bits) : b.Sized size :=
  ⟨h.length_eq, h.maxBit_eq, h.small⟩

namespace Sized

variable {b b' : MessageBuffer} {size : Nat}

theorem write (h : b.Sized size) {n : Nat} {v : BitVec 32} (hwrite : b.write lengthHack n v = some b') :
    b'.Sized size := by
  unfold MessageBuffer.write at hwrite
  obtain ⟨⟨ok, after⟩, hsingle, rfl⟩ := Option.map_eq_some_iff.mp hwrite
  rw [MessageBuffer.writeBitsSingle] at hsingle
  dsimp only at hsingle
  split at hsingle
  · cases hsingle
    exact h
  · obtain ⟨data, hdata, hdone⟩ := Option.bind_eq_some_iff.mp hsingle
    cases hdone
    exact ⟨(length_of_mergeField hdata).trans h.length_eq, h.maxBit_eq, h.small⟩

theorem writeBits (h : b.Sized size) {source : List Byte} {n : Int} {ok : Bool}
    (hwrite : b.writeBits source n = some (ok, b')) : b'.Sized size := by
  rw [MessageBuffer.writeBits] at hwrite
  split at hwrite
  · cases hwrite
    exact h
  · obtain ⟨data, hdata, hdone⟩ := Option.bind_eq_some_iff.mp hwrite
    cases hdone
    exact ⟨(length_of_copyBits hdata).trans h.length_eq, h.maxBit_eq, h.small⟩

theorem setCurrentBit (h : b.Sized size) (bit : Nat) : (b.setCurrentBit bit).Sized size :=
  ⟨h.length_eq, h.maxBit_eq, h.small⟩

end Sized

/-- `SetCurrentBit(0)` starts a buffer of `size` bytes over, whatever it holds. -/
theorem Sized.written {b : MessageBuffer} {size : Nat} (h : b.Sized size) : (b.setCurrentBit 0).Written size [] where
  length_eq := h.length_eq
  curBit_eq := by
    have hzero : min (((0 : Nat) : Int)) (((b.maxBit % 2 ^ 32).toNat : Nat) : Int) = 0 := by omega
    rw [MessageBuffer.setCurrentBit, hzero]
    rfl
  maxBit_eq := h.maxBit_eq
  small := h.small
  fits := Nat.zero_le _
  stored := .nil _ _

theorem ofSize_written {size : Nat} (hsmall : 8 * size < 2 ^ 31) : (ofSize size).Written size [] where
  length_eq := List.length_replicate
  curBit_eq := rfl
  maxBit_eq := by rw [ofSize, ofBytes, List.length_replicate, int32_eq (by omega) (by omega)]
  small := hsmall
  fits := Nat.zero_le _
  stored := .nil _ _

/-- The bits from the cursor to the end of the buffer, at bit `limit`, are `bits`. -/
structure Unread (b : MessageBuffer) (limit : Nat) (bits : List Bool) : Prop where
  curBit_eq : b.curBit = limit - bits.length
  maxBit_eq : b.maxBit = limit
  le : bits.length ≤ limit
  small : limit < 2 ^ 31
  room : limit ≤ 8 * b.data.length
  stored : Stored b.data (limit - bits.length) bits

theorem unread_ofBytes (data : List Byte) (hsmall : 8 * data.length < 2 ^ 31) :
    (ofBytes data).Unread (8 * data.length) (bitsOf data) where
  curBit_eq := by simp [ofBytes]
  maxBit_eq := by
    rw [ofBytes, int32_eq (by omega) (by omega)]
    push_cast
    rfl
  le := by simp
  small := hsmall
  room := Nat.le_refl _
  stored := by
    rw [length_bitsOf, Nat.sub_self]
    exact .self data

namespace Unread

variable (lengthHack) {b : MessageBuffer} {limit : Nat} {bits rest : List Bool}

theorem curBit_nat (h : b.Unread limit bits) : b.curBit = (limit - bits.length : Nat) := by
  have hle := h.le
  rw [h.curBit_eq]
  omega

/-- The cursor has moved past the bits in front. -/
theorem advance {front : List Bool} (h : b.Unread limit (front ++ rest)) :
    { b with curBit := ((limit - (front ++ rest).length + front.length : Nat) : Int) }.Unread limit rest := by
  have hle := h.le
  obtain ⟨_, hrest⟩ := Stored.append_iff.mp h.stored
  rw [List.length_append] at hle hrest
  refine ⟨?_, h.maxBit_eq, by omega, h.small, h.room, ?_⟩
  · rw [List.length_append]
    simp only
    omega
  · rwa [show limit - (front.length + rest.length) + front.length = limit - rest.length by omega] at hrest

/-- A number in front is read and leaves the rest. -/
theorem readBitsSingle {w : Nat} {v : BitVec w} {n : Nat} (hn : 1 ≤ hackLength lengthHack n)
    (hn32 : hackLength lengthHack n ≤ 32) (h : b.Unread limit (fieldBits (hackLength lengthHack n) v ++ rest)) :
    ∃ b', b.readBitsSingle lengthHack n = (some (BitVec.ofNat 32 (v.toNat % 2 ^ hackLength lengthHack n)), b') ∧
      b'.Unread limit rest := by
  have hle := h.le
  have hsmall := h.small
  have hmax := h.maxBit_eq
  have hnext := h.advance
  rw [length_fieldBits] at hnext
  obtain ⟨hfield, _⟩ := Stored.append_iff.mp h.stored
  have hcur := h.curBit_nat
  rw [List.length_append, length_fieldBits] at hle
  have hlen : (fieldBits (hackLength lengthHack n) v ++ rest).length = hackLength lengthHack n + rest.length := by simp
  generalize (fieldBits (hackLength lengthHack n) v ++ rest).length = total at *
  obtain ⟨r, hread, hbits⟩ := readBitsSingle_spec hcur hn hn32 (by omega) (by omega)
  refine ⟨_, ?_, hnext⟩
  rw [hread]
  congr 2
  apply BitVec.eq_of_getLsbD_eq
  intro i hi
  rw [hbits, BitVec.getLsbD_ofNat, Nat.testBit_mod_two_pow]
  by_cases hin : i < hackLength lengthHack n
  · have hbit := hfield (hackLength lengthHack n - 1 - i) (by rw [length_fieldBits]; omega)
    rw [getD_fieldBits (by omega),
      show hackLength lengthHack n - 1 - (hackLength lengthHack n - 1 - i) = i by omega,
      show limit - total + (hackLength lengthHack n - 1 - i) = limit - total +
        hackLength lengthHack n - 1 - i by omega] at hbit
    rw [hbit]
    simp [hin, hi, BitVec.getLsbD]
  · simp [hin]

theorem read {w : Nat} {v : BitVec w} {n : Nat} (hn : 1 ≤ hackLength lengthHack n)
    (hn32 : hackLength lengthHack n ≤ 32) (h : b.Unread limit (fieldBits (hackLength lengthHack n) v ++ rest)) :
    ∃ b', b.read lengthHack n = (BitVec.ofNat 32 (v.toNat % 2 ^ hackLength lengthHack n), true, b') ∧
      b'.Unread limit rest := by
  obtain ⟨b', hread, hrest⟩ := readBitsSingle lengthHack hn hn32 h
  exact ⟨b', by rw [MessageBuffer.read, hread], hrest⟩

/-- Bytes in front are read into a destination of their size. -/
theorem readBytes {bytes : List Byte} (out : List Byte)
    (hhack : hackLength lengthHack (8 * bytes.length) = 8 * bytes.length) (hout : out.length = bytes.length)
    (h : b.Unread limit (bitsOf bytes ++ rest)) :
    ∃ b', b.readBits lengthHack out (8 * bytes.length) = some (bytes, true, b') ∧ b'.Unread limit rest := by
  have hle := h.le
  have hsmall := h.small
  have hmax := h.maxBit_eq
  have hroom := h.room
  have hnext := h.advance
  obtain ⟨hbytes, _⟩ := Stored.append_iff.mp h.stored
  have hcur := h.curBit_nat
  rw [List.length_append, length_bitsOf] at hle hnext hbytes hcur
  rcases Nat.eq_zero_or_pos bytes.length with hzero | hpos
  · obtain rfl := List.eq_nil_of_length_eq_zero hzero
    obtain rfl := List.eq_nil_of_length_eq_zero (hout.trans hzero)
    exact ⟨b, readBits_zero _ _, by simpa using h⟩
  · obtain ⟨out', hread, hsplice⟩ := readBits_spec (n := 8 * bytes.length) out ⟨hcur, by omega⟩ hhack (by omega)
      (by omega) (by omega) (by omega)
    have hall : out' = bytes := by
      refine ext_bitAt (hsplice.length_eq.trans hout) fun i hi => ?_
      rw [hsplice.length_eq] at hi
      have hin := hsplice.inside (i := i) (by omega)
      rw [Nat.zero_add] at hin
      rw [hin, hbytes i (by rw [length_bitsOf]; omega), getD_bitsOf]
    subst hall
    exact ⟨_, by simpa using hread, by simpa using hnext⟩

theorem getCurrentBit (h : b.Unread limit bits) : b.getCurrentBit = limit - bits.length := by
  have hle := h.le
  have hsmall := h.small
  rw [MessageBuffer.getCurrentBit, h.curBit_eq, h.maxBit_eq]
  omega

end Unread

end rl.MessageBuffer
