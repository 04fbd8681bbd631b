import Citizen.Lib.Bits

open Bits

namespace mumble

/-- A stream over a buffer: the bytes in front of the offset, and those from there to the end. -/
structure Pds where
  before : List Byte
  rest : List Byte
  overshoot : Nat
  bOk : Bool
deriving DecidableEq

namespace Pds

def create (buf : List Byte) : Pds := ⟨[], buf, 0, true⟩

def offset (pds : Pds) : Nat := pds.before.length

/-- A value's lowest byte is written over the next one of the buffer. -/
def append_val (pds : Pds) (val : Nat) : Pds :=
  match pds.rest with
  | [] => { pds with bOk := false, overshoot := pds.overshoot + 1 }
  | _ :: rest => { pds with before := pds.before ++ [BitVec.ofNat 8 val], rest }

/-- Bytes that do not fit are replaced by zeros up to the end of the buffer. -/
def append_data_nosize (pds : Pds) (data : List Byte) : Pds :=
  if data.length ≤ pds.rest.length then
    { pds with before := pds.before ++ data, rest := pds.rest.drop data.length }
  else
    { pds with before := pds.before ++ List.replicate pds.rest.length 0, rest := []
               overshoot := pds.overshoot + (data.length - pds.rest.length), bOk := false }

/-- The values that are appended for a number that is not negative. -/
def magnitude (i : Nat) : List Nat :=
  if i < 0x80 then [i]
  else if i < 0x4000 then [i >>> 8 ||| 0x80, i &&& 0xFF]
  else if i < 0x200000 then [i >>> 16 ||| 0xC0, i >>> 8 &&& 0xFF, i &&& 0xFF]
  else if i < 0x10000000 then [i >>> 24 ||| 0xE0, i >>> 16 &&& 0xFF, i >>> 8 &&& 0xFF, i &&& 0xFF]
  else if i < 0x100000000 then [0xF0, i >>> 24 &&& 0xFF, i >>> 16 &&& 0xFF, i >>> 8 &&& 0xFF, i &&& 0xFF]
  else [0xF4, i >>> 56 &&& 0xFF, i >>> 48 &&& 0xFF, i >>> 40 &&& 0xFF, i >>> 32 &&& 0xFF, i >>> 24 &&& 0xFF,
    i >>> 16 &&& 0xFF, i >>> 8 &&& 0xFF, i &&& 0xFF]

/-- The values that are appended for a number. -/
def numval (value : BitVec 64) : List Nat :=
  if value &&& 0x8000000000000000 ≠ 0 ∧ (~~~value).toNat < 0x100000000 then
    -- Signed number.
    let i := (~~~value).toNat
    if i ≤ 0x3 then [0xFC ||| i] else 0xF8 :: magnitude i
  else magnitude value.toNat

def add_numval (pds : Pds) (value : BitVec 64) : Pds := (numval value).foldl append_val pds

/-- The next byte. At the end it is zero. -/
def next (pds : Pds) : Nat × Pds :=
  match pds.rest with
  | [] => (0, { pds with bOk := false })
  | b :: rest => (b.toNat, { pds with before := pds.before ++ [b], rest })

/-- The next bytes, each shifted in below those before it. -/
def shiftIn : Nat → Nat → Pds → Nat × Pds
  | 0, i, pds => (i, pds)
  | n + 1, i, pds =>
    let (b, pds) := pds.next
    shiftIn n (i <<< 8 ||| b) pds

/-- A number. `fuel` bounds the signs in front of it. -/
def get_numval_fuel : Nat → Pds → BitVec 64 × Pds
  | 0, pds => (0, pds)
  | fuel + 1, pds =>
    let (v, pds) := pds.next
    if v &&& 0x80 = 0x00 then (BitVec.ofNat 64 (v &&& 0x7F), pds)
    else if v &&& 0xC0 = 0x80 then (shiftIn 1 (v &&& 0x3F) pds).map (BitVec.ofNat 64) id
    else if v &&& 0xF0 = 0xF0 then
      if v &&& 0xFC = 0xF0 then (shiftIn 4 0 pds).map (BitVec.ofNat 64) id
      else if v &&& 0xFC = 0xF4 then (shiftIn 8 0 pds).map (BitVec.ofNat 64) id
      else if v &&& 0xFC = 0xF8 then (get_numval_fuel fuel pds).map (~~~·) id
      else if v &&& 0xFC = 0xFC then (~~~BitVec.ofNat 64 (v &&& 0x03), pds)
      else (0, pds)
    else if v &&& 0xF0 = 0xE0 then (shiftIn 3 (v &&& 0x0F) pds).map (BitVec.ofNat 64) id
    else if v &&& 0xE0 = 0xC0 then (shiftIn 2 (v &&& 0x1F) pds).map (BitVec.ofNat 64) id
    else (0, pds)

/-- Each sign takes a byte, so there are no more of them than bytes. -/
def get_numval (pds : Pds) : BitVec 64 × Pds := get_numval_fuel (pds.rest.length + 1) pds

def skip (pds : Pds) (n : Nat) : Nat × Pds :=
  if n ≤ pds.rest.length then (n, { pds with before := pds.before ++ pds.rest.take n, rest := pds.rest.drop n })
  else (0, { pds with bOk := false })

variable {pds : Pds} {before tail : List Byte} {overshoot fuel i v n : Nat} {bOk : Bool}

/-- Values that are appended fill the buffer as far as it goes. The rest of them are counted. -/
theorem foldl_append_val (vals : List Nat) (pds : Pds) : vals.foldl append_val pds =
    ⟨pds.before ++ (vals.map (BitVec.ofNat 8)).take pds.rest.length, pds.rest.drop vals.length,
      pds.overshoot + (vals.length - pds.rest.length), pds.bOk && decide (vals.length ≤ pds.rest.length)⟩ := by
  induction vals generalizing pds with
  | nil => simp
  | cons val vals ih =>
    obtain ⟨before, _ | ⟨b, rest⟩, overshoot, bOk⟩ := pds
    · rw [List.foldl_cons, ih]
      simp [append_val]
      omega
    · rw [List.foldl_cons, ih]
      simp [append_val]
      congr

theorem shift_or (i : Nat) (b : Byte) : i <<< 8 ||| b.toNat = 256 * i + b.toNat := by
  rw [Nat.shiftLeft_eq, Nat.mul_comm]
  exact (Nat.two_pow_add_eq_or_of_lt b.isLt i).symm

theorem next_cons (b : Byte) :
    next ⟨before, b :: tail, overshoot, bOk⟩ = (b.toNat, ⟨before ++ [b], tail, overshoot, bOk⟩) := rfl

theorem shiftIn_append (bytes : List Byte) (i : Nat) : shiftIn bytes.length i ⟨before, bytes ++ tail, overshoot, bOk⟩ =
    (bytes.foldl (fun i b => 256 * i + b.toNat) i, ⟨before ++ bytes, tail, overshoot, bOk⟩) := by
  induction bytes generalizing i before with
  | nil => simp [shiftIn]
  | cons b bytes ih =>
    rw [List.length_cons, shiftIn, List.cons_append, next_cons]
    dsimp only
    rw [shift_or, ih, List.foldl_cons, List.append_assoc, List.singleton_append]

/-- The tests of the first byte of a number say which of these it lies between. -/
theorem and_masks : ∀ v < 256, (v &&& 0x80 = 0x00 ↔ v < 0x80) ∧ (v &&& 0xC0 = 0x80 ↔ 0x80 ≤ v ∧ v < 0xC0) ∧
    (v &&& 0xF0 = 0xF0 ↔ 0xF0 ≤ v) ∧ (v &&& 0xF0 = 0xE0 ↔ 0xE0 ≤ v ∧ v < 0xF0) ∧
    (v &&& 0xE0 = 0xC0 ↔ 0xC0 ≤ v ∧ v < 0xE0) ∧ v &&& 0xFC = v / 4 * 4 := by decide +kernel

theorem and_80 (v : Nat) (h : v < 256) : v &&& 0x80 = 0x00 ↔ v < 0x80 := (and_masks v h).1

theorem and_C0 (v : Nat) (h : v < 256) : v &&& 0xC0 = 0x80 ↔ 0x80 ≤ v ∧ v < 0xC0 := (and_masks v h).2.1

theorem and_F0 (v : Nat) (h : v < 256) : v &&& 0xF0 = 0xF0 ↔ 0xF0 ≤ v := (and_masks v h).2.2.1

theorem and_F0' (v : Nat) (h : v < 256) : v &&& 0xF0 = 0xE0 ↔ 0xE0 ≤ v ∧ v < 0xF0 := (and_masks v h).2.2.2.1

theorem and_E0 (v : Nat) (h : v < 256) : v &&& 0xE0 = 0xC0 ↔ 0xC0 ≤ v ∧ v < 0xE0 := (and_masks v h).2.2.2.2.1

theorem and_FC (v : Nat) (h : v < 256) : v &&& 0xFC = v / 4 * 4 := (and_masks v h).2.2.2.2.2

/-- The bits below a power of two. -/
theorem and_mask (v n : Nat) : v &&& (2 ^ n - 1) = v % 2 ^ n := Nat.and_two_pow_sub_one_eq_mod v n

theorem toNat_byte (x : Nat) : (BitVec.ofNat 8 (x &&& 0xFF)).toNat = x % 256 := by
  rw [show x &&& 0xFF = x % 256 from and_mask x 8, BitVec.toNat_ofNat, Nat.mod_mod]

/-- A first byte that holds a tag above the highest bits of a number. -/
theorem toNat_head {x tag n : Nat} (hx : x < 2 ^ n) (htag : 2 ^ n * tag + 2 ^ n ≤ 256) :
    (BitVec.ofNat 8 (x ||| 2 ^ n * tag)).toNat = x + 2 ^ n * tag := by
  rw [Nat.or_comm, ← Nat.two_pow_add_eq_or_of_lt hx, BitVec.toNat_ofNat, Nat.mod_eq_of_lt (by omega), Nat.add_comm]

section

variable (b : Byte) (bytes : List Byte)

/-- The number that bytes stand for, the highest first, behind bits that are higher. -/
abbrev bigEndian (i : Nat) (bytes : List Byte) : Nat := bytes.foldl (fun i b => 256 * i + b.toNat) i

theorem get_one (h : b.toNat < 0x80) : get_numval_fuel (fuel + 1) ⟨before, b :: tail, overshoot, bOk⟩ =
    (BitVec.ofNat 64 b.toNat, ⟨before ++ [b], tail, overshoot, bOk⟩) := by
  rw [get_numval_fuel, next_cons]
  dsimp only
  rw [if_pos ((and_80 _ b.isLt).mpr h), show b.toNat &&& 0x7F = b.toNat % 0x80 from and_mask _ 7, Nat.mod_eq_of_lt h]

theorem get_two (h : 0x80 ≤ b.toNat) (h' : b.toNat < 0xC0) (hlen : bytes.length = 1) :
    get_numval_fuel (fuel + 1) ⟨before, b :: bytes ++ tail, overshoot, bOk⟩ =
      (BitVec.ofNat 64 (bigEndian (b.toNat % 0x40) bytes), ⟨before ++ b :: bytes, tail, overshoot, bOk⟩) := by
  rw [get_numval_fuel, List.cons_append, next_cons]
  dsimp only
  rw [if_neg (mt (and_80 _ b.isLt).mp (by omega)), if_pos ((and_C0 _ b.isLt).mpr ⟨h, h'⟩),
    show b.toNat &&& 0x3F = b.toNat % 0x40 from and_mask _ 6, ← hlen, shiftIn_append]
  rw [List.append_assoc]
  rfl

theorem get_three (h : 0xC0 ≤ b.toNat) (h' : b.toNat < 0xE0) (hlen : bytes.length = 2) :
    get_numval_fuel (fuel + 1) ⟨before, b :: bytes ++ tail, overshoot, bOk⟩ =
      (BitVec.ofNat 64 (bigEndian (b.toNat % 0x20) bytes), ⟨before ++ b :: bytes, tail, overshoot, bOk⟩) := by
  rw [get_numval_fuel, List.cons_append, next_cons]
  dsimp only
  rw [if_neg (mt (and_80 _ b.isLt).mp (by omega)), if_neg (mt (and_C0 _ b.isLt).mp (by omega)),
    if_neg (mt (and_F0 _ b.isLt).mp (by omega)), if_neg (mt (and_F0' _ b.isLt).mp (by omega)),
    if_pos ((and_E0 _ b.isLt).mpr ⟨h, h'⟩), show b.toNat &&& 0x1F = b.toNat % 0x20 from and_mask _ 5, ← hlen,
    shiftIn_append]
  rw [List.append_assoc]
  rfl

theorem get_four (h : 0xE0 ≤ b.toNat) (h' : b.toNat < 0xF0) (hlen : bytes.length = 3) :
    get_numval_fuel (fuel + 1) ⟨before, b :: bytes ++ tail, overshoot, bOk⟩ =
      (BitVec.ofNat 64 (bigEndian (b.toNat % 0x10) bytes), ⟨before ++ b :: bytes, tail, overshoot, bOk⟩) := by
  rw [get_numval_fuel, List.cons_append, next_cons]
  dsimp only
  rw [if_neg (mt (and_80 _ b.isLt).mp (by omega)), if_neg (mt (and_C0 _ b.isLt).mp (by omega)),
    if_neg (mt (and_F0 _ b.isLt).mp (by omega)), if_pos ((and_F0' _ b.isLt).mpr ⟨h, h'⟩),
    show b.toNat &&& 0x0F = b.toNat % 0x10 from and_mask _ 4, ← hlen, shiftIn_append]
  rw [List.append_assoc]
  rfl

/-- A 32-bit or a 64-bit number behind a byte that says which. -/
theorem get_full (h : b.toNat / 4 * 4 = 0xF0 ∧ bytes.length = 4 ∨ b.toNat / 4 * 4 = 0xF4 ∧ bytes.length = 8) :
    get_numval_fuel (fuel + 1) ⟨before, b :: bytes ++ tail, overshoot, bOk⟩ =
      (BitVec.ofNat 64 (bigEndian 0 bytes), ⟨before ++ b :: bytes, tail, overshoot, bOk⟩) := by
  rw [get_numval_fuel, List.cons_append, next_cons]
  dsimp only
  rw [if_neg (mt (and_80 _ b.isLt).mp (by omega)), if_neg (mt (and_C0 _ b.isLt).mp (by omega)),
    if_pos ((and_F0 _ b.isLt).mpr (by omega)), and_FC _ b.isLt]
  obtain ⟨htag, hlen⟩ | ⟨htag, hlen⟩ := h
  · rw [if_pos htag, ← hlen, shiftIn_append, List.append_assoc]
    rfl
  · rw [if_neg (by omega), if_pos htag, ← hlen, shiftIn_append, List.append_assoc]
    rfl

/-- A number from -4 to -1. -/
theorem get_short (h : b.toNat / 4 * 4 = 0xFC) : get_numval_fuel (fuel + 1) ⟨before, b :: tail, overshoot, bOk⟩ =
    (~~~BitVec.ofNat 64 (b.toNat % 4), ⟨before ++ [b], tail, overshoot, bOk⟩) := by
  rw [get_numval_fuel, next_cons]
  dsimp only
  rw [if_neg (mt (and_80 _ b.isLt).mp (by omega)), if_neg (mt (and_C0 _ b.isLt).mp (by omega)),
    if_pos ((and_F0 _ b.isLt).mpr (by omega)), and_FC _ b.isLt, if_neg (by omega), if_neg (by omega),
      if_neg (by omega),
    if_pos h, show b.toNat &&& 0x03 = b.toNat % 4 from and_mask _ 2]

/-- The sign in front of a number. -/
theorem get_sign : get_numval_fuel (fuel + 1) ⟨before, 0xF8 :: tail, overshoot, bOk⟩ =
    (get_numval_fuel fuel ⟨before ++ [0xF8], tail, overshoot, bOk⟩).map (~~~·) id := rfl

end

theorem get_magnitude (hi : i < 2 ^ 64) : get_numval_fuel (fuel + 1)
    ⟨before, (magnitude i).map (BitVec.ofNat 8) ++ tail, overshoot, bOk⟩ =
      (BitVec.ofNat 64 i, ⟨before ++ (magnitude i).map (BitVec.ofNat 8), tail, overshoot, bOk⟩) := by
  unfold magnitude
  split
  next hsmall =>
    have hv : (BitVec.ofNat 8 i).toNat = i := by rw [BitVec.toNat_ofNat]; omega
    rw [List.map_singleton, List.singleton_append, get_one _ (hv.trans_lt hsmall), hv]
  next =>
  split
  next hsmall =>
    have hhigh : i >>> 8 < 2 ^ 6 := by rw [Nat.shiftRight_eq_div_pow]; omega
    have hv : (BitVec.ofNat 8 (i >>> 8 ||| 0x80)).toNat = i >>> 8 + 0x80 := @toNat_head _ 2 6 hhigh (by omega)
    rw [List.map_cons, get_two _ _ (by omega) (by omega) rfl, hv]
    congr 2
    simp only [List.map_cons, List.map_nil, List.foldl_cons, List.foldl_nil, toNat_byte, Nat.shiftRight_eq_div_pow]
    omega
  next =>
  split
  next hsmall =>
    have hhigh : i >>> 16 < 2 ^ 5 := by rw [Nat.shiftRight_eq_div_pow]; omega
    have hv : (BitVec.ofNat 8 (i >>> 16 ||| 0xC0)).toNat = i >>> 16 + 0xC0 := @toNat_head _ 6 5 hhigh (by omega)
    rw [List.map_cons, get_three _ _ (by omega) (by omega) rfl, hv]
    congr 2
    simp only [List.map_cons, List.map_nil, List.foldl_cons, List.foldl_nil, toNat_byte, Nat.shiftRight_eq_div_pow]
    omega
  next =>
  split
  next hsmall =>
    have hhigh : i >>> 24 < 2 ^ 4 := by rw [Nat.shiftRight_eq_div_pow]; omega
    have hv : (BitVec.ofNat 8 (i >>> 24 ||| 0xE0)).toNat = i >>> 24 + 0xE0 := @toNat_head _ 14 4 hhigh (by omega)
    rw [List.map_cons, get_four _ _ (by omega) (by omega) rfl, hv]
    congr 2
    simp only [List.map_cons, List.map_nil, List.foldl_cons, List.foldl_nil, toNat_byte, Nat.shiftRight_eq_div_pow]
    omega
  next =>
  split
  next hsmall =>
    rw [List.map_cons, get_full _ _ (.inl ⟨rfl, rfl⟩)]
    congr 2
    simp only [List.map_cons, List.map_nil, List.foldl_cons, List.foldl_nil, toNat_byte, Nat.shiftRight_eq_div_pow]
    omega
  next =>
    rw [List.map_cons, get_full _ _ (.inr ⟨rfl, rfl⟩)]
    congr 2
    simp only [List.map_cons, List.map_nil, List.foldl_cons, List.foldl_nil, toNat_byte, Nat.shiftRight_eq_div_pow]
    omega

/-- A number that was written is read back, whatever follows it. -/
theorem get_numval_append (value : BitVec 64) :
    get_numval ⟨before, (numval value).map (BitVec.ofNat 8) ++ tail, overshoot, bOk⟩ =
      (value, ⟨before ++ (numval value).map (BitVec.ofNat 8), tail, overshoot, bOk⟩) := by
  have hsmall : (~~~value).toNat < 2 ^ 64 := (~~~value).isLt
  have hback : ~~~BitVec.ofNat 64 (~~~value).toNat = value := by
    rw [BitVec.ofNat_toNat, BitVec.setWidth_eq, BitVec.not_not]
  unfold numval get_numval
  split
  next hsigned =>
    dsimp only
    split
    next hshort =>
      have hor : 0xFC ||| (~~~value).toNat = (~~~value).toNat + 0xFC := by
        rw [← Nat.two_pow_add_eq_or_of_lt (show (~~~value).toNat < 2 ^ 2 by omega) 63, Nat.add_comm]
      have hv : (BitVec.ofNat 8 (0xFC ||| (~~~value).toNat)).toNat = (~~~value).toNat + 0xFC := by
        rw [hor, BitVec.toNat_ofNat]
        omega
      have hlow : ((~~~value).toNat + 0xFC) % 4 = (~~~value).toNat := by omega
      rw [List.map_singleton, List.singleton_append, get_short _ (by omega), hv, hlow, hback]
    next =>
      rw [List.map_cons, List.cons_append]
      change get_numval_fuel _ ⟨before, 0xF8 :: _, overshoot, bOk⟩ = _
      rw [List.length_cons, get_sign, get_magnitude hsmall, Prod.map_apply, hback, List.append_assoc]
      rfl
  next =>
    rw [get_magnitude value.isLt, BitVec.ofNat_toNat, BitVec.setWidth_eq]

/-- As many numbers as are asked for, in order. -/
def get_numvals : Nat → Pds → List (BitVec 64) × Pds
  | 0, pds => ([], pds)
  | n + 1, pds =>
    let (value, pds) := pds.get_numval
    let (values, pds) := get_numvals n pds
    (value :: values, pds)

/-- The bytes of numbers that are written one behind the other. -/
def numvalBytes (values : List (BitVec 64)) : List Byte :=
    values.flatMap fun value => (numval value).map (BitVec.ofNat 8)

theorem add_numvals (values : List (BitVec 64)) (pds : Pds) : values.foldl add_numval pds =
    (values.flatMap numval).foldl append_val pds := by
  induction values generalizing pds with
  | nil => rfl
  | cons value values ih => rw [List.foldl_cons, ih, List.flatMap_cons, List.foldl_append, add_numval]

theorem get_numvals_append (values : List (BitVec 64)) :
    get_numvals values.length ⟨before, numvalBytes values ++ tail, overshoot, bOk⟩ =
      (values, ⟨before ++ numvalBytes values, tail, overshoot, bOk⟩) := by
  induction values generalizing before with
  | nil => simp [get_numvals, numvalBytes]
  | cons value values ih =>
    have hbytes : numvalBytes (value :: values) = (numval value).map (BitVec.ofNat 8) ++ numvalBytes values :=
      List.flatMap_cons
    rw [hbytes, List.length_cons, get_numvals, List.append_assoc, get_numval_append]
    dsimp only
    rw [ih, List.append_assoc]

/-- Numbers are written as far as the buffer goes, with the flag and the count of what did not fit. What was written
is read back, whatever follows it. -/
theorem numvals_roundTrip (values : List (BitVec 64)) (pds : Pds) :
    values.foldl add_numval pds =
      ⟨pds.before ++ (numvalBytes values).take pds.rest.length, pds.rest.drop (numvalBytes values).length,
        pds.overshoot + ((numvalBytes values).length - pds.rest.length),
        pds.bOk && decide ((numvalBytes values).length ≤ pds.rest.length)⟩ ∧
      ∀ before tail overshoot bOk, get_numvals values.length ⟨before, numvalBytes values ++ tail, overshoot, bOk⟩ =
        (values, ⟨before ++ numvalBytes values, tail, overshoot, bOk⟩) := by
  refine ⟨?_, fun _ _ _ _ => get_numvals_append values⟩
  have hbytes : numvalBytes values = (values.flatMap numval).map (BitVec.ofNat 8) := by
    rw [numvalBytes, List.map_flatMap]
  rw [add_numvals, foldl_append_val, hbytes, List.length_map]

end Pds

end mumble
