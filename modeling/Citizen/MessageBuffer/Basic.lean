import Citizen.Lib.Bits

open Bits

namespace rl

/-- Two's complement value of a 32-bit signed integer. -/
def int32 (x : Int) : Int := if 2 ^ 31 ≤ x % 2 ^ 32 then x % 2 ^ 32 - 2 ^ 32 else x % 2 ^ 32

theorem int32_eq {x : Int} (hlo : -2 ^ 31 ≤ x) (hhi : x < 2 ^ 31) : int32 x = x := by
  unfold int32
  split <;> omega

def load (m : List Byte) (k : Nat) : Option Byte := m[k]?

def store (m : List Byte) (k : Nat) (b : Byte) : Option (List Byte) :=
  if k < m.length then some (m.set k b) else none

def memcpy (dest : List Byte) (k : Nat) (source : List Byte) (s n : Nat) : Option (List Byte) :=
  if k + n ≤ dest.length ∧ s + n ≤ source.length then
    some (dest.take k ++ (source.drop s).take n ++ dest.drop (k + n))
  else none

/-- `*p = (v >> 24 >> shift) | *p & ~(m >> 24 >> shift)`. -/
def mergeByte (v m : BitVec 32) (shift : Nat) (b : Byte) : Byte :=
  (((v >>> 24) >>> shift) ||| (b.setWidth 32 &&& ~~~((m >>> 24) >>> shift))).setWidth 8

def mergeAt (d : List Byte) (k : Nat) (v m : BitVec 32) (shift : Nat) : Option (List Byte) := do
  let b ← load d k
  store d k (mergeByte v m shift b)

/-- The loop `*p = *p & ~(m >> 24) | (v >> 24); v <<= 8; m <<= 8; ++p`, run
`count` times. -/
def carryLoop : Nat → List Byte → Nat → BitVec 32 → BitVec 32 → Option (List Byte)
  | 0, d, _, _, _ => some d
  | count + 1, d, k, v, m => do
    let d ← mergeAt d k v m 0
    carryLoop count d (k + 1) (v <<< 8) (m <<< 8)

/-- The store of an `n`-bit field that every writer of the header inlines: the
first byte at `k`, then the carry into the following bytes. -/
def mergeField (d : List Byte) (k shift : Nat) (v m : BitVec 32) (n count : Nat) : Option (List Byte) := do
  let d ← mergeAt d k v m shift
  if 8 - shift < n then carryLoop count d (k + 1) (v <<< (8 - shift)) (m <<< (8 - shift)) else some d

/-- `CopyBits`, the bits up to the first byte boundary of an unaligned source.
The variables keep their numbers. -/
def copyHead (dest source : List Byte) (a3 a4 v8 v9 : Nat) : Option (List Byte) := do
  let b ← load source v9
  let v10 := min (8 - v8) a3
  let v12 := (-1 : BitVec 32) <<< (32 - v10)
  let v13 := (((b.setWidth 32 <<< v8) &&& (0xFF : BitVec 32)) >>> (8 - v10)) <<< (32 - v10)
  let v16 : BitVec 32 := BitVec.ofNat 32 v8 - 9
  -- the source has `!(uint32_t)a3` here, not `~(uint32_t)a3`
  let v16 := if v16 < ~~~(BitVec.ofNat 32 a3) then (if a3 = 0 then 1 else 0) else v16
  let v17 := ((BitVec.ofNat 32 (a4 % 8) - 10 - v16) >>> 3) + 1
  mergeField dest (a4 / 8) (a4 % 8) v13 v12 v10 v17.toNat

/-- `CopyBits`, whole source bytes to an unaligned destination. `k` is the
index of `result - 1`. -/
def shiftLoop : Nat → List Byte → Nat → List Byte → Nat → Nat → Byte → Option (List Byte)
  | 0, d, _, _, _, _, _ => some d
  | v20 + 1, d, k, source, v28, v21, v23 => do
    let v29 ← load d (k + 1)
    let b ← load source v28
    let d ← store d k ((b >>> v21) ||| (((255 : Byte) <<< (8 - v21)) &&& v23))
    let v23 := (b <<< (8 - v21)) ||| (((255 : Byte) >>> v21) &&& v29)
    let d ← store d (k + 1) v23
    shiftLoop v20 d (k + 1) source (v28 + 1) v21 v23

/-- `CopyBits`, all whole source bytes. -/
def copyWhole (dest source : List Byte) (v5 v20 v9 : Nat) : Option (List Byte) :=
  if v5 % 8 ≠ 0 then do
    let v23 ← load dest (v5 / 8)
    shiftLoop v20 dest (v5 / 8) source v9 (v5 % 8) v23
  else memcpy dest (v5 / 8) source v9 v20

/-- `CopyBits`, the last `n < 8` bits, taken from the top of one source byte. -/
def copyLast (dest source : List Byte) (k shift s n count : Nat) : Option (List Byte) := do
  let b ← load source s
  let v := (b.setWidth 32 >>> (8 - n)) <<< (32 - n)
  mergeField dest k shift v ((-1 : BitVec 32) <<< (32 - n)) n count

/-- `CopyBits` once the source is byte-aligned at `v9`. -/
def copyAligned (dest source : List Byte) (v6 v5 v9 : Nat) : Option (List Byte) :=
  if v6 / 8 ≠ 0 then do
    let d ← copyWhole dest source v5 (v6 / 8) v9
    let v31 := v6 % 8
    if v31 = 0 then some d
    else
      -- an `int64_t`, which is negative when the bit offset does not fit an `int`
      let v40 := int32 (v5 + v6 / 8 * 8 : Nat) / 8
      let v41 := (v5 % 256 + v6 % 256 / 8 * 8) % 8
      if v40 < 0 then none else copyLast d source v40.toNat v41 (v9 + v6 / 8) v31 ((v31 + v41 - 9) / 8 + 1)
  else
    let v33 := 8 - v5 % 8
    copyLast dest source (v5 / 8) (v5 % 8) v9 v6 ((v6 - v33 - 1) / 8 + 1)

/-- `CopyBits`. A length below one copies nothing; with an unaligned source it
shifts by 32 or more, which is undefined. -/
def copyBits (dest source : List Byte) (length : Int) (destBitOffset sourceBitOffset : Nat) : Option (List Byte) :=
  let v8 := sourceBitOffset % 8
  let v9 := sourceBitOffset / 8
  if v8 ≠ 0 then
    if length < 1 then none
    else do
      let a3 := length.toNat
      let v10 := min (8 - v8) a3
      let d ← copyHead dest source a3 destBitOffset v8 v9
      if a3 - v10 < 1 then some d else copyAligned d source (a3 - v10) (v10 + destBitOffset) (v9 + 1)
  else if length < 1 then some dest
  else copyAligned dest source length.toNat destBitOffset v9

/-- Memory accesses are checked against the buffer they go to: `none` is an access outside it. -/
structure MessageBuffer where
  data : List Byte
  curBit : Int
  maxBit : Int
  deriving Repr, DecidableEq

namespace MessageBuffer

/-- `MessageBuffer(const void* data, size_t size)`. -/
def ofBytes (data : List Byte) : MessageBuffer := ⟨data, 0, int32 (8 * data.length)⟩

/-- `MessageBuffer(size_t size)`. -/
def ofSize (size : Nat) : MessageBuffer := ofBytes (List.replicate size 0)

/-- The loop of `ReadBitsSingle` over the bytes after the first. -/
def gather (data : List Byte) (shift : Nat) : Nat → Nat → BitVec 32 → BitVec 32
  | 0, _, retval => retval
  | remaining + 1, startIdx, retval =>
    let thisVal : BitVec 32 := (data.getD startIdx 0).setWidth 32 <<< shift
    gather data shift remaining (startIdx + 1) (thisVal ||| (retval <<< 8))

variable (lengthHack : Bool)

/-- Length 13 stands for 16 when `GetLengthHackState()` holds. -/
def hackLength (length : Nat) : Nat := if length = 13 ∧ lengthHack then 16 else length

/-- `ReadBitsSingle`; `none` is the false return, which leaves `out` alone but
still moves the cursor. -/
def readBitsSingle (b : MessageBuffer) (length : Nat) : Option (BitVec 32) × MessageBuffer :=
  let length := hackLength lengthHack length
  let next := { b with curBit := int32 (b.curBit + length) }
  if b.maxBit < int32 (b.curBit + length) then (none, next)
  else
    let startIdx := b.curBit.toNat / 8
    let shift := b.curBit.toNat % 8
    let remaining := if 8 < length then (length - 9) / 8 + 1 else 0
    let retval : BitVec 32 := (b.data.getD startIdx 0 <<< shift).setWidth 32
    let retval := gather b.data shift remaining (startIdx + 1) retval
    let leftover := b.data.getD (startIdx + 1 + remaining) 0
    let retval := if shift ≠ 0 then retval ||| (leftover >>> (8 - shift)).setWidth 32 else retval
    (some (retval >>> (((length + 7) &&& 0xF8) - length)), next)

/-- `ReadBits`; the first component is the destination after the call. -/
def readBits (b : MessageBuffer) (out : List Byte) (length : Int) : Option (List Byte × Bool × MessageBuffer) :=
  if length = 0 then some (out, true, b)
  else
    let length := if length = 13 ∧ lengthHack then 16 else length
    if b.maxBit < int32 (b.curBit + length) then some (out, false, b)
    else do
      let out ← copyBits out b.data length 0 b.curBit.toNat
      some (out, true, { b with curBit := int32 (b.curBit + length) })

/-- `WriteBitsSingle`. -/
def writeBitsSingle (b : MessageBuffer) (value : BitVec 32) (length : Nat) : Option (Bool × MessageBuffer) :=
  let a3 := hackLength lengthHack length
  if b.maxBit < int32 (b.curBit + a3) then some (false, b)
  else do
    let v5 := b.curBit.toNat % 8
    let v7 := value <<< (32 - a3)
    let v10 := (-1 : BitVec 32) <<< (32 - a3)
    let data ← mergeField b.data (b.curBit.toNat / 8) v5 v7 v10 a3 ((a3 - (8 - v5) - 1) / 8 + 1)
    some (true, { b with data, curBit := int32 (b.curBit + a3) })

/-- `Read<T>(length, out)`, and `Read<T>(length)` with the value alone: a failed
read yields `T()`. -/
def read (b : MessageBuffer) (length : Nat) : BitVec 32 × Bool × MessageBuffer :=
  match readBitsSingle lengthHack b length with
  | (some v, b) => (v, true, b)
  | (none, b) => (0, false, b)

/-- `Write<T>`, which drops the result of `WriteBitsSingle`. -/
def write (b : MessageBuffer) (length : Nat) (value : BitVec 32) : Option MessageBuffer :=
  (writeBitsSingle lengthHack b value length).map (·.2)

/-- `WriteBits`, which has no length hack. -/
def writeBits (b : MessageBuffer) (source : List Byte) (length : Int) : Option (Bool × MessageBuffer) :=
  if b.maxBit < int32 (b.curBit + length) then some (false, b)
  else do
    let data ← copyBits b.data source length b.curBit.toNat 0
    some (true, { b with data, curBit := int32 (b.curBit + length) })

/-- `GetCurrentBit`, an unsigned 32-bit value. -/
def getCurrentBit (b : MessageBuffer) : Nat := ((min b.curBit b.maxBit) % 2 ^ 32).toNat

/-- `SetCurrentBit`. -/
def setCurrentBit (b : MessageBuffer) (bit : Nat) : MessageBuffer :=
  { b with curBit := int32 (min bit (b.maxBit % 2 ^ 32).toNat) }

/-- `GetDataLength`. -/
def getDataLength (b : MessageBuffer) : Nat := (b.curBit / 8).toNat + if b.curBit % 8 ≠ 0 then 1 else 0

end MessageBuffer

end rl
