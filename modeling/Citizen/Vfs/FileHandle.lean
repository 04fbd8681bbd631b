import Citizen.Vfs.RagePackfile7
import Citizen.Lib.Transition

open Bits Transition

namespace vfs.RagePackfile7

variable {σ : Type}

/-- What a call of `inflate` does: the bytes that it takes and gives, and what it returns. -/
structure Inflated (σ : Type) where
  strm : σ
  consumed : Nat
  output : List Byte
  code : Int

/-- zlib: a raw stream after `inflateInit2`, and `inflate` with the input and the room that there are. -/
structure Zlib (σ : Type) where
  init : σ
  inflate : σ → List Byte → Nat → Inflated σ

def zOk : Int := 0

def zStreamEnd : Int := 1

/-- What `inflate` does after `i` bytes of `data` and `j` bytes of `content`, where `reached` says this of a stream:
it gives bytes of the content, and it stops at the end of the stream, where there is no room, or where more of
`data` has to come. -/
structure Inflated.Sound (data content : List Byte) (reached : σ → Nat → Nat → Prop) (i j : Nat)
    (input : List Byte) (room : Nat) (r : Inflated σ) : Prop where
  reached : reached r.strm (i + r.consumed) (j + r.output.length)
  consumed : r.consumed ≤ input.length
  output : r.output = (content.drop j).take r.output.length
  fits : r.output.length ≤ room
  code : r.code = zStreamEnd ∧ j + r.output.length = content.length ∨
    r.code = zOk ∧ 0 < r.consumed + r.output.length ∧
      (r.output.length = room ∨ r.consumed = input.length ∧ i + r.consumed < data.length)

/-- zlib expands `data` to `content`. `inflate` is called with some of the input that is next, or after all of it. -/
structure Zlib.Expands (zlib : Zlib σ) (data content : List Byte) (reached : σ → Nat → Nat → Prop) : Prop where
  init : reached zlib.init 0 0
  next : ∀ {s i j input room}, reached s i j → input = (data.drop i).take input.length →
    (input ≠ [] ∨ data.length ≤ i) → 0 < room →
      Inflated.Sound data content reached i j input room (zlib.inflate s input room)

/-- What handles read with: zlib, and the bytes that `ReadBulk` finds from `m_parentPtr` on. -/
structure Backing (σ : Type) where
  zlib : Zlib σ
  bytes : List Byte

/-- The `HandleData` that `Open` fills in. -/
structure FileHandle (σ : Type) where
  compressed : Bool
  entry : Entry
  curOffset : Nat := 0
  curDecOffset : Nat := 0
  strm : σ
  /-- The `avail_in` bytes at `next_in`. -/
  input : List Byte := []

inductive SeekType
  | seekSet | seekCur | seekEnd

/-- A value that becomes a `size_t`. -/
def toSize (x : Int) : Nat := (x % 2 ^ 64).toNat

namespace FileHandle

def ofEntry (b : Backing σ) (entry : Entry) : FileHandle σ :=
    { compressed := entry.size ≠ 0, entry, strm := b.zlib.init }

/-- `ReadBulk`, at the offset. `entry.offset` is a bit-field of 24 bits, so that the product with 512 is an `int`;
`none` is its overflow. -/
def readBulk (b : Backing σ) (h : FileHandle σ) (toRead : Nat) : Option (List Byte) :=
  if h.entry.offset * 512 < 2 ^ 31 then some ((b.bytes.drop (h.entry.offset * 512 + h.curOffset)).take toRead)
    else none

/-- The input buffer is filled where it is empty. -/
def fetch (b : Backing σ) (h : FileHandle σ) : Option (FileHandle σ) :=
  if h.input = [] then
    (h.readBulk b (min (h.entry.size - h.curOffset) 0x2000)).map fun input =>
      { h with input, curOffset := h.curOffset + input.length }
  else some h

/-- `InternalRead`, for `avail_out` bytes. `none` is `FatalError`, or more rounds than `fuel`. -/
def internalRead (b : Backing σ) : Nat → FileHandle σ → Nat → Option (FileHandle σ × List Byte)
  | _, h, 0 => some (h, [])
  | 0, _, _ + 1 => none
  | fuel + 1, h, availOut + 1 => do
    let h ← h.fetch b
    let r := b.zlib.inflate h.strm h.input (availOut + 1)
    let h := { h with strm := r.strm, input := h.input.drop r.consumed }
    if r.code = zStreamEnd then some (h, r.output)
    else if r.code < 0 then none
    else do
      let (h, output) ← internalRead b fuel h (availOut + 1 - r.output.length)
      some (h, r.output ++ output)

/-- `Read`, with what it returns and what it writes to the buffer. `avail_out` has 32 bits. -/
def read (b : Backing σ) (fuel : Nat) (h : FileHandle σ) (size : Nat) : Option (FileHandle σ × Nat × List Byte) :=
  if h.entry.virtFlags ≤ h.curOffset then some (h, 0, [])
  else if h.compressed then do
    let availOut := size % 2 ^ 32
    let (h, output) ← h.internalRead b fuel availOut
    let didRead := size - (availOut - output.length)
    some ({ h with curDecOffset := h.curDecOffset + didRead }, didRead, output)
  else do
    let output ← h.readBulk b (min (h.entry.virtFlags - h.curOffset) size)
    some ({ h with curOffset := h.curOffset + output.length }, output.length, output)

/-- Where a seek goes. -/
def seekTarget (position length : Nat) (offset : Int) : SeekType → Nat
  | .seekCur => min (toSize (position + offset)) length
  | .seekSet => toSize offset
  | .seekEnd => toSize (length - offset)

/-- The loop of `Seek` that reads up to the target. -/
def skip (b : Backing σ) (fuel target : Nat) : Nat → FileHandle σ → Option (FileHandle σ)
  | 0, h => if h.curDecOffset < target then none else some h
  | rounds + 1, h =>
    if h.curDecOffset < target then do
      let readSize := min (target - h.curDecOffset) 0x2000
      let (h, output) ← h.internalRead b fuel readSize
      skip b fuel target rounds { h with curDecOffset := h.curDecOffset + (readSize - (readSize - output.length)) }
    else some h

/-- A seek backwards starts the stream again. -/
def rewind (b : Backing σ) (target : Nat) (h : FileHandle σ) : FileHandle σ :=
  if target < h.curDecOffset then { h with strm := b.zlib.init, input := [], curDecOffset := 0, curOffset := 0 } else h

/-- `Seek`, with the position that it returns. -/
def seek (b : Backing σ) (fuel : Nat) (h : FileHandle σ) (offset : Int) (seekType : SeekType) :
    Option (FileHandle σ × Nat) :=
  if h.compressed then
    let target := seekTarget h.curDecOffset h.entry.virtFlags offset seekType
    ((h.rewind b target).skip b fuel target fuel).map fun h => (h, target)
  else
    let target := seekTarget h.curOffset h.entry.virtFlags offset seekType
    some ({ h with curOffset := target }, target)

end FileHandle

inductive Call
  | read (size : Nat)
  | seek (offset : Int) (seekType : SeekType)

/-- What a call returns, and the bytes that it writes. -/
inductive Result
  | read (didRead : Nat) (output : List Byte)
  | seek (position : Nat)

def FileHandle.call (b : Backing σ) (fuel : Nat) (h : FileHandle σ) : Call → Option (FileHandle σ × Result)
  | .read size => (h.read b fuel size).map fun (h, didRead, output) => (h, .read didRead output)
  | .seek offset seekType => (h.seek b fuel offset seekType).map fun (h, position) => (h, .seek position)

/-- A byte array with a position. -/
structure View where
  content : List Byte
  pos : Nat

namespace View

variable (v : View)

def target (offset : Int) : SeekType → Int
  | .seekCur => v.pos + offset
  | .seekSet => offset
  | .seekEnd => v.content.length - offset

/-- What a call does to a byte array. -/
def call : Call → View × Result
  | .read size =>
    let output := (v.content.drop v.pos).take size
    ({ v with pos := v.pos + output.length }, .read output.length output)
  | .seek offset seekType =>
    let pos := (v.target offset seekType).toNat
    ({ v with pos }, .seek pos)

/-- Seeks stay within the content. -/
def Valid : Call → Prop
  | .read _ => True
  | .seek offset seekType => 0 ≤ v.target offset seekType ∧ v.target offset seekType ≤ v.content.length

end View

/-- A handle, with the byte array that it is to be. -/
def step (b : Backing σ) (fuel : Nat) (s : FileHandle σ × View) (call : Call) : Option (FileHandle σ × View) :=
  (s.1.call b fuel call).map fun (h, _) => (h, (s.2.call call).1)

/-- Every valid call that is allowed ends, with the result that the byte array has. -/
def Exact (b : Backing σ) (fuel : Nat) (ok : FileHandle σ → View → Call → Prop) (s : FileHandle σ × View) : Prop :=
  ∀ call, s.2.Valid call → ok s.1 s.2 call → ∃ h, s.1.call b fuel call = some (h, (s.2.call call).2)

/-- The bytes of an entry in the archive. -/
def Entry.data (entry : Entry) (b : Backing σ) : List Byte := (b.bytes.drop (entry.offset * 512)).take entry.size

/-- An entry of the archive with this content, which is stored, or which zlib makes of the bytes of the entry. -/
structure Entry.Holds (entry : Entry) (b : Backing σ) (content : List Byte)
    (reached : σ → Nat → Nat → Prop) : Prop where
  length : content.length = entry.virtFlags
  small : entry.virtFlags < 2 ^ 32
  stored : entry.size = 0 → (b.bytes.drop (entry.offset * 512)).take entry.virtFlags = content
  deflated : entry.size ≠ 0 → (entry.data b).length = entry.size ∧ b.zlib.Expands (entry.data b) content reached

/-- The entry begins in the first 2 GiB where it is read; the offset in the compressed data is below the expanded
length until everything has been read, and no compressed entry is read by 4 GiB or more at once. -/
def Allowed (h : FileHandle σ) (v : View) : Call → Prop
  | .read size =>
    if h.curOffset < h.entry.virtFlags then
      h.compressed = true ∧ size = 0 ∨ h.entry.offset < 2 ^ 22 ∧ (h.compressed = true → size < 2 ^ 32)
    else v.pos = v.content.length ∨ size = 0
  | .seek offset seekType =>
    h.compressed = true → v.target offset seekType = 0 ∨ v.target offset seekType = v.pos ∨ h.entry.offset < 2 ^ 22

end vfs.RagePackfile7
