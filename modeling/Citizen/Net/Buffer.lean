import Citizen.Lib.LittleEndian

namespace net

open Bits LittleEndian

/-- A value of `n` bytes. -/
abbrev Value (n : Nat) := BitVec (8 * n)

/-- The bytes that `Write` appends. -/
def write {n : Nat} (v : Value n) : List Byte := bytes n v.toNat

/-- `Read`: past the end the value is made of `0xCE`, and the offset stays. A buffer that is read from is what
is left of it from its offset on. -/
def read (n : Nat) (buffer : List Byte) : Value n × List Byte :=
  if buffer.length < n then (BitVec.ofNat (8 * n) (value (List.replicate n 0xCE)), buffer)
  else (BitVec.ofNat (8 * n) (value (buffer.take n)), buffer.drop n)

/-- A loop that reads `count` entries. -/
def readMany {α : Type} (readOne : List Byte → α × List Byte) : Nat → List Byte → List α × List Byte
  | 0, buffer => ([], buffer)
  | count + 1, buffer =>
    let (entry, buffer) := readOne buffer
    let (entries, buffer) := readMany readOne count buffer
    (entry :: entries, buffer)

@[simp] theorem length_write {n : Nat} (v : Value n) : (write v).length = n := length_bytes n v.toNat

/-- A value that was written is read back. -/
theorem read_write {n : Nat} (v : Value n) (rest : List Byte) : read n (write v ++ rest) = (v, rest) := by
  have hlength : ¬ (write v ++ rest).length < n := by
    rw [List.length_append, length_write]
    omega
  have hvalue : BitVec.ofNat (8 * n) (value (write v)) = v := by
    apply BitVec.eq_of_toNat_eq
    have hpow : (256 : Nat) ^ n = 2 ^ (8 * n) := by
      rw [pow_mul]
      norm_num
    rw [BitVec.toNat_ofNat, write, value_bytes, hpow, Nat.mod_mod, Nat.mod_eq_of_lt v.isLt]
  rw [read, if_neg hlength, List.take_left' (length_write v), List.drop_left' (length_write v), hvalue]

variable {α : Type} {readOne : List Byte → α × List Byte} {writeOne : α → List Byte}

@[simp] theorem length_readMany (count : Nat) (buffer : List Byte) :
    (readMany readOne count buffer).1.length = count := by
  induction count generalizing buffer with
  | zero => rfl
  | succ count ih => rw [readMany, List.length_cons, ih]

/-- Entries that were written are read back by as many rounds. -/
theorem readMany_flatMap (hread : ∀ a rest, readOne (writeOne a ++ rest) = (a, rest)) (entries : List α)
    (rest : List Byte) : readMany readOne entries.length (entries.flatMap writeOne ++ rest) = (entries, rest) := by
  induction entries with
  | nil => rfl
  | cons a entries ih =>
    rw [List.flatMap_cons, List.append_assoc, List.length_cons, readMany, hread]
    dsimp only
    rw [ih]

/-- A list after its count in one byte. -/
def writeCounted (writeOne : α → List Byte) (entries : List α) : List Byte :=
  write (BitVec.ofNat (8 * 1) entries.length) ++ entries.flatMap writeOne

/-- A count in one byte, and so many entries. -/
def readCounted (readOne : List Byte → α × List Byte) (buffer : List Byte) : List α × List Byte :=
  let (count, buffer) := read 1 buffer
  readMany readOne count.toNat buffer

theorem toNat_count (length : Nat) : (BitVec.ofNat (8 * 1) length).toNat = length % 256 := BitVec.toNat_ofNat length 8

/-- A list that fits its count is read back. -/
theorem readCounted_writeCounted (hread : ∀ a rest, readOne (writeOne a ++ rest) = (a, rest)) {entries : List α}
    (hlength : entries.length < 256) (rest : List Byte) :
    readCounted readOne (writeCounted writeOne entries ++ rest) = (entries, rest) := by
  rw [readCounted, writeCounted, List.append_assoc, read_write]
  dsimp only
  rw [toNat_count, Nat.mod_eq_of_lt hlength, readMany_flatMap hread]

/-- What is read is as long as the count says, whatever was written after it. -/
theorem length_readCounted (entries : List α) (rest : List Byte) :
    (readCounted readOne (writeCounted writeOne entries ++ rest)).1.length = entries.length % 256 := by
  rw [readCounted, writeCounted, List.append_assoc, read_write]
  dsimp only
  rw [toNat_count, length_readMany]

end net
