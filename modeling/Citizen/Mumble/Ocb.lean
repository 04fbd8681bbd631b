import Citizen.Lib.Bits
import Mathlib.Logic.Equiv.Defs

open Bits

namespace mumble

/-- An AES block. -/
structure Block where
  bytes : List Byte
  length_bytes : bytes.length = 16
deriving DecidableEq

/-- AES under a key. A block cipher takes different blocks to different blocks, and decrypts what it encrypted. -/
abbrev Cipher := Equiv.Perm Block

namespace Block

variable {a b : Block} {l : List Byte}

theorem ext (h : a.bytes = b.bytes) : a = b := by
  cases a
  cases b
  cases h
  rfl

def ZERO : Block := ⟨List.replicate 16 0, List.length_replicate⟩

theorem length_xor (a b : Block) : (List.zipWith (· ^^^ ·) a.bytes b.bytes).length = 16 := by
  rw [List.length_zipWith, a.length_bytes, b.length_bytes, Nat.min_self]

def XOR (a b : Block) : Block := ⟨List.zipWith (· ^^^ ·) a.bytes b.bytes, length_xor a b⟩

theorem bytes_XOR (a b : Block) : (XOR a b).bytes = List.zipWith (· ^^^ ·) a.bytes b.bytes := rfl

/-- A subblock with its bytes swapped: the block is kept with its most significant byte first. -/
def swapped (block : Block) (i : Nat) : BitVec 32 :=
  block.bytes.getD (4 * i) 0 ++ block.bytes.getD (4 * i + 1) 0 ++ block.bytes.getD (4 * i + 2) 0 ++
    block.bytes.getD (4 * i + 3) 0

/-- The four bytes of a swapped subblock. -/
def subblock (v : BitVec 32) : List Byte :=
  [v.extractLsb' 24 8, v.extractLsb' 16 8, v.extractLsb' 8 8, v.extractLsb' 0 8]

def ofSubblocks (v₀ v₁ v₂ v₃ : BitVec 32) : Block := ⟨subblock v₀ ++ subblock v₁ ++ subblock v₂ ++ subblock v₃, rfl⟩

/-- The block doubled in the field with `2 ^ 128` elements. -/
def S2 (block : Block) : Block :=
  let carry := block.swapped 0 >>> 31
  let shift i := (block.swapped i <<< 1) ||| (block.swapped (i + 1) >>> 31)
  ofSubblocks (shift 0) (shift 1) (shift 2) ((block.swapped 3 <<< 1) ^^^ (carry * 0x87))

def S3 (block : Block) : Block := XOR block (S2 block)

theorem length_copy (l : List Byte) (b : Block) : ((l ++ b.bytes.drop l.length).take 16).length = 16 := by
  rw [List.length_take, List.length_append, List.length_drop, b.length_bytes]
  omega

/-- `memcpy` of bytes to the start of a block. -/
def copy (l : List Byte) (b : Block) : Block := ⟨(l ++ b.bytes.drop l.length).take 16, length_copy l b⟩

/-- The block that bytes start with. -/
def load (l : List Byte) : Block := copy (l.take 16) ZERO

theorem bytes_copy (h : l.length ≤ 16) (b : Block) : (copy l b).bytes = l ++ b.bytes.drop l.length := by
  apply List.take_of_length_le
  rw [List.length_append, List.length_drop, b.length_bytes]
  omega

theorem bytes_load (h : 16 ≤ l.length) : (load l).bytes = l.take 16 := by
  have hlen : (l.take 16).length = 16 := by rw [List.length_take]; omega
  rw [load, bytes_copy (by omega), hlen, List.drop_of_length_le (by rw [length_bytes]), List.append_nil]

theorem load_bytes (b : Block) (rest : List Byte) : load (b.bytes ++ rest) = b := by
  apply ext
  rw [bytes_load (by rw [List.length_append, b.length_bytes]; omega), List.take_left' b.length_bytes]

theorem zipWith_xor_cancel : ∀ {l l' : List Byte}, l.length = l'.length →
    List.zipWith (· ^^^ ·) l (List.zipWith (· ^^^ ·) l l') = l'
  | [], [], _ => rfl
  | b :: rest, b' :: rest', h => by
    rw [List.zipWith_cons_cons, List.zipWith_cons_cons, zipWith_xor_cancel (Nat.succ.inj h), ← BitVec.xor_assoc,
      BitVec.xor_self, BitVec.zero_xor]

theorem zipWith_xor_zero (l : List Byte) : List.zipWith (· ^^^ ·) (List.replicate l.length 0) l = l := by
  induction l with
  | nil => rfl
  | cons b rest ih =>
    have hhead : (0 : Byte) ^^^ b = b := BitVec.zero_xor
    rw [List.length_cons, List.replicate_succ, List.zipWith_cons_cons, ih, hhead]

theorem XOR_cancel (a b : Block) : XOR a (XOR a b) = b :=
  ext (zipWith_xor_cancel (a.length_bytes.trans b.length_bytes.symm))

end Block

open Block

/-- The loop over full blocks: what it wrote, the offset and the checksum it ends with, and what it left. `code` is
what becomes of a block, and `sum` says which of the two is in the checksum. -/
def ocb_blocks (code : Block → Block) (sum : Block → Block → Block) :
    Nat → Block → Block → List Byte → List Byte × Block × Block × List Byte
  | 0, delta, checksum, input => ([], delta, checksum, input)
  | fuel + 1, delta, checksum, input =>
    if input.length > 16 then
      let delta := S2 delta
      let output := XOR delta (code (XOR delta (load input)))
      let rest := ocb_blocks code sum fuel delta (XOR checksum (sum (load input) output)) (input.drop 16)
      (output.bytes ++ rest.1, rest.2)
    else ([], delta, checksum, input)

/-- The block that holds the length of the last bytes in bits. -/
def lengthBlock (len : Nat) : Block := ofSubblocks 0 0 0 (BitVec.ofNat 32 (len * 8))

/-- The encrypted bytes and the tag. -/
def ocb_encrypt (cs : Cipher) (plain : List Byte) (nonce : Block) : List Byte × Block :=
  let (encrypted, delta, checksum, last) := ocb_blocks cs (fun plain _ => plain) plain.length (cs nonce) ZERO plain
  let delta := S2 delta
  let pad := cs (XOR (lengthBlock last.length) delta)
  let tmp := copy last pad
  let checksum := XOR checksum tmp
  (encrypted ++ (XOR pad tmp).bytes.take last.length, cs (XOR (S3 delta) checksum))

/-- The decrypted bytes and the tag that they had. -/
def ocb_decrypt (cs : Cipher) (encrypted : List Byte) (nonce : Block) : List Byte × Block :=
  let (plain, delta, checksum, last) :=
    ocb_blocks cs.symm (fun _ plain => plain) encrypted.length (cs nonce) ZERO encrypted
  let delta := S2 delta
  let pad := cs (XOR (lengthBlock last.length) delta)
  let tmp := XOR (copy last ZERO) pad
  let checksum := XOR checksum tmp
  (plain ++ tmp.bytes.take last.length, cs (XOR (S3 delta) checksum))

variable {code : Block → Block} {sum : Block → Block → Block} {fuel : Nat} {delta delta' checksum checksum' : Block}
variable {input written last : List Byte}

/-- What the loop leaves fits in a block. -/
theorem length_last (hfuel : input.length ≤ fuel)
    (h : ocb_blocks code sum fuel delta checksum input = (written, delta', checksum', last)) : last.length ≤ 16 := by
  induction fuel generalizing delta checksum input written with
  | zero =>
    cases h
    omega
  | succ fuel ih =>
    rw [ocb_blocks] at h
    split at h
    next hfull =>
      have hrest : (input.drop 16).length ≤ fuel := by rw [List.length_drop]; omega
      obtain ⟨_, hafter⟩ := Prod.mk.inj h
      exact ih hrest (Prod.ext rfl hafter)
    next =>
      cases h
      omega

/-- The blocks that were encrypted are followed by the bytes that were left. Decrypting them, with anything of that
length behind them, gives them back, with the same offset and checksum. -/
theorem decrypt_blocks (cs : Cipher) (hfuel : input.length ≤ fuel)
    (h : ocb_blocks cs (fun plain _ => plain) fuel delta checksum input = (written, delta', checksum', last)) :
    ∃ full, input = full ++ last ∧ written.length = full.length ∧ ∀ tail : List Byte, tail.length = last.length →
      ocb_blocks cs.symm (fun _ plain => plain) fuel delta checksum (written ++ tail) =
        (full, delta', checksum', tail) := by
  induction fuel generalizing delta checksum input written with
  | zero =>
    cases h
    exact ⟨[], rfl, rfl, fun tail _ => rfl⟩
  | succ fuel ih =>
    rw [ocb_blocks] at h
    split at h
    next hfull =>
      have hrest : (input.drop 16).length ≤ fuel := by rw [List.length_drop]; omega
      obtain ⟨rfl, hafter⟩ := Prod.mk.inj h
      obtain ⟨full, hinput, hlen, hdecrypt⟩ := ih hrest (Prod.ext rfl hafter)
      have hload : (load input).bytes = input.take 16 := bytes_load (by omega)
      have hsizes := congrArg List.length hinput
      rw [List.length_drop, List.length_append] at hsizes
      refine ⟨(load input).bytes ++ full, ?_, ?_, ?_⟩
      · rw [List.append_assoc, ← hinput, hload, List.take_append_drop]
      · rw [List.length_append, List.length_append, length_bytes, length_bytes, hlen]
      · intro tail htail
        rw [List.append_assoc, ocb_blocks, if_pos]
        · rw [load_bytes, List.drop_left' (length_bytes _)]
          dsimp only
          rw [XOR_cancel, Equiv.symm_apply_apply, XOR_cancel, hdecrypt tail htail]
        · rw [List.length_append, List.length_append, length_bytes, hlen, htail]
          omega
    next hshort =>
      cases h
      refine ⟨[], rfl, rfl, fun tail htail => ?_⟩
      rw [List.nil_append, ocb_blocks, if_neg (by omega)]

theorem zipWith_unpad {front : List Byte} (back : List Byte) (h : front.length = last.length) :
    List.zipWith (· ^^^ ·) (List.zipWith (· ^^^ ·) front last ++ List.replicate back.length 0) (front ++ back) =
      last ++ back := by
  have hlen : (List.zipWith (· ^^^ ·) front last).length = front.length := by
    rw [List.length_zipWith, h, Nat.min_self]
  have hcomm : List.zipWith (· ^^^ ·) (List.zipWith (· ^^^ ·) front last) front =
      List.zipWith (· ^^^ ·) front (List.zipWith (· ^^^ ·) front last) :=
    List.zipWith_comm_of_comm fun x y => BitVec.xor_comm x y
  rw [List.zipWith_append hlen, zipWith_xor_zero, hcomm, zipWith_xor_cancel h]

/-- The last bytes come out of the pad again, with the rest of the pad behind them. -/
theorem unpad (pad : Block) (h : last.length ≤ 16) :
    XOR (copy ((XOR pad (copy last pad)).bytes.take last.length) ZERO) pad = copy last pad := by
  have hpad := pad.length_bytes
  have htake : (pad.bytes.take last.length).length = last.length := by rw [List.length_take]; omega
  have hhidden : (XOR pad (copy last pad)).bytes.take last.length =
      List.zipWith (· ^^^ ·) (pad.bytes.take last.length) last := by
    rw [bytes_XOR, bytes_copy h, List.take_zipWith, List.take_left]
  have hlen : (List.zipWith (· ^^^ ·) (pad.bytes.take last.length) last).length = last.length := by
    rw [List.length_zipWith, htake, Nat.min_self]
  have hzero : ZERO.bytes.drop last.length = List.replicate (pad.bytes.drop last.length).length 0 := by
    rw [ZERO, List.drop_replicate, List.length_drop, hpad]
  have hunpad := zipWith_unpad (pad.bytes.drop last.length) htake
  rw [List.take_append_drop] at hunpad
  apply Block.ext
  rw [hhidden, bytes_XOR, bytes_copy (hlen.trans_le h), bytes_copy h, hlen, hzero, hunpad]

/-- What was encrypted is decrypted, and has the tag that it was sent with. -/
theorem ocb_roundTrip (cs : Cipher) (plain : List Byte) (nonce : Block) :
    (ocb_encrypt cs plain nonce).1.length = plain.length ∧
      ocb_decrypt cs (ocb_encrypt cs plain nonce).1 nonce = (plain, (ocb_encrypt cs plain nonce).2) := by
  obtain ⟨⟨written, delta, checksum, last⟩, hblocks⟩ : ∃ r,
    ocb_blocks cs (fun plain _ => plain) plain.length (cs nonce) ZERO plain = r := ⟨_, rfl⟩
  have hlast := length_last le_rfl hblocks
  obtain ⟨full, hplain, hwritten, hdecrypt⟩ := decrypt_blocks cs le_rfl hblocks
  obtain ⟨pad, hpad⟩ : ∃ pad, cs (XOR (lengthBlock last.length) (S2 delta)) = pad := ⟨_, rfl⟩
  have htail : ((XOR pad (copy last pad)).bytes.take last.length).length = last.length := by
    rw [List.length_take, length_bytes]
    omega
  have hencrypt : ocb_encrypt cs plain nonce = (written ++ (XOR pad (copy last pad)).bytes.take last.length,
      cs (XOR (S3 (S2 delta)) (XOR checksum (copy last pad)))) := by
    rw [ocb_encrypt, hblocks]
    dsimp only
    rw [hpad]
  have hlen : (written ++ (XOR pad (copy last pad)).bytes.take last.length).length = plain.length := by
    rw [List.length_append, hwritten, htail, hplain, List.length_append]
  rw [hencrypt]
  refine ⟨hlen, ?_⟩
  rw [ocb_decrypt, hlen, hdecrypt _ htail]
  dsimp only
  rw [htail, hpad, unpad pad hlast, bytes_copy hlast, List.take_left, ← hplain]

end mumble
