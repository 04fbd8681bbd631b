import Citizen.Lib.LittleEndian
import Citizen.Mumble.Ocb

open Bits

namespace mumble

namespace Block

variable {iv iv' : Block}

def first (iv : Block) : Byte := iv.bytes.headD 0

def second (iv : Block) : Byte := iv.bytes.tail.headD 0

theorem length_increase (iv : Block) : (LittleEndian.next iv.bytes).length = 16 := by
  rw [LittleEndian.length_next, iv.length_bytes]

/-- The IV of the next packet. -/
def increase (iv : Block) : Block := ⟨LittleEndian.next iv.bytes, length_increase iv⟩

theorem length_tail (iv : Block) : iv.bytes.tail.length = 15 := by
  rw [List.length_tail, iv.length_bytes]

theorem length_set (iv : Block) (ivbyte : Byte) : (ivbyte :: iv.bytes.tail).length = 16 := by
  rw [List.length_cons, length_tail]

def set (iv : Block) (ivbyte : Byte) : Block := ⟨ivbyte :: iv.bytes.tail, length_set iv ivbyte⟩

theorem length_wrap (iv : Block) (ivbyte : Byte) : (ivbyte :: LittleEndian.next iv.bytes.tail).length = 16 := by
  rw [List.length_cons, LittleEndian.length_next, length_tail]

/-- The first byte went past zero. -/
def wrap (iv : Block) (ivbyte : Byte) : Block := ⟨ivbyte :: LittleEndian.next iv.bytes.tail, length_wrap iv ivbyte⟩

theorem length_unwrap (iv : Block) (ivbyte : Byte) : (ivbyte :: LittleEndian.previous iv.bytes.tail).length = 16 := by
  rw [List.length_cons, LittleEndian.length_previous, length_tail]

/-- The first byte is from the last round. -/
def unwrap (iv : Block) (ivbyte : Byte) : Block :=
  ⟨ivbyte :: LittleEndian.previous iv.bytes.tail, length_unwrap iv ivbyte⟩

/-- The number that an IV counts. -/
def value (iv : Block) : Nat := LittleEndian.value iv.bytes

/-- The number that the bytes of an IV behind the first count. -/
def rounds (iv : Block) : Nat := LittleEndian.value iv.bytes.tail

theorem rounds_lt (iv : Block) : iv.rounds < 256 ^ 15 := by
  have h := LittleEndian.value_lt iv.bytes.tail
  rwa [length_tail] at h

theorem value_eq (iv : Block) : iv.value = iv.first.toNat + 256 * iv.rounds := by
  obtain ⟨_ | ⟨b, rest⟩, hlen⟩ := iv
  · cases hlen
  · rfl

theorem value_lt (iv : Block) : iv.value < 2 ^ 128 := by
  have h := LittleEndian.value_lt iv.bytes
  rw [iv.length_bytes] at h
  exact h

theorem value_inj (h : iv.value = iv'.value) : iv = iv' :=
  ext (LittleEndian.value_inj (iv.length_bytes.trans iv'.length_bytes.symm) h)

theorem first_toNat (iv : Block) : iv.first.toNat = iv.value % 256 := by
  have h := iv.first.isLt
  rw [value_eq]
  omega

theorem value_increase (iv : Block) : iv.increase.value = (iv.value + 1) % 2 ^ 128 := by
  have h := LittleEndian.value_next iv.bytes
  rwa [iv.length_bytes] at h

theorem value_set (iv : Block) (ivbyte : Byte) : (iv.set ivbyte).value = ivbyte.toNat + 256 * iv.rounds := rfl

theorem value_wrap (iv : Block) (ivbyte : Byte) :
    (iv.wrap ivbyte).value = ivbyte.toNat + 256 * ((iv.rounds + 1) % 256 ^ 15) := by
  have h := LittleEndian.value_next iv.bytes.tail
  rw [length_tail] at h
  rw [rounds, ← h]
  rfl

/-- The rounds before an IV that is in the last one. -/
theorem value_unwrap (iv : Block) (ivbyte : Byte) : ∃ q < 256 ^ 15,
    (iv.unwrap ivbyte).value = ivbyte.toNat + 256 * q ∧ iv.rounds = (q + 1) % 256 ^ 15 := by
  have h := LittleEndian.value_previous iv.bytes.tail
  have hlt := LittleEndian.value_lt (LittleEndian.previous iv.bytes.tail)
  rw [length_tail] at h
  rw [LittleEndian.length_previous, length_tail] at hlt
  exact ⟨_, hlt, rfl, h.symm⟩

end Block

/-- Where a packet's first byte puts it: its IV, how many packets were skipped, whether it is late, and whether it
is the next one. -/
structure Sought where
  iv : Block
  lost : Int
  late : Bool
  inOrder : Bool

/-- The IV that is closest to the last one and has the first byte. -/
def seek (decrypt_iv : Block) (ivbyte : Byte) : Option Sought :=
  let iv₀ := decrypt_iv.first
  if iv₀ + 1 = ivbyte then
    -- In order as expected.
    if ivbyte > iv₀ then some ⟨decrypt_iv.set ivbyte, 0, false, true⟩
    else if ivbyte < iv₀ then some ⟨decrypt_iv.wrap ivbyte, 0, false, true⟩
    else none
  else
    -- This is either out of order or a repeat.
    let diff : Int := ivbyte.toNat - iv₀.toNat
    let diff := if diff > 128 then diff - 256 else if diff < -128 then diff + 256 else diff
    if ivbyte < iv₀ ∧ diff > -30 ∧ diff < 0 then some ⟨decrypt_iv.set ivbyte, -1, true, false⟩
    else if ivbyte > iv₀ ∧ diff > -30 ∧ diff < 0 then some ⟨decrypt_iv.unwrap ivbyte, -1, true, false⟩
    else if ivbyte > iv₀ ∧ diff > 0 then some ⟨decrypt_iv.set ivbyte, ivbyte.toNat - iv₀.toNat - 1, false, false⟩
    else if ivbyte < iv₀ ∧ diff > 0 then
      some ⟨decrypt_iv.wrap ivbyte, 256 - iv₀.toNat + ivbyte.toNat - 1, false, false⟩
    else none

/-- The side that decrypts. -/
structure Incoming where
  decrypt_iv : Block
  decrypt_history : Byte → Byte
  uiGood : BitVec 32
  uiLate : BitVec 32
  uiLost : BitVec 32

namespace Incoming

/-- The state after a packet that had the right tag. -/
def accept (cs : Incoming) (s : Sought) : Incoming where
  decrypt_iv := if s.late then cs.decrypt_iv else s.iv
  decrypt_history := Function.update cs.decrypt_history s.iv.first s.iv.second
  uiGood := cs.uiGood + 1
  uiLate := cs.uiLate + if s.late then 1 else 0
  uiLost := cs.uiLost + BitVec.ofInt 32 s.lost

/-- The plain bytes and the new state. A packet that is refused leaves the state as it was. -/
def decrypt (cipher : Cipher) (cs : Incoming) (source : List Byte) : Option (List Byte × Incoming) :=
  if source.length < 4 then none
  else (seek cs.decrypt_iv (source.headD 0)).bind fun s =>
    if s.inOrder = false ∧ cs.decrypt_history s.iv.first = s.iv.second then none
    else
      let (plain, tag) := ocb_decrypt cipher (source.drop 4) s.iv
      if tag.bytes.take 3 = (source.drop 1).take 3 then some (plain, cs.accept s) else none

end Incoming

/-- The next IV, and the packet encrypted under it behind its first byte and the first bytes of the tag. -/
def encrypt (cipher : Cipher) (encrypt_iv : Block) (source : List Byte) : Block × List Byte :=
  let encrypt_iv := encrypt_iv.increase
  let (encrypted, tag) := ocb_encrypt cipher source encrypt_iv
  (encrypt_iv, encrypt_iv.first :: tag.bytes.take 3 ++ encrypted)

/-- The server's side of a client's voice channel. -/
structure CryptState where
  raw_key : Cipher
  encrypt_iv : Block
  incoming : Incoming

namespace CryptState

/-- The last byte of the history stays as it was. -/
def init (cs : CryptState) : CryptState where
  raw_key := cs.raw_key
  encrypt_iv := Block.ZERO
  incoming := ⟨Block.ZERO, fun b => if b.toNat < 0xff then 0 else cs.incoming.decrypt_history b, 0, 0, 0⟩

/-- The key and the IVs are random. -/
def genKey (cs : CryptState) (raw_key : Cipher) (encrypt_iv decrypt_iv : Block) : CryptState where
  raw_key
  encrypt_iv
  incoming := { cs.incoming with decrypt_iv }

def encrypt (cs : CryptState) (source : List Byte) : CryptState × List Byte :=
  let (encrypt_iv, dst) := mumble.encrypt cs.raw_key cs.encrypt_iv source
  ({ cs with encrypt_iv }, dst)

def decrypt (cs : CryptState) (source : List Byte) : Option (List Byte × CryptState) :=
  (cs.incoming.decrypt cs.raw_key source).map fun (dst, incoming) => (dst, { cs with incoming })

end CryptState

/-- The client's side. Its history starts as whatever the memory held. -/
structure MumbleCryptoImpl where
  key : Cipher
  clientNonce : Block
  server : Incoming

namespace MumbleCryptoImpl

def new (key : Cipher) (clientNonce serverNonce : Block) (decryptHistory : Byte → Byte) : MumbleCryptoImpl where
  key
  clientNonce
  server := ⟨serverNonce, decryptHistory, 0, 0, 0⟩

def Encrypt (crypto : MumbleCryptoImpl) (plain : List Byte) : MumbleCryptoImpl × List Byte :=
  let (clientNonce, cipher) := encrypt crypto.key crypto.clientNonce plain
  ({ crypto with clientNonce }, cipher)

def Decrypt (crypto : MumbleCryptoImpl) (cipher : List Byte) : Option (List Byte × MumbleCryptoImpl) :=
  (crypto.server.decrypt crypto.key cipher).map fun (plain, server) => (plain, { crypto with server })

end MumbleCryptoImpl

variable {iv : Block} {ivbyte : Byte} {s : Sought}

/-- A packet is sought from 29 before the last one to 128 behind it. -/
structure Sought.At (s : Sought) (iv : Block) (d : Int) : Prop where
  window : -30 < d ∧ d ≤ 128 ∧ d ≠ 0
  value : (s.iv.value : Int) = (iv.value + d) % 2 ^ 128
  late : s.late = decide (d < 0)
  inOrder : s.inOrder = decide (d = 1)
  lost : s.lost = if d < 0 then -1 else d - 1

theorem at_set (d : Int) (hd : (ivbyte.toNat : Int) = iv.first.toNat + d) : ((iv.set ivbyte).value : Int) =
    (iv.value + d) % 2 ^ 128 := by
  have hbyte := ivbyte.isLt
  have hrounds := iv.rounds_lt
  rw [Block.value_set, Block.value_eq]
  omega

theorem at_wrap (d : Int) (hd : (ivbyte.toNat : Int) + 256 = iv.first.toNat + d) : ((iv.wrap ivbyte).value : Int) =
    (iv.value + d) % 2 ^ 128 := by
  have hbyte := ivbyte.isLt
  have hrounds := iv.rounds_lt
  rw [Block.value_wrap, Block.value_eq]
  omega

theorem at_unwrap (d : Int) (hd : (ivbyte.toNat : Int) - 256 = iv.first.toNat + d) : ((iv.unwrap ivbyte).value : Int) =
    (iv.value + d) % 2 ^ 128 := by
  have hbyte := ivbyte.isLt
  obtain ⟨q, hq, hvalue, hrounds⟩ := iv.value_unwrap ivbyte
  rw [hvalue, Block.value_eq, hrounds]
  omega

/-- What the source makes of the difference of two first bytes. -/
theorem diff_cases {raw diff : Int}
    (h : (if raw > 128 then raw - 256 else if raw < -128 then raw + 256 else raw) = diff) :
    128 < raw ∧ diff = raw - 256 ∨ raw < -128 ∧ diff = raw + 256 ∨ -128 ≤ raw ∧ raw ≤ 128 ∧ diff = raw := by
  split_ifs at h <;> omega

theorem seek_spec (h : seek iv ivbyte = some s) : s.iv.first = ivbyte ∧ ∃ d, s.At iv d := by
  have hlt := iv.first.isLt
  have hbyte := ivbyte.isLt
  have hnext : (iv.first + 1).toNat = (iv.first.toNat + 1) % 256 := BitVec.toNat_add _ _
  simp only [seek, gt_iff_lt, BitVec.lt_def] at h
  split at h
  next hinOrder =>
    rw [hinOrder] at hnext
    split at h
    · cases h
      exact ⟨rfl, 1, by omega, at_set 1 (by omega), rfl, rfl, rfl⟩
    · split at h
      · cases h
        exact ⟨rfl, 1, by omega, at_wrap 1 (by omega), rfl, rfl, rfl⟩
      · cases h
  next hout =>
    have hne : ivbyte.toNat ≠ (iv.first.toNat + 1) % 256 :=
      fun heq => hout (BitVec.eq_of_toNat_eq (hnext.trans heq.symm))
    generalize hdiff : (if (ivbyte.toNat : Int) - iv.first.toNat > 128 then (ivbyte.toNat : Int) - iv.first.toNat - 256
      else if (ivbyte.toNat : Int) - iv.first.toNat < -128 then (ivbyte.toNat : Int) - iv.first.toNat + 256
      else (ivbyte.toNat : Int) - iv.first.toNat) = diff at h
    have hcases := diff_cases hdiff
    clear hdiff hnext hout
    split at h
    next hlate =>
      cases h
      refine ⟨rfl, diff, by omega, at_set diff (by omega), (decide_eq_true hlate.2.2).symm, ?_, (if_pos
        hlate.2.2).symm⟩
      exact (decide_eq_false (by omega)).symm
    next =>
    split at h
    next hlate =>
      cases h
      refine ⟨rfl, diff, by omega, at_unwrap diff (by omega), (decide_eq_true hlate.2.2).symm, ?_, (if_pos
        hlate.2.2).symm⟩
      exact (decide_eq_false (by omega)).symm
    next =>
    split at h
    next hahead =>
      cases h
      refine ⟨rfl, diff, by omega, at_set diff (by omega), (decide_eq_false (by omega)).symm, (decide_eq_false
        (by omega)).symm, ?_⟩
      dsimp only
      rw [if_neg (by omega)]
      omega
    next =>
    split at h
    next hahead =>
      cases h
      refine ⟨rfl, diff, by omega, at_wrap diff (by omega), (decide_eq_false (by omega)).symm, (decide_eq_false
        (by omega)).symm, ?_⟩
      dsimp only
      rw [if_neg (by omega)]
      omega
    next => cases h

/-- A first byte that is not found is not that of a packet close by. -/
theorem apart_of_seek_eq_none (h : seek iv ivbyte = none) {d : Int} (hwindow : -30 < d ∧ d ≤ 127 ∧ d ≠ 0) :
    (ivbyte.toNat : Int) ≠ (iv.first.toNat + d) % 256 := by
  have hlt := iv.first.isLt
  have hbyte := ivbyte.isLt
  have hnext : (iv.first + 1).toNat = (iv.first.toNat + 1) % 256 := BitVec.toNat_add _ _
  simp only [seek, gt_iff_lt, BitVec.lt_def] at h
  split at h
  next hinOrder =>
    rw [hinOrder] at hnext
    split at h
    · cases h
    · split at h
      · cases h
      · omega
  next hout =>
    generalize hdiff : (if (ivbyte.toNat : Int) - iv.first.toNat > 128 then (ivbyte.toNat : Int) - iv.first.toNat - 256
      else if (ivbyte.toNat : Int) - iv.first.toNat < -128 then (ivbyte.toNat : Int) - iv.first.toNat + 256
      else (ivbyte.toNat : Int) - iv.first.toNat) = diff at h
    have hcases := diff_cases hdiff
    clear hdiff hnext hout
    split_ifs at h
    omega

/-- The first byte of a packet that is close enough is found where the packet is. -/
theorem seek_of_window (iv₁ : Block) {d : Int} (hwindow : -30 < d ∧ d ≤ 127 ∧ d ≠ 0)
    (hvalue : (iv₁.value : Int) = (iv.value + d) % 2 ^ 128) : ∃ s, seek iv iv₁.first = some s ∧ s.iv = iv₁ ∧
      s.At iv d := by
  have hfound : seek iv iv₁.first ≠ none := by
    intro hnone
    have happart := apart_of_seek_eq_none hnone hwindow
    rw [Block.first_toNat, Block.first_toNat] at happart
    omega
  obtain ⟨s, hs⟩ := Option.ne_none_iff_exists'.mp hfound
  obtain ⟨hfirst, d', hat⟩ := seek_spec hs
  have hsame : d' = d := by
    have hwindow' := hat.window
    have hvalue' := hat.value
    have hbyte := congrArg BitVec.toNat hfirst
    rw [Block.first_toNat, Block.first_toNat] at hbyte
    omega
  rw [hsame] at hat
  exact ⟨s, hs, Block.value_inj (by have := hat.value; omega), hat⟩

end mumble
