import Citizen.MessageBuffer.Cursor

open Bits rl

namespace fx

def kPacketSizeBits : Nat := 17

def kFragmentSize : Nat := 1024 - 1

def kFragmentSizeBits : Nat := 10

def kMaxPacketSize : Nat := 2 ^ kPacketSizeBits * kFragmentSize

theorem kMaxPacketSize_eq : kMaxPacketSize = 134086656 := by decide

abbrev EventId := BitVec 64

/-- `payload` is the array of the source. A packet that was built to be sent
lists only the bytes that were copied into it; the rest is never read. -/
structure EventPacket where
  eventId : EventId
  packetIdx : Nat
  totalPackets : Nat
  thisBytes : Nat
  payload : List Byte
  deriving Repr, DecidableEq

namespace EventPacket

/-- The fields before the payload. `stack` is what the uninitialised payload
array of the caller holds; `none` is the false return. -/
def parseFields (stack : List Byte) (buffer : MessageBuffer) : Option (EventPacket × MessageBuffer) :=
  match buffer.readBitsSingle false 32 with
  | (none, _) => none
  | (some eventIdLow, buffer) =>
  match buffer.readBitsSingle false 32 with
  | (none, _) => none
  | (some eventIdHigh, buffer) =>
  match buffer.readBitsSingle false kPacketSizeBits with
  | (none, _) => none
  | (some packetIdx, buffer) =>
  match buffer.readBitsSingle false kPacketSizeBits with
  | (none, _) => none
  | (some totalPackets, buffer) =>
  match buffer.readBitsSingle false kFragmentSizeBits with
  | (none, _) => none
  | (some thisBytes, buffer) =>
    some (⟨eventIdHigh.setWidth 64 <<< 32 ||| eventIdLow.setWidth 64, packetIdx.toNat, totalPackets.toNat,
      thisBytes.toNat, stack⟩, buffer)

/-- `EventPacket::Parse`; the outer `none` is an access outside a buffer. The
result of reading the payload is dropped. -/
def parse (stack : List Byte) (buffer : MessageBuffer) : Option (Option EventPacket) :=
  match parseFields stack buffer with
  | none => some none
  | some (packet, buffer) =>
    if 0 < packet.thisBytes then do
      let (payload, _) ← buffer.readBits false packet.payload (min packet.thisBytes kFragmentSize * 8 : Nat)
      some (some { packet with payload })
    else some (some packet)

/-- `EventPacket::Unparse`. -/
def unparse (packet : EventPacket) (buffer : MessageBuffer) : Option MessageBuffer := do
  let buffer ← buffer.write false 32 (packet.eventId.setWidth 32)
  let buffer ← buffer.write false 32 ((packet.eventId >>> 32).setWidth 32)
  let buffer ← buffer.write false kPacketSizeBits (BitVec.ofNat 32 packet.packetIdx)
  let buffer ← buffer.write false kPacketSizeBits (BitVec.ofNat 32 packet.totalPackets)
  let buffer ← buffer.write false kFragmentSizeBits (BitVec.ofNat 32 packet.thisBytes)
  if 0 < packet.thisBytes then
    let (_, buffer) ← buffer.writeBits packet.payload (packet.thisBytes * 8 : Nat)
    some buffer
  else some buffer

/-- What `SendPacket` is given for a packet: the used part of a fresh
`rl::MessageBuffer buf(1536)`. -/
def datagram (packet : EventPacket) : Option (List Byte) := do
  let buf ← packet.unparse (.ofSize 1536)
  some (buf.data.take buf.getDataLength)

/-- The bits of a datagram: the five header fields and the payload bytes. -/
structure Layout (packet : EventPacket) (bytes : List Byte) : Prop where
  length_eq : bytes.length = (108 + 8 * packet.thisBytes + 7) / 8
  low : Field bytes 0 32 (packet.eventId.setWidth 32)
  high : Field bytes 32 32 ((packet.eventId >>> 32).setWidth 32)
  idx : Field bytes 64 17 (BitVec.ofNat 32 packet.packetIdx)
  total : Field bytes 81 17 (BitVec.ofNat 32 packet.totalPackets)
  size : Field bytes 98 10 (BitVec.ofNat 32 packet.thisBytes)
  chunk : Chunk bytes 108 (packet.payload.take packet.thisBytes)

/-- Unparsing never fails and lays the packet out as `Layout` says. -/
theorem datagram_layout (packet : EventPacket) (hsize : packet.thisBytes ≤ kFragmentSize)
    (hpayload : packet.thisBytes ≤ packet.payload.length) :
    ∃ bytes, packet.datagram = some bytes ∧ packet.Layout bytes := by
  have hlen : (List.replicate 1536 (0 : Byte)).length = 1536 := List.length_replicate
  have hzero : (MessageBuffer.ofSize 1536).At (List.replicate 1536 0) 0 :=
    MessageBuffer.ofBytes_at (by omega)
  change packet.thisBytes ≤ 1023 at hsize
  obtain ⟨b₁, d₁, hw₁, h₁, s₁⟩ := hzero.write (packet.eventId.setWidth 32)
    (MessageBuffer.hackLength_false 32) (by omega) (by omega) (by omega)
  have l₁ := s₁.length_eq
  obtain ⟨b₂, d₂, hw₂, h₂, s₂⟩ := h₁.write ((packet.eventId >>> 32).setWidth 32)
    (MessageBuffer.hackLength_false 32) (by omega) (by omega) (by omega)
  have l₂ := s₂.length_eq
  obtain ⟨b₃, d₃, hw₃, h₃, s₃⟩ := h₂.write (BitVec.ofNat 32 packet.packetIdx)
    (MessageBuffer.hackLength_false 17) (by omega) (by omega) (by omega)
  have l₃ := s₃.length_eq
  obtain ⟨b₄, d₄, hw₄, h₄, s₄⟩ := h₃.write (BitVec.ofNat 32 packet.totalPackets)
    (MessageBuffer.hackLength_false 17) (by omega) (by omega) (by omega)
  have l₄ := s₄.length_eq
  obtain ⟨b₅, d₅, hw₅, h₅, s₅⟩ := h₄.write (BitVec.ofNat 32 packet.thisBytes)
    (MessageBuffer.hackLength_false 10) (by omega) (by omega) (by omega)
  have l₅ := s₅.length_eq
  obtain ⟨b₆, d₆, hw₆, h₆, s₆⟩ := h₅.writeBits packet.payload (n := packet.thisBytes * 8)
    (by omega) (by omega)
  have l₆ := s₆.length_eq
  have hunparse : ∃ b, packet.unparse (.ofSize 1536) = some b ∧ b.At d₆ (108 + packet.thisBytes * 8) := by
    simp only [unparse, kPacketSizeBits, kFragmentSizeBits, hw₁, hw₂, hw₃, hw₄, hw₅, Option.bind_eq_bind,
      Option.bind_some]
    by_cases hzero : packet.thisBytes = 0
    · simp only [hzero, Nat.zero_mul] at s₆ ⊢
      have hsame : d₆ = d₅ := ext_bitAt l₆ fun i _ => s₆.outside (by omega)
      exact ⟨b₅, rfl, hsame ▸ h₅⟩
    · rw [if_pos (by omega), hw₆]
      exact ⟨b₆, rfl, h₆⟩
  obtain ⟨b, hb, hat⟩ := hunparse
  have htake : b.data.take b.getDataLength = d₆.take ((108 + packet.thisBytes * 8 + 7) / 8) := by
    rw [hat.data_eq, hat.getDataLength]
  have hbytes : packet.datagram = some (d₆.take ((108 + packet.thisBytes * 8 + 7) / 8)) := by
    rw [datagram, hb, ← htake]
    rfl
  refine ⟨_, hbytes, ?_, ?_, ?_, ?_, ?_, ?_, ?_⟩
  · rw [List.length_take]
    omega
  · exact (((((Field.of_splice s₁).splice s₂ (by omega)).splice s₃ (by omega)).splice s₄ (by omega)).splice s₅
      (by omega)).splice s₆ (by omega) |>.take (by omega)
  · exact ((((Field.of_splice s₂).splice s₃ (by omega)).splice s₄ (by omega)).splice s₅ (by omega)).splice s₆
      (by omega) |>.take (by omega)
  · exact (((Field.of_splice s₃).splice s₄ (by omega)).splice s₅ (by omega)).splice s₆ (by omega) |>.take (by omega)
  · exact ((Field.of_splice s₄).splice s₅ (by omega)).splice s₆ (by omega) |>.take (by omega)
  · exact (Field.of_splice s₅).splice s₆ (by omega) |>.take (by omega)
  · intro i hi
    rw [List.length_take] at hi
    rw [bitAt_take (by omega), show (108 + i) = 0 + 32 + 32 + 17 + 17 + 10 + i by omega, s₆.inside (by omega),
      bitAt_take (by omega)]

private theorem ofNat_toNat_mod (v : BitVec 32) : BitVec.ofNat 32 (v.toNat % 2 ^ 32) = v := by
  rw [Nat.mod_eq_of_lt v.isLt, BitVec.ofNat_toNat, BitVec.setWidth_eq]

private theorem eventId_halves (id : EventId) :
    ((id >>> 32).setWidth 32).setWidth 64 <<< 32 ||| (id.setWidth 32).setWidth 64 = id := by
  apply BitVec.eq_of_getLsbD_eq
  intro i hi
  rcases Nat.lt_or_ge i 32 with hlow | hhigh
  · simp [hlow, hi]
  · simp [hi, show ¬ i < 32 by omega, show i - 32 < 32 by omega, show 32 + (i - 32) = i by omega]

private theorem field_toNat {n : Nat} (hn : n ≤ 32) (k : Nat) :
    (BitVec.ofNat 32 ((BitVec.ofNat 32 k).toNat % 2 ^ n)).toNat = k % 2 ^ n := by
  have hpow : 2 ^ n ∣ 2 ^ 32 := Nat.pow_dvd_pow 2 hn
  have hlt : k % 2 ^ n < 2 ^ 32 := Nat.lt_of_lt_of_le (Nat.mod_lt _ (by positivity)) (Nat.le_of_dvd (by omega) hpow)
  rw [BitVec.toNat_ofNat, BitVec.toNat_ofNat, Nat.mod_mod_of_dvd _ hpow, Nat.mod_eq_of_lt hlt]

private theorem parseFields_layout {packet : EventPacket} {bytes stack : List Byte} (h : packet.Layout bytes)
    (hsize : packet.thisBytes ≤ 1023) :
    ∃ b, parseFields stack (.ofBytes bytes) = some (⟨packet.eventId, packet.packetIdx % 2 ^ 17,
      packet.totalPackets % 2 ^ 17, packet.thisBytes, stack⟩, b) ∧ b.At bytes 108 := by
  have hlen := h.length_eq
  have hat : (MessageBuffer.ofBytes bytes).At bytes 0 := MessageBuffer.ofBytes_at (by omega)
  obtain ⟨b₁, hr₁, h₁⟩ := hat.readBitsSingle (MessageBuffer.hackLength_false _) (by omega) (by omega) (by omega) h.low
  obtain ⟨b₂, hr₂, h₂⟩ := h₁.readBitsSingle (MessageBuffer.hackLength_false _) (by omega) (by omega) (by omega) h.high
  obtain ⟨b₃, hr₃, h₃⟩ := h₂.readBitsSingle (MessageBuffer.hackLength_false _) (by omega) (by omega) (by omega) h.idx
  obtain ⟨b₄, hr₄, h₄⟩ := h₃.readBitsSingle (MessageBuffer.hackLength_false _) (by omega) (by omega) (by omega) h.total
  obtain ⟨b₅, hr₅, h₅⟩ := h₄.readBitsSingle (MessageBuffer.hackLength_false _) (by omega) (by omega) (by omega) h.size
  have hthis : packet.thisBytes % 2 ^ 10 = packet.thisBytes := Nat.mod_eq_of_lt (by omega)
  refine ⟨b₅, ?_, h₅⟩
  rw [parseFields, hr₁]
  dsimp only
  rw [hr₂]
  dsimp only
  rw [kPacketSizeBits, hr₃]
  dsimp only
  rw [hr₄]
  dsimp only
  rw [kFragmentSizeBits, hr₅]
  dsimp only
  rw [ofNat_toNat_mod, ofNat_toNat_mod, eventId_halves, field_toNat (by omega), field_toNat (by omega),
    field_toNat (by omega), hthis]

/-- What was laid out is parsed back, with both indices cut to 17 bits. Past the
`thisBytes` received bytes the payload array keeps what it held. -/
theorem parse_datagram {packet : EventPacket} {bytes stack : List Byte} (h : packet.Layout bytes)
    (hsize : packet.thisBytes ≤ kFragmentSize) (hpayload : packet.thisBytes ≤ packet.payload.length)
    (hstack : stack.length = kFragmentSize) :
    ∃ payload, parse stack (.ofBytes bytes) =
        some (some ⟨packet.eventId, packet.packetIdx % 2 ^ 17, packet.totalPackets % 2 ^ 17,
          packet.thisBytes, payload⟩) ∧
      payload.length = kFragmentSize ∧ payload.take packet.thisBytes = packet.payload.take packet.thisBytes := by
  have hlen := h.length_eq
  change packet.thisBytes ≤ 1023 at hsize
  change stack.length = 1023 at hstack
  obtain ⟨b₅, hfields, h₅⟩ := parseFields_layout h hsize
  by_cases hzero : packet.thisBytes = 0
  · refine ⟨stack, ?_, hstack, by simp [hzero]⟩
    rw [parse, hfields]
    dsimp only
    rw [if_neg (by omega)]
  · obtain ⟨b₆, payload, hread, -, hsplice⟩ := h₅.readBits stack
      (MessageBuffer.hackLength_false (packet.thisBytes * 8)) (by omega) (by omega)
    have hplen := hsplice.length_eq
    refine ⟨payload, ?_, hplen.trans hstack, ?_⟩
    · have hmin : min packet.thisBytes kFragmentSize = packet.thisBytes := Nat.min_eq_left hsize
      rw [parse, hfields]
      dsimp only
      rw [if_pos (by omega), hmin, hread]
      rfl
    · apply ext_bitAt
      · simp only [List.length_take]
        omega
      · intro i hi
        rw [List.length_take] at hi
        have hin := hsplice.inside (i := i) (by omega)
        have hchunk := h.chunk i (by rw [List.length_take]; omega)
        rw [Nat.zero_add] at hin
        rw [bitAt_take (by omega), hin, ← hchunk]

private theorem parseFields_stack (stack : List Byte) (buffer : MessageBuffer) :
    parseFields stack buffer =
      (parseFields [] buffer).map fun fields => ({ fields.1 with payload := stack }, fields.2) := by
  unfold parseFields
  rcases buffer.readBitsSingle false 32 with ⟨_ | low, b₁⟩
  · rfl
  dsimp only
  rcases b₁.readBitsSingle false 32 with ⟨_ | high, b₂⟩
  · rfl
  dsimp only
  rcases b₂.readBitsSingle false kPacketSizeBits with ⟨_ | idx, b₃⟩
  · rfl
  dsimp only
  rcases b₃.readBitsSingle false kPacketSizeBits with ⟨_ | total, b₄⟩
  · rfl
  dsimp only
  rcases b₄.readBitsSingle false kFragmentSizeBits with ⟨_ | this, b₅⟩
  · rfl
  rfl

private theorem parseFields_bounds {stack bytes : List Byte} {packet : EventPacket} {b : MessageBuffer}
    (h : parseFields stack (.ofBytes bytes) = some (packet, b)) :
    packet.packetIdx < 2 ^ 17 ∧ packet.totalPackets < 2 ^ 17 ∧ packet.thisBytes < 2 ^ 10 ∧ b.Cursor 108 ∧
      b.data = bytes := by
  rw [parseFields] at h
  rcases hr₁ : (MessageBuffer.ofBytes bytes).readBitsSingle false 32 with ⟨_ | low, b₁⟩ <;> rw [hr₁] at h <;>
    dsimp only at h
  · cases h
  obtain ⟨-, h₁, hd₁, -⟩ := (MessageBuffer.ofBytes_cursor bytes).readBitsSingle (by simp) (by omega) (by omega)
    (by omega) hr₁
  rcases hr₂ : b₁.readBitsSingle false 32 with ⟨_ | high, b₂⟩ <;> rw [hr₂] at h <;> dsimp only at h
  · cases h
  obtain ⟨-, h₂, hd₂, -⟩ := h₁.readBitsSingle (by simp) (by omega) (by omega) (by omega) hr₂
  rcases hr₃ : b₂.readBitsSingle false kPacketSizeBits with ⟨_ | idx, b₃⟩ <;> rw [hr₃] at h <;> dsimp only at h
  · cases h
  change b₂.readBitsSingle false 17 = _ at hr₃
  obtain ⟨hidx, h₃, hd₃, -⟩ := h₂.readBitsSingle (by simp) (by omega) (by omega) (by omega) hr₃
  rcases hr₄ : b₃.readBitsSingle false kPacketSizeBits with ⟨_ | total, b₄⟩ <;> rw [hr₄] at h <;> dsimp only at h
  · cases h
  change b₃.readBitsSingle false 17 = _ at hr₄
  obtain ⟨htotal, h₄, hd₄, -⟩ := h₃.readBitsSingle (by simp) (by omega) (by omega) (by omega) hr₄
  rcases hr₅ : b₄.readBitsSingle false kFragmentSizeBits with ⟨_ | this, b₅⟩ <;> rw [hr₅] at h <;> dsimp only at h
  · cases h
  change b₄.readBitsSingle false 10 = _ at hr₅
  obtain ⟨hthis, h₅, hd₅, -⟩ := h₄.readBitsSingle (by simp) (by omega) (by omega) (by omega) hr₅
  obtain ⟨hpacket, hb⟩ := Prod.mk.inj (Option.some.inj h)
  subst hpacket hb
  exact ⟨hidx, htotal, hthis, h₅, by rw [hd₅, hd₄, hd₃, hd₂, hd₁]; rfl⟩

/-- `Parse` of any byte string: it fails on the fields alone, or it keeps the
fields and fills the payload array, from the bytes if they are all there. -/
theorem parse_spec {stack : List Byte} (bytes : List Byte) (hstack : stack.length = kFragmentSize) :
    (parseFields [] (.ofBytes bytes) = none ∧ parse stack (.ofBytes bytes) = some none) ∨
      ∃ packet b payload, parseFields [] (.ofBytes bytes) = some (packet, b) ∧
        parse stack (.ofBytes bytes) = some (some { packet with payload }) ∧ payload.length = kFragmentSize ∧
        packet.packetIdx < 2 ^ 17 ∧ packet.totalPackets < 2 ^ 17 ∧ packet.thisBytes ≤ kFragmentSize ∧
        (108 + 8 * packet.thisBytes ≤ b.maxBit →
          ∀ i < 8 * packet.thisBytes, bitAt payload i = bitAt bytes (108 + i)) := by
  rw [parse, parseFields_stack stack]
  rcases hfields : parseFields [] (.ofBytes bytes) with _ | ⟨packet, b⟩
  · exact Or.inl ⟨rfl, rfl⟩
  obtain ⟨hidx, htotal, hthis, hcur, hdata⟩ := parseFields_bounds hfields
  have hle : packet.thisBytes ≤ 1023 := by omega
  change stack.length = 1023 at hstack
  refine Or.inr ⟨packet, b, ?_⟩
  rw [Option.map_some]
  dsimp only
  by_cases hzero : packet.thisBytes = 0
  · rw [if_neg (by omega)]
    exact ⟨stack, rfl, rfl, hstack, hidx, htotal, hle, fun _ i hi => by omega⟩
  rw [if_pos (by omega), show min packet.thisBytes kFragmentSize = packet.thisBytes from Nat.min_eq_left hle]
  by_cases hfit : 108 + packet.thisBytes * 8 ≤ b.maxBit
  · obtain ⟨payload, hread, hsplice⟩ := MessageBuffer.readBits_spec stack hcur
      (MessageBuffer.hackLength_false (packet.thisBytes * 8)) (by omega) (by omega) (by omega) (by omega)
    rw [hread]
    refine ⟨payload, rfl, rfl, hsplice.length_eq.trans hstack, hidx, htotal, hle, fun _ i hi => ?_⟩
    have hin := hsplice.inside (i := i) (by omega)
    rw [Nat.zero_add, hdata] at hin
    exact hin
  · rw [MessageBuffer.readBits_short stack hcur.curBit_eq (by simp) (by omega) (by omega) (by omega)]
    exact ⟨stack, rfl, rfl, hstack, hidx, htotal, hle, fun h => by omega⟩

end EventPacket

end fx
