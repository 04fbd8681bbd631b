import Citizen.EventReassembly.Receive

open Bits rl Std

namespace fx

/-- Whatever the receiver's stack holds, the packet comes out of `Parse` as it went
into `Unparse`. -/
def EventPacket.Exact (packet : EventPacket) : Prop :=
  ∃ data, packet.datagram = some data ∧ ∀ stack : List Byte, stack.length = kFragmentSize →
    ∃ received, EventPacket.parse stack (.ofBytes data) = some (some received) ∧
      received.eventId = packet.eventId ∧ received.packetIdx = packet.packetIdx ∧
      received.totalPackets = packet.totalPackets ∧ received.thisBytes = packet.thisBytes ∧
      received.payload.take received.thisBytes = packet.payload.take packet.thisBytes

/-- The event survives the wire: its fragments are parsed back, the stored name length
is the real one, and splitting its bytes yields its name and payload. -/
structure WireExact (eventName eventPayload bytes : List Byte) : Prop where
  fragments : ∀ eventId packetIdx, packetIdx < packetCount bytes →
    (fragment eventId bytes (packetCount bytes) packetIdx).Exact
  nameLength : ((MessageBuffer.ofBytes bytes).read false 16).1.toNat = eventName.length
  split : ∀ array : List Byte, array.length = kEventNameSize →
    ∃ array', parseEvent array bytes = some (array', eventName, eventPayload)

theorem fragment_thisBytes (eventId : EventId) (bytes : List Byte) (totalPackets packetIdx : Nat) :
    (fragment eventId bytes totalPackets packetIdx).thisBytes ≤ kFragmentSize ∧
      (fragment eventId bytes totalPackets packetIdx).thisBytes =
        (fragment eventId bytes totalPackets packetIdx).payload.length := by
  simp only [fragment, List.length_take, List.length_drop]
  omega

/-- Every fragment of an event carries bytes, so none is taken for an acknowledgement. -/
theorem fragment_thisBytes_ne_zero {eventId : EventId} {bytes : List Byte} {totalPackets i : Nat}
    (h : i < packetCount bytes) : (fragment eventId bytes totalPackets i).thisBytes ≠ 0 := by
  rw [packetCount_eq] at h
  rw [fragment]
  dsimp only
  rw [kFragmentSize]
  omega

/-- A fragment is parsed back with its indices cut to 17 bits. -/
theorem fragment_parse (eventId : EventId) (bytes : List Byte) (totalPackets packetIdx : Nat) :
    ∃ data, (fragment eventId bytes totalPackets packetIdx).datagram = some data ∧
      ∀ stack : List Byte, stack.length = kFragmentSize → ∃ payload,
        EventPacket.parse stack (.ofBytes data) = some (some ⟨eventId, packetIdx % 2 ^ 17, totalPackets % 2 ^ 17,
          (slot bytes packetIdx).length, payload⟩) ∧ payload.length = kFragmentSize ∧
        payload.take (slot bytes packetIdx).length = slot bytes packetIdx := by
  obtain ⟨hsize, hlen⟩ := fragment_thisBytes eventId bytes totalPackets packetIdx
  obtain ⟨data, hdata, hlayout⟩ := EventPacket.datagram_layout _ hsize hlen.le
  refine ⟨data, hdata, fun stack hstack => ?_⟩
  obtain ⟨payload, hparse, hpayload, htake⟩ := EventPacket.parse_datagram hlayout hsize hlen.le hstack
  rw [hlen, List.take_length, fragment_payload] at htake
  rw [hlen, fragment_payload] at hparse
  exact ⟨payload, hparse, hpayload, htake⟩

theorem fragment_exact_iff (eventId : EventId) (bytes : List Byte) (totalPackets packetIdx : Nat) :
    (fragment eventId bytes totalPackets packetIdx).Exact ↔ packetIdx < 2 ^ 17 ∧ totalPackets < 2 ^ 17 := by
  obtain ⟨data, hdata, hparse⟩ := fragment_parse eventId bytes totalPackets packetIdx
  obtain ⟨-, hlen⟩ := fragment_thisBytes eventId bytes totalPackets packetIdx
  constructor
  · rintro ⟨data', hdata', hexact⟩
    obtain rfl : data = data' := Option.some.inj (hdata.symm.trans hdata')
    obtain ⟨payload, hreceived, -, -⟩ := hparse (List.replicate kFragmentSize 0) List.length_replicate
    obtain ⟨received, hreceived', -, hidx, htotal, -, -⟩ :=
      hexact (List.replicate kFragmentSize 0) List.length_replicate
    obtain rfl := Option.some.inj (Option.some.inj (hreceived.symm.trans hreceived'))
    change packetIdx % 2 ^ 17 = packetIdx at hidx
    change totalPackets % 2 ^ 17 = totalPackets at htotal
    omega
  · rintro ⟨hidx, htotal⟩
    refine ⟨data, hdata, fun stack hstack => ?_⟩
    obtain ⟨payload, hreceived, -, htake⟩ := hparse stack hstack
    refine ⟨_, hreceived, rfl, Nat.mod_eq_of_lt hidx, Nat.mod_eq_of_lt htotal, ?_, ?_⟩
    · rw [hlen, fragment_payload]
    · rw [hlen, List.take_length, fragment_payload]
      exact htake

theorem size16_mod (n : Nat) : size16 n = size16 (n % 65536) := by
  have hhigh : BitVec.ofNat 8 (n / 256) = BitVec.ofNat 8 (n % 65536 / 256) := by
    apply BitVec.eq_of_toNat_eq
    rw [BitVec.toNat_ofNat, BitVec.toNat_ofNat]
    omega
  have hlow : BitVec.ofNat 8 n = BitVec.ofNat 8 (n % 65536) := by
    apply BitVec.eq_of_toNat_eq
    rw [BitVec.toNat_ofNat, BitVec.toNat_ofNat]
    omega
  rw [size16, size16, hhigh, hlow]

section Accepted

variable {eventName eventPayload : List Byte}

theorem joined_nameLength (h : eventPayload.length + eventName.length + 2 < kMaxPacketSize) :
    ((MessageBuffer.ofBytes (joined eventName eventPayload)).read false 16).1.toNat = eventName.length % 65536 := by
  have hmax := kMaxPacketSize_eq
  have hlen := joined_length eventName eventPayload
  obtain ⟨buffer, hread, -⟩ := read_size16 (joined eventName eventPayload)
    (n := eventName.length % 65536) (Nat.mod_lt _ (by decide))
    (by rw [joined, size16_mod, List.append_assoc]) (by omega)
  rw [hread]
  exact (BitVec.toNat_ofNat ..).trans (Nat.mod_eq_of_lt (by omega))

theorem joined_packetCount :
    0 < packetCount (joined eventName eventPayload) ∧ (packetCount (joined eventName eventPayload) < 2 ^ 17 ↔
      eventName.length + eventPayload.length + 2 ≤ (2 ^ 17 - 1) * kFragmentSize) := by
  rw [packetCount_eq, joined_length, kFragmentSize]
  omega

theorem WireExact.name_length (h : eventPayload.length + eventName.length + 2 < kMaxPacketSize)
    (hexact : WireExact eventName eventPayload (joined eventName eventPayload)) : eventName.length ≤ 65535 := by
  have hname := hexact.nameLength
  rw [joined_nameLength h] at hname
  omega

theorem WireExact.packetCount_lt (hexact : WireExact eventName eventPayload (joined eventName eventPayload)) :
    packetCount (joined eventName eventPayload) < 2 ^ 17 :=
  ((fragment_exact_iff ..).mp (hexact.fragments 0 0 joined_packetCount.1)).2

theorem WireExact.name_nul (h : eventPayload.length + eventName.length + 2 < kMaxPacketSize)
    (hexact : WireExact eventName eventPayload (joined eventName eventPayload)) : 0 ∉ eventName := by
  have hmax := kMaxPacketSize_eq
  have hlen := joined_length eventName eventPayload
  have hname := hexact.name_length h
  have harray : (List.replicate kEventNameSize (0 : Byte)).length = kEventNameSize := List.length_replicate
  have hparse := parseEvent_full _ harray (Nat.lt_succ_of_le hname)
    (by rw [← joined, hlen]; omega)
  obtain ⟨array', hparse'⟩ := hexact.split _ harray
  have hsame := Option.some.inj (hparse.symm.trans hparse')
  exact takeWhile_nul_eq_self.mp (congrArg (·.2.1) hsame)

/-- An event that `TriggerEvent` accepts survives the wire exactly when its name has at
most 65535 bytes and no NUL, and name and payload leave one packet of the index range
unused. -/
theorem triggerEvent_wireExact_iff (h : eventPayload.length + eventName.length + 2 < kMaxPacketSize) :
    (∃ bytes, eventBytes eventName eventPayload = some bytes ∧ WireExact eventName eventPayload bytes) ↔
      eventName.length ≤ 65535 ∧ 0 ∉ eventName ∧
        eventName.length + eventPayload.length + 2 ≤ (2 ^ 17 - 1) * kFragmentSize := by
  have hmax := kMaxPacketSize_eq
  have hlen := joined_length eventName eventPayload
  have hbytes : eventBytes eventName eventPayload = some (joined eventName eventPayload) := eventBytes_eq h
  constructor
  · rintro ⟨bytes, hbytes', hexact⟩
    obtain rfl := Option.some.inj (hbytes.symm.trans hbytes')
    exact ⟨hexact.name_length h, hexact.name_nul h, joined_packetCount.2.mp hexact.packetCount_lt⟩
  · rintro ⟨hname, hnul, hsize⟩
    have hcount := joined_packetCount.2.mpr hsize
    refine ⟨_, hbytes, fun eventId packetIdx hidx => ?_, ?_, fun array harray => ?_⟩
    · exact (fragment_exact_iff ..).mpr ⟨by omega, hcount⟩
    · rw [joined_nameLength h, Nat.mod_eq_of_lt (by omega)]
    · have hparse := parseEvent_full _ harray (Nat.lt_succ_of_le hname)
        (by rw [← joined, hlen]; omega)
      rw [takeWhile_nul_eq_self.mpr hnul] at hparse
      exact ⟨_, hparse⟩

end Accepted

theorem wireExact_hi :
    ∃ bytes, eventBytes [104, 105] [1, 2, 3] = some bytes ∧ WireExact [104, 105] [1, 2, 3] bytes :=
  (triggerEvent_wireExact_iff (by simp [kMaxPacketSize_eq])).mpr ⟨by decide, by decide, by decide⟩

/-- A name of 65536 bytes is accepted and announced as empty. -/
theorem longName_not_wireExact :
    ([] : List Byte).length + (List.replicate 65536 (65 : Byte)).length + 2 < kMaxPacketSize ∧
      ¬ ∃ bytes, eventBytes (List.replicate 65536 65) [] = some bytes ∧
        WireExact (List.replicate 65536 65) [] bytes := by
  have haccept : ([] : List Byte).length + (List.replicate 65536 (65 : Byte)).length + 2 < kMaxPacketSize := by
    rw [List.length_replicate, kMaxPacketSize_eq]
    decide
  refine ⟨haccept, ?_⟩
  rintro ⟨bytes, hbytes, hexact⟩
  rw [eventBytes_eq haccept] at hbytes
  obtain rfl := Option.some.inj hbytes
  have hname := hexact.name_length haccept
  rw [List.length_replicate] at hname
  omega

end fx
