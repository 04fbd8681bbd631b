import Citizen.EventReassembly.Component

open Bits rl Std OrderedMap

namespace fx

/-- The two bytes of a 16-bit number, the higher first. -/
def size16 (n : Nat) : List Byte := [BitVec.ofNat 8 (n / 256), BitVec.ofNat 8 n]

@[simp] theorem size16_length (n : Nat) : (size16 n).length = 2 := rfl

theorem bitAt_size16 (n : Nat) {i : Nat} (hi : i < 16) :
    bitAt (size16 n) i = (BitVec.ofNat 32 n).getLsbD (15 - i) := by
  have htest : (BitVec.ofNat 32 n).getLsbD (15 - i) = n.testBit (15 - i) := by
    rw [BitVec.getLsbD_ofNat]
    simp [show 15 - i < 32 by omega]
  rw [htest, bitAt]
  rcases Nat.lt_or_ge i 8 with hfirst | hsecond
  · rw [show i / 8 = 0 by omega, show i % 8 = i by omega]
    change (BitVec.ofNat 8 (n / 256)).getMsbD i = _
    rw [BitVec.getMsbD_eq_getLsbD, BitVec.getLsbD_ofNat, show 256 = 2 ^ 8 by norm_num, Nat.testBit_div_two_pow,
      show 8 - 1 - i + 8 = 15 - i by omega]
    simp [hfirst, show 7 - i < 8 by omega]
  · rw [show i / 8 = 1 by omega]
    change (BitVec.ofNat 8 n).getMsbD (i % 8) = _
    rw [BitVec.getMsbD_eq_getLsbD, BitVec.getLsbD_ofNat, show 8 - 1 - i % 8 = 15 - i by omega]
    simp [show i % 8 < 8 by omega, show 15 - i < 8 by omega]

/-- The low 16 bits of the name length, the name and the payload. -/
def joined (eventName eventPayload : List Byte) : List Byte := size16 eventName.length ++ eventName ++ eventPayload

theorem joined_length (eventName eventPayload : List Byte) :
    (joined eventName eventPayload).length = 2 + eventName.length + eventPayload.length := by
  rw [joined, List.length_append, List.length_append, size16_length]

/-- `TriggerEvent` joins name and payload without leaving the buffer. -/
theorem eventBytes_eq {eventName eventPayload : List Byte}
    (h : eventPayload.length + eventName.length + 2 < kMaxPacketSize) :
    eventBytes eventName eventPayload = some (joined eventName eventPayload) := by
  rw [kMaxPacketSize_eq] at h
  have hlen : (List.replicate (eventName.length + 2 + eventPayload.length) (0 : Byte)).length =
      eventName.length + 2 + eventPayload.length := List.length_replicate
  have hzero : (MessageBuffer.ofSize (eventName.length + 2 + eventPayload.length)).At
      (List.replicate (eventName.length + 2 + eventPayload.length) 0) 0 := MessageBuffer.ofBytes_at (by omega)
  obtain ⟨b₁, d₁, hw₁, h₁, s₁⟩ := hzero.write (BitVec.ofNat 32 eventName.length)
    (MessageBuffer.hackLength_false 16) (by omega) (by omega) (by omega)
  have l₁ := s₁.length_eq
  obtain ⟨b₂, d₂, hw₂, h₂, s₂⟩ := h₁.writeBits eventName (n := eventName.length * 8)
    (by omega) (by omega)
  have l₂ := s₂.length_eq
  have e₁ : d₁ = size16 eventName.length ++ List.replicate (eventName.length + eventPayload.length) 0 := by
    have hbytes := Splice.eq_bytes (size16 eventName.length) (k := 0)
      (s₁.congr fun i hi => by rw [bitAt_size16 _ hi]) (by rw [hlen, size16_length]; omega)
    rw [hbytes]
    simp only [List.take_zero, List.nil_append, size16_length, List.drop_replicate]
    rw [show eventName.length + 2 + eventPayload.length - (0 + 2) = eventName.length + eventPayload.length by omega]
  have e₂ : d₂ = size16 eventName.length ++ eventName ++ List.replicate eventPayload.length 0 := by
    have hbytes := Splice.eq_bytes eventName (k := 2) (by simpa only [Nat.mul_comm] using s₂) (by omega)
    rw [hbytes, e₁, List.take_left' (size16_length _), List.drop_append, List.drop_eq_nil_of_le (by simp),
      List.nil_append, List.drop_replicate, size16_length,
      show eventName.length + eventPayload.length - (2 + eventName.length - 2) = eventPayload.length by omega]
  have hpos : b₂.getCurrentBit / 8 = (size16 eventName.length ++ eventName).length := by
    rw [h₂.getCurrentBit, List.length_append, size16_length]
    omega
  simp only [eventBytes, hw₁, hw₂, Option.bind_eq_bind, Option.bind_some, h₂.data_eq, hpos]
  have hroom : d₂.length = (size16 eventName.length ++ eventName).length + eventPayload.length := by
    rw [e₂, List.length_append, List.length_replicate]
  rw [memcpy, if_pos ⟨hroom.ge, by omega⟩, ← hroom, List.drop_length, e₂, List.take_left, List.drop_zero,
    List.take_length, List.append_nil, joined]

theorem packetCount_eq (bytes : List Byte) : packetCount bytes = (bytes.length + 1022) / 1023 := by
  rw [packetCount, kFragmentSize]
  split <;> omega

theorem firstUnacked_some {ackBits : List Bool} {start stop bit : Nat}
    (h : firstUnacked ackBits start stop = some bit) :
    start ≤ bit ∧ bit < stop ∧ ackBits.getD bit false = false := by
  have hmem := List.mem_of_find?_eq_some h
  have hbit := List.find?_some h
  rw [List.mem_range'_1] at hmem
  exact ⟨hmem.1, by omega, by simpa using hbit⟩

theorem firstUnacked_none {ackBits : List Bool} {start stop : Nat}
    (h : firstUnacked ackBits start stop = none) {bit : Nat} (hstart : start ≤ bit) (hstop : bit < stop) :
    ackBits.getD bit false = true := by
  have hbit := List.find?_eq_none.mp h bit (by rw [List.mem_range'_1]; omega)
  simpa using hbit

section NetworkTick

variable {eventId : EventId} {sendPayload : List Byte} {latency timeNow : Int}

/-- What a burst for `targetData` can do: it sends fragments only, keeps the
acknowledgements, and drops the target data only when all of them are there. -/
structure Burst (eventId : EventId) (sendPayload : List Byte) (targetData : PerTargetData)
    (result : Option PerTargetData × List EventPacket) : Prop where
  sends : ∀ packet ∈ result.2, ∃ packetIdx < targetData.ackBits.length,
    packet = fragment eventId sendPayload targetData.ackBits.length packetIdx
  keeps : ∀ d, result.1 = some d → d.ackBits = targetData.ackBits
  drops : result.1 = none → ∀ i < targetData.ackBits.length, targetData.ackBits.getD i false = true

theorem burst_spec (eventId : EventId) (sendPayload : List Byte) (latency timeNow : Int) (startBit fuel : Nat)
    (targetData : PerTargetData) (resTime : Int) :
    Burst eventId sendPayload targetData
      (burst eventId sendPayload latency timeNow startBit fuel targetData resTime) := by
  induction fuel generalizing targetData resTime with
  | zero => exact ⟨by simp [burst], by simp [burst], by simp [burst]⟩
  | succ fuel ih =>
    rw [burst]
    dsimp only
    cases hnext : firstUnacked targetData.ackBits targetData.lastBit targetData.ackBits.length with
    | none =>
      cases hfirst : firstUnacked targetData.ackBits 0 targetData.lastBit with
      | none =>
        refine ⟨by simp, by simp, fun _ i hi => ?_⟩
        rcases Nat.lt_or_ge i targetData.lastBit with hlow | hhigh
        · exact firstUnacked_none hfirst (Nat.zero_le i) hlow
        · exact firstUnacked_none hnext hhigh hi
      | some bit => exact ⟨by simp, by simp, by simp⟩
    | some packetIdx =>
      obtain ⟨-, hidx, -⟩ := firstUnacked_some hnext
      have hsingle : ∀ d : PerTargetData, d.ackBits = targetData.ackBits → Burst eventId sendPayload targetData
          (some d, [fragment eventId sendPayload targetData.ackBits.length packetIdx]) :=
        fun d hd => ⟨by simpa using ⟨packetIdx, hidx, rfl⟩, by simpa using hd, by simp⟩
      dsimp only
      generalize (if latency < resTime then resTime - latency else resTime) = left
      split
      · exact hsingle _ rfl
      split
      · obtain ⟨hsends, hkeep, hall⟩ :=
          ih { targetData with lastBit := (packetIdx + 1) % targetData.ackBits.length } left
        refine ⟨?_, hkeep, hall⟩
        intro packet hpacket
        rcases List.mem_cons.mp hpacket with rfl | hpacket
        · exact ⟨packetIdx, hidx, rfl⟩
        · exact hsends packet hpacket
      · exact hsingle _ rfl

/-- The cursor of the burst loop moves forward until it wraps, which ends the loop:
fuel beyond the number of bits still ahead changes nothing. -/
theorem burst_fuel {startBit fuel : Nat} {targetData : PerTargetData} {resTime : Int}
    (hstart : startBit ≤ targetData.lastBit) (hfuel : targetData.ackBits.length < targetData.lastBit + fuel)
    (hlast : targetData.lastBit < targetData.ackBits.length) :
    burst eventId sendPayload latency timeNow startBit (fuel + 1) targetData resTime =
      burst eventId sendPayload latency timeNow startBit fuel targetData resTime := by
  induction fuel generalizing targetData resTime with
  | zero => omega
  | succ fuel ih =>
    rw [burst, burst]
    dsimp only
    cases hnext : firstUnacked targetData.ackBits targetData.lastBit targetData.ackBits.length with
    | none => rfl
    | some packetIdx =>
      obtain ⟨hlow, hidx, -⟩ := firstUnacked_some hnext
      dsimp only
      generalize (if latency < resTime then resTime - latency else resTime) = left
      split
      · rfl
      rename_i hgo
      have hnowrap : (packetIdx + 1) % targetData.ackBits.length = packetIdx + 1 := by
        rcases Nat.lt_or_ge (packetIdx + 1) targetData.ackBits.length with hlt | hge
        · exact Nat.mod_eq_of_lt hlt
        · rw [show packetIdx + 1 = targetData.ackBits.length by omega, Nat.mod_self] at hgo
          omega
      have hroom : packetIdx + 1 < targetData.ackBits.length := by
        have := Nat.mod_lt (packetIdx + 1) (show targetData.ackBits.length > 0 by omega)
        omega
      split
      · rw [ih]
        · simp only [hnowrap]
          omega
        · simp only [hnowrap]
          omega
        · simp only [hnowrap]
          exact hroom
      · rfl

end NetworkTick

end fx
