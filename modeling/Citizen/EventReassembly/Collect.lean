import Citizen.EventReassembly.Calls

open Bits rl Std OrderedMap

namespace fx

/-- An entry that has collected slots of `bytes`, all of them for packets in `got`. -/
structure Collecting (bytes : List Byte) (got : Nat → Prop) (event : ReceiveEvent) : Prop where
  bits : event.ackedBits.length = packetCount bytes
  received : ∀ i, event.ackedBits.getD i false = true → got i
  stored : event.completed = false → ∀ i, event.packetData[i]? =
    if event.ackedBits.getD i false = true then some (slot bytes i) else none

namespace Collecting

variable {bytes : List Byte} {got : Nat → Prop} {event : ReceiveEvent} {packet : EventPacket} {now : Int}

theorem start (source : Int) : Collecting bytes got (.start source (packetCount bytes)) := by
  have hzero : ∀ i, (List.replicate (packetCount bytes) false).getD i false = false := by
    intro i
    rw [List.getD_eq_getElem?_getD, List.getElem?_replicate]
    split <;> rfl
  refine ⟨List.length_replicate, fun i hi => ?_, fun _ i => ?_⟩
  · rw [ReceiveEvent.start, hzero] at hi
    cases hi
  · rw [ReceiveEvent.start, hzero]
    simp

theorem mono (h : Collecting bytes got event) {got' : Nat → Prop} (hgot : ∀ i, got i → got' i) :
    Collecting bytes got' event :=
  ⟨h.bits, fun i hi => hgot i (h.received i hi), h.stored⟩

theorem acked (h : Collecting bytes got event) : Collecting bytes got { event with timeLastAck := now } :=
  ⟨h.bits, h.received, h.stored⟩

theorem complete (h : Collecting bytes got event) : Collecting bytes got event.complete :=
  ⟨h.bits, h.received, fun hcompleted => by cases hcompleted⟩

private theorem keep_bit (hidx : packet.packetIdx < event.ackedBits.length) (i : Nat) :
    (event.keep packet now).ackedBits.getD i false =
      if i = packet.packetIdx then true else event.ackedBits.getD i false := by
  rw [ReceiveEvent.keep]
  dsimp only
  rw [if_pos hidx, List.getD_eq_getElem?_getD, List.getD_eq_getElem?_getD, List.getElem?_set]
  by_cases hi : i = packet.packetIdx
  · rw [if_pos hi.symm, if_pos hidx, if_pos hi]
    rfl
  · rw [if_neg (Ne.symm hi), if_neg hi]

theorem keep (h : Collecting bytes got event) (hidx : packet.packetIdx < packetCount bytes)
    (hpayload : packet.payload.take packet.thisBytes = slot bytes packet.packetIdx) (hgot : got packet.packetIdx) :
    Collecting bytes got (event.keep packet now) := by
  have hroom : packet.packetIdx < event.ackedBits.length := h.bits ▸ hidx
  refine ⟨by rw [EventReassemblyComponentImpl.keep_ackedBits_length, h.bits], fun i hi => ?_, fun hcompleted i => ?_⟩
  · rw [keep_bit hroom] at hi
    split at hi
    · rename_i heq
      exact heq ▸ hgot
    · exact h.received i hi
  · rw [keep_bit hroom]
    have hold := h.stored hcompleted i
    rw [ReceiveEvent.keep]
    dsimp only
    rw [TreeMap.getElem?_insert]
    by_cases hi : i = packet.packetIdx
    · rw [if_pos hi, if_pos rfl, if_pos (by simp [hi]), hpayload, hi]
    · rw [if_neg hi, if_neg (by simpa using Ne.symm hi)]
      exact hold

/-- A full entry that is not completed yet yields the event it collected. -/
theorem handleReceivedPacket_eq {eventName eventPayload array : List Byte}
    (h : Collecting (joined eventName eventPayload) got event) (hfull : event.hasAll = true)
    (hopen : event.completed = false) (harray : array.length = kEventNameSize)
    (hname : eventName.length ≤ 65535) (hnul : 0 ∉ eventName)
    (hsize : eventPayload.length + eventName.length + 2 < kMaxPacketSize)
    {parsed : List Byte × List Byte × List Byte} (hparsed : handleReceivedPacket array event = some parsed) :
    parsed.2 = (eventName, eventPayload) := by
  have hall : ∀ i, event.ackedBits.getD i false = true ↔ i < packetCount (joined eventName eventPayload) := by
    intro i
    rw [List.getD_eq_getElem?_getD]
    constructor
    · intro hi
      by_contra hge
      rw [List.getElem?_eq_none (by rw [h.bits]; omega)] at hi
      cases hi
    · intro hi
      have hlt : i < event.ackedBits.length := h.bits ▸ hi
      rw [List.getElem?_eq_getElem hlt]
      exact List.all_eq_true.mp hfull _ (List.getElem_mem hlt)
  have hbytes : reassembledBytes event = some (joined eventName eventPayload) := by
    refine reassembledBytes_slots h.bits fun i => ?_
    rw [h.stored hopen i]
    simp only [hall]
  have hlen := joined_length eventName eventPayload
  rw [kMaxPacketSize_eq] at hsize
  rw [handleReceivedPacket, hbytes, Option.bind_eq_bind, Option.bind_some, joined,
    parseEvent_full _ harray (Nat.lt_succ_of_le hname) (by rw [← joined, hlen]; omega),
    takeWhile_nul_eq_self.mpr hnul] at hparsed
  rw [← Option.some.inj hparsed]

end Collecting

end fx
