import Citizen.EventReassembly.Calls
import Citizen.Lib.Transition

open Bits rl Std OrderedMap Transition

namespace fx

namespace ReceiveEvent

variable {event : ReceiveEvent} {packet : EventPacket} {now : Int}

theorem start_slotted (source : Int) (totalPackets : Nat) : (start source totalPackets).Slotted := by
  intro i bytes h
  simp [start] at h

theorem Slotted.keep (h : event.Slotted) (hidx : packet.packetIdx < event.ackedBits.length)
    (hsize : packet.thisBytes ≤ kFragmentSize) : (event.keep packet now).Slotted := by
  intro i bytes hget
  rw [EventReassemblyComponentImpl.keep_ackedBits_length]
  rw [ReceiveEvent.keep] at hget
  dsimp only at hget
  rw [TreeMap.getElem?_insert] at hget
  split at hget
  · rename_i heq
    obtain rfl := LawfulEqCmp.eq_of_compare heq
    cases hget
    refine ⟨hidx, ?_⟩
    rw [List.length_take]
    omega
  · exact h i bytes hget

theorem Slotted.complete (h : event.Slotted) : event.complete.Slotted := by
  intro i bytes hget
  rw [ReceiveEvent.complete] at hget ⊢
  dsimp only at hget ⊢
  rw [TreeMap.getElem?_map] at hget
  obtain ⟨old, hold, rfl⟩ := Option.map_eq_some_iff.mp hget
  exact ⟨(h i old hold).1, Nat.zero_le _⟩

end ReceiveEvent

/-- Slotted fragments are split into an event without leaving a buffer. -/
theorem handleReceivedPacket_isSome {eventName : List Byte} {event : ReceiveEvent}
    (harray : eventName.length = kEventNameSize) (hslotted : event.Slotted)
    (hwidth : event.ackedBits.length < 2 ^ 17) :
    ∃ parsed, handleReceivedPacket eventName event = some parsed := by
  obtain ⟨data, hdata, hlen⟩ := reassembledBytes_isSome hslotted
  rw [kFragmentSize] at hlen
  obtain ⟨array, name, payload, hparse, -⟩ := parseEvent_isSome data harray (by omega)
  exact ⟨_, by rw [handleReceivedPacket, hdata]; exact hparse⟩

namespace EventReassemblyComponentImpl

variable {c : EventReassemblyComponentImpl} {latency : Int → Int}

/-- A fragment that is stored has a bit in the bitmap of its entry. -/
def Fits (c : EventReassemblyComponentImpl) : Call → Prop
  | .handlePacket d => ∀ packet, d.packet = some packet → packet.thisBytes ≠ 0 →
      (c.receiveEvent d.source packet).skips packet = false →
      packet.packetIdx < (c.receiveEvent d.source packet).ackedBits.length
  | _ => True

/-- Every fragment that `HandleReceivedPacket` copies for this packet lands inside
the reassembled vector. -/
def CopiesInside (c : EventReassemblyComponentImpl) (d : Delivery) : Prop :=
  ∀ packet event, d.packet = some packet → packet.thisBytes ≠ 0 → c.fullEvent d.source packet d.now = some event →
    ∀ (packetIdx : Nat) bytes, event.packetData[packetIdx]? = some bytes →
      packetIdx * kFragmentSize + bytes.length ≤ event.ackedBits.length * kFragmentSize

/-- A sized component whose entries hold fragments of their own slots only. -/
structure Sound (c : EventReassemblyComponentImpl) : Prop where
  sized : c.Sized
  slotted : ∀ (key : Int × EventId) (event : ReceiveEvent), c.receiveList[key]? = some event → event.Slotted

theorem create_sound (start : Int) : (create start).Sound :=
  ⟨create_sized start, fun key event h => by simp [create] at h⟩

theorem Sound.receiveEvent (h : c.Sound) (source : Int) (packet : EventPacket) :
    (c.receiveEvent source packet).Slotted := by
  rw [EventReassemblyComponentImpl.receiveEvent]
  cases hget : c.receiveList[(source, packet.eventId)]? with
  | none => exact ReceiveEvent.start_slotted _ _
  | some event => exact h.slotted _ _ hget

private theorem slotted_put (h : c.Sound) {source : Int} {eventId : EventId} (event : ReceiveEvent)
    (hevent : event.Slotted) {key : Int × EventId} {e : ReceiveEvent}
    (he : (c.putReceiveEvent source eventId event).receiveList[key]? = some e) :
    e.Slotted := by
  rw [putReceiveEvent_receiveList] at he
  split at he
  · cases he
    exact hevent
  · exact h.slotted key e he

/-- A fragment that fits is handled without leaving a buffer. -/
theorem Sound.handleFragment (h : c.Sound) {source : Int} {packet : EventPacket} {now : Int} {limit : Bool}
    (htotal : packet.totalPackets < 2 ^ 17) (hsize : packet.thisBytes ≤ kFragmentSize)
    (hfits : (c.receiveEvent source packet).skips packet = false →
      packet.packetIdx < (c.receiveEvent source packet).ackedBits.length) :
    ∃ o, c.handleFragment source packet now limit = some o ∧ o.component.Sound := by
  obtain ⟨hsource, hwidth⟩ := h.sized.receiveEvent htotal
  have hslotted := h.receiveEvent source packet
  suffices hdefined : ∃ o, c.handleFragment source packet now limit = some o ∧
      ∀ (key : Int × EventId) (e : ReceiveEvent), o.component.receiveList[key]? = some e → e.Slotted by
    obtain ⟨o, ho, hentries⟩ := hdefined
    exact ⟨o, ho, h.sized.handleFragment htotal ho, hentries⟩
  cases hskip : (c.receiveEvent source packet).skips packet with
  | true =>
    exact ⟨_, handleFragment_skip hsource hskip, fun _ _ he =>
      slotted_put h { c.receiveEvent source packet with timeLastAck := now } hslotted he⟩
  | false =>
    have hkeep : ((c.receiveEvent source packet).keep packet now).Slotted := hslotted.keep (hfits hskip) hsize
    cases hfull : ((c.receiveEvent source packet).keep packet now).hasAll with
    | false => exact ⟨_, handleFragment_keep hsource hskip hfull, fun _ _ he => slotted_put h _ hkeep he⟩
    | true =>
      obtain ⟨parsed, hparsed⟩ := handleReceivedPacket_isSome h.sized.array hkeep
        (by rw [keep_ackedBits_length]; exact hwidth)
      rw [handleFragment_full hsource hskip hfull, hparsed]
      exact ⟨_, rfl, fun _ _ he => slotted_put h _ hkeep.complete he⟩

/-- Every call that fits is defined and keeps the component sound. -/
theorem Sound.call (h : c.Sound) {a : Call} (hfits : Fits c a) :
    ∃ o, c.call latency a = some o ∧ o.component.Sound := by
  by_cases hcall : ∃ d, a = .handlePacket d
  · obtain ⟨d, rfl⟩ := hcall
    change ∃ o, c.handlePacket d.source d.data d.stack d.now d.limit = some o ∧ o.component.Sound
    cases hpacket : d.packet with
    | none => exact ⟨_, handlePacket_none hpacket, h⟩
    | some packet =>
      obtain ⟨-, htotal, hsize, -⟩ := d.packet_spec.2 packet hpacket
      by_cases hack : packet.thisBytes = 0
      · have ho : c.call latency (.handlePacket d) = some _ := handlePacket_ack hpacket hack
        exact ⟨_, ho, h.sized.call ho, fun _ _ he => h.slotted _ _ ((handleAck_receiveList d.source packet).1 ▸ he)⟩
      · rw [handlePacket_fragment hpacket hack]
        exact h.handleFragment htotal hsize (hfits packet hpacket hack)
  · obtain ⟨o, ho⟩ : ∃ o, c.call latency a = some o := by
      cases a with
      | triggerEvent target eventName eventPayload bytesPerSecond =>
        obtain ⟨c', hc', -⟩ := c.triggerEvent_spec target eventName eventPayload bytesPerSecond
        exact ⟨{ component := c' }, by rw [EventReassemblyComponentImpl.call, hc']; rfl⟩
      | handlePacket d => exact absurd ⟨d, rfl⟩ hcall
      | _ => exact ⟨_, rfl⟩
    exact ⟨o, ho, h.sized.call ho, fun _ _ he =>
      h.slotted _ _ ((call_receiveList ho fun d hd => hcall ⟨d, hd⟩).2 _ _ he)⟩

/-- In every run in which every stored fragment has a bit in the bitmap of its entry,
all copies land inside the vector, and no call accesses anything outside a buffer. -/
theorem copiesInside_of_fits {latency : Int → Int} {start : Int} {calls : List Call} {c : EventReassemblyComponentImpl}
    (hrun : Run (next latency) Fits (create start) calls c) (d : Delivery) (hfits : Fits c (.handlePacket d)) :
    c.CopiesInside d ∧ (c.call latency (.handlePacket d)).isSome := by
  have hsound : c.Sound := hrun.invariant (·.Sound) (create_sound start) fun {c a c'} hc hok hnext => by
    obtain ⟨o, ho, hsound⟩ := hc.call hok
    rw [next, ho] at hnext
    cases hnext
    exact hsound
  constructor
  · intro packet event hpacket hdata hfull packetIdx bytes hget
    obtain ⟨-, -, hsize, -⟩ := d.packet_spec.2 packet hpacket
    rw [fullEvent] at hfull
    split at hfull
    · rename_i hcond
      cases hfull
      obtain ⟨hslot, hlen⟩ :=
        (hsound.receiveEvent d.source packet).keep (hfits packet hpacket hdata hcond.2.1) hsize packetIdx bytes hget
      have hend := Nat.mul_le_mul_right kFragmentSize (Nat.succ_le_of_lt hslot)
      rw [Nat.succ_mul] at hend
      omega
    · cases hfull
  · obtain ⟨o, ho, -⟩ := hsound.call hfits
    rw [ho]
    rfl

section Examples

/-- A delivery from target 1 over a cleared stack. -/
private def fromOne (data : List Byte) : Delivery where
  source := 1
  data
  stack := List.replicate kFragmentSize 0
  now := 0
  limit := false
  stack_length := List.length_replicate

/-- Fragments 0 and 1 of an event of two packets. -/
private def firstHalf : Delivery := fromOne [0, 0, 0, 7, 0, 0, 0, 0, 0, 0, 0, 0, 0x80, 0x14, 0x10]

private def secondHalf : Delivery := fromOne [0, 0, 0, 7, 0, 0, 0, 0, 0, 0, 0x80, 0, 0x80, 0x14, 0x20]

private def half (packetIdx : Nat) (b : Byte) : EventPacket := ⟨7, packetIdx, 2, 1, b :: List.replicate 1022 0⟩

private theorem firstHalf_packet : firstHalf.packet = some (half 0 65) := by decide +kernel

private theorem secondHalf_packet : secondHalf.packet = some (half 1 66) := by decide +kernel

theorem copiesInside_secondHalf :
    ∃ c, Run (next fun _ => 0) Fits (create 0) [.handlePacket firstHalf] c ∧ c.CopiesInside secondHalf := by
  have hfirst : Fits (create 0) (.handlePacket firstHalf) := by
    intro packet hpacket _ _
    rw [firstHalf_packet] at hpacket
    cases hpacket
    decide
  have hnext : next (fun _ => 0) (create 0) (.handlePacket firstHalf) = some
      ((create 0).putReceiveEvent 1 7 (((create 0).receiveEvent 1 (half 0 65)).keep (half 0 65) 0)) := by
    rw [next, call, handlePacket_fragment firstHalf_packet (by decide), handleFragment_keep rfl rfl rfl]
    rfl
  have hrun : Run (next fun _ => 0) Fits (create 0) [.handlePacket firstHalf] _ := .cons hfirst hnext (.nil _)
  refine ⟨_, hrun, (copiesInside_of_fits hrun secondHalf ?_).1⟩
  intro packet hpacket _ _
  rw [secondHalf_packet] at hpacket
  cases hpacket
  decide

/-- The only fragment of an event of no packets: with no bit to wait for, the event is
reassembled into an empty vector. -/
private def noPackets : Delivery := fromOne [0, 0, 0, 7, 0, 0, 0, 0, 0, 0, 0, 0, 0, 0x14, 0x10]

theorem noPackets_copies :
    ¬ (create 0).CopiesInside noPackets ∧ (create 0).call (fun _ => 0) (.handlePacket noPackets) = none := by
  have hpacket : noPackets.packet = some ⟨7, 0, 0, 1, 65 :: List.replicate 1022 0⟩ := by decide +kernel
  constructor
  · intro hinside
    have hcopy := hinside _ _ hpacket (by decide) rfl 0 [65] rfl
    revert hcopy
    decide
  · rw [call, handlePacket_fragment hpacket (by decide), handleFragment_full rfl rfl rfl]
    rfl

end Examples

end EventReassemblyComponentImpl

end fx
