import Citizen.EventReassembly.Calls
import Citizen.Lib.Transition

open Bits rl Std Transition

namespace fx

/-- A component and the events it has queued so far. -/
structure Receiver where
  component : EventReassemblyComponentImpl
  queued : List QueuedEvent

namespace Receiver

def create (start : Int) : Receiver := ⟨.create start, []⟩

/-- One `HandlePacket` call; `none` is an access outside a buffer. -/
def deliver (r : Receiver) (d : Delivery) : Option Receiver :=
  (r.component.handlePacket d.source d.data d.stack d.now d.limit).map fun o =>
    ⟨o.component, r.queued ++ o.queued.toList⟩

/-- The names and payloads queued for a source, in order. -/
def queuedFrom (r : Receiver) (source : Int) : List (List Byte × List Byte) :=
  (r.queued.filter fun q => q.source = source).map fun q => (q.eventName, q.eventPayload)

end Receiver

/-- What a source controls of a delivery: the packet and the answer of `LimitEvent`. -/
def Delivery.visible (source : Int) (d : Delivery) : Option (List Byte × Bool) :=
  if d.source = source then some (d.data, d.limit) else none

/-- The payload bytes that a packet announces are in it. -/
def PayloadArrived (data : List Byte) : Prop :=
  ∀ packet b, EventPacket.parseFields [] (.ofBytes data) = some (packet, b) → 108 + 8 * packet.thisBytes ≤ b.maxBit

/-- The name bytes that a complete event announces are in it. -/
def NameArrived (event : ReceiveEvent) : Prop :=
  ∀ n rest, n < 65536 → reassembledBytes event = some (size16 n ++ rest) → n ≤ rest.length

/-- A fragment of `source` that is stored is as long as it says, and the event it
completes holds its whole name. Packets of other sources are not restricted. -/
def Clean (source : Int) (r : Receiver) (d : Delivery) : Prop :=
  d.source = source → ∀ packet, d.packet = some packet → packet.thisBytes ≠ 0 →
    (r.component.receiveEvent source packet).skips packet = false →
    PayloadArrived d.data ∧ ∀ event, r.component.fullEvent source packet d.now = some event → NameArrived event

/-- Two entries that differ in the time of the last acknowledgement at most. -/
structure Same (event event' : ReceiveEvent) : Prop where
  ackedBits : event.ackedBits = event'.ackedBits
  completed : event.completed = event'.completed
  packetData : event.packetData = event'.packetData

/-- Two fragments with the same fields and payload bytes; past these the payload
arrays may differ. -/
structure SamePacket (packet packet' : EventPacket) : Prop where
  eventId : packet.eventId = packet'.eventId
  packetIdx : packet.packetIdx = packet'.packetIdx
  totalPackets : packet.totalPackets = packet'.totalPackets
  thisBytes : packet.thisBytes = packet'.thisBytes

namespace Same

variable {event event' : ReceiveEvent} {packet packet' : EventPacket}

theorem skips (h : Same event event') (hpacket : SamePacket packet packet') :
    event.skips packet = event'.skips packet' := by
  rw [ReceiveEvent.skips, ReceiveEvent.skips, h.completed, h.ackedBits, hpacket.packetIdx]

theorem keep (h : Same event event') (now now' : Int) (hpacket : SamePacket packet packet')
    (hpayload : packet.payload.take packet.thisBytes = packet'.payload.take packet'.thisBytes) :
    Same (event.keep packet now) (event'.keep packet' now') where
  ackedBits := by rw [ReceiveEvent.keep, ReceiveEvent.keep, h.ackedBits, hpacket.packetIdx]
  completed := h.completed
  packetData := by rw [ReceiveEvent.keep, ReceiveEvent.keep, h.packetData, hpacket.packetIdx, hpayload]

theorem complete (h : Same event event') : Same event.complete event'.complete where
  ackedBits := h.ackedBits
  completed := rfl
  packetData := by rw [ReceiveEvent.complete, ReceiveEvent.complete, h.packetData]

theorem hasAll (h : Same event event') : event.hasAll = event'.hasAll := by
  rw [ReceiveEvent.hasAll, ReceiveEvent.hasAll, h.ackedBits]

theorem reassembledBytes (h : Same event event') : reassembledBytes event = fx.reassembledBytes event' := by
  rw [fx.reassembledBytes, fx.reassembledBytes, h.packetData, h.ackedBits]

end Same

/-- An event whose name has arrived is split the same whatever the array held. -/
theorem parseEvent_same {array array' data : List Byte} {parsed parsed' : List Byte × List Byte × List Byte}
    (harray : array.length = kEventNameSize) (harray' : array'.length = kEventNameSize)
    (hsmall : 8 * data.length < 2 ^ 31)
    (hname : ∀ n rest, n < 65536 → data = size16 n ++ rest → n ≤ rest.length)
    (h : parseEvent array data = some parsed) (h' : parseEvent array' data = some parsed') : parsed.2 = parsed'.2 := by
  rcases size16_cases data with hshort | ⟨n, rest, hn, rfl⟩
  · rw [parseEvent_short harray hshort] at h
    rw [parseEvent_short harray' hshort] at h'
    cases h
    cases h'
    rfl
  · have hfull := hname n rest hn rfl
    have hlen : (rest.take n).length = n := List.length_take_of_le hfull
    have hsplit : size16 n ++ rest = size16 (rest.take n).length ++ rest.take n ++ rest.drop n := by
      rw [hlen, List.append_assoc, List.take_append_drop]
    rw [hsplit] at h h' hsmall
    rw [parseEvent_full _ harray (by omega) hsmall] at h
    rw [parseEvent_full _ harray' (by omega) hsmall] at h'
    cases h
    cases h'
    rfl

theorem Delivery.packet_same {d d' : Delivery} (hdata : d.data = d'.data) :
    (d.packet = none ∧ d'.packet = none) ∨ ∃ packet packet', d.packet = some packet ∧ d'.packet = some packet' ∧
      SamePacket packet packet' ∧
      (PayloadArrived d.data → packet.payload.take packet.thisBytes = packet'.payload.take packet'.thisBytes) := by
  rw [Delivery.packet, Delivery.packet, ← hdata]
  rcases EventPacket.parse_spec d.data d.stack_length with
    ⟨hnone, hparse⟩ | ⟨fields, b, payload, hfields, hparse, hpayload, -, -, hthis, hbits⟩
  · rcases EventPacket.parse_spec d.data d'.stack_length with ⟨-, hparse'⟩ | ⟨_, _, _, hfields', -⟩
    · rw [hparse, hparse']
      exact Or.inl ⟨rfl, rfl⟩
    · cases hnone.symm.trans hfields'
  · rcases EventPacket.parse_spec d.data d'.stack_length with
      ⟨hnone, -⟩ | ⟨fields', b', payload', hfields', hparse', hpayload', -, -, -, hbits'⟩
    · cases hnone.symm.trans hfields
    · cases Option.some.inj (hfields.symm.trans hfields')
      rw [hparse, hparse']
      refine Or.inr ⟨_, _, rfl, rfl, ⟨rfl, rfl, rfl, rfl⟩, fun harrived => ?_⟩
      have hfit := harrived _ _ hfields
      apply ext_bitAt
      · rw [List.length_take, List.length_take, hpayload, hpayload']
      · intro i hi
        rw [List.length_take] at hi
        dsimp only at hi ⊢
        rw [bitAt_take (by omega), bitAt_take (by omega), hbits hfit i (by omega), hbits' hfit i (by omega)]

/-- The two receivers agree on everything that concerns `source`. -/
structure Receiver.Agree (source : Int) (r r' : Receiver) : Prop where
  sized : r.component.Sized
  sized' : r'.component.Sized
  entries : ∀ eventId : EventId, Option.Rel Same r.component.receiveList[(source, eventId)]?
    r'.component.receiveList[(source, eventId)]?
  queued : r.queuedFrom source = r'.queuedFrom source

namespace EventReassemblyComponentImpl

variable {c : EventReassemblyComponentImpl}

/-- A packet of another source leaves the entries of `source` alone, and queues events
of its own source only. -/
theorem handlePacket_other (h : c.Sized) {d : Delivery} {o : Outcome} {source : Int}
    (ho : c.handlePacket d.source d.data d.stack d.now d.limit = some o) (hother : d.source ≠ source) :
    (∀ eventId : EventId, o.component.receiveList[(source, eventId)]? = c.receiveList[(source, eventId)]?) ∧
      ∀ q ∈ o.queued, q.source = d.source := by
  cases hpacket : d.packet with
  | none =>
    rw [handlePacket_none hpacket] at ho
    cases ho
    exact ⟨fun _ => rfl, by simp⟩
  | some packet =>
    obtain ⟨-, htotal, -⟩ := d.packet_spec.2 packet hpacket
    by_cases hack : packet.thisBytes = 0
    · rw [handlePacket_ack hpacket hack] at ho
      cases ho
      exact ⟨fun eventId => by rw [(handleAck_receiveList (c := c) d.source packet).1], by simp⟩
    · rw [handlePacket_fragment hpacket hack] at ho
      have hput : ∀ (event : ReceiveEvent) (eventId : EventId),
          (c.putReceiveEvent d.source packet.eventId event).receiveList[(source, eventId)]? =
            c.receiveList[(source, eventId)]? := by
        intro event eventId
        rw [putReceiveEvent_receiveList, if_neg fun heq => hother (congrArg Prod.fst heq)]
      rcases handleFragment_cases (h.receiveEvent htotal).1 ho with ⟨-, rfl⟩ | ⟨-, -, rfl⟩ | ⟨parsed, -, -, -, rfl⟩
      · exact ⟨hput _, by simp⟩
      · exact ⟨hput _, by simp⟩
      · refine ⟨hput _, fun q hq => ?_⟩
        dsimp only at hq
        split at hq
        · cases hq
        · cases hq
          rfl

end EventReassemblyComponentImpl

namespace Receiver

variable {r r' t t' : Receiver} {source : Int}

theorem queuedFrom_append (component : EventReassemblyComponentImpl) (queued : Option QueuedEvent) :
    queuedFrom ⟨component, r.queued ++ queued.toList⟩ source = r.queuedFrom source ++
      ((queued.filter fun q => q.source = source).map fun q => (q.eventName, q.eventPayload)).toList := by
  rw [queuedFrom, queuedFrom, List.filter_append, List.map_append]
  cases queued with
  | none => rfl
  | some q => by_cases hq : q.source = source <;> simp [Option.filter, hq]

theorem Agree.symm (h : Agree source r r') : Agree source r' r where
  sized := h.sized'
  sized' := h.sized
  entries eventId := by
    have hrel := h.entries eventId
    generalize r.component.receiveList[(source, eventId)]? = entry at hrel ⊢
    generalize r'.component.receiveList[(source, eventId)]? = entry' at hrel ⊢
    cases hrel with
    | none => exact .none
    | some hsame => exact .some ⟨hsame.ackedBits.symm, hsame.completed.symm, hsame.packetData.symm⟩
  queued := h.queued.symm

theorem Agree.other (h : Agree source r r') {d : Delivery} (hview : d.visible source = none)
    (ht : r.deliver d = some t) :
    Agree source t r' := by
  obtain ⟨o, ho, rfl⟩ := Option.map_eq_some_iff.mp ht
  have hother : d.source ≠ source := by
    intro heq
    rw [Delivery.visible, if_pos heq] at hview
    cases hview
  obtain ⟨hentries, hqueued⟩ := EventReassemblyComponentImpl.handlePacket_other h.sized ho hother
  refine ⟨h.sized.call (show r.component.call id (.handlePacket d) = some o from ho), h.sized', fun eventId => ?_, ?_⟩
  · rw [hentries]
    exact h.entries eventId
  · rw [queuedFrom_append]
    cases hq : o.queued with
    | none => simpa using h.queued
    | some q =>
      have hne : q.source ≠ source := by
        rw [hqueued q hq]
        exact hother
      simpa [Option.filter, hne] using h.queued

/-- Storing agreeing entries keeps the agreement. -/
private theorem entries_put {c c' : EventReassemblyComponentImpl} {event event' : ReceiveEvent} {eventId : EventId}
    (h : ∀ eventId : EventId, Option.Rel Same c.receiveList[(source, eventId)]? c'.receiveList[(source, eventId)]?)
    (hevent : Same event event') (other : EventId) :
    Option.Rel Same (c.putReceiveEvent source eventId event).receiveList[(source, other)]?
      (c'.putReceiveEvent source eventId event').receiveList[(source, other)]? := by
  rw [EventReassemblyComponentImpl.putReceiveEvent_receiveList,
    EventReassemblyComponentImpl.putReceiveEvent_receiveList]
  split
  · exact .some hevent
  · exact h other

private theorem Agree.receiveEvent (h : Agree source r r') {packet packet' : EventPacket}
    (hpacket : SamePacket packet packet') :
    Same (r.component.receiveEvent source packet) (r'.component.receiveEvent source packet') := by
  have hrel := h.entries packet.eventId
  rw [EventReassemblyComponentImpl.receiveEvent, EventReassemblyComponentImpl.receiveEvent, ← hpacket.eventId,
    ← hpacket.totalPackets]
  generalize r.component.receiveList[(source, packet.eventId)]? = entry at hrel ⊢
  generalize r'.component.receiveList[(source, packet.eventId)]? = entry' at hrel ⊢
  cases hrel with
  | none => exact ⟨rfl, rfl, rfl⟩
  | some hsame => exact hsame

/-- The same packet of `source`, with the same answer of `LimitEvent`, keeps the
agreement, whatever the two stacks hold. -/
theorem Agree.same (h : Agree source r r') {d d' : Delivery} (hsource : d.source = source)
    (hsource' : d'.source = source) (hdata : d.data = d'.data) (hlimit : d.limit = d'.limit)
    (hclean : Clean source r d) (ht : r.deliver d = some t)
    (ht' : r'.deliver d' = some t') : Agree source t t' := by
  obtain ⟨o, ho, rfl⟩ := Option.map_eq_some_iff.mp ht
  obtain ⟨o', ho', rfl⟩ := Option.map_eq_some_iff.mp ht'
  have hsized := h.sized.call (show r.component.call id (.handlePacket d) = some o from ho)
  have hsized' := h.sized'.call (show r'.component.call id (.handlePacket d') = some o' from ho')
  suffices hstep : (∀ eventId : EventId, Option.Rel Same o.component.receiveList[(source, eventId)]?
      o'.component.receiveList[(source, eventId)]?) ∧ o.queued = o'.queued by
    refine ⟨hsized, hsized', hstep.1, ?_⟩
    rw [queuedFrom_append, queuedFrom_append, hstep.2, h.queued]
  rcases Delivery.packet_same hdata with ⟨hnone, hnone'⟩ | ⟨packet, packet', hpacket, hpacket', hsame, hbytes⟩
  · rw [EventReassemblyComponentImpl.handlePacket_none hnone] at ho
    rw [EventReassemblyComponentImpl.handlePacket_none hnone'] at ho'
    cases ho
    cases ho'
    exact ⟨h.entries, rfl⟩
  obtain ⟨-, htotal, -⟩ := d.packet_spec.2 packet hpacket
  obtain ⟨-, htotal', -⟩ := d'.packet_spec.2 packet' hpacket'
  by_cases hack : packet.thisBytes = 0
  · rw [EventReassemblyComponentImpl.handlePacket_ack hpacket hack] at ho
    rw [EventReassemblyComponentImpl.handlePacket_ack hpacket' (hsame.thisBytes ▸ hack)] at ho'
    cases ho
    cases ho'
    refine ⟨fun eventId => ?_, rfl⟩
    rw [(EventReassemblyComponentImpl.handleAck_receiveList ..).1,
      (EventReassemblyComponentImpl.handleAck_receiveList ..).1]
    exact h.entries eventId
  rw [EventReassemblyComponentImpl.handlePacket_fragment hpacket hack, hsource] at ho
  rw [EventReassemblyComponentImpl.handlePacket_fragment hpacket' (hsame.thisBytes ▸ hack), hsource'] at ho'
  have hevent := h.receiveEvent hsame
  have hskips := hevent.skips hsame
  obtain ⟨hown, hwidth⟩ := h.sized.receiveEvent htotal
  obtain ⟨hown', hwidth'⟩ := h.sized'.receiveEvent htotal'
  cases hskip : (r.component.receiveEvent source packet).skips packet with
  | true =>
    rw [EventReassemblyComponentImpl.handleFragment_skip hown hskip] at ho
    rw [EventReassemblyComponentImpl.handleFragment_skip hown' (hskips ▸ hskip), ← hsame.eventId] at ho'
    cases ho
    cases ho'
    exact ⟨entries_put h.entries ⟨hevent.ackedBits, hevent.completed, hevent.packetData⟩, rfl⟩
  | false =>
    obtain ⟨hpayload, hname⟩ := hclean hsource packet hpacket hack hskip
    have hkeep := hevent.keep d.now d'.now hsame (hbytes hpayload)
    cases hfull : ((r.component.receiveEvent source packet).keep packet d.now).hasAll with
    | false =>
      rw [EventReassemblyComponentImpl.handleFragment_keep hown hskip hfull] at ho
      rw [EventReassemblyComponentImpl.handleFragment_keep hown' (hskips ▸ hskip) (hkeep.hasAll ▸ hfull),
        ← hsame.eventId] at ho'
      cases ho
      cases ho'
      exact ⟨entries_put h.entries hkeep, rfl⟩
    | true =>
      rw [EventReassemblyComponentImpl.handleFragment_full hown hskip hfull] at ho
      rw [EventReassemblyComponentImpl.handleFragment_full hown' (hskips ▸ hskip) (hkeep.hasAll ▸ hfull),
        ← hsame.eventId, ← hlimit] at ho'
      obtain ⟨parsed, hparsed, rfl⟩ := Option.map_eq_some_iff.mp ho
      obtain ⟨parsed', hparsed', rfl⟩ := Option.map_eq_some_iff.mp ho'
      refine ⟨entries_put h.entries hkeep.complete, ?_⟩
      have hfullEvent : r.component.fullEvent source packet d.now =
          some ((r.component.receiveEvent source packet).keep packet d.now) := if_pos ⟨hown, hskip, hfull⟩
      rw [handleReceivedPacket] at hparsed hparsed'
      obtain ⟨data, hreassembled, hparse⟩ := Option.bind_eq_some_iff.mp hparsed
      obtain ⟨data', hreassembled', hparse'⟩ := Option.bind_eq_some_iff.mp hparsed'
      obtain rfl : data = data' := Option.some.inj
        (hreassembled.symm.trans (hkeep.reassembledBytes.trans hreassembled'))
      have hlen := reassembledBytes_length hreassembled
      rw [EventReassemblyComponentImpl.keep_ackedBits_length, kFragmentSize] at hlen
      have hequal := parseEvent_same h.sized.array h.sized'.array (by omega)
        (fun n rest hn hdata => hname _ hfullEvent n rest hn (hdata ▸ hreassembled)) hparse hparse'
      dsimp only
      rw [hequal]

/-- In two histories without an access outside a buffer that contain the same packets
from `source`, with the same answers of `LimitEvent`, the same events are queued for it,
provided its own packets and events hold the bytes that they announce. -/
theorem queuedFrom_eq {start start' : Int} {history history' : List Delivery}
    (h : Run deliver (Clean source) (create start) history r)
    (h' : Run deliver (Clean source) (create start') history' r')
    (hview : history.filterMap (·.visible source) = history'.filterMap (·.visible source)) :
    r.queuedFrom source = r'.queuedFrom source := by
  have hstart : Agree source (create start) (create start') := by
    refine ⟨EventReassemblyComponentImpl.create_sized start, EventReassemblyComponentImpl.create_sized start',
      fun eventId => ?_, rfl⟩
    have hempty : ∀ start : Int, (create start).component.receiveList[(source, eventId)]? = none := by
      intro start
      simp [create, EventReassemblyComponentImpl.create]
    rw [hempty, hempty]
    exact .none
  refine Agree.queued (h.unwinding (·.visible source) h' hview hstart ?_ ?_ ?_)
  · intro r d t r' d' t' v hagree hclean _ hd hd' ht ht'
    rw [Delivery.visible] at hd hd'
    split at hd
    · rename_i hsource
      split at hd'
      · rename_i hsource'
        have hsame := hd.trans hd'.symm
        simp only [Option.some.injEq, Prod.mk.injEq] at hsame
        exact hagree.same hsource hsource' hsame.1 hsame.2 hclean ht ht'
      · cases hd'
    · cases hd
  · exact fun hagree _ hd ht => hagree.other hd ht
  · exact fun hagree _ hd ht => (hagree.symm.other hd ht).symm

section Examples

private theorem clearedStack_length : (List.replicate kFragmentSize (0 : Byte)).length = kFragmentSize :=
  List.length_replicate

/-- A delivery over a cleared stack. -/
private def arriving (source : Int) (data : List Byte) : Delivery where
  source
  data
  stack := List.replicate kFragmentSize 0
  now := 0
  limit := false
  stack_length := clearedStack_length

/-- An event of one fragment from target 2, with the name AB. -/
private def otherEvent : Delivery :=
  arriving 2 [0, 0, 0, 7, 0, 0, 0, 0, 0, 0, 0, 0, 0x40, 0x40, 0x00, 0x24, 0x14, 0x20]

/-- An event of one fragment from target 1, with the name A and the payload B. -/
private def ownEvent : Delivery :=
  arriving 1 [0, 0, 0, 7, 0, 0, 0, 0, 0, 0, 0, 0, 0x40, 0x40, 0x00, 0x14, 0x14, 0x20]

/-- An event from target 1 that announces three bytes of name and holds none. -/
private def shortEvent : Delivery :=
  arriving 1 [0, 0, 0, 7, 0, 0, 0, 0, 0, 0, 0, 0, 0x40, 0x20, 0x00, 0x30]

private def single (bytes : List Byte) : EventPacket :=
  ⟨7, 0, 1, bytes.length, bytes ++ List.replicate (kFragmentSize - bytes.length) 0⟩

/-- The entry of an event of one fragment, when it is reassembled. -/
private def singleEvent (source : Int) (bytes : List Byte) : ReceiveEvent :=
  (ReceiveEvent.start source 1).keep (single bytes) 0

/-- The packets of the three events, and the bytes that are reassembled from each. -/
private theorem events_packet :
    (otherEvent.packet = some (single [0, 2, 65, 66]) ∧
      reassembledBytes (singleEvent 2 [0, 2, 65, 66]) = some [0, 2, 65, 66]) ∧
    (ownEvent.packet = some (single [0, 1, 65, 66]) ∧
      reassembledBytes (singleEvent 1 [0, 1, 65, 66]) = some [0, 1, 65, 66]) ∧
    shortEvent.packet = some (single [0, 3]) ∧ reassembledBytes (singleEvent 1 [0, 3]) = some [0, 3] := by
      decide +kernel

private theorem deliver_single {r : Receiver} {d : Delivery} {bytes array name payload : List Byte}
    (hpacket : d.packet = some (single bytes)) (hbytes : bytes ≠ []) (hnow : d.now = 0) (hlimit : d.limit = false)
    (hfresh : r.component.receiveList[(d.source, (7 : EventId))]? = none)
    (hreassembled : reassembledBytes (singleEvent d.source bytes) = some bytes)
    (hparse : parseEvent r.component.eventName bytes = some (array, name, payload)) :
    r.deliver d = some ⟨{ r.component.putReceiveEvent d.source 7 (singleEvent d.source bytes).complete with
      eventName := array }, r.queued ++ [⟨d.source, 7, name, payload⟩]⟩ := by
  have hevent : r.component.receiveEvent d.source (single bytes) = .start d.source 1 := by
    rw [EventReassemblyComponentImpl.receiveEvent]
    change (r.component.receiveList[(d.source, (7 : EventId))]?).getD (.start d.source 1) = _
    rw [hfresh]
    rfl
  have hparsed : handleReceivedPacket r.component.eventName (singleEvent d.source bytes) =
    some (array, name, payload) := by
    rw [handleReceivedPacket, hreassembled]
    exact hparse
  rw [deliver, EventReassemblyComponentImpl.handlePacket_fragment hpacket (List.length_eq_zero_iff.not.mpr hbytes),
    EventReassemblyComponentImpl.handleFragment_full (by rw [hevent]; rfl) (by rw [hevent]; rfl)
      (by rw [hevent, hnow]; rfl), hevent, hnow, hlimit]
  rw [singleEvent] at hparsed
  rw [hparsed]
  rfl

/-- The array before any event. -/
private def zeroArray : List Byte := List.replicate kEventNameSize 0

private theorem ownEvent_clean {r : Receiver} (hfresh : r.component.receiveList[((1 : Int), (7 : EventId))]? = none) :
    Clean 1 r ownEvent := by
  intro _ packet hpacket _ _
  obtain ⟨_, ⟨hown, hbytesOwn⟩, _⟩ := events_packet
  cases Option.some.inj (hown.symm.trans hpacket)
  constructor
  · have hfields : (EventPacket.parseFields [] (.ofBytes ownEvent.data)).map (fun f => (f.1.thisBytes, f.2.maxBit)) =
        some (4, 144) := by decide +kernel
    intro packet b hpacket
    rw [hpacket] at hfields
    obtain ⟨hthis, hmax⟩ := Prod.mk.inj (Option.some.inj hfields)
    change packet.thisBytes = 4 at hthis
    change b.maxBit = 144 at hmax
    omega
  · intro event hevent n rest hn hbytes
    have hstart : r.component.receiveEvent 1 (single [0, 1, 65, 66]) = .start 1 1 := by
      rw [EventReassemblyComponentImpl.receiveEvent]
      change (r.component.receiveList[((1 : Int), (7 : EventId))]?).getD (.start 1 1) = _
      rw [hfresh]
      rfl
    rw [EventReassemblyComponentImpl.fullEvent, hstart] at hevent
    obtain rfl : singleEvent 1 [0, 1, 65, 66] = event := Option.some.inj hevent
    have hsize : [0, 1, 65, 66] = size16 1 ++ [65, 66] := by decide
    obtain ⟨hname, hrest⟩ := size16_append_inj hn (by omega)
      ((Option.some.inj (hbytes.symm.trans hbytesOwn)).trans hsize)
    rw [hname, hrest]
    simp

private theorem zeroArray_length : zeroArray.length = kEventNameSize := List.length_replicate

/-- The array after the name AB. -/
private def arrayAB : List Byte := [65, 66] ++ 0 :: zeroArray.drop 3

private theorem arrayAB_length : arrayAB.length = kEventNameSize := by
  have hdrop : (0 :: zeroArray.drop 3).length = kEventNameSize - 3 + 1 := by
    rw [List.length_cons, List.length_drop, zeroArray_length]
  rw [arrayAB, List.length_append, hdrop]
  decide

/-- The receiver after the event of target 2. -/
private def afterOther : Receiver :=
  ⟨{ (create 0).component.putReceiveEvent 2 7 (singleEvent 2 [0, 2, 65, 66]).complete with eventName := arrayAB },
    [⟨2, 7, [65, 66], []⟩]⟩

private theorem deliver_otherEvent : (create 0).deliver otherEvent = some afterOther :=
  deliver_single (r := create 0) events_packet.1.1 (by simp) rfl rfl rfl events_packet.1.2
    (parseEvent_full [65, 66] zeroArray_length (by decide) (by decide))

theorem queuedFrom_ownEvent :
    ∃ r r', Run deliver (Clean 1) (create 0) [ownEvent] r ∧ Run deliver (Clean 1) (create 0)
      [otherEvent, ownEvent] r' ∧ r.queuedFrom 1 = r'.queuedFrom 1 := by
  obtain ⟨_, ⟨hpacket, hbytes⟩, _⟩ := events_packet
  have hown := deliver_single (r := create 0) hpacket (by simp) rfl rfl rfl hbytes
    (parseEvent_full [65] zeroArray_length (by decide) (by decide))
  have hown' := deliver_single (r := afterOther) hpacket (by simp) rfl rfl rfl hbytes
    (parseEvent_full [65] arrayAB_length (by decide) (by decide))
  have hrun : Run deliver (Clean 1) (create 0) [ownEvent] _ := .cons (ownEvent_clean rfl) hown (.nil _)
  have hrun' : Run deliver (Clean 1) (create 0) [otherEvent, ownEvent] _ :=
    .cons (fun h => absurd h (by decide)) deliver_otherEvent (.cons (ownEvent_clean rfl) hown' (.nil _))
  exact ⟨_, _, hrun, hrun', queuedFrom_eq hrun hrun' (by decide)⟩

/-- The name of a short event is what another target's event left in the array. -/
theorem shortEvent_queuedFrom :
    ∃ r r', Run deliver (fun _ _ => True) (create 0) [shortEvent] r ∧
      Run deliver (fun _ _ => True) (create 0) [otherEvent, shortEvent] r' ∧
      [shortEvent].filterMap (·.visible 1) = [otherEvent, shortEvent].filterMap (·.visible 1) ∧
      r.queuedFrom 1 = [([], [])] ∧ r'.queuedFrom 1 = [([65, 66], [])] := by
  obtain ⟨_, _, hpacket, hbytes⟩ := events_packet
  have hshort := deliver_single (r := create 0) hpacket (by simp) rfl rfl rfl hbytes
    (parseEvent_overrun (n := 3) zeroArray_length (by decide) (by decide) (by decide))
  have hshort' := deliver_single (r := afterOther) hpacket (by simp) rfl rfl rfl hbytes
    (parseEvent_overrun (n := 3) arrayAB_length (by decide) (by decide) (by decide))
  refine ⟨_, _, .cons trivial hshort (.nil _), .cons trivial deliver_otherEvent (.cons trivial hshort' (.nil _)),
    by decide, rfl, rfl⟩

end Examples

end Receiver

end fx
