import Citizen.EventReassembly.Receive
import Citizen.EventReassembly.Tick

open Bits rl Std OrderedMap

namespace fx

/-- One call of `HandlePacket`: the arguments, what the uninitialised `packet.payload`
holds, the time, and the answer of `LimitEvent` if it is asked. -/
structure Delivery where
  source : Int
  data : List Byte
  stack : List Byte
  now : Int
  limit : Bool
  stack_length : stack.length = kFragmentSize

inductive Call where
  | registerTarget (id : Int)
  | unregisterTarget (id : Int)
  | triggerEvent (target : Int) (eventName eventPayload : List Byte) (bytesPerSecond : Int)
  | networkTick (timeNow : Int)
  | handlePacket (delivery : Delivery)

namespace EventReassemblyComponentImpl

/-- Any call on the component; `none` is an access outside a buffer. -/
def call (latency : Int → Int) (c : EventReassemblyComponentImpl) : Call → Option Outcome
  | .registerTarget id => some { component := c.registerTarget id }
  | .unregisterTarget id => some { component := c.unregisterTarget id }
  | .triggerEvent target eventName eventPayload bytesPerSecond =>
    (c.triggerEvent target eventName eventPayload bytesPerSecond).map fun component => { component }
  | .networkTick timeNow => some (c.networkTick latency timeNow)
  | .handlePacket d => c.handlePacket d.source d.data d.stack d.now d.limit

/-- The state after a call. -/
def next (latency : Int → Int) (c : EventReassemblyComponentImpl) (a : Call) : Option EventReassemblyComponentImpl :=
  (c.call latency a).map (·.component)

/-- The entry on which a fragment makes `HandlePacket` call `HandleReceivedPacket`. -/
def fullEvent (c : EventReassemblyComponentImpl) (source : Int) (packet : EventPacket) (now : Int) :
    Option ReceiveEvent :=
  let event := c.receiveEvent source packet
  if event.source = source ∧ event.skips packet = false ∧ (event.keep packet now).hasAll then
    some (event.keep packet now)
  else none

end EventReassemblyComponentImpl

/-- The packet in a delivery, unless it does not parse. -/
def Delivery.packet (d : Delivery) : Option EventPacket := (EventPacket.parse d.stack (.ofBytes d.data)).join

theorem Delivery.packet_spec (d : Delivery) :
    EventPacket.parse d.stack (.ofBytes d.data) = some d.packet ∧
      ∀ packet, d.packet = some packet → packet.packetIdx < 2 ^ 17 ∧ packet.totalPackets < 2 ^ 17 ∧
        packet.thisBytes ≤ kFragmentSize ∧ packet.payload.length = kFragmentSize := by
  rw [Delivery.packet]
  rcases EventPacket.parse_spec d.data d.stack_length with
    ⟨-, hparse⟩ | ⟨fields, b, payload, -, hparse, hpayload, hidx, htotal, hthis, -⟩
  · rw [hparse]
    exact ⟨rfl, fun packet hpacket => by cases hpacket⟩
  · rw [hparse]
    refine ⟨rfl, fun packet hpacket => ?_⟩
    cases hpacket
    exact ⟨hidx, htotal, hthis, hpayload⟩

namespace EventReassemblyComponentImpl

variable {c : EventReassemblyComponentImpl} {latency : Int → Int}

theorem handlePacket_none {d : Delivery} (h : d.packet = none) :
    c.handlePacket d.source d.data d.stack d.now d.limit = some { component := c } := by
  rw [handlePacket, d.packet_spec.1, h]
  rfl

theorem handlePacket_ack {d : Delivery} {packet : EventPacket} (h : d.packet = some packet)
    (hack : packet.thisBytes = 0) :
    c.handlePacket d.source d.data d.stack d.now d.limit = some { component := c.handleAck d.source packet } := by
  rw [handlePacket, d.packet_spec.1, h]
  exact if_pos hack

theorem handlePacket_fragment {d : Delivery} {packet : EventPacket} (h : d.packet = some packet)
    (hdata : packet.thisBytes ≠ 0) :
    c.handlePacket d.source d.data d.stack d.now d.limit = c.handleFragment d.source packet d.now d.limit := by
  rw [handlePacket, d.packet_spec.1, h]
  exact if_neg hdata

section Fragment

variable {source : Int} {packet : EventPacket} {now : Int} {limit : Bool}

theorem handleFragment_skip (hsource : (c.receiveEvent source packet).source = source)
    (hskip : (c.receiveEvent source packet).skips packet = true) :
    c.handleFragment source packet now limit = some {
      component := c.putReceiveEvent source packet.eventId { c.receiveEvent source packet with timeLastAck := now }
      sends := [(source, { packet with thisBytes := 0 })] } :=
  if_pos ⟨hsource, hskip⟩

theorem handleFragment_keep (hsource : (c.receiveEvent source packet).source = source)
    (hskip : (c.receiveEvent source packet).skips packet = false)
    (hfull : ((c.receiveEvent source packet).keep packet now).hasAll = false) :
    c.handleFragment source packet now limit = some {
      component := c.putReceiveEvent source packet.eventId ((c.receiveEvent source packet).keep packet now)
      sends := [(source, { packet with thisBytes := 0 })] } := by
  rw [handleFragment]
  dsimp only
  rw [if_neg (by simp [hskip]), if_pos hsource, if_neg (by simp [hfull])]

theorem handleFragment_full (hsource : (c.receiveEvent source packet).source = source)
    (hskip : (c.receiveEvent source packet).skips packet = false)
    (hfull : ((c.receiveEvent source packet).keep packet now).hasAll = true) :
    c.handleFragment source packet now limit =
      (handleReceivedPacket c.eventName ((c.receiveEvent source packet).keep packet now)).map fun parsed => {
        component := { c.putReceiveEvent source packet.eventId
          ((c.receiveEvent source packet).keep packet now).complete with eventName := parsed.1 }
        sends := [(source, { packet with thisBytes := 0 })]
        queued := if limit then none else some ⟨source, packet.eventId, parsed.2.1, parsed.2.2⟩ } := by
  rw [handleFragment]
  dsimp only
  rw [if_neg (by simp [hskip]), if_pos hsource, if_pos hfull]
  cases handleReceivedPacket c.eventName ((c.receiveEvent source packet).keep packet now) <;> rfl

/-- What a fragment can do to an entry of its own source. -/
theorem handleFragment_cases {o : Outcome} (hsource : (c.receiveEvent source packet).source = source)
    (h : c.handleFragment source packet now limit = some o) :
    ((c.receiveEvent source packet).skips packet = true ∧ o = {
      component := c.putReceiveEvent source packet.eventId { c.receiveEvent source packet with timeLastAck := now }
      sends := [(source, { packet with thisBytes := 0 })] }) ∨
    ((c.receiveEvent source packet).skips packet = false ∧
      ((c.receiveEvent source packet).keep packet now).hasAll = false ∧ o = {
      component := c.putReceiveEvent source packet.eventId ((c.receiveEvent source packet).keep packet now)
      sends := [(source, { packet with thisBytes := 0 })] }) ∨
    ∃ parsed, (c.receiveEvent source packet).skips packet = false ∧
      ((c.receiveEvent source packet).keep packet now).hasAll = true ∧
      handleReceivedPacket c.eventName ((c.receiveEvent source packet).keep packet now) = some parsed ∧ o = {
      component := { c.putReceiveEvent source packet.eventId
        ((c.receiveEvent source packet).keep packet now).complete with eventName := parsed.1 }
      sends := [(source, { packet with thisBytes := 0 })]
      queued := if limit then none else some ⟨source, packet.eventId, parsed.2.1, parsed.2.2⟩ } := by
  cases hskip : (c.receiveEvent source packet).skips packet with
  | true =>
    rw [handleFragment_skip hsource hskip] at h
    exact Or.inl ⟨rfl, (Option.some.inj h).symm⟩
  | false =>
    cases hfull : ((c.receiveEvent source packet).keep packet now).hasAll with
    | false =>
      rw [handleFragment_keep hsource hskip hfull] at h
      exact Or.inr (Or.inl ⟨rfl, rfl, (Option.some.inj h).symm⟩)
    | true =>
      rw [handleFragment_full hsource hskip hfull] at h
      obtain ⟨parsed, hparsed, ho⟩ := Option.map_eq_some_iff.mp h
      exact Or.inr (Or.inr ⟨parsed, rfl, rfl, hparsed, ho.symm⟩)

end Fragment

theorem handleAck_receiveList (source : Int) (packet : EventPacket) :
    (c.handleAck source packet).receiveList = c.receiveList ∧ (c.handleAck source packet).eventName = c.eventName := by
  unfold handleAck
  split
  · exact ⟨rfl, rfl⟩
  split
  · split
    · exact ⟨rfl, rfl⟩
    · exact ⟨rfl, rfl⟩
  · exact ⟨rfl, rfl⟩

theorem triggerEvent_spec (c : EventReassemblyComponentImpl) (target : Int) (eventName eventPayload : List Byte)
    (bytesPerSecond : Int) :
    ∃ c', c.triggerEvent target eventName eventPayload bytesPerSecond = some c' ∧
      c'.receiveList = c.receiveList ∧ c'.eventName = c.eventName := by
  rw [triggerEvent]
  dsimp only
  by_cases hsize : kMaxPacketSize ≤ eventPayload.length + eventName.length + 2
  · rw [if_pos hsize]
    exact ⟨c, rfl, rfl, rfl⟩
  rw [if_neg hsize]
  split
  · exact ⟨c, rfl, rfl, rfl⟩
  · rw [eventBytes_eq (Nat.lt_of_not_le hsize)]
    exact ⟨_, rfl, rfl, rfl⟩

/-- Calls other than `HandlePacket` remove entries of the receive list at most. -/
theorem call_receiveList {latency : Int → Int} {a : Call} {o : Outcome} (h : c.call latency a = some o)
    (hcall : ∀ d, a ≠ .handlePacket d) :
    o.component.eventName = c.eventName ∧ ∀ (key : Int × EventId) (event : ReceiveEvent),
      o.component.receiveList[key]? = some event → c.receiveList[key]? = some event := by
  cases a with
  | registerTarget id =>
    cases h
    exact ⟨rfl, fun _ _ he => he⟩
  | unregisterTarget id =>
    cases h
    dsimp only
    rw [unregisterTarget]
    split
    · refine ⟨rfl, fun key event he => ?_⟩
      dsimp only at he
      rw [getElem?_eraseIf] at he
      exact (Option.filter_eq_some_iff.mp he).1
    · exact ⟨rfl, fun _ _ he => he⟩
  | triggerEvent target eventName eventPayload bytesPerSecond =>
    obtain ⟨c', hc', hlist, harray⟩ := c.triggerEvent_spec target eventName eventPayload bytesPerSecond
    rw [call, hc'] at h
    cases h
    exact ⟨harray, fun _ _ he => hlist ▸ he⟩
  | networkTick timeNow =>
    cases h
    refine ⟨rfl, fun key event he => ?_⟩
    rw [networkTick] at he
    dsimp only at he
    rw [getElem?_eraseIf] at he
    exact (Option.filter_eq_some_iff.mp he).1
  | handlePacket d => exact absurd rfl (hcall d)

/-- The name array has its size, and every entry has the source it is filed under and a
bitmap no wider than a packet can ask for. -/
structure Sized (c : EventReassemblyComponentImpl) : Prop where
  array : c.eventName.length = kEventNameSize
  source : ∀ (key : Int × EventId) (event : ReceiveEvent), c.receiveList[key]? = some event → event.source = key.1
  width : ∀ (key : Int × EventId) (event : ReceiveEvent), c.receiveList[key]? = some event →
    event.ackedBits.length < 2 ^ 17

theorem create_sized (start : Int) : (create start).Sized :=
  ⟨List.length_replicate, fun key event h => by simp [create] at h, fun key event h => by simp [create] at h⟩

theorem Sized.receiveEvent (h : c.Sized) {source : Int} {packet : EventPacket}
    (htotal : packet.totalPackets < 2 ^ 17) :
    (c.receiveEvent source packet).source = source ∧ (c.receiveEvent source packet).ackedBits.length < 2 ^ 17 := by
  rw [EventReassemblyComponentImpl.receiveEvent]
  cases hget : c.receiveList[(source, packet.eventId)]? with
  | none => exact ⟨rfl, by simpa [ReceiveEvent.start] using htotal⟩
  | some event => exact ⟨h.source _ _ hget, h.width _ _ hget⟩

theorem putReceiveEvent_receiveList {source : Int} {eventId : EventId} {event : ReceiveEvent} (key : Int × EventId) :
    (c.putReceiveEvent source eventId event).receiveList[key]? =
      if (source, eventId) = key then some event else c.receiveList[key]? := by
  rw [putReceiveEvent]
  dsimp only
  rw [TreeMap.getElem?_insert]
  simp only [Std.compare_eq_iff_eq]

theorem Sized.put (h : c.Sized) {source : Int} {eventId : EventId} (event : ReceiveEvent)
    (hsource : event.source = source) (hwidth : event.ackedBits.length < 2 ^ 17) {array : List Byte}
    (harray : array.length = kEventNameSize) :
    Sized { c.putReceiveEvent source eventId event with eventName := array } := by
  refine ⟨harray, fun key e he => ?_, fun key e he => ?_⟩
  all_goals
    dsimp only at he
    rw [putReceiveEvent_receiveList] at he
    split at he
  · rename_i heq
    cases he
    exact hsource.trans (congrArg Prod.fst heq)
  · exact h.source key e he
  · cases he
    exact hwidth
  · exact h.width key e he

@[simp] theorem keep_ackedBits_length {event : ReceiveEvent} {packet : EventPacket} {now : Int} :
    (event.keep packet now).ackedBits.length = event.ackedBits.length := by
  rw [ReceiveEvent.keep]
  dsimp only
  split
  · rw [List.length_set]
  · rfl

theorem Sized.handleFragment (h : c.Sized) {source : Int} {packet : EventPacket} {now : Int} {limit : Bool}
    {o : Outcome} (htotal : packet.totalPackets < 2 ^ 17) (ho : c.handleFragment source packet now limit = some o) :
    o.component.Sized := by
  obtain ⟨hsource, hwidth⟩ := h.receiveEvent htotal
  rcases handleFragment_cases hsource ho with ⟨-, rfl⟩ | ⟨-, -, rfl⟩ | ⟨parsed, -, -, hparsed, rfl⟩
  · exact h.put { c.receiveEvent source packet with timeLastAck := now } hsource hwidth h.array
  · exact h.put ((c.receiveEvent source packet).keep packet now) hsource
      (by rw [keep_ackedBits_length]; exact hwidth) h.array
  · have hkept : ((c.receiveEvent source packet).keep packet now).ackedBits.length < 2 ^ 17 := by
      rw [keep_ackedBits_length]
      exact hwidth
    exact h.put ((c.receiveEvent source packet).keep packet now).complete hsource hkept
      (handleReceivedPacket_array hparsed h.array hkept)

theorem Sized.call (h : c.Sized) {latency : Int → Int} {a : Call} {o : Outcome} (ho : c.call latency a = some o) :
    o.component.Sized := by
  by_cases hcall : ∃ d, a = .handlePacket d
  · obtain ⟨d, rfl⟩ := hcall
    change c.handlePacket d.source d.data d.stack d.now d.limit = some o at ho
    cases hpacket : d.packet with
    | none =>
      rw [handlePacket_none hpacket] at ho
      cases ho
      exact h
    | some packet =>
      obtain ⟨-, htotal, -⟩ := d.packet_spec.2 packet hpacket
      by_cases hack : packet.thisBytes = 0
      · rw [handlePacket_ack hpacket hack] at ho
        cases ho
        obtain ⟨hlist, harray⟩ := handleAck_receiveList (c := c) d.source packet
        exact ⟨harray ▸ h.array, fun _ _ he => h.source _ _ (hlist ▸ he), fun _ _ he => h.width _ _ (hlist ▸ he)⟩
      · rw [handlePacket_fragment hpacket hack] at ho
        exact h.handleFragment htotal ho
  · obtain ⟨harray, hlist⟩ := call_receiveList ho fun d hd => hcall ⟨d, hd⟩
    exact ⟨harray ▸ h.array, fun _ _ he => h.source _ _ (hlist _ _ he), fun _ _ he => h.width _ _ (hlist _ _ he)⟩

end EventReassemblyComponentImpl

end fx
