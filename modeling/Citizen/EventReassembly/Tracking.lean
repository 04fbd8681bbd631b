import Citizen.EventReassembly.Collect
import Citizen.EventReassembly.Network

open Bits rl Std OrderedMap Transition

namespace fx

namespace Accepted

/-- The bytes that are sent for an event. -/
def bytes (a : Accepted) : List Byte := joined a.eventName a.eventPayload

def packet (a : Accepted) (i : Nat) : EventPacket := fragment a.eventId a.bytes (packetCount a.bytes) i

/-- An event that the wire format has room for. -/
structure Fits (a : Accepted) : Prop where
  name_length : a.eventName.length ≤ 65535
  name_nul : 0 ∉ a.eventName
  packets : packetCount a.bytes < 2 ^ 17

end Accepted

namespace Network

/-- Packet `i` of an event was delivered to `receiver`. -/
def Got (w : Network) (receiver : Int) (a : Accepted) (i : Nat) : Prop :=
  ⟨a.sender, receiver, a.packet i⟩ ∈ w.delivered

/-- The events queued at `receiver` for one id of one sender. -/
def queuedFor (w : Network) (receiver sender : Int) (eventId : EventId) : List QueuedEvent :=
  (w.queued.filter fun q => q.1 = receiver ∧ q.2.source = sender ∧ q.2.eventId = eventId).map (·.2)

/-- How many events of `sender` were accepted. -/
def count (w : Network) (sender : Int) : Nat := w.accepted.countP fun a => a.sender = sender

/-- What every state of a network satisfies; `sender` is the peer whose ids are counted. -/
structure Ground (sender : Int) (w : Network) : Prop where
  sized : ∀ peer, (w.peers peer).Sized
  bits : ∀ peer, (w.peers peer).BitsMatch
  packets : ∀ dg ∈ w.sent, dg.packet.thisBytes ≤ kFragmentSize ∧ dg.packet.thisBytes ≤ dg.packet.payload.length
  counter : (w.peers sender).eventId = BitVec.ofNat 64 (w.count sender)
  ids : ∀ a ∈ w.accepted, a.sender = sender → ∃ k < w.count sender, a.eventId = BitVec.ofNat 64 k
  small : ∀ a ∈ w.accepted, a.eventPayload.length + a.eventName.length + 2 < kMaxPacketSize

/-- No trace of an id that was not given to an event yet. -/
structure Fresh (receiver sender : Int) (eventId : EventId) (w : Network) : Prop where
  send : (w.peers sender).sendList[eventId]? = none
  data : ∀ dg ∈ w.sent, dg.source = sender → dg.packet.thisBytes ≠ 0 → dg.packet.eventId ≠ eventId
  acks : ∀ dg ∈ w.sent, dg.source = receiver → dg.target = sender → dg.packet.thisBytes = 0 →
    dg.packet.eventId ≠ eventId
  entry : (w.peers receiver).receiveList[(sender, eventId)]? = none
  queued : w.queuedFor receiver sender eventId = []

/-- The sender of an accepted event, and the network between it and one receiver. -/
structure Sending (receiver : Int) (a : Accepted) (w : Network) : Prop where
  sendPayload : ∀ event : SendEvent, (w.peers a.sender).sendList[a.eventId]? = some event → event.sendPayload = a.bytes
  acked : ∀ (event : SendEvent) (d : PerTargetData) i, (w.peers a.sender).sendList[a.eventId]? = some event →
    event.targetData[receiver]? = some (some d) → d.ackBits.getD i false = true → w.Got receiver a i
  pending : ∀ event : SendEvent, (w.peers a.sender).sendList[a.eventId]? = some event → receiver ∈ event.targets →
    ∃ d : PerTargetData, event.targetData[receiver]? = some (some d)
  registered : receiver ∈ a.targets → receiver ∈ (w.peers a.sender).targets
  dropped : receiver ∈ a.targets →
    (∀ event : SendEvent, (w.peers a.sender).sendList[a.eventId]? = some event → receiver ∉ event.targets) →
    ∀ i < packetCount a.bytes, w.Got receiver a i
  data : ∀ dg ∈ w.sent, dg.source = a.sender → dg.packet.thisBytes ≠ 0 → dg.packet.eventId = a.eventId →
    ∃ i < packetCount a.bytes, dg.packet = a.packet i
  acks : ∀ dg ∈ w.sent, dg.source = receiver → dg.target = a.sender → dg.packet.thisBytes = 0 →
    dg.packet.eventId = a.eventId → dg.packet.packetIdx < packetCount a.bytes ∧ w.Got receiver a dg.packet.packetIdx

/-- The receiver of an accepted event: its entry collects the event, and the event is
queued at most once, when the entry is completed. -/
structure Receiving (receiver : Int) (a : Accepted) (w : Network) : Prop where
  entry : ∀ event : ReceiveEvent, (w.peers receiver).receiveList[(a.sender, a.eventId)]? = some event →
    Collecting a.bytes (w.Got receiver a) event
  unqueued : (∀ event : ReceiveEvent, (w.peers receiver).receiveList[(a.sender, a.eventId)]? = some event →
    event.completed = false) → w.queuedFor receiver a.sender a.eventId = []
  once : (w.queuedFor receiver a.sender a.eventId).length ≤ 1
  exact : ∀ q ∈ w.queuedFor receiver a.sender a.eventId, q.eventName = a.eventName ∧ q.eventPayload = a.eventPayload

section Step

variable {latency : Int → Int} {w w' : Network} {receiver sender : Int} {eventId : EventId}

@[simp] theorem put_peers (peer : Int) (o : Outcome) (x : Int) :
    (w.put peer o).peers x = if x = peer then o.component else w.peers x := by
  rw [put]
  exact Function.update_apply ..

/-- What a receiver parses out of the datagram of `sent`. -/
structure Parsed (sent received : EventPacket) : Prop where
  eventId : received.eventId = sent.eventId
  packetIdx : received.packetIdx = sent.packetIdx % 2 ^ 17
  totalPackets : received.totalPackets = sent.totalPackets % 2 ^ 17
  thisBytes : received.thisBytes = sent.thisBytes
  payload : received.payload.take received.thisBytes = sent.payload.take sent.thisBytes

/-- One step of the network is one call at one peer, and packets come from the network. -/
structure Taken (latency : Int → Int) (w w' : Network) (peer : Int) (x : Call) (o : Outcome) : Prop where
  call : (w.peers peer).call latency x = some o
  peers : ∀ p, w'.peers p = if p = peer then o.component else w.peers p
  sent : w'.sent = w.sent ++ o.sends.map fun send => ⟨peer, send.1, send.2⟩
  queued : w'.queued = w.queued ++ o.queued.toList.map (peer, ·)
  accepted : w'.accepted = w.accepted ++ ((w.peers peer).accepts peer x).toList
  delivered : ∀ dg ∈ w.delivered, dg ∈ w'.delivered
  arrived : ∀ d, x = .handlePacket d → ∃ dg ∈ w.sent, dg ∈ w'.delivered ∧ dg.target = peer ∧ dg.source = d.source ∧
    ∃ packet, d.packet = some packet ∧ Parsed dg.packet packet

theorem step_taken (hground : w.Ground sender) {action : Action} (h : w.step latency action = some w') :
    ∃ peer x o, Taken latency w w' peer x o ∧ (action = .call peer x ∨ ∃ d, x = .handlePacket d) := by
  cases action with
  | call peer x =>
    have hlocal : ∀ d, x ≠ .handlePacket d := by
      rintro d rfl
      cases h
    have hbind : (((w.peers peer).call latency x).bind fun o =>
        some { w.put peer o with accepted := w.accepted ++ ((w.peers peer).accepts peer x).toList }) = some w' := by
      cases x with
      | handlePacket d => exact absurd rfl (hlocal d)
      | _ => exact h
    obtain ⟨o, ho, hw⟩ := Option.bind_eq_some_iff.mp hbind
    obtain rfl := Option.some.inj hw
    exact ⟨peer, x, o, ⟨ho, put_peers peer o, rfl, rfl, rfl, fun _ hdg => hdg, fun d hd => absurd hd (hlocal d)⟩,
      Or.inl rfl⟩
  | deliver dg stack now limit hstack =>
    rw [step] at h
    split at h
    · rename_i hmem
      obtain ⟨hsize, hpayload⟩ := hground.packets dg hmem
      obtain ⟨data, hdata, hlayout⟩ := EventPacket.datagram_layout _ hsize hpayload
      obtain ⟨payload, hparse, -, htake⟩ := EventPacket.parse_datagram hlayout hsize hpayload hstack
      rw [hdata, Option.bind_eq_bind, Option.bind_some] at h
      obtain ⟨o, ho, hw⟩ := Option.bind_eq_some_iff.mp h
      obtain rfl := Option.some.inj hw
      refine ⟨dg.target, .handlePacket ⟨dg.source, data, stack, now, limit, hstack⟩, o,
        ⟨ho, put_peers _ o, rfl, rfl, (List.append_nil _).symm, fun x hx => List.mem_append_left _ hx, ?_⟩,
          Or.inr ⟨_, rfl⟩⟩
      rintro d ⟨rfl⟩
      refine ⟨dg, hmem, List.mem_append_right _ (List.mem_singleton_self dg), rfl, rfl,
        ⟨dg.packet.eventId, dg.packet.packetIdx % 2 ^ 17, dg.packet.totalPackets % 2 ^ 17,
          dg.packet.thisBytes, payload⟩,
        ?_, ⟨rfl, rfl, rfl, rfl, htake⟩⟩
      rw [Delivery.packet, hparse]
      rfl
    · cases h

theorem accepts_id {c : EventReassemblyComponentImpl} {peer : Int} {x : Call} {b : Accepted}
    (h : c.accepts peer x = some b) : b.sender = peer ∧ b.eventId = c.eventId := by
  cases x with
  | triggerEvent target name payload bps =>
    obtain ⟨targets, -, rfl⟩ := Option.map_eq_some_iff.mp h
    exact ⟨rfl, rfl⟩
  | _ => cases h

/-- A call is not accepted for an event, or adds one event under the next id. -/
theorem call_accepts {c : EventReassemblyComponentImpl} {peer : Int} {a : Call} {o : Outcome}
    (hsized : c.Sized) (h : c.call latency a = some o) :
    (c.accepts peer a = none ∧ o.component.eventId = c.eventId ∧
      (∀ target name payload bps, a = .triggerEvent target name payload bps → o = { component := c })) ∨
    ∃ acc event, c.accepts peer a = some acc ∧ acc.sender = peer ∧ acc.eventId = c.eventId ∧
      acc.eventPayload.length + acc.eventName.length + 2 < kMaxPacketSize ∧ (∀ t ∈ acc.targets, t ∈ c.targets) ∧
      event.targets = acc.targets ∧ event.sendPayload = acc.bytes ∧
      (∀ t : Int, event.targetData[t]? = if t ∈ acc.targets then
        some (some { ackBits := List.replicate (packetCount acc.bytes) false }) else none) ∧
      (∃ target name payload bps, a = .triggerEvent target name payload bps) ∧
      o = { component := { c with
        eventId := c.eventId + 1, sendList := c.sendList.insertIfNew c.eventId event } } := by
  cases a with
  | triggerEvent target name payload bps =>
    obtain ⟨c', hc', rfl⟩ := Option.map_eq_some_iff.mp h
    rcases EventReassemblyComponentImpl.triggerEvent_cases hc' with
      ⟨hnone, rfl⟩ | ⟨targets, event, hsome, hsize, hsub, htargets, hpayload, hdata, rfl⟩
    · exact Or.inl ⟨by rw [EventReassemblyComponentImpl.accepts, hnone]; rfl, rfl, fun _ _ _ _ _ => rfl⟩
    · refine Or.inr ⟨⟨peer, c.eventId, name, payload, targets⟩, event, ?_, rfl, rfl, hsize, hsub, htargets, hpayload,
        hdata, ⟨_, _, _, _, rfl⟩, rfl⟩
      rw [EventReassemblyComponentImpl.accepts, hsome]
      rfl
  | registerTarget id =>
    cases h
    exact Or.inl ⟨rfl, rfl, fun _ _ _ _ ht => by cases ht⟩
  | unregisterTarget id =>
    cases h
    refine Or.inl ⟨rfl, ?_, fun _ _ _ _ ht => by cases ht⟩
    dsimp only
    rw [EventReassemblyComponentImpl.unregisterTarget]
    split <;> rfl
  | networkTick timeNow =>
    cases h
    exact Or.inl ⟨rfl, rfl, fun _ _ _ _ ht => by cases ht⟩
  | handlePacket d =>
    exact Or.inl ⟨rfl, (EventReassemblyComponentImpl.handlePacket_targets hsized h).2, fun _ _ _ _ ht => by cases ht⟩

section Taken

variable {peer : Int} {x : Call} {o : Outcome}

/-- What a step adds to the sent datagrams: fragments of the peer's events, and one
acknowledgement of a fragment. -/
theorem Taken.sends (h : Taken latency w w' peer x o) (hground : w.Ground sender) {dg : Datagram} (hdg : dg ∈ w'.sent)
    (hnew : dg ∉ w.sent) :
    dg.source = peer ∧
      ((∃ event d i, (w.peers peer).sendList[dg.packet.eventId]? = some event ∧
        event.targetData[dg.target]? = some (some d) ∧ i < packetCount event.sendPayload ∧
        dg.packet = fragment dg.packet.eventId event.sendPayload (packetCount event.sendPayload) i ∧
        dg.packet.thisBytes ≠ 0) ∨
      ∃ d packet, x = .handlePacket d ∧ d.source = dg.target ∧ d.packet = some packet ∧ packet.thisBytes ≠ 0 ∧
        dg.packet = { packet with thisBytes := 0 }) := by
  rw [h.sent] at hdg
  obtain ⟨send, hsend, rfl⟩ := List.mem_map.mp ((List.mem_append.mp hdg).resolve_left hnew)
  refine ⟨rfl, ?_⟩
  rcases EventReassemblyComponentImpl.call_sends (hground.sized peer) h.call hsend with
    ⟨id, event, d, i, hevent, hd, hi, hfragment⟩ | ⟨d, packet, hx, hpacket, hthis, hsend⟩
  · have hlen := hground.bits peer _ _ _ _ hevent hd
    dsimp only
    rw [hfragment, hlen]
    rw [hlen] at hi
    exact Or.inl ⟨event, d, i, hevent, hd, hi, rfl, fragment_thisBytes_ne_zero hi⟩
  · rw [hsend]
    exact Or.inr ⟨d, packet, hx, rfl, hpacket, hthis, rfl⟩

/-- An event that a step is accepted for is the only one that `accepted` gains. -/
theorem Taken.mem_accepted (h : Taken latency w w' peer x o) {b : Accepted} :
    b ∈ w'.accepted ↔ b ∈ w.accepted ∨ (w.peers peer).accepts peer x = some b := by
  rw [h.accepted, List.mem_append, Option.mem_toList]

theorem Taken.count (h : Taken latency w w' peer x o) (sender : Int) :
    w'.count sender = w.count sender + if peer = sender ∧ ((w.peers peer).accepts peer x).isSome then 1 else 0 := by
  rw [Network.count, Network.count, h.accepted, List.countP_append]
  cases haccepts : (w.peers peer).accepts peer x with
  | none => simp
  | some b =>
    have hsender : b.sender = peer := (accepts_id haccepts).1
    simp [hsender]

theorem Ground.step (hground : w.Ground sender) (h : Taken latency w w' peer x o) : w'.Ground sender := by
  refine ⟨fun p => ?_, fun p => ?_, fun dg hdg => ?_, ?_, fun b hb hsender => ?_, fun b hb => ?_⟩
  · rw [h.peers]
    split
    · exact (hground.sized peer).call h.call
    · exact hground.sized p
  · rw [h.peers]
    split
    · exact (hground.bits peer).call (hground.sized peer) h.call
    · exact hground.bits p
  · by_cases hold : dg ∈ w.sent
    · exact hground.packets dg hold
    · obtain ⟨-, ⟨event, d, i, -, -, -, hfragment, -⟩ | ⟨d, packet, -, -, -, -, hack⟩⟩ := h.sends hground hdg hold
      · obtain ⟨hsize, hlen⟩ :=
          fragment_thisBytes dg.packet.eventId event.sendPayload (packetCount event.sendPayload) i
        rw [hfragment]
        exact ⟨hsize, hlen.le⟩
      · rw [hack]
        exact ⟨Nat.zero_le _, Nat.zero_le _⟩
  · have hcounter := hground.counter
    rw [h.peers, h.count]
    by_cases hpeer : sender = peer
    · subst hpeer
      rw [if_pos rfl]
      rcases call_accepts (hground.sized sender) h.call with
        ⟨hnone, hid, -⟩ | ⟨acc, event, hsome, -, -, -, -, -, -, -, -, rfl⟩
      · rw [hnone, hid, hcounter]
        simp
      · rw [hsome, hcounter]
        simp [BitVec.ofNat_add]
    · rw [if_neg hpeer, if_neg (fun hboth => hpeer hboth.1.symm)]
      exact hcounter
  · rw [h.count]
    rcases h.mem_accepted.mp hb with hold | hnew
    · obtain ⟨k, hk, hid⟩ := hground.ids b hold hsender
      exact ⟨k, by omega, hid⟩
    · have hpeer : peer = sender := (accepts_id hnew).1.symm.trans hsender
      rw [if_pos ⟨hpeer, by rw [hnew]; rfl⟩]
      refine ⟨w.count sender, by omega, ?_⟩
      rw [(accepts_id hnew).2, hpeer, hground.counter]
  · rcases h.mem_accepted.mp hb with hold | hnew
    · exact hground.small b hold
    · rcases call_accepts (hground.sized peer) h.call with
        ⟨hnone, -, -⟩ | ⟨acc, event, hsome, -, -, hsmall, -⟩
      · rw [hnone] at hnew
        cases hnew
      · rw [hsome] at hnew
        cases hnew
        exact hsmall

end Taken

end Step

end Network

end fx
