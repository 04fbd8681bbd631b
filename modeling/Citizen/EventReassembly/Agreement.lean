import Citizen.EventReassembly.Tracking

open Bits rl Std OrderedMap Transition

namespace fx

theorem Evolves.mono {acked acked' : Int → Nat → Prop} {before after : SendEvent} (h : Evolves acked before after)
    (hacked : ∀ target i, acked target i → acked' target i) : Evolves acked' before after := by
  refine ⟨h.sendPayload, fun target d' hd' => ?_, h.kept⟩
  obtain ⟨d, hd, hlen, hbits⟩ := h.known target d' hd'
  exact ⟨d, hd, hlen, fun i hi => (hbits i hi).imp_right (hacked target i)⟩

namespace Network

/-- Nothing interferes with the events of `sender` at `receiver`: neither unregisters the
other, and the entry of `eventId` is not collected. -/
def Undisturbed (receiver sender : Int) (eventId : EventId) (w : Network) : Action → Prop
  | .call peer (.unregisterTarget id) => ¬ (peer = sender ∧ id = receiver) ∧ ¬ (peer = receiver ∧ id = sender)
  | .call peer (.networkTick timeNow) => peer = receiver →
      ∀ event : ReceiveEvent, (w.peers receiver).receiveList[(sender, eventId)]? = some event →
        ¬ (event.completed = true ∧ 120000 ≤ timeNow - event.timeLastAck)
  | _ => True

/-- An undisturbed call, peer by peer. -/
structure Calm (receiver sender : Int) (eventId : EventId) (w : Network) (peer : Int) (x : Call) : Prop where
  keepsReceiver : peer = sender → x ≠ .unregisterTarget receiver
  keepsSender : peer = receiver → x ≠ .unregisterTarget sender
  keepsEntry : peer = receiver → ∀ (timeNow : Int) (event : ReceiveEvent), x = .networkTick timeNow →
    (w.peers receiver).receiveList[(sender, eventId)]? = some event →
      ¬ (event.completed = true ∧ 120000 ≤ timeNow - event.timeLastAck)

section Step

variable {latency : Int → Int} {w w' : Network} {receiver sender : Int} {eventId : EventId} {peer : Int} {x : Call}
  {o : Outcome} {a : Accepted}

theorem Undisturbed.calm {action : Action} (h : w.Undisturbed receiver sender eventId action)
    (hx : action = .call peer x ∨ ∃ d, x = .handlePacket d) : w.Calm receiver sender eventId peer x := by
  rcases hx with rfl | ⟨d, rfl⟩
  · refine ⟨?_, ?_, ?_⟩
    · rintro hpeer rfl
      exact h.1 ⟨hpeer, rfl⟩
    · rintro hpeer rfl
      exact h.2 ⟨hpeer, rfl⟩
    · rintro hpeer timeNow event rfl
      exact h hpeer event
  · refine ⟨?_, ?_, ?_⟩
    · rintro - ⟨⟩
    · rintro - ⟨⟩
    · rintro - timeNow event ⟨⟩

theorem Taken.got (h : Taken latency w w' peer x o) {i : Nat} (hgot : w.Got receiver a i) : w'.Got receiver a i :=
  h.delivered _ hgot

/-- A step that does not give the id to a new event leaves the sender's list alone, or is
a call other than `TriggerEvent` at the sender. -/
theorem Taken.sendList_cases (h : Taken latency w w' peer x o) (hground : w.Ground sender)
    (hother : ∀ b, (w.peers peer).accepts peer x = some b → ¬ (b.sender = sender ∧ b.eventId = eventId)) :
    (w'.peers sender).sendList[eventId]? = (w.peers sender).sendList[eventId]? ∨
      peer = sender ∧ w'.peers sender = o.component ∧ ∀ target name payload bps,
        x ≠ .triggerEvent target name payload bps := by
  have hpeers := h.peers sender
  by_cases hpeer : sender = peer
  · subst hpeer
    rw [if_pos rfl] at hpeers
    rcases call_accepts (hground.sized sender) h.call with
      ⟨-, -, hskip⟩ | ⟨acc, event, hsome, hsender, hid, -, -, -, -, -, -, rfl⟩
    · by_cases htrigger : ∃ target name payload bps, x = .triggerEvent target name payload bps
      · obtain ⟨target, name, payload, bps, hx⟩ := htrigger
        rw [hpeers, hskip target name payload bps hx]
        exact Or.inl rfl
      · exact Or.inr ⟨rfl, hpeers, fun target name payload bps hx => htrigger ⟨target, name, payload, bps, hx⟩⟩
    · left
      rw [hpeers]
      dsimp only
      rw [EventReassemblyComponentImpl.insertIfNew_sendList, if_neg]
      rintro ⟨heq, -⟩
      exact hother acc hsome ⟨hsender, hid.trans heq⟩
  · rw [hpeers, if_neg hpeer]
    exact Or.inl rfl

theorem Taken.evolves (h : Taken latency w w' peer x o) (hground : w.Ground sender)
    (hother : ∀ b, (w.peers peer).accepts peer x = some b → ¬ (b.sender = sender ∧ b.eventId = eventId))
    {after : SendEvent} (hafter : (w'.peers sender).sendList[eventId]? = some after) :
    ∃ before, (w.peers sender).sendList[eventId]? = some before ∧
      Evolves (fun target i => peer = sender ∧ x.Acks eventId target i) before after := by
  rcases h.sendList_cases hground hother with hsame | ⟨rfl, hpeers, hx⟩
  · exact ⟨after, hsame ▸ hafter, .refl after⟩
  · obtain ⟨before, hbefore, hev⟩ :=
      EventReassemblyComponentImpl.call_evolves (hground.sized peer) h.call hx (hpeers ▸ hafter)
    exact ⟨before, hbefore, hev.mono fun _ _ hacks => ⟨rfl, hacks⟩⟩

theorem Taken.dropped (h : Taken latency w w' peer x o) (hground : w.Ground sender)
    (hother : ∀ b, (w.peers peer).accepts peer x = some b → ¬ (b.sender = sender ∧ b.eventId = eventId))
    {before : SendEvent} (hbefore : (w.peers sender).sendList[eventId]? = some before)
    (hmem : receiver ∈ before.targets)
    (hreg : receiver ∈ (w.peers sender).targets) (hstay : peer = sender → x ≠ .unregisterTarget receiver)
    (hgone : ∀ after : SendEvent, (w'.peers sender).sendList[eventId]? = some after → receiver ∉ after.targets) :
    ∃ d : PerTargetData, before.targetData[receiver]? = some (some d) ∧ d.Finished := by
  rcases h.sendList_cases hground hother with hsame | ⟨rfl, hpeers, hx⟩
  · exact absurd hmem (hgone before (hsame.trans hbefore))
  · exact EventReassemblyComponentImpl.call_dropped (hground.sized peer) h.call hx (hstay rfl) hbefore hmem hreg
      (hpeers ▸ hgone)

/-- The datagrams of an event that was accepted. -/
theorem Sending.sent (h : w.Sending receiver a) (hground : w.Ground a.sender) (htaken : Taken latency w w' peer x o) :
    ∀ dg ∈ w'.sent, dg.source = a.sender → dg.packet.thisBytes ≠ 0 → dg.packet.eventId = a.eventId →
      ∃ i < packetCount a.bytes, dg.packet = a.packet i := by
  intro dg hdg hsource hthis hid
  by_cases hold : dg ∈ w.sent
  · exact h.data dg hold hsource hthis hid
  · obtain ⟨hpeer, ⟨event, d, i, hevent, -, hi, hfragment, -⟩ | ⟨d, packet, -, -, -, -, hack⟩⟩ :=
      htaken.sends hground hdg hold
    · rw [hid, ← hpeer, hsource] at hevent
      rw [hid, h.sendPayload event hevent] at hfragment
      exact ⟨i, h.sendPayload event hevent ▸ hi, hfragment⟩
    · rw [hack] at hthis
      exact absurd rfl hthis

/-- A fragment of the event that arrives at the receiver. -/
theorem Sending.arrived (h : w.Sending receiver a) (hfits : a.Fits) (htaken : Taken latency w w' receiver x o)
    {d : Delivery} {packet : EventPacket} (hx : x = .handlePacket d) (hsource : d.source = a.sender)
    (hpacket : d.packet = some packet)
    (hthis : packet.thisBytes ≠ 0) (hid : packet.eventId = a.eventId) :
    packet.packetIdx < packetCount a.bytes ∧ packet.totalPackets = packetCount a.bytes ∧
      packet.payload.take packet.thisBytes = slot a.bytes packet.packetIdx ∧ w'.Got receiver a packet.packetIdx := by
  obtain ⟨dg, hsent, hdelivered, htarget, hdgSource, packet', hpacket', hparsed⟩ := htaken.arrived d hx
  obtain rfl := Option.some.inj (hpacket.symm.trans hpacket')
  obtain ⟨i, hi, heq⟩ := h.data dg hsent (hdgSource.trans hsource) (hparsed.thisBytes ▸ hthis) (hparsed.eventId ▸ hid)
  have hlt := hfits.packets
  have hidx : packet.packetIdx = i := by
    rw [hparsed.packetIdx, heq]
    exact Nat.mod_eq_of_lt (hi.trans hlt)
  have htotal : packet.totalPackets = packetCount a.bytes := by
    rw [hparsed.totalPackets, heq]
    exact Nat.mod_eq_of_lt hlt
  have hpayload : packet.payload.take packet.thisBytes = slot a.bytes i := by
    rw [hparsed.payload, heq, ← fragment_payload a.eventId a.bytes (packetCount a.bytes) i]
    exact List.take_of_length_le (fragment_thisBytes ..).2.ge
  refine ⟨hidx ▸ hi, htotal, hidx ▸ hpayload, ?_⟩
  rw [Got, hidx, ← heq, ← htarget, ← hsource, ← hdgSource]
  exact hdelivered

/-- A step keeps the sender's side of an accepted event. -/
theorem Sending.step (h : w.Sending receiver a) (hground : w.Ground a.sender) (hfits : a.Fits)
    (htaken : Taken latency w w' peer x o) (hcalm : w.Calm receiver a.sender a.eventId peer x)
    (hother : ∀ b, (w.peers peer).accepts peer x = some b → ¬ (b.sender = a.sender ∧ b.eventId = a.eventId)) :
    w'.Sending receiver a := by
  have hacked : ∀ i, peer = a.sender ∧ x.Acks a.eventId receiver i → w'.Got receiver a i := by
    rintro i ⟨hpeer, d, packet, hx, hsource, hpacket, hthis, hid, rfl⟩
    obtain ⟨dg, hsent, -, htarget, hdgSource, packet', hpacket', hparsed⟩ := htaken.arrived d hx
    obtain rfl := Option.some.inj (hpacket.symm.trans hpacket')
    obtain ⟨hlt, hgot⟩ := h.acks dg hsent (hdgSource.trans hsource) (htarget.trans hpeer) (hparsed.thisBytes ▸ hthis)
      (hparsed.eventId ▸ hid)
    rw [hparsed.packetIdx, Nat.mod_eq_of_lt (hlt.trans hfits.packets)]
    exact htaken.got hgot
  refine ⟨fun after hafter => ?_, fun after d' i hafter hd' hi => ?_, fun after hafter hmem => ?_, fun htarget => ?_,
    fun htarget hgone i hi => ?_, h.sent hground htaken, fun dg hdg hsource htarget hthis hid => ?_⟩
  · obtain ⟨before, hbefore, hev⟩ := htaken.evolves hground hother hafter
    exact hev.sendPayload.trans (h.sendPayload before hbefore)
  · obtain ⟨before, hbefore, hev⟩ := htaken.evolves hground hother hafter
    obtain ⟨d, hd, -, hbit⟩ := hev.known receiver d' hd'
    rcases hbit i hi with hold | hnew
    · exact htaken.got (h.acked before d i hbefore hd hold)
    · exact hacked i hnew
  · obtain ⟨before, hbefore, hev⟩ := htaken.evolves hground hother hafter
    obtain ⟨hold, hkept⟩ := hev.kept receiver hmem
    exact hkept (h.pending before hbefore hold)
  · rw [htaken.peers]
    split
    · rename_i hpeer
      exact EventReassemblyComponentImpl.call_targets (hpeer ▸ hground.sized a.sender) htaken.call
        (hcalm.keepsReceiver hpeer.symm) (hpeer ▸ h.registered htarget)
    · exact h.registered htarget
  · by_cases hpresent : ∃ before : SendEvent, (w.peers a.sender).sendList[a.eventId]? = some before ∧
        receiver ∈ before.targets
    · obtain ⟨before, hbefore, hmem⟩ := hpresent
      obtain ⟨d, hd, hfinished⟩ :=
        htaken.dropped hground hother hbefore hmem (h.registered htarget) hcalm.keepsReceiver hgone
      have hlen := hground.bits a.sender _ _ _ _ hbefore hd
      rw [h.sendPayload before hbefore] at hlen
      exact htaken.got (h.acked before d i hbefore hd (hfinished i (hlen ▸ hi)))
    · exact htaken.got (h.dropped htarget (fun before hbefore hmem => hpresent ⟨before, hbefore, hmem⟩) i hi)
  · by_cases hold : dg ∈ w.sent
    · obtain ⟨hlt, hgot⟩ := h.acks dg hold hsource htarget hthis hid
      exact ⟨hlt, htaken.got hgot⟩
    · obtain ⟨hpeer, ⟨event, d, i, -, -, -, -, hnonzero⟩ | ⟨d, packet, hx, hd, hpacket, hdata, hack⟩⟩ :=
        htaken.sends hground hdg hold
      · exact absurd hthis hnonzero
      · rw [hack] at hid ⊢
        obtain rfl : receiver = peer := hsource.symm.trans hpeer
        obtain ⟨hlt, -, -, hgot⟩ := h.arrived hfits htaken hx (hd.trans htarget) hpacket hdata hid
        exact ⟨hlt, hgot⟩

/-- The queue after a step, for one id of one sender. -/
theorem Taken.queuedFor (h : Taken latency w w' peer x o) (receiver sender : Int) (eventId : EventId) :
    w'.queuedFor receiver sender eventId = w.queuedFor receiver sender eventId ++
      if peer = receiver then o.queued.toList.filter fun q => q.source = sender ∧ q.eventId = eventId else [] := by
  rw [Network.queuedFor, Network.queuedFor, h.queued, List.filter_append, List.map_append]
  congr 1
  cases o.queued with
  | none => simp
  | some q =>
    by_cases hpeer : peer = receiver
    · by_cases hq : q.source = sender ∧ q.eventId = eventId
      · simp [hpeer, hq]
      · simp [hpeer, hq]
    · simp [hpeer]

/-- A step that delivers no fragment of the event to the receiver leaves its entry alone
and queues nothing for it. -/
theorem Taken.entry_same (h : Taken latency w w' peer x o) (hground : w.Ground sender)
    (hcalm : w.Calm receiver sender eventId peer x)
    (hother : peer = receiver → ∀ d packet, x = .handlePacket d → d.packet = some packet → packet.thisBytes ≠ 0 →
      (d.source, packet.eventId) ≠ (sender, eventId)) :
    (w'.peers receiver).receiveList[(sender, eventId)]? = (w.peers receiver).receiveList[(sender, eventId)]? ∧
      w'.queuedFor receiver sender eventId = w.queuedFor receiver sender eventId := by
  rw [h.queuedFor, h.peers]
  by_cases hpeer : receiver = peer
  · subst hpeer
    rw [if_pos rfl, if_pos rfl]
    by_cases hdelivery : ∃ d, x = .handlePacket d
    · obtain ⟨d, rfl⟩ := hdelivery
      have hcall : (w.peers receiver).handlePacket d.source d.data d.stack d.now d.limit = some o := h.call
      cases hpacket : d.packet with
      | none =>
        rw [EventReassemblyComponentImpl.handlePacket_none hpacket] at hcall
        cases hcall
        exact ⟨rfl, List.append_nil _⟩
      | some packet =>
        obtain ⟨-, htotal, -⟩ := d.packet_spec.2 packet hpacket
        by_cases hack : packet.thisBytes = 0
        · rw [EventReassemblyComponentImpl.handlePacket_ack hpacket hack] at hcall
          cases hcall
          rw [(EventReassemblyComponentImpl.handleAck_receiveList ..).1]
          exact ⟨rfl, List.append_nil _⟩
        · have hkey := hother rfl d packet rfl hpacket hack
          rw [EventReassemblyComponentImpl.handlePacket_fragment hpacket hack] at hcall
          rcases EventReassemblyComponentImpl.handleFragment_cases
            ((hground.sized receiver).receiveEvent htotal).1 hcall with ⟨-, rfl⟩ | ⟨-, -, rfl⟩ | ⟨parsed, -, -, -, rfl⟩
          · rw [EventReassemblyComponentImpl.putReceiveEvent_receiveList, if_neg hkey]
            exact ⟨rfl, List.append_nil _⟩
          · rw [EventReassemblyComponentImpl.putReceiveEvent_receiveList, if_neg hkey]
            exact ⟨rfl, List.append_nil _⟩
          · dsimp only
            rw [EventReassemblyComponentImpl.putReceiveEvent_receiveList, if_neg hkey]
            refine ⟨rfl, ?_⟩
            have hmiss : ¬ (d.source = sender ∧ packet.eventId = eventId) :=
              fun hboth => hkey (Prod.ext hboth.1 hboth.2)
            cases d.limit with
            | true => simp
            | false => simp [hmiss]
    · obtain ⟨hentry, hqueued⟩ := EventReassemblyComponentImpl.call_entry h.call (fun d hd => hdelivery ⟨d, hd⟩)
        (sender, eventId) (hcalm.keepsSender rfl) (hcalm.keepsEntry rfl)
      rw [hqueued]
      exact ⟨hentry, List.append_nil _⟩
  · rw [if_neg hpeer, if_neg (Ne.symm hpeer)]
    exact ⟨rfl, List.append_nil _⟩

private theorem Receiving.of_entry (new : ReceiveEvent)
    (hentry : (w.peers receiver).receiveList[(a.sender, a.eventId)]? = some new)
    (hnew : Collecting a.bytes (w.Got receiver a) new)
    (hopen : new.completed = false → w.queuedFor receiver a.sender a.eventId = [])
    (honce : (w.queuedFor receiver a.sender a.eventId).length ≤ 1)
    (hexact : ∀ q ∈ w.queuedFor receiver a.sender a.eventId, q.eventName = a.eventName ∧
      q.eventPayload = a.eventPayload) :
    w.Receiving receiver a := by
  refine ⟨fun event hevent => ?_, fun hall => hopen (hall new hentry), honce, hexact⟩
  obtain rfl := Option.some.inj (hentry.symm.trans hevent)
  exact hnew

/-- A fragment of the event that arrives is skipped, kept, or completes the entry. -/
private theorem Receiving.arrived (h : w.Receiving receiver a) (hsending : w.Sending receiver a)
    (hground : w.Ground a.sender) (hmem : a ∈ w.accepted) (hfits : a.Fits) {d : Delivery} {packet : EventPacket}
    (htaken : Taken latency w w' receiver (.handlePacket d) o) (hsource : d.source = a.sender)
    (hpacket : d.packet = some packet) (hthis : packet.thisBytes ≠ 0) (hid : packet.eventId = a.eventId) :
    w'.Receiving receiver a := by
  obtain ⟨hidx, htotal, hpayload, hgot⟩ := hsending.arrived hfits htaken rfl hsource hpacket hthis hid
  have hcall : (w.peers receiver).handlePacket d.source d.data d.stack d.now d.limit = some o := htaken.call
  obtain ⟨-, hwidth, -⟩ := d.packet_spec.2 packet hpacket
  rw [EventReassemblyComponentImpl.handlePacket_fragment hpacket hthis, hsource] at hcall
  have hcases := EventReassemblyComponentImpl.handleFragment_cases
    ((hground.sized receiver).receiveEvent hwidth).1 hcall
  have hold : Collecting a.bytes (w'.Got receiver a) ((w.peers receiver).receiveEvent a.sender packet) := by
    rw [EventReassemblyComponentImpl.receiveEvent, hid, htotal]
    cases hget : (w.peers receiver).receiveList[(a.sender, a.eventId)]? with
    | none => exact .start a.sender
    | some event => exact (h.entry event hget).mono fun i => htaken.got
  have hopen : ((w.peers receiver).receiveEvent a.sender packet).completed = false →
      w.queuedFor receiver a.sender a.eventId = [] := by
    intro hcompleted
    refine h.unqueued fun before hbefore => ?_
    rw [EventReassemblyComponentImpl.receiveEvent, hid, hbefore] at hcompleted
    exact hcompleted
  have hqueued := htaken.queuedFor receiver a.sender a.eventId
  have hpeers := htaken.peers receiver
  rw [if_pos rfl] at hqueued hpeers
  have hput : ∀ new : ReceiveEvent, ((w.peers receiver).putReceiveEvent a.sender packet.eventId new).receiveList[
      (a.sender, a.eventId)]? = some new := fun new => by
    rw [EventReassemblyComponentImpl.putReceiveEvent_receiveList, if_pos (by rw [hid])]
  generalize (w.peers receiver).receiveEvent a.sender packet = event at hcases hold hopen
  rcases hcases with ⟨-, rfl⟩ | ⟨-, -, rfl⟩ | ⟨parsed, hskip, hfull, hparsed, rfl⟩
  · replace hqueued := hqueued.trans (List.append_nil _)
    refine .of_entry { event with timeLastAck := d.now } ?_ hold.acked
      (fun hcompleted => hqueued.trans (hopen hcompleted)) ?_ ?_
    · rw [hpeers]
      exact hput _
    · exact hqueued ▸ h.once
    · exact hqueued ▸ h.exact
  · replace hqueued := hqueued.trans (List.append_nil _)
    refine .of_entry _ (by rw [hpeers, hput]) (hold.keep hidx hpayload hgot)
      (fun hcompleted => hqueued.trans (hopen hcompleted)) ?_ ?_
    · exact hqueued ▸ h.once
    · exact hqueued ▸ h.exact
  · have hcompleted : event.completed = false := (Bool.or_eq_false_iff.mp hskip).1
    have heq := (hold.keep hidx hpayload hgot).handleReceivedPacket_eq hfull hcompleted
      (hground.sized receiver).array hfits.name_length hfits.name_nul (hground.small a hmem) hparsed
    rw [hopen hcompleted, List.nil_append] at hqueued
    refine .of_entry (event.keep packet d.now).complete ?_ (hold.keep hidx hpayload hgot).complete
      (fun hfalse => by cases hfalse) ?_ ?_
    · rw [hpeers]
      exact hput _
    · rw [hqueued]
      refine (List.length_filter_le ..).trans ?_
      cases d.limit <;> simp
    · intro q hq
      rw [hqueued] at hq
      have hmem := (List.mem_filter.mp hq).1
      cases hlimit : d.limit with
      | true => simp [hlimit] at hmem
      | false =>
        simp only [hlimit, Bool.false_eq_true, if_false, Option.toList_some, List.mem_singleton] at hmem
        rw [hmem, heq]
        exact ⟨rfl, rfl⟩

/-- A step keeps the receiver's side of an accepted event. -/
theorem Receiving.step (h : w.Receiving receiver a) (hsending : w.Sending receiver a) (hground : w.Ground a.sender)
    (hmem : a ∈ w.accepted) (hfits : a.Fits) (htaken : Taken latency w w' peer x o)
    (hcalm : w.Calm receiver a.sender a.eventId peer x) : w'.Receiving receiver a := by
  by_cases hfragment : peer = receiver ∧ ∃ d packet, x = .handlePacket d ∧ d.packet = some packet ∧
      packet.thisBytes ≠ 0 ∧ d.source = a.sender ∧ packet.eventId = a.eventId
  · obtain ⟨rfl, d, packet, rfl, hpacket, hthis, hsource, hid⟩ := hfragment
    exact h.arrived hsending hground hmem hfits htaken hsource hpacket hthis hid
  · obtain ⟨hentry, hqueued⟩ := htaken.entry_same hground hcalm (by
      rintro hpeer d packet hx hpacket hthis hkey
      obtain ⟨hsource, hid⟩ := Prod.mk.inj hkey
      exact hfragment ⟨hpeer, d, packet, hx, hpacket, hthis, hsource, hid⟩)
    refine ⟨fun event hevent => (h.entry event (hentry ▸ hevent)).mono fun i => htaken.got, fun hopen => ?_, ?_, ?_⟩
    · rw [hqueued]
      exact h.unqueued fun event hevent => hopen event (hentry.trans hevent)
    · exact hqueued ▸ h.once
    · exact hqueued ▸ h.exact

/-- A step that does not give the id to an event leaves it unused. -/
theorem Fresh.step (h : w.Fresh receiver sender eventId) (hground : w.Ground sender)
    (htaken : Taken latency w w' peer x o) (hcalm : w.Calm receiver sender eventId peer x)
    (hother : ∀ b, (w.peers peer).accepts peer x = some b → ¬ (b.sender = sender ∧ b.eventId = eventId)) :
    w'.Fresh receiver sender eventId := by
  have harrived : peer = receiver → ∀ d packet, x = .handlePacket d → d.packet = some packet → packet.thisBytes ≠ 0 →
      (d.source, packet.eventId) ≠ (sender, eventId) := by
    rintro - d packet hx hpacket hthis hkey
    obtain ⟨hsource, hid⟩ := Prod.mk.inj hkey
    obtain ⟨dg, hsent, -, -, hdgSource, packet', hpacket', hparsed⟩ := htaken.arrived d hx
    obtain rfl := Option.some.inj (hpacket.symm.trans hpacket')
    exact h.data dg hsent (hdgSource.trans hsource) (hparsed.thisBytes ▸ hthis) (hparsed.eventId ▸ hid)
  obtain ⟨hentry, hqueued⟩ := htaken.entry_same hground hcalm harrived
  refine ⟨?_, fun dg hdg hsource hthis hid => ?_, fun dg hdg hsource htarget hthis hid => ?_, hentry.trans h.entry,
    hqueued.trans h.queued⟩
  · rw [Option.eq_none_iff_forall_ne_some]
    intro after hafter
    obtain ⟨before, hbefore, -⟩ := htaken.evolves hground hother hafter
    rw [h.send] at hbefore
    cases hbefore
  · by_cases hold : dg ∈ w.sent
    · exact h.data dg hold hsource hthis hid
    · obtain ⟨hpeer, ⟨event, d, i, hevent, -⟩ | ⟨d, packet, -, -, -, -, hack⟩⟩ := htaken.sends hground hdg hold
      · rw [hid, ← hpeer, hsource, h.send] at hevent
        cases hevent
      · rw [hack] at hthis
        exact hthis rfl
  · by_cases hold : dg ∈ w.sent
    · exact h.acks dg hold hsource htarget hthis hid
    · obtain ⟨hpeer, ⟨event, d, i, -, -, -, -, hnonzero⟩ | ⟨d, packet, hx, hd, hpacket, hdata, hack⟩⟩ :=
        htaken.sends hground hdg hold
      · exact hnonzero hthis
      · rw [hack] at hid
        exact harrived (hpeer.symm.trans hsource) d packet hx hpacket hdata (Prod.ext (hd.trans htarget) hid)

/-- A step that is accepted for an event starts to track it. -/
theorem Fresh.accept (h : w.Fresh receiver a.sender a.eventId) (hground : w.Ground a.sender)
    (htaken : Taken latency w w' peer x o) (hcalm : w.Calm receiver a.sender a.eventId peer x)
    (haccept : (w.peers peer).accepts peer x = some a) : w'.Sending receiver a ∧ w'.Receiving receiver a := by
  obtain rfl : a.sender = peer := (accepts_id haccept).1
  rcases call_accepts (hground.sized a.sender) htaken.call with
    ⟨hnone, -⟩ | ⟨acc, event, hsome, -, hid, -, hsub, htargets, hpayload, hdata,
      ⟨target, name, payload, bps, rfl⟩, rfl⟩
  · rw [hnone] at haccept
    cases haccept
  obtain rfl := Option.some.inj (hsome.symm.trans haccept)
  obtain ⟨hentry, hqueued⟩ := htaken.entry_same hground hcalm
    (fun _ d packet hx => by cases hx)
  have hpeers := htaken.peers acc.sender
  rw [if_pos rfl] at hpeers
  have hsend : (w'.peers acc.sender).sendList[acc.eventId]? = some event := by
    rw [hpeers]
    dsimp only
    rw [EventReassemblyComponentImpl.insertIfNew_sendList, if_pos ⟨hid.symm, h.send⟩]
  have hevent : ∀ event' : SendEvent, (w'.peers acc.sender).sendList[acc.eventId]? = some event' → event' = event :=
    fun event' hevent' => Option.some.inj (hevent'.symm.trans hsend)
  have hsent : w'.sent = w.sent := by
    rw [htaken.sent]
    exact List.append_nil _
  constructor
  · refine ⟨fun event' hevent' => ?_, fun event' d i hevent' hd hi => ?_, fun event' hevent' hmem => ?_,
      fun hmem => ?_, fun hmem hgone => ?_, fun dg hdg hsource hthis hid' => ?_,
        fun dg hdg hsource htarget hthis hid' => ?_⟩
    · rw [hevent event' hevent', hpayload]
    · rw [hevent event' hevent', hdata] at hd
      split at hd
      · cases hd
        rw [List.getD_eq_getElem?_getD, List.getElem?_replicate] at hi
        split at hi <;> cases hi
      · cases hd
    · rw [hevent event' hevent'] at hmem ⊢
      rw [hdata, if_pos (htargets ▸ hmem)]
      exact ⟨_, rfl⟩
    · rw [hpeers]
      exact hsub receiver hmem
    · exact absurd (htargets ▸ hmem) (hgone event hsend)
    · exact absurd hid' (h.data dg (hsent ▸ hdg) hsource hthis)
    · exact absurd hid' (h.acks dg (hsent ▸ hdg) hsource htarget hthis)
  · have hempty := hqueued.trans h.queued
    refine ⟨fun event' hevent' => ?_, fun _ => hempty, ?_, ?_⟩
    · rw [hentry, h.entry] at hevent'
      cases hevent'
    · rw [hempty]
      exact Nat.zero_le 1
    · rw [hempty]
      rintro q ⟨⟩

/-- What holds in every state while the ids of `sender` have not wrapped around: an id is
unused, or it belongs to one accepted event, which is tracked. -/
structure Inv (receiver sender : Int) (eventId : EventId) (w : Network) : Prop where
  fresh : (∀ a ∈ w.accepted, ¬ (a.sender = sender ∧ a.eventId = eventId)) → w.Fresh receiver sender eventId
  tracked : ∀ a ∈ w.accepted, a.sender = sender → a.eventId = eventId → a.Fits →
    w.Sending receiver a ∧ w.Receiving receiver a

/-- The next id was not given to an event yet. -/
private theorem Ground.next_unused (hground : w.Ground sender) (hroom : w.count sender < 2 ^ 64) {b : Accepted}
    (hb : b ∈ w.accepted) (hsender : b.sender = sender) : b.eventId ≠ (w.peers sender).eventId := by
  obtain ⟨k, hk, hid⟩ := hground.ids b hb hsender
  intro heq
  rw [hid, hground.counter] at heq
  have hnat := congrArg BitVec.toNat heq
  rw [BitVec.toNat_ofNat, BitVec.toNat_ofNat, Nat.mod_eq_of_lt (hk.trans hroom), Nat.mod_eq_of_lt hroom] at hnat
  omega

theorem Inv.step (h : w.Inv receiver sender eventId) (hground : w.Ground sender) (htaken : Taken latency w w' peer x o)
    (hcalm : w.Calm receiver sender eventId peer x) (hroom : w'.count sender ≤ 2 ^ 64) :
    w'.Inv receiver sender eventId := by
  have hunused : ∀ b, (w.peers peer).accepts peer x = some b → b.sender = sender →
      ∀ c ∈ w.accepted, c.sender = sender → c.eventId ≠ b.eventId := by
    intro b hb hsender c hc hcs
    have hpeer : peer = sender := (accepts_id hb).1.symm.trans hsender
    have hcount := htaken.count sender
    rw [if_pos ⟨hpeer, by rw [hb]; rfl⟩] at hcount
    rw [(accepts_id hb).2, hpeer]
    exact hground.next_unused (by omega) hc hcs
  refine ⟨fun hnone => ?_, fun a ha hsender hid hfits => ?_⟩
  · have hfresh := h.fresh fun a ha => hnone a (htaken.mem_accepted.mpr (Or.inl ha))
    exact hfresh.step hground htaken hcalm fun b hb => hnone b (htaken.mem_accepted.mpr (Or.inr hb))
  · subst hsender hid
    rcases htaken.mem_accepted.mp ha with hold | hnew
    · obtain ⟨hsending, hreceiving⟩ := h.tracked a hold rfl rfl hfits
      refine ⟨hsending.step hground hfits htaken hcalm fun b hb hsame => ?_,
        hreceiving.step hsending hground hold hfits htaken hcalm⟩
      exact hunused b hb hsame.1 a hold rfl hsame.2.symm
    · have hfresh := h.fresh fun c hc hsame => hunused a hnew rfl c hc hsame.1 hsame.2
      exact hfresh.accept hground htaken hcalm hnew

end Step

theorem create_ground (start sender : Int) : (create start).Ground sender := by
  refine ⟨fun _ => EventReassemblyComponentImpl.create_sized start,
    fun _ => EventReassemblyComponentImpl.create_bitsMatch start, ?_, rfl, ?_, ?_⟩
  · rintro dg ⟨⟩
  · rintro b ⟨⟩
  · rintro b ⟨⟩

theorem create_inv (start receiver sender : Int) (eventId : EventId) : (create start).Inv receiver sender eventId := by
  refine ⟨fun _ => ⟨?_, ?_, ?_, ?_, rfl⟩, ?_⟩
  · exact TreeMap.getElem?_emptyc
  · rintro dg ⟨⟩
  · rintro dg ⟨⟩
  · exact TreeMap.getElem?_emptyc
  · rintro b ⟨⟩

/-- Agreement on every event that fits the wire format, over a network that loses,
duplicates and reorders: `receiver` queues the event at most once and queues what was
triggered, and `sender` drops `receiver` only when all fragments were delivered to it. -/
theorem run_agreement {latency : Int → Int} {start : Int} {receiver sender : Int} {eventId : EventId}
    {actions : List Action} {w : Network}
    (hrun : Run (step latency) (Undisturbed receiver sender eventId) (create start) actions w)
    (hcount : w.count sender ≤ 2 ^ 64) {a : Accepted} (ha : a ∈ w.accepted) (hsender : a.sender = sender)
    (hid : a.eventId = eventId) (hfits : a.Fits) :
    (w.queuedFor receiver sender eventId).length ≤ 1 ∧
    (∀ q ∈ w.queuedFor receiver sender eventId, q.eventName = a.eventName ∧ q.eventPayload = a.eventPayload) ∧
    (receiver ∈ a.targets →
      (∀ event : SendEvent, (w.peers sender).sendList[eventId]? = some event → receiver ∉ event.targets) →
      ∀ i < packetCount a.bytes, w.Got receiver a i) := by
  have hinv : w.Ground sender ∧ (w.count sender ≤ 2 ^ 64 → w.Inv receiver sender eventId) := by
    refine hrun.invariant (fun w => w.Ground sender ∧ (w.count sender ≤ 2 ^ 64 → w.Inv receiver sender eventId))
      ⟨create_ground start sender, fun _ => create_inv start receiver sender eventId⟩ ?_
    rintro w action w' ⟨hground, hinv⟩ hok hstep
    obtain ⟨peer, x, o, htaken, hx⟩ := step_taken hground hstep
    refine ⟨hground.step htaken, fun hroom => ?_⟩
    have hmono : w.count sender ≤ w'.count sender := by
      rw [htaken.count]
      exact Nat.le_add_right ..
    exact (hinv (hmono.trans hroom)).step hground htaken (hok.calm hx) hroom
  subst hsender hid
  obtain ⟨hsending, hreceiving⟩ := (hinv.2 hcount).tracked a ha rfl rfl hfits
  exact ⟨hreceiving.once, hreceiving.exact, hsending.dropped⟩

section Examples

/-- The bytes of the event of peer 1 for peer 2, with the name `hi`. -/
private def hiBytes : List Byte := joined [104, 105] [1, 2, 3]

/-- Its one fragment. -/
private def hiFragment : Datagram := ⟨1, 2, fragment 0 hiBytes 1 0⟩

/-- What peer 2 parses of it over a cleared stack. -/
private def hiPacket : EventPacket := ⟨0, 0, 1, 7, hiBytes ++ List.replicate (kFragmentSize - 7) 0⟩

private def hiAck : Datagram := ⟨2, 1, { hiPacket with thisBytes := 0 }⟩

private theorem cleared_length : (List.replicate kFragmentSize (0 : Byte)).length = kFragmentSize :=
  List.length_replicate

private def arriving (d : Datagram) : Action := .deliver d (List.replicate kFragmentSize 0) 300 false cleared_length

/-- The peers register each other and peer 1 sends the event in two ticks. -/
private def hiCalls : List Action :=
  [.call 1 (.registerTarget 2), .call 2 (.registerTarget 1), .call 1 (.triggerEvent 2 [104, 105] [1, 2, 3] 0),
    .call 1 (.networkTick 1000), .call 1 (.networkTick 2000)]

/-- The fragment arrives twice, one of the acknowledgements once, and a third tick drops the event. -/
private def hiRun : List Action :=
  hiCalls ++ [arriving hiFragment, arriving hiFragment, arriving hiAck, .call 1 (.networkTick 3000)]

private def isQuiet : Action → Bool
  | .call _ (.unregisterTarget _) => false
  | .call peer (.networkTick _) => peer ≠ 2
  | _ => true

private theorem undisturbed_of_isQuiet {w : Network} {action : Action} (h : isQuiet action = true) :
    w.Undisturbed 2 1 0 action := by
  cases action with
  | deliver => trivial
  | call peer x =>
    cases x with
    | unregisterTarget => cases h
    | networkTick timeNow =>
      rintro rfl
      cases h
    | _ => trivial

private def hiStep (w : Network) (action : Action) : Option Network :=
  if isQuiet action then step (fun _ => 100) w action else none

/-- The network before the fragment arrives. -/
private def sentHi : Network := (exec hiStep (create 0) hiCalls).getD (create 0)

private theorem run_sentHi : Run (step fun _ => 100) (Undisturbed 2 1 0) (create 0) hiCalls sentHi := by
  have hend : (exec hiStep (create 0) hiCalls).isSome = true := by decide +kernel
  obtain ⟨w, hw⟩ := Option.isSome_iff_exists.mp hend
  rw [sentHi, hw]
  exact run_of_checked (fun _ _ => undisturbed_of_isQuiet) hw

/-- The entry of peer 2, when it is reassembled. -/
private def hiEvent : ReceiveEvent := (ReceiveEvent.start 1 1).keep hiPacket 300

/-- What the fragment does when it arrives first. -/
private def hiOutcome (c : EventReassemblyComponentImpl) : Outcome where
  component := { c.putReceiveEvent 1 0 hiEvent.complete with
    eventName := [104, 105] ++ 0 :: c.eventName.drop 3 }
  sends := [(1, { hiPacket with thisBytes := 0 })]
  queued := some ⟨1, 0, [104, 105], [1, 2, 3]⟩

/-- The network after the fragment has arrived once. -/
private def gotHi : Network :=
  { sentHi.put 2 (hiOutcome (sentHi.peers 2)) with delivered := sentHi.delivered ++ [hiFragment] }

private def hiData : List Byte := [0, 0, 0, 0, 0, 0, 0, 0, 0, 0, 0, 0, 64, 112, 0, 38, 134, 144, 16, 32, 48]

private theorem hiFragment_datagram : hiFragment.packet.datagram = some hiData := by decide +kernel

private def hiDelivery : Delivery := ⟨1, hiData, List.replicate kFragmentSize 0, 300, false, cleared_length⟩

private theorem hiDelivery_packet : hiDelivery.packet = some hiPacket ∧ reassembledBytes hiEvent = some hiBytes := by
  decide +kernel

private theorem sentHi_ground : sentHi.Ground 1 := by
  refine run_sentHi.invariant (fun w => w.Ground 1) (create_ground 0 1) fun hground _ hstep => ?_
  obtain ⟨peer, x, o, htaken, -⟩ := step_taken hground hstep
  exact hground.step htaken

/-- The one arrival that is reassembled. -/
private theorem handlePacket_hiDelivery {c : EventReassemblyComponentImpl} (hsized : c.Sized)
    (hfresh : c.receiveList[((1 : Int), (0 : EventId))]? = none) :
    c.handlePacket 1 hiDelivery.data hiDelivery.stack 300 false = some (hiOutcome c) := by
  have hevent : c.receiveEvent 1 hiPacket = .start 1 1 := by
    rw [EventReassemblyComponentImpl.receiveEvent, show hiPacket.eventId = 0 from rfl, hfresh]
    rfl
  have hname : ([104, 105] : List Byte).takeWhile (· ≠ 0) = [104, 105] := by decide
  have hfull := @parseEvent_full c.eventName [104, 105] [1, 2, 3] hsized.array (by decide) (by decide)
  rw [hname] at hfull
  have hparsed : handleReceivedPacket c.eventName hiEvent =
      some ([104, 105] ++ 0 :: c.eventName.drop 3, [104, 105], [1, 2, 3]) := by
    rw [handleReceivedPacket, hiDelivery_packet.2]
    exact hfull
  have hfragment := EventReassemblyComponentImpl.handlePacket_fragment (c := c) hiDelivery_packet.1 (by decide)
  rw [show hiDelivery.source = 1 from rfl, show hiDelivery.now = 300 from rfl,
    show hiDelivery.limit = false from rfl] at hfragment
  rw [hfragment, EventReassemblyComponentImpl.handleFragment_full (by rw [hevent]; rfl) (by rw [hevent]; rfl)
    (by rw [hevent]; rfl), hevent]
  change (handleReceivedPacket c.eventName hiEvent).map _ = _
  rw [hparsed]
  rfl

private theorem step_hiFragment : step (fun _ => 100) sentHi (arriving hiFragment) = some gotHi := by
  have hstate : hiFragment ∈ sentHi.sent ∧ ((sentHi.peers 2).receiveList[((1 : Int), (0 : EventId))]?).isNone := by
    decide +kernel
  have houtcome := handlePacket_hiDelivery (sentHi_ground.sized 2) (Option.isNone_iff_eq_none.mp hstate.2)
  have hcall : (sentHi.peers hiFragment.target).call (fun _ => 100) (.handlePacket ⟨hiFragment.source, hiData,
      List.replicate kFragmentSize 0, 300, false, cleared_length⟩) = some (hiOutcome (sentHi.peers 2)) := houtcome
  rw [arriving, step, if_pos hstate.1, hiFragment_datagram, Option.bind_eq_bind, Option.bind_some, hcall]
  rfl

/-- After `hiRun` peer 2 has queued the event once, as it was triggered, and peer 1 has dropped it. -/
theorem run_agreement_hi : ∃ w a, Run (step fun _ => 100) (Undisturbed 2 1 0) (create 0) hiRun w ∧ a ∈ w.accepted ∧
    a.eventName = [104, 105] ∧ a.eventPayload = [1, 2, 3] ∧ w.queuedFor 2 1 0 ≠ [] ∧
    (w.queuedFor 2 1 0).length ≤ 1 ∧
    (∀ q ∈ w.queuedFor 2 1 0, q.eventName = [104, 105] ∧ q.eventPayload = [1, 2, 3]) ∧
    (w.peers 1).sendList.isEmpty = true ∧ w.Got 2 a 0 := by
  have hend : (exec hiStep gotHi [arriving hiFragment, arriving hiAck, .call 1 (.networkTick 3000)]).any
      (fun w => decide (w.count 1 = 1 ∧ w.queuedFor 2 1 0 ≠ [] ∧ (w.peers 1).sendList.isEmpty = true) &&
        w.accepted.any fun a => a.sender = 1 ∧ a.eventId = 0 ∧ a.eventName = [104, 105] ∧
          a.eventPayload = [1, 2, 3] ∧ 2 ∈ a.targets) = true := by decide +kernel
  obtain ⟨w, hrest, htest⟩ := exists_checked (fun _ _ => undisturbed_of_isQuiet) hend
  have hrun : Run (step fun _ => 100) (Undisturbed 2 1 0) (create 0) hiRun w :=
    run_sentHi.trans (.cons trivial step_hiFragment hrest)
  obtain ⟨hstate, haccepted⟩ := Bool.and_eq_true_iff.mp htest
  obtain ⟨hcount, hqueued, hempty⟩ := of_decide_eq_true hstate
  obtain ⟨a, ha, hfields⟩ := List.any_eq_true.mp haccepted
  obtain ⟨hsender, hid, hname, hpayload, htarget⟩ := of_decide_eq_true hfields
  have hbytes : a.bytes = joined [104, 105] [1, 2, 3] := by rw [Accepted.bytes, hname, hpayload]
  have hfits : a.Fits := ⟨by rw [hname]; decide, by rw [hname]; decide, by rw [hbytes]; decide⟩
  obtain ⟨honce, hexact, hgot⟩ := run_agreement hrun (by omega) ha hsender hid hfits
  rw [hname, hpayload] at hexact
  refine ⟨w, a, hrun, ha, hname, hpayload, hqueued, honce, hexact, hempty, ?_⟩
  refine hgot htarget (fun event hevent => ?_) 0 (by rw [hbytes]; decide)
  rw [TreeMap.getElem?_of_isEmpty hempty] at hevent
  cases hevent

end Examples

end Network

end fx
