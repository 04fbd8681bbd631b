import Citizen.EventReassembly.Calls

open Bits rl Std OrderedMap

namespace fx

/-- What a call can do to an event on the send list. `acked target i` says that the
call acknowledges packet `i` for `target`. -/
structure Evolves (acked : Int → Nat → Prop) (before after : SendEvent) : Prop where
  sendPayload : after.sendPayload = before.sendPayload
  known : ∀ (target : Int) (d' : PerTargetData), after.targetData[target]? = some (some d') →
    ∃ d : PerTargetData, before.targetData[target]? = some (some d) ∧ d'.ackBits.length = d.ackBits.length ∧
      ∀ i, d'.ackBits.getD i false = true → d.ackBits.getD i false = true ∨ acked target i
  kept : ∀ target ∈ after.targets, target ∈ before.targets ∧
    ((∃ d : PerTargetData, before.targetData[target]? = some (some d)) →
      ∃ d' : PerTargetData, after.targetData[target]? = some (some d'))

namespace Evolves

variable {acked : Int → Nat → Prop}

theorem refl (event : SendEvent) : Evolves acked event event :=
  ⟨rfl, fun _ d hd => ⟨d, hd, rfl, fun _ => Or.inl⟩, fun _ h => ⟨h, id⟩⟩

theorem of_ticked {eventId : EventId} {registered : TreeSet Int} {before after : SendEvent}
    {sends : List (Int × EventPacket)} (h : TickedEvent eventId registered before after sends) :
    Evolves acked before after := by
  refine ⟨h.sendPayload, fun target d' hd' => ?_, h.kept⟩
  obtain ⟨d, hd, hacks⟩ := h.known target d' hd'
  exact ⟨d, hd, by rw [hacks], fun i hi => Or.inl (hacks ▸ hi)⟩

end Evolves

/-- The acknowledgement that a call delivers for an event. -/
def Call.Acks (a : Call) (eventId : EventId) (target : Int) (packetIdx : Nat) : Prop :=
  ∃ d packet, a = .handlePacket d ∧ d.source = target ∧ d.packet = some packet ∧ packet.thisBytes = 0 ∧
    packet.eventId = eventId ∧ packet.packetIdx = packetIdx

namespace EventReassemblyComponentImpl

variable {c : EventReassemblyComponentImpl}

theorem getD_set_true {bits : List Bool} {k i : Nat} (h : (bits.set k true).getD i false = true) :
    bits.getD i false = true ∨ i = k := by
  rw [List.getD_eq_getElem?_getD, List.getElem?_set] at h
  rw [List.getD_eq_getElem?_getD]
  split at h
  · rename_i heq
    exact Or.inr heq.symm
  · exact Or.inl h

/-- An acknowledgement sets one bit for its sender and nothing else. -/
theorem handleAck_sendList (source : Int) (packet : EventPacket) (eventId : EventId) :
    Option.Rel (Evolves fun target i => target = source ∧ packet.eventId = eventId ∧ packet.packetIdx = i)
      c.sendList[eventId]? (c.handleAck source packet).sendList[eventId]? ∧
    ∀ before, c.sendList[eventId]? = some before → ∃ after,
      (c.handleAck source packet).sendList[eventId]? = some after ∧ after.targets = before.targets := by
  have hsame : Option.Rel (Evolves fun target i => target = source ∧ packet.eventId = eventId ∧ packet.packetIdx = i)
      c.sendList[eventId]? c.sendList[eventId]? ∧ ∀ before, c.sendList[eventId]? = some before → ∃ after,
      c.sendList[eventId]? = some after ∧ after.targets = before.targets := by
    refine ⟨?_, fun before h => ⟨before, h, rfl⟩⟩
    cases c.sendList[eventId]? with
    | none => exact .none
    | some event => exact .some (.refl event)
  unfold handleAck
  split
  · exact hsame
  rename_i sendData hdata
  split
  · rename_i targetData htarget
    split
    · dsimp only
      rw [TreeMap.getElem?_insert]
      split
      · rename_i heq
        obtain rfl := LawfulEqCmp.eq_of_compare heq
        rw [hdata]
        refine ⟨.some ⟨rfl, fun target d' hd' => ?_, fun target hmem => ⟨hmem, fun hd => ?_⟩⟩,
          fun before hbefore => ⟨_, rfl, by cases hbefore; rfl⟩⟩
        · dsimp only at hd'
          rw [TreeMap.getElem?_insert] at hd'
          split at hd'
          · rename_i hsource
            obtain rfl := LawfulEqCmp.eq_of_compare hsource
            cases hd'
            refine ⟨targetData, htarget, List.length_set, fun i hi => ?_⟩
            rcases getD_set_true hi with hold | rfl
            · exact Or.inl hold
            · exact Or.inr ⟨rfl, rfl, rfl⟩
          · exact ⟨d', hd', rfl, fun _ => Or.inl⟩
        · dsimp only
          rw [TreeMap.getElem?_insert]
          split
          · exact ⟨_, rfl⟩
          · exact hd
      · exact hsame
    · exact hsame
  · exact hsame

theorem handleFragment_sendList {source : Int} {packet : EventPacket} {now : Int} {limit : Bool} {o : Outcome}
    (hsource : (c.receiveEvent source packet).source = source)
    (h : c.handleFragment source packet now limit = some o) :
    o.component.sendList = c.sendList ∧ o.component.targets = c.targets ∧ o.component.eventId = c.eventId := by
  rcases handleFragment_cases hsource h with ⟨-, rfl⟩ | ⟨-, -, rfl⟩ | ⟨parsed, -, -, -, rfl⟩
  · exact ⟨rfl, rfl, rfl⟩
  · exact ⟨rfl, rfl, rfl⟩
  · exact ⟨rfl, rfl, rfl⟩

section Call

variable {latency : Int → Int} {a : Call} {o : Outcome} {eventId : EventId}

private theorem handlePacket_evolves (eventId : EventId) (hsized : c.Sized) {d : Delivery}
    (h : c.handlePacket d.source d.data d.stack d.now d.limit = some o) :
    Option.Rel (Evolves ((Call.handlePacket d).Acks eventId)) c.sendList[eventId]? o.component.sendList[eventId]? ∧
    ∀ before, c.sendList[eventId]? = some before → ∃ after,
      o.component.sendList[eventId]? = some after ∧ after.targets = before.targets := by
  have hsame : o.component.sendList = c.sendList →
      Option.Rel (Evolves ((Call.handlePacket d).Acks eventId)) c.sendList[eventId]? o.component.sendList[eventId]? ∧
      ∀ before, c.sendList[eventId]? = some before → ∃ after,
        o.component.sendList[eventId]? = some after ∧ after.targets = before.targets := by
    intro hlist
    rw [hlist]
    refine ⟨?_, fun before h => ⟨before, h, rfl⟩⟩
    cases c.sendList[eventId]? with
    | none => exact .none
    | some event => exact .some (.refl event)
  cases hpacket : d.packet with
  | none =>
    rw [handlePacket_none hpacket] at h
    cases h
    exact hsame rfl
  | some packet =>
    obtain ⟨-, htotal, -⟩ := d.packet_spec.2 packet hpacket
    by_cases hack : packet.thisBytes = 0
    · rw [handlePacket_ack hpacket hack] at h
      cases h
      obtain ⟨hrel, hkept⟩ := handleAck_sendList (c := c) d.source packet eventId
      refine ⟨?_, hkept⟩
      dsimp only
      generalize c.sendList[eventId]? = before at hrel ⊢
      generalize (c.handleAck d.source packet).sendList[eventId]? = after at hrel ⊢
      cases hrel with
      | none => exact .none
      | some hevolves =>
        refine .some ⟨hevolves.sendPayload, fun target d' hd' => ?_, hevolves.kept⟩
        obtain ⟨d₀, hd₀, hlen, hbits⟩ := hevolves.known target d' hd'
        refine ⟨d₀, hd₀, hlen, fun i hi => (hbits i hi).imp_right ?_⟩
        rintro ⟨rfl, hid, hidx⟩
        exact ⟨d, packet, rfl, rfl, hpacket, hack, hid, hidx⟩
    · rw [handlePacket_fragment hpacket hack] at h
      exact hsame (handleFragment_sendList (hsized.receiveEvent htotal).1 h).1

private theorem unregisterTarget_sendList (id : Int) :
    (c.unregisterTarget id).sendList[eventId]? = if id ∈ c.targets then c.sendList[eventId]?.map fun sendPacket =>
      { sendPacket with targetData := sendPacket.targetData.erase id, targets := sendPacket.targets.erase id }
    else c.sendList[eventId]? := by
  rw [unregisterTarget]
  split
  · dsimp only
    rw [TreeMap.getElem?_map]
  · rfl

/-- Calls other than `TriggerEvent` only let the events of the send list evolve. -/
theorem call_evolves (hsized : c.Sized) (h : c.call latency a = some o)
    (ha : ∀ target name payload bps, a ≠ .triggerEvent target name payload bps) {after : SendEvent}
    (hafter : o.component.sendList[eventId]? = some after) :
    ∃ before, c.sendList[eventId]? = some before ∧ Evolves (a.Acks eventId) before after := by
  cases a with
  | registerTarget id =>
    cases h
    exact ⟨after, hafter, .refl after⟩
  | unregisterTarget id =>
    cases h
    dsimp only at hafter
    rw [unregisterTarget_sendList] at hafter
    split at hafter
    · obtain ⟨before, hbefore, rfl⟩ := Option.map_eq_some_iff.mp hafter
      refine ⟨before, hbefore, rfl, fun target d' hd' => ?_, fun target hmem => ?_⟩
      · dsimp only at hd'
        rw [TreeMap.getElem?_erase] at hd'
        split at hd'
        · cases hd'
        · exact ⟨d', hd', rfl, fun _ => Or.inl⟩
      · obtain ⟨hne, hmem⟩ := TreeSet.mem_erase.mp hmem
        refine ⟨hmem, fun hd => ?_⟩
        dsimp only
        rw [TreeMap.getElem?_erase, if_neg hne]
        exact hd
    · exact ⟨after, hafter, .refl after⟩
  | triggerEvent target name payload bps => exact absurd rfl (ha target name payload bps)
  | networkTick timeNow =>
    cases h
    obtain ⟨before, sends, hbefore, hticked⟩ := networkTick_kept hafter
    exact ⟨before, hbefore, .of_ticked hticked⟩
  | handlePacket d =>
    have hrel := (handlePacket_evolves eventId hsized h).1
    rw [hafter] at hrel
    generalize c.sendList[eventId]? = entry at hrel ⊢
    cases hrel with
    | some hevolves => exact ⟨_, rfl, hevolves⟩

/-- Calls other than `TriggerEvent` and `UnregisterTarget` drop an event for a
registered target only when the target has acknowledged every packet. -/
theorem call_dropped (hsized : c.Sized) (h : c.call latency a = some o)
    (ha : ∀ target name payload bps, a ≠ .triggerEvent target name payload bps) {target : Int}
    (hstay : a ≠ .unregisterTarget target) {before : SendEvent} (hbefore : c.sendList[eventId]? = some before)
    (hmem : target ∈ before.targets) (hreg : target ∈ c.targets)
    (hafter : ∀ after, o.component.sendList[eventId]? = some after → target ∉ after.targets) :
    ∃ d : PerTargetData, before.targetData[target]? = some (some d) ∧ d.Finished := by
  cases a with
  | registerTarget id =>
    cases h
    exact absurd hmem (hafter before hbefore)
  | unregisterTarget id =>
    cases h
    dsimp only at hafter
    rw [unregisterTarget_sendList, hbefore] at hafter
    have hne : id ≠ target := fun heq => hstay (heq ▸ rfl)
    split at hafter
    · refine absurd (TreeSet.mem_erase.mpr ⟨?_, hmem⟩) (hafter _ rfl)
      rw [ne_eq, LawfulEqCmp.compare_eq_iff_eq]
      exact hne
    · exact absurd hmem (hafter before rfl)
  | triggerEvent target name payload bps => exact absurd rfl (ha target name payload bps)
  | networkTick timeNow =>
    cases h
    exact networkTick_dropped hbefore hmem hreg hafter
  | handlePacket d =>
    obtain ⟨after, hget, htargets⟩ := (handlePacket_evolves eventId hsized h).2 before hbefore
    exact absurd (htargets ▸ hmem) (hafter after hget)

end Call

/-- The targets that `TriggerEvent` sends to, unless it skips the event. -/
def acceptedTargets (c : EventReassemblyComponentImpl) (target : Int) (eventName eventPayload : List Byte) :
    Option (TreeSet Int) :=
  if kMaxPacketSize ≤ eventPayload.length + eventName.length + 2 then none
  else if target ≠ -1 ∧ target ∉ c.targets then none
  else some (if target = -1 then c.targets else {target})

/-- `TriggerEvent` does nothing, or adds one event under the next id. -/
theorem triggerEvent_cases {target : Int} {eventName eventPayload : List Byte} {bytesPerSecond : Int}
    {c' : EventReassemblyComponentImpl} (h : c.triggerEvent target eventName eventPayload bytesPerSecond = some c') :
    (c.acceptedTargets target eventName eventPayload = none ∧ c' = c) ∨
    ∃ targets event, c.acceptedTargets target eventName eventPayload = some targets ∧
      eventPayload.length + eventName.length + 2 < kMaxPacketSize ∧ (∀ t ∈ targets, t ∈ c.targets) ∧
      event.targets = targets ∧ event.sendPayload = joined eventName eventPayload ∧
      (∀ t : Int, event.targetData[t]? = if t ∈ targets then
        some (some { ackBits := List.replicate (packetCount (joined eventName eventPayload)) false }) else none) ∧
      c' = { c with eventId := c.eventId + 1, sendList := c.sendList.insertIfNew c.eventId event } := by
  rw [triggerEvent] at h
  dsimp only at h
  rw [acceptedTargets]
  by_cases hsize : kMaxPacketSize ≤ eventPayload.length + eventName.length + 2
  · rw [if_pos hsize] at h ⊢
    cases h
    exact Or.inl ⟨rfl, rfl⟩
  rw [if_neg hsize] at h ⊢
  by_cases hskip : target ≠ -1 ∧ target ∉ c.targets
  · rw [if_pos hskip] at h ⊢
    cases h
    exact Or.inl ⟨rfl, rfl⟩
  rw [if_neg hskip] at h ⊢
  rw [eventBytes_eq (Nat.lt_of_not_le hsize)] at h
  cases h
  refine Or.inr ⟨_, _, rfl, Nat.lt_of_not_le hsize, fun t ht => ?_, rfl, rfl, fun t => ?_, rfl⟩
  · split at ht
    · exact ht
    · have hmem : t ∈ (∅ : TreeSet Int).insert target := ht
      simp only [TreeSet.mem_insert, LawfulEqCmp.compare_eq_iff_eq, TreeSet.not_mem_emptyc, or_false] at hmem
      subst hmem
      by_contra hnot
      exact hskip ⟨by assumption, hnot⟩
  · exact getElem?_foldl_insert _ _ t

/-- The bitmap of every target has one bit for each packet of the event. -/
def BitsMatch (c : EventReassemblyComponentImpl) : Prop :=
  ∀ (eventId : EventId) (event : SendEvent) (target : Int) (d : PerTargetData), c.sendList[eventId]? = some event →
    event.targetData[target]? = some (some d) → d.ackBits.length = packetCount event.sendPayload

theorem create_bitsMatch (start : Int) : (create start).BitsMatch := by
  intro eventId event target d h
  simp [create] at h

theorem insertIfNew_sendList {event : SendEvent} (id eventId : EventId) :
    (c.sendList.insertIfNew id event)[eventId]? =
      if id = eventId ∧ c.sendList[eventId]? = none then some event else c.sendList[eventId]? := by
  rw [TreeMap.getElem?_insertIfNew]
  simp only [Std.compare_eq_iff_eq]
  by_cases hid : id = eventId
  · subst hid
    simp only [TreeMap.mem_iff_isSome_getElem?, Option.not_isSome_iff_eq_none]
  · simp [hid]

theorem BitsMatch.call (h : c.BitsMatch) (hsized : c.Sized) {latency : Int → Int} {a : Call} {o : Outcome}
    (ho : c.call latency a = some o) : o.component.BitsMatch := by
  intro eventId event target d hevent hd
  by_cases ha : ∃ t n p b, a = .triggerEvent t n p b
  · obtain ⟨t, n, p, b, rfl⟩ := ha
    obtain ⟨c', hc', rfl⟩ := Option.map_eq_some_iff.mp ho
    rcases triggerEvent_cases hc' with ⟨-, rfl⟩ | ⟨targets, new, -, -, -, -, hpayload, hdata, rfl⟩
    · exact h eventId event target d hevent hd
    · dsimp only at hevent
      rw [insertIfNew_sendList] at hevent
      split at hevent
      · cases hevent
        rw [hdata] at hd
        split at hd
        · cases hd
          rw [hpayload]
          exact List.length_replicate
        · cases hd
      · exact h eventId event target d hevent hd
  · obtain ⟨before, hbefore, hevolves⟩ := call_evolves hsized ho (fun t n p b ht => ha ⟨t, n, p, b, ht⟩) hevent
    obtain ⟨d₀, hd₀, hlen, -⟩ := hevolves.known target d hd
    rw [hlen, hevolves.sendPayload]
    exact h eventId before target d₀ hbefore hd₀

theorem handleAck_targets (source : Int) (packet : EventPacket) :
    (c.handleAck source packet).targets = c.targets ∧ (c.handleAck source packet).eventId = c.eventId := by
  unfold handleAck
  split
  · exact ⟨rfl, rfl⟩
  split
  · split
    · exact ⟨rfl, rfl⟩
    · exact ⟨rfl, rfl⟩
  · exact ⟨rfl, rfl⟩

theorem handlePacket_targets (hsized : c.Sized) {d : Delivery} {o : Outcome}
    (h : c.handlePacket d.source d.data d.stack d.now d.limit = some o) :
    o.component.targets = c.targets ∧ o.component.eventId = c.eventId := by
  cases hpacket : d.packet with
  | none =>
    rw [handlePacket_none hpacket] at h
    cases h
    exact ⟨rfl, rfl⟩
  | some packet =>
    obtain ⟨-, htotal, -⟩ := d.packet_spec.2 packet hpacket
    by_cases hack : packet.thisBytes = 0
    · rw [handlePacket_ack hpacket hack] at h
      cases h
      exact handleAck_targets d.source packet
    · rw [handlePacket_fragment hpacket hack] at h
      exact (handleFragment_sendList (hsized.receiveEvent htotal).1 h).2

/-- A target stays registered until `UnregisterTarget`. -/
theorem call_targets (hsized : c.Sized) {latency : Int → Int} {a : Call} {o : Outcome} (h : c.call latency a = some o)
    {target : Int} (hstay : a ≠ .unregisterTarget target) (hreg : target ∈ c.targets) :
    target ∈ o.component.targets := by
  cases a with
  | registerTarget id =>
    cases h
    exact TreeSet.mem_insert.mpr (Or.inr hreg)
  | unregisterTarget id =>
    cases h
    dsimp only
    rw [unregisterTarget]
    split
    · refine TreeSet.mem_erase.mpr ⟨?_, hreg⟩
      rw [ne_eq, LawfulEqCmp.compare_eq_iff_eq]
      exact fun heq => hstay (heq ▸ rfl)
    · exact hreg
  | triggerEvent t n p b =>
    obtain ⟨c', hc', rfl⟩ := Option.map_eq_some_iff.mp h
    rcases triggerEvent_cases hc' with ⟨-, rfl⟩ | ⟨_, _, -, -, -, -, -, -, rfl⟩
    · exact hreg
    · exact hreg
  | networkTick timeNow =>
    cases h
    exact hreg
  | handlePacket d =>
    rw [(handlePacket_targets hsized h).1]
    exact hreg

/-- What a call sends: fragments from a tick, one acknowledgement from a packet. -/
theorem call_sends (hsized : c.Sized) {latency : Int → Int} {a : Call} {o : Outcome} (h : c.call latency a = some o)
    {send : Int × EventPacket} (hsend : send ∈ o.sends) :
    (∃ eventId event d packetIdx, c.sendList[eventId]? = some event ∧ event.targetData[send.1]? = some (some d) ∧
      packetIdx < d.ackBits.length ∧ send.2 = fragment eventId event.sendPayload d.ackBits.length packetIdx) ∨
    ∃ d packet, a = .handlePacket d ∧ d.packet = some packet ∧ packet.thisBytes ≠ 0 ∧
      send = (d.source, { packet with thisBytes := 0 }) := by
  cases a with
  | registerTarget id =>
    cases h
    cases hsend
  | unregisterTarget id =>
    cases h
    cases hsend
  | triggerEvent t n p b =>
    obtain ⟨c', hc', rfl⟩ := Option.map_eq_some_iff.mp h
    cases hsend
  | networkTick timeNow =>
    cases h
    exact Or.inl (networkTick_sends hsend)
  | handlePacket d =>
    change c.handlePacket d.source d.data d.stack d.now d.limit = some o at h
    cases hpacket : d.packet with
    | none =>
      rw [handlePacket_none hpacket] at h
      cases h
      cases hsend
    | some packet =>
      obtain ⟨-, htotal, -⟩ := d.packet_spec.2 packet hpacket
      by_cases hack : packet.thisBytes = 0
      · rw [handlePacket_ack hpacket hack] at h
        cases h
        cases hsend
      · rw [handlePacket_fragment hpacket hack] at h
        have hsends : o.sends = [(d.source, { packet with thisBytes := 0 })] := by
          rcases handleFragment_cases (hsized.receiveEvent htotal).1 h with ⟨-, rfl⟩ | ⟨-, -, rfl⟩ | ⟨_, -, -, -, rfl⟩
          · rfl
          · rfl
          · rfl
        rw [hsends, List.mem_singleton] at hsend
        exact Or.inr ⟨d, packet, rfl, hpacket, hack, hsend⟩

/-- A call other than `HandlePacket` keeps an entry of the receive list unless it
unregisters its source or collects it. It queues nothing. -/
theorem call_entry {latency : Int → Int} {a : Call} {o : Outcome} (h : c.call latency a = some o)
    (ha : ∀ d, a ≠ .handlePacket d) (key : Int × EventId) (hstay : a ≠ .unregisterTarget key.1)
    (hcollect : ∀ timeNow event, a = .networkTick timeNow → c.receiveList[key]? = some event →
      ¬ (event.completed = true ∧ 120000 ≤ timeNow - event.timeLastAck)) :
    o.component.receiveList[key]? = c.receiveList[key]? ∧ o.queued = none := by
  cases a with
  | registerTarget id =>
    cases h
    exact ⟨rfl, rfl⟩
  | unregisterTarget id =>
    cases h
    refine ⟨?_, rfl⟩
    dsimp only
    rw [unregisterTarget]
    split
    · dsimp only
      rw [getElem?_eraseIf]
      have hne : key.1 ≠ id := fun heq => hstay (heq ▸ rfl)
      cases c.receiveList[key]? with
      | none => rfl
      | some event => simp [Option.filter, hne]
    · rfl
  | triggerEvent t n p b =>
    obtain ⟨c', hc', rfl⟩ := Option.map_eq_some_iff.mp h
    refine ⟨?_, rfl⟩
    rcases triggerEvent_cases hc' with ⟨-, rfl⟩ | ⟨_, _, -, -, -, -, -, -, rfl⟩
    · rfl
    · rfl
  | networkTick timeNow =>
    cases h
    refine ⟨?_, rfl⟩
    rw [networkTick]
    dsimp only
    rw [getElem?_eraseIf]
    cases hentry : c.receiveList[key]? with
    | none => rfl
    | some event =>
      have hkeep := hcollect timeNow event rfl hentry
      rw [Option.filter_some, if_pos]
      by_cases hcompleted : event.completed = true
      · simp [hcompleted] at hkeep ⊢
        omega
      · simp [hcompleted]
  | handlePacket d => exact absurd rfl (ha d)

end EventReassemblyComponentImpl

end fx
