import Citizen.EventReassembly.Send

open Bits rl Std OrderedMap

namespace fx

/-- Every packet of the target was acknowledged. -/
def PerTargetData.Finished (targetData : PerTargetData) : Prop :=
  ∀ i < targetData.ackBits.length, targetData.ackBits.getD i false = true

/-- What the loop over the targets of `sendPacket` has done so far. -/
structure Ticking (eventId : EventId) (registered : TreeSet Int) (sendPacket : SendEvent)
    (s : SendEvent × TreeSet Int × List (Int × EventPacket)) : Prop where
  sendPayload : s.1.sendPayload = sendPacket.sendPayload
  targets : s.1.targets = sendPacket.targets
  known : ∀ (target : Int) (d' : PerTargetData), s.1.targetData[target]? = some (some d') →
    ∃ d : PerTargetData, sendPacket.targetData[target]? = some (some d) ∧ d'.ackBits = d.ackBits
  kept : ∀ (target : Int) (d : PerTargetData), sendPacket.targetData[target]? = some (some d) →
    (∃ d', s.1.targetData[target]? = some (some d')) ∨ target ∈ s.2.1
  done : ∀ target ∈ s.2.1, target ∉ registered ∨
    ∃ d : PerTargetData, sendPacket.targetData[target]? = some (some d) ∧ d.Finished
  sends : ∀ send ∈ s.2.2, ∃ (d : PerTargetData) (packetIdx : Nat), sendPacket.targetData[send.1]? = some (some d) ∧
    packetIdx < d.ackBits.length ∧
    send.2 = fragment eventId sendPacket.sendPayload d.ackBits.length packetIdx

variable {eventId : EventId} {registered : TreeSet Int} {sendPacket : SendEvent}

private theorem Ticking.update {s : SendEvent × TreeSet Int × List (Int × EventPacket)}
    (h : Ticking eventId registered sendPacket s) {target : Int} {d : PerTargetData} (d' : PerTargetData)
    (packets : List EventPacket)
    (hd : s.1.targetData[target]? = some (some d)) (hkeep : d'.ackBits = d.ackBits)
    (hpackets : ∀ packet ∈ packets, ∃ packetIdx < d.ackBits.length,
      packet = fragment eventId s.1.sendPayload d.ackBits.length packetIdx) :
    Ticking eventId registered sendPacket
      ({ s.1 with targetData := s.1.targetData.insert target (some d') }, s.2.1,
        s.2.2 ++ packets.map (target, ·)) := by
  obtain ⟨d₀, hd₀, hacks⟩ := h.known target d hd
  refine ⟨h.sendPayload, h.targets, ?_, ?_, h.done, ?_⟩
  · intro t e he
    rw [TreeMap.getElem?_insert] at he
    split at he
    · rename_i heq
      obtain rfl := LawfulEqCmp.eq_of_compare heq
      cases he
      exact ⟨d₀, hd₀, hkeep.trans hacks⟩
    · exact h.known t e he
  · intro t e he
    rcases h.kept t e he with ⟨e', he'⟩ | hmem
    · left
      rw [TreeMap.getElem?_insert]
      split
      · exact ⟨d', rfl⟩
      · exact ⟨e', he'⟩
    · exact Or.inr hmem
  · intro send hsend
    rcases List.mem_append.mp hsend with hold | hnew
    · exact h.sends send hold
    · obtain ⟨packet, hpacket, rfl⟩ := List.mem_map.mp hnew
      obtain ⟨packetIdx, hidx, rfl⟩ := hpackets packet hpacket
      refine ⟨d₀, packetIdx, hd₀, hacks ▸ hidx, ?_⟩
      rw [h.sendPayload, hacks]

private theorem Ticking.drop {s : SendEvent × TreeSet Int × List (Int × EventPacket)}
    (h : Ticking eventId registered sendPacket s) {target : Int} {d : PerTargetData} {packets : List EventPacket}
    (hd : s.1.targetData[target]? = some (some d)) (hall : d.Finished)
    (hpackets : ∀ packet ∈ packets, ∃ packetIdx < d.ackBits.length,
      packet = fragment eventId s.1.sendPayload d.ackBits.length packetIdx) :
    Ticking eventId registered sendPacket
      ({ s.1 with targetData := s.1.targetData.insert target none }, s.2.1.insert target,
        s.2.2 ++ packets.map (target, ·)) := by
  obtain ⟨d₀, hd₀, hacks⟩ := h.known target d hd
  refine ⟨h.sendPayload, h.targets, ?_, ?_, ?_, (h.update d packets hd rfl hpackets).sends⟩
  · intro t e he
    rw [TreeMap.getElem?_insert] at he
    split at he
    · cases he
    · exact h.known t e he
  · intro t e he
    rw [TreeSet.mem_insert]
    rcases h.kept t e he with ⟨e', he'⟩ | hmem
    · rw [TreeMap.getElem?_insert]
      split
      · rename_i heq
        exact Or.inr (Or.inl heq)
      · exact Or.inl ⟨e', he'⟩
    · exact Or.inr (Or.inr hmem)
  · intro t ht
    rcases TreeSet.mem_insert.mp ht with heq | hmem
    · obtain rfl := LawfulEqCmp.eq_of_compare heq
      rw [PerTargetData.Finished, hacks] at hall
      exact Or.inr ⟨d₀, hd₀, hall⟩
    · exact h.done t hmem

theorem Ticking.tickTarget {s : SendEvent × TreeSet Int × List (Int × EventPacket)} {latency timeNow dT : Int}
    (h : Ticking eventId registered sendPacket s) (target : Int) :
    Ticking eventId registered sendPacket (tickTarget eventId latency timeNow registered dT s target) := by
  obtain ⟨event, doneTargets, sends⟩ := s
  rw [fx.tickTarget]
  split
  · rename_i hgone
    refine ⟨h.sendPayload, h.targets, h.known, ?_, ?_, h.sends⟩
    · intro t d hd
      rcases h.kept t d hd with hkept | hmem
      · exact Or.inl hkept
      · exact Or.inr (TreeSet.mem_insert.mpr (Or.inr hmem))
    · intro t ht
      rcases TreeSet.mem_insert.mp ht with heq | hmem
      · exact Or.inl (LawfulEqCmp.eq_of_compare heq ▸ hgone)
      · exact h.done t hmem
  · cases hd : event.targetData[target]? with
    | none =>
      refine ⟨h.sendPayload, h.targets, ?_, ?_, h.done, h.sends⟩
      · intro t d' hd'
        rw [TreeMap.getElem?_insert] at hd'
        split at hd'
        · cases hd'
        · exact h.known t d' hd'
      · intro t d ht
        rcases h.kept t d ht with ⟨d', hd'⟩ | hmem
        · left
          refine ⟨d', ?_⟩
          rw [TreeMap.getElem?_insert, if_neg]
          · exact hd'
          · intro heq
            obtain rfl := LawfulEqCmp.eq_of_compare heq
            exact absurd (hd.symm.trans hd') (by simp)
        · exact Or.inr hmem
    | some pointer =>
      cases pointer with
      | none => exact h
      | some targetData =>
        dsimp only
        split
        · have hburst := burst_spec eventId event.sendPayload latency timeNow targetData.lastBit
            (targetData.ackBits.length + 1) targetData dT
          split
          · rename_i packets hresult
            rw [hresult] at hburst
            exact h.drop hd (hburst.drops rfl) hburst.sends
          · rename_i d' packets hresult
            rw [hresult] at hburst
            exact h.update { d' with lastSend := timeNow } packets hd (hburst.keeps d' rfl) hburst.sends
        split
        · simpa using h.update { targetData with lastSend := timeNow } [] hd rfl (by simp)
        · exact h

/-- What a tick does to one event. A registered target is only dropped when it has
acknowledged every packet. -/
structure TickedEvent (eventId : EventId) (registered : TreeSet Int) (before after : SendEvent)
    (sends : List (Int × EventPacket)) : Prop where
  sendPayload : after.sendPayload = before.sendPayload
  known : ∀ (target : Int) (d' : PerTargetData), after.targetData[target]? = some (some d') →
    ∃ d : PerTargetData, before.targetData[target]? = some (some d) ∧ d'.ackBits = d.ackBits
  kept : ∀ target ∈ after.targets, target ∈ before.targets ∧
    ((∃ d : PerTargetData, before.targetData[target]? = some (some d)) → ∃ d',
      after.targetData[target]? = some (some d'))
  dropped : ∀ target ∈ before.targets, target ∉ after.targets → target ∉ registered ∨
    ∃ d : PerTargetData, before.targetData[target]? = some (some d) ∧ d.Finished
  sends : ∀ send ∈ sends, ∃ (d : PerTargetData) (packetIdx : Nat), before.targetData[send.1]? = some (some d) ∧
    packetIdx < d.ackBits.length ∧ send.2 = fragment eventId before.sendPayload d.ackBits.length packetIdx

theorem tickEvent_spec (eventId : EventId) (registered : TreeSet Int) (latency timeNow dT : Int)
    (sendPacket : SendEvent) :
    TickedEvent eventId registered sendPacket (tickEvent eventId latency timeNow registered dT sendPacket).1
      (tickEvent eventId latency timeNow registered dT sendPacket).2 := by
  have hfold : ∀ (l : List Int) s, Ticking eventId registered sendPacket s →
      Ticking eventId registered sendPacket (l.foldl (tickTarget eventId latency timeNow registered dT) s) := by
    intro l
    induction l with
    | nil => exact fun _ h => h
    | cons target l ih => exact fun s h => ih _ (h.tickTarget target)
  have hstart : Ticking eventId registered sendPacket (sendPacket, ∅, []) :=
    ⟨rfl, rfl, fun _ d hd => ⟨d, hd, rfl⟩, fun _ d hd => Or.inl ⟨d, hd⟩, by simp, by simp⟩
  have hend := hfold sendPacket.targets.toList _ hstart
  rw [← TreeSet.foldl_eq_foldl_toList] at hend
  rw [tickEvent]
  generalize sendPacket.targets.foldl (tickTarget eventId latency timeNow registered dT)
    (sendPacket, ∅, []) = s at hend
  obtain ⟨ticked, doneTargets, sends⟩ := s
  refine ⟨hend.sendPayload, hend.known, ?_, ?_, hend.sends⟩
  · intro target htarget
    obtain ⟨hmem, hnotDone⟩ := mem_foldl_erase.mp htarget
    refine ⟨hend.targets ▸ hmem, ?_⟩
    rintro ⟨d, hd⟩
    rcases hend.kept target d hd with hkept | hdone
    · exact hkept
    · exact absurd hdone hnotDone
  · intro target hbefore hafter
    rw [mem_foldl_erase, hend.targets] at hafter
    exact hend.done target (by tauto)

namespace EventReassemblyComponentImpl

variable {c : EventReassemblyComponentImpl} {latency : Int → Int} {timeNow : Int}

theorem networkTick_sendList (eventId : EventId) :
    (c.networkTick latency timeNow).component.sendList[eventId]? =
      (c.sendList[eventId]?.map fun sendPacket => (tickEvent eventId (latency sendPacket.bytesPerSecond) timeNow
        c.targets (timeNow - c.lastTime) sendPacket).1).filter fun sendPacket => !sendPacket.targets.isEmpty := by
  rw [networkTick]
  dsimp only
  rw [getElem?_eraseIf, TreeMap.getElem?_map, TreeMap.getElem?_map, Option.map_map]
  rfl

/-- An event on the send list after a tick was there before it. -/
theorem networkTick_kept {eventId : EventId} {after : SendEvent}
    (h : (c.networkTick latency timeNow).component.sendList[eventId]? = some after) :
    ∃ before sends, c.sendList[eventId]? = some before ∧ TickedEvent eventId c.targets before after sends := by
  rw [networkTick_sendList] at h
  cases hbefore : c.sendList[eventId]? with
  | none => simp [hbefore] at h
  | some before =>
    rw [hbefore, Option.map_some] at h
    have hafter := (Option.filter_eq_some_iff.mp h).1
    cases hafter
    exact ⟨before, _, rfl, tickEvent_spec ..⟩

/-- A tick drops a registered target only when it has acknowledged every packet. -/
theorem networkTick_dropped {eventId : EventId} {before : SendEvent} {target : Int}
    (hbefore : c.sendList[eventId]? = some before) (hmem : target ∈ before.targets) (hreg : target ∈ c.targets)
    (hafter : ∀ after, (c.networkTick latency timeNow).component.sendList[eventId]? = some after →
      target ∉ after.targets) :
    ∃ d : PerTargetData, before.targetData[target]? = some (some d) ∧ d.Finished := by
  have hspec := tickEvent_spec eventId c.targets (latency before.bytesPerSecond) timeNow
    (timeNow - c.lastTime) before
  rw [networkTick_sendList, hbefore, Option.map_some] at hafter
  generalize tickEvent eventId (latency before.bytesPerSecond) timeNow c.targets (timeNow - c.lastTime) before =
    ticked at hspec hafter
  have hgone : target ∉ ticked.1.targets := by
    intro hin
    refine hafter ticked.1 ?_ hin
    rw [Option.filter_some, if_pos]
    simpa using TreeSet.isEmpty_eq_false_iff_exists_mem.mpr ⟨target, hin⟩
  rcases hspec.dropped target hmem hgone with hgoneTarget | hfinished
  · exact absurd hreg hgoneTarget
  · exact hfinished

/-- Everything a tick sends is a fragment of an event on the send list. -/
theorem networkTick_sends {send : Int × EventPacket} (h : send ∈ (c.networkTick latency timeNow).sends) :
    ∃ eventId before d packetIdx, c.sendList[eventId]? = some before ∧
      before.targetData[send.1]? = some (some d) ∧ packetIdx < d.ackBits.length ∧
      send.2 = fragment eventId before.sendPayload d.ackBits.length packetIdx := by
  obtain ⟨⟨eventId, ticked⟩, hticked, hsend⟩ := List.mem_flatMap.mp h
  rw [TreeMap.mem_toList_iff_getElem?_eq_some, TreeMap.getElem?_map] at hticked
  cases hbefore : c.sendList[eventId]? with
  | none => simp [hbefore] at hticked
  | some before =>
    rw [hbefore, Option.map_some] at hticked
    cases hticked
    obtain ⟨d, packetIdx, hd, hidx, hpacket⟩ := (tickEvent_spec ..).sends send hsend
    exact ⟨eventId, before, d, packetIdx, hbefore, hd, hidx, hpacket⟩

end EventReassemblyComponentImpl

end fx
