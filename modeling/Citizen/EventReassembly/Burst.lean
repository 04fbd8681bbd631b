import Citizen.EventReassembly.Sender
import Citizen.Lib.Loop

open Bits rl Std OrderedMap

namespace fx

/-- The rounds of the burst loop, up to the one that ends it. -/
inductive BurstEnds (eventId : EventId) (sendPayload : List Byte) (latency timeNow : Int) (startBit : Nat) :
    PerTargetData → Int → Option PerTargetData × List EventPacket → Prop
  /-- Every packet was acknowledged. -/
  | done {d : PerTargetData} {resTime : Int} (hnext : firstUnacked d.ackBits d.lastBit d.ackBits.length = none)
      (hfirst : firstUnacked d.ackBits 0 d.lastBit = none) :
      BurstEnds eventId sendPayload latency timeNow startBit d resTime (none, [])
  /-- Only packets before the cursor are left. -/
  | reset {d : PerTargetData} {resTime : Int} {bit : Nat}
      (hnext : firstUnacked d.ackBits d.lastBit d.ackBits.length = none)
      (hfirst : firstUnacked d.ackBits 0 d.lastBit = some bit) :
      BurstEnds eventId sendPayload latency timeNow startBit d resTime
        (some { d with lastBit := bit, delayNextSend := timeNow + 250 }, [])
  /-- The cursor has cycled around. -/
  | around {d : PerTargetData} {resTime : Int} {packetIdx : Nat}
      (hnext : firstUnacked d.ackBits d.lastBit d.ackBits.length = some packetIdx)
      (hend : (packetIdx + 1) % d.ackBits.length ≤ startBit) :
      BurstEnds eventId sendPayload latency timeNow startBit d resTime
        (some { d with lastBit := (packetIdx + 1) % d.ackBits.length, delayNextSend := timeNow + 250 },
          [fragment eventId sendPayload d.ackBits.length packetIdx])
  /-- The time is used up. -/
  | late {d : PerTargetData} {resTime : Int} {packetIdx : Nat}
      (hnext : firstUnacked d.ackBits d.lastBit d.ackBits.length = some packetIdx)
      (hgo : ¬ (packetIdx + 1) % d.ackBits.length ≤ startBit) :
      BurstEnds eventId sendPayload latency timeNow startBit d resTime
        (some { d with lastBit := (packetIdx + 1) % d.ackBits.length },
          [fragment eventId sendPayload d.ackBits.length packetIdx])
  | again {d : PerTargetData} {resTime left : Int} {packetIdx : Nat} {result : Option PerTargetData × List EventPacket}
      (hnext : firstUnacked d.ackBits d.lastBit d.ackBits.length = some packetIdx)
      (hgo : ¬ (packetIdx + 1) % d.ackBits.length ≤ startBit)
      (hrest : BurstEnds eventId sendPayload latency timeNow startBit
        { d with lastBit := (packetIdx + 1) % d.ackBits.length } left result) :
      BurstEnds eventId sendPayload latency timeNow startBit d resTime
        (result.1, fragment eventId sendPayload d.ackBits.length packetIdx :: result.2)

section Burst

variable {eventId : EventId} {sendPayload : List Byte} {latency timeNow resTime : Int} {startBit : Nat}
  {d : PerTargetData} {result : Option PerTargetData × List EventPacket}

/-- A cursor that has not cycled around stands behind the packet that was sent. -/
theorem cursor_eq {packetIdx bc : Nat} (hidx : packetIdx < bc) (hgo : ¬ (packetIdx + 1) % bc ≤ startBit) :
    (packetIdx + 1) % bc = packetIdx + 1 ∧ packetIdx + 1 < bc := by
  rcases Nat.lt_or_ge (packetIdx + 1) bc with hlt | hge
  · exact ⟨Nat.mod_eq_of_lt hlt, hlt⟩
  · rw [show packetIdx + 1 = bc by omega, Nat.mod_self] at hgo
    omega

/-- With a round for every packet still ahead the loop of the model comes to the end. -/
theorem burst_ends {fuel : Nat} (hfuel : d.ackBits.length < d.lastBit + fuel) (hlast : d.lastBit < d.ackBits.length) :
    BurstEnds eventId sendPayload latency timeNow startBit d resTime
      (burst eventId sendPayload latency timeNow startBit fuel d resTime) := by
  induction fuel generalizing d resTime with
  | zero => omega
  | succ fuel ih =>
    rw [burst]
    dsimp only
    cases hnext : firstUnacked d.ackBits d.lastBit d.ackBits.length with
    | none =>
      cases hfirst : firstUnacked d.ackBits 0 d.lastBit with
      | none => exact .done hnext hfirst
      | some bit => exact .reset hnext hfirst
    | some packetIdx =>
      obtain ⟨hlow, hidx, -⟩ := firstUnacked_some hnext
      dsimp only
      generalize (if latency < resTime then resTime - latency else resTime) = left
      by_cases hend : (packetIdx + 1) % d.ackBits.length ≤ startBit
      · rw [if_pos hend]
        exact .around hnext hend
      · rw [if_neg hend]
        obtain ⟨hcursor, hroom⟩ := cursor_eq hidx hend
        split
        · refine .again hnext hend (@ih left _ ?_ ?_)
          · dsimp only
            omega
          · dsimp only
            omega
        · exact .late hnext hend

namespace BurstEnds

theorem keeps (h : BurstEnds eventId sendPayload latency timeNow startBit d resTime result)
    (hlast : d.lastBit < d.ackBits.length) :
    ∀ d', result.1 = some d' → d'.ackBits = d.ackBits ∧ d'.lastBit < d'.ackBits.length := by
  induction h with
  | done => exact nofun
  | reset hnext hfirst =>
    rintro _ ⟨⟩
    obtain ⟨-, hlt, -⟩ := firstUnacked_some hfirst
    exact ⟨rfl, by dsimp only; omega⟩
  | around hnext hend =>
    rintro _ ⟨⟩
    exact ⟨rfl, Nat.mod_lt _ (by omega)⟩
  | late hnext hgo =>
    rintro _ ⟨⟩
    exact ⟨rfl, Nat.mod_lt _ (by omega)⟩
  | again hnext hgo hrest ih =>
    intro d' hd'
    exact ih (Nat.mod_lt _ (by omega)) d' hd'

/-- The target is done exactly if every packet was acknowledged. -/
theorem done_iff (h : BurstEnds eventId sendPayload latency timeNow startBit d resTime result)
    (hlast : d.lastBit < d.ackBits.length) : result.1 = none ↔ d.Finished := by
  induction h with
  | @done d resTime hnext hfirst =>
    refine ⟨fun _ i hi => ?_, fun _ => rfl⟩
    rcases Nat.lt_or_ge i d.lastBit with hlow | hhigh
    · exact firstUnacked_none hfirst (Nat.zero_le i) hlow
    · exact firstUnacked_none hnext hhigh hi
  | @reset d resTime bit hnext hfirst =>
    obtain ⟨-, hlt, hbit⟩ := firstUnacked_some hfirst
    refine ⟨nofun, fun hfinished => ?_⟩
    rw [hfinished bit (by omega)] at hbit
    cases hbit
  | @around d resTime packetIdx hnext hend =>
    obtain ⟨-, hidx, hbit⟩ := firstUnacked_some hnext
    refine ⟨nofun, fun hfinished => ?_⟩
    rw [hfinished packetIdx hidx] at hbit
    cases hbit
  | @late d resTime packetIdx hnext hgo =>
    obtain ⟨-, hidx, hbit⟩ := firstUnacked_some hnext
    refine ⟨nofun, fun hfinished => ?_⟩
    rw [hfinished packetIdx hidx] at hbit
    cases hbit
  | again hnext hgo hrest ih => exact ih (Nat.mod_lt _ (by omega))

/-- The packets are fragments that were not acknowledged, each later than the one before. -/
theorem sends (h : BurstEnds eventId sendPayload latency timeNow startBit d resTime result) :
    ∃ indices : List Nat, result.2 = indices.map (fragment eventId sendPayload d.ackBits.length) ∧
      indices.Pairwise (· < ·) ∧ ∀ i ∈ indices, d.lastBit ≤ i ∧ i < d.ackBits.length ∧
        d.ackBits.getD i false = false := by
  induction h with
  | done => exact ⟨[], rfl, .nil, nofun⟩
  | reset => exact ⟨[], rfl, .nil, nofun⟩
  | @around d resTime packetIdx hnext hend =>
    exact ⟨[packetIdx], rfl, List.pairwise_singleton _ _, by simpa using firstUnacked_some hnext⟩
  | @late d resTime packetIdx hnext hgo =>
    exact ⟨[packetIdx], rfl, List.pairwise_singleton _ _, by simpa using firstUnacked_some hnext⟩
  | @again d resTime left packetIdx result hnext hgo hrest ih =>
    obtain ⟨hlow, hidx, hbit⟩ := firstUnacked_some hnext
    obtain ⟨hcursor, -⟩ := cursor_eq hidx hgo
    obtain ⟨indices, hpackets, hsorted, hunacked⟩ := ih
    dsimp only at hpackets hunacked
    refine ⟨packetIdx :: indices,
      by rw [hpackets]; rfl, List.pairwise_cons.mpr ⟨fun i hi => ?_, hsorted⟩, fun i hi => ?_⟩
    · have hlater := (hunacked i hi).1
      omega
    · rcases List.mem_cons.mp hi with rfl | hi
      · exact ⟨hlow, hidx, hbit⟩
      · obtain ⟨hlater, hroom, hopen⟩ := hunacked i hi
        exact ⟨by omega, hroom, hopen⟩

end BurstEnds

/-- How many bursts may pass before packet `i` is sent. -/
def PerTargetData.distance (d : PerTargetData) (i : Nat) : Nat :=
  if d.lastBit ≤ i then i - d.lastBit else i + 1 + (d.ackBits.length - d.lastBit)

theorem distance_le (d : PerTargetData) {i : Nat} (hi : i < d.ackBits.length) : d.distance i ≤ d.ackBits.length := by
  unfold PerTargetData.distance
  split <;> omega

/-- No packet between the start and the first unset bit is open. -/
theorem firstUnacked_first {ackBits : List Bool} {start stop bit i : Nat}
    (h : firstUnacked ackBits start stop = some bit) (hopen : ackBits.getD i false = false) (hstart : start ≤ i) :
    bit ≤ i := by
  by_contra hlater
  have hset := (List.find?_range'_eq_some.mp h).2.2 i hstart (by omega)
  rw [hopen] at hset
  cases hset

/-- The cursor behind the packet that was sent is nearer to one that was not. -/
theorem distance_next {packetIdx i : Nat} (hnext : firstUnacked d.ackBits d.lastBit d.ackBits.length = some packetIdx)
    (hopen : d.ackBits.getD i false = false) (hi : i < d.ackBits.length) (hother : packetIdx ≠ i) (delay : Int) :
    ({ d with lastBit := (packetIdx + 1) % d.ackBits.length, delayNextSend := delay } : PerTargetData).distance i <
      d.distance i := by
  obtain ⟨hlow, hidx, -⟩ := firstUnacked_some hnext
  have hfirst := fun hle => firstUnacked_first hnext hopen hle
  unfold PerTargetData.distance
  dsimp only
  by_cases hroom : packetIdx + 1 < d.ackBits.length
  · rw [Nat.mod_eq_of_lt hroom]
    split <;> split <;> omega
  · rw [show packetIdx + 1 = d.ackBits.length by omega, Nat.mod_self, if_pos (Nat.zero_le i), Nat.sub_zero]
    split <;> omega

theorem distance_reset {bit i : Nat} (hnext : firstUnacked d.ackBits d.lastBit d.ackBits.length = none)
    (hfirst : firstUnacked d.ackBits 0 d.lastBit = some bit) (hlast : d.lastBit < d.ackBits.length)
    (hopen : d.ackBits.getD i false = false) (hi : i < d.ackBits.length) (delay : Int) :
    ({ d with lastBit := bit, delayNextSend := delay } : PerTargetData).distance i < d.distance i := by
  have hbefore : i < d.lastBit := by
    by_contra hbehind
    rw [firstUnacked_none hnext (by omega) hi] at hopen
    cases hopen
  have hle := firstUnacked_first hfirst hopen (Nat.zero_le i)
  unfold PerTargetData.distance
  dsimp only
  rw [if_pos hle, if_neg (by omega)]
  omega

/-- A burst sends an open packet, or brings the cursor nearer to it. -/
theorem BurstEnds.progress (h : BurstEnds eventId sendPayload latency timeNow startBit d resTime result)
    (hlast : d.lastBit < d.ackBits.length) {i : Nat} (hi : i < d.ackBits.length)
    (hopen : d.ackBits.getD i false = false) :
    fragment eventId sendPayload d.ackBits.length i ∈ result.2 ∨
      ∃ d', result.1 = some d' ∧ d'.distance i < d.distance i := by
  induction h with
  | @done d resTime hnext hfirst =>
    have hset : d.ackBits.getD i false = true := by
      rcases Nat.lt_or_ge i d.lastBit with hlow | hhigh
      · exact firstUnacked_none hfirst (Nat.zero_le i) hlow
      · exact firstUnacked_none hnext hhigh hi
    rw [hset] at hopen
    cases hopen
  | reset hnext hfirst => exact .inr ⟨_, rfl, distance_reset hnext hfirst hlast hopen hi _⟩
  | @around d resTime packetIdx hnext hend =>
    by_cases hself : packetIdx = i
    · exact .inl (by rw [hself]; exact List.mem_singleton_self _)
    · exact .inr ⟨_, rfl, distance_next hnext hopen hi hself _⟩
  | @late d resTime packetIdx hnext hgo =>
    by_cases hself : packetIdx = i
    · exact .inl (by rw [hself]; exact List.mem_singleton_self _)
    · exact .inr ⟨_, rfl, distance_next hnext hopen hi hself d.delayNextSend⟩
  | @again d resTime left packetIdx result hnext hgo hrest ih =>
    by_cases hself : packetIdx = i
    · exact .inl (by rw [hself]; exact List.mem_cons_self)
    · rcases ih (Nat.mod_lt _ (by omega)) hi hopen with hsent | ⟨d', hd', hlt⟩
      · exact .inl (List.mem_cons_of_mem _ hsent)
      · exact .inr ⟨d', hd', hlt.trans (distance_next hnext hopen hi hself d.delayNextSend)⟩

end Burst

/-- The tick runs the burst loop for the target, whose data is `d`. -/
structure RunsLoop (e : SendEvent) (latency timeNow : Int) (registered : TreeSet Int) (target : Int)
    (d : PerTargetData) :
    Prop where
  mem : target ∈ e.targets
  registered : target ∈ registered
  data : e.targetData[target]? = some (some d)
  latency_lt : d.lastSend + latency < timeNow
  delay_lt : d.delayNextSend < timeNow

section TickTarget

variable {eventId : EventId} {latency timeNow dT : Int} {registered : TreeSet Int}

/-- What the loop over the targets has to do with one of them. -/
def lookAt (target : Int) (s : SendEvent × TreeSet Int × List (Int × EventPacket)) :
    Option (Option PerTargetData) × Bool × List EventPacket :=
  (s.1.targetData[target]?, decide (target ∈ s.2.1), (s.2.2.filter fun send => decide (send.1 = target)).map (·.2))

theorem tickTarget_same (s : SendEvent × TreeSet Int × List (Int × EventPacket)) (target : Int) :
    (tickTarget eventId latency timeNow registered dT s target).1.sendPayload = s.1.sendPayload ∧
      (tickTarget eventId latency timeNow registered dT s target).1.targets = s.1.targets := by
  obtain ⟨event, doneTargets, sends⟩ := s
  unfold tickTarget
  dsimp only
  split
  · exact ⟨rfl, rfl⟩
  · split
    · exact ⟨rfl, rfl⟩
    · exact ⟨rfl, rfl⟩
    · split
      · split <;> exact ⟨rfl, rfl⟩
      · split <;> exact ⟨rfl, rfl⟩

theorem tickTarget_other {target other : Int} (hne : other ≠ target)
    (s : SendEvent × TreeSet Int × List (Int × EventPacket)) :
    lookAt target (tickTarget eventId latency timeNow registered dT s other) = lookAt target s := by
  have hdata : ∀ (data : TreeMap Int (Option PerTargetData)) (pointer : Option PerTargetData),
      (data.insert other pointer)[target]? = data[target]? := by
    intro data pointer
    rw [TreeMap.getElem?_insert, if_neg]
    rwa [LawfulEqCmp.compare_eq_iff_eq]
  have hdone : ∀ doneTargets : TreeSet Int,
    decide (target ∈ doneTargets.insert other) = decide (target ∈ doneTargets) := by
    intro doneTargets
    rw [decide_eq_decide, TreeSet.mem_insert, LawfulEqCmp.compare_eq_iff_eq]
    exact or_iff_right hne
  have hsends : ∀ (sends : List (Int × EventPacket)) (packets : List EventPacket),
      (sends ++ packets.map (other, ·)).filter (fun send => decide (send.1 = target)) =
        sends.filter fun send => decide (send.1 = target) := by
    intro sends packets
    have hnone : (packets.map ((other, ·) : EventPacket → Int × EventPacket)).filter
        (fun send => decide (send.1 = target)) = [] := by
      rw [List.filter_eq_nil_iff]
      intro send hsend
      obtain ⟨packet, -, rfl⟩ := List.mem_map.mp hsend
      simpa using hne
    rw [List.filter_append, hnone, List.append_nil]
  obtain ⟨event, doneTargets, sends⟩ := s
  unfold tickTarget lookAt
  dsimp only
  split
  · rw [hdone]
  · split
    · dsimp only
      rw [hdata]
    · rfl
    · split
      · split
        · dsimp only
          rw [hdata, hdone, hsends]
        · dsimp only
          rw [hdata, hsends]
      · split
        · dsimp only
          rw [hdata]
        · rfl

/-- What a tick does for a target whose loop it runs. -/
theorem tickTarget_burst {target : Int} {d : PerTargetData} (hreg : target ∈ registered)
    (hlatency : d.lastSend + latency < timeNow) (hdelay : d.delayNextSend < timeNow)
    (s : SendEvent × TreeSet Int × List (Int × EventPacket)) (h : lookAt target s = (some (some d), false, [])) :
    lookAt target (tickTarget eventId latency timeNow registered dT s target) =
      let result := burst eventId s.1.sendPayload latency timeNow d.lastBit (d.ackBits.length + 1) d dT
      (some (result.1.map fun d => { d with lastSend := timeNow }), result.1.isNone, result.2) := by
  obtain ⟨event, doneTargets, sends⟩ := s
  obtain ⟨hd, hrest⟩ := Prod.mk.inj h
  obtain ⟨hdone, hsends⟩ := Prod.mk.inj hrest
  dsimp only at hd hdone hsends
  have hpackets : ∀ packets : List EventPacket,
      ((sends ++ packets.map (target, ·)).filter fun send => decide (send.1 = target)).map (·.2) = packets := by
    intro packets
    have hall : (packets.map ((target, ·) : EventPacket → Int × EventPacket)).filter
        (fun send => decide (send.1 = target)) = packets.map (target, ·) := by
      rw [List.filter_eq_self]
      intro send hsend
      obtain ⟨packet, -, rfl⟩ := List.mem_map.mp hsend
      exact decide_eq_true rfl
    rw [List.filter_append, List.map_append, hsends, hall, List.nil_append, List.map_map]
    exact List.map_id packets
  have hrun : ∀ result,
      burst eventId event.sendPayload latency timeNow d.lastBit (d.ackBits.length + 1) d dT = result →
        tickTarget eventId latency timeNow registered dT (event, doneTargets, sends) target = ({ event with
            targetData := event.targetData.insert target (result.1.map fun d => { d with lastSend := timeNow }) },
          if result.1.isNone then doneTargets.insert target else doneTargets, sends ++ result.2.map (target, ·)) := by
    rintro ⟨pointer, packets⟩ hresult
    unfold tickTarget
    dsimp only
    rw [if_neg (not_not.mpr hreg), hd]
    dsimp only
    rw [if_pos ⟨hlatency, hdelay⟩, hresult]
    cases pointer <;> rfl
  rw [hrun _ rfl, lookAt]
  dsimp only
  generalize burst eventId event.sendPayload latency timeNow d.lastBit (d.ackBits.length + 1) d dT = result
  obtain ⟨pointer, packets⟩ := result
  rw [TreeMap.getElem?_insert_self, hpackets]
  cases pointer with
  | none => exact Prod.ext rfl (Prod.ext (decide_eq_true TreeSet.mem_insert_self) rfl)
  | some d' =>
    refine Prod.ext rfl (Prod.ext ?_ rfl)
    exact hdone

/-- A tick that does not run the loop for a target leaves its cursor and its acknowledgements alone. -/
theorem tickTarget_idle {target : Int} {d : PerTargetData}
    (hidle : target ∉ registered ∨ ¬ (d.lastSend + latency < timeNow ∧ d.delayNextSend < timeNow))
    (s : SendEvent × TreeSet Int × List (Int × EventPacket)) (h : s.1.targetData[target]? = some (some d)) :
    ∃ d', (tickTarget eventId latency timeNow registered dT s target).1.targetData[target]? = some (some d') ∧
      d'.ackBits = d.ackBits ∧ d'.lastBit = d.lastBit := by
  obtain ⟨event, doneTargets, sends⟩ := s
  dsimp only at h
  unfold tickTarget
  dsimp only
  split
  · exact ⟨d, h, rfl, rfl⟩
  · rename_i hreg
    rw [h]
    dsimp only
    rw [if_neg (hidle.resolve_left hreg)]
    split
    · exact ⟨_, TreeMap.getElem?_insert_self, rfl, rfl⟩
    · exact ⟨d, h, rfl, rfl⟩

end TickTarget

section TickEvent

variable {eventId : EventId} {latency timeNow dT : Int} {registered : TreeSet Int} {e : SendEvent} {target : Int}

theorem nodup_toList (targets : TreeSet Int) : targets.toList.Nodup :=
  TreeSet.distinct_toList.imp fun hne heq => hne (by rw [heq]; exact LawfulEqCmp.compare_eq_iff_eq.mpr rfl)

/-- The loop over the targets. -/
def tickTargets (eventId : EventId) (latency timeNow : Int) (registered : TreeSet Int) (dT : Int) (e : SendEvent) :
    SendEvent × TreeSet Int × List (Int × EventPacket) :=
  e.targets.toList.foldl (tickTarget eventId latency timeNow registered dT) (e, ∅, [])

theorem tickEvent_eq : tickEvent eventId latency timeNow registered dT e =
    ({ (tickTargets eventId latency timeNow registered dT e).1 with
        targets := (tickTargets eventId latency timeNow registered dT e).2.1.foldl (·.erase ·)
          (tickTargets eventId latency timeNow registered dT e).1.targets },
      (tickTargets eventId latency timeNow registered dT e).2.2) := by
  rw [tickEvent, TreeSet.foldl_eq_foldl_toList]
  rfl

theorem tickTargets_same : (tickTargets eventId latency timeNow registered dT e).1.sendPayload = e.sendPayload ∧
    (tickTargets eventId latency timeNow registered dT e).1.targets = e.targets := by
  refine Loop.keeps (fun s t : SendEvent × TreeSet Int × List (Int × EventPacket) =>
    t.1.sendPayload = s.1.sendPayload ∧ t.1.targets = s.1.targets) ?_ ?_ ?_ e.targets.toList (e, ∅, [])
  · exact fun s => ⟨rfl, rfl⟩
  · rintro s t u ⟨hpayload, htargets⟩ ⟨hpayload', htargets'⟩
    exact ⟨hpayload'.trans hpayload, htargets'.trans htargets⟩
  · exact tickTarget_same

theorem lookAt_tickTargets {d : PerTargetData} (h : RunsLoop e latency timeNow registered target d) :
    lookAt target (tickTargets eventId latency timeNow registered dT e) =
      let result := burst eventId e.sendPayload latency timeNow d.lastBit (d.ackBits.length + 1) d dT
      (some (result.1.map fun d => { d with lastSend := timeNow }), result.1.isNone, result.2) := by
  refine Loop.touched (fun s => s.1.sendPayload = e.sendPayload) (lookAt target) (TreeSet.mem_toList.mpr h.mem)
    (nodup_toList e.targets) (fun s hs other _ => (tickTarget_same s other).1.trans hs) (fun s hs hlook => ?_)
    (fun s _ other _ hne => tickTarget_other hne s) (e, ∅, []) rfl (?_ : _ = (some (some d), false, []))
  · rw [tickTarget_burst h.registered h.latency_lt h.delay_lt s hlook, hs]
  · rw [lookAt, h.data]
    rfl

/-- What a tick does for a target whose burst loop it runs. -/
theorem tickEvent_burst {d : PerTargetData} (h : RunsLoop e latency timeNow registered target d)
    {result : Option PerTargetData × List EventPacket}
    (hresult : burst eventId e.sendPayload latency timeNow d.lastBit (d.ackBits.length + 1) d dT = result) :
    (tickEvent eventId latency timeNow registered dT e).1.targetData[target]? =
        some (result.1.map fun d => { d with lastSend := timeNow }) ∧
      (target ∈ (tickEvent eventId latency timeNow registered dT e).1.targets ↔ result.1 ≠ none) ∧
      ((tickEvent eventId latency timeNow registered dT e).2.filter fun send => decide (send.1 = target)).map (·.2) =
        result.2 := by
  have hlook := @lookAt_tickTargets eventId latency timeNow dT registered e target d h
  rw [hresult] at hlook
  obtain ⟨hdata, hrest⟩ := Prod.mk.inj hlook
  obtain ⟨hdone, hsends⟩ := Prod.mk.inj hrest
  rw [tickEvent_eq]
  refine ⟨hdata, ?_, hsends⟩
  rw [mem_foldl_erase, tickTargets_same.2]
  rw [Bool.eq_iff_iff, decide_eq_true_iff] at hdone
  rw [hdone, Option.isNone_iff_eq_none]
  exact ⟨And.right, And.intro h.mem⟩

theorem tickEvent_idle {d : PerTargetData} (hd : e.targetData[target]? = some (some d))
    (hidle : ¬ RunsLoop e latency timeNow registered target d) :
    ∃ d', (tickEvent eventId latency timeNow registered dT e).1.targetData[target]? = some (some d') ∧
      d'.ackBits = d.ackBits ∧ d'.lastBit = d.lastBit := by
  rw [tickEvent_eq]
  have hother : ∀ s : SendEvent × TreeSet Int × List (Int × EventPacket), ∀ other, other ≠ target →
      (tickTarget eventId latency timeNow registered dT s other).1.targetData[target]? = s.1.targetData[target]? :=
    fun s other hne => (Prod.mk.inj (tickTarget_other hne s)).1
  by_cases hmem : target ∈ e.targets
  · refine Loop.touched_of (fun _ => True) (fun s => s.1.targetData[target]?)
      (fun pointer => ∃ d', pointer = some (some d') ∧ d'.ackBits = d.ackBits ∧ d'.lastBit = d.lastBit)
      (TreeSet.mem_toList.mpr hmem) (nodup_toList e.targets) (fun _ _ _ _ => trivial) (fun s _ hlook => ?_)
      (fun s _ other _ hne => hother s other hne) (e, ∅, []) trivial hd
    refine tickTarget_idle ?_ s hlook
    by_cases hreg : target ∈ registered
    · exact .inr fun htime => hidle ⟨hmem, hreg, hd, htime.1, htime.2⟩
    · exact .inl hreg
  · have hsame : (tickTargets eventId latency timeNow registered dT e).1.targetData[target]? = e.targetData[target]? :=
      Loop.untouched (fun _ => True) (fun s => s.1.targetData[target]?) (fun _ _ _ _ => trivial)
        (fun s _ other hother' => hother s other fun heq => hmem (heq ▸ TreeSet.mem_toList.mp hother'))
          (e, ∅, []) trivial
    exact ⟨d, hsame.trans hd, rfl, rfl⟩

end TickEvent

/-- What the acknowledgement of a packet does to an event on the send list. -/
def SendEvent.ack (e : SendEvent) (source : Int) (packetIdx : Nat) : SendEvent :=
  match e.targetData[source]? with
  | some (some targetData) =>
    if packetIdx < targetData.ackBits.length then
      let targetData := { targetData with ackBits := targetData.ackBits.set packetIdx true }
      { e with targetData := e.targetData.insert source (some targetData) }
    else e
  | _ => e

theorem handleAck_eq (c : EventReassemblyComponentImpl) (source : Int) (packet : EventPacket) (eventId : EventId) :
    (c.handleAck source packet).sendList[eventId]? =
      if packet.eventId = eventId then c.sendList[eventId]?.map (·.ack source packet.packetIdx)
      else c.sendList[eventId]? := by
  by_cases hid : packet.eventId = eventId
  · subst hid
    rw [if_pos rfl, EventReassemblyComponentImpl.handleAck]
    cases hevent : c.sendList[packet.eventId]? with
    | none => simpa using hevent
    | some e =>
      dsimp only
      rw [Option.map_some, SendEvent.ack]
      cases hdata : e.targetData[source]? with
      | none => exact hevent
      | some pointer =>
        cases pointer with
        | none => exact hevent
        | some d =>
          dsimp only
          by_cases hidx : packet.packetIdx < d.ackBits.length
          · rw [if_pos hidx, if_pos hidx]
            exact TreeMap.getElem?_insert_self
          · rw [if_neg hidx, if_neg hidx]
            exact hevent
  · rw [if_neg hid, EventReassemblyComponentImpl.handleAck]
    split
    · rfl
    · split
      · split
        · dsimp only
          rw [TreeMap.getElem?_insert, if_neg]
          rwa [LawfulEqCmp.compare_eq_iff_eq]
        · rfl
      · rfl

/-- What happens to an event on the send list. -/
inductive EventAction
  | ack (source : Int) (packetIdx : Nat)
  | tick (latency timeNow : Int) (registered : TreeSet Int) (dT : Int)

/-- Whether a tick runs the burst loop for the target. -/
def runsLoop (e : SendEvent) (latency timeNow : Int) (registered : TreeSet Int) (target : Int) : Bool :=
  match e.targetData[target]? with
  | some (some d) => decide (target ∈ e.targets) && decide (target ∈ registered) &&
      decide (d.lastSend + latency < timeNow) && decide (d.delayNextSend < timeNow)
  | _ => false

/-- An event with what was sent for it, and how many passes ran the burst loop for one target. -/
structure Passes where
  event : SendEvent
  sends : List (Int × EventPacket) := []
  passes : Nat := 0

def Passes.next (eventId : EventId) (target : Int) (r : Passes) : EventAction → Passes
  | .ack source packetIdx => { r with event := r.event.ack source packetIdx }
  | .tick latency timeNow registered dT =>
    let (event, sends) := tickEvent eventId latency timeNow registered dT r.event
    { event, sends := r.sends ++ sends,
      passes := r.passes + if runsLoop r.event latency timeNow registered target then 1 else 0 }

section Passes

variable {eventId : EventId} {latency timeNow dT : Int} {registered : TreeSet Int} {e : SendEvent} {target : Int}

theorem runsLoop_iff : runsLoop e latency timeNow registered target = true ↔
    ∃ d, RunsLoop e latency timeNow registered target d := by
  unfold runsLoop
  split
  · rename_i d hd
    rw [Bool.and_eq_true, Bool.and_eq_true, Bool.and_eq_true, decide_eq_true_iff, decide_eq_true_iff,
      decide_eq_true_iff, decide_eq_true_iff]
    constructor
    · rintro ⟨⟨⟨hmem, hreg⟩, hlatency⟩, hdelay⟩
      exact ⟨d, hmem, hreg, hd, hlatency, hdelay⟩
    · rintro ⟨d', hmem, hreg, hd', hlatency, hdelay⟩
      obtain rfl : d = d' := by simpa [hd] using hd'
      exact ⟨⟨⟨hmem, hreg⟩, hlatency⟩, hdelay⟩
  · rename_i hnone
    refine ⟨nofun, ?_⟩
    rintro ⟨d, -, -, hd, -, -⟩
    exact absurd hd (hnone d)

/-- The data of a target after an acknowledgement. -/
theorem ack_target (source : Int) (packetIdx : Nat) : (e.ack source packetIdx).sendPayload = e.sendPayload ∧
    (∀ d, e.targetData[target]? = some (some d) → ∃ d', (e.ack source packetIdx).targetData[target]? = some (some d') ∧
      d'.lastBit = d.lastBit ∧ d'.ackBits.length = d.ackBits.length) ∧
    ∀ d', (e.ack source packetIdx).targetData[target]? = some (some d') → ∃ d, e.targetData[target]? = some (some d) ∧
      ∀ i, d.ackBits.getD i false = true → d'.ackBits.getD i false = true := by
  have hsame : e.sendPayload = e.sendPayload ∧
      (∀ d, e.targetData[target]? = some (some d) → ∃ d', e.targetData[target]? = some (some d') ∧
        d'.lastBit = d.lastBit ∧ d'.ackBits.length = d.ackBits.length) ∧
      ∀ d', e.targetData[target]? = some (some d') → ∃ d, e.targetData[target]? = some (some d) ∧
        ∀ i, d.ackBits.getD i false = true → d'.ackBits.getD i false = true :=
    ⟨rfl, fun d hd => ⟨d, hd, rfl, rfl⟩, fun d hd => ⟨d, hd, fun _ => id⟩⟩
  unfold SendEvent.ack
  split
  · rename_i targetData hdata
    split
    · rename_i hidx
      by_cases hsource : source = target
      · subst hsource
        refine ⟨rfl, fun d hd => ⟨_, TreeMap.getElem?_insert_self, ?_⟩,
          fun d' hd' => ⟨targetData, hdata, fun i hi => ?_⟩⟩
        · obtain rfl : targetData = d := by simpa [hdata] using hd
          exact ⟨rfl, List.length_set⟩
        · rw [TreeMap.getElem?_insert_self] at hd'
          cases hd'
          rw [List.getD_eq_getElem?_getD] at hi ⊢
          dsimp only
          by_cases hself : packetIdx = i
          · subst hself
            rw [List.getElem?_set_self hidx]
            rfl
          · rw [List.getElem?_set_ne hself]
            exact hi
      · have hother : ∀ pointer, (e.targetData.insert source pointer)[target]? = e.targetData[target]? := by
          intro pointer
          rw [TreeMap.getElem?_insert, if_neg]
          rwa [LawfulEqCmp.compare_eq_iff_eq]
        dsimp only
        rw [hother]
        exact hsame
    · exact hsame
  · exact hsame

theorem tickEvent_sendPayload : (tickEvent eventId latency timeNow registered dT e).1.sendPayload = e.sendPayload :=
  (tickEvent_spec eventId registered latency timeNow dT e).sendPayload

/-- Packet `i` was sent, or it is no longer open, or it is so near to the cursor that `budget` passes reach it. -/
def Passes.Near (eventId : EventId) (target : Int) (sendPayload : List Byte) (bc i budget : Nat) (r : Passes) : Prop :=
  (target, fragment eventId sendPayload bc i) ∈ r.sends ∨
  (∀ d', r.event.targetData[target]? = some (some d') → d'.ackBits.getD i false = true) ∨
  ∃ d', r.event.targetData[target]? = some (some d') ∧ d'.lastBit < bc ∧ d'.ackBits.length = bc ∧
    r.event.sendPayload = sendPayload ∧ d'.ackBits.getD i false = false ∧ d'.distance i + r.passes ≤ budget

theorem Passes.Near.ack {sendPayload : List Byte} {bc i budget : Nat} {r : Passes}
    (h : r.Near eventId target sendPayload bc i budget) (source : Int) (packetIdx : Nat) :
    (r.next eventId target (.ack source packetIdx)).Near eventId target sendPayload bc i budget := by
  obtain ⟨hpayload, hkept, hknown⟩ := @ack_target r.event target source packetIdx
  rcases h with hsent | hclosed | ⟨d, hd, hlast, hlen, hsame, hopen, hnear⟩
  · exact .inl hsent
  · refine .inr (.inl fun d' hd' => ?_)
    obtain ⟨d, hd, hbits⟩ := hknown d' hd'
    exact hbits i (hclosed d hd)
  · obtain ⟨d', hd', hcursor, hlength⟩ := hkept d hd
    by_cases hacked : d'.ackBits.getD i false = true
    · refine .inr (.inl fun d'' hd'' => ?_)
      obtain rfl : d' = d'' := Option.some.inj (Option.some.inj (hd'.symm.trans hd''))
      exact hacked
    · refine .inr (.inr ⟨d', hd', by omega, by omega, hpayload.trans hsame, by simpa using hacked, ?_⟩)
      rw [PerTargetData.distance, hcursor, hlength]
      exact hnear

theorem Passes.Near.tick {sendPayload : List Byte} {bc i budget : Nat} {r : Passes} (hi : i < bc)
    (h : r.Near eventId target sendPayload bc i budget) (latency timeNow : Int) (registered : TreeSet Int) (dT : Int) :
    (r.next eventId target (.tick latency timeNow registered dT)).Near eventId target sendPayload bc i budget := by
  rcases h with hsent | hclosed | ⟨d, hd, hlast, hlen, hsame, hopen, hnear⟩
  · exact .inl (List.mem_append_left _ hsent)
  · refine .inr (.inl fun d' hd' => ?_)
    obtain ⟨d, hd, hbits⟩ := (tickEvent_spec eventId registered latency timeNow dT r.event).known target d' hd'
    rw [hbits]
    exact hclosed d hd
  · by_cases hruns : RunsLoop r.event latency timeNow registered target d
    · have hpass : runsLoop r.event latency timeNow registered target = true := runsLoop_iff.mpr ⟨d, hruns⟩
      obtain ⟨hdata, -, hsends⟩ := @tickEvent_burst eventId latency timeNow dT registered r.event target d hruns _ rfl
      have hends := @burst_ends eventId r.event.sendPayload latency timeNow dT d.lastBit d (d.ackBits.length + 1)
        (by omega) (by omega)
      generalize burst eventId r.event.sendPayload latency timeNow d.lastBit (d.ackBits.length + 1) d dT = result at *
      rcases hends.progress (by omega) (by omega) hopen with hsent | ⟨d', hd', hlt⟩
      · left
        rw [← hsends] at hsent
        obtain ⟨send, hsend, hpacket⟩ := List.mem_map.mp hsent
        obtain ⟨hmem, htarget⟩ := List.mem_filter.mp hsend
        refine List.mem_append_right _ ?_
        rw [← hlen, ← hsame, ← hpacket, ← of_decide_eq_true htarget]
        exact hmem
      · right; right
        obtain ⟨hbits, hcursor⟩ := hends.keeps (by omega) d' hd'
        rw [hd', Option.map_some] at hdata
        refine ⟨_, hdata, by rw [← hlen, ← hbits]; exact hcursor, by rw [← hlen, ← hbits],
          tickEvent_sendPayload.trans hsame, (congrArg (·.getD i false) hbits).trans hopen, ?_⟩
        have hpasses : (r.next eventId target (.tick latency timeNow registered dT)).passes = r.passes + 1 := by
          rw [Passes.next, hpass]
          rfl
        rw [hpasses]
        change d'.distance i + (r.passes + 1) ≤ budget
        omega
    · have hpass : runsLoop r.event latency timeNow registered target = false := by
        by_contra hpass
        obtain ⟨d', hruns'⟩ := runsLoop_iff.mp (Bool.not_eq_false _ ▸ hpass)
        obtain rfl : d = d' := Option.some.inj (Option.some.inj (hd.symm.trans hruns'.data))
        exact hruns hruns'
      obtain ⟨d', hd', hbits, hcursor⟩ :=
        @tickEvent_idle eventId latency timeNow dT registered r.event target d hd hruns
      refine .inr (.inr ⟨d', hd',
        by omega, by rw [hbits, hlen], tickEvent_sendPayload.trans hsame, by rw [hbits, hopen], ?_⟩)
      have hpasses : (r.next eventId target (.tick latency timeNow registered dT)).passes = r.passes := by
        rw [Passes.next, hpass]
        rfl
      rw [hpasses, PerTargetData.distance, hbits, hcursor]
      exact hnear

/-- The passes of a run bring an open packet nearer and nearer until it is sent. -/
theorem Passes.Near.run {sendPayload : List Byte} {bc i budget : Nat} (hi : i < bc)
    (acts : List EventAction) {r : Passes} (h : r.Near eventId target sendPayload bc i budget) :
    (acts.foldl (Passes.next eventId target) r).Near eventId target sendPayload bc i budget := by
  induction acts generalizing r with
  | nil => exact h
  | cons a acts ih =>
    refine ih ?_
    cases a with
    | ack source packetIdx => exact h.ack source packetIdx
    | tick latency timeNow registered dT => exact h.tick hi latency timeNow registered dT

end Passes

/-- One pass of `NetworkTick` over a target, whose data was `d`. -/
structure PassSpec (eventId : EventId) (e : SendEvent) (latency timeNow : Int) (registered : TreeSet Int) (dT : Int)
    (target : Int) (d : PerTargetData) : Prop where
  /-- The loop ends, and the tick does what it ended with. -/
  ends : ∃ result, BurstEnds eventId e.sendPayload latency timeNow d.lastBit d dT result ∧
    (tickEvent eventId latency timeNow registered dT e).1.targetData[target]? =
      some (result.1.map fun d => { d with lastSend := timeNow }) ∧
    ((tickEvent eventId latency timeNow registered dT e).2.filter fun send => decide (send.1 = target)).map (·.2) =
      result.2
  cursor : ∀ d', (tickEvent eventId latency timeNow registered dT e).1.targetData[target]? = some (some d') →
    d'.ackBits = d.ackBits ∧ d'.lastBit < d'.ackBits.length
  /-- Every fragment is sent at most once, and only if it was not acknowledged. -/
  sends : ∃ indices : List Nat, indices.Nodup ∧
    ((tickEvent eventId latency timeNow registered dT e).2.filter fun send => decide (send.1 = target)).map (·.2) =
      indices.map (fragment eventId e.sendPayload d.ackBits.length) ∧
    ∀ i ∈ indices, i < d.ackBits.length ∧ d.ackBits.getD i false = false
  done : target ∉ (tickEvent eventId latency timeNow registered dT e).1.targets ↔ d.Finished

theorem passSpec {eventId : EventId} {e : SendEvent} {latency timeNow : Int} {registered : TreeSet Int} {dT : Int}
    {target : Int} {d : PerTargetData} (hlast : d.lastBit < d.ackBits.length)
    (hruns : RunsLoop e latency timeNow registered target d) :
    PassSpec eventId e latency timeNow registered dT target d := by
  obtain ⟨hdata, htargets, hsends⟩ := @tickEvent_burst eventId latency timeNow dT registered e target d hruns _ rfl
  have hends := @burst_ends eventId e.sendPayload latency timeNow dT d.lastBit d (d.ackBits.length + 1)
    (by omega) hlast
  generalize burst eventId e.sendPayload latency timeNow d.lastBit (d.ackBits.length + 1) d dT = result at *
  refine ⟨⟨result, hends, hdata, hsends⟩, fun d' hd' => ?_, ?_, ?_⟩
  · rw [hdata] at hd'
    obtain ⟨d₁, hd₁, rfl⟩ := Option.map_eq_some_iff.mp (Option.some.inj hd')
    exact hends.keeps hlast d₁ hd₁
  · obtain ⟨indices, hindices, hsorted, hopen⟩ := hends.sends
    exact ⟨indices, hsorted.imp fun hlt => hlt.ne, hsends.trans hindices, fun i hi => (hopen i hi).2⟩
  · rw [htargets, not_not, hends.done_iff hlast]

/-- A pass ends, sends every open fragment at most once and no other, and marks the target as done exactly if
nothing is open. In a run of passes and acknowledgements, a packet that stays open is sent in any `2 * bc + 2`
passes. -/
theorem burst_fair (eventId : EventId) {e : SendEvent} {target : Int} {d : PerTargetData}
    (hd : e.targetData[target]? = some (some d)) (hlast : d.lastBit < d.ackBits.length) :
    (∀ (latency timeNow : Int) (registered : TreeSet Int) (dT : Int), RunsLoop e latency timeNow registered target d →
      PassSpec eventId e latency timeNow registered dT target d) ∧
    ∀ (acts : List EventAction) (d' : PerTargetData) (i : Nat), i < d.ackBits.length →
      (acts.foldl (Passes.next eventId target) { event := e }).event.targetData[target]? = some (some d') →
      d'.ackBits.getD i false = false →
      2 * d.ackBits.length + 2 ≤ (acts.foldl (Passes.next eventId target) { event := e }).passes →
      (target, fragment eventId e.sendPayload d.ackBits.length i) ∈
        (acts.foldl (Passes.next eventId target) { event := e }).sends := by
  refine ⟨fun latency timeNow registered dT hruns => passSpec hlast hruns, fun acts d' i hi hd' hopen hpasses => ?_⟩
  have hstart : Passes.Near eventId target e.sendPayload d.ackBits.length i d.ackBits.length { event := e } := by
    by_cases hacked : d.ackBits.getD i false = true
    · refine .inr (.inl fun d'' hd'' => ?_)
      obtain rfl : d = d'' := Option.some.inj (Option.some.inj (hd.symm.trans hd''))
      exact hacked
    · exact .inr (.inr ⟨d, hd, hlast, rfl, rfl, by simpa using hacked, distance_le d hi⟩)
  rcases hstart.run hi acts with hsent | hclosed | ⟨d'', -, -, -, -, -, hnear⟩
  · exact hsent
  · rw [hclosed d' hd'] at hopen
    cases hopen
  · omega

/-- An event of two packets, the first of which peer 5 has acknowledged. -/
def halfSent : SendEvent where
  targets := (∅ : TreeSet Int).insert 5
  bytesPerSecond := 25000
  sendPayload := [1]
  targetData := (∅ : TreeMap Int (Option PerTargetData)).insert 5 (some { ackBits := [true, false] })

theorem burst_fair_halfSent :
    PassSpec 1 halfSent 0 1000 ((∅ : TreeSet Int).insert 5) 50 5 { ackBits := [true, false] } ∧
    ∀ (acts : List EventAction) (d' : PerTargetData) (i : Nat), i < 2 →
      (acts.foldl (Passes.next 1 5) { event := halfSent }).event.targetData[(5 : Int)]? = some (some d') →
      d'.ackBits.getD i false = false → 6 ≤ (acts.foldl (Passes.next 1 5) { event := halfSent }).passes →
      (5, fragment 1 [1] 2 i) ∈ (acts.foldl (Passes.next 1 5) { event := halfSent }).sends := by
  have hd : halfSent.targetData[(5 : Int)]? = some (some { ackBits := [true, false] }) := TreeMap.getElem?_insert_self
  obtain ⟨hpass, hruns⟩ := burst_fair 1 hd (by decide)
  exact ⟨hpass 0 1000 _ 50 ⟨TreeSet.mem_insert_self, TreeSet.mem_insert_self, hd, by decide, by decide⟩, hruns⟩

end fx
