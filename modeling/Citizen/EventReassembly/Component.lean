import Citizen.EventReassembly.Packet
import Citizen.Lib.OrderedMap

open Bits rl Std OrderedMap

namespace fx

instance : Ord (Int × EventId) := lexOrd

structure PerTargetData where
  lastSend : Int := 0
  delayNextSend : Int := 0
  ackBits : List Bool
  lastBit : Nat := 0

/-- A null pointer in `targetData` is `none`. -/
structure SendEvent where
  targets : TreeSet Int
  bytesPerSecond : Int
  sendPayload : List Byte
  targetData : TreeMap Int (Option PerTargetData)

structure ReceiveEvent where
  source : Int
  ackedBits : List Bool
  completed : Bool
  timeLastAck : Int
  packetData : TreeMap Nat (List Byte)

/-- The component, with the static `eventName` array of `HandleReceivedPacket`. -/
structure EventReassemblyComponentImpl where
  sendList : TreeMap EventId SendEvent
  receiveList : TreeMap (Int × EventId) ReceiveEvent
  targets : TreeSet Int
  eventId : EventId
  lastTime : Int
  eventName : List Byte

/-- A call of `QueueEvent`. The event manager is not told the id; it says which
entry was completed. -/
structure QueuedEvent where
  source : Int
  eventId : EventId
  eventName : List Byte
  eventPayload : List Byte
  deriving Repr, DecidableEq

/-- What a call does: the state after it, the packets given to `SendPacket` with
their targets, and the event it queued. -/
structure Outcome where
  component : EventReassemblyComponentImpl
  sends : List (Int × EventPacket) := []
  queued : Option QueuedEvent := none

/-- The size of the `eventName` array. -/
def kEventNameSize : Nat := 65536

namespace EventReassemblyComponentImpl

/-- The constructor, at `timeNow`. -/
def create (timeNow : Int) : EventReassemblyComponentImpl where
  sendList := ∅
  receiveList := ∅
  targets := ∅
  eventId := 0
  lastTime := timeNow
  eventName := List.replicate kEventNameSize 0

def registerTarget (c : EventReassemblyComponentImpl) (id : Int) : EventReassemblyComponentImpl :=
  { c with targets := c.targets.insert id }

def unregisterTarget (c : EventReassemblyComponentImpl) (id : Int) : EventReassemblyComponentImpl :=
  if id ∈ c.targets then
    { c with
      targets := c.targets.erase id
      receiveList := eraseIf (fun key _ => key.1 = id) c.receiveList
      sendList := c.sendList.map fun _ sendPacket =>
        { sendPacket with targetData := sendPacket.targetData.erase id, targets := sendPacket.targets.erase id } }
  else c

end EventReassemblyComponentImpl

/-- The buffer that `TriggerEvent` fills. -/
def eventBytes (eventName eventPayload : List Byte) : Option (List Byte) := do
  let payloadBuf := MessageBuffer.ofSize (eventName.length + 2 + eventPayload.length)
  let payloadBuf ← payloadBuf.write false 16 (BitVec.ofNat 32 eventName.length)
  let (_, payloadBuf) ← payloadBuf.writeBits eventName (eventName.length * 8 : Nat)
  memcpy payloadBuf.data (payloadBuf.getCurrentBit / 8) eventPayload 0 eventPayload.length

def packetCount (sendPayload : List Byte) : Nat :=
  sendPayload.length / kFragmentSize + if sendPayload.length % kFragmentSize ≠ 0 then 1 else 0

/-- The fragment that `NetworkTick` builds at `packetIdx`. -/
def fragment (eventId : EventId) (sendPayload : List Byte) (totalPackets packetIdx : Nat) : EventPacket :=
  let offset := packetIdx * kFragmentSize
  let size := min (sendPayload.length - offset) kFragmentSize
  ⟨eventId, packetIdx, totalPackets, size, (sendPayload.drop offset).take size⟩

/-- `for (bit = start; bit < stop; bit++)`, up to the first unset bit. -/
def firstUnacked (ackBits : List Bool) (start stop : Nat) : Option Nat :=
  (List.range' start (stop - start)).find? fun bit => !ackBits.getD bit false

section NetworkTick

variable (eventId : EventId) (sendPayload : List Byte) (latency timeNow : Int)

/-- The burst loop of `NetworkTick`. The target data is dropped when every packet
was acknowledged. -/
def burst (startBit : Nat) : Nat → PerTargetData → Int → Option PerTargetData × List EventPacket
  | 0, targetData, _ => (some targetData, [])
  | fuel + 1, targetData, resTime =>
    let bc := targetData.ackBits.length
    let firstPacketIdx := firstUnacked targetData.ackBits 0 targetData.lastBit
    match firstUnacked targetData.ackBits targetData.lastBit bc with
    | none =>
      match firstPacketIdx with
      | none => (none, [])
      | some bit => (some { targetData with lastBit := bit, delayNextSend := timeNow + 250 }, [])
    | some packetIdx =>
      let targetData := { targetData with lastBit := (packetIdx + 1) % bc }
      let packet := fragment eventId sendPayload bc packetIdx
      let resTime := if latency < resTime then resTime - latency else resTime
      if targetData.lastBit ≤ startBit then (some { targetData with delayNextSend := timeNow + 250 }, [packet])
      else if latency < resTime then
        let (targetData, packets) := burst startBit fuel targetData resTime
        (targetData, packet :: packets)
      else (some targetData, [packet])

variable (registered : TreeSet Int) (dT : Int)

/-- One target of one event: the event, `doneTargets` and the packets sent so far. -/
def tickTarget (s : SendEvent × TreeSet Int × List (Int × EventPacket)) (target : Int) :
    SendEvent × TreeSet Int × List (Int × EventPacket) :=
  let (sendPacket, doneTargets, sends) := s
  if target ∉ registered then (sendPacket, doneTargets.insert target, sends)
  else
    match sendPacket.targetData[target]? with
    | none => ({ sendPacket with targetData := sendPacket.targetData.insert target none }, doneTargets, sends)
    | some none => s
    | some (some targetData) =>
      if targetData.lastSend + latency < timeNow ∧ targetData.delayNextSend < timeNow then
        -- the cursor only moves forward until it wraps, so this much fuel is never used up
        match burst eventId sendPacket.sendPayload latency timeNow targetData.lastBit
            (targetData.ackBits.length + 1) targetData dT with
        | (none, packets) =>
          ({ sendPacket with targetData := sendPacket.targetData.insert target none },
            doneTargets.insert target, sends ++ packets.map (target, ·))
        | (some targetData, packets) =>
          ({ sendPacket with
              targetData := sendPacket.targetData.insert target (some { targetData with lastSend := timeNow }) },
            doneTargets, sends ++ packets.map (target, ·))
      else if timeNow ≤ targetData.delayNextSend then
        ({ sendPacket with
            targetData := sendPacket.targetData.insert target (some { targetData with lastSend := timeNow }) },
          doneTargets, sends)
      else s

/-- One event of the send list, and the packets sent for it. -/
def tickEvent (sendPacket : SendEvent) : SendEvent × List (Int × EventPacket) :=
  let (ticked, doneTargets, sends) :=
    sendPacket.targets.foldl (tickTarget eventId latency timeNow registered dT) (sendPacket, ∅, [])
  ({ ticked with targets := doneTargets.foldl (·.erase ·) ticked.targets }, sends)

end NetworkTick

namespace EventReassemblyComponentImpl

variable (c : EventReassemblyComponentImpl)

/-- `TriggerEvent`; `none` is an access outside a buffer. -/
def triggerEvent (target : Int) (eventName eventPayload : List Byte) (bytesPerSecond : Int) :
    Option EventReassemblyComponentImpl :=
  let bytesPerSecond := if bytesPerSecond ≤ 0 then 25000 else bytesPerSecond
  if kMaxPacketSize ≤ eventPayload.length + eventName.length + 2 then some c
  else if target ≠ -1 ∧ target ∉ c.targets then some c
  else do
    let targets := if target = -1 then c.targets else {target}
    let sendPayload ← eventBytes eventName eventPayload
    let targetData : TreeMap Int (Option PerTargetData) := targets.foldl (fun targetData target =>
      targetData.insert target (some { ackBits := List.replicate (packetCount sendPayload) false })) ∅
    some { c with
      eventId := c.eventId + 1
      sendList := c.sendList.insertIfNew c.eventId ⟨targets, bytesPerSecond, sendPayload, targetData⟩ }

/-- `NetworkTick` at `timeNow`. `latency` is the floating-point computation of the
send interval from the bytes per second. -/
def networkTick (latency : Int → Int) (timeNow : Int) : Outcome :=
  let dT := timeNow - c.lastTime
  let ticked := c.sendList.map fun eventId sendPacket =>
    tickEvent eventId (latency sendPacket.bytesPerSecond) timeNow c.targets dT sendPacket
  { component := { c with
      lastTime := timeNow
      sendList := eraseIf (fun _ sendPacket => sendPacket.targets.isEmpty) (ticked.map fun _ t => t.1)
      receiveList := eraseIf (fun _ event => event.completed && 120000 ≤ timeNow - event.timeLastAck) c.receiveList }
    sends := ticked.toList.flatMap fun t => t.2.2 }

/-- The acknowledgement branch of `HandlePacket`. -/
def handleAck (source : Int) (packet : EventPacket) : EventReassemblyComponentImpl :=
  match c.sendList[packet.eventId]? with
  | none => c
  | some sendData =>
    match sendData.targetData[source]? with
    | some (some targetData) =>
      if packet.packetIdx < targetData.ackBits.length then
        let targetData := { targetData with ackBits := targetData.ackBits.set packet.packetIdx true }
        let sendData := { sendData with targetData := sendData.targetData.insert source (some targetData) }
        { c with sendList := c.sendList.insert packet.eventId sendData }
      else c
    | _ => c

end EventReassemblyComponentImpl

/-- The copy loop of `HandleReceivedPacket` over the stored fragments. -/
def reassemble (packetData : List (Nat × List Byte)) (eventPayload : List Byte) : Option (List Byte) :=
  packetData.foldlM (fun eventPayload packet =>
    memcpy eventPayload (packet.1 * kFragmentSize) packet.2 0 packet.2.length) eventPayload

/-- `HandleReceivedPacket`, "reassemble the buffer": the bytes that the message
buffer is built over. -/
def reassembledBytes (event : ReceiveEvent) : Option (List Byte) := do
  let eventPayload ← reassemble event.packetData.toList (List.replicate (event.ackedBits.length * kFragmentSize) 0)
  let readSize := (event.packetData.toList.map fun packet => packet.2.length).sum
  memcpy (List.replicate readSize 0) 0 eventPayload 0 readSize

/-- `HandleReceivedPacket`, "parse event data": the static array after it, the
event name and the event payload. -/
def parseEvent (eventName data : List Byte) : Option (List Byte × List Byte × List Byte) := do
  let (nameLength, _, buffer) := (MessageBuffer.ofBytes data).read false 16
  let (eventName, _, buffer) ← buffer.readBits false eventName (nameLength.toNat * 8 : Nat)
  let eventName ← store eventName nameLength.toNat 0
  some (eventName, eventName.takeWhile (· ≠ 0), buffer.data.drop (buffer.getCurrentBit / 8))

/-- `HandleReceivedPacket` up to the event manager. -/
def handleReceivedPacket (eventName : List Byte) (event : ReceiveEvent) :
    Option (List Byte × List Byte × List Byte) := do
  parseEvent eventName (← reassembledBytes event)

namespace ReceiveEvent

/-- The entry for a first fragment. -/
def start (source : Int) (totalPackets : Nat) : ReceiveEvent where
  source
  ackedBits := List.replicate totalPackets false
  completed := false
  timeLastAck := 0
  packetData := ∅

variable (event : ReceiveEvent)

/-- The condition under which a fragment is acknowledged and not stored. -/
def skips (packet : EventPacket) : Bool :=
  event.completed || if packet.packetIdx < event.ackedBits.length
    then event.ackedBits.getD packet.packetIdx false else false

/-- The entry after a fragment is noted down, copied and acknowledged. -/
def keep (packet : EventPacket) (now : Int) : ReceiveEvent :=
  { event with
    ackedBits :=
      if packet.packetIdx < event.ackedBits.length then event.ackedBits.set packet.packetIdx true
      else event.ackedBits
    packetData := event.packetData.insert packet.packetIdx (packet.payload.take packet.thisBytes)
    timeLastAck := now }

/-- No bit is missing. -/
def hasAll : Bool := event.ackedBits.all id

/-- The entry after `HandleReceivedPacket`, which moves the fragments away. -/
def complete : ReceiveEvent :=
  { event with completed := true, packetData := event.packetData.map fun _ _ => [] }

end ReceiveEvent

namespace EventReassemblyComponentImpl

variable (c : EventReassemblyComponentImpl)

/-- The entry that a fragment belongs to. -/
def receiveEvent (source : Int) (packet : EventPacket) : ReceiveEvent :=
  (c.receiveList[(source, packet.eventId)]?).getD (.start source packet.totalPackets)

def putReceiveEvent (source : Int) (eventId : EventId) (event : ReceiveEvent) : EventReassemblyComponentImpl :=
  { c with receiveList := c.receiveList.insert (source, eventId) event }

/-- The fragment branch of `HandlePacket`. `limit` is the answer of `LimitEvent`. -/
def handleFragment (source : Int) (packet : EventPacket) (now : Int) (limit : Bool) : Option Outcome :=
  let event := c.receiveEvent source packet
  let ack := (source, { packet with thisBytes := 0 })
  if event.source = source ∧ event.skips packet then
    some { component := c.putReceiveEvent source packet.eventId { event with timeLastAck := now }, sends := [ack] }
  else if event.source = source then
    let event := event.keep packet now
    if event.hasAll then do
      let (array, eventName, eventPayload) ← handleReceivedPacket c.eventName event
      some {
        component := { c.putReceiveEvent source packet.eventId event.complete with eventName := array }
        sends := [ack]
        queued := if limit then none else some ⟨source, packet.eventId, eventName, eventPayload⟩ }
    else some { component := c.putReceiveEvent source packet.eventId event, sends := [ack] }
  else some { component := c.putReceiveEvent source packet.eventId event }

/-- `HandlePacket`. `stack` is what the uninitialised `packet.payload` holds. -/
def handlePacket (source : Int) (data stack : List Byte) (now : Int) (limit : Bool) : Option Outcome := do
  match ← EventPacket.parse stack (.ofBytes data) with
  | none => some { component := c }
  | some packet =>
    if packet.thisBytes = 0 then some { component := c.handleAck source packet }
    else c.handleFragment source packet now limit

end EventReassemblyComponentImpl

end fx
