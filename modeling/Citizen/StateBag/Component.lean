import Citizen.MessageBuffer.Basic
import Citizen.Lib.OrderedMap

open Bits rl Std

namespace fx

abbrev Str := List Byte

/-- A `StateBagImpl*`. -/
abbrev BagPtr := Nat

structure StateBagImpl where
  id : Str
  routingTargets : TreeSet Int := ∅
  owningPeer : Option Int := none
  data : TreeMap Str Str := ∅

inductive StateBagRole where
  | client
  | server
  deriving DecidableEq

/-- `m_preCreatedStateBags` holds strong references, `m_stateBags` weak ones. A bag lives until its last strong
reference is gone. -/
structure StateBagComponentImpl where
  role : StateBagRole
  targets : TreeSet Int := ∅
  erasureList : TreeSet Str := ∅
  stateBags : TreeMap Str BagPtr := ∅
  preCreatePrefixes : TreeSet Str := ∅
  preCreatedStateBags : TreeSet BagPtr := ∅

/-- A call of `QueueSend`. Beside the packet it records what the call was for: the bag,
the key, and the routing and broadcast targets of that moment. -/
structure QueuedSend where
  target : Int
  packet : List Byte
  bag : BagPtr
  key : Str
  routingTargets : TreeSet Int
  targets : TreeSet Int

/-- A call of `SetKey`. -/
structure SetKeyCall where
  bag : BagPtr
  source : Int
  key : Str
  data : Str
  replicated : Bool
  deriving DecidableEq

/-- What the change handlers make of a call of `SetKey`: there are none, one refused
the value or it did not unpack, all took it, or it waits for the user code thread. -/
inductive StateBagChange where
  | unhandled
  | refused
  | taken
  | queued
  deriving DecidableEq

/-- The component with everything around it: the bags that are alive, those somebody
outside holds, the queued continuations of `SetKey` (each holds its bag), the buffer of
`SendKey`, what was sent and which calls of `SetKey` were made. `registered` is the bag the
latest `RegisterStateBag` returned for an id since the latest `Reset`. -/
structure StateBags where
  component : StateBagComponentImpl
  bags : TreeMap BagPtr StateBagImpl := ∅
  nextBag : BagPtr := 0
  held : TreeSet BagPtr := ∅
  tasks : List SetKeyCall := []
  dataBuffer : MessageBuffer
  sends : List QueuedSend := []
  setKeys : List SetKeyCall := []
  registered : TreeMap Str BagPtr := ∅

namespace StateBags

/-- `writeStr` of `SendKey`. No length here is 13, so the length hack plays no part. -/
def writeStr (dataBuffer : MessageBuffer) (str : Str) : Option MessageBuffer := do
  let dataBuffer ← dataBuffer.write false 16 ((BitVec.ofNat 16 (str.length + 1)).setWidth 32)
  let (_, dataBuffer) ← dataBuffer.writeBits str (int32 (8 * str.length))
  dataBuffer.write false 8 0

def sendKey (w : StateBags) (bag : BagPtr) (target : Int) (key : Str) : Option StateBags := do
  let b ← w.bags[bag]?
  let dataBuffer := w.dataBuffer.setCurrentBit 0
  match b.data[key]? with
  | none => some { w with dataBuffer }
  | some keyData =>
    let dataBuffer ← writeStr dataBuffer b.id
    let dataBuffer ← writeStr dataBuffer key
    let (_, dataBuffer) ← dataBuffer.writeBits keyData (int32 (8 * keyData.length))
    let packet := dataBuffer.data.take (dataBuffer.getCurrentBit / 8)
    some { w with
      dataBuffer
      sends := w.sends ++ [⟨target, packet, bag, key, b.routingTargets, w.component.targets⟩] }

/-- `SendAll`. -/
def sendAll (w : StateBags) (bag : BagPtr) (target : Int) : Option StateBags := do
  let b ← w.bags[bag]?
  b.data.keys.foldlM (fun w key => w.sendKey bag target key) w

def sendAllInitial (w : StateBags) (bag : BagPtr) (target : Int) : Option StateBags := do
  let b ← w.bags[bag]?
  if ¬ b.routingTargets.isEmpty ∧ target ∉ b.routingTargets then some w else w.sendAll bag target

def sendKeyAll (w : StateBags) (bag : BagPtr) (key : Str) : Option StateBags := do
  let b ← w.bags[bag]?
  let targets := if b.routingTargets.isEmpty then w.component.targets else b.routingTargets
  targets.toList.foldlM (fun w target => w.sendKey bag target key) w

def setBag (w : StateBags) (bag : BagPtr) (b : StateBagImpl) : StateBags := { w with bags := w.bags.insert bag b }

def setKeyInternal (w : StateBags) (call : SetKeyCall) : Option StateBags := do
  let b ← w.bags[call.bag]?
  let lastValue := if call.replicated then b.data.getD call.key [] else []
  let w := w.setBag call.bag { b with data := b.data.insert call.key call.data }
  if call.replicated ∧ call.data ≠ lastValue then w.sendKeyAll call.bag call.key else some w

def setKey (w : StateBags) (call : SetKeyCall) (change : StateBagChange) : Option StateBags := do
  let _ ← w.bags[call.bag]?
  let w := { w with setKeys := w.setKeys ++ [call] }
  match change with
  | .unhandled | .taken => w.setKeyInternal call
  | .refused => some w
  | .queued => some { w with tasks := w.tasks ++ [call] }

/-- `SetRoutingTargets`. -/
def setRoutingTargets (w : StateBags) (bag : BagPtr) (peers : TreeSet Int) : Option StateBags := do
  let b ← w.bags[bag]?
  let newTargets := peers.toList.filter (· ∉ b.routingTargets)
  newTargets.foldlM (fun w target => w.sendAll bag target) (w.setBag bag { b with routingTargets := peers })

def addRoutingTarget (w : StateBags) (bag : BagPtr) (peer : Int) : Option StateBags := do
  let b ← w.bags[bag]?
  let w := w.setBag bag { b with routingTargets := b.routingTargets.insert peer }
  if peer ∈ b.routingTargets then some w else w.sendAll bag peer

def removeRoutingTarget (w : StateBags) (bag : BagPtr) (peer : Int) : StateBags :=
  match w.bags[bag]? with
  | some b => w.setBag bag { b with routingTargets := b.routingTargets.erase peer }
  | none => w

/-- `SetOwningPeer`. -/
def setOwningPeer (w : StateBags) (bag : BagPtr) (peer : Option Int) : Option StateBags := do
  let b ← w.bags[bag]?
  some (w.setBag bag { b with owningPeer := peer })

/-- The bag that `weak_ptr::lock` gives for an entry of the map. -/
def lock (w : StateBags) (bag : BagPtr) : Option BagPtr := if bag ∈ w.bags then some bag else none

def getStateBag (w : StateBags) (id : Str) : Option BagPtr := w.component.stateBags[id]?.bind w.lock

/-- The end of `RegisterStateBag`: a new bag in the map, which is not to be erased. -/
def newStateBag (w : StateBags) (id : Str) : StateBags :=
  { w with
    bags := w.bags.insert w.nextBag { id }
    nextBag := w.nextBag + 1
    component := { w.component with
      stateBags := w.component.stateBags.insert id w.nextBag
      erasureList := w.component.erasureList.erase id } }

/-- `RegisterStateBag`, with the reference it returns. -/
def registerStateBag (w : StateBags) (id : Str) : BagPtr × StateBags :=
  match w.getStateBag id with
  | some bagRef =>
    (bagRef, { w with
      component := { w.component with preCreatedStateBags := w.component.preCreatedStateBags.erase bagRef } })
  | none => (w.nextBag, w.newStateBag id)

/-- `UnregisterStateBag`. -/
def unregisterStateBag (w : StateBags) (id : Str) : StateBags :=
  { w with component := { w.component with erasureList := w.component.erasureList.insert id } }

/-- A strong reference to `bag` is gone. With the last one the bag is destroyed. -/
def release (w : StateBags) (bag : BagPtr) : StateBags :=
  if bag ∈ w.held ∨ bag ∈ w.component.preCreatedStateBags ∨ w.tasks.any (·.bag = bag) then w
  else
    match w.bags[bag]? with
    | some b => { w with bags := w.bags.erase bag }.unregisterStateBag b.id
    | none => w

def registerTarget (w : StateBags) (id : Int) : Option StateBags :=
  if id ∈ w.component.targets then some w
  else
    let w := { w with component := { w.component with targets := w.component.targets.insert id } }
    (w.component.stateBags.toList.filterMap fun entry => w.lock entry.2).foldlM (fun w bag =>
      w.sendAllInitial bag id) w

def unregisterTarget (w : StateBags) (id : Int) : StateBags :=
  let w := { w with component := { w.component with targets := w.component.targets.erase id } }
  (w.component.stateBags.toList.filterMap fun entry => w.lock entry.2).foldl (fun w bag =>
    w.removeRoutingTarget bag id) w

def addSafePreCreatePrefix (w : StateBags) (idPrefix : Str) : StateBags :=
  { w with component := { w.component with preCreatePrefixes := w.component.preCreatePrefixes.insert idPrefix } }

def isSafePreCreateName (w : StateBags) (id : Str) : Bool :=
  w.component.preCreatePrefixes.toList.any fun idPrefix => idPrefix.isPrefixOf id

def preCreateStateBag (w : StateBags) (id : Str) : BagPtr × StateBags :=
  let (bag, w) := w.registerStateBag id
  (bag, { w with component := { w.component with preCreatedStateBags := w.component.preCreatedStateBags.insert bag } })

/-- The tick of the resource manager. -/
def onTick (w : StateBags) : StateBags :=
  { w with component := { w.component with
      stateBags := w.component.erasureList.toList.foldl (·.erase ·) w.component.stateBags
      erasureList := ∅ } }

/-- `Reset`. Dropping a pre-created bag can destroy it. -/
def reset (w : StateBags) : StateBags :=
  let preCreated := w.component.preCreatedStateBags.toList
  let w := { w with component := { w.component with stateBags := ∅, preCreatedStateBags := ∅ }, registered := ∅ }
  preCreated.foldl release w

/-- `readStr` of `HandlePacket`. -/
def readStr (buffer : MessageBuffer) : Option (Str × MessageBuffer) :=
  let (length, _, buffer) := buffer.read false 16
  if length.toNat = 0 then some ([], buffer)
  else do
    let (rbuffer, _, buffer) ← buffer.readBits false (List.replicate (length.toNat - 1) 0)
      (8 * (length.toNat - 1 : Nat))
    let (_, _, buffer) := buffer.read false 8
    some (rbuffer, buffer)

/-- The id, the key and the value that `HandlePacket` finds in a packet; `some none`
where it returns. -/
def parsePacket (dataRaw : List Byte) : Option (Option (Str × Str × Str)) := do
  let (idNameBuffer, buffer) ← readStr (.ofBytes dataRaw)
  if idNameBuffer = [] then some none
  else
    let (keyBuffer, buffer) ← readStr buffer
    if keyBuffer = [] then some none
    else
      let dataLength := dataRaw.length * 8 - buffer.getCurrentBit
      if dataLength = 0 then some none
      else do
        let (data, _, _) ← buffer.readBits false (List.replicate (dataLength / 8) 0) (int32 dataLength)
        some (some (idNameBuffer, keyBuffer, data))

/-- The bag that `HandlePacket` uses for a name. -/
def findBag (w : StateBags) (bagName : Str) : Option BagPtr × StateBags :=
  match w.getStateBag bagName with
  | some bag => (some bag, w)
  | none =>
    if w.isSafePreCreateName bagName then
      let (bag, w) := w.preCreateStateBag bagName
      (some bag, w)
    else (none, w)

def handlePacket (w : StateBags) (source : Int) (dataRaw : List Byte) (change : StateBagChange) :
    Option StateBags := do
  match ← parsePacket dataRaw with
  | none => some w
  | some (bagName, key, data) =>
    match w.findBag bagName with
    | (none, w) => some w
    | (some bag, w) => do
      let b ← w.bags[bag]?
      if b.owningPeer.isSome ∧ b.owningPeer ≠ some source then some w
      else w.setKey ⟨bag, source, key, data, w.component.role = .server⟩ change

/-- What can happen to the component. -/
inductive Call where
  | registerStateBag (id : Str)
  | drop (bag : BagPtr)
  | setKey (call : SetKeyCall) (change : StateBagChange)
  | runTask (taken : Bool)
  | setOwningPeer (bag : BagPtr) (peer : Option Int)
  | setRoutingTargets (bag : BagPtr) (peers : TreeSet Int)
  | addRoutingTarget (bag : BagPtr) (peer : Int)
  | removeRoutingTarget (bag : BagPtr) (peer : Int)
  | registerTarget (id : Int)
  | unregisterTarget (id : Int)
  | addSafePreCreatePrefix (idPrefix : Str)
  | handlePacket (source : Int) (dataRaw : List Byte) (change : StateBagChange)
  | onTick
  | reset

/-- `none` is a call through a dangling pointer, a drop of a reference nobody has, or an
access outside a buffer. -/
def step (w : StateBags) : Call → Option StateBags
  | .registerStateBag id =>
    let (bag, w) := w.registerStateBag id
    some { w with held := w.held.insert bag, registered := w.registered.insert id bag }
  | .drop bag => if bag ∈ w.held then some ({ w with held := w.held.erase bag }.release bag) else none
  | .setKey call change => w.setKey call change
  | .runTask taken =>
    match w.tasks with
    | [] => none
    | call :: tasks =>
      let w := { w with tasks }
      (if taken then w.setKeyInternal call else some w).map (·.release call.bag)
  | .setOwningPeer bag peer => w.setOwningPeer bag peer
  | .setRoutingTargets bag peers => w.setRoutingTargets bag peers
  | .addRoutingTarget bag peer => w.addRoutingTarget bag peer
  | .removeRoutingTarget bag peer => some (w.removeRoutingTarget bag peer)
  | .registerTarget id => w.registerTarget id
  | .unregisterTarget id => some (w.unregisterTarget id)
  | .addSafePreCreatePrefix idPrefix => some (w.addSafePreCreatePrefix idPrefix)
  | .handlePacket source dataRaw change => w.handlePacket source dataRaw change
  | .onTick => some w.onTick
  | .reset => some w.reset

/-- A new component; `dataBuffer` has its own fixed size. -/
def create (role : StateBagRole) : StateBags := { component := { role }, dataBuffer := .ofSize 131072 }

end StateBags

end fx
