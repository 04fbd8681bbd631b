import Citizen.GameState.Basic
import Citizen.Lib.Loop
import Citizen.Lib.Transition

namespace fx

/-- The net id of a client that has none yet. From here on they are not final. -/
def noFinalNetId : Nat := 0xFFFF

/-- What `Client` has for the registry. -/
structure RegistryClient where
  guid : String
  peer : Option Nat := none
  netId : Nat := noFinalNetId
  connectionToken : String := ""
  slotId : Nat := noSlot
  passedValidation : Bool := false
  deriving DecidableEq

namespace RegistryClient

/-- `GetPeer`: 0 without a peer. -/
def getPeer (client : RegistryClient) : Nat := client.peer.getD 0

end RegistryClient

/-- `ClientRegistry`, with the client objects; `newest` is the client that was last made for a guid, until it is
removed. -/
structure ClientRegistry where
  oneSync : Bool
  bigMode : Bool
  objects : ClientPtr → RegistryClient
  nextClient : ClientPtr
  alive : ClientPtr → Bool
  clients : String → Option ClientPtr
  clientsByPeer : Nat → Option ClientPtr
  clientsByNetId : Nat → Option ClientPtr
  clientsByConnectionToken : String → Option ClientPtr
  clientsBySlotId : Nat → Option ClientPtr
  curNetId : Nat
  newest : String → Option ClientPtr

namespace ClientRegistry

/-- The size of `m_clientsBySlotId`. -/
def slots (r : ClientRegistry) : Nat := if r.bigMode then MAX_CLIENTS else 129

/-- `lock` of a weak reference. -/
def lock (r : ClientRegistry) (ref : Option ClientPtr) : Option ClientPtr := ref.filter (r.alive ·)

def getClientByGuid (r : ClientRegistry) (guid : String) : Option ClientPtr := r.clients guid

def getClientByPeer (r : ClientRegistry) (peer : Nat) : Option ClientPtr := r.lock (r.clientsByPeer peer)

def getClientByNetID (r : ClientRegistry) (netId : Nat) : Option ClientPtr := r.lock (r.clientsByNetId netId)

def getClientBySlotID (r : ClientRegistry) (slotId : Nat) : Option ClientPtr := r.lock (r.clientsBySlotId slotId)

def getClientByConnectionToken (r : ClientRegistry) (token : String) : Option ClientPtr :=
  r.lock (r.clientsByConnectionToken token)

def modify (r : ClientRegistry) (c : ClientPtr) (f : RegistryClient → RegistryClient) : ClientRegistry :=
  { r with objects := Function.update r.objects c (f (r.objects c)) }

/-- `MakeClient`. The table keeps the client that it has for the guid. -/
def makeClient (r : ClientRegistry) (guid : String) : ClientRegistry :=
  { r with
    objects := Function.update r.objects r.nextClient { guid }
    nextClient := r.nextClient + 1
    alive := Function.update r.alive r.nextClient true
    clients := if (r.clients guid).isSome then r.clients else Function.update r.clients guid (some r.nextClient)
    newest := Function.update r.newest guid (some r.nextClient) }

/-- The highest free slot. Slot 31 is a special case. -/
def freeSlot (r : ClientRegistry) : Option Nat :=
  ((List.range r.slots).reverse.filter (· ≠ 31)).find? fun slot => (r.getClientBySlotID slot).isNone

/-- The handler of `OnAssignPeer`. A client that reconnects keeps its slot. -/
def onAssignPeer (r : ClientRegistry) (c : ClientPtr) : ClientRegistry :=
  let slot := if r.oneSync ∧ (r.objects c).slotId = noSlot then r.freeSlot else none
  let r := { r with clientsByPeer := Function.update r.clientsByPeer (r.objects c).getPeer (some c) }
  match slot with
  | none => r
  | some slot =>
    { r.modify c fun client => { client with slotId := slot } with
      clientsBySlotId := Function.update r.clientsBySlotId slot (some c) }

/-- `SetPeer`. -/
def setPeer (r : ClientRegistry) (c : ClientPtr) (peer : Nat) : ClientRegistry :=
  (r.modify c fun client => { client with peer := some peer }).onAssignPeer c

/-- `SetNetId`. -/
def setNetId (r : ClientRegistry) (c : ClientPtr) (netId : Nat) : ClientRegistry :=
  { r.modify c fun client => { client with netId } with
    clientsByNetId := Function.update r.clientsByNetId netId (some c) }

/-- `SetConnectionToken`. -/
def setConnectionToken (r : ClientRegistry) (c : ClientPtr) (connectionToken : String) : ClientRegistry :=
  { r.modify c fun client => { client with connectionToken } with
    clientsByConnectionToken := Function.update r.clientsByConnectionToken connectionToken (some c) }

/-- `incrementId` of `HandleConnectingClient`. -/
def incrementId (netId : Nat) : Nat := if netId + 1 = 0xFFFF then 1 else netId + 1

/-- The first net id from the current one on that no client has. The loop does not end if there is none. -/
def freeNetId (r : ClientRegistry) : Option Nat :=
  (List.iterate incrementId r.curNetId 0xFFFE).find? fun netId => (r.getClientByNetID netId).isNone

/-- `HandleConnectingClient`. -/
def handleConnectingClient (r : ClientRegistry) (c : ClientPtr) : Option ClientRegistry :=
  r.freeNetId.map fun netId => { r.setNetId c netId with curNetId := incrementId netId }

/-- `RemoveClient`, without `OnDrop`. -/
def removeClient (r : ClientRegistry) (c : ClientPtr) : ClientRegistry :=
  let client := r.objects c
  { r.modify c fun client => { client with slotId := noSlot } with
    clientsByPeer := Function.update r.clientsByPeer client.getPeer none
    clientsByNetId := Function.update r.clientsByNetId client.netId none
    clientsByConnectionToken := Function.update r.clientsByConnectionToken client.connectionToken none
    clientsBySlotId :=
      if client.slotId < r.slots then Function.update r.clientsBySlotId client.slotId none else r.clientsBySlotId
    clients := Function.update r.clients client.guid none
    newest := if r.newest client.guid = some c then Function.update r.newest client.guid none else r.newest }

/-- The client is in the table of the registry. -/
def Registered (r : ClientRegistry) (c : ClientPtr) : Prop := r.clients (r.objects c).guid = some c

instance (r : ClientRegistry) (c : ClientPtr) : Decidable (r.Registered c) := by
  unfold Registered
  infer_instance

/-- The calls; and an object goes away when the registry does not have it. -/
inductive Action
  | makeClient (guid : String)
  | setPeer (c : ClientPtr) (peer : Nat)
  | setNetId (c : ClientPtr) (netId : Nat)
  | setConnectionToken (c : ClientPtr) (connectionToken : String)
  | handleConnectingClient (c : ClientPtr)
  | removeClient (c : ClientPtr)
  | destroy (c : ClientPtr)

/-- One step. -/
def step (r : ClientRegistry) : Action → Option ClientRegistry
  | .makeClient guid => some (r.makeClient guid)
  | .setPeer c peer => if r.alive c then some (r.setPeer c peer) else none
  | .setNetId c netId => if r.alive c then some (r.setNetId c netId) else none
  | .setConnectionToken c connectionToken => if r.alive c then some (r.setConnectionToken c connectionToken) else none
  | .handleConnectingClient c => if r.alive c then r.handleConnectingClient c else none
  | .removeClient c => if r.alive c then some (r.removeClient c) else none
  | .destroy c =>
    if r.alive c ∧ ¬ r.Registered c then some { r with alive := Function.update r.alive c false } else none

/-- What a registered client has now leads to it. -/
structure Reachable (r : ClientRegistry) (c : ClientPtr) : Prop where
  peer : ∀ peer, (r.objects c).peer = some peer → r.getClientByPeer peer = some c
  netId : (r.objects c).netId ≠ noFinalNetId → r.getClientByNetID (r.objects c).netId = some c
  slotId : (r.objects c).slotId ≠ noSlot → r.getClientBySlotID (r.objects c).slotId = some c
  connectionToken : (r.objects c).connectionToken ≠ "" →
    r.getClientByConnectionToken (r.objects c).connectionToken = some c

/-- A guid leads to the client that was last made for it; a registered client is found under all that it has; no two
share a final net id or a slot; and no client has slot 31. -/
structure Coherent (r : ClientRegistry) : Prop where
  newest : ∀ guid c, r.newest guid = some c → r.getClientByGuid guid = some c
  reachable : ∀ c, r.Registered c → r.Reachable c
  netId_inj : ∀ c c', r.Registered c → r.Registered c' → 1 ≤ (r.objects c).netId → (r.objects c).netId < noFinalNetId →
    (r.objects c).netId = (r.objects c').netId → c = c'
  slotId_inj : ∀ c c', r.Registered c → r.Registered c' → (r.objects c).slotId ≠ noSlot →
    (r.objects c).slotId = (r.objects c').slotId → c = c'
  special : ∀ c, (r.objects c).slotId ≠ 31

/-- No step leads out of coherence. -/
def KeepsCoherent (r : ClientRegistry) (a : Action) : Prop := ∀ r', r.step a = some r' → r'.Coherent

/-- No other registered client has any of the keys that `RemoveClient` clears. -/
def RemovesAlone (r : ClientRegistry) (c : ClientPtr) : Prop :=
  ∀ c', r.Registered c' → c' ≠ c →
    (r.objects c').guid ≠ (r.objects c).guid ∧
    (r.objects c').peer ≠ some (r.objects c).getPeer ∧
    ((r.objects c').netId = (r.objects c).netId → (r.objects c').netId = noFinalNetId) ∧
    ((r.objects c').slotId = (r.objects c).slotId → (r.objects c').slotId = noSlot) ∧
    ((r.objects c').connectionToken = (r.objects c).connectionToken → (r.objects c').connectionToken = "")

/-- A client is made for a guid that no client is registered under, takes no peer, net id or token of another
registered client, and is not removed with what another registered client has by then. -/
def Orderly (r : ClientRegistry) : Action → Prop
  | .makeClient guid => r.getClientByGuid guid = none
  | .setPeer c peer => ∀ c', r.Registered c' → c' ≠ c → (r.objects c').peer ≠ some peer
  | .setNetId c netId => netId ≠ noFinalNetId → ∀ c', r.Registered c' → c' ≠ c → (r.objects c').netId ≠ netId
  | .setConnectionToken c connectionToken =>
    connectionToken ≠ "" → ∀ c', r.Registered c' → c' ≠ c → (r.objects c').connectionToken ≠ connectionToken
  | .removeClient c => r.RemovesAlone c
  | _ => True

/-- A registry without clients. -/
def empty (oneSync bigMode : Bool) : ClientRegistry where
  oneSync := oneSync
  bigMode := bigMode
  objects _ := { guid := "" }
  nextClient := 0
  alive _ := false
  clients _ := none
  clientsByPeer _ := none
  clientsByNetId _ := none
  clientsByConnectionToken _ := none
  clientsBySlotId _ := none
  curNetId := 1
  newest _ := none

end ClientRegistry

end fx
