import Citizen.Clones.Slot

open Std

namespace fx

namespace sync

inductive NetObjEntityType
  | Automobile
  | Bike
  | Boat
  | Door
  | Heli
  | Object
  | Ped
  | Pickup
  | PickupPlacement
  | Plane
  | Submarine
  | Player
  | Trailer
  | Train
  deriving Repr, DecidableEq

/-- The type with a number, when there is one. -/
def NetObjEntityType.ofNat? : Nat → Option NetObjEntityType
  | 0 => some .Automobile
  | 1 => some .Bike
  | 2 => some .Boat
  | 3 => some .Door
  | 4 => some .Heli
  | 5 => some .Object
  | 6 => some .Ped
  | 7 => some .Pickup
  | 8 => some .PickupPlacement
  | 9 => some .Plane
  | 10 => some .Submarine
  | 11 => some .Player
  | 12 => some .Trailer
  | 13 => some .Train
  | _ => none

/-- The types whose trees have a `CVehicleGameStateNodeData`. -/
def NetObjEntityType.isVehicle : NetObjEntityType → Bool
  | .Automobile | .Bike | .Boat | .Heli | .Plane | .Submarine | .Trailer | .Train => true
  | _ => false

/-- The types whose trees have a `CEntityScriptInfoDataNode`. -/
def NetObjEntityType.hasScriptInfo : NetObjEntityType → Bool
  | .Door | .PickupPlacement | .Player => false
  | _ => true

/-- What `ServerGameState` asks of a sync tree. `parse` is given the bytes, the parsing type, the timestamp and the
frame; `atOrigin` says that `GetPosition` has x and y 0; `randomPopulation` that `GetPopulationType` is one of
the random types; `dummyState` is there for dummy objects, and says whether the object explodes; `attachedTo` is
the handle that an object with a task is attached to as a parachute. -/
structure SyncTreeBase (Tree : Type*) where
  makeSyncTree : NetObjEntityType → Tree
  parse : Tree → List (BitVec 8) → Nat → Nat → Nat → Tree
  getScriptHash : Tree → Nat
  atOrigin : Tree → Bool
  randomPopulation : Tree → Bool
  dummyState : Tree → Option Bool
  attachedTo : Tree → Option Nat

end sync

open sync

/-- A `sync::SyncEntityPtr`. -/
abbrev SyncEntityPtr := Nat

/-- A `fx::ClientSharedPtr`. -/
abbrev ClientPtr := Nat

instance ordPair : Ord (Nat × Nat) := lexOrd

inductive EntityLockdownMode
  | Inactive
  | Dummy
  | Relaxed
  | Strict
  deriving Repr, DecidableEq

/-- `clientIdx` is the net id the token was sent to; `none` is everyone. -/
structure EntityCreationState where
  clientIdx : Option Nat
  scriptGuid : Bool
  deriving Repr, DecidableEq

def MAX_CLIENTS : Nat := 2048 + 1

def MaxObjectId : Nat := 2 ^ 16 - 1

/-- The slot of a client without one: -1. -/
def noSlot : Nat := 0xFFFFFFFF

/-- `stateBag` holds the routing targets of the entity's state bag, without the placeholder -1; `entityCreating`
says that the event of that name waits on the main thread. -/
structure SyncEntityState (Tree : Type*) where
  type : NetObjEntityType
  handle : Nat
  uniqifier : Nat
  creationToken : Nat
  routingBucket : Nat
  syncTree : Tree
  client : Option ClientPtr
  firstOwner : Option ClientPtr
  lastOwner : Option ClientPtr := none
  timestamp : Nat := 0
  lastOutOfBandTimestamp : Nat := 0
  lastFrameIndex : Nat := 0
  lastReceivedAt : Nat := 0
  lastMigratedAt : Nat := 0
  relevantTo : Finset Nat := ∅
  deletedFor : Finset Nat := ∅
  outOfScopeFor : Finset Nat := ∅
  deleting : Bool := false
  finalizing : Bool := false
  hasSynced : Bool := false
  passedFilter : Bool := false
  wantsReassign : Bool := false
  firstOwnerDropped : Bool := false
  entityCreating : Bool := false
  stateBag : Option (Finset Nat) := none

structure SyncedEntityData where
  entity : SyncEntityPtr
  forceUpdate : Bool
  hasCreated : Bool
  hasNAckedCreate : Bool := false
  deriving Repr, DecidableEq

structure EntityDeletionData where
  outOfScope : Bool
  deriving Repr, DecidableEq

/-- A saved frame: by object id, the entities that were in it and whether each was created; and the deletions. -/
structure ClientEntityState where
  syncedEntities : List (Nat × SyncEntityPtr × Bool) := []
  deletions : List ((Nat × Nat) × EntityDeletionData) := []

/-- A client of the registry with its `GameStateClientData`. The tables are by `MakeHandleUniqifierPair`; a null
pointer in `entitiesToDestroy` is `none`. -/
structure Client where
  netId : Nat
  slotId : Nat
  routingBucket : Nat := 0
  syncTs : Nat := 0
  ackTs : Nat := 0
  fidx : Nat := 0
  playerEntity : Option SyncEntityPtr := none
  playersToSlots : TreeMap Nat Nat := ∅
  playersInScope : Finset Nat := ∅
  objectIds : Finset Nat := ∅
  syncedEntities : TreeMap (Nat × Nat) SyncedEntityData := ∅
  entitiesToDestroy : TreeMap (Nat × Nat) (Option SyncEntityPtr × EntityDeletionData) := ∅
  frameStates : List (Nat × ClientEntityState) := []
  firstSavedFrameState : Nat := 0
  isDropping : Bool := false

namespace SyncEntityState

variable {Tree : Type*}

/-- `MakeHandleUniqifierPair`. -/
def pair (entity : SyncEntityState Tree) : Nat × Nat := (entity.handle, entity.uniqifier)

def isOwnedByScript (tree : SyncTreeBase Tree) (entity : SyncEntityState Tree) : Bool :=
  entity.type.hasScriptInfo && tree.getScriptHash entity.syncTree != 0

def isOwnedByClientScript (tree : SyncTreeBase Tree) (entity : SyncEntityState Tree) : Bool :=
  entity.isOwnedByScript tree && entity.creationToken == 0

def isOwnedByServerScript (tree : SyncTreeBase Tree) (entity : SyncEntityState Tree) : Bool :=
  entity.isOwnedByScript tree && entity.creationToken != 0

/-- The entity becomes relevant to a slot. -/
def enterScope (entity : SyncEntityState Tree) (slotId : Nat) : SyncEntityState Tree :=
  { entity with
    relevantTo := insert slotId entity.relevantTo
    outOfScopeFor := entity.outOfScopeFor.erase slotId }

/-- The client of a slot has dropped. -/
def dropSlot (entity : SyncEntityState Tree) (slotId : Nat) : SyncEntityState Tree :=
  if slotId = noSlot then entity
  else
    { entity with
      relevantTo := entity.relevantTo.erase slotId
      deletedFor := entity.deletedFor.erase slotId
      outOfScopeFor := entity.outOfScopeFor.erase slotId }

end SyncEntityState

/-- What the main thread leaves to the sync thread: the `RemoveClone` of a deletion, the end of `FinalizeClone`, and
`HandleClientDrop`. -/
inductive SyncCallback
  | removeClone (e : SyncEntityPtr)
  | doRemove (e : SyncEntityPtr)
  | handleClientDrop (c : ClientPtr) (netId slotId : Nat)
  deriving Repr, DecidableEq

/-- `entities` is the pool, in which `nextEntity` is free; `entitiesById` and `entityList` are the registered
entities, and `connected` the clients of the registry. A client is `alive` until its `HandleClientDrop` has run,
whose callback holds it, and its pointer is not used again. `now` is `msec()`, `lockdownMode` is by routing
bucket, and `entityCreationList` by creation token. `syncCallbacks` wait for the sync thread, oldest first. -/
structure ServerGameState (Tree : Type*) where
  syncStyle : SyncStyle
  bigMode : Bool
  lengthHack : Bool
  frameIndex : Nat
  now : Nat
  entities : SyncEntityPtr → SyncEntityState Tree
  nextEntity : SyncEntityPtr
  entitiesById : Nat → Option SyncEntityPtr
  entityList : List SyncEntityPtr
  clients : ClientPtr → Client
  connected : List ClientPtr
  alive : List ClientPtr
  freed : List ClientPtr := []
  objectIdsSent : Finset Nat := ∅
  objectIdsUsed : Finset Nat := ∅
  objectIdsStolen : Finset Nat := ∅
  lockdownMode : Nat → EntityLockdownMode := fun _ => .Inactive
  entityCreationList : Nat → Option EntityCreationState := fun _ => none
  syncCallbacks : List SyncCallback := []

namespace ServerGameState

variable {Tree : Type*}

/-- A weak pointer to a client, locked. -/
def lock (w : ServerGameState Tree) (client : Option ClientPtr) : Option ClientPtr :=
  client.filter fun c => decide (c ∈ w.alive)

/-- `ForAllClients`, which leaves out those that are dropping. -/
def allClients (w : ServerGameState Tree) : List ClientPtr := w.connected.filter fun c => !(w.clients c).isDropping

/-- The client is the entity's owner, by its net id. -/
def ownsEntity (w : ServerGameState Tree) (c : ClientPtr) (e : SyncEntityPtr) : Bool :=
  (w.lock (w.entities e).client).any fun owner => (w.clients owner).netId == (w.clients c).netId

def getClientByNetID (w : ServerGameState Tree) (netId : Nat) : Option ClientPtr :=
  w.connected.find? fun c => (w.clients c).netId == netId

def getClientBySlotID (w : ServerGameState Tree) (slotId : Nat) : Option ClientPtr :=
  if slotId < MAX_CLIENTS then w.connected.find? fun c => (w.clients c).slotId == slotId else none

def modifyEntity (w : ServerGameState Tree) (e : SyncEntityPtr) (f : SyncEntityState Tree → SyncEntityState Tree) :
    ServerGameState Tree :=
  { w with entities := Function.update w.entities e (f (w.entities e)) }

def modifyClient (w : ServerGameState Tree) (c : ClientPtr) (f : Client → Client) : ServerGameState Tree :=
  { w with clients := Function.update w.clients c (f (w.clients c)) }

/-- `RemoveClone`. -/
def removeClone (w : ServerGameState Tree) (objectId : Nat) : ServerGameState Tree :=
  match w.entitiesById objectId with
  | some e => w.modifyEntity e fun entity => { entity with deleting := true }
  | none => w

/-- `ReassignEntity`: players stay where they are, the object id goes with the entity and is marked as stolen, and the
clients the entity is relevant to are forced an update. -/
def reassignEntity (w : ServerGameState Tree) (entityHandle : Nat) (targetClient : Option ClientPtr) :
    ServerGameState Tree :=
  match w.entitiesById entityHandle with
  | none => w
  | some e =>
    if (w.entities e).type = .Player then w
    else
      let oldClient := w.lock (w.entities e).client
      let w := w.modifyEntity e fun entity =>
        { entity with lastMigratedAt := w.now, lastOwner := oldClient, client := targetClient }
      let forced := fun (c : ClientPtr) (client : Client) =>
        if c ∈ w.allClients ∧ client.slotId ≠ noSlot ∧ client.slotId ∈ (w.entities e).relevantTo then
          client.syncedEntities.modify (w.entities e).pair fun data => { data with forceUpdate := true }
        else client.syncedEntities
      let objectIds := fun (c : ClientPtr) (client : Client) =>
        let left := if oldClient = some c then client.objectIds.erase entityHandle else client.objectIds
        if targetClient = some c then insert entityHandle left else left
      { w with
        clients := fun c =>
          let client := w.clients c
          { client with objectIds := objectIds c client, syncedEntities := forced c client }
        objectIdsStolen := insert entityHandle w.objectIdsStolen }

end ServerGameState

end fx
