import Citizen.GameState.ObjectIds
import Citizen.GameState.Records
import Citizen.GameState.Tick

open Std

namespace fx

open sync

/-- A record of an acknowledgement packet of the client. -/
inductive AckRecord
  | create (objectId uniqifier : Nat)
  | remove (objectId uniqifier : Nat)
  deriving Repr, DecidableEq

/-- A `gameStateNAck`, without the resend frames. -/
structure FrameNAck where
  thisFrame : Nat
  missing : Option (Nat × Nat)
  recreates : List Nat
  deriving Repr, DecidableEq

namespace ServerGameState

variable {Tree : Type*} (tree : SyncTreeBase Tree)

/-- One record of `ParseAckPacket`. -/
def parseAck (w : ServerGameState Tree) (c : ClientPtr) : AckRecord → ServerGameState Tree
  | .create objectId uniqifier =>
    match w.entitiesById objectId with
    | none => w
    | some e =>
      if (w.entities e).uniqifier = uniqifier then
        let slotId := (w.clients c).slotId
        (w.modifyEntity e fun entity => { entity with deletedFor := entity.deletedFor.erase slotId }).modifyClient c
          fun client =>
            { client with
              syncedEntities := client.syncedEntities.modify (objectId, uniqifier) fun data =>
                { data with hasCreated := true } }
      else w
  | .remove objectId uniqifier =>
    w.modifyClient c fun client =>
      { client with entitiesToDestroy := client.entitiesToDestroy.erase (objectId, uniqifier) }

/-- The entity has to be created again for the client. -/
def recreate (entities : SyncEntityPtr → SyncEntityState Tree) (nacked : Bool) (client : Client) (objectId : Nat)
    (e : SyncEntityPtr) : Client :=
  { client with
    syncedEntities := client.syncedEntities.modify (objectId, (entities e).uniqifier) fun data =>
      { data with hasCreated := false, hasNAckedCreate := data.hasNAckedCreate || nacked } }

/-- The entities of a frame that are in a list. -/
def recreateAll (entities : SyncEntityPtr → SyncEntityState Tree) (nacked : Bool) (state : ClientEntityState)
    (recreates : List Nat) (client : Client) : Client :=
  recreates.foldl (fun client objectId =>
    match state.syncedEntities.lookup objectId with
    | some (e, _) => recreate entities nacked client objectId e
    | none => client) client

/-- The `gameStateAck` handler, without the base frames. -/
def gameStateAck (w : ServerGameState Tree) (c : ClientPtr) (frameIndex : Nat) (recreates : List Nat) :
    ServerGameState Tree :=
  if w.syncStyle = .ARQ ∧ (w.clients c).slotId ≠ noSlot then
    w.modifyClient c fun client =>
      let client := match client.frameStates.lookup frameIndex with
        | some state => recreateAll w.entities false state recreates client
        | none => client
      { client with frameStates := client.frameStates.filter fun e => e.1 ≠ frameIndex }
  else w

/-- A missing frame: what it created is created again, and what it deleted is deleted again. -/
def nackFrame (entities : SyncEntityPtr → SyncEntityState Tree) (state : ClientEntityState)
    (client : Client) : Client :=
  let client := state.syncedEntities.foldl (fun client s =>
    if s.2.2 then client else recreate entities true client s.1 s.2.1) client
  { client with
    entitiesToDestroy := state.deletions.foldl (fun table d => table.insert d.1 (none, d.2)) client.entitiesToDestroy }

/-- The loop over `count` missing frames from `first`, newest first; `none` if a frame is not saved. -/
def nackFrames (entities : SyncEntityPtr → SyncEntityState Tree) (first : Nat) : Nat → Client → Option Client
  | 0, client => some client
  | count + 1, client =>
    (client.frameStates.lookup (first + count)).bind fun state =>
      nackFrames entities first count (nackFrame entities state client)

/-- The client after a `gameStateNAck`. `none` drops it. -/
def nackClient (entities : SyncEntityPtr → SyncEntityState Tree) (nack : FrameNAck) (client : Client) :
    Option Client :=
  let missed := match nack.missing with
    | some (first, last) => nackFrames entities first (last + 1 - first) client
    | none => some client
  missed.bind fun client =>
    (client.frameStates.lookup nack.thisFrame).map fun state => recreateAll entities true state nack.recreates client

/-- The clients that can take over an entity: of those it is relevant to, the five with the highest slots. -/
def candidates (w : ServerGameState Tree) (c : ClientPtr) (relevantTo : Finset Nat) : List ClientPtr :=
  (((List.range (MAX_CLIENTS + 1)).reverse.filter (· ∈ relevantTo)).filterMap fun slotId =>
    (w.getClientBySlotID slotId).filter (· ≠ c)).take 5

/-- `MoveEntityToCandidate`, for an entity whose owner has dropped. `distance` is how far a client is from it. -/
def moveEntityToCandidate (distance : SyncEntityPtr → ClientPtr → Nat) (w : ServerGameState Tree) (c : ClientPtr)
    (e : SyncEntityPtr) : Bool × ServerGameState Tree :=
  let entity := w.entities e
  if entity.type = .PickupPlacement ∧ tree.atOrigin entity.syncTree = true then (false, w)
  else if (w.lock entity.client).any (· ≠ c) then (true, w)
  else
    match if entity.type = .Player then none else (w.candidates c entity.relevantTo).argmin (distance e) with
    | some candidate => (true, w.reassignEntity entity.handle (some candidate))
    | none =>
      if entity.isOwnedByServerScript tree then (true, w.reassignEntity entity.handle none) else (false, w)

/-- One entity of `HandleClientDrop`, with the handles to erase. -/
def dropEntity (distance : SyncEntityPtr → ClientPtr → Nat) (c : ClientPtr) (slotId : Nat)
    (acc : ServerGameState Tree × List Nat) (e : SyncEntityPtr) : ServerGameState Tree × List Nat :=
  let (w, toErase) := acc
  let firstOwner := w.lock (w.entities e).firstOwner
  let w := w.modifyEntity e fun entity =>
    { entity.dropSlot slotId with
      firstOwnerDropped := entity.firstOwnerDropped ||
        firstOwner.any fun owner => (w.clients owner).netId == (w.clients c).netId }
  match w.moveEntityToCandidate tree distance c e with
  | (true, w) => (w, toErase)
  | (false, w) =>
    let entity := w.entities e
    if entity.isOwnedByClientScript tree && !entity.firstOwnerDropped then
      (w.reassignEntity entity.handle firstOwner, toErase)
    else (w, toErase ++ [entity.handle])

/-- In big mode, the dropped player leaves the others' scopes. -/
def dropPlayer (w : ServerGameState Tree) (netId : Nat) : ServerGameState Tree :=
  if w.bigMode then
    { w with
      clients := fun tgtClient =>
        let client := w.clients tgtClient
        match client.playersToSlots[netId]? with
        | some slot =>
          if tgtClient ∈ w.allClients then
            { client with
              playersInScope := client.playersInScope.erase slot
              playersToSlots := client.playersToSlots.erase netId }
          else client
        | none => client }
  else w

/-- `HandleClientDrop`: the object ids that the client still holds return to the pool. -/
def handleClientDrop (distance : SyncEntityPtr → ClientPtr → Nat) (w : ServerGameState Tree) (c : ClientPtr)
    (netId slotId : Nat) : ServerGameState Tree :=
  let acc := (w.dropPlayer netId).entityList.foldl (dropEntity tree distance c slotId) (w.dropPlayer netId, [])
  let w := acc.2.foldl removeClone acc.1
  { w with objectIdsSent := w.objectIdsSent \ (w.clients c).objectIds }

/-- `UnregisterTarget`: the slot leaves every state bag. -/
def unregisterTarget (w : ServerGameState Tree) (slotId : Nat) : ServerGameState Tree :=
  { w with
    entities := fun e =>
      let entity := w.entities e
      { entity with stateBag := entity.stateBag.map (·.erase slotId) } }

/-- `DropClient`, which leaves the rest to the main thread. -/
def dropClient (w : ServerGameState Tree) (c : ClientPtr) : ServerGameState Tree :=
  w.modifyClient c fun client => { client with isDropping := true }

/-- `OnDrop` and `RemoveClient`: the client leaves the registry before `HandleClientDrop` runs on the sync thread. -/
def removeClient (w : ServerGameState Tree) (c : ClientPtr) : ServerGameState Tree :=
  let client := w.clients c
  { (w.unregisterTarget client.slotId).modifyClient c fun client => { client with slotId := noSlot } with
    connected := w.connected.filter (· ≠ c)
    syncCallbacks := w.syncCallbacks ++ [.handleClientDrop c client.netId client.slotId] }

/-- The callback that held the client is over. -/
def free (w : ServerGameState Tree) (c : ClientPtr) : ServerGameState Tree :=
  { w with alive := w.alive.filter (· ≠ c), freed := c :: w.freed }

/-- A callback on the sync thread. -/
def runSyncCallback (distance : SyncEntityPtr → ClientPtr → Nat) (w : ServerGameState Tree) :
    SyncCallback → ServerGameState Tree
  | .removeClone e => w.removeClone (w.entities e).handle
  | .doRemove e => w.unregister e
  | .handleClientDrop c netId slotId => (w.handleClientDrop tree distance c netId slotId).free c

/-- The `gameStateNAck` handler, without the base frames. -/
def gameStateNAck (w : ServerGameState Tree) (c : ClientPtr) (nack : FrameNAck) : ServerGameState Tree :=
  if w.syncStyle = .NAK ∧ (w.clients c).slotId ≠ noSlot then
    match nackClient w.entities nack (w.clients c) with
    | some client => w.modifyClient c fun _ => client
    | none => w.dropClient c
  else w

/-- `ENSURE_ENTITY_STATE_BAG`. -/
def ensureStateBag (w : ServerGameState Tree) (e : SyncEntityPtr) : ServerGameState Tree :=
  w.modifyEntity e fun entity => { entity with stateBag := some (entity.stateBag.getD entity.relevantTo) }

/-- `DeleteEntity`, which leaves the removal to the sync thread. So does a cancelled `entityCreating`. -/
def deleteEntity (w : ServerGameState Tree) (e : SyncEntityPtr) : ServerGameState Tree :=
  if (w.entities e).type = .Player then w else { w with syncCallbacks := w.syncCallbacks ++ [.removeClone e] }

/-- The `entityCreating` event of a client's entity, which a script may cancel. -/
def onEntityCreating (w : ServerGameState Tree) (e : SyncEntityPtr) (cancelled : Bool) : ServerGameState Tree :=
  let w := w.modifyEntity e fun entity =>
    { entity with entityCreating := false, passedFilter := entity.passedFilter || !cancelled }
  if cancelled then w.deleteEntity e else w

/-- The `entityRemoved` event of a finalized entity. -/
def onEntityRemoved (w : ServerGameState Tree) (e : SyncEntityPtr) : ServerGameState Tree :=
  { w with syncCallbacks := w.syncCallbacks ++ [.doRemove e] }

/-- The bitsets of object ids. -/
def objectIds (w : ServerGameState Tree) : ServerObjectIds where
  objectIdsSent id := decide (id ∈ w.objectIdsSent)
  objectIdsUsed id := decide (id ∈ w.objectIdsUsed)
  objectIdsStolen id := decide (id ∈ w.objectIdsStolen)

/-- The object id that `CreateEntityFromTree` takes, which is 0 if there is none. -/
def freeObjectId (w : ServerGameState Tree) : Nat :=
  w.objectIds.scanDown (if w.lengthHack then MaxObjectId - 1 else 8191)

/-- The entity of `CreateEntityFromTree`. -/
def constructFromTree (w : ServerGameState Tree) (type : NetObjEntityType) (syncTree : Tree) (uniqifier : Nat) :
    SyncEntityState Tree where
  type := type
  handle := w.freeObjectId
  uniqifier := uniqifier
  creationToken := w.now % 2 ^ 32
  routingBucket := 0
  syncTree := syncTree
  client := none
  firstOwner := none
  timestamp := w.now
  lastReceivedAt := w.now
  passedFilter := true

/-- `CreateEntityFromTree`. -/
def createEntityFromTree (w : ServerGameState Tree) (type : NetObjEntityType) (syncTree : Tree) (uniqifier : Nat) :
    ServerGameState Tree :=
  let id := w.freeObjectId
  { (w.allocate (w.constructFromTree type syncTree uniqifier)).register w.nextEntity with
    objectIdsSent := insert id w.objectIdsSent
    objectIdsStolen := insert id w.objectIdsStolen }

/-- The native of an entity-creating RPC, once the creation token is sent. A token that is in the list stays as it
is. -/
def createRpc (w : ServerGameState Tree) (creationToken : Nat) (clientIdx : Option Nat) : ServerGameState Tree :=
  { w with
    entityCreationList := fun token =>
      if token = creationToken ∧ w.entityCreationList token = none then some ⟨clientIdx, true⟩
      else w.entityCreationList token }

/-- A client connects, is to be dropped, and leaves the registry; the messages of a client; the natives and events
of an entity: a state bag, a deletion, `entityCreating`, which may be cancelled, a reassignment, and
`entityRemoved`; an entity of the server's own; the next callback of the sync thread; the natives of creation
tokens, lockdown modes and routing buckets; and time and ticks. -/
inductive Action (Tree : Type*)
  | connect (c : ClientPtr) (netId slotId : Nat)
  | dropClient (c : ClientPtr)
  | removeClient (c : ClientPtr)
  | syncCallback (distance : SyncEntityPtr → ClientPtr → Nat)
  | record (c : ClientPtr) (record : CloneRecord)
  | ack (c : ClientPtr) (record : AckRecord)
  | gameStateAck (c : ClientPtr) (frameIndex : Nat) (recreates : List Nat)
  | gameStateNAck (c : ClientPtr) (nack : FrameNAck)
  | ensureStateBag (e : SyncEntityPtr)
  | deleteEntity (e : SyncEntityPtr)
  | entityCreating (e : SyncEntityPtr) (cancelled : Bool)
  | reassign (entityHandle : Nat) (targetClient : ClientPtr)
  | entityRemoved (e : SyncEntityPtr)
  | createEntityFromTree (type : NetObjEntityType) (syncTree : Tree) (uniqifier : Nat)
  | createRpc (creationToken : Nat) (clientIdx : Option Nat)
  | setLockdownMode (bucket : Nat) (mode : EntityLockdownMode)
  | setRoutingBucket (c : ClientPtr) (bucket : Nat)
  | wait (time : Nat)
  | tick (input : ScopeInput)

/-- One step. A client connects with a net id and a slot that are free; a client's messages are handled while it is
alive; the main thread runs an entity's `entityCreating` before its `entityRemoved`, and each once; and an
entity of the server's own needs an object id. -/
def step (w : ServerGameState Tree) : Action Tree → Option (ServerGameState Tree)
  | .connect c netId slotId =>
    if (c ∉ w.alive ∧ c ∉ w.freed) ∧ netId ≠ 0 ∧ (∀ c' ∈ w.alive, (w.clients c').netId ≠ netId) ∧
        (slotId = noSlot ∨ slotId < MAX_CLIENTS ∧ ∀ c' ∈ w.connected, (w.clients c').slotId ≠ slotId) then
      some { w.modifyClient c fun _ => { netId, slotId } with connected := c :: w.connected, alive := c :: w.alive }
    else none
  | .dropClient c => if c ∈ w.connected then some (w.dropClient c) else none
  | .removeClient c => if c ∈ w.connected then some (w.removeClient c) else none
  | .syncCallback distance =>
    match w.syncCallbacks with
    | [] => none
    | callback :: syncCallbacks => some ({ w with syncCallbacks }.runSyncCallback tree distance callback)
  | .record c record => if c ∈ w.alive then some (w.processRecord tree c record).2 else none
  | .ack c record => if c ∈ w.alive then some (w.parseAck c record) else none
  | .gameStateAck c frameIndex recreates => if c ∈ w.alive then some (w.gameStateAck c frameIndex recreates) else none
  | .gameStateNAck c nack => if c ∈ w.alive then some (w.gameStateNAck c nack) else none
  | .ensureStateBag e => if e ∈ w.entityList then some (w.ensureStateBag e) else none
  | .deleteEntity e => if e ∈ w.entityList then some (w.deleteEntity e) else none
  | .entityCreating e cancelled =>
    if e ∈ w.entityList ∧ (w.entities e).entityCreating = true then some (w.onEntityCreating e cancelled) else none
  | .reassign entityHandle targetClient =>
    if targetClient ∈ w.connected then some (w.reassignEntity entityHandle (some targetClient)) else none
  | .entityRemoved e =>
    if e ∈ w.entityList ∧ (w.entities e).finalizing = true ∧ (w.entities e).entityCreating = false ∧
        .doRemove e ∉ w.syncCallbacks then
      some (w.onEntityRemoved e)
    else none
  | .createEntityFromTree type syncTree uniqifier =>
    if w.freeObjectId ≠ 0 then some (w.createEntityFromTree type syncTree uniqifier) else none
  | .createRpc creationToken clientIdx => some (w.createRpc creationToken clientIdx)
  | .setLockdownMode bucket mode => some { w with lockdownMode := Function.update w.lockdownMode bucket mode }
  | .setRoutingBucket c bucket => some (w.modifyClient c fun client => { client with routingBucket := bucket })
  | .wait time => some { w with now := w.now + time }
  | .tick input => some (w.tick tree input)

end ServerGameState

end fx
