import Citizen.GameState.Basic

open Std

namespace fx

open sync

/-- A record of a clone packet, as its fields are read. -/
inductive CloneRecord
  | create (uniqifier objectId creationToken objectType : Nat) (bitBytes : List (BitVec 8))
  | sync (uniqifier objectId : Nat) (bitBytes : List (BitVec 8))
  | remove (objectId uniqifier : Nat)
  | takeover (clientId objectId : Nat)
  | setTimestamp (newTs : Nat)
  | setIndex (newIndex : Nat)
  deriving Repr, DecidableEq

/-- How a record ends. -/
inductive CloneResult
  | accepted
  | noObjectId
  | noSyncTree
  | duplicateCreate
  | wrongEntity
  | wrongUniqifier
  | noSlot
  | outOfScope
  | noClient
  | wrongOwner
  | notCreated
  | noTarget
  | sameOwner
  deriving Repr, DecidableEq

/-- The record is refused for its owner, its uniqifier or its object id. -/
def CloneResult.refused : CloneResult → Bool
  | .noObjectId | .duplicateCreate | .wrongEntity | .wrongUniqifier | .noClient | .wrongOwner => true
  | _ => false

namespace ServerGameState

variable {Tree : Type*} (tree : SyncTreeBase Tree)

/-- Some other client may still send the entity's data: the last owner, for a second after a migration. -/
def recentOwner (w : ServerGameState Tree) (c : ClientPtr) (e : SyncEntityPtr) : Bool :=
  w.lock (w.entities e).lastOwner == some c && w.now - (w.entities e).lastMigratedAt ≤ 1000

/-- The bytes of a record that has passed the checks. -/
def parseClone (entity : SyncEntityState Tree) (parsingType timestamp frameIndex : Nat) (bitBytes : List (BitVec 8)) :
    SyncEntityState Tree :=
  if bitBytes = [] then entity
  else
    { entity with
      lastFrameIndex := frameIndex
      timestamp := timestamp
      syncTree := tree.parse entity.syncTree bitBytes parsingType timestamp frameIndex
      hasSynced := entity.hasSynced || parsingType == 2 }

/-- What a record that has passed the checks does to its entity, and to the client of a player. A refused create has
no state bag yet. -/
def receiveClone (w : ServerGameState Tree) (c : ClientPtr) (e : SyncEntityPtr) (parsingType : Nat)
    (bitBytes : List (BitVec 8)) : ServerGameState Tree :=
  let syncTs := (w.clients c).syncTs
  let outOfBand := if w.ownsEntity c e then (w.entities e).lastOutOfBandTimestamp else syncTs
  let w := w.modifyEntity e fun entity =>
    parseClone tree
      { entity with
        lastOutOfBandTimestamp := outOfBand
        lastReceivedAt := w.now
        stateBag := entity.stateBag.map (insert (w.clients c).slotId) }
      parsingType syncTs w.frameIndex bitBytes
  if (w.entities e).type = .Player then w.modifyClient c fun client => { client with playerEntity := some e } else w

/-- `ProcessClonePacket` from the check of the uniqifier to the parsing, for the entity it has found or made. -/
def syncClone (w : ServerGameState Tree) (c : ClientPtr) (e : SyncEntityPtr) (parsingType uniqifier : Nat)
    (bitBytes : List (BitVec 8)) : CloneResult × ServerGameState Tree :=
  let slotId := (w.clients c).slotId
  let entity := w.entities e
  if entity.uniqifier ≠ uniqifier then (.wrongUniqifier, w)
  else if MAX_CLIENTS < slotId then (.noSlot, w)
  else if slotId ∈ entity.deletedFor ∨ slotId ∈ entity.outOfScopeFor then (.outOfScope, w)
  else
    let entered := w.modifyEntity e (·.enterScope slotId)
    if w.lock entity.client = none then (.noClient, entered)
    else if w.ownsEntity c e || w.recentOwner c e then (.accepted, entered.receiveClone tree c e parsingType bitBytes)
    else (.wrongOwner, entered)

/-- The entity of a create. -/
def construct (w : ServerGameState Tree) (c : ClientPtr) (uniqifier objectId creationToken : Nat)
    (type : NetObjEntityType) :
    SyncEntityState Tree where
  type := type
  handle := objectId
  uniqifier := uniqifier
  creationToken := creationToken
  routingBucket := (w.clients c).routingBucket
  syncTree := tree.makeSyncTree type
  client := some c
  firstOwner := some c

/-- A new entity, at the free place of the pool. -/
def allocate (w : ServerGameState Tree) (entity : SyncEntityState Tree) : ServerGameState Tree :=
  { w with
    entities := Function.update w.entities w.nextEntity entity
    nextEntity := w.nextEntity + 1 }

/-- The entity is registered, and its object id in use. -/
def register (w : ServerGameState Tree) (e : SyncEntityPtr) : ServerGameState Tree :=
  { w with
    entitiesById := Function.update w.entitiesById (w.entities e).handle (some e)
    entityList := e :: w.entityList
    objectIdsUsed := insert (w.entities e).handle w.objectIdsUsed }

/-- A token in `g_entityCreationList` that no entity has used. -/
def tokenAllows (w : ServerGameState Tree) (creationToken : Nat) : Bool :=
  (w.entityCreationList creationToken).any (·.scriptGuid)

/-- `ValidateEntity`. Only object trees have the nodes of dummies and of objects with a task. -/
def validateEntity (w : ServerGameState Tree) (mode : EntityLockdownMode) (entity : SyncEntityState Tree) : Bool :=
  let population := mode != .Strict && tree.randomPopulation entity.syncTree
  let dummy := if entity.type = .Object then tree.dummyState entity.syncTree else none
  let attached := if entity.type = .Object then tree.attachedTo entity.syncTree else none
  if population then true
  else if mode = .Dummy then dummy.getD true
  else dummy.getD false || attached.any (fun handle => (w.entitiesById handle).isSome) ||
    w.tokenAllows entity.creationToken

/-- The handler of `OnEntityCreate`: the token is used up. -/
def onEntityCreate (w : ServerGameState Tree) (creationToken : Nat) : ServerGameState Tree :=
  { w with
    entityCreationList := fun token =>
      if token = creationToken then (w.entityCreationList token).map fun _ => ⟨some 0, false⟩
      else w.entityCreationList token }

/-- The last part of a create: an entity that the lockdown refuses is to be destroyed on the client, and any other is
registered, and its `entityCreating` queued. -/
def cloneCreated (w : ServerGameState Tree) (c : ClientPtr) (e : SyncEntityPtr) : CloneResult × ServerGameState Tree :=
  let w := w.modifyEntity e fun entity =>
    { entity with
      passedFilter := entity.passedFilter || entity.type == .Player
      creationToken := if (w.entityCreationList entity.creationToken).isSome then entity.creationToken else 0 }
  let entity := w.entities e
  let mode := w.lockdownMode (w.clients c).routingBucket
  if entity.type ≠ .Player ∧ mode ≠ .Inactive ∧ w.validateEntity tree mode entity = false then
    (.notCreated, (w.removeClone entity.handle).modifyClient c fun client =>
      { client with entitiesToDestroy := client.entitiesToDestroy.insert entity.pair (some e, ⟨false⟩) })
  else
    let w := (w.onEntityCreate entity.creationToken).modifyEntity e fun entity =>
      { entity with entityCreating := true }
    (.accepted, (w.modifyClient c fun client =>
      { client with syncedEntities := client.syncedEntities.insert entity.pair ⟨e, false, true, false⟩ }).register e)

/-- `ProcessClonePacket` of a create. -/
def processCloneCreate (w : ServerGameState Tree) (c : ClientPtr) (uniqifier objectId creationToken objectType : Nat)
    (bitBytes : List (BitVec 8)) : CloneResult × ServerGameState Tree :=
  if objectId = 0xFFFF then (.noObjectId, w)
  else
    match w.entitiesById objectId with
    | some _ => (.duplicateCreate, w)
    | none =>
      match NetObjEntityType.ofNat? objectType with
      | none => (.noSyncTree, w)
      | some type =>
        let made := w.allocate (w.construct tree c uniqifier objectId creationToken type)
        match made.syncClone tree c w.nextEntity 1 uniqifier bitBytes with
        | (.accepted, made) => made.cloneCreated tree c w.nextEntity
        | refused => refused

/-- `ProcessClonePacket` of a sync. -/
def processCloneSync (w : ServerGameState Tree) (c : ClientPtr) (uniqifier objectId : Nat)
    (bitBytes : List (BitVec 8)) :
    CloneResult × ServerGameState Tree :=
  if objectId = 0xFFFF then (.noObjectId, w)
  else
    match w.entitiesById objectId with
    | none => (.wrongEntity, w)
    | some e => w.syncClone tree c e 2 uniqifier bitBytes

def processCloneTakeover (w : ServerGameState Tree) (c : ClientPtr) (clientId objectId : Nat) :
    CloneResult × ServerGameState Tree :=
  match w.entitiesById objectId with
  | none => (.wrongEntity, w)
  | some e =>
    match if clientId ≠ 0 then w.getClientByNetID clientId else some c with
    | none => (.noTarget, w)
    | some tgtCl =>
      match w.lock (w.entities e).client with
      | none => (.accepted, w.reassignEntity (w.entities e).handle (some tgtCl))
      | some entityClient =>
        if (w.clients entityClient).netId = (w.clients tgtCl).netId then (.sameOwner, w)
        else if (w.clients entityClient).netId ≠ (w.clients c).netId then (.wrongOwner, w)
        else (.accepted, w.reassignEntity (w.entities e).handle (some tgtCl))

def processCloneRemove (w : ServerGameState Tree) (c : ClientPtr) (objectId uniqifier : Nat) :
    CloneResult × ServerGameState Tree :=
  match w.entitiesById objectId with
  | none => (.wrongEntity, w)
  | some e =>
    match w.lock (w.entities e).client with
    | none => (.wrongOwner, w)
    | some entityClient =>
      if (w.clients c).netId ≠ (w.clients entityClient).netId then (.wrongOwner, w)
      else if (w.entities e).uniqifier ≠ uniqifier then (.wrongUniqifier, w)
      else (.accepted, w.removeClone objectId)

/-- A timestamp is taken when it is newer than the last. -/
def setTimestamp (w : ServerGameState Tree) (c : ClientPtr) (newTs : Nat) : ServerGameState Tree :=
  w.modifyClient c fun client =>
    if client.ackTs = 0 ∨ client.ackTs < newTs then { client with ackTs := newTs, syncTs := newTs } else client

/-- One record of `ParseClonePacket`. -/
def processRecord (w : ServerGameState Tree) (c : ClientPtr) : CloneRecord → CloneResult × ServerGameState Tree
  | .create uniqifier objectId creationToken objectType bitBytes =>
    w.processCloneCreate tree c uniqifier objectId creationToken objectType bitBytes
  | .sync uniqifier objectId bitBytes => w.processCloneSync tree c uniqifier objectId bitBytes
  | .remove objectId uniqifier => w.processCloneRemove c objectId uniqifier
  | .takeover clientId objectId => w.processCloneTakeover c clientId objectId
  | .setTimestamp newTs => (.accepted, w.setTimestamp c newTs)
  | .setIndex newIndex => (.accepted, w.modifyClient c fun client => { client with fidx := newIndex })

end ServerGameState

end fx
