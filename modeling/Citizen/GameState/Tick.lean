import Citizen.GameState.Basic

open Std

namespace fx

open sync

/-- What a tick takes from outside: the sync style, the slots whose scopes are updated, the culling variables, which
entities are near the client's focus or in its world grid, which vehicles have player occupants, which syncs are due,
and which clients have no peer or have not been seen for five seconds. -/
structure ScopeInput where
  syncStyle : SyncStyle
  slots : List Nat
  culling : Bool
  vehicleCulling : Bool
  nearby : ClientPtr → SyncEntityPtr → Bool
  occupied : SyncEntityPtr → Bool
  due : ClientPtr → SyncEntityPtr → Bool
  fakeSend : ClientPtr → Bool
  lastSeen : ClientPtr → Bool

/-- A client's `syncedEntities`. -/
abbrev SyncedEntities := TreeMap (Nat × Nat) SyncedEntityData

/-- The saved frames once old ones have been erased and the new one is saved; `size() - 2` wraps around. -/
def Client.saveFrame (client : Client) (frameIndex : Nat) (lastSeen : Bool) (ces : ClientEntityState) : Client :=
  let thisMaxBacklog := if lastSeen then maxSavedClientFramesWorstCase else maxSavedClientFrames
  let thisMaxBacklog := max thisMaxBacklog ((client.frameStates.length + (2 ^ 64 - 2)) % 2 ^ 64)
  let first :=
    if client.firstSavedFrameState = 0 then frameIndex
    else if thisMaxBacklog - 1 ≤ frameIndex - client.firstSavedFrameState then frameIndex + 2 - thisMaxBacklog
    else client.firstSavedFrameState
  { client with
    frameStates :=
      (if client.firstSavedFrameState = 0 then client.frameStates else client.frameStates.filter fun e =>
        first ≤ e.1) ++
        [(frameIndex, ces)]
    firstSavedFrameState := first }

namespace ServerGameState

variable {Tree : Type*} (tree : SyncTreeBase Tree) (input : ScopeInput)

/-- Nobody knows of the entity any more, and nothing keeps it. -/
def collectable (w : ServerGameState Tree) (e : SyncEntityPtr) : Bool :=
  let entity := w.entities e
  decide (entity.relevantTo = ∅) &&
    (if entity.deleting then true
    else if entity.isOwnedByClientScript tree then entity.firstOwnerDropped
    else !entity.isOwnedByScript tree && (entity.type != .Player || (w.lock entity.client).isNone))

/-- `FinalizeClone`, up to the event on the main thread. -/
def finalizeClone (w : ServerGameState Tree) (e : SyncEntityPtr) : ServerGameState Tree :=
  if w.entitiesById (w.entities e).handle = some e then w.modifyEntity e fun entity =>
    { entity with finalizing := true }
  else w

/-- The end of `FinalizeClone`, on the sync thread again. A stolen object id returns to the pool. -/
def unregister (w : ServerGameState Tree) (e : SyncEntityPtr) : ServerGameState Tree :=
  let objectId := (w.entities e).handle
  let stolen := decide (objectId ∈ w.objectIdsStolen)
  { w with
    entitiesById := Function.update w.entitiesById objectId none
    entityList := w.entityList.erase e
    objectIdsUsed := w.objectIdsUsed.erase objectId
    objectIdsSent := if stolen then w.objectIdsSent.erase objectId else w.objectIdsSent
    objectIdsStolen := w.objectIdsStolen.erase objectId
    clients := fun c =>
      let client := w.clients c
      if stolen ∧ w.lock (w.entities e).client = some c then
        { client with objectIds := client.objectIds.erase objectId }
      else client }

/-- The loop that collects entities. -/
def collect (w : ServerGameState Tree) : ServerGameState Tree :=
  w.entityList.foldl (fun w e => if w.collectable tree e then w.finalizeClone e else w) w

/-- `isRelevant` before the entity's owner is looked at. -/
def isRelevant (w : ServerGameState Tree) (c : ClientPtr) (e : SyncEntityPtr) : Bool :=
  let entity := w.entities e
  let client := w.clients c
  let ownsEntity := w.ownsEntity c e
  let near := !input.culling || (ownsEntity && entity.type == .Player) ||
    (client.playerEntity.isSome && input.nearby c e)
  let always := !w.bigMode &&
    (entity.type == .Player || (entity.type.isVehicle && input.occupied e && !input.vehicleCulling))
  (near || always) && (entity.passedFilter || ownsEntity) &&
    (client.routingBucket == entity.routingBucket || client.playerEntity == some e)

/-- An owner that the entity is not relevant to keeps it anyway. -/
def keepsOwned (w : ServerGameState Tree) (c : ClientPtr) (e : SyncEntityPtr) : Bool :=
  let entity := w.entities e
  w.ownsEntity c e && (!entity.hasSynced || entity.isOwnedByClientScript tree) &&
    entity.routingBucket == (w.clients c).routingBucket

/-- `isRelevant` for an entity that is not being deleted. -/
def inScope (w : ServerGameState Tree) (c : ClientPtr) (e : SyncEntityPtr) : Bool :=
  w.isRelevant input c e || w.keepsOwned tree c e

/-- A deleted entity stays in scope until its owner, and a client it is created for, has been told. -/
def shouldDelete (w : ServerGameState Tree) (c : ClientPtr) (e : SyncEntityPtr) : Bool :=
  w.ownsEntity c e || ((w.clients c).syncedEntities[(w.entities e).pair]?).any (·.hasCreated)

/-- `isRelevant` in the end. -/
def relevantFor (w : ServerGameState Tree) (c : ClientPtr) (e : SyncEntityPtr) : Bool :=
  if (w.entities e).deleting then w.shouldDelete c e else w.inScope tree input c e

/-- One entity of a client's scope update, which fills `newSyncedEntities`. -/
def updateEntity (c : ClientPtr) (acc : ServerGameState Tree × SyncedEntities) (e : SyncEntityPtr) :
    ServerGameState Tree × SyncedEntities :=
  let (w, newSyncedEntities) := acc
  let slotId := (w.clients c).slotId
  if slotId ∈ (w.entities e).deletedFor then acc
  else
    let isRelevant := w.relevantFor tree input c e
    let wantsReassign := if w.ownsEntity c e then !w.isRelevant input c e else (w.entities e).wantsReassign
    let w := w.modifyEntity e fun entity =>
      { entity with
        wantsReassign := wantsReassign
        relevantTo := if entity.deleting && !isRelevant then entity.relevantTo.erase slotId else entity.relevantTo }
    let entIdentifier := (w.entities e).pair
    match (w.clients c).syncedEntities[entIdentifier]? with
    | some entityData =>
      if isRelevant then
        (w, newSyncedEntities.insert entIdentifier ⟨e, entityData.forceUpdate, entityData.hasCreated, false⟩)
      else if entityData.hasCreated || entityData.hasNAckedCreate then
        (w.modifyClient c fun client =>
          { client with entitiesToDestroy := client.entitiesToDestroy.insert entIdentifier (some e, ⟨true⟩) },
          newSyncedEntities)
      else (w, newSyncedEntities)
    | none =>
      if isRelevant then
        (w.modifyEntity e (·.enterScope slotId), newSyncedEntities.insert entIdentifier ⟨e, true, false, false⟩)
      else (w, newSyncedEntities)

/-- The scope update of one client. -/
def updateClient (relevantEntities : List SyncEntityPtr) (w : ServerGameState Tree) (c : ClientPtr) :
    ServerGameState Tree :=
  let acc := relevantEntities.foldl (updateEntity tree input c) (w, ∅)
  acc.1.modifyClient c fun client => { client with syncedEntities := acc.2 }

/-- The scope update of the client in a slot. -/
def updateSlot (relevantEntities : List SyncEntityPtr) (w : ServerGameState Tree) (slotId : Nat) :
    ServerGameState Tree :=
  match w.getClientBySlotID slotId with
  | some c => w.updateClient tree input relevantEntities c
  | none => w

/-- An entry whose entity is being deleted moves to `entitiesToDestroy`. -/
def moveDeleting (c : ClientPtr) (w : ServerGameState Tree) (identPair : Nat × Nat) : ServerGameState Tree :=
  match (w.clients c).syncedEntities[identPair]? with
  | some syncData =>
    if (w.entities syncData.entity).deleting then
      w.modifyClient c fun client =>
        { client with
          entitiesToDestroy := client.entitiesToDestroy.insert identPair (some syncData.entity, ⟨false⟩)
          syncedEntities := client.syncedEntities.erase identPair }
    else w
  | none => w

/-- In big mode, a player that leaves the client's scope gives its slot back. -/
def leavePlayer (w : ServerGameState Tree) (c : ClientPtr) (e : SyncEntityPtr) : ServerGameState Tree :=
  match w.lock (w.entities e).client with
  | some owner =>
    match (w.clients c).playersToSlots[(w.clients owner).netId]? with
    | some otherSlot =>
      if w.bigMode ∧ (w.entities e).type = .Player then
        w.modifyClient c fun client =>
          { client with
            playersInScope := client.playersInScope.erase otherSlot
            playersToSlots := client.playersToSlots.erase (w.clients owner).netId }
      else w
    | none => w
  | none => w

/-- One entry of `entitiesToDestroy`. -/
def processDeletion (c : ClientPtr) (w : ServerGameState Tree) (entityPair : Nat × Nat) : ServerGameState Tree :=
  match (w.clients c).entitiesToDestroy[entityPair]? with
  | some (some e, deletionData) =>
    let slotId := (w.clients c).slotId
    let w := w.modifyEntity e fun entity =>
      { entity with
        relevantTo := entity.relevantTo.erase slotId
        deletedFor := if deletionData.outOfScope then entity.deletedFor else insert slotId entity.deletedFor
        outOfScopeFor := if deletionData.outOfScope then insert slotId entity.outOfScopeFor else entity.outOfScopeFor
        stateBag := entity.stateBag.map (·.erase slotId) }
    let steals := deletionData.outOfScope && w.ownsEntity c e
    let w :=
      if steals && (w.entities e).isOwnedByServerScript tree then w.reassignEntity (w.entities e).handle none else w
    let w := if steals then { w with objectIdsStolen := insert entityPair.1 w.objectIdsStolen } else w
    w.leavePlayer c e
  | _ => w

/-- The owner of a player that has no slot in the client's scope yet; slots are needed in big mode only. -/
def playerWithoutSlot (w : ServerGameState Tree) (c : ClientPtr) (e : SyncEntityPtr) : Option Nat :=
  if w.bigMode ∧ (w.entities e).type = .Player then
    ((w.lock (w.entities e).client).map fun owner => (w.clients owner).netId).filter fun netId =>
      !(w.clients c).playersToSlots.contains netId
  else none

/-- The search for a free player slot: down from 127, without 31. -/
def findPlayerSlot (playersInScope : Finset Nat) : Option Nat :=
  ((List.range 128).reverse.filter (· ≠ 31)).find? (· ∉ playersInScope)

def canCreate (w : ServerGameState Tree) (c : ClientPtr) (e : SyncEntityPtr) : Bool :=
  (w.playerWithoutSlot c e).isNone || (findPlayerSlot (w.clients c).playersInScope).isSome

/-- A player that comes into scope takes a slot. -/
def enterPlayer (w : ServerGameState Tree) (c : ClientPtr) (e : SyncEntityPtr) : ServerGameState Tree :=
  match w.playerWithoutSlot c e, findPlayerSlot (w.clients c).playersInScope with
  | some netId, some slotId =>
    w.modifyClient c fun client =>
      { client with
        playersInScope := if netId = 0 then client.playersInScope.erase slotId else insert slotId client.playersInScope
        playersToSlots := client.playersToSlots.insert netId slotId }
  | _, _ => w

/-- An entity owned by nobody, or whose owner wants to be rid of it, goes to the client. -/
def takeEntity (w : ServerGameState Tree) (c : ClientPtr) (e : SyncEntityPtr) : ServerGameState Tree :=
  let entity := w.entities e
  if (w.lock entity.client).all fun owner => entity.wantsReassign &&
    (w.clients owner).netId != (w.clients c).netId then
    (w.modifyEntity e fun entity => { entity with wantsReassign := false }).reassignEntity entity.handle (some c)
  else w

/-- `AddRoutingTarget` of the entity's state bag. -/
def addRoutingTarget (w : ServerGameState Tree) (e : SyncEntityPtr) (slotId : Nat) : ServerGameState Tree :=
  w.modifyEntity e fun entity => { entity with stateBag := entity.stateBag.map (insert slotId) }

/-- One entry of `syncedEntities`, and what it adds to the saved frame. -/
def syncEntity (c : ClientPtr) (acc : ServerGameState Tree × List (Nat × SyncEntityPtr × Bool))
    (identPair : Nat × Nat) :
    ServerGameState Tree × List (Nat × SyncEntityPtr × Bool) :=
  let (w, synced) := acc
  match (w.clients c).syncedEntities[identPair]? with
  | none => acc
  | some syncData =>
    let e := syncData.entity
    let w := w.takeEntity c e
    if !syncData.hasCreated && !w.canCreate c e then
      (w.modifyClient c fun client => { client with syncedEntities := client.syncedEntities.erase identPair }, synced)
    else
      let w := if syncData.hasCreated then w else w.enterPlayer c e
      let entity := w.entities e
      let forceUpdate := ((w.clients c).syncedEntities[identPair]?).any (·.forceUpdate) || !syncData.hasCreated ||
        decide (entity.timestamp ≤ entity.lastOutOfBandTimestamp)
      if w.lock entity.client = some c ∧ forceUpdate = false then (w, synced)
      else
        let w := if forceUpdate || input.due c e then w.addRoutingTarget e (w.clients c).slotId else w
        let hasCreated := syncData.hasCreated || (input.syncStyle == .NAK && !input.fakeSend c)
        (if forceUpdate then
            w.modifyClient c fun client =>
              { client with
                syncedEntities := client.syncedEntities.modify identPair fun data =>
                  { data with forceUpdate := false, hasCreated } }
          else w,
          synced.filter (·.1 ≠ entity.handle) ++ [(entity.handle, e, syncData.hasCreated)])

/-- The deletions of a client's tick. -/
def deleteEntities (w : ServerGameState Tree) (c : ClientPtr) : ServerGameState Tree :=
  let w := (w.clients c).syncedEntities.keys.foldl (moveDeleting c) w
  (w.clients c).entitiesToDestroy.keys.foldl (processDeletion tree c) w

/-- A client's part of the tick. -/
def tickClient (w : ServerGameState Tree) (c : ClientPtr) : ServerGameState Tree :=
  if (w.clients c).slotId = noSlot then w
  else
    let w := w.deleteEntities tree c
    let deletions := (w.clients c).entitiesToDestroy.toList.map fun e => (e.1, e.2.2)
    let w :=
      if input.syncStyle = .NAK then w.modifyClient c fun client => { client with entitiesToDestroy := ∅ } else w
    let acc := (w.clients c).syncedEntities.keys.foldl (syncEntity input c) (w, [])
    acc.1.modifyClient c fun client => client.saveFrame w.frameIndex (input.lastSeen c) ⟨acc.2, deletions⟩

/-- The entities that a tick looks at, and the state once it has updated the scopes. -/
def updateScopes (w : ServerGameState Tree) : ServerGameState Tree :=
  let relevantEntities := w.entityList.filter fun e => !w.collectable tree e
  let w := { w with syncStyle := input.syncStyle }.collect tree
  input.slots.foldl (updateSlot tree input relevantEntities) w

/-- `Tick`. -/
def tick (w : ServerGameState Tree) : ServerGameState Tree :=
  let w := w.updateScopes tree input
  let w := w.allClients.foldl (tickClient tree input) w
  { w with frameIndex := w.frameIndex + 1 }

end ServerGameState

end fx
