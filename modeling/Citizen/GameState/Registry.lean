import Citizen.GameState.Messages
import Citizen.Lib.Loop
import Citizen.Lib.Transition

open Std

namespace fx

open sync

/-- The entity that an entry of `syncedEntities` points to. -/
def Client.syncedEntity (client : Client) (identPair : Nat × Nat) : Option SyncEntityPtr :=
  (client.syncedEntities[identPair]?).map SyncedEntityData.entity

/-- The net id and the slot of a client, and whether it is dropping. -/
def Client.identity (client : Client) : Nat × Nat × Bool := (client.netId, client.slotId, client.isDropping)

namespace ServerGameState

variable {Tree : Type*} {tree : SyncTreeBase Tree} {w w' w'' : ServerGameState Tree} {c : ClientPtr}
  {e : SyncEntityPtr}

/-- Every registered entity is found by its handle, which is in use; the net ids of the clients that are alive, and
the slots of those in the registry, are of one client each; and what the sync thread is to do, it does once: it
unregisters a registered entity, and drops a client that has left the registry. -/
structure Consistent (w : ServerGameState Tree) : Prop where
  byId : ∀ e ∈ w.entityList, w.entitiesById (w.entities e).handle = some e
  registered : ∀ id e, w.entitiesById id = some e → e ∈ w.entityList ∧ (w.entities e).handle = id
  used : ∀ id e, w.entitiesById id = some e → id ∈ w.objectIdsUsed
  lt_next : ∀ e ∈ w.entityList, e < w.nextEntity
  nodup : w.entityList.Nodup
  alive : ∀ c ∈ w.connected, c ∈ w.alive
  netId_inj : ∀ c ∈ w.alive, ∀ c' ∈ w.alive, (w.clients c).netId = (w.clients c').netId → c = c'
  slotId_inj : ∀ c ∈ w.connected, ∀ c' ∈ w.connected, (w.clients c).slotId ≠ noSlot →
    (w.clients c).slotId = (w.clients c').slotId → c = c'
  slotId_lt : ∀ c ∈ w.connected, (w.clients c).slotId ≠ noSlot → (w.clients c).slotId < MAX_CLIENTS
  doRemove : ∀ e, .doRemove e ∈ w.syncCallbacks → e ∈ w.entityList
  doRemove_once : ∀ e, w.syncCallbacks.count (.doRemove e) ≤ 1
  dropped : ∀ c netId slotId, .handleClientDrop c netId slotId ∈ w.syncCallbacks →
    netId = (w.clients c).netId ∧ (c ∈ w.alive ∨ c ∈ w.freed) ∧ c ∉ w.connected

/-- The registries, and what waits for the sync thread. -/
def registries (w : ServerGameState Tree) :=
  (w.entityList, w.entitiesById, w.nextEntity, w.objectIdsUsed, w.connected, w.alive, w.freed, w.syncCallbacks)

/-- The registries and what they are indexed by are the same. -/
structure SameRegistry (w w' : ServerGameState Tree) : Prop where
  registries : w'.registries = w.registries
  pair : ∀ e, (w'.entities e).pair = (w.entities e).pair
  identity : ∀ c, (w'.clients c).identity = (w.clients c).identity

namespace SameRegistry

theorem refl (w : ServerGameState Tree) : SameRegistry w w := ⟨rfl, fun _ => rfl, fun _ => rfl⟩

theorem trans (h : SameRegistry w w') (h' : SameRegistry w' w'') : SameRegistry w w'' where
  registries := h'.registries.trans h.registries
  pair e := (h'.pair e).trans (h.pair e)
  identity c := (h'.identity c).trans (h.identity c)

theorem ite {p : Prop} [Decidable p] (h : SameRegistry w w') : SameRegistry w (if p then w' else w) := by
  split
  · exact h
  · exact refl w

section

variable (h : SameRegistry w w')
include h

theorem entityList : w'.entityList = w.entityList := congrArg (·.1) h.registries

theorem entitiesById : w'.entitiesById = w.entitiesById := congrArg (·.2.1) h.registries

theorem nextEntity : w'.nextEntity = w.nextEntity := congrArg (·.2.2.1) h.registries

theorem objectIdsUsed : w'.objectIdsUsed = w.objectIdsUsed := congrArg (·.2.2.2.1) h.registries

theorem connected : w'.connected = w.connected := congrArg (·.2.2.2.2.1) h.registries

theorem alive : w'.alive = w.alive := congrArg (·.2.2.2.2.2.1) h.registries

theorem freed : w'.freed = w.freed := congrArg (·.2.2.2.2.2.2.1) h.registries

theorem syncCallbacks : w'.syncCallbacks = w.syncCallbacks := congrArg (·.2.2.2.2.2.2.2) h.registries

theorem netId (c : ClientPtr) : (w'.clients c).netId = (w.clients c).netId := congrArg (·.1) (h.identity c)

theorem slotId (c : ClientPtr) : (w'.clients c).slotId = (w.clients c).slotId := congrArg (·.2.1) (h.identity c)

theorem isDropping (c : ClientPtr) : (w'.clients c).isDropping = (w.clients c).isDropping := congrArg (·.2.2)
    (h.identity c)

theorem handle (e : SyncEntityPtr) : (w'.entities e).handle = (w.entities e).handle := congrArg Prod.fst (h.pair e)

theorem lock (client : Option ClientPtr) : w'.lock client = w.lock client := by
  rw [ServerGameState.lock, h.alive]
  rfl

theorem allClients : w'.allClients = w.allClients := by
  rw [ServerGameState.allClients, h.connected]
  simp only [h.isDropping]
  rfl

theorem getClientBySlotID (slotId : Nat) : w'.getClientBySlotID slotId = w.getClientBySlotID slotId := by
  rw [ServerGameState.getClientBySlotID, h.connected]
  simp only [h.slotId]
  rfl

end

end SameRegistry

theorem Consistent.of_same (h : w.Consistent) (hsame : SameRegistry w w') : w'.Consistent where
  byId := by
    rw [hsame.entityList]
    intro e he
    rw [hsame.handle, hsame.entitiesById]
    exact h.byId e he
  registered := by
    rw [hsame.entitiesById, hsame.entityList]
    intro id e he
    rw [hsame.handle]
    exact h.registered id e he
  used := by rw [hsame.entitiesById, hsame.objectIdsUsed]; exact h.used
  lt_next := by rw [hsame.entityList, hsame.nextEntity]; exact h.lt_next
  nodup := by rw [hsame.entityList]; exact h.nodup
  alive := by rw [hsame.connected, hsame.alive]; exact h.alive
  netId_inj := by rw [hsame.alive]; simp only [hsame.netId]; exact h.netId_inj
  slotId_inj := by rw [hsame.connected]; simp only [hsame.slotId]; exact h.slotId_inj
  slotId_lt := by rw [hsame.connected]; simp only [hsame.slotId]; exact h.slotId_lt
  doRemove := by rw [hsame.syncCallbacks, hsame.entityList]; exact h.doRemove
  doRemove_once := by rw [hsame.syncCallbacks]; exact h.doRemove_once
  dropped := by rw [hsame.syncCallbacks, hsame.alive, hsame.freed,
    hsame.connected]; simp only [hsame.netId]; exact h.dropped

/-- Two registered entities are the same when they have the same handle and uniqifier. -/
theorem Consistent.pair_inj (h : w.Consistent) {e e' : SyncEntityPtr} (he : e ∈ w.entityList) (he' : e' ∈ w.entityList)
    (hpair : (w.entities e).pair = (w.entities e').pair) : e = e' := by
  have hhandle : (w.entities e).handle = (w.entities e').handle := congrArg Prod.fst hpair
  have hbyId := h.byId e he
  rw [hhandle, h.byId e' he'] at hbyId
  exact (Option.some.inj hbyId).symm

theorem lock_eq_some {client : Option ClientPtr} : w.lock client = some c ↔ client = some c ∧ c ∈ w.alive := by
  rw [lock, Option.filter_eq_some_iff, decide_eq_true_iff]

theorem mem_allClients : c ∈ w.allClients ↔ c ∈ w.connected ∧ (w.clients c).isDropping = false := by
  rw [allClients, List.mem_filter, Bool.not_eq_true']

/-- The client in a slot. -/
theorem getClientBySlotID_some {slotId : Nat} (h : w.getClientBySlotID slotId = some c) :
    c ∈ w.connected ∧ (w.clients c).slotId = slotId ∧ slotId < MAX_CLIENTS := by
  unfold getClientBySlotID at h
  split at h
  · exact ⟨List.mem_of_find?_eq_some h, eq_of_beq (List.find?_some h :), ‹_›⟩
  · cases h

@[simp] theorem modifyEntity_self (w : ServerGameState Tree) (e : SyncEntityPtr)
    (f : SyncEntityState Tree → SyncEntityState Tree) : (w.modifyEntity e f).entities e = f (w.entities e) :=
  Function.update_self ..

theorem modifyEntity_of_ne (w : ServerGameState Tree) {e e' : SyncEntityPtr}
    (f : SyncEntityState Tree → SyncEntityState Tree) (h : e' ≠ e) :
    (w.modifyEntity e f).entities e' = w.entities e' :=
  Function.update_of_ne h ..

@[simp] theorem modifyEntity_clients (w : ServerGameState Tree) (e : SyncEntityPtr)
    (f : SyncEntityState Tree → SyncEntityState Tree) : (w.modifyEntity e f).clients = w.clients := rfl

@[simp] theorem modifyClient_self (w : ServerGameState Tree) (c : ClientPtr) (f : Client → Client) :
    (w.modifyClient c f).clients c = f (w.clients c) := Function.update_self ..

theorem modifyClient_of_ne (w : ServerGameState Tree) {c c' : ClientPtr} (f : Client → Client) (h : c' ≠ c) :
    (w.modifyClient c f).clients c' = w.clients c' := Function.update_of_ne h ..

@[simp] theorem modifyClient_entities (w : ServerGameState Tree) (c : ClientPtr) (f : Client → Client) :
    (w.modifyClient c f).entities = w.entities := rfl

/-- What a function of the entity leaves alone, `modifyEntity` leaves alone in every entity. -/
theorem modifyEntity_eq {α : Type*} (field : SyncEntityState Tree → α) (w : ServerGameState Tree) (e : SyncEntityPtr)
    {f : SyncEntityState Tree → SyncEntityState Tree} (h : field (f (w.entities e)) = field (w.entities e))
    (e' : SyncEntityPtr) : field ((w.modifyEntity e f).entities e') = field (w.entities e') := by
  by_cases he : e' = e
  · rw [he, modifyEntity_self, h]
  · rw [modifyEntity_of_ne w f he]

theorem modifyClient_eq {α : Type*} (field : Client → α) (w : ServerGameState Tree) (c : ClientPtr)
    {f : Client → Client} (h : field (f (w.clients c)) = field (w.clients c)) (c' : ClientPtr) :
    field ((w.modifyClient c f).clients c') = field (w.clients c') := by
  by_cases hc : c' = c
  · rw [hc, modifyClient_self, h]
  · rw [modifyClient_of_ne w f hc]

theorem sameRegistry_modifyEntity (w : ServerGameState Tree) (e : SyncEntityPtr)
    {f : SyncEntityState Tree → SyncEntityState Tree} (h : (f (w.entities e)).pair = (w.entities e).pair) :
    SameRegistry w (w.modifyEntity e f) :=
  ⟨rfl, modifyEntity_eq _ w e h, fun _ => rfl⟩

theorem sameRegistry_modifyClient (w : ServerGameState Tree) (c : ClientPtr) {f : Client → Client}
    (h : (f (w.clients c)).identity = (w.clients c).identity) : SameRegistry w (w.modifyClient c f) :=
  ⟨rfl, fun _ => rfl, modifyClient_eq _ w c h⟩

/-- The registries, the scopes and the tables are the same, but for the flags of the tables' entries. -/
structure Still (w w' : ServerGameState Tree) : Prop extends SameRegistry w w' where
  relevantTo : ∀ e, (w'.entities e).relevantTo = (w.entities e).relevantTo
  deletedFor : ∀ e, (w'.entities e).deletedFor = (w.entities e).deletedFor
  deleting : ∀ e, (w.entities e).deleting = true → (w'.entities e).deleting = true
  synced : ∀ c identPair, (w'.clients c).syncedEntity identPair = (w.clients c).syncedEntity identPair
  entitiesToDestroy : ∀ c, (w'.clients c).entitiesToDestroy = (w.clients c).entitiesToDestroy

namespace Still

theorem refl (w : ServerGameState Tree) : Still w w :=
  ⟨.refl w, fun _ => rfl, fun _ => rfl, fun _ h => h, fun _ _ => rfl, fun _ => rfl⟩

theorem trans (h : Still w w') (h' : Still w' w'') : Still w w'' where
  toSameRegistry := h.toSameRegistry.trans h'.toSameRegistry
  relevantTo e := (h'.relevantTo e).trans (h.relevantTo e)
  deletedFor e := (h'.deletedFor e).trans (h.deletedFor e)
  deleting e hdeleting := h'.deleting e (h.deleting e hdeleting)
  synced c identPair := (h'.synced c identPair).trans (h.synced c identPair)
  entitiesToDestroy c := (h'.entitiesToDestroy c).trans (h.entitiesToDestroy c)

theorem ite {p : Prop} [Decidable p] (h : Still w w') : Still w (if p then w' else w) := by
  split
  · exact h
  · exact refl w

end Still

theorem still_modifyEntity (w : ServerGameState Tree) (e : SyncEntityPtr)
    {f : SyncEntityState Tree → SyncEntityState Tree} (hpair : (f (w.entities e)).pair = (w.entities e).pair)
    (hrelevant : (f (w.entities e)).relevantTo = (w.entities e).relevantTo)
    (hdeleted : (f (w.entities e)).deletedFor = (w.entities e).deletedFor)
    (hdeleting : (w.entities e).deleting = true → (f (w.entities e)).deleting = true) :
    Still w (w.modifyEntity e f) where
  toSameRegistry := sameRegistry_modifyEntity w e hpair
  relevantTo := modifyEntity_eq _ w e hrelevant
  deletedFor := modifyEntity_eq _ w e hdeleted
  deleting e' h := by
    by_cases he : e' = e
    · rw [he] at h ⊢
      rw [modifyEntity_self]
      exact hdeleting h
    · rw [modifyEntity_of_ne w f he]
      exact h
  synced _ _ := rfl
  entitiesToDestroy _ := rfl

theorem still_modifyClient (w : ServerGameState Tree) (c : ClientPtr) {f : Client → Client}
    (hidentity : (f (w.clients c)).identity = (w.clients c).identity)
    (hsynced : ∀ identPair, (f (w.clients c)).syncedEntity identPair = (w.clients c).syncedEntity identPair)
    (hdestroy : (f (w.clients c)).entitiesToDestroy = (w.clients c).entitiesToDestroy) :
    Still w (w.modifyClient c f) where
  toSameRegistry := sameRegistry_modifyClient w c hidentity
  relevantTo _ := rfl
  deletedFor _ := rfl
  deleting _ h := h
  synced c' identPair :=
    modifyClient_eq (fun client => client.syncedEntity identPair) w c (hsynced identPair) c'
  entitiesToDestroy := modifyClient_eq _ w c hdestroy

/-- Changing the flags of an entry leaves the entities of the table alone. -/
theorem map_entity_modify (table : SyncedEntities) (identPair identPair' : Nat × Nat)
    {f : SyncedEntityData → SyncedEntityData} (hf : ∀ data, (f data).entity = data.entity) :
    ((table.modify identPair f)[identPair']?).map SyncedEntityData.entity =
      (table[identPair']?).map SyncedEntityData.entity := by
  rw [TreeMap.getElem?_modify]
  split
  · rw [LawfulEqCmp.compare_eq_iff_eq] at *
    subst_vars
    have hentity : SyncedEntityData.entity ∘ f = SyncedEntityData.entity := funext hf
    rw [Option.map_map, hentity]
  · rfl

theorem still_reassignEntity (w : ServerGameState Tree) (entityHandle : Nat) (targetClient : Option ClientPtr) :
    Still w (w.reassignEntity entityHandle targetClient) := by
  unfold reassignEntity
  split
  · exact .refl w
  · rename_i e _
    split
    · exact .refl w
    · apply (still_modifyEntity w e (f := fun entity =>
        { entity with lastMigratedAt := w.now, lastOwner := w.lock entity.client, client := targetClient })
        rfl rfl rfl id).trans
      refine ⟨⟨rfl, fun _ => rfl, fun _ => rfl⟩, fun _ => rfl, fun _ => rfl, fun _ h => h,
        fun c identPair => ?_, fun _ => rfl⟩
      dsimp only [Client.syncedEntity]
      split
      · exact map_entity_modify _ _ _ fun _ => rfl
      · rfl

theorem still_removeClone (w : ServerGameState Tree) (objectId : Nat) : Still w (w.removeClone objectId) := by
  unfold removeClone
  split
  · exact still_modifyEntity w _ rfl rfl rfl fun _ => rfl
  · exact .refl w

theorem still_finalizeClone (w : ServerGameState Tree) (e : SyncEntityPtr) : Still w (w.finalizeClone e) := by
  unfold finalizeClone
  split
  · exact still_modifyEntity w e rfl rfl rfl id
  · exact .refl w

theorem still_collect (w : ServerGameState Tree) : Still w (w.collect tree) := by
  apply Loop.keeps _ Still.refl Still.trans
  intro w e
  split
  · exact still_finalizeClone w e
  · exact .refl w

theorem still_addRoutingTarget (w : ServerGameState Tree) (e : SyncEntityPtr) (slotId : Nat) :
    Still w (w.addRoutingTarget e slotId) := still_modifyEntity w e rfl rfl rfl id

theorem still_takeEntity (w : ServerGameState Tree) (c : ClientPtr) (e : SyncEntityPtr) :
    Still w (w.takeEntity c e) := by
  unfold takeEntity
  dsimp only
  split
  · exact (still_modifyEntity w e rfl rfl rfl id).trans (still_reassignEntity _ _ _)
  · exact .refl w

theorem still_enterPlayer (w : ServerGameState Tree) (c : ClientPtr) (e : SyncEntityPtr) :
    Still w (w.enterPlayer c e) := by
  unfold enterPlayer
  split
  · exact still_modifyClient w c rfl (fun _ => rfl) rfl
  · exact .refl w

theorem still_leavePlayer (w : ServerGameState Tree) (c : ClientPtr) (e : SyncEntityPtr) :
    Still w (w.leavePlayer c e) := by
  unfold leavePlayer
  split
  · split
    · split
      · exact still_modifyClient w c rfl (fun _ => rfl) rfl
      · exact .refl w
    · exact .refl w
  · exact .refl w

theorem still_dropPlayer (w : ServerGameState Tree) (netId : Nat) : Still w (w.dropPlayer netId) := by
  unfold dropPlayer
  split
  · refine ⟨⟨rfl, fun _ => rfl, fun c' => ?_⟩, fun _ => rfl, fun _ => rfl, fun _ h => h, fun c' _ => ?_, fun c' => ?_⟩
    all_goals
      dsimp only
      split
      · split <;> rfl
      · rfl
  · exact .refl w

theorem still_moveEntityToCandidate (tree : SyncTreeBase Tree) (distance : SyncEntityPtr → ClientPtr → Nat)
    (w : ServerGameState Tree) (c : ClientPtr) (e : SyncEntityPtr) :
    Still w (w.moveEntityToCandidate tree distance c e).2 := by
  unfold moveEntityToCandidate
  dsimp only
  split
  · exact .refl w
  · split
    · exact .refl w
    · generalize (if (w.entities e).type = .Player then none
        else (w.candidates c (w.entities e).relevantTo).argmin (distance e)) = candidate
      cases candidate with
      | some candidate => exact still_reassignEntity _ _ _
      | none =>
        dsimp only
        split
        · exact still_reassignEntity _ _ _
        · exact .refl w

/-- What a scope exit of the owner does to the entity and its object id. -/
theorem still_steal (w : ServerGameState Tree) (steals reassigns : Bool) (entityHandle objectId : Nat) :
    Still w
      (if steals then
        { (if steals && reassigns then w.reassignEntity entityHandle none else w) with
          objectIdsStolen := insert objectId
            (if steals && reassigns then w.reassignEntity entityHandle none else w).objectIdsStolen }
      else if steals && reassigns then w.reassignEntity entityHandle none else w) := by
  have hreassign : Still w (if steals && reassigns then w.reassignEntity entityHandle none else w) :=
    (still_reassignEntity w entityHandle none).ite
  generalize (if steals && reassigns then w.reassignEntity entityHandle none else w) = left at hreassign ⊢
  apply hreassign.trans
  exact Still.ite ⟨⟨rfl, fun _ => rfl, fun _ => rfl⟩, fun _ => rfl, fun _ => rfl,
    fun _ h => h, fun _ _ => rfl, fun _ => rfl⟩

section Tick

variable (tree) (input : ScopeInput)

theorem sameRegistry_updateEntity (c : ClientPtr) (acc : ServerGameState Tree × SyncedEntities) (e : SyncEntityPtr) :
    SameRegistry acc.1 (updateEntity tree input c acc e).1 := by
  unfold updateEntity
  dsimp only
  split
  · exact .refl _
  · generalize hw : acc.1.modifyEntity e _ = w
    have hsame : SameRegistry acc.1 w := hw ▸ sameRegistry_modifyEntity acc.1 e rfl
    apply hsame.trans
    split
    · split
      · exact .refl w
      · split
        · dsimp only
          exact sameRegistry_modifyClient w c rfl
        · exact .refl w
    · split
      · dsimp only
        exact sameRegistry_modifyEntity w e rfl
      · exact .refl w

theorem sameRegistry_updateClient (relevantEntities : List SyncEntityPtr) (w : ServerGameState Tree) (c : ClientPtr) :
    SameRegistry w (w.updateClient tree input relevantEntities c) := by
  have hloop : SameRegistry w (relevantEntities.foldl (updateEntity tree input c) (w, ∅)).1 :=
    Loop.keeps (fun acc acc' : ServerGameState Tree × SyncedEntities => SameRegistry acc.1 acc'.1)
      (fun acc => .refl acc.1) SameRegistry.trans (sameRegistry_updateEntity tree input c) relevantEntities (w, ∅)
  unfold updateClient
  dsimp only
  exact hloop.trans (sameRegistry_modifyClient _ c rfl)

theorem sameRegistry_updateSlot (relevantEntities : List SyncEntityPtr) (w : ServerGameState Tree) (slotId : Nat) :
    SameRegistry w (w.updateSlot tree input relevantEntities slotId) := by
  unfold updateSlot
  split
  · exact sameRegistry_updateClient tree input relevantEntities w _
  · exact .refl w

theorem sameRegistry_moveDeleting (c : ClientPtr) (w : ServerGameState Tree) (identPair : Nat × Nat) :
    SameRegistry w (moveDeleting c w identPair) := by
  unfold moveDeleting
  split
  · split
    · exact sameRegistry_modifyClient w c rfl
    · exact .refl w
  · exact .refl w

theorem sameRegistry_processDeletion (c : ClientPtr) (w : ServerGameState Tree) (entityPair : Nat × Nat) :
    SameRegistry w (processDeletion tree c w entityPair) := by
  unfold processDeletion
  split
  · rename_i e deletionData _
    dsimp only
    generalize hw : w.modifyEntity e _ = left
    have hsame : SameRegistry w left := hw ▸ sameRegistry_modifyEntity w e rfl
    apply hsame.trans
    exact (still_steal left _ _ _ _).toSameRegistry.trans (still_leavePlayer _ c e).toSameRegistry
  · exact .refl w

theorem sameRegistry_deleteEntities (w : ServerGameState Tree) (c : ClientPtr) :
    SameRegistry w (w.deleteEntities tree c) := by
  unfold deleteEntities
  dsimp only
  exact (Loop.keeps _ SameRegistry.refl SameRegistry.trans (sameRegistry_moveDeleting c) _ w).trans
    (Loop.keeps _ SameRegistry.refl SameRegistry.trans (sameRegistry_processDeletion tree c) _ _)

theorem sameRegistry_syncEntity (c : ClientPtr) (acc : ServerGameState Tree × List (Nat × SyncEntityPtr × Bool))
    (identPair : Nat × Nat) : SameRegistry acc.1 (syncEntity input c acc identPair).1 := by
  unfold syncEntity
  dsimp only
  split
  · exact .refl _
  · rename_i syncData _
    have htake := (still_takeEntity acc.1 c syncData.entity).toSameRegistry
    generalize acc.1.takeEntity c syncData.entity = w at htake ⊢
    apply htake.trans
    split
    · dsimp only
      exact sameRegistry_modifyClient w c rfl
    · generalize hplayer : (if syncData.hasCreated = true then w else w.enterPlayer c syncData.entity) = w'
      have hsame : SameRegistry w w' := by
        rw [← hplayer]
        split
        · exact .refl w
        · exact (still_enterPlayer w c syncData.entity).toSameRegistry
      apply hsame.trans
      split
      · exact .refl w'
      · dsimp only
        refine .trans (.ite (still_addRoutingTarget w' syncData.entity _).toSameRegistry) (.ite ?_)
        exact sameRegistry_modifyClient _ c rfl

theorem sameRegistry_tickClient (w : ServerGameState Tree) (c : ClientPtr) :
    SameRegistry w (w.tickClient tree input c) := by
  unfold tickClient
  split
  · exact .refl w
  · have hdelete := sameRegistry_deleteEntities tree w c
    dsimp only
    generalize w.deleteEntities tree c = w' at hdelete ⊢
    apply hdelete.trans
    generalize hclear : (if input.syncStyle = .NAK then _ else w') = w''
    have hsame : SameRegistry w' w'' := by
      rw [← hclear]
      split
      · exact sameRegistry_modifyClient w' c rfl
      · exact .refl w'
    apply hsame.trans
    have hloop : SameRegistry w'' ((w''.clients c).syncedEntities.keys.foldl (syncEntity input c) (w'', [])).1 :=
      Loop.keeps (fun acc acc' : ServerGameState Tree × List (Nat × SyncEntityPtr × Bool) =>
        SameRegistry acc.1 acc'.1)
          (fun acc => .refl acc.1) SameRegistry.trans (sameRegistry_syncEntity input c) _ (w'', [])
    exact hloop.trans (sameRegistry_modifyClient _ c rfl)

theorem sameRegistry_updateScopes (w : ServerGameState Tree) : SameRegistry w (w.updateScopes tree input) := by
  unfold updateScopes
  have hstyle : SameRegistry w { w with syncStyle := input.syncStyle } :=
    ⟨rfl, fun _ => rfl, fun _ => rfl⟩
  exact (hstyle.trans (still_collect _).toSameRegistry).trans
    (Loop.keeps _ SameRegistry.refl SameRegistry.trans (sameRegistry_updateSlot tree input _) _ _)

theorem sameRegistry_tick (w : ServerGameState Tree) : SameRegistry w (w.tick tree input) := by
  have hloop := (sameRegistry_updateScopes tree input w).trans
    (Loop.keeps _ SameRegistry.refl SameRegistry.trans (sameRegistry_tickClient tree input)
      (w.updateScopes tree input).allClients (w.updateScopes tree input))
  exact ⟨hloop.registries, hloop.pair, hloop.identity⟩

end Tick

end ServerGameState

end fx
