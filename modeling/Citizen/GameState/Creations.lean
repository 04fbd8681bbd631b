import Citizen.GameState.Ownership

open Std

namespace fx

open sync

/-- The token that an entity was created with, and by which client. -/
def SyncEntityState.origin {Tree : Type*} (entity : SyncEntityState Tree) : Nat × Option ClientPtr :=
  (entity.creationToken, entity.firstOwner)

namespace ServerGameState

variable {Tree : Type*} {tree : SyncTreeBase Tree} {w w' w'' : ServerGameState Tree} {c : ClientPtr}
  {e : SyncEntityPtr}

/-- No token is issued or used up, and no entity is registered or changes its token. -/
structure NoCreation (w w' : ServerGameState Tree) : Prop where
  entityCreationList : w'.entityCreationList = w.entityCreationList
  origin : ∀ e, (w'.entities e).origin = (w.entities e).origin
  entitiesById : ∀ id e, w'.entitiesById id = some e → w.entitiesById id = some e

namespace NoCreation

theorem refl (w : ServerGameState Tree) : NoCreation w w := ⟨rfl, fun _ => rfl, fun _ _ h => h⟩

theorem trans (h : NoCreation w w') (h' : NoCreation w' w'') : NoCreation w w'' where
  entityCreationList := h'.entityCreationList.trans h.entityCreationList
  origin e := (h'.origin e).trans (h.origin e)
  entitiesById id e hbyId := h.entitiesById id e (h'.entitiesById id e hbyId)

theorem ite {p : Prop} [Decidable p] (h : NoCreation w w') : NoCreation w (if p then w' else w) := by
  split
  · exact h
  · exact refl w

theorem creationToken (h : NoCreation w w') (e : SyncEntityPtr) :
    (w'.entities e).creationToken = (w.entities e).creationToken :=
  congrArg Prod.fst (h.origin e)

end NoCreation

theorem noCreation_modifyEntity (w : ServerGameState Tree) (e : SyncEntityPtr)
    {f : SyncEntityState Tree → SyncEntityState Tree}
    (h : (f (w.entities e)).origin = (w.entities e).origin) : NoCreation w (w.modifyEntity e f) :=
  ⟨rfl, modifyEntity_eq _ w e h, fun _ _ h => h⟩

theorem noCreation_modifyClient (w : ServerGameState Tree) (c : ClientPtr) (f : Client → Client) :
    NoCreation w (w.modifyClient c f) := ⟨rfl, fun _ => rfl, fun _ _ h => h⟩

theorem noCreation_removeClone (w : ServerGameState Tree) (objectId : Nat) :
    NoCreation w (w.removeClone objectId) := by
  unfold removeClone
  split
  · exact noCreation_modifyEntity w _ rfl
  · exact .refl w

theorem noCreation_reassignEntity (w : ServerGameState Tree) (entityHandle : Nat) (targetClient : Option ClientPtr) :
    NoCreation w (w.reassignEntity entityHandle targetClient) := by
  unfold reassignEntity
  split
  · exact .refl w
  · rename_i e _
    split
    · exact .refl w
    · have hentity := noCreation_modifyEntity w e (f := fun entity =>
        { entity with lastMigratedAt := w.now, lastOwner := w.lock (w.entities e).client, client := targetClient }) rfl
      exact ⟨rfl, hentity.origin, fun _ _ h => h⟩

section Tick

theorem noCreation_collect (w : ServerGameState Tree) : NoCreation w (w.collect tree) := by
  apply Loop.keeps _ NoCreation.refl NoCreation.trans
  intro w e
  split
  · unfold finalizeClone
    split
    · exact noCreation_modifyEntity w e rfl
    · exact .refl w
  · exact .refl w

variable (input : ScopeInput)

theorem noCreation_updateEntity (c : ClientPtr) (acc : ServerGameState Tree × SyncedEntities) (e : SyncEntityPtr) :
    NoCreation acc.1 (updateEntity tree input c acc e).1 := by
  unfold updateEntity
  dsimp only
  split
  · exact .refl _
  · generalize hw : acc.1.modifyEntity e _ = w
    have hnone : NoCreation acc.1 w := hw ▸ noCreation_modifyEntity acc.1 e rfl
    apply hnone.trans
    split
    · split
      · exact .refl w
      · split
        · dsimp only
          exact noCreation_modifyClient w c _
        · exact .refl w
    · split
      · dsimp only
        exact noCreation_modifyEntity w e rfl
      · exact .refl w

theorem noCreation_updateSlot (relevantEntities : List SyncEntityPtr) (w : ServerGameState Tree) (slotId : Nat) :
    NoCreation w (w.updateSlot tree input relevantEntities slotId) := by
  unfold updateSlot
  split
  · rename_i c _
    have hloop : NoCreation w (relevantEntities.foldl (updateEntity tree input c) (w, ∅)).1 :=
      Loop.keeps (fun acc acc' : ServerGameState Tree × SyncedEntities => NoCreation acc.1 acc'.1)
        (fun acc => .refl acc.1) NoCreation.trans (noCreation_updateEntity input c) relevantEntities (w, ∅)
    unfold updateClient
    dsimp only
    exact hloop.trans (noCreation_modifyClient _ c _)
  · exact .refl w

theorem noCreation_updateScopes (w : ServerGameState Tree) : NoCreation w (w.updateScopes tree input) := by
  unfold updateScopes
  have hstyle : NoCreation w { w with syncStyle := input.syncStyle } := ⟨rfl, fun _ => rfl, fun _ _ h => h⟩
  exact (hstyle.trans (noCreation_collect _)).trans
    (Loop.keeps _ NoCreation.refl NoCreation.trans (noCreation_updateSlot input _) _ _)

theorem noCreation_moveDeleting (c : ClientPtr) (w : ServerGameState Tree) (identPair : Nat × Nat) :
    NoCreation w (moveDeleting c w identPair) := by
  unfold moveDeleting
  split
  · exact .ite (noCreation_modifyClient w c _)
  · exact .refl w

theorem noCreation_leavePlayer (w : ServerGameState Tree) (c : ClientPtr) (e : SyncEntityPtr) :
    NoCreation w (w.leavePlayer c e) := by
  unfold leavePlayer
  split
  · split
    · exact .ite (noCreation_modifyClient w c _)
    · exact .refl w
  · exact .refl w

theorem noCreation_enterPlayer (w : ServerGameState Tree) (c : ClientPtr) (e : SyncEntityPtr) :
    NoCreation w (w.enterPlayer c e) := by
  unfold enterPlayer
  split
  · exact noCreation_modifyClient w c _
  · exact .refl w

theorem noCreation_processDeletion (c : ClientPtr) (w : ServerGameState Tree) (entityPair : Nat × Nat) :
    NoCreation w (processDeletion tree c w entityPair) := by
  unfold processDeletion
  split
  · rename_i e deletionData _
    dsimp only
    generalize hw : w.modifyEntity e _ = left
    have hnone : NoCreation w left := hw ▸ noCreation_modifyEntity w e rfl
    refine hnone.trans (.trans ?_ (noCreation_leavePlayer _ c e))
    generalize hreassign : (if (deletionData.outOfScope && left.ownsEntity c e &&
      (left.entities e).isOwnedByServerScript tree) = true then _ else left) = reassigned
    have hreassigned : NoCreation left reassigned := by
      rw [← hreassign]
      exact .ite (noCreation_reassignEntity left _ none)
    exact hreassigned.trans (.ite ⟨rfl, fun _ => rfl, fun _ _ h => h⟩)
  · exact .refl w

theorem noCreation_takeEntity (w : ServerGameState Tree) (c : ClientPtr) (e : SyncEntityPtr) :
    NoCreation w (w.takeEntity c e) := by
  unfold takeEntity
  dsimp only
  split
  · exact .trans (noCreation_modifyEntity w e rfl) (noCreation_reassignEntity _ _ _)
  · exact .refl w

theorem noCreation_syncEntity (c : ClientPtr) (acc : ServerGameState Tree × List (Nat × SyncEntityPtr × Bool))
    (identPair : Nat × Nat) : NoCreation acc.1 (syncEntity input c acc identPair).1 := by
  unfold syncEntity
  dsimp only
  split
  · exact .refl _
  · rename_i syncData _
    have htake := noCreation_takeEntity acc.1 c syncData.entity
    generalize acc.1.takeEntity c syncData.entity = w at htake ⊢
    apply htake.trans
    split
    · dsimp only
      exact noCreation_modifyClient w c _
    · generalize hplayer : (if syncData.hasCreated = true then w else w.enterPlayer c syncData.entity) = w'
      have hnone : NoCreation w w' := by
        rw [← hplayer]
        split
        · exact .refl w
        · exact noCreation_enterPlayer w c syncData.entity
      apply hnone.trans
      split
      · exact .refl w'
      · exact .trans (.ite (noCreation_modifyEntity w' syncData.entity rfl)) (.ite (noCreation_modifyClient _ c _))

theorem noCreation_tickClient (w : ServerGameState Tree) (c : ClientPtr) :
    NoCreation w (w.tickClient tree input c) := by
  unfold tickClient
  split
  · exact .refl w
  · have hdelete : NoCreation w (w.deleteEntities tree c) :=
      (Loop.keeps _ NoCreation.refl NoCreation.trans (noCreation_moveDeleting c) _ w).trans
        (Loop.keeps _ NoCreation.refl NoCreation.trans (noCreation_processDeletion c) _ _)
    dsimp only
    generalize w.deleteEntities tree c = w' at hdelete ⊢
    apply hdelete.trans
    generalize hclear : (if input.syncStyle = .NAK then _ else w') = w''
    have hnone : NoCreation w' w'' := by
      rw [← hclear]
      exact .ite (noCreation_modifyClient w' c _)
    apply hnone.trans
    have hloop : NoCreation w'' ((w''.clients c).syncedEntities.keys.foldl (syncEntity input c) (w'', [])).1 :=
      Loop.keeps (fun acc acc' : ServerGameState Tree × List (Nat × SyncEntityPtr × Bool) => NoCreation acc.1 acc'.1)
        (fun acc => .refl acc.1) NoCreation.trans (noCreation_syncEntity input c) _ (w'', [])
    exact hloop.trans (noCreation_modifyClient _ c _)

theorem noCreation_tick (w : ServerGameState Tree) : NoCreation w (w.tick tree input) := by
  have hloop := (noCreation_updateScopes input w).trans
    (Loop.keeps _ NoCreation.refl NoCreation.trans (@noCreation_tickClient _ tree input)
      (w.updateScopes tree input).allClients (w.updateScopes tree input))
  exact ⟨hloop.entityCreationList, hloop.origin, hloop.entitiesById⟩

end Tick

section Drop

variable (distance : SyncEntityPtr → ClientPtr → Nat)

theorem noCreation_moveEntityToCandidate (w : ServerGameState Tree) (c : ClientPtr) (e : SyncEntityPtr) :
    NoCreation w (w.moveEntityToCandidate tree distance c e).2 := by
  unfold moveEntityToCandidate
  dsimp only
  split
  · exact .refl w
  · split
    · exact .refl w
    · generalize (if (w.entities e).type = .Player then none
        else (w.candidates c (w.entities e).relevantTo).argmin (distance e)) = candidate
      cases candidate with
      | some candidate => exact noCreation_reassignEntity _ _ _
      | none =>
        dsimp only
        split
        · exact noCreation_reassignEntity _ _ _
        · exact .refl w

theorem noCreation_dropEntity (c : ClientPtr) (slotId : Nat) (acc : ServerGameState Tree × List Nat)
    (e : SyncEntityPtr) :
    NoCreation acc.1 (dropEntity tree distance c slotId acc e).1 := by
  unfold dropEntity
  dsimp only
  generalize hw : acc.1.modifyEntity e _ = w
  have hnone : NoCreation acc.1 w := by
    rw [← hw]
    apply noCreation_modifyEntity
    unfold SyncEntityState.dropSlot
    split <;> rfl
  have hmove := @noCreation_moveEntityToCandidate _ tree distance w c e
  generalize w.moveEntityToCandidate tree distance c e = moved at hmove ⊢
  obtain ⟨found, w'⟩ := moved
  cases found with
  | true => exact hnone.trans hmove
  | false =>
    dsimp only at hmove ⊢
    split
    · exact (hnone.trans hmove).trans (noCreation_reassignEntity _ _ _)
    · exact hnone.trans hmove

theorem noCreation_handleClientDrop (w : ServerGameState Tree) (c : ClientPtr) (netId slotId : Nat) :
    NoCreation w (w.handleClientDrop tree distance c netId slotId) := by
  have hplayer : NoCreation w (w.dropPlayer netId) := .ite ⟨rfl, fun _ => rfl, fun _ _ h => h⟩
  have hloop := hplayer.trans (Loop.keeps (fun acc acc' : ServerGameState Tree × List Nat => NoCreation acc.1 acc'.1)
    (fun acc => .refl acc.1) NoCreation.trans (@noCreation_dropEntity _ tree distance c slotId)
    (w.dropPlayer netId).entityList (w.dropPlayer netId, []))
  have herase := hloop.trans (Loop.keeps _ NoCreation.refl NoCreation.trans noCreation_removeClone
    ((w.dropPlayer netId).entityList.foldl (dropEntity tree distance c slotId) (w.dropPlayer netId, [])).2 _)
  exact ⟨herase.entityCreationList, herase.origin, herase.entitiesById⟩

end Drop

theorem noCreation_dropClient (w : ServerGameState Tree) (c : ClientPtr) : NoCreation w (w.dropClient c) :=
  noCreation_modifyClient w c _

theorem noCreation_gameStateNAck (w : ServerGameState Tree) (c : ClientPtr) (nack : FrameNAck) :
    NoCreation w (w.gameStateNAck c nack) := by
  unfold gameStateNAck
  split
  · split
    · exact noCreation_modifyClient w c _
    · exact noCreation_dropClient w c
  · exact .refl w

theorem noCreation_parseAck (w : ServerGameState Tree) (c : ClientPtr) (record : AckRecord) :
    NoCreation w (w.parseAck c record) := by
  cases record with
  | create objectId uniqifier =>
    dsimp only [parseAck]
    split
    · exact .refl w
    · exact .ite (.trans (noCreation_modifyEntity w _ rfl) (noCreation_modifyClient _ c _))
  | remove objectId uniqifier =>
    dsimp only [parseAck]
    exact noCreation_modifyClient w c _

theorem noCreation_deleteEntity (w : ServerGameState Tree) (e : SyncEntityPtr) : NoCreation w (w.deleteEntity e) := by
  unfold deleteEntity
  split
  · exact .refl w
  · exact ⟨rfl, fun _ => rfl, fun _ _ h => h⟩

theorem noCreation_receiveClone (w : ServerGameState Tree) (c : ClientPtr) (e : SyncEntityPtr) (parsingType : Nat)
    (bitBytes : List (BitVec 8)) : NoCreation w (w.receiveClone tree c e parsingType bitBytes) := by
  unfold receiveClone
  dsimp only
  generalize hw : w.modifyEntity e _ = w'
  have hnone : NoCreation w w' := by
    rw [← hw]
    apply noCreation_modifyEntity
    unfold parseClone
    split <;> rfl
  exact hnone.trans (.ite (noCreation_modifyClient w' c _))

theorem noCreation_syncClone (w : ServerGameState Tree) (c : ClientPtr) (e : SyncEntityPtr)
    (parsingType uniqifier : Nat) (bitBytes : List (BitVec 8)) :
    NoCreation w (w.syncClone tree c e parsingType uniqifier bitBytes).2 := by
  have henter : NoCreation w (w.modifyEntity e (·.enterScope (w.clients c).slotId)) := noCreation_modifyEntity w e rfl
  obtain ⟨result, _, h⟩ | ⟨_, ⟨result, _, _, h⟩ | ⟨_, h⟩⟩ := syncClone_cases tree w c e parsingType uniqifier bitBytes
  · rw [h]
    exact .refl w
  · rw [h]
    exact henter
  · rw [h]
    exact henter.trans (noCreation_receiveClone _ c e parsingType bitBytes)

theorem noCreation_processCloneSync (w : ServerGameState Tree) (c : ClientPtr) (uniqifier objectId : Nat)
    (bitBytes : List (BitVec 8)) : NoCreation w (w.processCloneSync tree c uniqifier objectId bitBytes).2 := by
  unfold processCloneSync
  split
  · exact .refl w
  · split
    · exact .refl w
    · exact noCreation_syncClone w c _ 2 uniqifier bitBytes

theorem noCreation_processCloneTakeover (w : ServerGameState Tree) (c : ClientPtr) (clientId objectId : Nat) :
    NoCreation w (w.processCloneTakeover c clientId objectId).2 := by
  unfold processCloneTakeover
  split
  · exact .refl w
  · split
    · exact .refl w
    · split
      · exact noCreation_reassignEntity w _ _
      · split
        · exact .refl w
        · split
          · exact .refl w
          · exact noCreation_reassignEntity w _ _

theorem noCreation_processCloneRemove (w : ServerGameState Tree) (c : ClientPtr) (objectId uniqifier : Nat) :
    NoCreation w (w.processCloneRemove c objectId uniqifier).2 := by
  unfold processCloneRemove
  split
  · exact .refl w
  · split
    · exact .refl w
    · split
      · exact .refl w
      · split
        · exact .refl w
        · exact noCreation_removeClone w objectId

theorem noCreation_unregister (w : ServerGameState Tree) (e : SyncEntityPtr) : NoCreation w (w.unregister e) := by
  refine ⟨rfl, fun _ => rfl, fun id e' hbyId => ?_⟩
  by_cases hid : id = (w.entities e).handle
  · subst hid
    have hnone : (w.unregister e).entitiesById (w.entities e).handle = none := Function.update_self ..
    rw [hnone] at hbyId
    cases hbyId
  · exact (Function.update_of_ne hid ..).symm.trans hbyId

/-- A callback of the sync thread. -/
theorem noCreation_runSyncCallback (distance : SyncEntityPtr → ClientPtr → Nat) (w : ServerGameState Tree)
    (callback : SyncCallback) : NoCreation w (w.runSyncCallback tree distance callback) := by
  cases callback with
  | removeClone e => exact noCreation_removeClone w _
  | doRemove e => exact noCreation_unregister w e
  | handleClientDrop c netId slotId =>
    have hdrop := @noCreation_handleClientDrop _ tree distance w c netId slotId
    exact ⟨hdrop.entityCreationList, hdrop.origin, hdrop.entitiesById⟩

/-- The creates of the clients and of the server, and the token natives. -/
def Action.creates : Action Tree → Bool
  | .record _ (.create ..) => true
  | .createEntityFromTree .. => true
  | .createRpc .. => true
  | _ => false

/-- A record that is no create. -/
theorem noCreation_processRecord (w : ServerGameState Tree) (c : ClientPtr) {record : CloneRecord}
    (hcreates : (Action.record c record : Action Tree).creates = false) :
    NoCreation w (w.processRecord tree c record).2 := by
  cases record with
  | create uniqifier objectId creationToken objectType bitBytes => cases hcreates
  | sync uniqifier objectId bitBytes => exact noCreation_processCloneSync w c uniqifier objectId bitBytes
  | remove objectId uniqifier => exact noCreation_processCloneRemove w c objectId uniqifier
  | takeover clientId objectId => exact noCreation_processCloneTakeover w c clientId objectId
  | setTimestamp newTs => exact noCreation_modifyClient w c _
  | setIndex newIndex =>
    dsimp only [processRecord]
    exact noCreation_modifyClient w c _

theorem noCreation_step {a : Action Tree} (hstep : step tree w a = some w') (hcreates : a.creates = false) :
    NoCreation w w' := by
  cases a with
  | connect c netId slotId =>
    obtain ⟨_, hw⟩ := Option.ite_none_right_eq_some.mp hstep
    cases hw
    exact ⟨rfl, fun _ => rfl, fun _ _ h => h⟩
  | dropClient c =>
    obtain ⟨_, hw⟩ := Option.ite_none_right_eq_some.mp hstep
    cases hw
    exact noCreation_dropClient w c
  | removeClient c =>
    obtain ⟨_, hw⟩ := Option.ite_none_right_eq_some.mp hstep
    cases hw
    exact ⟨rfl, fun _ => rfl, fun _ _ h => h⟩
  | syncCallback distance =>
    obtain ⟨callback, syncCallbacks, _, rfl⟩ := step_syncCallback hstep
    have hpop : NoCreation w { w with syncCallbacks } := ⟨rfl, fun _ => rfl, fun _ _ h => h⟩
    exact hpop.trans (noCreation_runSyncCallback distance _ callback)
  | record c record =>
    obtain ⟨_, hw⟩ := Option.ite_none_right_eq_some.mp hstep
    cases hw
    exact noCreation_processRecord w c hcreates
  | ack c record =>
    obtain ⟨_, hw⟩ := Option.ite_none_right_eq_some.mp hstep
    cases hw
    exact noCreation_parseAck w c record
  | gameStateAck c frameIndex recreates =>
    obtain ⟨_, hw⟩ := Option.ite_none_right_eq_some.mp hstep
    cases hw
    exact .ite (noCreation_modifyClient w c _)
  | gameStateNAck c nack =>
    obtain ⟨_, hw⟩ := Option.ite_none_right_eq_some.mp hstep
    cases hw
    exact noCreation_gameStateNAck w c nack
  | ensureStateBag e =>
    obtain ⟨_, hw⟩ := Option.ite_none_right_eq_some.mp hstep
    cases hw
    exact noCreation_modifyEntity w e rfl
  | deleteEntity e =>
    obtain ⟨_, hw⟩ := Option.ite_none_right_eq_some.mp hstep
    cases hw
    exact noCreation_deleteEntity w e
  | entityCreating e cancelled =>
    obtain ⟨_, hw⟩ := Option.ite_none_right_eq_some.mp hstep
    cases hw
    have hpassed : NoCreation w (w.modifyEntity e fun entity =>
        { entity with entityCreating := false, passedFilter := entity.passedFilter || !cancelled }) :=
      noCreation_modifyEntity w e rfl
    unfold onEntityCreating
    dsimp only
    split
    · exact hpassed.trans (noCreation_deleteEntity _ e)
    · exact hpassed
  | reassign entityHandle targetClient =>
    obtain ⟨_, hw⟩ := Option.ite_none_right_eq_some.mp hstep
    cases hw
    exact noCreation_reassignEntity w entityHandle _
  | entityRemoved e =>
    obtain ⟨_, hw⟩ := Option.ite_none_right_eq_some.mp hstep
    cases hw
    exact ⟨rfl, fun _ => rfl, fun _ _ h => h⟩
  | setRoutingBucket c bucket =>
    cases hstep
    exact noCreation_modifyClient w c _
  | createRpc | createEntityFromTree => cases hcreates
  | setLockdownMode | wait =>
    cases hstep
    exact ⟨rfl, fun _ => rfl, fun _ _ h => h⟩
  | tick input =>
    cases hstep
    exact noCreation_tick input w

end ServerGameState

end fx
