import Citizen.GameState.Consistent

open Std

namespace fx

open sync

namespace ServerGameState

variable {Tree : Type*} {tree : SyncTreeBase Tree} {w w' w'' : ServerGameState Tree} {c : ClientPtr}
  {e : SyncEntityPtr}
variable {α β : Type*} {entityView : SyncEntityState Tree → α} {clientView : Client → β}

/-- Both states look the same: the mode and the clients that there are, and the views of every entity and client. -/
structure Same (entityView : SyncEntityState Tree → α) (clientView : Client → β)
    (w w' : ServerGameState Tree) : Prop where
  setting : (w'.bigMode, w'.connected, w'.alive) = (w.bigMode, w.connected, w.alive)
  entity : ∀ e, entityView (w'.entities e) = entityView (w.entities e)
  client : ∀ c, clientView (w'.clients c) = clientView (w.clients c)

namespace Same

theorem refl (w : ServerGameState Tree) : Same entityView clientView w w := ⟨rfl, fun _ => rfl, fun _ => rfl⟩

theorem trans (h : Same entityView clientView w w') (h' : Same entityView clientView w' w'') :
    Same entityView clientView w w'' :=
  ⟨h'.setting.trans h.setting, fun e => (h'.entity e).trans (h.entity e), fun c => (h'.client c).trans (h.client c)⟩

theorem bigMode (h : Same entityView clientView w w') : w'.bigMode = w.bigMode := congrArg (·.1) h.setting

theorem connected (h : Same entityView clientView w w') : w'.connected = w.connected := congrArg (·.2.1) h.setting

theorem alive (h : Same entityView clientView w w') : w'.alive = w.alive := congrArg (·.2.2) h.setting

theorem ite {p : Prop} [Decidable p] (h : Same entityView clientView w w') :
    Same entityView clientView w (if p then w' else w) := by
  split
  · exact h
  · exact refl w

end Same

theorem same_modifyEntity (w : ServerGameState Tree) (e : SyncEntityPtr)
    {f : SyncEntityState Tree → SyncEntityState Tree} (h : entityView (f (w.entities e)) = entityView (w.entities e)) :
    Same entityView clientView w (w.modifyEntity e f) := ⟨rfl, modifyEntity_eq _ w e h, fun _ => rfl⟩

theorem same_modifyClient (w : ServerGameState Tree) (c : ClientPtr) {f : Client → Client}
    (h : clientView (f (w.clients c)) = clientView (w.clients c)) :
    Same entityView clientView w (w.modifyClient c f) := ⟨rfl, fun _ => rfl, modifyClient_eq _ w c h⟩

/-- The views do not show who owns an entity, nor the object ids and the flags of the tables' entries. -/
structure IgnoresOwners (entityView : SyncEntityState Tree → α) (clientView : Client → β) : Prop where
  entity : ∀ (entity : SyncEntityState Tree) lastMigratedAt lastOwner client,
    entityView { entity with lastMigratedAt, lastOwner, client } = entityView entity
  client : ∀ (client : Client) objectIds syncedEntities,
    clientView { client with objectIds, syncedEntities } = clientView client

/-- The views do not show the scopes, nor the tables and the saved frames. -/
structure IgnoresScopes (entityView : SyncEntityState Tree → α) (clientView : Client → β) : Prop where
  entity : ∀ (entity : SyncEntityState Tree) relevantTo deletedFor outOfScopeFor finalizing wantsReassign stateBag,
    entityView { entity with relevantTo, deletedFor, outOfScopeFor, finalizing, wantsReassign, stateBag } =
      entityView entity
  client : ∀ (client : Client) syncedEntities entitiesToDestroy frameStates firstSavedFrameState,
    clientView { client with syncedEntities, entitiesToDestroy, frameStates, firstSavedFrameState } = clientView client

/-- The view does not show the player slots. -/
def IgnoresPlayers (clientView : Client → β) : Prop :=
  ∀ (client : Client) playersToSlots playersInScope,
    clientView { client with playersToSlots, playersInScope } = clientView client

section Owners

variable (ho : IgnoresOwners entityView clientView)
include ho

theorem same_reassignEntity (w : ServerGameState Tree) (entityHandle : Nat) (targetClient : Option ClientPtr) :
    Same entityView clientView w (w.reassignEntity entityHandle targetClient) := by
  unfold reassignEntity
  split
  · exact .refl w
  · rename_i e _
    split
    · exact .refl w
    · have hentity := @modifyEntity_eq Tree α entityView w e (fun entity =>
        { entity with lastMigratedAt := w.now, lastOwner := w.lock (w.entities e).client, client := targetClient })
        (ho.entity _ _ _ _)
      exact ⟨rfl, hentity, fun c => ho.client _ _ _⟩

theorem same_steal (w : ServerGameState Tree) (steals reassigns : Bool) (entityHandle objectId : Nat) :
    Same entityView clientView w
      (if steals then
        { (if steals && reassigns then w.reassignEntity entityHandle none else w) with
          objectIdsStolen := insert objectId
            (if steals && reassigns then w.reassignEntity entityHandle none else w).objectIdsStolen }
      else if steals && reassigns then w.reassignEntity entityHandle none else w) := by
  have hreassign : Same entityView clientView w
      (if steals && reassigns then w.reassignEntity entityHandle none else w) :=
    (same_reassignEntity ho w entityHandle none).ite
  generalize (if steals && reassigns then w.reassignEntity entityHandle none else w) = left at hreassign ⊢
  exact hreassign.trans (.ite ⟨rfl, fun _ => rfl, fun _ => rfl⟩)

theorem same_moveEntityToCandidate (distance : SyncEntityPtr → ClientPtr → Nat) (w : ServerGameState Tree)
    (c : ClientPtr) (e : SyncEntityPtr) :
    Same entityView clientView w (w.moveEntityToCandidate tree distance c e).2 := by
  unfold moveEntityToCandidate
  dsimp only
  split
  · exact .refl w
  · split
    · exact .refl w
    · generalize (if (w.entities e).type = .Player then none
        else (w.candidates c (w.entities e).relevantTo).argmin (distance e)) = candidate
      cases candidate with
      | some candidate => exact same_reassignEntity ho _ _ _
      | none =>
        dsimp only
        split
        · exact same_reassignEntity ho _ _ _
        · exact .refl w

end Owners

section Scopes

variable (hs : IgnoresScopes entityView clientView)
include hs

theorem same_collect (w : ServerGameState Tree) : Same entityView clientView w (w.collect tree) := by
  apply Loop.keeps _ Same.refl Same.trans
  intro w e
  split
  · unfold finalizeClone
    split
    · exact same_modifyEntity w e (hs.entity _ _ _ _ _ _ _)
    · exact .refl w
  · exact .refl w

theorem same_addRoutingTarget (w : ServerGameState Tree) (e : SyncEntityPtr) (slotId : Nat) :
    Same entityView clientView w (w.addRoutingTarget e slotId) := same_modifyEntity w e (hs.entity _ _ _ _ _ _ _)

theorem same_updateEntity (input : ScopeInput) (c : ClientPtr) (acc : ServerGameState Tree × SyncedEntities)
    (e : SyncEntityPtr) : Same entityView clientView acc.1 (updateEntity tree input c acc e).1 := by
  unfold updateEntity
  dsimp only
  split
  · exact .refl _
  · generalize hw : acc.1.modifyEntity e _ = w
    have hsame : Same entityView clientView acc.1 w := hw ▸ same_modifyEntity acc.1 e (hs.entity _ _ _ _ _ _ _)
    apply hsame.trans
    split
    · split
      · exact .refl w
      · split
        · dsimp only
          exact same_modifyClient w c (hs.client _ _ _ _ _)
        · exact .refl w
    · split
      · dsimp only
        exact same_modifyEntity w e (hs.entity _ _ _ _ _ _ _)
      · exact .refl w

theorem same_updateScopes (input : ScopeInput) (w : ServerGameState Tree) :
    Same entityView clientView w (w.updateScopes tree input) := by
  have hclient : ∀ relevantEntities (w : ServerGameState Tree) c,
      Same entityView clientView w (w.updateClient tree input relevantEntities c) := by
    intro relevantEntities w c
    have hloop : Same entityView clientView w (relevantEntities.foldl (updateEntity tree input c) (w, ∅)).1 :=
      Loop.keeps (fun acc acc' : ServerGameState Tree × SyncedEntities => Same entityView clientView acc.1 acc'.1)
        (fun acc => .refl acc.1) Same.trans (same_updateEntity hs input c) relevantEntities (w, ∅)
    unfold updateClient
    dsimp only
    exact hloop.trans (same_modifyClient _ c (hs.client _ _ _ _ _))
  unfold updateScopes
  dsimp only
  have hstyle : Same entityView clientView w { w with syncStyle := input.syncStyle } :=
    ⟨rfl, fun _ => rfl, fun _ => rfl⟩
  refine (hstyle.trans (same_collect hs _)).trans (Loop.keeps _ Same.refl Same.trans (fun w slotId => ?_) _ _)
  unfold updateSlot
  split
  · exact hclient _ w _
  · exact .refl w

theorem same_moveDeleting (c : ClientPtr) (w : ServerGameState Tree) (identPair : Nat × Nat) :
    Same entityView clientView w (moveDeleting c w identPair) := by
  unfold moveDeleting
  split
  · split
    · exact same_modifyClient w c (hs.client _ _ _ _ _)
    · exact .refl w
  · exact .refl w

theorem same_saveFrame (w : ServerGameState Tree) (c : ClientPtr) (frameIndex : Nat) (lastSeen : Bool)
    (ces : ClientEntityState) :
    Same entityView clientView w (w.modifyClient c fun client => client.saveFrame frameIndex lastSeen ces) :=
  same_modifyClient w c (hs.client _ _ _ _ _)

end Scopes

section Tick

variable (ho : IgnoresOwners entityView clientView) (hs : IgnoresScopes entityView clientView)
include ho hs

theorem same_takeEntity (w : ServerGameState Tree) (c : ClientPtr) (e : SyncEntityPtr) :
    Same entityView clientView w (w.takeEntity c e) := by
  unfold takeEntity
  dsimp only
  split
  · exact .trans (same_modifyEntity w e (hs.entity _ _ _ _ _ _ _)) (same_reassignEntity ho _ _ _)
  · exact .refl w

/-- Apart from a player that leaves, a deletion changes only what the views ignore. -/
theorem processDeletion_same (c : ClientPtr) (w : ServerGameState Tree) (entityPair : Nat × Nat) :
    processDeletion tree c w entityPair = w ∨
      ∃ left e, Same entityView clientView w left ∧ processDeletion tree c w entityPair = left.leavePlayer c e := by
  unfold processDeletion
  split
  · rename_i e deletionData _
    refine .inr ⟨_, e, ?_, rfl⟩
    exact .trans (same_modifyEntity w e (hs.entity _ _ _ _ _ _ _)) (same_steal ho _ _ _ _ _)
  · exact .inl rfl

/-- Apart from a player that enters, a sync changes only what the views ignore. -/
theorem syncEntity_same (input : ScopeInput) (c : ClientPtr)
    (acc : ServerGameState Tree × List (Nat × SyncEntityPtr × Bool)) (identPair : Nat × Nat) :
    ∃ left right, Same entityView clientView acc.1 left ∧ (right = left ∨ ∃ e, right = left.enterPlayer c e) ∧
      Same entityView clientView right (syncEntity input c acc identPair).1 := by
  unfold syncEntity
  dsimp only
  split
  · exact ⟨acc.1, acc.1, .refl _, .inl rfl, .refl _⟩
  · rename_i syncData _
    have htake := same_takeEntity ho hs acc.1 c syncData.entity
    generalize acc.1.takeEntity c syncData.entity = w at htake ⊢
    split
    · dsimp only
      exact ⟨w, w, htake, .inl rfl, same_modifyClient w c (hs.client _ _ _ _ _)⟩
    · generalize hplayer : (if syncData.hasCreated = true then w else w.enterPlayer c syncData.entity) = w'
      refine ⟨w, w', htake, ?_, ?_⟩
      · rw [← hplayer]
        split
        · exact .inl rfl
        · exact .inr ⟨_, rfl⟩
      · split
        · exact .refl w'
        · dsimp only
          refine .trans (.ite (same_addRoutingTarget hs w' syncData.entity _)) (.ite ?_)
          exact same_modifyClient _ c (hs.client _ _ _ _ _)

section Players

variable (hp : IgnoresPlayers clientView)
include hp

omit ho hs in
theorem same_leavePlayer (w : ServerGameState Tree) (c : ClientPtr) (e : SyncEntityPtr) :
    Same entityView clientView w (w.leavePlayer c e) := by
  unfold leavePlayer
  split
  · split
    · split
      · exact same_modifyClient w c (hp _ _ _)
      · exact .refl w
    · exact .refl w
  · exact .refl w

omit ho hs in
theorem same_enterPlayer (w : ServerGameState Tree) (c : ClientPtr) (e : SyncEntityPtr) :
    Same entityView clientView w (w.enterPlayer c e) := by
  unfold enterPlayer
  split
  · exact same_modifyClient w c (hp _ _ _)
  · exact .refl w

theorem same_deleteEntities (w : ServerGameState Tree) (c : ClientPtr) :
    Same entityView clientView w (w.deleteEntities tree c) := by
  unfold deleteEntities
  refine .trans (Loop.keeps _ Same.refl Same.trans (same_moveDeleting hs c) _ w)
    (Loop.keeps _ Same.refl Same.trans (fun w entityPair => ?_) _ _)
  obtain hsame | ⟨left, e, hleft, hsame⟩ := processDeletion_same ho hs c w entityPair
  · rw [hsame]
    exact .refl w
  · rw [hsame]
    exact hleft.trans (same_leavePlayer hp left c e)

theorem same_syncLoop (input : ScopeInput) (c : ClientPtr) (identPairs : List (Nat × Nat)) (w : ServerGameState Tree) :
    Same entityView clientView w (identPairs.foldl (syncEntity input c) (w, [])).1 := by
  refine Loop.keeps (fun acc acc' : ServerGameState Tree × List (Nat × SyncEntityPtr × Bool) =>
    Same entityView clientView acc.1 acc'.1)
      (fun acc => .refl acc.1) Same.trans (fun acc identPair => ?_) identPairs (w, [])
  obtain ⟨left, right, hleft, hplayer, hright⟩ := syncEntity_same ho hs input c acc identPair
  refine hleft.trans (.trans ?_ hright)
  obtain rfl | ⟨e, rfl⟩ := hplayer
  · exact .refl _
  · exact same_enterPlayer hp left c e

theorem same_tickClient (input : ScopeInput) (w : ServerGameState Tree) (c : ClientPtr) :
    Same entityView clientView w (w.tickClient tree input c) := by
  have hdelete := @same_deleteEntities _ tree _ _ _ _ ho hs hp w c
  unfold tickClient
  split
  · exact .refl w
  · dsimp only
    generalize w.deleteEntities tree c = w' at hdelete ⊢
    refine hdelete.trans (.trans (.ite ?_) (.trans (same_syncLoop ho hs hp input c _ _) (same_saveFrame hs _ c _ _ _)))
    exact same_modifyClient w' c (hs.client _ _ _ _ _)

theorem same_tick (input : ScopeInput) (w : ServerGameState Tree) :
    Same entityView clientView w (w.tick tree input) := by
  have hloop := (same_updateScopes hs input w).trans
    (Loop.keeps _ Same.refl Same.trans (@same_tickClient _ tree _ _ _ _ ho hs hp input)
      (w.updateScopes tree input).allClients (w.updateScopes tree input))
  exact ⟨hloop.setting, hloop.entity, hloop.client⟩

end Players

end Tick

section Messages

/-- The view does not show what messages write of their client, but for the tables. -/
def IgnoresMessages (clientView : Client → β) : Prop :=
  ∀ (client : Client) syncTs ackTs fidx playerEntity,
    clientView { client with syncTs, ackTs, fidx, playerEntity } = clientView client

/-- A view that shows nothing of the entities. -/
abbrev noView : SyncEntityState Tree → Unit := fun _ => ()

theorem same_entities {w w' : ServerGameState Tree}
    (hsetting : (w'.bigMode, w'.connected, w'.alive) = (w.bigMode, w.connected, w.alive))
    (hclients : w'.clients = w.clients) :
    Same noView clientView w w' :=
  ⟨hsetting, fun _ => rfl, fun c => by rw [hclients]⟩

section Tables

variable (hs : @IgnoresScopes Tree _ _ noView clientView)
include hs

theorem same_recreate (entities : SyncEntityPtr → SyncEntityState Tree) (nacked : Bool) (client : Client)
    (objectId : Nat) (e : SyncEntityPtr) :
    clientView (recreate entities nacked client objectId e) = clientView client :=
  hs.client _ _ _ _ _

theorem same_recreateAll (entities : SyncEntityPtr → SyncEntityState Tree) (nacked : Bool) (state : ClientEntityState)
    (recreates : List Nat) (client : Client) :
    clientView (recreateAll entities nacked state recreates client) = clientView client := by
  apply Loop.keeps (fun client client' => clientView client' = clientView client) (fun _ => rfl) fun h h' => h'.trans h
  intro client objectId
  split
  · exact same_recreate hs entities nacked client objectId _
  · rfl

theorem same_nackFrame (entities : SyncEntityPtr → SyncEntityState Tree) (state : ClientEntityState)
    (client : Client) :
    clientView (nackFrame entities state client) = clientView client := by
  unfold nackFrame
  refine (hs.client _ _ _ _ _).trans ?_
  apply Loop.keeps (fun client client' => clientView client' = clientView client) (fun _ => rfl) fun h h' => h'.trans h
  intro client s
  split
  · rfl
  · exact same_recreate hs entities true client s.1 s.2.1

theorem same_nackFrames (entities : SyncEntityPtr → SyncEntityState Tree) (first : Nat) :
    ∀ {count : Nat} {client client' : Client}, nackFrames entities first count client = some client' →
      clientView client' = clientView client
  | 0, client, _, h => by
    cases h
    rfl
  | count + 1, client, client', h => by
    obtain ⟨state, _, hrest⟩ := Option.bind_eq_some_iff.mp h
    exact (same_nackFrames entities first hrest).trans (same_nackFrame hs entities state client)

theorem same_nackClient {entities : SyncEntityPtr → SyncEntityState Tree} {nack : FrameNAck} {client client' : Client}
    (h : nackClient entities nack client = some client') : clientView client' = clientView client := by
  unfold nackClient at h
  obtain ⟨missed, hmissed, hrest⟩ := Option.bind_eq_some_iff.mp h
  obtain ⟨state, _, rfl⟩ := Option.map_eq_some_iff.mp hrest
  refine (same_recreateAll hs entities true state _ missed).trans ?_
  split at hmissed
  · exact same_nackFrames hs entities _ hmissed
  · cases hmissed
    rfl

theorem same_gameStateAck (w : ServerGameState Tree) (c : ClientPtr) (frameIndex : Nat) (recreates : List Nat) :
    Same noView clientView w (w.gameStateAck c frameIndex recreates) := by
  unfold gameStateAck
  split
  · apply same_modifyClient
    refine (hs.client _ _ _ _ _).trans ?_
    split
    · exact same_recreateAll hs w.entities false _ recreates _
    · rfl
  · exact .refl w

theorem same_parseAck (w : ServerGameState Tree) (c : ClientPtr) (record : AckRecord) :
    Same noView clientView w (w.parseAck c record) := by
  cases record with
  | create objectId uniqifier =>
    dsimp only [parseAck]
    split
    · exact .refl w
    · split
      · exact (same_modifyEntity w _ rfl).trans (same_modifyClient _ c (hs.client _ _ _ _ _))
      · exact .refl w
  | remove objectId uniqifier =>
    dsimp only [parseAck]
    exact same_modifyClient w c (hs.client _ _ _ _ _)

end Tables

theorem same_removeClone (w : ServerGameState Tree) (objectId : Nat) :
    Same noView clientView w (w.removeClone objectId) := by
  unfold removeClone
  split
  · exact same_modifyEntity w _ rfl
  · exact .refl w

theorem same_deleteEntity (w : ServerGameState Tree) (e : SyncEntityPtr) :
    Same noView clientView w (w.deleteEntity e) := by
  unfold deleteEntity
  split
  · exact .refl w
  · exact same_entities rfl rfl

section Records

variable (hm : IgnoresMessages clientView)
include hm

theorem same_receiveClone (w : ServerGameState Tree) (c : ClientPtr) (e : SyncEntityPtr) (parsingType : Nat)
    (bitBytes : List (BitVec 8)) : Same noView clientView w (w.receiveClone tree c e parsingType bitBytes) := by
  unfold receiveClone
  dsimp only
  generalize hw : w.modifyEntity e _ = w'
  have hsame : Same noView clientView w w' := hw ▸ same_modifyEntity w e rfl
  apply hsame.trans
  split
  · exact same_modifyClient w' c (hm _ _ _ _ _)
  · exact .refl w'

theorem same_syncClone (w : ServerGameState Tree) (c : ClientPtr) (e : SyncEntityPtr) (parsingType uniqifier : Nat)
    (bitBytes : List (BitVec 8)) :
    Same noView clientView w (w.syncClone tree c e parsingType uniqifier bitBytes).2 := by
  have henter : Same noView clientView w (w.modifyEntity e (·.enterScope (w.clients c).slotId)) :=
    same_modifyEntity w e rfl
  obtain ⟨result, _, h⟩ | ⟨_, ⟨result, _, _, h⟩ | ⟨_, h⟩⟩ := syncClone_cases tree w c e parsingType uniqifier bitBytes
  · rw [h]
    exact .refl w
  · rw [h]
    exact henter
  · rw [h]
    exact henter.trans (same_receiveClone hm _ c e parsingType bitBytes)

variable (hs : @IgnoresScopes Tree _ _ noView clientView)
include hs

omit hm in
theorem same_cloneCreated (w : ServerGameState Tree) (c : ClientPtr) (e : SyncEntityPtr) :
    Same noView clientView w (w.cloneCreated tree c e).2 := by
  unfold cloneCreated
  dsimp only
  generalize hw : w.modifyEntity e _ = w'
  have hsame : Same noView clientView w w' := hw ▸ same_modifyEntity w e rfl
  apply hsame.trans
  split
  · dsimp only
    exact (same_removeClone w' _).trans (same_modifyClient _ c (hs.client _ _ _ _ _))
  · refine ⟨rfl, fun _ => rfl, ?_⟩
    exact modifyClient_eq clientView ((w'.onEntityCreate (w'.entities e).creationToken).modifyEntity e fun entity =>
      { entity with entityCreating := true }) c (f := fun client =>
      { client with syncedEntities := client.syncedEntities.insert (w'.entities e).pair ⟨e, false, true, false⟩ })
      (hs.client _ _ _ _ _)

theorem same_processCloneCreate (w : ServerGameState Tree) (c : ClientPtr)
    (uniqifier objectId creationToken objectType : Nat) (bitBytes : List (BitVec 8)) :
    Same noView clientView w (w.processCloneCreate tree c uniqifier objectId creationToken objectType bitBytes).2 := by
  unfold processCloneCreate
  split
  · exact .refl w
  · split
    · exact .refl w
    · split
      · exact .refl w
      · rename_i type _
        dsimp only
        have hmade : Same noView clientView w
          (w.allocate (w.construct tree c uniqifier objectId creationToken type)) :=
          same_entities rfl rfl
        have hsync := hmade.trans (@same_syncClone _ tree _ _ hm _ c w.nextEntity 1 uniqifier bitBytes)
        generalize (w.allocate (w.construct tree c uniqifier objectId creationToken type)).syncClone tree c
          w.nextEntity 1 uniqifier bitBytes = made at hsync ⊢
        split
        · exact hsync.trans (same_cloneCreated hs _ c _)
        · exact hsync

/-- A record that is no takeover. -/
theorem same_processRecord (w : ServerGameState Tree) (c : ClientPtr) {record : CloneRecord}
    (htakeover : ∀ clientId objectId, record ≠ .takeover clientId objectId) :
    Same noView clientView w (w.processRecord tree c record).2 := by
  cases record with
  | create uniqifier objectId creationToken objectType bitBytes =>
    exact same_processCloneCreate hm hs w c uniqifier objectId creationToken objectType bitBytes
  | sync uniqifier objectId bitBytes =>
    dsimp only [processRecord]
    unfold processCloneSync
    split
    · exact .refl w
    · split
      · exact .refl w
      · exact same_syncClone hm w c _ 2 uniqifier bitBytes
  | remove objectId uniqifier =>
    dsimp only [processRecord]
    unfold processCloneRemove
    split
    · exact .refl w
    · split
      · exact .refl w
      · split
        · exact .refl w
        · split
          · exact .refl w
          · exact same_removeClone w objectId
  | takeover clientId objectId => exact absurd rfl (htakeover clientId objectId)
  | setTimestamp newTs =>
    dsimp only [processRecord]
    unfold setTimestamp
    apply same_modifyClient
    split
    · exact hm _ _ _ _ _
    · rfl
  | setIndex newIndex =>
    dsimp only [processRecord]
    exact same_modifyClient w c (hm _ _ _ _ _)

end Records

end Messages

section Parsing

/-- A view that shows nothing of the clients. -/
abbrev noClient : Client → Unit := fun _ => ()

/-- The view does not show what a record that has found its entity writes. -/
def IgnoresParsing (entityView : SyncEntityState Tree → α) : Prop :=
  ∀ (entity : SyncEntityState Tree) relevantTo outOfScopeFor stateBag lastOutOfBandTimestamp lastReceivedAt
    lastFrameIndex
      timestamp syncTree hasSynced,
    entityView { entity with
      relevantTo, outOfScopeFor, stateBag, lastOutOfBandTimestamp, lastReceivedAt, lastFrameIndex, timestamp, syncTree,
      hasSynced } = entityView entity

variable (hview : IgnoresParsing entityView)
include hview

theorem view_parseClone (entity : SyncEntityState Tree) (parsingType timestamp frameIndex : Nat)
    (bitBytes : List (BitVec 8)) :
    entityView (parseClone tree entity parsingType timestamp frameIndex bitBytes) = entityView entity := by
  unfold parseClone
  split
  · rfl
  · exact hview entity entity.relevantTo entity.outOfScopeFor entity.stateBag entity.lastOutOfBandTimestamp
      entity.lastReceivedAt _ _ _ _

theorem view_syncClone (w : ServerGameState Tree) (c : ClientPtr) (e : SyncEntityPtr) (parsingType uniqifier : Nat)
    (bitBytes : List (BitVec 8)) :
    Same entityView noClient w (w.syncClone tree c e parsingType uniqifier bitBytes).2 := by
  have henter : Same entityView noClient w (w.modifyEntity e (·.enterScope (w.clients c).slotId)) :=
    same_modifyEntity w e (hview (w.entities e) _ _ (w.entities e).stateBag (w.entities e).lastOutOfBandTimestamp
      (w.entities e).lastReceivedAt (w.entities e).lastFrameIndex (w.entities e).timestamp (w.entities e).syncTree
      (w.entities e).hasSynced)
  obtain ⟨result, _, h⟩ | ⟨_, ⟨result, _, _, h⟩ | ⟨_, h⟩⟩ := syncClone_cases tree w c e parsingType uniqifier bitBytes
  · rw [h]
    exact .refl w
  · rw [h]
    exact henter
  · rw [h]
    refine henter.trans ?_
    generalize w.modifyEntity e (·.enterScope (w.clients c).slotId) = w'
    unfold receiveClone
    dsimp only
    generalize hleft : w'.modifyEntity e _ = left
    have hparse : Same entityView noClient w' left := by
      rw [← hleft]
      apply same_modifyEntity
      refine (view_parseClone hview _ _ _ _ _).trans ?_
      exact hview (w'.entities e) (w'.entities e).relevantTo (w'.entities e).outOfScopeFor _ _ _
        (w'.entities e).lastFrameIndex (w'.entities e).timestamp (w'.entities e).syncTree (w'.entities e).hasSynced
    apply hparse.trans
    split
    · exact same_modifyClient left c rfl
    · exact .refl left

theorem view_processCloneSync (w : ServerGameState Tree) (c : ClientPtr) (uniqifier objectId : Nat)
    (bitBytes : List (BitVec 8)) :
    Same entityView noClient w (w.processCloneSync tree c uniqifier objectId bitBytes).2 := by
  unfold processCloneSync
  split
  · exact .refl w
  · split
    · exact .refl w
    · exact view_syncClone hview w c _ 2 uniqifier bitBytes

end Parsing

theorem same_processCloneTakeover (ho : IgnoresOwners entityView clientView) (w : ServerGameState Tree) (c : ClientPtr)
    (clientId objectId : Nat) : Same entityView clientView w (w.processCloneTakeover c clientId objectId).2 := by
  unfold processCloneTakeover
  split
  · exact .refl w
  · split
    · exact .refl w
    · split
      · exact same_reassignEntity ho w _ _
      · split
        · exact .refl w
        · split
          · exact .refl w
          · exact same_reassignEntity ho w _ _

theorem same_unregister (ho : @IgnoresOwners Tree _ _ noView clientView) (w : ServerGameState Tree)
    (e : SyncEntityPtr) : Same noView clientView w (w.unregister e) := by
  refine ⟨rfl, fun _ => rfl, fun c => ?_⟩
  unfold unregister
  dsimp only
  split
  · exact ho.client _ _ _
  · rfl

end ServerGameState

end fx
