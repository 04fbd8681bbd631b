import Citizen.GameState.Registry

open Std

namespace fx

open sync

namespace ServerGameState

variable {Tree : Type*} {tree : SyncTreeBase Tree} {w w' : ServerGameState Tree} {c : ClientPtr} {e : SyncEntityPtr}

/-- The sync thread takes its oldest callback. -/
theorem step_syncCallback {distance : SyncEntityPtr → ClientPtr → Nat}
    (h : step tree w (.syncCallback distance) = some w') :
    ∃ callback syncCallbacks, w.syncCallbacks = callback :: syncCallbacks ∧
      w' = runSyncCallback tree distance { w with syncCallbacks } callback := by
  rw [step] at h
  split at h
  · cases h
  · rename_i callback syncCallbacks hqueue
    cases h
    exact ⟨callback, syncCallbacks, hqueue, rfl⟩

theorem sameRegistry_parseAck (w : ServerGameState Tree) (c : ClientPtr) (record : AckRecord) :
    SameRegistry w (w.parseAck c record) := by
  cases record with
  | create objectId uniqifier =>
    dsimp only [parseAck]
    split
    · exact .refl w
    · split
      · exact (sameRegistry_modifyEntity w _ rfl).trans (sameRegistry_modifyClient _ c rfl)
      · exact .refl w
  | remove objectId uniqifier =>
    dsimp only [parseAck]
    exact sameRegistry_modifyClient w c rfl

/-- The client is the same but for its saved frames, the flags of its `syncedEntities`, and `entitiesToDestroy`. -/
structure SameSynced (client client' : Client) : Prop where
  identity : client'.identity = client.identity
  synced : ∀ identPair, client'.syncedEntity identPair = client.syncedEntity identPair

theorem SameSynced.refl (client : Client) : SameSynced client client := ⟨rfl, fun _ => rfl⟩

theorem SameSynced.trans {client client' client'' : Client} (h : SameSynced client client')
    (h' : SameSynced client' client'') : SameSynced client client'' :=
  ⟨h'.identity.trans h.identity, fun p => (h'.synced p).trans (h.synced p)⟩

theorem sameSynced_recreate (entities : SyncEntityPtr → SyncEntityState Tree) (nacked : Bool) (client : Client)
    (objectId : Nat) (e : SyncEntityPtr) : SameSynced client (recreate entities nacked client objectId e) :=
  ⟨rfl, fun identPair => map_entity_modify client.syncedEntities _ identPair fun _ => rfl⟩

theorem sameSynced_recreateAll (entities : SyncEntityPtr → SyncEntityState Tree) (nacked : Bool)
    (state : ClientEntityState) (recreates : List Nat) (client : Client) :
    SameSynced client (recreateAll entities nacked state recreates client) := by
  apply Loop.keeps _ SameSynced.refl SameSynced.trans
  intro client objectId
  split
  · exact sameSynced_recreate entities nacked client objectId _
  · exact .refl client

theorem sameSynced_nackFrame (entities : SyncEntityPtr → SyncEntityState Tree) (state : ClientEntityState)
    (client : Client) : SameSynced client (nackFrame entities state client) := by
  have hloop : SameSynced client (state.syncedEntities.foldl (fun client s =>
      if s.2.2 then client else recreate entities true client s.1 s.2.1) client) := by
    apply Loop.keeps _ SameSynced.refl SameSynced.trans
    intro client s
    split
    · exact .refl client
    · exact sameSynced_recreate entities true client s.1 s.2.1
  exact ⟨hloop.identity, hloop.synced⟩

theorem sameSynced_nackFrames (entities : SyncEntityPtr → SyncEntityState Tree) (first : Nat) :
    ∀ {count : Nat} {client client' : Client}, nackFrames entities first count client = some client' →
      SameSynced client client'
  | 0, client, _, h => by
    cases h
    exact .refl client
  | count + 1, client, client', h => by
    obtain ⟨state, _, hrest⟩ := Option.bind_eq_some_iff.mp h
    exact (sameSynced_nackFrame entities state client).trans (sameSynced_nackFrames entities first hrest)

theorem sameSynced_nackClient {entities : SyncEntityPtr → SyncEntityState Tree} {nack : FrameNAck}
    {client client' : Client} (h : nackClient entities nack client = some client') : SameSynced client client' := by
  unfold nackClient at h
  obtain ⟨missed, hmissed, hrest⟩ := Option.bind_eq_some_iff.mp h
  obtain ⟨state, _, rfl⟩ := Option.map_eq_some_iff.mp hrest
  have hframes : SameSynced client missed := by
    split at hmissed
    · exact sameSynced_nackFrames entities _ hmissed
    · cases hmissed
      exact .refl client
  exact hframes.trans (sameSynced_recreateAll entities true state _ missed)

theorem sameSynced_gameStateAck (entities : SyncEntityPtr → SyncEntityState Tree) (client : Client) (frameIndex : Nat)
    (recreates : List Nat) :
    SameSynced client (match client.frameStates.lookup frameIndex with
      | some state => recreateAll entities false state recreates client
      | none => client) := by
  split
  · exact sameSynced_recreateAll entities false _ recreates client
  · exact .refl client

theorem sameRegistry_gameStateAck (w : ServerGameState Tree) (c : ClientPtr) (frameIndex : Nat)
    (recreates : List Nat) :
    SameRegistry w (w.gameStateAck c frameIndex recreates) := by
  have hsame := sameSynced_gameStateAck w.entities (w.clients c) frameIndex recreates
  unfold gameStateAck
  split
  · exact sameRegistry_modifyClient w c hsame.identity
  · exact .refl w

@[simp] theorem dropSlot_pair (entity : SyncEntityState Tree) (slotId : Nat) :
    (entity.dropSlot slotId).pair = entity.pair := by
  unfold SyncEntityState.dropSlot
  split <;> rfl

theorem sameRegistry_dropEntity (tree : SyncTreeBase Tree) (distance : SyncEntityPtr → ClientPtr → Nat) (c : ClientPtr)
    (slotId : Nat) (acc : ServerGameState Tree × List Nat) (e : SyncEntityPtr) :
    SameRegistry acc.1 (dropEntity tree distance c slotId acc e).1 := by
  unfold dropEntity
  dsimp only
  generalize hw : acc.1.modifyEntity e _ = w
  have hsame : SameRegistry acc.1 w := hw ▸ sameRegistry_modifyEntity acc.1 e (dropSlot_pair _ slotId)
  have hmove := (still_moveEntityToCandidate tree distance w c e).toSameRegistry
  generalize w.moveEntityToCandidate tree distance c e = moved at hmove ⊢
  obtain ⟨found, w'⟩ := moved
  cases found with
  | true => exact hsame.trans hmove
  | false =>
    dsimp only at hmove ⊢
    split
    · exact (hsame.trans hmove).trans (still_reassignEntity _ _ _).toSameRegistry
    · exact hsame.trans hmove

theorem sameRegistry_handleClientDrop (tree : SyncTreeBase Tree) (distance : SyncEntityPtr → ClientPtr → Nat)
    (w : ServerGameState Tree) (c : ClientPtr) (netId slotId : Nat) :
    SameRegistry w (w.handleClientDrop tree distance c netId slotId) := by
  have hloop := (still_dropPlayer w netId).toSameRegistry.trans
    (Loop.keeps (fun acc acc' : ServerGameState Tree × List Nat => SameRegistry acc.1 acc'.1)
      (fun acc => .refl acc.1) SameRegistry.trans (sameRegistry_dropEntity tree distance c slotId)
      (w.dropPlayer netId).entityList (w.dropPlayer netId, []))
  have herase := hloop.trans (Loop.keeps _ SameRegistry.refl SameRegistry.trans
    (fun w objectId => (still_removeClone w objectId).toSameRegistry)
    ((w.dropPlayer netId).entityList.foldl (dropEntity tree distance c slotId) (w.dropPlayer netId, [])).2 _)
  exact ⟨herase.registries, herase.pair, herase.identity⟩

theorem Consistent.dropClient (h : w.Consistent) (c : ClientPtr) : (w.dropClient c).Consistent := by
  have hnet : ∀ c', ((w.dropClient c).clients c').netId = (w.clients c').netId := modifyClient_eq Client.netId w c rfl
  have hslot : ∀ c', ((w.dropClient c).clients c').slotId = (w.clients c').slotId :=
    modifyClient_eq Client.slotId w c rfl
  exact {
    byId := h.byId
    registered := h.registered
    used := h.used
    lt_next := h.lt_next
    nodup := h.nodup
    alive := h.alive
    netId_inj := by simp only [hnet]; exact h.netId_inj
    slotId_inj := by simp only [hslot]; exact h.slotId_inj
    slotId_lt := by simp only [hslot]; exact h.slotId_lt
    doRemove := h.doRemove
    doRemove_once := h.doRemove_once
    dropped := by simp only [hnet]; exact h.dropped }

/-- A client that leaves the registry has its drop queued. -/
theorem Consistent.removeClient (h : w.Consistent) (hc : c ∈ w.connected) : (w.removeClient c).Consistent := by
  have hclients : (w.removeClient c).clients =
    (w.modifyClient c fun client => { client with slotId := noSlot }).clients := rfl
  have hnet : ∀ c', ((w.removeClient c).clients c').netId = (w.clients c').netId := by
    rw [hclients]
    exact modifyClient_eq Client.netId w c rfl
  have hsub : ∀ c' ∈ (w.removeClient c).connected, c' ∈ w.connected := fun c' hc' => List.mem_of_mem_filter hc'
  have hslot : ∀ c' ∈ (w.removeClient c).connected,
    ((w.removeClient c).clients c').slotId = (w.clients c').slotId := by
    intro c' hc'
    rw [hclients, modifyClient_of_ne w _ (of_decide_eq_true (List.mem_filter.mp hc').2)]
  exact {
    byId := h.byId
    registered := h.registered
    used := h.used
    lt_next := h.lt_next
    nodup := h.nodup
    alive := fun c' hc' => h.alive c' (hsub c' hc')
    netId_inj := by
      simp only [hnet]
      exact h.netId_inj
    slotId_inj := fun c₁ h₁ c₂ h₂ hne heq => by
      rw [hslot c₁ h₁] at hne heq
      rw [hslot c₂ h₂] at heq
      exact h.slotId_inj c₁ (hsub c₁ h₁) c₂ (hsub c₂ h₂) hne heq
    slotId_lt := fun c' hc' hne => by
      rw [hslot c' hc'] at hne ⊢
      exact h.slotId_lt c' (hsub c' hc') hne
    doRemove := fun e he => h.doRemove e (by simpa [ServerGameState.removeClient] using he)
    doRemove_once := fun e => by
      have hcount := h.doRemove_once e
      simpa [ServerGameState.removeClient, List.count_append] using hcount
    dropped := fun c' netId slotId hmem => by
      rw [hnet]
      obtain hmem | hmem := List.mem_append.mp hmem
      · obtain ⟨hnetId, hmade, hnot⟩ := h.dropped c' netId slotId hmem
        exact ⟨hnetId, hmade, fun hc' => hnot (hsub c' hc')⟩
      · cases List.mem_singleton.mp hmem
        exact ⟨rfl, .inl (h.alive c hc), fun hc' => of_decide_eq_true (List.mem_filter.mp hc').2 rfl⟩ }

theorem Consistent.gameStateNAck (h : w.Consistent) (c : ClientPtr) (nack : FrameNAck) :
    (w.gameStateNAck c nack).Consistent := by
  unfold ServerGameState.gameStateNAck
  split
  · split
    · exact h.of_same (sameRegistry_modifyClient w c (sameSynced_nackClient ‹_›).identity)
    · exact h.dropClient c
  · exact h

/-- A client is let go when its drop has been handled. -/
theorem Consistent.free (h : w.Consistent) (hc : c ∉ w.connected) : (w.free c).Consistent where
  byId := h.byId
  registered := h.registered
  used := h.used
  lt_next := h.lt_next
  nodup := h.nodup
  alive c' hc' := by
    refine List.mem_filter.mpr ⟨h.alive c' hc', decide_eq_true ?_⟩
    rintro rfl
    exact hc hc'
  netId_inj c₁ h₁ c₂ h₂ := h.netId_inj c₁ (List.mem_of_mem_filter h₁) c₂ (List.mem_of_mem_filter h₂)
  slotId_inj := h.slotId_inj
  slotId_lt := h.slotId_lt
  doRemove := h.doRemove
  doRemove_once := h.doRemove_once
  dropped c' netId slotId hmem := by
    obtain ⟨hnetId, hmade, hnot⟩ := h.dropped c' netId slotId hmem
    refine ⟨hnetId, ?_, hnot⟩
    by_cases heq : c' = c
    · exact .inr (heq ▸ List.mem_cons_self)
    · exact hmade.imp (fun halive => List.mem_filter.mpr ⟨halive, decide_eq_true heq⟩) (List.mem_cons_of_mem c)

/-- A new client has a pointer and a net id of its own, and a slot of its own in the registry. -/
theorem Consistent.connect {netId slotId : Nat} (h : w.Consistent) (hc : c ∉ w.alive ∧ c ∉ w.freed)
    (hnet : ∀ c' ∈ w.alive, (w.clients c').netId ≠ netId)
    (hslot : slotId = noSlot ∨ slotId < MAX_CLIENTS ∧ ∀ c' ∈ w.connected, (w.clients c').slotId ≠ slotId) :
    Consistent { w.modifyClient c fun _ => { netId, slotId } with
      connected := c :: w.connected, alive := c :: w.alive } := by
  have hold : ∀ c' ∈ w.alive, (w.modifyClient c fun _ => { netId, slotId }).clients c' = w.clients c' :=
    fun c' hc' => modifyClient_of_ne w _ fun heq => hc.1 (heq ▸ hc')
  refine ⟨h.byId, h.registered, h.used, h.lt_next, h.nodup, fun c' hc' => ?_, fun c₁ h₁ c₂ h₂ heq => ?_,
    fun c₁ h₁ c₂ h₂ hne heq => ?_, fun c₁ h₁ hne => ?_, h.doRemove, h.doRemove_once, fun c' netId' slotId' hmem => ?_⟩
  · obtain rfl | hmem := List.mem_cons.mp hc'
    · exact List.mem_cons_self
    · exact List.mem_cons_of_mem c (h.alive c' hmem)
  · dsimp only at heq
    obtain rfl | hmem₁ := List.mem_cons.mp h₁ <;> obtain rfl | hmem₂ := List.mem_cons.mp h₂
    · rfl
    · rw [modifyClient_self, hold c₂ hmem₂] at heq
      exact absurd heq.symm (hnet c₂ hmem₂)
    · rw [modifyClient_self, hold c₁ hmem₁] at heq
      exact absurd heq (hnet c₁ hmem₁)
    · rw [hold c₁ hmem₁, hold c₂ hmem₂] at heq
      exact h.netId_inj c₁ hmem₁ c₂ hmem₂ heq
  · dsimp only at heq hne
    obtain rfl | hmem₁ := List.mem_cons.mp h₁ <;> obtain rfl | hmem₂ := List.mem_cons.mp h₂
    · rfl
    · rw [modifyClient_self, hold c₂ (h.alive c₂ hmem₂)] at heq
      rw [modifyClient_self] at hne
      obtain rfl | ⟨_, hfree⟩ := hslot
      · exact absurd rfl hne
      · exact absurd heq.symm (hfree c₂ hmem₂)
    · rw [modifyClient_self, hold c₁ (h.alive c₁ hmem₁)] at heq
      rw [hold c₁ (h.alive c₁ hmem₁)] at hne
      obtain rfl | ⟨_, hfree⟩ := hslot
      · exact absurd heq hne
      · exact absurd heq (hfree c₁ hmem₁)
    · rw [hold c₁ (h.alive c₁ hmem₁), hold c₂ (h.alive c₂ hmem₂)] at heq
      rw [hold c₁ (h.alive c₁ hmem₁)] at hne
      exact h.slotId_inj c₁ hmem₁ c₂ hmem₂ hne heq
  · dsimp only at hne ⊢
    obtain rfl | hmem₁ := List.mem_cons.mp h₁
    · rw [modifyClient_self] at hne ⊢
      obtain rfl | ⟨hlt, _⟩ := hslot
      · exact absurd rfl hne
      · exact hlt
    · rw [hold c₁ (h.alive c₁ hmem₁)] at hne ⊢
      exact h.slotId_lt c₁ hmem₁ hne
  · obtain ⟨hnetId, hmade, hnot⟩ := h.dropped c' netId' slotId' hmem
    have hne : c' ≠ c := by
      rintro rfl
      exact hmade.elim hc.1 hc.2
    dsimp only
    rw [modifyClient_of_ne w _ hne]
    refine ⟨hnetId, hmade.imp_left (List.mem_cons_of_mem c), fun hmem => ?_⟩
    exact (List.mem_cons.mp hmem).elim hne hnot

@[simp] theorem unregister_netId (w : ServerGameState Tree) (e : SyncEntityPtr) (c : ClientPtr) :
    ((w.unregister e).clients c).netId = (w.clients c).netId := by
  unfold ServerGameState.unregister
  dsimp only
  split <;> rfl

@[simp] theorem unregister_slotId (w : ServerGameState Tree) (e : SyncEntityPtr) (c : ClientPtr) :
    ((w.unregister e).clients c).slotId = (w.clients c).slotId := by
  unfold ServerGameState.unregister
  dsimp only
  split <;> rfl

theorem unregister_entitiesById {id : Nat} {e' : SyncEntityPtr} (h : (w.unregister e).entitiesById id = some e') :
    id ≠ (w.entities e).handle ∧ w.entitiesById id = some e' := by
  have hid : id ≠ (w.entities e).handle := by
    rintro rfl
    have hnone : (w.unregister e).entitiesById (w.entities e).handle = none := Function.update_self ..
    rw [hnone] at h
    cases h
  exact ⟨hid, (Function.update_of_ne hid ..).symm.trans h⟩

/-- The sync thread unregisters an entity when it has come to the callback, which was queued once. -/
theorem Consistent.unregister (h : w.Consistent) (he : e ∈ w.entityList) (honce : .doRemove e ∉ w.syncCallbacks) :
    (w.unregister e).Consistent where
  byId e' he' := by
    obtain ⟨hne, he'⟩ := (h.nodup.mem_erase_iff).mp he'
    have hhandle : (w.entities e').handle ≠ (w.entities e).handle := by
      intro heq
      have hbyId := h.byId e' he'
      rw [heq, h.byId e he] at hbyId
      exact hne (Option.some.inj hbyId).symm
    exact (Function.update_of_ne hhandle ..).trans (h.byId e' he')
  registered id e' he' := by
    obtain ⟨hid, he'⟩ := unregister_entitiesById he'
    obtain ⟨hmem, hhandle⟩ := h.registered id e' he'
    refine ⟨h.nodup.mem_erase_iff.mpr ⟨?_, hmem⟩, hhandle⟩
    rintro rfl
    exact hid hhandle.symm
  used id e' he' := by
    obtain ⟨hid, he'⟩ := unregister_entitiesById he'
    exact Finset.mem_erase.mpr ⟨hid, h.used id e' he'⟩
  lt_next e' he' := h.lt_next e' (List.mem_of_mem_erase he')
  nodup := h.nodup.erase e
  alive := h.alive
  netId_inj c hc c' hc' := by
    rw [unregister_netId, unregister_netId]
    exact h.netId_inj c hc c' hc'
  slotId_inj c hc c' hc' := by
    rw [unregister_slotId, unregister_slotId]
    exact h.slotId_inj c hc c' hc'
  slotId_lt c hc := by
    rw [unregister_slotId]
    exact h.slotId_lt c hc
  doRemove e' he' := by
    refine h.nodup.mem_erase_iff.mpr ⟨?_, h.doRemove e' he'⟩
    rintro rfl
    exact honce he'
  doRemove_once := h.doRemove_once
  dropped c netId slotId hmem := by
    rw [unregister_netId]
    exact h.dropped c netId slotId hmem

/-- The callbacks that the main thread adds. -/
theorem Consistent.queue (h : w.Consistent) {callback : SyncCallback}
    (hremove : ∀ e, callback = .doRemove e → e ∈ w.entityList ∧ .doRemove e ∉ w.syncCallbacks)
    (hdrop : ∀ c netId slotId, callback ≠ .handleClientDrop c netId slotId) :
    Consistent { w with syncCallbacks := w.syncCallbacks ++ [callback] } where
  byId := h.byId
  registered := h.registered
  used := h.used
  lt_next := h.lt_next
  nodup := h.nodup
  alive := h.alive
  netId_inj := h.netId_inj
  slotId_inj := h.slotId_inj
  slotId_lt := h.slotId_lt
  doRemove e he := by
    obtain he | he := List.mem_append.mp he
    · exact h.doRemove e he
    · exact (hremove e (List.mem_singleton.mp he).symm).1
  doRemove_once e := by
    rw [List.count_append]
    by_cases heq : callback = .doRemove e
    · rw [heq, List.count_eq_zero_of_not_mem (hremove e heq).2, List.count_singleton_self]
    · rw [List.count_singleton, if_neg (by simpa using heq)]
      exact h.doRemove_once e
  dropped c netId slotId hmem := by
    obtain hmem | hmem := List.mem_append.mp hmem
    · exact h.dropped c netId slotId hmem
    · exact absurd (List.mem_singleton.mp hmem).symm (hdrop c netId slotId)

/-- The sync thread takes a callback. -/
theorem Consistent.take {callback : SyncCallback} {syncCallbacks : List SyncCallback} (h : w.Consistent)
    (hqueue : w.syncCallbacks = callback :: syncCallbacks) : Consistent { w with syncCallbacks } where
  byId := h.byId
  registered := h.registered
  used := h.used
  lt_next := h.lt_next
  nodup := h.nodup
  alive := h.alive
  netId_inj := h.netId_inj
  slotId_inj := h.slotId_inj
  slotId_lt := h.slotId_lt
  doRemove e he := h.doRemove e (hqueue ▸ List.mem_cons_of_mem callback he)
  doRemove_once e := by
    have honce := h.doRemove_once e
    rw [hqueue] at honce
    exact (List.count_le_count_cons ..).trans honce
  dropped c netId slotId hmem := h.dropped c netId slotId (hqueue ▸ List.mem_cons_of_mem callback hmem)

/-- The record passes the checks that come before the scope is entered. -/
structure Enters (w : ServerGameState Tree) (c : ClientPtr) (e : SyncEntityPtr) (uniqifier : Nat) : Prop where
  uniqifier_eq : (w.entities e).uniqifier = uniqifier
  slotId_le : (w.clients c).slotId ≤ MAX_CLIENTS
  not_deleted : (w.clients c).slotId ∉ (w.entities e).deletedFor
  in_scope : (w.clients c).slotId ∉ (w.entities e).outOfScopeFor

/-- A record that has found its entity does nothing to it, or makes it relevant to the sender, and updates it if the
sender may. -/
theorem syncClone_cases (tree : SyncTreeBase Tree) (w : ServerGameState Tree) (c : ClientPtr) (e : SyncEntityPtr)
    (parsingType uniqifier : Nat) (bitBytes : List (BitVec 8)) :
    (∃ result, result ∈ [CloneResult.wrongUniqifier, .noSlot, .outOfScope] ∧
        w.syncClone tree c e parsingType uniqifier bitBytes = (result, w)) ∨
      w.Enters c e uniqifier ∧
        ((∃ result, result ∈ [CloneResult.noClient, .wrongOwner] ∧
            (w.lock (w.entities e).client = none ∨ w.ownsEntity c e = false ∧ w.recentOwner c e = false) ∧
            w.syncClone tree c e parsingType uniqifier bitBytes =
              (result, w.modifyEntity e (·.enterScope (w.clients c).slotId))) ∨
          (w.ownsEntity c e = true ∨ w.recentOwner c e = true) ∧
            w.syncClone tree c e parsingType uniqifier bitBytes =
              (.accepted, (w.modifyEntity e (·.enterScope (w.clients c).slotId)).receiveClone tree c e parsingType
                bitBytes)) := by
  unfold syncClone
  dsimp only
  split
  · exact .inl ⟨_, by simp, rfl⟩
  · rename_i huniqifier
    split
    · exact .inl ⟨_, by simp, rfl⟩
    · rename_i hslot
      split
      · exact .inl ⟨_, by simp, rfl⟩
      · rename_i hscope
        obtain ⟨hdeleted, hscope⟩ := not_or.mp hscope
        refine .inr ⟨⟨not_not.mp huniqifier, Nat.not_lt.mp hslot, hdeleted, hscope⟩, ?_⟩
        split
        · exact .inl ⟨_, by simp, .inl ‹_›, rfl⟩
        · split
          · exact .inr ⟨Bool.or_eq_true_iff.mp ‹_›, rfl⟩
          · rename_i hsend
            rw [Bool.not_eq_true, Bool.or_eq_false_iff] at hsend
            exact .inl ⟨_, by simp, .inr hsend, rfl⟩

/-- What `receiveClone` leaves alone. -/
theorem receiveClone_still (w : ServerGameState Tree) (c : ClientPtr) (e : SyncEntityPtr) (parsingType : Nat)
    (bitBytes : List (BitVec 8)) : Still w (w.receiveClone tree c e parsingType bitBytes) := by
  have hparse : ∀ (entity : SyncEntityState Tree) (timestamp frameIndex : Nat),
      let parsed := parseClone tree entity parsingType timestamp frameIndex bitBytes
      parsed.pair = entity.pair ∧ parsed.relevantTo = entity.relevantTo ∧ parsed.deletedFor = entity.deletedFor ∧
        parsed.deleting = entity.deleting := by
    intro entity timestamp frameIndex
    dsimp only
    unfold parseClone
    split <;> exact ⟨rfl, rfl, rfl, rfl⟩
  unfold receiveClone
  dsimp only
  generalize hw : w.modifyEntity e _ = w'
  have hstill : Still w w' := by
    obtain ⟨hpair, hrelevant, hdeleted, hdeleting⟩ := hparse { w.entities e with
      lastOutOfBandTimestamp := if w.ownsEntity c e then (w.entities e).lastOutOfBandTimestamp
        else (w.clients c).syncTs
      lastReceivedAt := w.now
      stateBag := (w.entities e).stateBag.map (insert (w.clients c).slotId) } (w.clients c).syncTs w.frameIndex
    rw [← hw]
    exact still_modifyEntity w e hpair hrelevant hdeleted fun h => hdeleting.trans h
  apply hstill.trans
  split
  · exact still_modifyClient w' c rfl (fun _ => rfl) rfl
  · exact .refl w'

theorem sameRegistry_syncClone (tree : SyncTreeBase Tree) (w : ServerGameState Tree) (c : ClientPtr)
    (e : SyncEntityPtr) (parsingType uniqifier : Nat) (bitBytes : List (BitVec 8)) :
    SameRegistry w (w.syncClone tree c e parsingType uniqifier bitBytes).2 := by
  have henter : SameRegistry w (w.modifyEntity e (·.enterScope (w.clients c).slotId)) :=
    sameRegistry_modifyEntity w e rfl
  obtain ⟨result, _, h⟩ | ⟨_, ⟨result, _, _, h⟩ | ⟨_, h⟩⟩ := syncClone_cases tree w c e parsingType uniqifier bitBytes
  · rw [h]
    exact .refl w
  · rw [h]
    exact henter
  · rw [h]
    exact henter.trans (receiveClone_still _ c e parsingType bitBytes).toSameRegistry

theorem sameRegistry_processCloneSync (w : ServerGameState Tree) (c : ClientPtr) (uniqifier objectId : Nat)
    (bitBytes : List (BitVec 8)) : SameRegistry w (w.processCloneSync tree c uniqifier objectId bitBytes).2 := by
  unfold processCloneSync
  split
  · exact .refl w
  · split
    · exact .refl w
    · exact sameRegistry_syncClone tree w c _ 2 uniqifier bitBytes

theorem still_processCloneTakeover (w : ServerGameState Tree) (c : ClientPtr) (clientId objectId : Nat) :
    Still w (w.processCloneTakeover c clientId objectId).2 := by
  unfold processCloneTakeover
  split
  · exact .refl w
  · split
    · exact .refl w
    · split
      · exact still_reassignEntity w _ _
      · split
        · exact .refl w
        · split
          · exact .refl w
          · exact still_reassignEntity w _ _

theorem still_processCloneRemove (w : ServerGameState Tree) (c : ClientPtr) (objectId uniqifier : Nat) :
    Still w (w.processCloneRemove c objectId uniqifier).2 := by
  unfold processCloneRemove
  split
  · exact .refl w
  · split
    · exact .refl w
    · split
      · exact .refl w
      · split
        · exact .refl w
        · exact still_removeClone w objectId

theorem still_setTimestamp (w : ServerGameState Tree) (c : ClientPtr) (newTs : Nat) :
    Still w (w.setTimestamp c newTs) := by
  unfold setTimestamp
  apply still_modifyClient
  all_goals
    try intro identPair
    split <;> rfl

theorem Consistent.allocate (h : w.Consistent) (entity : SyncEntityState Tree) : (w.allocate entity).Consistent := by
  have hold : ∀ e ∈ w.entityList, (w.allocate entity).entities e = w.entities e :=
    fun e he => Function.update_of_ne (Nat.ne_of_lt (h.lt_next e he)) ..
  refine ⟨fun e he => ?_, fun id e he => ?_, h.used, fun e he => Nat.lt_succ_of_lt (h.lt_next e he), h.nodup, h.alive,
    h.netId_inj, h.slotId_inj, h.slotId_lt, h.doRemove, h.doRemove_once, h.dropped⟩
  · rw [hold e he]
    exact h.byId e he
  · obtain ⟨hmem, hhandle⟩ := h.registered id e he
    rw [hold e hmem]
    exact ⟨hmem, hhandle⟩

theorem Consistent.register (h : w.Consistent) (hnew : e ∉ w.entityList) (hlt : e < w.nextEntity)
    (hfree : w.entitiesById (w.entities e).handle = none) : (w.register e).Consistent where
  byId e' he' := by
    obtain rfl | hmem := List.mem_cons.mp he'
    · exact Function.update_self ..
    · have hne : (w.entities e').handle ≠ (w.entities e).handle := by
        intro heq
        have hbyId := h.byId e' hmem
        rw [heq, hfree] at hbyId
        cases hbyId
      exact (Function.update_of_ne hne ..).trans (h.byId e' hmem)
  registered id e' he' := by
    by_cases hid : id = (w.entities e).handle
    · subst hid
      have hself : (w.register e).entitiesById (w.entities e).handle = some e := Function.update_self ..
      rw [hself] at he'
      cases he'
      exact ⟨List.mem_cons_self, rfl⟩
    · have hsame : (w.register e).entitiesById id = w.entitiesById id := Function.update_of_ne hid ..
      rw [hsame] at he'
      obtain ⟨hmem, hhandle⟩ := h.registered id e' he'
      exact ⟨List.mem_cons_of_mem e hmem, hhandle⟩
  used id e' he' := by
    by_cases hid : id = (w.entities e).handle
    · exact hid ▸ Finset.mem_insert_self ..
    · have hsame : (w.register e).entitiesById id = w.entitiesById id := Function.update_of_ne hid ..
      exact Finset.mem_insert_of_mem (h.used id e' (hsame ▸ he'))
  lt_next e' he' := by
    obtain rfl | hmem := List.mem_cons.mp he'
    · exact hlt
    · exact h.lt_next e' hmem
  nodup := List.nodup_cons.mpr ⟨hnew, h.nodup⟩
  alive := h.alive
  netId_inj := h.netId_inj
  slotId_inj := h.slotId_inj
  slotId_lt := h.slotId_lt
  doRemove e' he' := List.mem_cons_of_mem e (h.doRemove e' he')
  doRemove_once := h.doRemove_once
  dropped := h.dropped

/-- An accepted create ends with a registered entity, and a refused one with an entity to destroy. -/
theorem Consistent.cloneCreated (h : w.Consistent) (hnew : e ∉ w.entityList) (hlt : e < w.nextEntity)
    (hfree : w.entitiesById (w.entities e).handle = none) : (w.cloneCreated tree c e).2.Consistent := by
  unfold ServerGameState.cloneCreated
  dsimp only
  generalize hw : w.modifyEntity e _ = w'
  have hsame : SameRegistry w w' := hw ▸ sameRegistry_modifyEntity w e rfl
  split
  · dsimp only
    exact (h.of_same hsame).of_same
      ((still_removeClone w' _).toSameRegistry.trans (sameRegistry_modifyClient _ c rfl))
  · have htoken : SameRegistry w' (w'.onEntityCreate (w'.entities e).creationToken) :=
      ⟨rfl, fun _ => rfl, fun _ => rfl⟩
    have hqueued := htoken.trans (sameRegistry_modifyEntity (w'.onEntityCreate (w'.entities e).creationToken) e
      (f := fun entity => { entity with entityCreating := true }) rfl)
    have hsynced := (hsame.trans hqueued).trans (sameRegistry_modifyClient _ c (f := fun client =>
      { client with syncedEntities := client.syncedEntities.insert (w'.entities e).pair ⟨e, false, true, false⟩ }) rfl)
    apply (h.of_same hsynced).register
    · rw [hsynced.entityList]
      exact hnew
    · rw [hsynced.nextEntity]
      exact hlt
    · rw [hsynced.entitiesById, hsynced.handle]
      exact hfree

theorem Consistent.processCloneCreate (h : w.Consistent) (c : ClientPtr)
    (uniqifier objectId creationToken objectType : Nat) (bitBytes : List (BitVec 8)) :
    (w.processCloneCreate tree c uniqifier objectId creationToken objectType bitBytes).2.Consistent := by
  unfold ServerGameState.processCloneCreate
  split
  · exact h
  · split
    · exact h
    · rename_i hfree
      split
      · exact h
      · rename_i type _
        dsimp only
        generalize hentity : w.construct tree c uniqifier objectId creationToken type = entity
        have hsame := sameRegistry_syncClone tree (w.allocate entity) c w.nextEntity 1 uniqifier bitBytes
        have hmade := (h.allocate entity).of_same hsame
        generalize (w.allocate entity).syncClone tree c w.nextEntity 1 uniqifier bitBytes = made at hsame hmade ⊢
        have hhandle : (made.2.entities w.nextEntity).handle = objectId := by
          rw [hsame.handle]
          have hself : (w.allocate entity).entities w.nextEntity = entity := Function.update_self ..
          rw [hself, ← hentity]
          rfl
        split
        · apply hmade.cloneCreated
          · rw [hsame.entityList]
            exact fun hmem => absurd (h.lt_next _ hmem) (Nat.lt_irrefl _)
          · rw [hsame.nextEntity]
            exact Nat.lt_succ_self _
          · rw [hhandle, hsame.entitiesById]
            exact hfree
        · exact hmade

theorem Consistent.queueDeletion (h : w.Consistent) (e : SyncEntityPtr) : (w.deleteEntity e).Consistent := by
  unfold ServerGameState.deleteEntity
  split
  · exact h
  · exact h.queue (fun _ heq => nomatch heq) fun _ _ _ heq => nomatch heq

theorem Consistent.onEntityCreating (h : w.Consistent) (e : SyncEntityPtr) (cancelled : Bool) :
    (w.onEntityCreating e cancelled).Consistent := by
  have hsame : SameRegistry w (w.modifyEntity e fun entity =>
      { entity with entityCreating := false, passedFilter := entity.passedFilter || !cancelled }) :=
    sameRegistry_modifyEntity w e rfl
  unfold ServerGameState.onEntityCreating
  dsimp only
  split
  · exact (h.of_same hsame).queueDeletion e
  · exact h.of_same hsame

/-- The object id that the server takes for an entity of its own is free. -/
theorem freeObjectId_unused (h : w.freeObjectId ≠ 0) : w.freeObjectId ∉ w.objectIdsSent ∧
    w.freeObjectId ∉ w.objectIdsUsed := by
  have hfree : w.objectIds.free w.freeObjectId = true := (ServerObjectIds.scanDown_free (Nat.pos_of_ne_zero h)).2
  simpa [ServerObjectIds.free, objectIds] using hfree

theorem Consistent.createEntityFromTree (h : w.Consistent) (hid : w.freeObjectId ≠ 0) (type : NetObjEntityType)
    (syncTree : Tree) (uniqifier : Nat) : (w.createEntityFromTree type syncTree uniqifier).Consistent := by
  have hself : (w.allocate (w.constructFromTree type syncTree uniqifier)).entities w.nextEntity =
      w.constructFromTree type syncTree uniqifier := Function.update_self ..
  have hregistered : ((w.allocate (w.constructFromTree type syncTree uniqifier)).register
    w.nextEntity).Consistent := by
    apply (h.allocate _).register
    · exact fun hmem => absurd (h.lt_next _ hmem) (Nat.lt_irrefl _)
    · exact Nat.lt_succ_self _
    · rw [hself]
      exact Option.eq_none_iff_forall_ne_some.mpr fun e hbyId => (freeObjectId_unused hid).2 (h.used _ e hbyId)
  exact hregistered.of_same ⟨rfl, fun _ => rfl, fun _ => rfl⟩

/-- A callback of the sync thread. -/
theorem Consistent.runSyncCallback {callback : SyncCallback} {syncCallbacks : List SyncCallback} (h : w.Consistent)
    (hqueue : w.syncCallbacks = callback :: syncCallbacks) (distance : SyncEntityPtr → ClientPtr → Nat) :
    (ServerGameState.runSyncCallback tree distance { w with syncCallbacks } callback).Consistent := by
  have htaken := h.take hqueue
  cases callback with
  | removeClone e => exact htaken.of_same (still_removeClone _ _).toSameRegistry
  | doRemove e =>
    refine htaken.unregister (h.doRemove e (hqueue ▸ List.mem_cons_self)) fun hmem => ?_
    have honce := h.doRemove_once e
    rw [hqueue, List.count_cons_self] at honce
    have hcount : 0 < syncCallbacks.count (.doRemove e) := List.count_pos_iff.mpr hmem
    omega
  | handleClientDrop c netId slotId =>
    have hsame := sameRegistry_handleClientDrop tree distance { w with syncCallbacks } c netId slotId
    refine (htaken.of_same hsame).free ?_
    rw [hsame.connected]
    exact (h.dropped c netId slotId (hqueue ▸ List.mem_cons_self)).2.2

/-- The steps that leave the registries, and what waits for the sync thread, as they are. -/
def Action.keepsRegistry : Action Tree → Bool
  | .connect .. | .dropClient _ | .removeClient _ | .syncCallback _ | .gameStateNAck .. => false
  | .record _ (.create ..) | .createEntityFromTree .. => false
  | .deleteEntity _ | .entityCreating .. | .entityRemoved _ => false
  | _ => true

theorem sameRegistry_step {a : Action Tree} (hstep : step tree w a = some w') (hkeeps : a.keepsRegistry = true) :
    SameRegistry w w' := by
  cases a with
  | record c record =>
    obtain ⟨_, hw⟩ := Option.ite_none_right_eq_some.mp hstep
    cases hw
    cases record with
    | create => cases hkeeps
    | sync uniqifier objectId bitBytes => exact sameRegistry_processCloneSync w c uniqifier objectId bitBytes
    | remove objectId uniqifier => exact (still_processCloneRemove w c objectId uniqifier).toSameRegistry
    | takeover clientId objectId => exact (still_processCloneTakeover w c clientId objectId).toSameRegistry
    | setTimestamp newTs => exact (still_setTimestamp w c newTs).toSameRegistry
    | setIndex newIndex =>
      dsimp only [ServerGameState.processRecord]
      exact sameRegistry_modifyClient w c rfl
  | ack c record =>
    obtain ⟨_, hw⟩ := Option.ite_none_right_eq_some.mp hstep
    cases hw
    exact sameRegistry_parseAck w c record
  | gameStateAck c frameIndex recreates =>
    obtain ⟨_, hw⟩ := Option.ite_none_right_eq_some.mp hstep
    cases hw
    exact sameRegistry_gameStateAck w c frameIndex recreates
  | ensureStateBag e =>
    obtain ⟨_, hw⟩ := Option.ite_none_right_eq_some.mp hstep
    cases hw
    exact sameRegistry_modifyEntity w e rfl
  | reassign entityHandle targetClient =>
    obtain ⟨_, hw⟩ := Option.ite_none_right_eq_some.mp hstep
    cases hw
    exact (still_reassignEntity w entityHandle _).toSameRegistry
  | setRoutingBucket c bucket =>
    cases hstep
    exact sameRegistry_modifyClient w c rfl
  | createRpc | setLockdownMode | wait =>
    cases hstep
    exact ⟨rfl, fun _ => rfl, fun _ => rfl⟩
  | tick input =>
    cases hstep
    exact sameRegistry_tick tree input w
  | _ => cases hkeeps

theorem Consistent.step {a : Action Tree} (h : w.Consistent) (hstep : step tree w a = some w') : w'.Consistent := by
  by_cases hkeeps : a.keepsRegistry = true
  · exact h.of_same (sameRegistry_step hstep hkeeps)
  · cases a with
    | connect c netId slotId =>
      obtain ⟨⟨hc, _, hnet, hslot⟩, hw⟩ := Option.ite_none_right_eq_some.mp hstep
      cases hw
      exact h.connect hc hnet hslot
    | dropClient c =>
      obtain ⟨_, hw⟩ := Option.ite_none_right_eq_some.mp hstep
      cases hw
      exact h.dropClient c
    | removeClient c =>
      obtain ⟨hc, hw⟩ := Option.ite_none_right_eq_some.mp hstep
      cases hw
      exact h.removeClient hc
    | syncCallback distance =>
      obtain ⟨callback, syncCallbacks, hqueue, rfl⟩ := step_syncCallback hstep
      exact h.runSyncCallback hqueue distance
    | record c record =>
      obtain ⟨_, hw⟩ := Option.ite_none_right_eq_some.mp hstep
      cases hw
      cases record with
      | create uniqifier objectId creationToken objectType bitBytes =>
        exact h.processCloneCreate c uniqifier objectId creationToken objectType bitBytes
      | _ => exact absurd rfl hkeeps
    | gameStateNAck c nack =>
      obtain ⟨_, hw⟩ := Option.ite_none_right_eq_some.mp hstep
      cases hw
      exact h.gameStateNAck c nack
    | deleteEntity e =>
      obtain ⟨_, hw⟩ := Option.ite_none_right_eq_some.mp hstep
      cases hw
      exact h.queueDeletion e
    | entityCreating e cancelled =>
      obtain ⟨_, hw⟩ := Option.ite_none_right_eq_some.mp hstep
      cases hw
      exact h.onEntityCreating e cancelled
    | entityRemoved e =>
      obtain ⟨⟨he, _, _, honce⟩, hw⟩ := Option.ite_none_right_eq_some.mp hstep
      cases hw
      refine h.queue (fun e' heq => ?_) fun _ _ _ heq => nomatch heq
      cases heq
      exact ⟨he, honce⟩
    | createEntityFromTree type syncTree uniqifier =>
      obtain ⟨hid, hw⟩ := Option.ite_none_right_eq_some.mp hstep
      cases hw
      exact h.createEntityFromTree hid type syncTree uniqifier
    | _ => exact absurd rfl hkeeps

/-- The server at its start; `blank` fills the unused places of the pool. -/
def new (blank : SyncEntityState Tree) (syncStyle : SyncStyle) (bigMode lengthHack : Bool) : ServerGameState Tree where
  syncStyle := syncStyle
  bigMode := bigMode
  lengthHack := lengthHack
  frameIndex := 1
  now := 0
  entities := fun _ => blank
  nextEntity := 0
  entitiesById := fun _ => none
  entityList := []
  clients := fun _ => ⟨0, noSlot, 0, 0, 0, 0, none, ∅, ∅, ∅, ∅, ∅, [], 0, false⟩
  connected := []
  alive := []

theorem consistent_new (blank : SyncEntityState Tree) (syncStyle : SyncStyle) (bigMode lengthHack : Bool) :
    (new blank syncStyle bigMode lengthHack).Consistent where
  byId _ he := nomatch he
  registered _ _ he := nomatch he
  used _ _ he := nomatch he
  lt_next _ he := nomatch he
  nodup := .nil
  alive _ hc := nomatch hc
  netId_inj _ hc := nomatch hc
  slotId_inj _ hc := nomatch hc
  slotId_lt _ hc := nomatch hc
  doRemove _ he := nomatch he
  doRemove_once _ := Nat.zero_le 1
  dropped _ _ _ hc := nomatch hc

/-- Trees without data, for runs on fixed inputs. -/
def plainTree : SyncTreeBase Unit where
  makeSyncTree _ := ()
  parse entityTree _ _ _ _ := entityTree
  getScriptHash _ := 0
  atOrigin _ := false
  randomPopulation _ := false
  dummyState _ := none
  attachedTo _ := none

/-- A server with `plainTree`. -/
def plain (syncStyle : SyncStyle) (bigMode : Bool) : ServerGameState Unit :=
  new ⟨.Object, 0, 0, 0, 0, (), none, none, none, 0, 0, 0, 0, 0, ∅, ∅, ∅, false, false, false, false, false,
    false, false, none⟩ syncStyle bigMode false

/-- A tick that updates the scopes of some slots, in which nothing is culled and every sync is due. -/
def uncull (syncStyle : SyncStyle) (slots : List Nat) : ScopeInput where
  syncStyle := syncStyle
  slots := slots
  culling := false
  vehicleCulling := false
  nearby _ _ := true
  occupied _ := false
  due _ _ := true
  fakeSend _ := false
  lastSeen _ := false

end ServerGameState

end fx
