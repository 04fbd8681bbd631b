import Citizen.GameState.Frames

open Std

namespace fx

open sync

/-- What is left of an entity without its scopes. -/
def SyncEntityState.unscoped {Tree : Type*} (entity : SyncEntityState Tree) : SyncEntityState Tree :=
  { entity with
    relevantTo := ∅, deletedFor := ∅, outOfScopeFor := ∅, finalizing := false, wantsReassign :=
      false, stateBag := none }

/-- What is left of a client without its tables and saved frames. -/
def Client.untabled (client : Client) : Client :=
  { client with syncedEntities := ∅, entitiesToDestroy := ∅, frameStates := [], firstSavedFrameState := 0 }

namespace ServerGameState

variable {Tree : Type*} {w w' : ServerGameState Tree} {c : ClientPtr} {e : SyncEntityPtr}
variable (tree : SyncTreeBase Tree) (input : ScopeInput)

/-- The entity is in the new table of the client. -/
def visible (w : ServerGameState Tree) (c : ClientPtr) (e : SyncEntityPtr) : Bool :=
  decide ((w.clients c).slotId ∉ (w.entities e).deletedFor) && w.relevantFor tree input c e

/-- The entity leaves the client's table for `entitiesToDestroy`. -/
def leaves (w : ServerGameState Tree) (c : ClientPtr) (e : SyncEntityPtr) : Bool :=
  decide ((w.clients c).slotId ∉ (w.entities e).deletedFor) && !w.relevantFor tree input c e &&
    ((w.clients c).syncedEntities[(w.entities e).pair]?).any fun data => data.hasCreated || data.hasNAckedCreate

/-- The entry of an entity in the new table. -/
def entry (w : ServerGameState Tree) (c : ClientPtr) (e : SyncEntityPtr) : SyncedEntityData :=
  match (w.clients c).syncedEntities[(w.entities e).pair]? with
  | some data => ⟨e, data.forceUpdate, data.hasCreated, false⟩
  | none => ⟨e, true, false, false⟩

/-- The entity after a scope update that looks at it. -/
def rescope (w : ServerGameState Tree) (c : ClientPtr) (e : SyncEntityPtr) : SyncEntityState Tree :=
  let entity := w.entities e
  let slotId := (w.clients c).slotId
  let isNew := w.relevantFor tree input c e && ((w.clients c).syncedEntities[entity.pair]?).isNone
  if slotId ∈ entity.deletedFor then entity
  else
    { entity with
      wantsReassign := if w.ownsEntity c e then !w.isRelevant input c e else entity.wantsReassign
      relevantTo :=
        if isNew then insert slotId entity.relevantTo
        else if entity.deleting && !w.relevantFor tree input c e then entity.relevantTo.erase slotId
        else entity.relevantTo
      outOfScopeFor := if isNew then entity.outOfScopeFor.erase slotId else entity.outOfScopeFor }

variable {tree input}

theorem modifyEntity_modifyEntity (w : ServerGameState Tree) (e : SyncEntityPtr)
    (f g : SyncEntityState Tree → SyncEntityState Tree) :
    (w.modifyEntity e f).modifyEntity e g = w.modifyEntity e (g ∘ f) := by
  rw [modifyEntity, modifyEntity_self, modifyEntity, modifyEntity]
  dsimp only
  rw [Function.update_idem]
  rfl

/-- One round of a scope update. -/
theorem updateEntity_eq (c : ClientPtr) (acc : ServerGameState Tree × SyncedEntities) (e : SyncEntityPtr) :
    (updateEntity tree input c acc e).1.entities = Function.update acc.1.entities e (acc.1.rescope tree input c e) ∧
      (updateEntity tree input c acc e).1.clients = (if acc.1.leaves tree input c e then
        Function.update acc.1.clients c { acc.1.clients c with
          entitiesToDestroy := (acc.1.clients c).entitiesToDestroy.insert (acc.1.entities e).pair (some e, ⟨true⟩) }
        else acc.1.clients) ∧
      (updateEntity tree input c acc e).2 = (if acc.1.visible tree input c e then
        acc.2.insert (acc.1.entities e).pair (acc.1.entry c e) else acc.2) := by
  obtain ⟨w, newSyncedEntities⟩ := acc
  unfold updateEntity rescope leaves visible entry
  dsimp only
  by_cases hdeleted : (w.clients c).slotId ∈ (w.entities e).deletedFor
  · simp [hdeleted]
  · have hpair : ∀ (entity : SyncEntityState Tree) wantsReassign relevantTo,
        { entity with wantsReassign, relevantTo }.pair = entity.pair := fun _ _ _ => rfl
    simp only [hdeleted, if_false, not_false_eq_true, decide_true, Bool.true_and, modifyEntity_self, hpair,
      modifyEntity_clients]
    generalize relevantFor tree input w c e = relevant
    cases (w.clients c).syncedEntities[(w.entities e).pair]? with
    | some data =>
      cases relevant with
      | true => exact ⟨by simp [modifyEntity], rfl, rfl⟩
      | false =>
        cases htold : data.hasCreated || data.hasNAckedCreate with
        | true =>
          simp only [Option.any_some, htold, if_true]
          exact ⟨by simp [modifyEntity, modifyClient], by simp [modifyClient], rfl⟩
        | false =>
          simp only [Option.any_some, htold]
          exact ⟨by simp [modifyEntity], by simp, rfl⟩
    | none =>
      cases relevant with
      | true =>
        rw [if_pos rfl, modifyEntity_modifyEntity]
        exact ⟨by simp [modifyEntity, SyncEntityState.enterScope], rfl, rfl⟩
      | false => exact ⟨by simp [modifyEntity], rfl, rfl⟩

/-- Two states that differ only in the scopes of the entities and in the tables of the clients. -/
abbrev Rescoped (w w' : ServerGameState Tree) : Prop := Same SyncEntityState.unscoped Client.untabled w w'

theorem rescoped_scopes : @IgnoresScopes Tree _ _ SyncEntityState.unscoped Client.untabled :=
  ⟨fun _ _ _ _ _ _ _ => rfl, fun _ _ _ _ _ => rfl⟩

namespace Same

variable (h : Rescoped w w')
include h

/-- A part of an entity that is no scope is the same. -/
theorem field {γ : Type*} (part : SyncEntityState Tree → γ) (hpart : ∀ entity, part entity.unscoped = part entity)
    (e : SyncEntityPtr) : part (w'.entities e) = part (w.entities e) := by
  rw [← hpart, h.entity e, hpart]

theorem clientField {γ : Type*} (part : Client → γ) (hpart : ∀ client, part client.untabled = part client)
    (c : ClientPtr) :
    part (w'.clients c) = part (w.clients c) := by
  rw [← hpart, h.client c, hpart]

theorem pair (e : SyncEntityPtr) : (w'.entities e).pair = (w.entities e).pair := h.field _ (fun _ => rfl) e

theorem deleting (e : SyncEntityPtr) : (w'.entities e).deleting = (w.entities e).deleting := h.field _ (fun _ => rfl) e

theorem slotId (c : ClientPtr) : (w'.clients c).slotId = (w.clients c).slotId := h.clientField _ (fun _ => rfl) c

theorem lock (client : Option ClientPtr) : w'.lock client = w.lock client := by
  rw [ServerGameState.lock, h.alive]
  rfl

theorem ownsEntity (c : ClientPtr) (e : SyncEntityPtr) : w'.ownsEntity c e = w.ownsEntity c e := by
  have hnet : ∀ c, (w'.clients c).netId = (w.clients c).netId := h.clientField Client.netId fun _ => rfl
  rw [ServerGameState.ownsEntity, h.field SyncEntityState.client (fun _ => rfl), h.lock]
  simp only [hnet]
  rfl

theorem isRelevant (c : ClientPtr) (e : SyncEntityPtr) : w'.isRelevant input c e = w.isRelevant input c e := by
  unfold ServerGameState.isRelevant
  dsimp only
  rw [h.ownsEntity, h.bigMode, h.field SyncEntityState.type (fun _ => rfl),
    h.field SyncEntityState.passedFilter (fun _ => rfl), h.field SyncEntityState.routingBucket (fun _ => rfl),
      h.clientField Client.playerEntity (fun _ => rfl),
    h.clientField Client.routingBucket (fun _ => rfl)]

theorem inScope (c : ClientPtr) (e : SyncEntityPtr) : w'.inScope tree input c e = w.inScope tree input c e := by
  have hscript := h.field (SyncEntityState.isOwnedByClientScript tree) (fun _ => rfl) e
  unfold ServerGameState.inScope keepsOwned
  dsimp only
  rw [h.isRelevant, h.ownsEntity, hscript, h.field SyncEntityState.hasSynced (fun _ => rfl),
    h.field SyncEntityState.routingBucket (fun _ => rfl), h.clientField Client.routingBucket (fun _ => rfl)]

theorem relevantFor (hsynced : (w'.clients c).syncedEntities = (w.clients c).syncedEntities) (e : SyncEntityPtr) :
    w'.relevantFor tree input c e = w.relevantFor tree input c e := by
  unfold ServerGameState.relevantFor shouldDelete
  rw [h.deleting, h.inScope, h.ownsEntity, hsynced, h.pair]

end Same

theorem rescope_deletedFor (w : ServerGameState Tree) (c : ClientPtr) (e : SyncEntityPtr) :
    (w.rescope tree input c e).deletedFor = (w.entities e).deletedFor := by
  unfold rescope
  dsimp only
  by_cases hdeleted : (w.clients c).slotId ∈ (w.entities e).deletedFor
  · rw [if_pos hdeleted]
  · rw [if_neg hdeleted]

/-- The rounds of a scope update leave alone what they look at. -/
structure Scanning (w : ServerGameState Tree) (c : ClientPtr)
    (acc : ServerGameState Tree × SyncedEntities) : Prop where
  rescoped : Rescoped w acc.1
  deletedFor : ∀ e, (acc.1.entities e).deletedFor = (w.entities e).deletedFor
  synced : (acc.1.clients c).syncedEntities = (w.clients c).syncedEntities
  others : ∀ c' ≠ c, acc.1.clients c' = w.clients c'

namespace Scanning

variable {acc : ServerGameState Tree × SyncedEntities}

theorem updateEntity (h : Scanning w c acc) (e : SyncEntityPtr) :
    Scanning w c (ServerGameState.updateEntity tree input c acc e) := by
  obtain ⟨hentities, hclients, _⟩ := updateEntity_eq c acc e
  refine ⟨h.rescoped.trans (same_updateEntity rescoped_scopes input c acc e), fun e' => ?_, ?_, fun c' hne => ?_⟩
  · rw [hentities, ← h.deletedFor e']
    by_cases he : e' = e
    · rw [he, Function.update_self, rescope_deletedFor]
    · rw [Function.update_of_ne he]
  · rw [hclients, ← h.synced]
    split
    · rw [Function.update_self]
    · rfl
  · rw [hclients, ← h.others c' hne]
    split
    · rw [Function.update_of_ne hne]
    · rfl

variable (h : Scanning w c acc)
include h

theorem visible (e : SyncEntityPtr) : acc.1.visible tree input c e = w.visible tree input c e := by
  unfold ServerGameState.visible
  rw [h.rescoped.relevantFor h.synced, h.deletedFor, h.rescoped.slotId]

theorem leaves (e : SyncEntityPtr) : acc.1.leaves tree input c e = w.leaves tree input c e := by
  unfold ServerGameState.leaves
  rw [h.rescoped.relevantFor h.synced, h.deletedFor, h.rescoped.slotId, h.synced, h.rescoped.pair]

theorem entry (e : SyncEntityPtr) : acc.1.entry c e = w.entry c e := by
  unfold ServerGameState.entry
  rw [h.synced, h.rescoped.pair]

/-- A round makes of an entity that is as it was what it makes of it at the start. -/
theorem rescope (hentity : acc.1.entities e = w.entities e) :
    acc.1.rescope tree input c e = w.rescope tree input c e := by
  unfold ServerGameState.rescope
  rw [h.rescoped.relevantFor h.synced, h.rescoped.slotId, h.synced, h.rescoped.ownsEntity,
    h.rescoped.isRelevant, hentity]

end Scanning

theorem scanning_start (w : ServerGameState Tree) (c : ClientPtr) : Scanning w c (w, ∅) :=
  ⟨.refl w, fun _ => rfl, rfl, fun _ _ => rfl⟩

section Client

variable {relevantEntities : List SyncEntityPtr} (hnodup : relevantEntities.Nodup)

/-- What the loop over the entities leaves. -/
theorem scanning_loop (relevantEntities : List SyncEntityPtr) (w : ServerGameState Tree) (c : ClientPtr) :
    Scanning w c (relevantEntities.foldl (updateEntity tree input c) (w, ∅)) :=
  List.foldlRecOn relevantEntities _ (scanning_start w c) fun _ h e _ => h.updateEntity e

/-- A scope update changes its own client only, and of the entities only the scopes. -/
theorem updateClient_others (relevantEntities : List SyncEntityPtr) (w : ServerGameState Tree) {c c' : ClientPtr}
    (hne : c' ≠ c) : (w.updateClient tree input relevantEntities c).clients c' = w.clients c' := by
  unfold updateClient
  dsimp only
  rw [modifyClient_of_ne _ _ hne]
  exact (scanning_loop relevantEntities w c).others c' hne

theorem updateClient_entities (relevantEntities : List SyncEntityPtr) (w : ServerGameState Tree) (c : ClientPtr) :
    (w.updateClient tree input relevantEntities c).entities =
      (relevantEntities.foldl (updateEntity tree input c) (w, ∅)).1.entities := rfl

include hnodup in
theorem updateClient_entity (w : ServerGameState Tree) (c : ClientPtr) (he : e ∈ relevantEntities) :
    (w.updateClient tree input relevantEntities c).entities e = w.rescope tree input c e := by
  rw [updateClient_entities]
  refine Loop.touched (Scanning w c) (fun acc => acc.1.entities e) he hnodup
    (fun acc h b _ => Scanning.updateEntity h b) (fun acc h hentity => ?_) (fun acc h b _ hne => ?_) (w, ∅)
    (scanning_start w c) rfl
  · dsimp only at hentity ⊢
    rw [(updateEntity_eq c acc e).1, Function.update_self, h.rescope hentity]
  · rw [(updateEntity_eq c acc b).1, Function.update_of_ne hne.symm]

theorem updateClient_entity_of_notMem (w : ServerGameState Tree) (c : ClientPtr) (he : e ∉ relevantEntities) :
    (w.updateClient tree input relevantEntities c).entities e = w.entities e := by
  rw [updateClient_entities]
  refine Loop.untouched (Scanning w c) (fun acc => acc.1.entities e)
    (fun acc h b _ => Scanning.updateEntity h b) (fun acc h b hb => ?_) (w, ∅) (scanning_start w c)
  rw [(updateEntity_eq c acc b).1, Function.update_of_ne fun heq : e = b => he (heq ▸ hb)]

theorem updateClient_client (relevantEntities : List SyncEntityPtr) (w : ServerGameState Tree) (c : ClientPtr) :
    (w.updateClient tree input relevantEntities c).clients c =
      { (relevantEntities.foldl (updateEntity tree input c) (w, ∅)).1.clients c with
        syncedEntities := (relevantEntities.foldl (updateEntity tree input c) (w, ∅)).2 } := by
  unfold updateClient
  dsimp only
  rw [modifyClient_self]

variable (hpairs : ∀ e ∈ relevantEntities, ∀ e' ∈ relevantEntities,
  (w.entities e).pair = (w.entities e').pair → e = e')

/-- A round leaves alone the entries of other entities. -/
theorem updateEntity_table {acc : ServerGameState Tree × SyncedEntities} {identPair : Nat × Nat}
    (hne : (acc.1.entities e).pair ≠ identPair) :
    (updateEntity tree input c acc e).2[identPair]? = acc.2[identPair]? := by
  rw [(updateEntity_eq c acc e).2.2]
  split
  · rw [TreeMap.getElem?_insert, if_neg (by simpa)]
  · rfl

theorem updateEntity_destroy {acc : ServerGameState Tree × SyncedEntities} {identPair : Nat × Nat}
    (hne : (acc.1.entities e).pair ≠ identPair) :
    ((updateEntity tree input c acc e).1.clients c).entitiesToDestroy[identPair]? =
      (acc.1.clients c).entitiesToDestroy[identPair]? := by
  rw [(updateEntity_eq c acc e).2.1]
  split
  · rw [Function.update_self]
    dsimp only
    rw [TreeMap.getElem?_insert, if_neg (by simpa)]
  · rfl

include hnodup hpairs in
/-- The new table has the visible entities. -/
theorem updateClient_synced (c : ClientPtr) (he : e ∈ relevantEntities) :
    ((w.updateClient tree input relevantEntities c).clients c).syncedEntities[(w.entities e).pair]? =
      if w.visible tree input c e then some (w.entry c e) else none := by
  rw [updateClient_client]
  refine Loop.touched (Scanning w c) (fun acc => acc.2[(w.entities e).pair]?) he hnodup
    (fun acc h b _ => h.updateEntity b) (fun acc h hbefore => ?_) (fun acc h b hb hne => ?_) (w, ∅)
    (scanning_start w c)
    TreeMap.getElem?_emptyc
  · rw [(updateEntity_eq c acc e).2.2, h.visible, h.rescoped.pair, h.entry]
    split
    · exact TreeMap.getElem?_insert_self
    · exact hbefore
  · apply updateEntity_table
    rw [h.rescoped.pair]
    exact fun heq => hne (hpairs b hb e he heq)

theorem updateClient_synced_none {identPair : Nat × Nat} (w : ServerGameState Tree) (c : ClientPtr)
    (hnone : ∀ e ∈ relevantEntities, (w.entities e).pair ≠ identPair) :
    ((w.updateClient tree input relevantEntities c).clients c).syncedEntities[identPair]? = none := by
  rw [updateClient_client]
  refine (Loop.untouched (Scanning w c) (fun acc => acc.2[identPair]?) (fun acc h b _ => h.updateEntity b)
    (fun acc h b hb => ?_) (w, ∅) (scanning_start w c)).trans TreeMap.getElem?_emptyc
  apply updateEntity_table
  rw [h.rescoped.pair]
  exact hnone b hb

include hnodup hpairs in
theorem updateClient_destroy (c : ClientPtr) (he : e ∈ relevantEntities) :
    ((w.updateClient tree input relevantEntities c).clients c).entitiesToDestroy[(w.entities e).pair]? =
      if w.leaves tree input c e then some (some e, ⟨true⟩)
      else (w.clients c).entitiesToDestroy[(w.entities e).pair]? := by
  rw [updateClient_client]
  refine Loop.touched (Scanning w c) (fun acc => (acc.1.clients c).entitiesToDestroy[(w.entities e).pair]?) he hnodup
    (fun acc h b _ => h.updateEntity b) (fun acc h hbefore => ?_) (fun acc h b hb hne => ?_) (w, ∅)
    (scanning_start w c)
    rfl
  · rw [(updateEntity_eq c acc e).2.1, h.leaves, h.rescoped.pair]
    split
    · rw [Function.update_self]
      exact TreeMap.getElem?_insert_self
    · exact hbefore
  · apply updateEntity_destroy
    rw [h.rescoped.pair]
    exact fun heq => hne (hpairs b hb e he heq)

theorem updateClient_destroy_same {identPair : Nat × Nat} (w : ServerGameState Tree) (c : ClientPtr)
    (hnone : ∀ e ∈ relevantEntities, (w.entities e).pair ≠ identPair) :
    ((w.updateClient tree input relevantEntities c).clients c).entitiesToDestroy[identPair]? =
      (w.clients c).entitiesToDestroy[identPair]? := by
  rw [updateClient_client]
  refine Loop.untouched (Scanning w c) (fun acc => (acc.1.clients c).entitiesToDestroy[identPair]?)
    (fun acc h b _ => h.updateEntity b) (fun acc h b hb => ?_) (w, ∅) (scanning_start w c)
  apply updateEntity_destroy
  rw [h.rescoped.pair]
  exact hnone b hb

end Client

end ServerGameState

end fx
