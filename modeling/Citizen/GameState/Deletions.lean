import Citizen.GameState.Frames
import Citizen.GameState.Ownership

open Std

namespace fx

open sync

namespace ServerGameState

variable {Tree : Type*} {tree : SyncTreeBase Tree} {w w' : ServerGameState Tree} {c : ClientPtr} {e : SyncEntityPtr}

/-- The entities that a step is asked to delete: the one whose `RemoveClone` the sync thread comes to; the one that
the owner's record names by object id and uniqifier; and the one that a create makes, if it is refused. Drops
delete what the client owns. -/
def Requested (w : ServerGameState Tree) (e : SyncEntityPtr) : Action Tree → Prop
  | .syncCallback _ =>
    match w.syncCallbacks.head? with
    | some (.removeClone e') => e = e'
    | some (.handleClientDrop ..) => True
    | _ => False
  | .record _ (.remove objectId uniqifier) =>
    (w.entities e).pair = (objectId, uniqifier) ∧ w.entitiesById objectId = some e
  | .record _ (.create ..) => e = w.nextEntity
  | _ => False

/-- A step marks no entity as deleting that it is not asked to delete. -/
def DeletesRequested (tree : SyncTreeBase Tree) (w : ServerGameState Tree) (a : Action Tree) : Prop :=
  ∀ w', step tree w a = some w' → ∀ e, (w.entities e).deleting = false → (w'.entities e).deleting = true →
    w.Requested e a

/-- No `RemoveClone` waits for the sync thread whose entity had the object id. -/
def noRemovalWaits (w : ServerGameState Tree) (objectId : Nat) : Bool :=
  w.syncCallbacks.all fun
    | .removeClone e => (w.entities e).handle != objectId
    | _ => true

/-- No entity is created under a free object id while a `RemoveClone` waits for the one that had it. -/
def IdSettled (w : ServerGameState Tree) : Action Tree → Prop
  | .record _ (.create _ objectId _ _ _) => w.entitiesById objectId = none → w.noRemovalWaits objectId = true
  | .createEntityFromTree .. => w.noRemovalWaits w.freeObjectId = true
  | _ => True

instance (w : ServerGameState Tree) : (a : Action Tree) → Decidable (w.IdSettled a)
  | .record _ (.create ..) => inferInstanceAs (Decidable (_ → _))
  | .createEntityFromTree .. => inferInstanceAs (Decidable (_ = true))
  | .record _ (.sync ..) | .record _ (.remove ..) | .record _ (.takeover ..) | .record _ (.setTimestamp _)
  | .record _ (.setIndex _) | .connect .. | .dropClient _ | .removeClient _ | .syncCallback _ | .ack .. |
    .gameStateAck ..
  | .gameStateNAck .. | .ensureStateBag _ | .deleteEntity _ | .entityCreating .. | .reassign .. | .entityRemoved _
  | .createRpc .. | .setLockdownMode .. | .setRoutingBucket .. | .wait _ | .tick _ => .isTrue trivial

/-- A `RemoveClone` that waits finds its own entity, or none. -/
structure Aimed (w : ServerGameState Tree) : Prop where
  consistent : w.Consistent
  lt_next : ∀ e, .removeClone e ∈ w.syncCallbacks → e < w.nextEntity
  aimed : ∀ e, .removeClone e ∈ w.syncCallbacks → ∀ found, w.entitiesById (w.entities e).handle = some found →
    found = e

/-- The deleting flag. -/
def deletingView (entity : SyncEntityState Tree) : Bool := entity.deleting

theorem deletingView_owners : @IgnoresOwners Tree _ _ deletingView noClient := ⟨fun _ _ _ _ => rfl, fun _ _ _ => rfl⟩

theorem deletingView_scopes : @IgnoresScopes Tree _ _ deletingView noClient :=
  ⟨fun _ _ _ _ _ _ _ => rfl, fun _ _ _ _ _ => rfl⟩

theorem deletingView_parsing : @IgnoresParsing Tree _ deletingView := fun _ _ _ _ _ _ _ _ _ _ => rfl

/-- What looks the same marks nothing. -/
theorem not_marked {p : Prop} (h : Same deletingView noClient w w') (hbefore : (w.entities e).deleting = false)
    (hafter : (w'.entities e).deleting = true) : p := by
  have hsame : (w'.entities e).deleting = (w.entities e).deleting := h.entity e
  rw [hsame, hbefore] at hafter
  cases hafter

theorem removeClone_marks {objectId : Nat} (hbefore : (w.entities e).deleting = false)
    (hafter : ((w.removeClone objectId).entities e).deleting = true) : w.entitiesById objectId = some e := by
  by_contra hne
  rw [removeClone_entities_of_ne hne, hbefore] at hafter
  cases hafter

theorem record_deletesRequested (h : w.Consistent) (c : ClientPtr) (record : CloneRecord) :
    DeletesRequested tree w (.record c record) := by
  intro w' hstep e hbefore hafter
  obtain ⟨_, hw⟩ := Option.ite_none_right_eq_some.mp hstep
  cases hw
  cases record with
  | create uniqifier objectId creationToken objectType bitBytes =>
    by_contra hne
    dsimp only [processRecord] at hafter
    rw [processCloneCreate_entities uniqifier objectId creationToken objectType bitBytes (id hne), hbefore] at hafter
    cases hafter
  | sync uniqifier objectId bitBytes =>
    exact not_marked (view_processCloneSync deletingView_parsing w c uniqifier objectId bitBytes) hbefore hafter
  | remove objectId uniqifier =>
    dsimp only [processRecord] at hafter
    unfold processCloneRemove at hafter
    split at hafter
    · exact not_marked (.refl w) hbefore hafter
    · rename_i e' hbyId
      split at hafter
      · exact not_marked (.refl w) hbefore hafter
      · split at hafter
        · exact not_marked (.refl w) hbefore hafter
        · split at hafter
          · exact not_marked (.refl w) hbefore hafter
          · rename_i huniqifier
            have hfound := removeClone_marks hbefore hafter
            rw [hbyId] at hfound
            cases hfound
            exact ⟨Prod.ext (h.registered objectId _ hbyId).2 (not_not.mp huniqifier), hbyId⟩
  | takeover clientId objectId =>
    exact not_marked (same_processCloneTakeover deletingView_owners w c clientId objectId) hbefore hafter
  | setTimestamp newTs => exact not_marked (w := w) ⟨rfl, fun _ => rfl, fun _ => rfl⟩ hbefore hafter
  | setIndex newIndex => exact not_marked (w := w) ⟨rfl, fun _ => rfl, fun _ => rfl⟩ hbefore hafter

theorem parseAck_deleting (w : ServerGameState Tree) (c : ClientPtr) (record : AckRecord) :
    Same deletingView noClient w (w.parseAck c record) := by
  cases record with
  | create objectId uniqifier =>
    dsimp only [parseAck]
    split
    · exact .refl w
    · split
      · exact (same_modifyEntity w _ rfl).trans (same_modifyClient _ c rfl)
      · exact .refl w
  | remove objectId uniqifier =>
    dsimp only [parseAck]
    exact same_modifyClient w c rfl

theorem deleteEntity_deleting (w : ServerGameState Tree) (e : SyncEntityPtr) :
    Same deletingView noClient w (w.deleteEntity e) := by
  unfold deleteEntity
  split
  · exact .refl w
  · exact ⟨rfl, fun _ => rfl, fun _ => rfl⟩

theorem onEntityCreating_deleting (w : ServerGameState Tree) (e : SyncEntityPtr) (cancelled : Bool) :
    Same deletingView noClient w (w.onEntityCreating e cancelled) := by
  have hpassed : Same deletingView noClient w (w.modifyEntity e fun entity =>
      { entity with entityCreating := false, passedFilter := entity.passedFilter || !cancelled }) :=
        same_modifyEntity w e rfl
  unfold onEntityCreating
  dsimp only
  split
  · exact hpassed.trans (deleteEntity_deleting _ e)
  · exact hpassed

theorem noRemovalWaits_iff {objectId : Nat} :
    w.noRemovalWaits objectId = true ↔ ∀ e, .removeClone e ∈ w.syncCallbacks → (w.entities e).handle ≠ objectId := by
  rw [noRemovalWaits, List.all_eq_true]
  constructor
  · exact fun h e hmem => by simpa using h _ hmem
  · intro h callback hmem
    cases callback with
    | removeClone e => simpa using h e hmem
    | _ => rfl

/-- A step that keeps the handles, queues no removal and registers nothing under the object id of one that waits. -/
theorem Aimed.of_frame (h : w.Aimed) (hconsistent : w'.Consistent) (hnext : w.nextEntity ≤ w'.nextEntity)
    (hqueue : ∀ e, .removeClone e ∈ w'.syncCallbacks → .removeClone e ∈ w.syncCallbacks)
    (hhandle : ∀ e < w.nextEntity, (w'.entities e).handle = (w.entities e).handle)
    (hbyId : ∀ e, .removeClone e ∈ w.syncCallbacks → ∀ found, w'.entitiesById (w.entities e).handle = some found →
      w.entitiesById (w.entities e).handle = some found) : w'.Aimed where
  consistent := hconsistent
  lt_next e he := Nat.lt_of_lt_of_le (h.lt_next e (hqueue e he)) hnext
  aimed e he found hfound := by
    have hbefore := hqueue e he
    rw [hhandle e (h.lt_next e hbefore)] at hfound
    exact h.aimed e hbefore found (hbyId e hbefore found hfound)

theorem Aimed.of_same (h : w.Aimed) (hsame : SameRegistry w w') : w'.Aimed :=
  h.of_frame (h.consistent.of_same hsame) hsame.nextEntity.ge (fun _ he => hsame.syncCallbacks ▸ he)
    (fun e _ => hsame.handle e) fun _ _ _ hfound => hsame.entitiesById ▸ hfound

/-- A registered entity is to be deleted. -/
theorem Aimed.deleteEntity (h : w.Aimed) (he : e ∈ w.entityList) : (w.deleteEntity e).Aimed := by
  have hconsistent := h.consistent.queueDeletion e
  unfold ServerGameState.deleteEntity at hconsistent ⊢
  split
  · exact h
  · rename_i hplayer
    rw [if_neg hplayer] at hconsistent
    refine ⟨hconsistent, fun e' he' => ?_, fun e' he' found hfound => ?_⟩
    · obtain he' | he' := List.mem_append.mp he'
      · exact h.lt_next e' he'
      · cases List.mem_singleton.mp he'
        exact h.consistent.lt_next e he
    · obtain he' | he' := List.mem_append.mp he'
      · exact h.aimed e' he' found hfound
      · cases List.mem_singleton.mp he'
        dsimp only at hfound
        rw [h.consistent.byId e he] at hfound
        exact (Option.some.inj hfound).symm

/-- What a create does to the registries. -/
structure Creates (w w' : ServerGameState Tree) (objectId : Nat) : Prop where
  syncCallbacks : w'.syncCallbacks = w.syncCallbacks
  nextEntity : w.nextEntity ≤ w'.nextEntity
  entitiesById : ∀ id e, w'.entitiesById id = some e → w.entitiesById id = some e ∨ id = objectId ∧
    w.entitiesById id = none

theorem Creates.of_same (hsame : SameRegistry w w') (objectId : Nat) : Creates w w' objectId :=
  ⟨hsame.syncCallbacks, hsame.nextEntity.ge, fun _ _ hbyId => .inl (hsame.entitiesById ▸ hbyId)⟩

theorem creates_cloneCreated (c : ClientPtr) (hfree : w.entitiesById (w.entities e).handle = none) :
    Creates w (w.cloneCreated tree c e).2 (w.entities e).handle := by
  unfold cloneCreated
  dsimp only
  generalize hmade : w.modifyEntity e _ = made
  have hsame : SameRegistry w made := hmade ▸ sameRegistry_modifyEntity w e rfl
  have hhandle := hsame.handle e
  split
  · dsimp only
    exact .of_same ((hsame.trans (still_removeClone made _).toSameRegistry).trans
      (sameRegistry_modifyClient _ c rfl)) _
  · refine ⟨hsame.syncCallbacks, hsame.nextEntity.ge, fun id found hbyId => ?_⟩
    dsimp only [register] at hbyId
    rw [Function.update_apply] at hbyId
    split at hbyId
    · rename_i hid
      rw [modifyClient_entities, modifyEntity_self] at hid
      dsimp only [onEntityCreate] at hid
      rw [hhandle] at hid
      exact .inr ⟨hid, hid ▸ hfree⟩
    · exact .inl (hsame.entitiesById ▸ hbyId)

theorem creates_processCloneCreate (w : ServerGameState Tree) (c : ClientPtr)
    (uniqifier objectId creationToken objectType : Nat) (bitBytes : List (BitVec 8)) :
    Creates w (w.processCloneCreate tree c uniqifier objectId creationToken objectType bitBytes).2 objectId := by
  unfold processCloneCreate
  split
  · exact .of_same (.refl w) objectId
  · split
    · exact .of_same (.refl w) objectId
    · rename_i hfree
      split
      · exact .of_same (.refl w) objectId
      · rename_i type _
        dsimp only
        generalize hentity : w.construct tree c uniqifier objectId creationToken type = entity
        have hself : (w.allocate entity).entities w.nextEntity = entity := Function.update_self ..
        have hsame := sameRegistry_syncClone tree (w.allocate entity) c w.nextEntity 1 uniqifier bitBytes
        generalize (w.allocate entity).syncClone tree c w.nextEntity 1 uniqifier bitBytes = made at hsame ⊢
        have hnext : w.nextEntity ≤ made.2.nextEntity := hsame.nextEntity ▸ Nat.le_succ w.nextEntity
        split
        · rename_i made
          have hhandle : (made.entities w.nextEntity).handle = objectId := by
            rw [hsame.handle, hself, ← hentity]
            rfl
          have hcreated := @creates_cloneCreated _ tree made w.nextEntity c
            (by rw [hhandle, hsame.entitiesById]; exact hfree)
          rw [hhandle] at hcreated
          refine ⟨hcreated.syncCallbacks.trans hsame.syncCallbacks, hnext.trans hcreated.nextEntity,
            fun id e hbyId => ?_⟩
          have hbefore := hcreated.entitiesById id e hbyId
          rwa [hsame.entitiesById] at hbefore
        · exact ⟨hsame.syncCallbacks, hnext, fun id e hbyId => .inl (hsame.entitiesById ▸ hbyId)⟩

/-- A create under an object id that is settled. -/
theorem Aimed.creates {objectId : Nat} (h : w.Aimed) (hconsistent : w'.Consistent) (hcreates : Creates w w' objectId)
    (hentities : ∀ e < w.nextEntity, w'.entities e = w.entities e)
    (hsettled : w.entitiesById objectId = none → w.noRemovalWaits objectId = true) : w'.Aimed := by
  refine h.of_frame hconsistent hcreates.nextEntity (fun e he => hcreates.syncCallbacks ▸ he)
    (fun e he => congrArg SyncEntityState.handle (hentities e he)) fun e he found hfound => ?_
  obtain hbefore | ⟨hid, hfree⟩ := hcreates.entitiesById _ found hfound
  · exact hbefore
  · exact absurd hid (noRemovalWaits_iff.mp (hsettled (hid ▸ hfree)) e he)

/-- The sync thread takes a callback. -/
theorem Aimed.syncCallback {distance : SyncEntityPtr → ClientPtr → Nat} (h : w.Aimed)
    (hstep : step tree w (.syncCallback distance) = some w') : w'.Aimed := by
  have hconsistent := h.consistent.step hstep
  obtain ⟨callback, syncCallbacks, hqueue, rfl⟩ := step_syncCallback hstep
  have hrest : ∀ e, .removeClone e ∈ syncCallbacks → .removeClone e ∈ w.syncCallbacks :=
    fun e he => hqueue ▸ List.mem_cons_of_mem callback he
  cases callback with
  | removeClone e =>
    have hsame := (still_removeClone { w with syncCallbacks } (w.entities e).handle).toSameRegistry
    have hqueued : (ServerGameState.removeClone { w with syncCallbacks } (w.entities e).handle).syncCallbacks =
      syncCallbacks :=
      hsame.syncCallbacks
    exact h.of_frame hconsistent hsame.nextEntity.ge (fun e he => hrest e (hqueued ▸ he)) (fun e _ => hsame.handle e)
      fun _ _ _ hfound => hsame.entitiesById ▸ hfound
  | doRemove e =>
    exact h.of_frame hconsistent le_rfl hrest (fun _ _ => rfl) fun _ _ _ hfound => (unregister_entitiesById hfound).2
  | handleClientDrop c netId slotId =>
    have hsame := sameRegistry_handleClientDrop tree distance { w with syncCallbacks } c netId slotId
    have hqueued : (ServerGameState.handleClientDrop tree distance { w with syncCallbacks } c netId
      slotId).syncCallbacks =
      syncCallbacks := hsame.syncCallbacks
    exact h.of_frame hconsistent hsame.nextEntity.ge (fun e he => hrest e (hqueued ▸ he)) (fun e _ => hsame.handle e)
      fun _ _ _ hfound => hsame.entitiesById ▸ hfound

theorem Aimed.step {a : Action Tree} (h : w.Aimed) (hok : w.IdSettled a) (hstep : step tree w a = some w') :
    w'.Aimed := by
  have hconsistent := h.consistent.step hstep
  by_cases hkeeps : a.keepsRegistry = true
  · exact h.of_same (sameRegistry_step hstep hkeeps)
  · cases a with
    | connect c netId slotId =>
      obtain ⟨_, hw⟩ := Option.ite_none_right_eq_some.mp hstep
      cases hw
      exact h.of_frame hconsistent le_rfl (fun _ he => he) (fun _ _ => rfl) fun _ _ _ hfound => hfound
    | dropClient c =>
      obtain ⟨_, hw⟩ := Option.ite_none_right_eq_some.mp hstep
      cases hw
      exact h.of_frame hconsistent le_rfl (fun _ he => he) (fun _ _ => rfl) fun _ _ _ hfound => hfound
    | removeClient c =>
      obtain ⟨_, hw⟩ := Option.ite_none_right_eq_some.mp hstep
      cases hw
      refine h.of_frame hconsistent le_rfl (fun e he => ?_) (fun _ _ => rfl) fun _ _ _ hfound => hfound
      exact (List.mem_append.mp he).resolve_right fun hmem => nomatch List.mem_singleton.mp hmem
    | syncCallback distance => exact h.syncCallback hstep
    | record c record =>
      obtain ⟨_, hw⟩ := Option.ite_none_right_eq_some.mp hstep
      cases hw
      cases record with
      | create uniqifier objectId creationToken objectType bitBytes =>
        exact h.creates hconsistent
          (creates_processCloneCreate w c uniqifier objectId creationToken objectType bitBytes)
            (fun e he => processCloneCreate_entities uniqifier objectId creationToken objectType bitBytes he.ne) hok
      | _ => exact absurd rfl hkeeps
    | gameStateNAck c nack =>
      obtain ⟨_, hw⟩ := Option.ite_none_right_eq_some.mp hstep
      cases hw
      unfold ServerGameState.gameStateNAck at hconsistent ⊢
      split
      · split
        · exact h.of_same (sameRegistry_modifyClient w c (sameSynced_nackClient ‹_›).identity)
        · exact h.of_frame (h.consistent.dropClient c) le_rfl (fun _ he => he)
            (fun _ _ => rfl) fun _ _ _ hfound => hfound
      · exact h
    | deleteEntity e =>
      obtain ⟨he, hw⟩ := Option.ite_none_right_eq_some.mp hstep
      cases hw
      exact h.deleteEntity he
    | entityCreating e cancelled =>
      obtain ⟨⟨he, _⟩, hw⟩ := Option.ite_none_right_eq_some.mp hstep
      cases hw
      have hpassed : Aimed (w.modifyEntity e fun entity =>
          { entity with entityCreating := false, passedFilter := entity.passedFilter || !cancelled }) :=
        h.of_same (sameRegistry_modifyEntity w e rfl)
      unfold onEntityCreating
      dsimp only
      split
      · exact hpassed.deleteEntity he
      · exact hpassed
    | entityRemoved e =>
      obtain ⟨_, hw⟩ := Option.ite_none_right_eq_some.mp hstep
      cases hw
      refine h.of_frame hconsistent le_rfl (fun e' he => ?_) (fun _ _ => rfl) fun _ _ _ hfound => hfound
      exact (List.mem_append.mp he).resolve_right fun hmem => nomatch List.mem_singleton.mp hmem
    | createEntityFromTree type syncTree uniqifier =>
      obtain ⟨_, hw⟩ := Option.ite_none_right_eq_some.mp hstep
      cases hw
      have hold : ∀ e < w.nextEntity, (w.createEntityFromTree type syncTree uniqifier).entities e = w.entities e :=
        fun e he => Function.update_of_ne he.ne ..
      refine h.of_frame hconsistent (Nat.le_succ _) (fun _ he => he)
        (fun e he => congrArg SyncEntityState.handle (hold e he)) fun e he found hfound => ?_
      have hself : (w.allocate (w.constructFromTree type syncTree uniqifier)).entities w.nextEntity =
          w.constructFromTree type syncTree uniqifier := Function.update_self ..
      dsimp only [createEntityFromTree, register] at hfound
      have hne : (w.entities e).handle ≠ (w.constructFromTree type syncTree uniqifier).handle :=
        noRemovalWaits_iff.mp hok e he
      rw [hself, Function.update_of_ne hne] at hfound
      exact hfound
    | _ => exact absurd rfl hkeeps

/-- A step of a state whose removals are aimed marks only what it is asked to delete. -/
theorem Aimed.deletesRequested {a : Action Tree} (h : w.Aimed) : DeletesRequested tree w a := by
  have hsame : ∀ {a}, (∀ {w'}, ServerGameState.step tree w a = some w' → Same deletingView noClient w w') →
    DeletesRequested tree w a :=
    fun hframe w' hw' e hbefore hafter => not_marked (hframe hw') hbefore hafter
  cases a with
  | syncCallback distance =>
    intro w' hw' found hbefore hafter
    obtain ⟨callback, syncCallbacks, hqueue, rfl⟩ := step_syncCallback hw'
    dsimp only [Requested]
    rw [hqueue, List.head?_cons]
    cases callback with
    | removeClone e =>
      have hfound := removeClone_marks (w := { w with syncCallbacks }) hbefore hafter
      exact h.aimed e (hqueue ▸ List.mem_cons_self) found hfound
    | doRemove e => exact absurd (hbefore.symm.trans hafter) Bool.false_ne_true
    | handleClientDrop => trivial
  | record c record => exact record_deletesRequested h.consistent c record
  | connect c netId slotId =>
    intro w' hw' found hbefore hafter
    obtain ⟨_, hw⟩ := Option.ite_none_right_eq_some.mp hw'
    cases hw
    exact absurd (hbefore.symm.trans hafter) Bool.false_ne_true
  | dropClient c =>
    refine hsame fun hw' => ?_
    obtain ⟨_, hw⟩ := Option.ite_none_right_eq_some.mp hw'
    cases hw
    exact ⟨rfl, fun _ => rfl, fun _ => rfl⟩
  | removeClient c =>
    intro w' hw' found hbefore hafter
    obtain ⟨_, hw⟩ := Option.ite_none_right_eq_some.mp hw'
    cases hw
    exact absurd (hbefore.symm.trans hafter) Bool.false_ne_true
  | ack c record =>
    refine hsame fun hw' => ?_
    obtain ⟨_, hw⟩ := Option.ite_none_right_eq_some.mp hw'
    cases hw
    exact parseAck_deleting w c record
  | gameStateAck c frameIndex recreates =>
    refine hsame fun hw' => ?_
    obtain ⟨_, hw⟩ := Option.ite_none_right_eq_some.mp hw'
    cases hw
    unfold gameStateAck
    exact .ite (same_modifyClient w c rfl)
  | gameStateNAck c nack =>
    refine hsame fun hw' => ?_
    obtain ⟨_, hw⟩ := Option.ite_none_right_eq_some.mp hw'
    cases hw
    unfold gameStateNAck
    split
    · split
      · exact same_modifyClient w c rfl
      · exact same_modifyClient w c rfl
    · exact .refl w
  | ensureStateBag e =>
    refine hsame fun hw' => ?_
    obtain ⟨_, hw⟩ := Option.ite_none_right_eq_some.mp hw'
    cases hw
    exact same_modifyEntity w e rfl
  | deleteEntity e =>
    refine hsame fun hw' => ?_
    obtain ⟨_, hw⟩ := Option.ite_none_right_eq_some.mp hw'
    cases hw
    exact deleteEntity_deleting w e
  | entityCreating e cancelled =>
    refine hsame fun hw' => ?_
    obtain ⟨_, hw⟩ := Option.ite_none_right_eq_some.mp hw'
    cases hw
    exact onEntityCreating_deleting w e cancelled
  | reassign entityHandle targetClient =>
    refine hsame fun hw' => ?_
    obtain ⟨_, hw⟩ := Option.ite_none_right_eq_some.mp hw'
    cases hw
    exact same_reassignEntity deletingView_owners w entityHandle _
  | entityRemoved e =>
    refine hsame fun hw' => ?_
    obtain ⟨_, hw⟩ := Option.ite_none_right_eq_some.mp hw'
    cases hw
    exact ⟨rfl, fun _ => rfl, fun _ => rfl⟩
  | createEntityFromTree type syncTree uniqifier =>
    intro w' hw' found hbefore hafter
    obtain ⟨_, hw⟩ := Option.ite_none_right_eq_some.mp hw'
    cases hw
    dsimp only [createEntityFromTree, register, allocate] at hafter
    rw [Function.update_apply] at hafter
    split at hafter
    · cases hafter
    · exact absurd (hbefore.symm.trans hafter) Bool.false_ne_true
  | createRpc | setLockdownMode | setRoutingBucket | wait =>
    refine hsame fun hw' => ?_
    cases hw'
    exact ⟨rfl, fun _ => rfl, fun _ => rfl⟩
  | tick input =>
    refine hsame fun hw' => ?_
    cases hw'
    exact same_tick deletingView_owners deletingView_scopes (fun _ _ _ => rfl) input w

/-- In a run whose steps meet the condition, every step marks only what it is asked to delete: a `RemoveClone` that
waits finds its own entity or none (`Aimed`), as the main thread queues it while the entity is registered, and
in the meantime nothing else is registered under its object id. -/
theorem run_deletesRequested (blank : SyncEntityState Tree) (syncStyle : SyncStyle) (bigMode lengthHack : Bool)
    (acts : List (Action Tree)) (w : ServerGameState Tree)
    (hrun : Transition.Run (step tree) IdSettled (new blank syncStyle bigMode lengthHack) acts w) :
    Transition.Run (step tree) (DeletesRequested tree) (new blank syncStyle bigMode lengthHack) acts w := by
  have hinit : Aimed (new blank syncStyle bigMode lengthHack) :=
    ⟨consistent_new blank syncStyle bigMode lengthHack, (fun _ he => nomatch he), fun _ he => nomatch he⟩
  exact hrun.upgrade Aimed hinit (fun h hok hstep => h.step hok hstep) fun h _ _ => h.deletesRequested

/-- A client's entity is cancelled, deleted and finalized, and another one under the same object id is deleted by a
script. -/
def deleteRun : List (Action Unit) :=
  [.connect 1 1 0, .record 1 (.create 7 5 0 5 []), .entityCreating 0 true, .syncCallback fun _ _ => 0,
    .tick (uncull .NAK [0]), .tick (uncull .NAK [0]), .entityRemoved 0, .syncCallback fun _ _ => 0,
      .record 1 (.create 8 5 0 5 []), .deleteEntity 1,
    .syncCallback fun _ _ => 0]

theorem run_deletesRequested_two : ∃ w, Transition.Run (step plainTree) (DeletesRequested plainTree)
    (plain .NAK false) deleteRun w ∧ (w.entities 0).deleting = true ∧ (w.entities 1).deleting = true ∧
      w.entitiesById 5 = some 1 := by
  have hcheck : ∀ (w : ServerGameState Unit) (a : Action Unit), decide (w.IdSettled a) = true → w.IdSettled a :=
    fun _ _ h => of_decide_eq_true h
  have hend : ((Transition.exec (fun w a => if decide (IdSettled w a) then step plainTree w a else none)
      (plain .NAK false) deleteRun).any fun w =>
        decide ((w.entities 0).deleting = true ∧ (w.entities 1).deleting = true ∧
        w.entitiesById 5 = some 1)) = true := by decide +kernel
  obtain ⟨w, hrun, hw⟩ := Transition.exists_checked hcheck hend
  exact ⟨w, run_deletesRequested _ _ _ _ _ w hrun, of_decide_eq_true hw⟩

/-- A client removes its entity, and two ticks finalize it. The main thread runs `entityRemoved`, and a script
deletes the entity, which is still registered; the sync thread unregisters it, and the client creates another
one under the same object id. -/
def reuseRun : List (Action Unit) :=
  [.connect 1 1 0, .record 1 (.create 7 5 0 5 []), .entityCreating 0 false, .record 1 (.remove 5 7),
    .tick (uncull .NAK [0]), .tick (uncull .NAK [0]), .entityRemoved 0, .deleteEntity 0, .syncCallback fun _ _ => 0,
      .record 1 (.create 8 5 0 5 [])]

/-- Then the sync thread comes to the `RemoveClone` of the first entity, and marks the second. -/
theorem removal_reused : ∃ w, Transition.Run (step plainTree) (fun _ _ => True) (plain .NAK false) reuseRun w ∧
    ¬ DeletesRequested plainTree w (.syncCallback fun _ _ => 0) := by
  have hend : ((Transition.exec (step plainTree) (plain .NAK false) reuseRun).any fun w =>
      w.syncCallbacks == [.removeClone 0] && !(w.entities 1).deleting &&
        (step plainTree w (.syncCallback fun _ _ => 0)).any fun w' => (w'.entities 1).deleting) = true := by
          decide +kernel
  obtain ⟨w, hrun, hw⟩ := Transition.exists_run hend
  simp only [Bool.and_eq_true, beq_iff_eq, Bool.not_eq_true', Option.any_eq_true] at hw
  obtain ⟨⟨hqueue, hbefore⟩, w', hstep, hafter⟩ := hw
  refine ⟨w, hrun, fun h => ?_⟩
  have hrequested := h w' hstep 1 hbefore hafter
  dsimp only [Requested] at hrequested
  rw [hqueue] at hrequested
  cases hrequested

end ServerGameState

end fx
