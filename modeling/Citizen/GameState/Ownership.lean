import Citizen.GameState.Consistent

open Std

namespace fx

open sync

namespace ServerGameState

variable {Tree : Type*} {tree : SyncTreeBase Tree} {w w' : ServerGameState Tree} {c : ClientPtr} {e : SyncEntityPtr}

/-- The node data, timestamp, owner and deleting flag are the same. -/
def SameOwned (entity entity' : SyncEntityState Tree) : Prop :=
  entity'.syncTree = entity.syncTree ∧ entity'.timestamp = entity.timestamp ∧ entity'.client = entity.client ∧
    entity'.deleting = entity.deleting

/-- A record changes an entity of another connected client only if the sender was its last owner, at most a second
ago; and a record that is refused for its owner, uniqifier or object id changes no entity. -/
def OwnerRespected (tree : SyncTreeBase Tree) (w : ServerGameState Tree) : Action Tree → Prop
  | .record c record =>
    (∀ e < w.nextEntity, ∀ owner, w.lock (w.entities e).client = some owner → owner ≠ c →
      ¬ SameOwned (w.entities e) ((w.processRecord tree c record).2.entities e) →
        (w.entities e).lastOwner = some c ∧ w.now - (w.entities e).lastMigratedAt ≤ 1000) ∧
    ((w.processRecord tree c record).1.refused = true →
      ∀ e < w.nextEntity, (w.processRecord tree c record).2.entities e = w.entities e)
  | _ => True

/-- A sync that gets as far as the owner and is refused there comes from a client that the entity is relevant to
already. -/
def SenderRelevant (w : ServerGameState Tree) : Action Tree → Prop
  | .record c (.sync uniqifier objectId _) =>
    ∀ e, objectId ≠ 0xFFFF → w.entitiesById objectId = some e → w.Enters c e uniqifier →
      w.lock (w.entities e).client = none ∨ w.ownsEntity c e = false ∧ w.recentOwner c e = false →
        (w.clients c).slotId ∈ (w.entities e).relevantTo
  | _ => True

theorem SameOwned.refl (entity : SyncEntityState Tree) : SameOwned entity entity := ⟨rfl, rfl, rfl, rfl⟩

theorem removeClone_entities_of_ne {objectId : Nat} (h : w.entitiesById objectId ≠ some e) :
    (w.removeClone objectId).entities e = w.entities e := by
  unfold removeClone
  split
  · rename_i e' hbyId
    apply modifyEntity_of_ne
    rintro rfl
    exact h hbyId
  · rfl

theorem reassignEntity_entities_of_ne {entityHandle : Nat} {targetClient : Option ClientPtr}
    (h : w.entitiesById entityHandle ≠ some e) :
    (w.reassignEntity entityHandle targetClient).entities e = w.entities e := by
  unfold reassignEntity
  split
  · rfl
  · rename_i e' hbyId
    split
    · rfl
    · dsimp only
      apply modifyEntity_of_ne
      rintro rfl
      exact h hbyId

theorem receiveClone_entities_of_ne {e' : SyncEntityPtr} (h : e' ≠ e) (parsingType : Nat)
    (bitBytes : List (BitVec 8)) :
    (w.receiveClone tree c e parsingType bitBytes).entities e' = w.entities e' := by
  unfold receiveClone
  dsimp only
  generalize hmade : w.modifyEntity e _ = made
  have hsame : made.entities e' = w.entities e' := hmade ▸ modifyEntity_of_ne w _ h
  split <;> exact hsame

theorem syncClone_entities_of_ne {e' : SyncEntityPtr} (h : e' ≠ e) (parsingType uniqifier : Nat)
    (bitBytes : List (BitVec 8)) :
    (w.syncClone tree c e parsingType uniqifier bitBytes).2.entities e' = w.entities e' := by
  obtain ⟨result, _, hr⟩ | ⟨_, ⟨result, _, _, hr⟩ | ⟨_, hr⟩⟩ :=
    syncClone_cases tree w c e parsingType uniqifier bitBytes
  · rw [hr]
  · rw [hr]
    dsimp only
    exact modifyEntity_of_ne w _ h
  · rw [hr]
    exact (receiveClone_entities_of_ne h parsingType bitBytes).trans (modifyEntity_of_ne w _ h)

/-- The owner of a connected client's entity, by its net id, is that client. -/
theorem Consistent.ownsEntity_eq {owner : ClientPtr} (h : w.Consistent) (hc : c ∈ w.alive)
    (howner : w.lock (w.entities e).client = some owner) : w.ownsEntity c e = decide (owner = c) := by
  have hconnected := (lock_eq_some.mp howner).2
  rw [ownsEntity, howner, Option.any_some]
  apply Bool.eq_iff_iff.mpr
  rw [beq_iff_eq, decide_eq_true_iff]
  exact ⟨h.netId_inj owner hconnected c hc, fun heq => by rw [heq]⟩

theorem recentOwner_eq_true (h : w.recentOwner c e = true) :
    (w.entities e).lastOwner = some c ∧ w.now - (w.entities e).lastMigratedAt ≤ 1000 := by
  obtain ⟨hlast, htime⟩ := Bool.and_eq_true_iff.mp h
  exact ⟨(lock_eq_some.mp (eq_of_beq hlast)).1, of_decide_eq_true htime⟩

theorem cloneCreated_entities_of_ne {e' : SyncEntityPtr} (h : e' ≠ e)
    (hfree : w.entitiesById (w.entities e).handle = none) :
    (w.cloneCreated tree c e).2.entities e' = w.entities e' := by
  unfold cloneCreated
  dsimp only
  generalize hmade : w.modifyEntity e _ = made
  have hother : made.entities e' = w.entities e' := hmade ▸ modifyEntity_of_ne w _ h
  have hsame : SameRegistry w made := hmade ▸ sameRegistry_modifyEntity w e rfl
  split
  · dsimp only
    rw [modifyClient_entities, removeClone_entities_of_ne, hother]
    rw [hsame.entitiesById, hsame.handle, hfree]
    exact fun hsome => nomatch hsome
  · exact Eq.trans (Function.update_of_ne h _ made.entities) hother

/-- A create touches no entity but the new one. -/
theorem processCloneCreate_entities (uniqifier objectId creationToken objectType : Nat)
    (bitBytes : List (BitVec 8)) (hne : e ≠ w.nextEntity) :
    (w.processCloneCreate tree c uniqifier objectId creationToken objectType bitBytes).2.entities e =
      w.entities e := by
  unfold processCloneCreate
  split
  · rfl
  · split
    · rfl
    · rename_i hfree
      split
      · rfl
      · rename_i type _
        dsimp only
        generalize hentity : w.construct tree c uniqifier objectId creationToken type = entity
        have hold : (w.allocate entity).entities e = w.entities e := Function.update_of_ne hne ..
        have hsame := sameRegistry_syncClone tree (w.allocate entity) c w.nextEntity 1 uniqifier bitBytes
        have hsync := @syncClone_entities_of_ne Tree tree (w.allocate entity) c w.nextEntity e hne 1 uniqifier bitBytes
        generalize (w.allocate entity).syncClone tree c w.nextEntity 1 uniqifier bitBytes = made at hsame hsync ⊢
        have hhandle : (made.2.entities w.nextEntity).handle = objectId := by
          rw [hsame.handle]
          have hself : (w.allocate entity).entities w.nextEntity = entity := Function.update_self ..
          rw [hself, ← hentity]
          rfl
        split
        · rename_i made
          have hbyId : made.entitiesById (made.entities w.nextEntity).handle = none := by
            rw [hhandle, hsame.entitiesById]
            exact hfree
          rw [← hold, ← hsync]
          exact cloneCreated_entities_of_ne hne hbyId
        · exact hsync.trans hold

/-- Entering a scope that the entity is in already changes nothing. -/
theorem enterScope_eq (entity : SyncEntityState Tree) {slotId : Nat} (hrelevant : slotId ∈ entity.relevantTo)
    (hscope : slotId ∉ entity.outOfScopeFor) : entity.enterScope slotId = entity := by
  unfold SyncEntityState.enterScope
  rw [Finset.insert_eq_of_mem hrelevant, Finset.erase_eq_of_notMem hscope]

theorem modifyEntity_enterScope (hrelevant : (w.clients c).slotId ∈ (w.entities e).relevantTo)
    (hscope : (w.clients c).slotId ∉ (w.entities e).outOfScopeFor) :
    (w.modifyEntity e (·.enterScope (w.clients c).slotId)).entities = w.entities := by
  have hentities : (w.modifyEntity e (·.enterScope (w.clients c).slotId)).entities =
    Function.update w.entities e ((w.entities e).enterScope (w.clients c).slotId) := rfl
  rw [hentities, enterScope_eq _ hrelevant hscope]
  exact Function.update_eq_self e w.entities

/-- A sync and the entity it is for. -/
theorem sync_respected (h : w.Consistent) (hc : c ∈ w.alive) (uniqifier objectId : Nat) (bitBytes : List (BitVec 8))
    (hrelevant : SenderRelevant w (.record c (.sync uniqifier objectId bitBytes))) :
    OwnerRespected tree w (.record c (.sync uniqifier objectId bitBytes)) := by
  dsimp only [OwnerRespected, processRecord]
  unfold processCloneSync
  split
  · exact ⟨fun e _ _ _ _ hchanged => absurd (SameOwned.refl _) hchanged, fun _ _ _ => rfl⟩
  · rename_i hid
    split
    · exact ⟨fun e _ _ _ _ hchanged => absurd (SameOwned.refl _) hchanged, fun _ _ _ => rfl⟩
    · rename_i found hfound
      have hother : ∀ e, e ≠ found → (w.syncClone tree c found 2 uniqifier bitBytes).2.entities e = w.entities e :=
        fun e hne => syncClone_entities_of_ne hne 2 uniqifier bitBytes
      have hframe : ∀ e, ¬ SameOwned (w.entities e) ((w.syncClone tree c found 2 uniqifier bitBytes).2.entities e) →
          e = found := by
        intro e hchanged
        by_contra hne
        rw [hother e hne] at hchanged
        exact hchanged (.refl _)
      obtain ⟨result, hresult, hr⟩ | ⟨henters, ⟨result, _, hrefused, hr⟩ | ⟨hsends, hr⟩⟩ :=
        syncClone_cases tree w c found 2 uniqifier bitBytes
      · rw [hr]
        exact ⟨fun e _ _ _ _ hchanged => absurd (SameOwned.refl _) hchanged, fun _ _ _ => rfl⟩
      · have hsame := modifyEntity_enterScope (hrelevant found hid hfound henters hrefused) henters.in_scope
        rw [hr]
        dsimp only
        rw [hsame]
        exact ⟨fun e _ _ _ _ hchanged => absurd (SameOwned.refl _) hchanged, fun _ _ _ => rfl⟩
      · refine ⟨fun e _ owner howner hne hchanged => ?_, fun hresult => ?_⟩
        · obtain rfl := hframe e hchanged
          obtain howns | hrecent := hsends
          · rw [h.ownsEntity_eq hc howner, decide_eq_true_iff] at howns
            exact absurd howns hne
          · exact recentOwner_eq_true hrecent
        · rw [hr] at hresult
          cases hresult

theorem remove_respected (h : w.Consistent) (hc : c ∈ w.alive) (objectId uniqifier : Nat) :
    OwnerRespected tree w (.record c (.remove objectId uniqifier)) := by
  have hkeep : ∀ result : CloneResult,
      (∀ e < w.nextEntity, ∀ owner, w.lock (w.entities e).client = some owner → owner ≠ c →
        ¬ SameOwned (w.entities e) ((result, w).2.entities e) →
          (w.entities e).lastOwner = some c ∧ w.now - (w.entities e).lastMigratedAt ≤ 1000) ∧
      ((result, w).1.refused = true → ∀ e < w.nextEntity, (result, w).2.entities e = w.entities e) :=
    fun _ => ⟨fun e _ _ _ _ hchanged => absurd (SameOwned.refl _) hchanged, fun _ _ _ => rfl⟩
  dsimp only [OwnerRespected, processRecord]
  unfold processCloneRemove
  split
  · exact hkeep _
  · rename_i found hfound
    split
    · exact hkeep _
    · rename_i entityClient hclient
      split
      · exact hkeep _
      · rename_i hsame
        split
        · exact hkeep _
        · refine ⟨fun e _ owner howner hne hchanged => ?_, fun hresult => nomatch hresult⟩
          have he : w.entitiesById objectId = some e := by
            by_contra hother
            rw [removeClone_entities_of_ne hother] at hchanged
            exact hchanged (.refl _)
          rw [hfound] at he
          cases he
          rw [hclient] at howner
          cases howner
          exact absurd (h.netId_inj _ hc _ (lock_eq_some.mp hclient).2 (not_not.mp hsame)).symm hne

theorem takeover_respected (h : w.Consistent) (hc : c ∈ w.alive) (clientId objectId : Nat) :
    OwnerRespected tree w (.record c (.takeover clientId objectId)) := by
  have hkeep : ∀ result : CloneResult,
      (∀ e < w.nextEntity, ∀ owner, w.lock (w.entities e).client = some owner → owner ≠ c →
        ¬ SameOwned (w.entities e) ((result, w).2.entities e) →
          (w.entities e).lastOwner = some c ∧ w.now - (w.entities e).lastMigratedAt ≤ 1000) ∧
      ((result, w).1.refused = true → ∀ e < w.nextEntity, (result, w).2.entities e = w.entities e) :=
    fun _ => ⟨fun e _ _ _ _ hchanged => absurd (SameOwned.refl _) hchanged, fun _ _ _ => rfl⟩
  dsimp only [OwnerRespected, processRecord]
  unfold processCloneTakeover
  split
  · exact hkeep _
  · rename_i found hfound
    have hhandle := (h.registered _ _ hfound).2
    have hmoved : ∀ target e, ¬ SameOwned (w.entities e)
        ((w.reassignEntity (w.entities found).handle target).entities e) → e = found := by
      intro target e hchanged
      by_contra hne
      rw [reassignEntity_entities_of_ne] at hchanged
      · exact hchanged (.refl _)
      · rw [hhandle, hfound]
        exact fun heq => hne (Option.some.inj heq).symm
    split
    · exact hkeep _
    · split
      · rename_i hnone
        refine ⟨fun e _ owner howner hne hchanged => ?_, fun hresult => nomatch hresult⟩
        obtain rfl := hmoved _ e hchanged
        rw [hnone] at howner
        cases howner
      · rename_i entityClient hclient
        split
        · exact hkeep _
        · split
          · exact hkeep _
          · rename_i hsame
            refine ⟨fun e _ owner howner hne hchanged => ?_, fun hresult => nomatch hresult⟩
            obtain rfl := hmoved _ e hchanged
            rw [hclient] at howner
            cases howner
            exact absurd (h.netId_inj _ (lock_eq_some.mp hclient).2 _ hc (not_not.mp hsame)) hne

/-- One step of a run. -/
theorem ownerRespected_of_relevant {a : Action Tree} (h : w.Consistent) (hstep : step tree w a = some w')
    (hrelevant : SenderRelevant w a) : OwnerRespected tree w a := by
  cases a with
  | record c record =>
    obtain ⟨hc, _⟩ := Option.ite_none_right_eq_some.mp hstep
    cases record with
    | create uniqifier objectId creationToken objectType bitBytes =>
      have hsame : ∀ e < w.nextEntity,
          (w.processCloneCreate tree c uniqifier objectId creationToken objectType bitBytes).2.entities e =
            w.entities e :=
        fun e he => processCloneCreate_entities uniqifier objectId creationToken objectType bitBytes (Nat.ne_of_lt he)
      refine ⟨fun e he owner _ _ hchanged => ?_, fun _ => hsame⟩
      dsimp only [processRecord] at hchanged
      rw [hsame e he] at hchanged
      exact absurd (.refl _) hchanged
    | sync uniqifier objectId bitBytes => exact sync_respected h hc uniqifier objectId bitBytes hrelevant
    | remove objectId uniqifier => exact remove_respected h hc objectId uniqifier
    | takeover clientId objectId => exact takeover_respected h hc clientId objectId
    | setTimestamp | setIndex => exact ⟨fun e _ _ _ _ hchanged => absurd (.refl _) hchanged, fun _ _ _ => rfl⟩
  | _ => exact trivial

/-- In a run in which every sync refused for its owner comes from a client that the entity was relevant to already,
the owners of all entities are respected. A refused sync makes the entity relevant to its sender, and does
nothing else. -/
theorem run_ownerRespected {acts : List (Action Tree)} (h : w.Consistent)
    (hrun : Transition.Run (step tree) SenderRelevant w acts w') :
    Transition.Run (step tree) (OwnerRespected tree) w acts w' :=
  hrun.upgrade Consistent h (fun hinv _ htake => hinv.step htake)
    fun hinv hrelevant htake => ownerRespected_of_relevant hinv htake hrelevant

/-- The sender of a sync is in the scope of the entity. -/
def senderInScope (w : ServerGameState Tree) : Action Tree → Bool
  | .record c (.sync _ objectId _) =>
    (w.entitiesById objectId).all fun e => decide ((w.clients c).slotId ∈ (w.entities e).relevantTo)
  | _ => true

theorem senderRelevant_of_inScope (w : ServerGameState Tree) (a : Action Tree) (h : w.senderInScope a = true) :
    SenderRelevant w a := by
  cases a with
  | record c record =>
    cases record with
    | sync uniqifier objectId bitBytes =>
      intro e _ hbyId _ _
      rw [senderInScope, hbyId, Option.all_some] at h
      exact of_decide_eq_true h
    | _ => trivial
  | _ => trivial

/-- Two clients: the first creates an entity, which comes into the second one's scope. The second one syncs and
removes it, and is refused; the first one gives it to the second, and syncs it once more. -/
def ownedRun : List (Action Unit) :=
  [.connect 1 1 0, .connect 2 2 1, .record 1 (.create 7 5 0 5 []), .entityCreating 0 false, .tick (uncull .NAK [1]),
    .record 2 (.sync 7 5 [1]), .record 2 (.remove 5 7), .record 1 (.takeover 2 5), .record 1 (.sync 7 5 [1])]

theorem run_ownerRespected_two : ∃ w, Transition.Run (step plainTree) (OwnerRespected plainTree) (plain .NAK false)
    ownedRun w ∧ (w.entities 0).client = some 2 ∧ (w.entities 0).deleting = false ∧
      (w.entities 0).hasSynced = true := by
  have hend : ((Transition.exec (fun w a => if senderInScope w a then step plainTree w a else none) (plain .NAK false)
      ownedRun).any fun w => decide ((w.entities 0).client = some 2 ∧ (w.entities 0).deleting = false ∧
        (w.entities 0).hasSynced = true)) = true := by decide +kernel
  obtain ⟨w, hrun, hw⟩ := Transition.exists_checked senderRelevant_of_inScope hend
  exact ⟨w, run_ownerRespected (consistent_new _ _ _ _) hrun, of_decide_eq_true hw⟩

/-- The second client sends a sync of the first one's entity, which is not in its scope: it is refused for its
owner, and the entity is relevant to the second client from then on. -/
theorem run_sync_marks : ∃ acts w, Transition.Run (step plainTree) (fun _ _ => True) (plain .NAK false) acts w ∧
    ¬ OwnerRespected plainTree w (.record 2 (.sync 7 5 [])) := by
  have hrun : Transition.Run (step plainTree) (fun _ _ => True) (plain .NAK false)
      [.connect 1 1 0, .connect 2 2 1, .record 1 (.create 7 5 0 5 []), .record 1 (.sync 7 5 [1])] _ :=
    .cons trivial rfl (.cons trivial rfl (.cons trivial rfl (.cons trivial rfl (.nil _))))
  refine ⟨_, _, hrun, fun h => ?_⟩
  have hrelevant := congrArg SyncEntityState.relevantTo (h.2 rfl 0 (by decide))
  revert hrelevant
  decide

end ServerGameState

end fx
