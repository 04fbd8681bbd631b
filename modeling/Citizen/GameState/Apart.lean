import Citizen.GameState.Frames

open Std

namespace fx

open sync

/-- What is kept of an entry when an update is forced. -/
def SyncedEntityData.kept (data : SyncedEntityData) : SyncEntityPtr × Bool × Bool :=
  (data.entity, data.hasCreated, data.hasNAckedCreate)

/-- The entity of an entry of `syncedEntities`, and whether it was created and refused. -/
def Client.kept (client : Client) (identPair : Nat × Nat) : Option (SyncEntityPtr × Bool × Bool) :=
  (client.syncedEntities[identPair]?).map SyncedEntityData.kept

/-- Whether a slot is in the sets of the entity. -/
def SyncEntityState.bits {Tree : Type*} (entity : SyncEntityState Tree) (slotId : Nat) :
    Bool × Bool × Bool × Option Bool :=
  (decide (slotId ∈ entity.relevantTo), decide (slotId ∈ entity.deletedFor), decide (slotId ∈ entity.outOfScopeFor),
    entity.stateBag.map fun targets => decide (slotId ∈ targets))

namespace ServerGameState

variable {Tree : Type*} {tree : SyncTreeBase Tree} {w w' w'' : ServerGameState Tree} {b c : ClientPtr}
  {e : SyncEntityPtr}

/-- The tables of a client and the bits of its slot are the same. -/
structure Apart (b : ClientPtr) (w w' : ServerGameState Tree) : Prop extends SameRegistry w w' where
  kept : ∀ identPair, (w'.clients b).kept identPair = (w.clients b).kept identPair
  entitiesToDestroy : (w'.clients b).entitiesToDestroy = (w.clients b).entitiesToDestroy
  frameStates : (w'.clients b).frameStates = (w.clients b).frameStates
  bits : ∀ e, (w'.entities e).bits (w.clients b).slotId = (w.entities e).bits (w.clients b).slotId

namespace Apart

theorem refl (w : ServerGameState Tree) : Apart b w w := ⟨.refl w, fun _ => rfl, rfl, rfl, fun _ => rfl⟩

theorem trans (h : Apart b w w') (h' : Apart b w' w'') : Apart b w w'' where
  toSameRegistry := h.toSameRegistry.trans h'.toSameRegistry
  kept p := (h'.kept p).trans (h.kept p)
  entitiesToDestroy := h'.entitiesToDestroy.trans h.entitiesToDestroy
  frameStates := h'.frameStates.trans h.frameStates
  bits e := by
    have hbits := h'.bits e
    rw [h.slotId] at hbits
    exact hbits.trans (h.bits e)

theorem ite {p : Prop} [Decidable p] (h : Apart b w w') : Apart b w (if p then w' else w) := by
  split
  · exact h
  · exact refl w

variable (h : Apart b w w')
include h

theorem relevantTo (e : SyncEntityPtr) :
    (w.clients b).slotId ∈ (w'.entities e).relevantTo ↔ (w.clients b).slotId ∈ (w.entities e).relevantTo :=
  decide_eq_decide.mp (congrArg (·.1) (h.bits e))

theorem deletedFor (e : SyncEntityPtr) :
    (w.clients b).slotId ∈ (w'.entities e).deletedFor ↔ (w.clients b).slotId ∈ (w.entities e).deletedFor :=
  decide_eq_decide.mp (congrArg (·.2.1) (h.bits e))

theorem stateBag (e : SyncEntityPtr) :
    (w'.entities e).stateBag.map (fun targets => decide ((w.clients b).slotId ∈ targets)) =
      (w.entities e).stateBag.map fun targets => decide ((w.clients b).slotId ∈ targets) :=
  congrArg (·.2.2.2) (h.bits e)

end Apart

theorem apart_modifyEntity (b : ClientPtr) (w : ServerGameState Tree) (e : SyncEntityPtr)
    {f : SyncEntityState Tree → SyncEntityState Tree} (hpair : (f (w.entities e)).pair = (w.entities e).pair)
    (hbits : (f (w.entities e)).bits (w.clients b).slotId = (w.entities e).bits (w.clients b).slotId) :
    Apart b w (w.modifyEntity e f) where
  toSameRegistry := sameRegistry_modifyEntity w e hpair
  kept _ := rfl
  entitiesToDestroy := rfl
  frameStates := rfl
  bits := modifyEntity_eq (fun entity => entity.bits (w.clients b).slotId) w e hbits

theorem apart_modifyClient (w : ServerGameState Tree) {b c : ClientPtr} {f : Client → Client} (hne : b ≠ c)
    (hidentity : (f (w.clients c)).identity = (w.clients c).identity) : Apart b w (w.modifyClient c f) := by
  have hsame := modifyClient_of_ne w f hne
  exact ⟨sameRegistry_modifyClient w c hidentity, fun _ => by rw [hsame], by rw [hsame], by rw [hsame], fun _ => rfl⟩

/-- A change of a client that leaves its tables alone. -/
theorem apart_modifyClient_self (b : ClientPtr) (w : ServerGameState Tree) (c : ClientPtr) {f : Client → Client}
    (hidentity : (f (w.clients c)).identity = (w.clients c).identity)
    (hkept : ∀ p, (f (w.clients c)).kept p = (w.clients c).kept p)
    (hdestroy : (f (w.clients c)).entitiesToDestroy = (w.clients c).entitiesToDestroy)
    (hframes : (f (w.clients c)).frameStates = (w.clients c).frameStates) : Apart b w (w.modifyClient c f) where
  toSameRegistry := sameRegistry_modifyClient w c hidentity
  kept p := modifyClient_eq (·.kept p) w c (hkept p) b
  entitiesToDestroy := modifyClient_eq _ w c hdestroy b
  frameStates := modifyClient_eq _ w c hframes b
  bits _ := rfl

/-- Forcing an update keeps the entry. -/
theorem kept_modify (table : SyncedEntities) (identPair identPair' : Nat × Nat)
    {f : SyncedEntityData → SyncedEntityData} (hf : ∀ data, (f data).kept = data.kept) :
    ((table.modify identPair f)[identPair']?).map SyncedEntityData.kept =
      (table[identPair']?).map SyncedEntityData.kept := by
  rw [TreeMap.getElem?_modify]
  split
  · rw [LawfulEqCmp.compare_eq_iff_eq] at *
    subst_vars
    have hkept : SyncedEntityData.kept ∘ f = SyncedEntityData.kept := funext hf
    rw [Option.map_map, hkept]
  · rfl

theorem apart_reassignEntity (b : ClientPtr) (w : ServerGameState Tree) (entityHandle : Nat)
    (targetClient : Option ClientPtr) : Apart b w (w.reassignEntity entityHandle targetClient) := by
  unfold reassignEntity
  split
  · exact .refl w
  · rename_i e _
    split
    · exact .refl w
    · apply (apart_modifyEntity b w e (f := fun entity =>
        { entity with lastMigratedAt := w.now, lastOwner := w.lock entity.client, client := targetClient })
          rfl rfl).trans
      refine ⟨⟨rfl, fun _ => rfl, fun _ => rfl⟩, fun p => ?_, rfl, rfl, fun _ => rfl⟩
      dsimp only [Client.kept]
      split
      · exact kept_modify _ _ _ fun _ => rfl
      · rfl

theorem apart_steal (b : ClientPtr) (w : ServerGameState Tree) (steals reassigns : Bool)
    (entityHandle objectId : Nat) :
    Apart b w
      (if steals then
        { (if steals && reassigns then w.reassignEntity entityHandle none else w) with
          objectIdsStolen := insert objectId
            (if steals && reassigns then w.reassignEntity entityHandle none else w).objectIdsStolen }
      else if steals && reassigns then w.reassignEntity entityHandle none else w) := by
  have hreassign : Apart b w (if steals && reassigns then w.reassignEntity entityHandle none else w) :=
    (apart_reassignEntity b w entityHandle none).ite
  generalize (if steals && reassigns then w.reassignEntity entityHandle none else w) = left at hreassign ⊢
  apply hreassign.trans
  exact Apart.ite ⟨⟨rfl, fun _ => rfl, fun _ => rfl⟩, fun _ => rfl, rfl, rfl, fun _ => rfl⟩

theorem apart_takeEntity (b : ClientPtr) (w : ServerGameState Tree) (c : ClientPtr) (e : SyncEntityPtr) :
    Apart b w (w.takeEntity c e) := by
  unfold takeEntity
  dsimp only
  split
  · exact (apart_modifyEntity b w e rfl rfl).trans (apart_reassignEntity b _ _ _)
  · exact .refl w

theorem apart_enterPlayer (b : ClientPtr) (w : ServerGameState Tree) (c : ClientPtr) (e : SyncEntityPtr) :
    Apart b w (w.enterPlayer c e) := by
  unfold enterPlayer
  split
  · exact apart_modifyClient_self b w c rfl (fun _ => rfl) rfl rfl
  · exact .refl w

theorem apart_leavePlayer (b : ClientPtr) (w : ServerGameState Tree) (c : ClientPtr) (e : SyncEntityPtr) :
    Apart b w (w.leavePlayer c e) := by
  unfold leavePlayer
  split
  · split
    · split
      · exact apart_modifyClient_self b w c rfl (fun _ => rfl) rfl rfl
      · exact .refl w
    · exact .refl w
  · exact .refl w

section Others

variable (hne : b ≠ c) (hslot : (w.clients b).slotId ≠ (w.clients c).slotId)
include hne

theorem apart_moveDeleting (w : ServerGameState Tree) (identPair : Nat × Nat) :
    Apart b w (moveDeleting c w identPair) := by
  unfold moveDeleting
  split
  · split
    · exact apart_modifyClient w hne rfl
    · exact .refl w
  · exact .refl w

include hslot

omit hne in
/-- Inserting or erasing one slot does not change the others' bits. -/
theorem bits_processDeletion (entity : SyncEntityState Tree) (outOfScope : Bool) :
    ({ entity with
      relevantTo := entity.relevantTo.erase (w.clients c).slotId
      deletedFor := if outOfScope then entity.deletedFor else insert (w.clients c).slotId entity.deletedFor
      outOfScopeFor := if outOfScope then insert (w.clients c).slotId entity.outOfScopeFor else entity.outOfScopeFor
      stateBag := entity.stateBag.map (·.erase (w.clients c).slotId) } : SyncEntityState Tree).bits
        (w.clients b).slotId =
      entity.bits (w.clients b).slotId := by
  unfold SyncEntityState.bits
  rw [Option.map_map]
  cases outOfScope <;> simp [hslot, Function.comp_def]

omit hne in
theorem apart_processDeletion (entityPair : Nat × Nat) : Apart b w (processDeletion tree c w entityPair) := by
  unfold processDeletion
  split
  · rename_i e deletionData _
    exact ((apart_modifyEntity b w e rfl (bits_processDeletion hslot (w.entities e) deletionData.outOfScope)).trans
      (apart_steal b _ _ _ _ _)).trans (apart_leavePlayer b _ c e)
  · exact .refl w

omit hne in
theorem apart_addRoutingTarget (e : SyncEntityPtr) : Apart b w (w.addRoutingTarget e (w.clients c).slotId) := by
  apply apart_modifyEntity
  · rfl
  · unfold SyncEntityState.bits
    rw [Option.map_map]
    simp [hslot, Function.comp_def]

theorem apart_deleteEntities : Apart b w (w.deleteEntities tree c) := by
  have hmove := Loop.keeps (Apart b) Apart.refl Apart.trans (apart_moveDeleting hne)
    (w.clients c).syncedEntities.keys w
  unfold deleteEntities
  dsimp only
  generalize (w.clients c).syncedEntities.keys.foldl (moveDeleting c) w = w' at hmove ⊢
  refine List.foldlRecOn _ _ hmove fun left hleft entityPair _ => hleft.trans (apart_processDeletion ?_ entityPair)
  rw [hleft.slotId, hleft.slotId]
  exact hslot

theorem apart_syncEntity (input : ScopeInput) (acc : ServerGameState Tree × List (Nat × SyncEntityPtr × Bool))
    (hacc : Apart b w acc.1) (identPair : Nat × Nat) : Apart b w (syncEntity input c acc identPair).1 := by
  unfold syncEntity
  dsimp only
  split
  · exact hacc
  · rename_i syncData _
    have htake := hacc.trans (apart_takeEntity b acc.1 c syncData.entity)
    generalize acc.1.takeEntity c syncData.entity = left at htake ⊢
    split
    · dsimp only
      exact htake.trans (apart_modifyClient left hne rfl)
    · generalize hplayer : (if syncData.hasCreated = true then left else left.enterPlayer c syncData.entity) = right
      have henter : Apart b w right := by
        rw [← hplayer]
        split
        · exact htake
        · exact htake.trans (apart_enterPlayer b left c syncData.entity)
      have hslot' : (right.clients b).slotId ≠ (right.clients c).slotId := by
        rw [henter.slotId, henter.slotId]
        exact hslot
      split
      · exact henter
      · dsimp only
        refine henter.trans (.trans (.ite (apart_addRoutingTarget hslot' syncData.entity)) (.ite ?_))
        exact apart_modifyClient _ hne rfl

theorem apart_tickClient (input : ScopeInput) : Apart b w (w.tickClient tree input c) := by
  unfold tickClient
  split
  · exact .refl w
  · have hdelete := @apart_deleteEntities _ tree _ _ _ hne hslot
    dsimp only
    generalize w.deleteEntities tree c = left at hdelete ⊢
    have hclear : Apart b w (if input.syncStyle = .NAK then
        left.modifyClient c fun client => { client with entitiesToDestroy := ∅ } else left) :=
      hdelete.trans (.ite (apart_modifyClient left hne rfl))
    generalize (if input.syncStyle = .NAK then
        left.modifyClient c fun client => { client with entitiesToDestroy := ∅ } else left) = right at hclear ⊢
    have hloop : ∀ l : List (Nat × Nat), Apart b w (l.foldl (syncEntity input c) (right, [])).1 := fun l =>
      @List.foldlRecOn _ _ (fun acc => Apart b w acc.1) l (syncEntity input c) (right, []) hclear
        fun acc hacc identPair _ => apart_syncEntity hne hslot input acc hacc identPair
    exact (hloop _).trans (apart_modifyClient _ hne rfl)

end Others

end ServerGameState

end fx
