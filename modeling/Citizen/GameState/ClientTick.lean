import Citizen.GameState.Apart

open Std

namespace fx

open sync

/-- The entity once it has left the table of a slot's client. -/
def SyncEntityState.clear {Tree : Type*} (entity : SyncEntityState Tree) (slotId : Nat) (outOfScope : Bool) :
    SyncEntityState Tree :=
  { entity with
    relevantTo := entity.relevantTo.erase slotId
    deletedFor := if outOfScope then entity.deletedFor else insert slotId entity.deletedFor
    outOfScopeFor := if outOfScope then insert slotId entity.outOfScopeFor else entity.outOfScopeFor
    stateBag := entity.stateBag.map (·.erase slotId) }

/-- Whether the entity's state bag is routed to a slot, when it has one. -/
def SyncEntityState.routed {Tree : Type*} (entity : SyncEntityState Tree) (slotId : Nat) : Option Bool :=
  entity.stateBag.map fun targets => decide (slotId ∈ targets)

namespace ServerGameState

variable {Tree : Type*} {tree : SyncTreeBase Tree} {w w' : ServerGameState Tree} {c : ClientPtr} {e : SyncEntityPtr}

/-- The entity of an entry, when it is being deleted. -/
def doomed (w : ServerGameState Tree) (c : ClientPtr) (identPair : Nat × Nat) : Option SyncEntityPtr :=
  ((w.clients c).syncedEntity identPair).filter fun e => (w.entities e).deleting

/-- An entry whose entity is being deleted moves from one table to the other. -/
theorem moveDeleting_self (w : ServerGameState Tree) (c : ClientPtr) (identPair : Nat × Nat) :
    ((moveDeleting c w identPair).clients c).syncedEntities[identPair]? =
        (if (w.doomed c identPair).isSome then none else (w.clients c).syncedEntities[identPair]?) ∧
      ((moveDeleting c w identPair).clients c).entitiesToDestroy[identPair]? =
        (match w.doomed c identPair with
          | some e => some (some e, ⟨false⟩)
          | none => (w.clients c).entitiesToDestroy[identPair]?) := by
  unfold moveDeleting doomed Client.syncedEntity
  cases hsynced : (w.clients c).syncedEntities[identPair]? with
  | none => exact ⟨hsynced, rfl⟩
  | some syncData =>
    dsimp only
    cases hdeleting : (w.entities syncData.entity).deleting with
    | true =>
      rw [if_pos rfl, modifyClient_self]
      simp [Option.filter_some, hdeleting]
    | false => simp [Option.filter_some, hdeleting, hsynced]

theorem moveDeleting_of_ne (w : ServerGameState Tree) (c : ClientPtr) {identPair identPair' : Nat × Nat}
    (hne : identPair ≠ identPair') :
    ((moveDeleting c w identPair).clients c).syncedEntities[identPair']? = (w.clients c).syncedEntities[identPair']? ∧
      ((moveDeleting c w identPair).clients c).entitiesToDestroy[identPair']? =
        (w.clients c).entitiesToDestroy[identPair']? := by
  unfold moveDeleting
  split
  · split
    · rw [modifyClient_self]
      dsimp only
      rw [TreeMap.getElem?_erase, TreeMap.getElem?_insert]
      simp [hne]
    · exact ⟨rfl, rfl⟩
  · exact ⟨rfl, rfl⟩

theorem moveDeleting_entities (w : ServerGameState Tree) (c : ClientPtr) (identPair : Nat × Nat) :
    (moveDeleting c w identPair).entities = w.entities := by
  unfold moveDeleting
  split
  · split <;> rfl
  · rfl

/-- The state once the entries of entities that are being deleted have moved. -/
def moveAll (w : ServerGameState Tree) (c : ClientPtr) : ServerGameState Tree :=
  (w.clients c).syncedEntities.keys.foldl (moveDeleting c) w

theorem nodup_keys {α β : Type*} {cmp : α → α → Ordering} [TransCmp cmp] (t : TreeMap α β cmp) : t.keys.Nodup := by
  have hdistinct := t.distinct_keys
  refine hdistinct.imp fun hne heq => ?_
  subst heq
  exact hne ReflCmp.compare_self

theorem moveAll_tables (w : ServerGameState Tree) (c : ClientPtr) (identPair : Nat × Nat) :
    ((w.moveAll c).clients c).syncedEntities[identPair]? =
        (if (w.doomed c identPair).isSome then none else (w.clients c).syncedEntities[identPair]?) ∧
      ((w.moveAll c).clients c).entitiesToDestroy[identPair]? =
        (match w.doomed c identPair with
          | some e => some (some e, ⟨false⟩)
          | none => (w.clients c).entitiesToDestroy[identPair]?) := by
  have hlook : ∀ s : ServerGameState Tree, s.entities = w.entities →
      (s.clients c).syncedEntities[identPair]? = (w.clients c).syncedEntities[identPair]? →
      s.doomed c identPair = w.doomed c identPair := by
    intro s hentities hsynced
    rw [doomed, doomed, hentities, Client.syncedEntity, Client.syncedEntity, hsynced]
  by_cases hkey : identPair ∈ (w.clients c).syncedEntities.keys
  · refine Prod.mk.inj (Loop.touched (fun s : ServerGameState Tree => s.entities = w.entities)
      (fun s => ((s.clients c).syncedEntities[identPair]?,
        (s.clients c).entitiesToDestroy[identPair]?)) hkey (nodup_keys _)
      (fun s h b _ => (moveDeleting_entities s c b).trans h) (fun s h hbefore => ?_) (fun s h b _ hne => ?_) w rfl rfl)
    · obtain ⟨hsynced, hdestroy⟩ := Prod.mk.inj hbefore
      have hself := moveDeleting_self s c identPair
      rw [hlook s h hsynced, hsynced, hdestroy] at hself
      exact Prod.ext hself.1 hself.2
    · have hother := moveDeleting_of_ne s c hne
      exact Prod.ext hother.1 hother.2
  · have hnone : (w.clients c).syncedEntities[identPair]? = none := by
      rw [TreeMap.mem_keys] at hkey
      exact TreeMap.getElem?_eq_none hkey
    have hloop := Loop.untouched (f := moveDeleting c) (fun _ => True)
      (fun s => ((s.clients c).syncedEntities[identPair]?, (s.clients c).entitiesToDestroy[identPair]?))
      (l := (w.clients c).syncedEntities.keys) (fun _ _ _ _ => trivial) (fun s _ b hb => ?_) w trivial
    · obtain ⟨hsynced, hdestroy⟩ := Prod.mk.inj hloop
      have hdoomed : w.doomed c identPair = none := by
        rw [doomed, Client.syncedEntity, hnone]
        rfl
      rw [hdoomed]
      exact ⟨hsynced, hdestroy⟩
    · have hother := moveDeleting_of_ne s c (fun heq : b = identPair => hkey (heq ▸ hb))
      exact Prod.ext hother.1 hother.2

/-- A deletion clears its entity, and does nothing else to the client's tables and bits. -/
theorem processDeletion_cases (tree : SyncTreeBase Tree) (w : ServerGameState Tree) (c : ClientPtr)
    (entityPair : Nat × Nat) :
    ((∀ e data, (w.clients c).entitiesToDestroy[entityPair]? ≠ some (some e, data)) ∧
        processDeletion tree c w entityPair = w) ∨
      ∃ e data, (w.clients c).entitiesToDestroy[entityPair]? = some (some e, data) ∧
        Apart c (w.modifyEntity e (·.clear (w.clients c).slotId data.outOfScope))
          (processDeletion tree c w entityPair) := by
  unfold processDeletion
  split
  · rename_i e data hentry
    exact .inr ⟨e, data, hentry, (apart_steal c _ _ _ _ _).trans (apart_leavePlayer c _ c e)⟩
  · rename_i hentry
    exact .inl ⟨fun e data heq => hentry e data heq, rfl⟩

/-- An entry of the list deletes the entity. -/
def Listed (w : ServerGameState Tree) (c : ClientPtr) (entityPairs : List (Nat × Nat)) (e : SyncEntityPtr) : Prop :=
  ∃ entityPair ∈ entityPairs, ∃ data, (w.clients c).entitiesToDestroy[entityPair]? = some (some e, data)

/-- What the loop over the deletions leaves of the client's tables and bits. -/
structure Cleared (w : ServerGameState Tree) (c : ClientPtr) (entityPairs : List (Nat × Nat))
    (w' : ServerGameState Tree) :
    Prop extends SameRegistry w w' where
  kept : ∀ identPair, (w'.clients c).kept identPair = (w.clients c).kept identPair
  entitiesToDestroy : (w'.clients c).entitiesToDestroy = (w.clients c).entitiesToDestroy
  relevantTo : ∀ e, (w.clients c).slotId ∈ (w'.entities e).relevantTo ↔
    (w.clients c).slotId ∈ (w.entities e).relevantTo ∧ ¬ w.Listed c entityPairs e
  deletedFor : ∀ e, (w.clients c).slotId ∈ (w'.entities e).deletedFor ↔
    (w.clients c).slotId ∈ (w.entities e).deletedFor ∨ ∃ entityPair ∈ entityPairs,
      (w.clients c).entitiesToDestroy[entityPair]? = some (some e, ⟨false⟩)
  routed : ∀ e, ¬ w.Listed c entityPairs e →
    (w'.entities e).routed (w.clients c).slotId = (w.entities e).routed (w.clients c).slotId
  unrouted : ∀ e, w.Listed c entityPairs e →
    (w'.entities e).routed (w.clients c).slotId = ((w.entities e).routed (w.clients c).slotId).map fun _ => false

theorem Listed.of_destroy {entityPairs : List (Nat × Nat)}
    (hdestroy : (w'.clients c).entitiesToDestroy = (w.clients c).entitiesToDestroy) :
    w'.Listed c entityPairs e ↔ w.Listed c entityPairs e := by
  rw [Listed, Listed, hdestroy]

theorem listed_append {first second : List (Nat × Nat)} :
    w.Listed c (first ++ second) e ↔ w.Listed c first e ∨ w.Listed c second e := by
  constructor
  · rintro ⟨entityPair, hmem, hentry⟩
    obtain hfirst | hsecond := List.mem_append.mp hmem
    · exact .inl ⟨entityPair, hfirst, hentry⟩
    · exact .inr ⟨entityPair, hsecond, hentry⟩
  · rintro (⟨entityPair, hmem, hentry⟩ | ⟨entityPair, hmem, hentry⟩)
    · exact ⟨entityPair, List.mem_append_left _ hmem, hentry⟩
    · exact ⟨entityPair, List.mem_append_right _ hmem, hentry⟩

namespace Cleared

variable {first second : List (Nat × Nat)} {w₁ w₂ : ServerGameState Tree}

theorem append (h : Cleared w c first w₁) (h' : Cleared w₁ c second w₂) : Cleared w c (first ++ second) w₂ := by
  have hslot := h.slotId c
  have hlisted : ∀ e, w₁.Listed c second e ↔ w.Listed c second e := fun e => Listed.of_destroy h.entitiesToDestroy
  refine ⟨h.toSameRegistry.trans h'.toSameRegistry, fun p => (h'.kept p).trans (h.kept p),
    h'.entitiesToDestroy.trans h.entitiesToDestroy, fun e => ?_, fun e => ?_, fun e hnone => ?_, fun e hsome => ?_⟩
  · have hrelevant := h'.relevantTo e
    rw [hslot, hlisted] at hrelevant
    rw [hrelevant, h.relevantTo e, listed_append, not_or, and_assoc]
  · have hdeleted := h'.deletedFor e
    rw [hslot, h.entitiesToDestroy] at hdeleted
    rw [hdeleted, h.deletedFor e, or_assoc]
    simp only [List.mem_append, or_and_right, exists_or]
  · rw [listed_append, not_or] at hnone
    have hrouted := h'.routed e ((hlisted e).not.mpr hnone.2)
    rw [hslot] at hrouted
    exact hrouted.trans (h.routed e hnone.1)
  · by_cases hsecond : w.Listed c second e
    · have hrouted := h'.unrouted e ((hlisted e).mpr hsecond)
      rw [hslot] at hrouted
      rw [hrouted]
      by_cases hfirst : w.Listed c first e
      · rw [h.unrouted e hfirst, Option.map_map]
        rfl
      · rw [h.routed e hfirst]
    · have hfirst := (listed_append.mp hsome).resolve_right hsecond
      have hrouted := h'.routed e ((hlisted e).not.mpr hsecond)
      rw [hslot] at hrouted
      exact hrouted.trans (h.unrouted e hfirst)

theorem refl (w : ServerGameState Tree) (c : ClientPtr) : Cleared w c [] w := by
  have hnone : ∀ e, ¬ w.Listed c [] e := fun e ⟨_, hmem, _⟩ => nomatch hmem
  exact ⟨.refl w, fun _ => rfl, rfl, fun e => by simp [hnone e], fun e => by simp, fun _ _ => rfl,
    fun e hlisted => absurd hlisted (hnone e)⟩

end Cleared

theorem clear_routed (entity : SyncEntityState Tree) (slotId : Nat) (outOfScope : Bool) :
    (entity.clear slotId outOfScope).routed slotId = (entity.routed slotId).map fun _ => false := by
  rw [SyncEntityState.routed, SyncEntityState.routed, SyncEntityState.clear, Option.map_map, Option.map_map]
  congr 1
  funext targets
  simp

/-- One deletion. -/
theorem cleared_one (w : ServerGameState Tree) (c : ClientPtr) (entityPair : Nat × Nat) :
    Cleared w c [entityPair] (processDeletion tree c w entityPair) := by
  obtain ⟨hnone, hsame⟩ | ⟨found, data, hentry, hapart⟩ := processDeletion_cases tree w c entityPair
  · have hlisted : ∀ e, ¬ w.Listed c [entityPair] e := by
      rintro e ⟨p, hp, data, hentry⟩
      rw [List.mem_singleton.mp hp] at hentry
      exact hnone e data hentry
    rw [hsame]
    refine ⟨.refl w, fun _ => rfl, rfl, fun e => by simp [hlisted e], fun e => ?_, fun _ _ => rfl,
      fun e h => absurd h (hlisted e)⟩
    simp [hnone e]
  · have hlisted : ∀ e, w.Listed c [entityPair] e ↔ e = found := by
      intro e
      constructor
      · rintro ⟨p, hp, data', hentry'⟩
        rw [List.mem_singleton.mp hp, hentry] at hentry'
        exact (Option.some.inj (Prod.mk.inj (Option.some.inj hentry')).1).symm
      · rintro rfl
        exact ⟨entityPair, List.mem_singleton_self _, data, hentry⟩
    generalize hw' : processDeletion tree c w entityPair = w' at hapart ⊢
    generalize hleft : w.modifyEntity found (·.clear (w.clients c).slotId data.outOfScope) = left at hapart
    have hclients : left.clients = w.clients := by rw [← hleft]; rfl
    have hself : left.entities found = (w.entities found).clear (w.clients c).slotId data.outOfScope := by
      rw [← hleft, modifyEntity_self]
    have hother : ∀ e ≠ found, left.entities e = w.entities e := fun e hne => by
      rw [← hleft, modifyEntity_of_ne w _ hne]
    have hregistry : SameRegistry w left := hleft ▸ sameRegistry_modifyEntity w found rfl
    have hslot : (left.clients c).slotId = (w.clients c).slotId := by rw [hclients]
    refine ⟨hregistry.trans hapart.toSameRegistry, fun p => ?_, ?_, fun e => ?_, fun e => ?_, fun e h => ?_,
      fun e h => ?_⟩
    · rw [hapart.kept, hclients]
    · rw [hapart.entitiesToDestroy, hclients]
    · have hrelevant := hapart.relevantTo e
      rw [hslot] at hrelevant
      rw [hrelevant, hlisted]
      by_cases he : e = found
      · rw [he, hself, SyncEntityState.clear]
        simp
      · rw [hother e he]
        simp [he]
    · have hdeleted := hapart.deletedFor e
      rw [hslot] at hdeleted
      rw [hdeleted]
      by_cases he : e = found
      · rw [he, hself, SyncEntityState.clear]
        obtain ⟨outOfScope⟩ := data
        cases outOfScope <;> simp [hentry]
      · rw [hother e he]
        have hne : found ≠ e := Ne.symm he
        simp [hentry, hne]
    · have hrouted : (w'.entities e).routed (left.clients c).slotId =
        (left.entities e).routed (left.clients c).slotId :=
        hapart.stateBag e
      rw [hslot] at hrouted
      rw [hrouted, hother e fun he => h ((hlisted e).mpr he)]
    · have hrouted : (w'.entities e).routed (left.clients c).slotId =
        (left.entities e).routed (left.clients c).slotId :=
        hapart.stateBag e
      rw [hslot] at hrouted
      rw [hrouted, (hlisted e).mp h, hself, clear_routed]

theorem cleared_loop (entityPairs : List (Nat × Nat)) (w : ServerGameState Tree) (c : ClientPtr) :
    Cleared w c entityPairs (entityPairs.foldl (processDeletion tree c) w) := by
  induction entityPairs generalizing w with
  | nil => exact .refl w c
  | cons entityPair entityPairs ih => exact (cleared_one w c entityPair).append (ih _)

/-- What a sync makes of an entry that it does not erase: a create that is sent counts as received when frames are
NAcked. -/
def sent (input : ScopeInput) (c : ClientPtr) (kept : SyncEntityPtr × Bool × Bool) : SyncEntityPtr × Bool × Bool :=
  (kept.1, kept.2.1 || (input.syncStyle == .NAK && !input.fakeSend c), kept.2.2)

/-- What the loop over the syncs leaves of the client's tables and bits. An entry that was not created may be
erased; if it is not, the entity's state bag is routed to the client. -/
structure SyncedBy (input : ScopeInput) (w : ServerGameState Tree) (c : ClientPtr) (identPairs : List (Nat × Nat))
    (w' : ServerGameState Tree) : Prop extends SameRegistry w w' where
  entitiesToDestroy : (w'.clients c).entitiesToDestroy = (w.clients c).entitiesToDestroy
  relevantTo : ∀ e, (w.clients c).slotId ∈ (w'.entities e).relevantTo ↔
    (w.clients c).slotId ∈ (w.entities e).relevantTo
  deletedFor : ∀ e, (w.clients c).slotId ∈ (w'.entities e).deletedFor ↔
    (w.clients c).slotId ∈ (w.entities e).deletedFor
  kept_of_notMem : ∀ identPair ∉ identPairs, (w'.clients c).kept identPair = (w.clients c).kept identPair
  kept : ∀ identPair ∈ identPairs, (w'.clients c).kept identPair = none ∨
    (w'.clients c).kept identPair = ((w.clients c).kept identPair).map (sent input c)
  created : ∀ identPair e nacked, (w.clients c).kept identPair = some (e, true, nacked) →
    (w'.clients c).kept identPair = some (e, true, nacked)
  routed : ∀ e, (w'.entities e).routed (w.clients c).slotId = (w.entities e).routed (w.clients c).slotId ∨
    (w'.entities e).routed (w.clients c).slotId = ((w.entities e).routed (w.clients c).slotId).map (fun _ => true) ∧
      ∃ identPair ∈ identPairs, ((w'.clients c).kept identPair).map (·.1) = some e
  forced : ∀ identPair ∈ identPairs, ∀ e nacked, (w.clients c).kept identPair = some (e, false, nacked) →
    (w'.clients c).kept identPair = none ∨
      (w'.entities e).routed (w.clients c).slotId = ((w.entities e).routed (w.clients c).slotId).map fun _ => true

/-- A state that looks the same to the client is the same for the syncs. -/
theorem SyncedBy.of_apart {input : ScopeInput} {identPair : Nat × Nat} (h : Apart c w w')
    (hcreated : ∀ e nacked, (w.clients c).kept identPair ≠ some (e, false, nacked)) :
    SyncedBy input w c [identPair] w' := by
  have hrouted : ∀ e, (w'.entities e).routed (w.clients c).slotId = (w.entities e).routed (w.clients c).slotId :=
    h.stateBag
  refine ⟨h.toSameRegistry, h.entitiesToDestroy, h.relevantTo, h.deletedFor, fun p _ => h.kept p, fun p hp => .inr ?_,
    fun p e nacked hp => (h.kept p).trans hp, fun e => .inl (hrouted e), fun p hp e nacked hkept => ?_⟩
  · rw [List.mem_singleton.mp hp, h.kept]
    cases hkept : (w.clients c).kept identPair with
    | none => rfl
    | some entry =>
      obtain ⟨e, created, nacked⟩ := entry
      cases created with
      | false => exact absurd hkept (hcreated e nacked)
      | true => rfl
  · rw [List.mem_singleton.mp hp] at hkept
    exact absurd hkept (hcreated e nacked)

theorem SyncedBy.after_apart {input : ScopeInput} {identPairs : List (Nat × Nat)} {left : ServerGameState Tree}
    (h : Apart c w left) (h' : SyncedBy input left c identPairs w') : SyncedBy input w c identPairs w' := by
  have hslot := h.slotId c
  have hrouted : ∀ e, (left.entities e).routed (w.clients c).slotId = (w.entities e).routed (w.clients c).slotId :=
    h.stateBag
  refine ⟨h.toSameRegistry.trans h'.toSameRegistry, h'.entitiesToDestroy.trans h.entitiesToDestroy,
    fun e => ?_, fun e => ?_, fun p hp => (h'.kept_of_notMem p hp).trans (h.kept p), fun p hp => ?_,
      fun p e nacked hkept => ?_, fun e => ?_,
    fun p hp e nacked hkept => ?_⟩
  · have hrelevant := h'.relevantTo e
    rw [hslot] at hrelevant
    exact hrelevant.trans (h.relevantTo e)
  · have hdeleted := h'.deletedFor e
    rw [hslot] at hdeleted
    exact hdeleted.trans (h.deletedFor e)
  · rw [← h.kept]
    exact h'.kept p hp
  · rw [← h.kept] at hkept
    exact h'.created p e nacked hkept
  · have hend := h'.routed e
    rw [hslot, hrouted] at hend
    exact hend
  · rw [← h.kept] at hkept
    have hend := h'.forced p hp e nacked hkept
    rw [hslot, hrouted] at hend
    exact hend

/-- A create that is refused. -/
theorem syncedBy_refused (input : ScopeInput) {identPair : Nat × Nat} {data : SyncedEntityData}
    (hkept : (w.clients c).kept identPair = some data.kept) (hcreated : data.hasCreated = false) :
    SyncedBy input w c [identPair]
      (w.modifyClient c fun client => { client with syncedEntities := client.syncedEntities.erase identPair }) := by
  have hself : ∀ p, ((w.modifyClient c fun client =>
      { client with syncedEntities := client.syncedEntities.erase identPair }).clients c).kept p =
        if identPair = p then none else (w.clients c).kept p := by
    intro p
    rw [modifyClient_self, Client.kept, Client.kept, TreeMap.getElem?_erase]
    by_cases hp : identPair = p <;> simp [hp]
  refine ⟨sameRegistry_modifyClient w c rfl, by rw [modifyClient_self], fun _ => .rfl, fun _ => .rfl, fun p hp => ?_,
    fun p hp => .inl ?_, fun p e nacked hp => ?_, fun e => .inl rfl, fun p hp e nacked _ => .inl ?_⟩
  · rw [hself, if_neg fun heq => hp (List.mem_singleton.mpr heq.symm)]
  · rw [hself, if_pos (List.mem_singleton.mp hp).symm]
  · rw [hself, if_neg, hp]
    rintro rfl
    rw [hkept, SyncedEntityData.kept, hcreated] at hp
    cases hp
  · rw [hself, if_pos (List.mem_singleton.mp hp).symm]

/-- A sync that is sent, or only due. -/
theorem syncedBy_send (input : ScopeInput) {identPair : Nat × Nat} {data : SyncedEntityData} (forceUpdate due : Bool)
    (hkept : (w.clients c).kept identPair = some data.kept) (hforce : data.hasCreated = false → forceUpdate = true) :
    SyncedBy input w c [identPair]
      (if forceUpdate then
        (if forceUpdate || due then w.addRoutingTarget data.entity (w.clients c).slotId else w).modifyClient c
          fun client =>
          { client with
            syncedEntities := client.syncedEntities.modify identPair fun data' =>
              { data' with
                forceUpdate := false
                hasCreated := data.hasCreated || (input.syncStyle == .NAK && !input.fakeSend c) } }
      else if forceUpdate || due then w.addRoutingTarget data.entity (w.clients c).slotId else w) := by
  have hregistry : SameRegistry w (w.addRoutingTarget data.entity (w.clients c).slotId) :=
    sameRegistry_modifyEntity w data.entity rfl
  have htarget : ∀ e, ((w.addRoutingTarget data.entity (w.clients c).slotId).entities e).routed (w.clients c).slotId =
      if e = data.entity then ((w.entities e).routed (w.clients c).slotId).map fun _ => true
      else (w.entities e).routed (w.clients c).slotId := by
    intro e
    unfold addRoutingTarget
    by_cases he : e = data.entity
    · rw [if_pos he, he, modifyEntity_self, SyncEntityState.routed, SyncEntityState.routed, Option.map_map,
        Option.map_map]
      congr 1
      funext targets
      simp
    · rw [if_neg he, modifyEntity_of_ne w _ he]
  have hrelevant : ∀ e, ((w.addRoutingTarget data.entity (w.clients c).slotId).entities e).relevantTo =
      (w.entities e).relevantTo := modifyEntity_eq SyncEntityState.relevantTo w data.entity rfl
  have hdeleted : ∀ e, ((w.addRoutingTarget data.entity (w.clients c).slotId).entities e).deletedFor =
      (w.entities e).deletedFor := modifyEntity_eq SyncEntityState.deletedFor w data.entity rfl
  have hrouted : ∀ e, ((w.addRoutingTarget data.entity (w.clients c).slotId).entities e).routed (w.clients c).slotId =
        (w.entities e).routed (w.clients c).slotId ∨
      ((w.addRoutingTarget data.entity (w.clients c).slotId).entities e).routed (w.clients c).slotId =
        ((w.entities e).routed (w.clients c).slotId).map (fun _ => true) ∧ e = data.entity := by
    intro e
    rw [htarget]
    by_cases he : e = data.entity
    · exact .inr ⟨if_pos he, he⟩
    · exact .inl (if_neg he)
  cases hforced : forceUpdate with
  | true =>
    have hclients : (w.addRoutingTarget data.entity (w.clients c).slotId).clients = w.clients := rfl
    rw [if_pos rfl, Bool.true_or, if_pos rfl]
    generalize w.addRoutingTarget data.entity (w.clients c).slotId =
      left at hregistry htarget hrelevant hdeleted hrouted hclients ⊢
    have hself : ∀ p, ((left.modifyClient c fun client =>
        { client with
          syncedEntities := client.syncedEntities.modify identPair fun data' =>
            { data' with
              forceUpdate := false
              hasCreated := data.hasCreated || (input.syncStyle == .NAK && !input.fakeSend c) } }).clients c).kept p =
          if identPair = p then some (sent input c data.kept) else (w.clients c).kept p := by
      intro p
      rw [modifyClient_self, hclients, Client.kept, TreeMap.getElem?_modify]
      by_cases hp : identPair = p
      · subst hp
        obtain ⟨data', hdata', hsame⟩ := Option.map_eq_some_iff.mp hkept
        have hentity : data'.entity = data.entity := congrArg (·.1) hsame
        have hnacked : data'.hasNAckedCreate = data.hasNAckedCreate := congrArg (·.2.2) hsame
        simp [hdata', sent, SyncedEntityData.kept, hentity, hnacked]
      · simp [hp, Client.kept]
    refine ⟨hregistry.trans (sameRegistry_modifyClient left c rfl), by rw [modifyClient_self, hclients], fun e => ?_,
      fun e => ?_, fun p hp => ?_, fun p hp => .inr ?_, fun p e nacked hp => ?_, fun e => ?_,
        fun p hp e nacked heq => .inr ?_⟩
    · rw [modifyClient_entities, hrelevant]
    · rw [modifyClient_entities, hdeleted]
    · rw [hself, if_neg fun heq => hp (List.mem_singleton.mpr heq.symm)]
    · rw [List.mem_singleton.mp hp, hself, if_pos rfl, hkept]
      rfl
    · rw [hself]
      by_cases heq : identPair = p
      · rw [if_pos heq]
        rw [← heq, hkept] at hp
        rw [Option.some.inj hp]
        rfl
      · rw [if_neg heq, hp]
    · obtain hsame | ⟨htrue, rfl⟩ := hrouted e
      · exact .inl hsame
      · refine .inr ⟨htrue, identPair, List.mem_singleton_self _, ?_⟩
        rw [hself, if_pos rfl]
        rfl
    · rw [List.mem_singleton.mp hp, hkept] at heq
      have hentity : data.entity = e := congrArg (·.1) (Option.some.inj heq)
      rw [modifyClient_entities, htarget, if_pos hentity.symm]
  | false =>
    have hcreated : data.hasCreated = true := by
      by_contra hnot
      rw [hforce (Bool.not_eq_true _ ▸ hnot)] at hforced
      cases hforced
    have hsent : sent input c data.kept = data.kept := by
      rw [sent, SyncedEntityData.kept, hcreated]
      rfl
    have hnot : ∀ e nacked, (w.clients c).kept identPair ≠ some (e, false, nacked) := by
      intro e nacked heq
      rw [hkept, SyncedEntityData.kept, hcreated] at heq
      cases heq
    cases due with
    | false => exact .of_apart (.refl w) hnot
    | true =>
      rw [if_neg Bool.false_ne_true, Bool.false_or, if_pos rfl]
      refine ⟨hregistry, rfl,
        fun e => by rw [hrelevant], fun e => by rw [hdeleted], fun _ _ => rfl, fun p hp => .inr ?_, fun _ _ _ hp => hp,
        fun e => ?_, fun p hp e nacked heq => ?_⟩
      · rw [List.mem_singleton.mp hp]
        dsimp only [addRoutingTarget, modifyEntity_clients]
        rw [hkept, Option.map_some, hsent]
      · obtain hsame | ⟨htrue, rfl⟩ := hrouted e
        · exact .inl hsame
        · refine .inr ⟨htrue, identPair, List.mem_singleton_self _, ?_⟩
          dsimp only [addRoutingTarget, modifyEntity_clients]
          rw [hkept]
          rfl
      · rw [List.mem_singleton.mp hp] at heq
        exact absurd heq (hnot e nacked)

theorem kept_eq_some {client : Client} {identPair : Nat × Nat} {data : SyncedEntityData}
    (h : client.syncedEntities[identPair]? = some data) : client.kept identPair = some data.kept := by
  rw [Client.kept, h]
  rfl

/-- One sync. -/
theorem syncedBy_one (input : ScopeInput) (c : ClientPtr)
    (acc : ServerGameState Tree × List (Nat × SyncEntityPtr × Bool)) (identPair : Nat × Nat) :
    SyncedBy input acc.1 c [identPair] (syncEntity input c acc identPair).1 := by
  obtain ⟨w, synced⟩ := acc
  unfold syncEntity
  dsimp only
  cases hentry : (w.clients c).syncedEntities[identPair]? with
  | none =>
    refine .of_apart (.refl w) fun e nacked hkept => ?_
    rw [Client.kept, hentry] at hkept
    cases hkept
  | some syncData =>
    dsimp only
    have htake := apart_takeEntity c w c syncData.entity
    have hkept := (htake.kept identPair).trans (kept_eq_some hentry)
    apply SyncedBy.after_apart htake
    generalize w.takeEntity c syncData.entity = left at hkept ⊢
    split
    · rename_i hrefused
      rw [Bool.and_eq_true, Bool.not_eq_true'] at hrefused
      exact syncedBy_refused input hkept hrefused.1
    · generalize hplayer : (if syncData.hasCreated = true then left else left.enterPlayer c syncData.entity) = right
      have henter : Apart c left right := by
        rw [← hplayer]
        split
        · exact .refl left
        · exact apart_enterPlayer c left c syncData.entity
      have hkept' := (henter.kept identPair).trans hkept
      apply SyncedBy.after_apart henter
      generalize hforce : (((right.clients c).syncedEntities[identPair]?).any (·.forceUpdate) ||
        !syncData.hasCreated ||
          decide ((right.entities syncData.entity).timestamp ≤
            (right.entities syncData.entity).lastOutOfBandTimestamp)) = forceUpdate
      split
      · rename_i hskip
        refine .of_apart (.refl right) fun e nacked hcreated => ?_
        rw [hkept'] at hcreated
        have hcreated' : syncData.hasCreated = false := congrArg (·.2.1) (Option.some.inj hcreated)
        rw [← hforce, hcreated'] at hskip
        simp at hskip
      · exact syncedBy_send input forceUpdate (input.due c syncData.entity) hkept' fun hcreated => by
          rw [← hforce, hcreated]
          simp

/-- Syncs of different entries follow each other. -/
theorem SyncedBy.append {input : ScopeInput} {first second : List (Nat × Nat)} {w₁ w₂ : ServerGameState Tree}
    (h : SyncedBy input w c first w₁) (h' : SyncedBy input w₁ c second w₂) (hdisjoint : ∀ p ∈ first, p ∉ second) :
    SyncedBy input w c (first ++ second) w₂ := by
  have hslot := h.slotId c
  have hrouted' := h'.routed
  have hforced' := h'.forced
  simp only [hslot] at hrouted' hforced'
  have htwice : ∀ routed : Option Bool, (routed.map fun _ => true).map (fun _ => true) = routed.map fun _ => true :=
    fun routed => by rw [Option.map_map]; rfl
  have hkeep : ∀ p ∈ first, (w₂.clients c).kept p = (w₁.clients c).kept p :=
    fun p hp => h'.kept_of_notMem p (hdisjoint p hp)
  have hnew : ∀ p ∈ second, (w₁.clients c).kept p = (w.clients c).kept p :=
    fun p hp => h.kept_of_notMem p fun hfirst => hdisjoint p hfirst hp
  refine ⟨h.toSameRegistry.trans h'.toSameRegistry, h'.entitiesToDestroy.trans h.entitiesToDestroy, fun e => ?_,
    fun e => ?_, fun p hp => ?_, fun p hp => ?_, fun p e nacked hkept =>
      h'.created p e nacked (h.created p e nacked hkept),
    fun e => ?_, fun p hp e nacked hkept => ?_⟩
  · have hrelevant := h'.relevantTo e
    rw [hslot] at hrelevant
    exact hrelevant.trans (h.relevantTo e)
  · have hdeleted := h'.deletedFor e
    rw [hslot] at hdeleted
    exact hdeleted.trans (h.deletedFor e)
  · obtain ⟨hfirst, hsecond⟩ := not_or.mp (List.mem_append.not.mp hp)
    exact (h'.kept_of_notMem p hsecond).trans (h.kept_of_notMem p hfirst)
  · obtain hfirst | hsecond := List.mem_append.mp hp
    · rw [hkeep p hfirst]
      exact h.kept p hfirst
    · rw [← hnew p hsecond]
      exact h'.kept p hsecond
  · obtain hsecond | ⟨hsecond, p, hp, hentity⟩ := hrouted' e
    · obtain hfirst | ⟨hfirst, p, hp, hentity⟩ := h.routed e
      · exact .inl (hsecond.trans hfirst)
      · refine .inr ⟨hsecond.trans hfirst, p, List.mem_append_left _ hp, ?_⟩
        rw [hkeep p hp]
        exact hentity
    · refine .inr ⟨?_, p, List.mem_append_right _ hp, hentity⟩
      obtain hfirst | ⟨hfirst, _⟩ := h.routed e
      · rw [hsecond, hfirst]
      · rw [hsecond, hfirst, htwice]
  · obtain hfirst | hsecond := List.mem_append.mp hp
    · obtain hnone | htrue := h.forced p hfirst e nacked hkept
      · exact .inl ((hkeep p hfirst).trans hnone)
      · obtain hsame | ⟨htrue', _⟩ := hrouted' e
        · exact .inr (hsame.trans htrue)
        · exact .inr (by rw [htrue', htrue, htwice])
    · rw [← hnew p hsecond] at hkept
      obtain hnone | htrue := hforced' p hsecond e nacked hkept
      · exact .inl hnone
      · obtain hsame | ⟨htrue', _⟩ := h.routed e
        · exact .inr (by rw [htrue, hsame])
        · exact .inr (by rw [htrue, htrue', htwice])

theorem syncedBy_loop (input : ScopeInput) (c : ClientPtr) {identPairs : List (Nat × Nat)} (hnodup : identPairs.Nodup)
    (acc : ServerGameState Tree × List (Nat × SyncEntityPtr × Bool)) :
    SyncedBy input acc.1 c identPairs (identPairs.foldl (syncEntity input c) acc).1 := by
  induction identPairs generalizing acc with
  | nil =>
    exact ⟨.refl _, rfl, fun _ => .rfl, fun _ => .rfl, fun _ _ => rfl, (fun _ hp => nomatch hp), fun _ _ _ hp => hp,
      fun _ => .inl rfl, (fun _ hp => nomatch hp)⟩
  | cons identPair identPairs ih =>
    obtain ⟨hnew, hnodup⟩ := List.nodup_cons.mp hnodup
    refine (syncedBy_one input c acc identPair).append (ih hnodup _) fun p hp => ?_
    rw [List.mem_singleton.mp hp]
    exact hnew

/-- The two loops of the deletions. -/
theorem deleteEntities_cleared (tree : SyncTreeBase Tree) (w : ServerGameState Tree) (c : ClientPtr) :
    Cleared (w.moveAll c) c ((w.moveAll c).clients c).entitiesToDestroy.keys (w.deleteEntities tree c) :=
  cleared_loop _ (w.moveAll c) c

end ServerGameState

end fx
