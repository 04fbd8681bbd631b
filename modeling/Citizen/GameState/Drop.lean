import Citizen.GameState.Ownership

open Std

namespace fx

open sync

namespace ServerGameState

variable {Tree : Type*} {tree : SyncTreeBase Tree} {distance : SyncEntityPtr → ClientPtr → Nat}
variable {w w' : ServerGameState Tree} {c : ClientPtr} {e : SyncEntityPtr}

/-- What a drop is for: the client's entities go to a connected client or to nobody, or are being deleted, and those
of another connected client keep their owner and their deleting flag. The client itself has left the registry. -/
structure HandsOver (c : ClientPtr) (w w' : ServerGameState Tree) : Prop where
  own : ∀ e ∈ w.entityList, (w.entities e).client = some c →
    (w'.entities e).deleting = true ∨ (w'.entities e).client = none ∨
      ∃ owner ∈ w'.connected, owner ≠ c ∧ (w'.entities e).client = some owner
  other : ∀ e ∈ w.entityList, ∀ owner ∈ w.connected, owner ≠ c → (w.entities e).client = some owner →
    (w'.entities e).client = some owner ∧ (w'.entities e).deleting = (w.entities e).deleting

/-- A pickup placement at x and y 0. -/
def isTransient (tree : SyncTreeBase Tree) (entity : SyncEntityState Tree) : Prop :=
  entity.type = .PickupPlacement ∧ tree.atOrigin entity.syncTree = true

/-- A client script made the entity, nobody in its scope can take it over, and its first owner, whose drop has not
run yet, is another client than the one that drops. -/
structure GoesBack (tree : SyncTreeBase Tree) (w : ServerGameState Tree) (c : ClientPtr) (slotId : Nat)
    (entity : SyncEntityState Tree) (owner : ClientPtr) : Prop where
  script : entity.isOwnedByClientScript tree = true
  candidates : w.candidates c (entity.dropSlot slotId).relevantTo = []
  firstOwner : w.lock entity.firstOwner = some owner
  firstOwnerDropped : entity.firstOwnerDropped = false
  netId : (w.clients owner).netId ≠ (w.clients c).netId

theorem isOwnedByClientScript_type {entity : SyncEntityState Tree} (h : entity.isOwnedByClientScript tree = true) :
    entity.type.hasScriptInfo = true ∧ entity.creationToken = 0 := by
  obtain ⟨hscript, htoken⟩ := Bool.and_eq_true_iff.mp h
  exact ⟨(Bool.and_eq_true_iff.mp hscript).1, beq_iff_eq.mp htoken⟩

theorem mem_candidates {candidate : ClientPtr} {relevantTo : Finset Nat} (h : candidate ∈ w.candidates c relevantTo) :
    candidate ∈ w.connected := by
  obtain ⟨slotId, _, hslot⟩ := List.mem_filterMap.mp (List.mem_of_mem_take h)
  exact (getClientBySlotID_some (Option.filter_eq_some_iff.mp hslot).1).1

theorem SameRegistry.candidates (h : SameRegistry w w') (c : ClientPtr) (relevantTo : Finset Nat) :
    w'.candidates c relevantTo = w.candidates c relevantTo := by
  unfold ServerGameState.candidates
  simp only [h.getClientBySlotID]

theorem goesBack_of_same {slotId : Nat} {entity : SyncEntityState Tree} {owner : ClientPtr} (h : SameRegistry w w') :
    GoesBack tree w' c slotId entity owner ↔ GoesBack tree w c slotId entity owner := by
  have hiff : ∀ {w : ServerGameState Tree}, GoesBack tree w c slotId entity owner ↔
      entity.isOwnedByClientScript tree = true ∧ w.candidates c (entity.dropSlot slotId).relevantTo = [] ∧
        w.lock entity.firstOwner = some owner ∧ entity.firstOwnerDropped = false ∧
          (w.clients owner).netId ≠ (w.clients c).netId :=
    ⟨fun ⟨h₁, h₂, h₃, h₄, h₅⟩ => ⟨h₁, h₂, h₃, h₄, h₅⟩, fun ⟨h₁, h₂, h₃, h₄, h₅⟩ => ⟨h₁, h₂, h₃, h₄, h₅⟩⟩
  rw [hiff, hiff, h.candidates, h.lock, h.netId, h.netId]

/-- What `MoveEntityToCandidate` does with an entity. -/
inductive Moves (tree : SyncTreeBase Tree) (w : ServerGameState Tree) (c : ClientPtr) (e : SyncEntityPtr) :
    Bool × ServerGameState Tree → Prop
  | transient (h : isTransient tree (w.entities e)) : Moves tree w c e (false, w)
  | owned (owner : ClientPtr) (h : ¬ isTransient tree (w.entities e))
    (howner : w.lock (w.entities e).client = some owner) (hne : owner ≠ c) : Moves tree w c e (true, w)
  | candidate (target : ClientPtr) (h : ¬ isTransient tree (w.entities e))
    (hown : ∀ owner, w.lock (w.entities e).client = some owner → owner = c) (hplayer : (w.entities e).type ≠ .Player)
    (hmem : target ∈ w.candidates c (w.entities e).relevantTo) :
    Moves tree w c e (true, w.reassignEntity (w.entities e).handle (some target))
  | unowned (h : ¬ isTransient tree (w.entities e))
    (hown : ∀ owner, w.lock (w.entities e).client = some owner → owner = c)
    (hscript : (w.entities e).isOwnedByServerScript tree = true) :
    Moves tree w c e (true, w.reassignEntity (w.entities e).handle none)
  | refused (h : ¬ isTransient tree (w.entities e))
    (hown : ∀ owner, w.lock (w.entities e).client = some owner → owner = c)
    (hnone : (w.entities e).type ≠ .Player → w.candidates c (w.entities e).relevantTo = []) :
    Moves tree w c e (false, w)

theorem moves_moveEntityToCandidate (tree : SyncTreeBase Tree) (distance : SyncEntityPtr → ClientPtr → Nat)
    (w : ServerGameState Tree) (c : ClientPtr) (e : SyncEntityPtr) :
    Moves tree w c e (w.moveEntityToCandidate tree distance c e) := by
  unfold moveEntityToCandidate
  dsimp only
  split
  · exact .transient ‹_›
  · rename_i htransient
    split
    · rename_i howner
      obtain ⟨owner, hlock, hne⟩ := (Option.any_eq_true _ _).mp howner
      exact .owned owner htransient hlock (of_decide_eq_true hne)
    · rename_i howner
      have hown : ∀ owner, w.lock (w.entities e).client = some owner → owner = c := fun owner hlock => by
        rw [hlock, Option.any_some, decide_eq_true_iff, not_not] at howner
        exact howner
      generalize hcandidate : (if (w.entities e).type = .Player then none
        else (w.candidates c (w.entities e).relevantTo).argmin (distance e)) = candidate
      cases candidate with
      | some candidate =>
        obtain ⟨hplayer, hargmin⟩ := Option.ite_none_left_eq_some.mp hcandidate
        exact .candidate candidate htransient hown hplayer (List.argmin_mem hargmin)
      | none =>
        dsimp only
        split
        · exact .unowned htransient hown ‹_›
        · refine .refused htransient hown fun hplayer => ?_
          rw [if_neg hplayer] at hcandidate
          exact List.argmin_eq_none.mp hcandidate

/-- A reassigned entity has its new owner, and little else changes in it. -/
theorem reassignEntity_entities {entityHandle : Nat} (hbyId : w.entitiesById entityHandle = some e)
    (hplayer : (w.entities e).type ≠ .Player) (targetClient : Option ClientPtr) :
    (w.reassignEntity entityHandle targetClient).entities e =
      { w.entities e with
        lastMigratedAt := w.now, lastOwner := w.lock (w.entities e).client, client := targetClient } := by
  unfold reassignEntity
  rw [hbyId]
  dsimp only
  rw [if_neg hplayer]
  dsimp only
  rw [modifyEntity_self]

/-- What one round of a drop makes of its entity, and whether the entity is to be erased. -/
structure Dropped (tree : SyncTreeBase Tree) (w : ServerGameState Tree) (c : ClientPtr) (slotId : Nat)
    (entity entity' : SyncEntityState Tree) (erased : Prop) : Prop where
  deleting : entity'.deleting = entity.deleting
  own : entity.client = some c →
    (∀ owner, ¬ GoesBack tree w c slotId entity owner) ∧
        (erased ∨ entity'.client = none ∨ ∃ owner ∈ w.connected, entity'.client = some owner) ∨
      ∃ owner, GoesBack tree w c slotId entity owner ∧ ¬ erased ∧ entity'.client = some owner
  other : ∀ owner ∈ w.alive, owner ≠ c → entity.client = some owner →
    entity'.client = entity.client ∧ (erased ↔ isTransient tree entity)

theorem Dropped.of_same {slotId : Nat} {entity entity' : SyncEntityState Tree} {erased : Prop}
    (hsame : SameRegistry w w') (h : Dropped tree w' c slotId entity entity' erased) :
    Dropped tree w c slotId entity entity' erased where
  deleting := h.deleting
  own := by
    simp only [← goesBack_of_same hsame, ← hsame.connected]
    exact h.own
  other := by
    rw [← hsame.alive]
    exact h.other

/-- The entity of a round, before it moves. -/
theorem dropSlot_eq (entity : SyncEntityState Tree) (slotId : Nat) : ∃ deletedFor outOfScopeFor,
    entity.dropSlot slotId =
      { entity with relevantTo := (entity.dropSlot slotId).relevantTo, deletedFor, outOfScopeFor } := by
  unfold SyncEntityState.dropSlot
  split
  · exact ⟨_, _, rfl⟩
  · exact ⟨_, _, rfl⟩

/-- A transient pickup is no script's. -/
theorem not_goesBack_of_isTransient {slotId : Nat} {entity : SyncEntityState Tree} {owner : ClientPtr}
    (h : isTransient tree entity) : ¬ GoesBack tree w c slotId entity owner := by
  intro hback
  have hinfo := (isOwnedByClientScript_type hback.script).1
  rw [h.1] at hinfo
  cases hinfo

/-- The round of an entity has begun: the slot has left its sets, and its first owner may have dropped. -/
structure Leaving (w left : ServerGameState Tree) (c : ClientPtr) (slotId : Nat) (e : SyncEntityPtr) : Prop where
  same : SameRegistry w left
  others : ∀ e' ≠ e, left.entities e' = w.entities e'
  self : left.entities e = { (w.entities e).dropSlot slotId with
    firstOwnerDropped := (w.entities e).firstOwnerDropped ||
      (w.lock (w.entities e).firstOwner).any fun owner => (w.clients owner).netId == (w.clients c).netId }

namespace Leaving

variable {left : ServerGameState Tree} {slotId : Nat}

/-- What does not look at the sets or at the first owner's drop is as it was. -/
theorem eq_of (h : Leaving w left c slotId e) {α : Type*} (field : SyncEntityState Tree → α)
    (hfield : ∀ (entity : SyncEntityState Tree) (relevantTo deletedFor outOfScopeFor : Finset Nat) (dropped : Bool),
      field { entity with relevantTo, deletedFor, outOfScopeFor, firstOwnerDropped := dropped } = field entity) :
    field (left.entities e) = field (w.entities e) := by
  obtain ⟨deletedFor, outOfScopeFor, hdrop⟩ := dropSlot_eq (w.entities e) slotId
  rw [h.self, hdrop]
  exact hfield (w.entities e) _ _ _ _

theorem client (h : Leaving w left c slotId e) : (left.entities e).client = (w.entities e).client :=
  h.eq_of (·.client) fun _ _ _ _ _ => rfl

theorem deleting (h : Leaving w left c slotId e) : (left.entities e).deleting = (w.entities e).deleting :=
  h.eq_of (·.deleting) fun _ _ _ _ _ => rfl

theorem creationToken (h : Leaving w left c slotId e) :
    (left.entities e).creationToken = (w.entities e).creationToken :=
  h.eq_of (·.creationToken) fun _ _ _ _ _ => rfl

theorem isTransient_iff (h : Leaving w left c slotId e) :
    isTransient tree (left.entities e) ↔ isTransient tree (w.entities e) :=
  iff_of_eq (h.eq_of (isTransient tree) fun _ _ _ _ _ => rfl)

theorem isOwnedByClientScript (h : Leaving w left c slotId e) :
    (left.entities e).isOwnedByClientScript tree = (w.entities e).isOwnedByClientScript tree :=
  h.eq_of (SyncEntityState.isOwnedByClientScript tree) fun _ _ _ _ _ => rfl

theorem candidates (h : Leaving w left c slotId e) : left.candidates c (left.entities e).relevantTo =
    w.candidates c ((w.entities e).dropSlot slotId).relevantTo := by
  rw [h.same.candidates, h.self]

/-- Another client's entity is not one of the dropped client's, or of nobody's. -/
theorem not_other (h : Leaving w left c slotId e)
    (hown : ∀ owner, left.lock (left.entities e).client = some owner → owner = c) :
    ∀ owner ∈ w.alive, owner ≠ c → (w.entities e).client ≠ some owner := by
  rw [h.same.lock, h.client] at hown
  exact fun owner halive hne howner => hne (hown owner (lock_eq_some.mpr ⟨howner, halive⟩))

/-- The entity is to be erased. -/
theorem erased (h : Leaving w left c slotId e) (hnot : ∀ owner, ¬ GoesBack tree w c slotId (w.entities e) owner)
    (hother : ∀ owner ∈ w.alive, owner ≠ c → (w.entities e).client = some owner → isTransient tree (w.entities e)) :
    Dropped tree w c slotId (w.entities e) (left.entities e) (true = true) :=
  ⟨h.deleting, fun _ => .inl ⟨hnot, .inl rfl⟩, fun owner halive hne howner =>
    ⟨h.client, iff_of_true rfl (hother owner halive hne howner)⟩⟩

/-- The entity stays with another client. -/
theorem stays (h : Leaving w left c slotId e) (htransient : ¬ isTransient tree (w.entities e)) {owner : ClientPtr}
    (howner : (w.entities e).client = some owner) (hne : owner ≠ c) :
    Dropped tree w c slotId (w.entities e) (left.entities e) (false = true) := by
  refine ⟨h.deleting, fun hc => ?_, fun _ _ _ _ => ⟨h.client, iff_of_false Bool.false_ne_true htransient⟩⟩
  rw [howner] at hc
  exact absurd (Option.some.inj hc) hne

/-- The entity, which is no other client's, is given to a client or to nobody. -/
theorem given (h : Leaving w left c slotId e) (hbyId : left.entitiesById (left.entities e).handle = some e)
    (hplayer : (left.entities e).type ≠ .Player)
    (hown : ∀ owner, left.lock (left.entities e).client = some owner → owner = c) {target : Option ClientPtr}
    (htarget : (∀ owner, ¬ GoesBack tree w c slotId (w.entities e) owner) ∧
        (∀ owner, target = some owner → owner ∈ w.connected) ∨
      ∃ owner, GoesBack tree w c slotId (w.entities e) owner ∧ target = some owner) :
    Dropped tree w c slotId (w.entities e) ((left.reassignEntity (left.entities e).handle target).entities e)
      (false = true) := by
  rw [reassignEntity_entities hbyId hplayer]
  refine ⟨h.deleting, fun _ => ?_, fun owner halive hne howner => absurd howner (h.not_other hown owner halive hne)⟩
  obtain ⟨hnone, hconnected⟩ | ⟨owner, hback, htarget⟩ := htarget
  · refine .inl ⟨hnone, .inr ?_⟩
    cases target with
    | none => exact .inl rfl
    | some owner => exact .inr ⟨owner, hconnected owner rfl, rfl⟩
  · exact .inr ⟨owner, hback, Bool.false_ne_true, htarget⟩

/-- The entity is nobody's to take over: it goes back to its first owner. -/
theorem givenBack (h : Leaving w left c slotId e) (hbyId : left.entitiesById (left.entities e).handle = some e)
    (hown : ∀ owner, left.lock (left.entities e).client = some owner → owner = c)
    (hnone : (left.entities e).type ≠ .Player → left.candidates c (left.entities e).relevantTo = [])
    (hscript : (left.entities e).isOwnedByClientScript tree = true)
    (hdropped : (left.entities e).firstOwnerDropped = false) :
    Dropped tree w c slotId (w.entities e)
      ((left.reassignEntity (left.entities e).handle (w.lock (w.entities e).firstOwner)).entities e)
      (false = true) := by
  have hplayer : (left.entities e).type ≠ .Player := fun hplayer => by
    have hinfo := (isOwnedByClientScript_type hscript).1
    rw [hplayer] at hinfo
    cases hinfo
  refine h.given hbyId hplayer hown ?_
  rw [h.self, Bool.or_eq_false_iff] at hdropped
  obtain ⟨hdropped, hothers⟩ := hdropped
  cases hfirst : w.lock (w.entities e).firstOwner with
  | none =>
    refine .inl ⟨fun owner hback => ?_, fun _ heq => nomatch heq⟩
    have hfound := hback.firstOwner
    rw [hfirst] at hfound
    cases hfound
  | some owner =>
    rw [hfirst, Option.any_some, beq_eq_false_iff_ne] at hothers
    exact .inr ⟨owner, ⟨h.isOwnedByClientScript ▸ hscript, h.candidates ▸ hnone hplayer, hfirst, hdropped, hothers⟩,
      rfl⟩

end Leaving

/-- One round: only its entity changes, and its handle is added when it is to be erased. -/
theorem dropEntity_spec (slotId : Nat) (h : w.Consistent) (he : e ∈ w.entityList) (toErase : List Nat) :
    (∀ e' ≠ e, (dropEntity tree distance c slotId (w, toErase) e).1.entities e' = w.entities e') ∧
      ∃ erased : Bool, (dropEntity tree distance c slotId (w, toErase) e).2 =
          toErase ++ (if erased then [(w.entities e).handle] else []) ∧
        Dropped tree w c slotId (w.entities e)
          ((dropEntity tree distance c slotId (w, toErase) e).1.entities e) erased := by
  unfold dropEntity
  dsimp only
  generalize hleft : w.modifyEntity e _ = left
  have hleaving : Leaving w left c slotId e :=
    hleft ▸ ⟨sameRegistry_modifyEntity w e (dropSlot_pair _ slotId), fun _ hne => modifyEntity_of_ne w _ hne,
      modifyEntity_self ..⟩
  have hbyId : left.entitiesById (left.entities e).handle = some e := by
    rw [hleaving.same.entitiesById, hleaving.same.handle]
    exact h.byId e he
  have hmoved : ∀ target, ∀ e' ≠ e, (left.reassignEntity (left.entities e).handle target).entities e' =
    w.entities e' := by
    intro target e' hne
    rw [reassignEntity_entities_of_ne, hleaving.others e' hne]
    rw [hbyId]
    exact fun heq => hne (Option.some.inj heq).symm
  have hhandle : toErase ++ [(left.entities e).handle] =
      toErase ++ if true = true then [(w.entities e).handle] else [] := by
    rw [hleaving.same.handle]
    rfl
  have hmove := moves_moveEntityToCandidate tree distance left c e
  generalize left.moveEntityToCandidate tree distance c e = moved at hmove ⊢
  cases hmove with
  | transient htrans =>
    have htrans := hleaving.isTransient_iff.mp htrans
    have hscript : (left.entities e).isOwnedByClientScript tree ≠ true := by
      intro hscript
      rw [hleaving.isOwnedByClientScript] at hscript
      have hinfo := (isOwnedByClientScript_type hscript).1
      rw [htrans.1] at hinfo
      cases hinfo
    dsimp only
    rw [if_neg fun hback => hscript (Bool.and_eq_true_iff.mp hback).1]
    exact ⟨hleaving.others, true, hhandle,
      hleaving.erased (fun _ => not_goesBack_of_isTransient htrans) fun _ _ _ _ => htrans⟩
  | owned owner hstays howner hne =>
    rw [hleaving.same.lock, hleaving.client] at howner
    exact ⟨hleaving.others, false, (List.append_nil _).symm,
      hleaving.stays (hleaving.isTransient_iff.not.mp hstays) (lock_eq_some.mp howner).1 hne⟩
  | candidate target hstays hown hplayer hmem =>
    rw [hleaving.candidates] at hmem
    refine ⟨hmoved _, false, (List.append_nil _).symm,
      hleaving.given hbyId hplayer hown (.inl ⟨fun owner hback => ?_, ?_⟩)⟩
    · rw [hback.candidates] at hmem
      cases hmem
    · rintro owner ⟨⟩
      exact mem_candidates hmem
  | unowned hstays hown hserver =>
    obtain ⟨hserver, hnonzero⟩ := Bool.and_eq_true_iff.mp hserver
    have hplayer : (left.entities e).type ≠ .Player := fun hplayer => by
      rw [SyncEntityState.isOwnedByScript, hplayer] at hserver
      cases hserver
    refine ⟨hmoved _, false, (List.append_nil _).symm,
      hleaving.given hbyId hplayer hown (.inl ⟨fun owner hback => ?_, ?_⟩)⟩
    · rw [hleaving.creationToken, (isOwnedByClientScript_type hback.script).2] at hnonzero
      cases hnonzero
    · exact fun _ heq => nomatch heq
  | refused hstays hown hnone =>
    dsimp only
    split
    · rename_i hback
      rw [Bool.and_eq_true_iff, Bool.not_eq_true'] at hback
      exact ⟨hmoved _, false, (List.append_nil _).symm, hleaving.givenBack hbyId hown hnone hback.1 hback.2⟩
    · rename_i hkept
      refine ⟨hleaving.others, true, hhandle, hleaving.erased (fun owner hback => hkept ?_)
        fun owner halive hne howner => absurd howner (hleaving.not_other hown owner halive hne)⟩
      rw [hleaving.isOwnedByClientScript, hback.script, hleaving.self, hback.firstOwner, hback.firstOwnerDropped]
      simpa using hback.netId

/-- The rounds of a drop, over entities that are registered once each. -/
theorem dropLoop_spec {slotId : Nat} (l : List SyncEntityPtr) (h : w.Consistent) (hsub : ∀ e ∈ l, e ∈ w.entityList)
    (hnodup : l.Nodup) (toErase : List Nat) :
    (∀ e ∉ l, (l.foldl (dropEntity tree distance c slotId) (w, toErase)).1.entities e = w.entities e) ∧
      ∃ erased : SyncEntityPtr → Bool,
        (l.foldl (dropEntity tree distance c slotId) (w, toErase)).2 =
          toErase ++ (l.filter erased).map (fun e => (w.entities e).handle) ∧
        ∀ e ∈ l, Dropped tree w c slotId (w.entities e)
          ((l.foldl (dropEntity tree distance c slotId) (w, toErase)).1.entities e) (erased e) := by
  induction l generalizing w toErase with
  | nil => exact ⟨fun _ _ => rfl, fun _ => false, (List.append_nil _).symm, fun _ he => nomatch he⟩
  | cons e l ih =>
    obtain ⟨hnew, hnodup⟩ := List.nodup_cons.mp hnodup
    have hsame := sameRegistry_dropEntity tree distance c slotId (w, toErase) e
    obtain ⟨hother, first, hfirst, hdropped⟩ := dropEntity_spec (c := c) slotId h
      (hsub e List.mem_cons_self) toErase
    rw [List.foldl_cons]
    generalize dropEntity tree distance c slotId (w, toErase) e = round at hsame hother hfirst hdropped ⊢
    obtain ⟨left, toErase'⟩ := round
    dsimp only at hsame hother hfirst hdropped ⊢
    have hsub' : ∀ e ∈ l, e ∈ left.entityList := fun e he => by
      rw [hsame.entityList]
      exact hsub e (List.mem_cons_of_mem _ he)
    obtain ⟨hrest, erased, herased, hloop⟩ := ih (h.of_same hsame) hsub' hnodup toErase'
    refine ⟨fun e' he' => ?_, Function.update erased e first, ?_, fun e' he' => ?_⟩
    · obtain ⟨hne, hnot⟩ := not_or.mp (List.mem_cons.not.mp he')
      rw [hrest e' hnot, hother e' hne]
    · have hkeep : l.filter (Function.update erased e first) = l.filter erased := by
        apply List.filter_congr
        intro e' he'
        exact Function.update_of_ne (fun heq : e' = e => hnew (heq ▸ he')) ..
      have hhandles : (fun e => (left.entities e).handle) = fun e => (w.entities e).handle := funext hsame.handle
      rw [herased, hfirst, List.filter_cons, Function.update_self, hkeep, hhandles, List.append_assoc]
      cases first <;> rfl
    · by_cases heq : e' = e
      · rw [heq, Function.update_self, hrest e hnew]
        exact hdropped
      · have hmem : e' ∈ l := (List.mem_cons.mp he').resolve_left heq
        rw [Function.update_of_ne heq, ← hother e' heq]
        exact (hloop e' hmem).of_same hsame

/-- Of the entities that a list of removals marks, each is registered under a handle of the list. -/
theorem removeClones_entities (ids : List Nat) (h : w.Consistent) (he : e ∈ w.entityList) :
    (ids.foldl removeClone w).entities e =
      { w.entities e with deleting := (w.entities e).deleting || decide ((w.entities e).handle ∈ ids) } := by
  induction ids generalizing w with
  | nil => simp
  | cons id ids ih =>
    have hsame := (still_removeClone w id).toSameRegistry
    have hrest := ih (h.of_same hsame) (hsame.entityList ▸ he)
    rw [List.foldl_cons, hrest]
    by_cases hid : (w.entities e).handle = id
    · have hbyId : w.entitiesById id = some e := hid ▸ h.byId e he
      have hself : (w.removeClone id).entities e = { w.entities e with deleting := true } := by
        unfold removeClone
        rw [hbyId]
        exact modifyEntity_self ..
      rw [hself, hid]
      simp
    · have hself : (w.removeClone id).entities e = w.entities e := by
        apply removeClone_entities_of_ne
        intro hbyId
        exact hid (h.registered id e hbyId).2
      rw [hself]
      simp [hid]

/-- A registered entity after a drop: handed over as a round does it, and marked if the round says so. -/
theorem handleClientDrop_entity {netId slotId : Nat} (h : w.Consistent) (he : e ∈ w.entityList) :
    ∃ (entity : SyncEntityState Tree) (erased : Bool), Dropped tree w c slotId (w.entities e) entity erased ∧
      ((w.handleClientDrop tree distance c netId slotId).entities e).client = entity.client ∧
      ((w.handleClientDrop tree distance c netId slotId).entities e).deleting = (entity.deleting || erased) := by
  have hsame := (still_dropPlayer w netId).toSameRegistry
  have hentities : (w.dropPlayer netId).entities = w.entities := by
    unfold dropPlayer
    split <;> rfl
  have hconsistent := h.of_same hsame
  rw [← hsame.entityList] at he
  obtain ⟨_, erased, herased, hloop⟩ := dropLoop_spec (c := c) _ hconsistent (fun _ he => he) hconsistent.nodup []
  have hround := Loop.keeps (fun acc acc' : ServerGameState Tree × List Nat => SameRegistry acc.1 acc'.1)
    (fun acc => .refl acc.1) SameRegistry.trans (sameRegistry_dropEntity tree distance c slotId)
    (w.dropPlayer netId).entityList (w.dropPlayer netId, [])
  have hdropped := hloop e he
  generalize hacc : (w.dropPlayer netId).entityList.foldl (dropEntity tree distance c slotId)
    (w.dropPlayer netId, []) = acc at herased hround hdropped
  have hmarked := removeClones_entities acc.2 (hconsistent.of_same hround) (hround.entityList ▸ he)
  have hmem : decide ((acc.1.entities e).handle ∈ acc.2) = erased e := by
    apply Bool.eq_iff_iff.mpr
    rw [decide_eq_true_iff, herased, List.nil_append, List.mem_map, hround.handle]
    constructor
    · rintro ⟨e', he', heq⟩
      obtain ⟨he', herased'⟩ := List.mem_filter.mp he'
      have hbyId := hconsistent.byId e' he'
      rw [heq, hconsistent.byId e he] at hbyId
      cases hbyId
      exact herased'
    · exact fun herased' => ⟨e, List.mem_filter.mpr ⟨he, herased'⟩, rfl⟩
  have hend : (w.handleClientDrop tree distance c netId slotId).entities e =
    (acc.2.foldl removeClone acc.1).entities e := by
    unfold handleClientDrop
    dsimp only
    rw [hacc]
  rw [hentities] at hdropped
  refine ⟨acc.1.entities e, erased e, hdropped.of_same hsame, ?_, ?_⟩
  · rw [hend, hmarked]
  · rw [hend, hmarked, ← hmem]

/-- In every state that the server reaches, when the sync thread comes to the drop of a client, the drop hands over
as it should exactly when the transient pickup placements of the connected clients are already being deleted,
and so is each entity of the client that goes back to a first owner that has left the registry. -/
theorem handleClientDrop_handsOver_iff {blank : SyncEntityState Tree} {syncStyle : SyncStyle}
    {bigMode lengthHack : Bool} {acts : List (Action Tree)} {netId slotId : Nat} {syncCallbacks : List SyncCallback}
    (hrun : Transition.Run (step tree) (fun _ _ => True) (new blank syncStyle bigMode lengthHack) acts w)
    (hqueue : w.syncCallbacks = .handleClientDrop c netId slotId :: syncCallbacks)
    (hstep : step tree w (.syncCallback distance) = some w') :
    HandsOver c w w' ↔
      (∀ e ∈ w.entityList, ∀ owner ∈ w.connected, owner ≠ c → (w.entities e).client = some owner →
        isTransient tree (w.entities e) → (w.entities e).deleting = true) ∧
      ∀ e ∈ w.entityList, (w.entities e).client = some c → ∀ owner, GoesBack tree w c slotId (w.entities e) owner →
        owner ∈ w.connected ∨ (w.entities e).deleting = true := by
  have h : w.Consistent := hrun.invariant Consistent (consistent_new ..) fun hinv _ htake => hinv.step htake
  obtain ⟨_, hc⟩ := (h.dropped c netId slotId (hqueue ▸ List.mem_cons_self)).2
  have hne : ∀ owner ∈ w.connected, owner ≠ c := fun owner hmem heq => hc (heq ▸ hmem)
  obtain ⟨callback, syncCallbacks', hqueue', hw'⟩ := step_syncCallback hstep
  rw [hqueue] at hqueue'
  cases hqueue'
  have hconnected : w'.connected = w.connected :=
    hw' ▸ (sameRegistry_handleClientDrop tree distance { w with syncCallbacks } c netId slotId).connected
  have hentity : ∀ e ∈ w.entityList, ∃ (entity : SyncEntityState Tree) (erased : Bool),
      Dropped tree { w with syncCallbacks } c slotId (w.entities e) entity erased ∧
        (w'.entities e).client = entity.client ∧ (w'.entities e).deleting = (entity.deleting || erased) := by
    intro e he
    rw [hw']
    exact handleClientDrop_entity (h.take hqueue) he
  constructor
  · refine fun hhands => ⟨fun e he owner howner hne hclient htransient => ?_, fun e he hclient owner hback => ?_⟩
    · obtain ⟨entity, erased, hdropped, _, hdeleting⟩ := hentity e he
      have herased : erased = true := (hdropped.other owner (h.alive owner howner) hne hclient).2.mpr htransient
      rw [← (hhands.other e he owner howner hne hclient).2]
      exact hdeleting.trans (by rw [herased, Bool.or_true])
    · obtain ⟨entity, erased, hdropped, hafter, hdeleting⟩ := hentity e he
      obtain ⟨hnone, _⟩ | ⟨owner', hback', herased, howner⟩ := hdropped.own hclient
      · exact absurd ⟨hback.script, hback.candidates, hback.firstOwner, hback.firstOwnerDropped, hback.netId⟩
          (hnone owner)
      · have hsame : some owner' = some owner := hback'.firstOwner.symm.trans hback.firstOwner
        rw [howner, hsame] at hafter
        obtain hmarked | hnobody | ⟨owner'', hmem, _, howner''⟩ := hhands.own e he hclient
        · rw [Bool.eq_false_of_not_eq_true herased, Bool.or_false, hdropped.deleting] at hdeleting
          exact .inr (hdeleting.symm.trans hmarked)
        · exact absurd (hnobody.symm.trans hafter) (Option.some_ne_none owner).symm
        · cases howner''.symm.trans hafter
          exact .inl (hconnected ▸ hmem)
  · refine fun ⟨htransient, hback⟩ => ⟨fun e he hclient => ?_, fun e he owner howner hne hclient => ?_⟩
    · obtain ⟨entity, erased, hdropped, hafter, hdeleting⟩ := hentity e he
      obtain ⟨_, herased | hnobody | ⟨owner, hmem, howner⟩⟩ | ⟨owner, hback', herased, howner⟩ := hdropped.own hclient
      · exact .inl (hdeleting.trans (by rw [herased, Bool.or_true]))
      · exact .inr (.inl (hafter.trans hnobody))
      · exact .inr (.inr ⟨owner, hconnected.symm ▸ hmem, hne owner hmem, hafter.trans howner⟩)
      · obtain hmem | hmarked := hback e he hclient owner
          ⟨hback'.script, hback'.candidates, hback'.firstOwner, hback'.firstOwnerDropped, hback'.netId⟩
        · exact .inr (.inr ⟨owner, hconnected.symm ▸ hmem, hne owner hmem, hafter.trans howner⟩)
        · exact .inl (hdeleting.trans (by rw [hdropped.deleting, hmarked, Bool.true_or]))
    · obtain ⟨entity, erased, hdropped, hafter, hdeleting⟩ := hentity e he
      obtain ⟨hkeep, herased⟩ := hdropped.other owner (h.alive owner howner) hne hclient
      refine ⟨hafter.trans (hkeep.trans hclient), hdeleting.trans ?_⟩
      rw [hdropped.deleting]
      cases erased with
      | false => exact Bool.or_false _
      | true => rw [htransient e he owner howner hne hclient (herased.mp rfl), Bool.or_true]

/-- Trees without data, of which each has a script, and those of pickup placements no position. -/
def scriptTree : SyncTreeBase Unit := { plainTree with getScriptHash := fun _ => 1, atOrigin := fun _ => true }

/-- Two clients, of which the first drops and leaves the registry; an object of its own is in the second one's
scope. -/
def handOverRun : List (Action Unit) :=
  [.connect 1 1 0, .connect 2 2 1, .record 1 (.create 7 5 0 5 []), .entityCreating 0 false, .tick (uncull .NAK [0, 1]),
    .dropClient 1, .removeClient 1]

theorem handleClientDrop_handsOver_two : ∃ w w',
    Transition.Run (step scriptTree) (fun _ _ => True) (plain .NAK false) handOverRun w ∧ HandsOver 1 w w' ∧
      (w.entities 0).client = some 1 ∧ (w'.entities 0).client = some 2 := by
  have hend : ((Transition.exec (step scriptTree) (plain .NAK false) handOverRun).any fun w =>
      (step scriptTree w (.syncCallback fun _ _ => 0)).any fun w' =>
        decide (w.syncCallbacks = [.handleClientDrop 1 1 0] ∧
        w.entityList = [0] ∧ (w.entities 0).type = .Object ∧ (w.entities 0).client = some 1 ∧
          w.candidates 1 ((w.entities 0).dropSlot 0).relevantTo = [2] ∧ (w'.entities 0).client = some 2)) = true := by
    decide +kernel
  obtain ⟨w, hrun, hw⟩ := Transition.exists_run hend
  obtain ⟨w', hstep, hw'⟩ := (Option.any_eq_true _ _).mp hw
  obtain ⟨hqueue, hlist, htype, hbefore, hcandidates, hafter⟩ := of_decide_eq_true hw'
  have honly : ∀ e ∈ w.entityList, e = 0 := fun e he => List.mem_singleton.mp (hlist ▸ he)
  refine ⟨w, w', hrun, (handleClientDrop_handsOver_iff hrun hqueue hstep).mpr ⟨?_, ?_⟩, hbefore, hafter⟩
  · intro e he owner _ _ _ htransient
    obtain rfl := honly e he
    exact absurd (htype.symm.trans htransient.1) (by decide)
  · intro e he _ owner hback
    obtain rfl := honly e he
    exact absurd (hcandidates.symm.trans hback.candidates) (by decide)

/-- The first client creates a pickup placement, and the second drops. -/
def pickupRun : List (Action Unit) :=
  [.connect 1 1 0, .connect 2 2 1, .record 1 (.create 7 5 0 8 []), .tick (uncull .NAK [0, 1]), .dropClient 2,
    .removeClient 2]

/-- The second client creates an object, which the first takes over, and both leave the registry. -/
def goneRun : List (Action Unit) :=
  [.connect 1 1 0, .connect 2 2 1, .record 2 (.create 7 5 0 5 []), .record 2 (.takeover 1 5),
    .tick (uncull .NAK [0, 1]), .dropClient 1, .dropClient 2, .removeClient 1, .removeClient 2]

/-- The pickup placement of the connected client is deleted; the object goes to the client that has left the
registry. -/
theorem handleClientDrop_strays :
    (∃ w w', Transition.Run (step scriptTree) (fun _ _ => True) (plain .NAK false) pickupRun w ∧
      w.syncCallbacks = [.handleClientDrop 2 2 1] ∧ step scriptTree w (.syncCallback fun _ _ => 0) = some w' ∧
        ¬ HandsOver 2 w w') ∧
      ∃ w w', Transition.Run (step scriptTree) (fun _ _ => True) (plain .NAK false) goneRun w ∧
        w.syncCallbacks = [.handleClientDrop 1 1 0, .handleClientDrop 2 2 1] ∧
          step scriptTree w (.syncCallback fun _ _ => 0) = some w' ∧ ¬ HandsOver 1 w w' := by
  constructor
  · have hend : ((Transition.exec (step scriptTree) (plain .NAK false) pickupRun).any fun w =>
        (step scriptTree w (.syncCallback fun _ _ => 0)).any fun w' =>
          decide (w.syncCallbacks = [.handleClientDrop 2 2 1] ∧
          w.entityList = [0] ∧ w.connected = [1] ∧ (w.entities 0).client = some 1 ∧
            (w'.entities 0).deleting ≠ (w.entities 0).deleting)) = true := by decide +kernel
    obtain ⟨w, hrun, hw⟩ := Transition.exists_run hend
    obtain ⟨w', hstep, hw'⟩ := (Option.any_eq_true _ _).mp hw
    obtain ⟨hqueue, hlist, hconnected, hclient, hdeleting⟩ := of_decide_eq_true hw'
    refine ⟨w, w', hrun, hqueue, hstep, fun h => hdeleting ?_⟩
    exact (h.other 0 (hlist ▸ List.mem_singleton_self 0) 1 (hconnected ▸ List.mem_singleton_self 1)
      (by decide) hclient).2
  · have hend : ((Transition.exec (step scriptTree) (plain .NAK false) goneRun).any fun w =>
        (step scriptTree w (.syncCallback fun _ _ => 0)).any fun w' =>
          decide (w.syncCallbacks = [.handleClientDrop 1 1 0, .handleClientDrop 2 2 1] ∧ w.entityList = [0] ∧
            (w.entities 0).client = some 1 ∧ (w'.entities 0).client = some 2 ∧ (w'.entities 0).deleting = false ∧
              w'.connected = [])) = true := by decide +kernel
    obtain ⟨w, hrun, hw⟩ := Transition.exists_run hend
    obtain ⟨w', hstep, hw'⟩ := (Option.any_eq_true _ _).mp hw
    obtain ⟨hqueue, hlist, hclient, hafter, hdeleting, hconnected⟩ := of_decide_eq_true hw'
    refine ⟨w, w', hrun, hqueue, hstep, fun h => ?_⟩
    obtain hmarked | hnobody | ⟨owner, hmem, _⟩ := h.own 0 (hlist ▸ List.mem_singleton_self 0) hclient
    · exact Bool.false_ne_true (hdeleting.symm.trans hmarked)
    · exact Option.some_ne_none 2 (hafter.symm.trans hnobody)
    · rw [hconnected] at hmem
      cases hmem

end ServerGameState

end fx
