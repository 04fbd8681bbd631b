import Citizen.GameState.ClientTick
import Citizen.GameState.Deletions
import Citizen.GameState.Scopes

open Std

namespace fx

open sync

/-- The removes that the last frame sent to a client. -/
def Client.removes (client : Client) : List (Nat × Nat) :=
  match client.frameStates.getLast? with
  | some (_, ces) => ces.deletions.map Prod.fst
  | none => []

namespace ServerGameState

variable {Tree : Type*} {tree : SyncTreeBase Tree} {input : ScopeInput} {w w' : ServerGameState Tree} {b c : ClientPtr}
variable {e : SyncEntityPtr}

/-- No remove that a tick sends is of an entity that is in the client's table at the end of the tick. -/
def RemovesApart (tree : SyncTreeBase Tree) (w : ServerGameState Tree) : Action Tree → Prop
  | .tick input => ∀ c ∈ w.allClients, (w.clients c).slotId ≠ noSlot → input.fakeSend c = false →
      ∀ p ∈ ((w.tick tree input).clients c).removes, ((w.tick tree input).clients c).syncedEntities[p]? = none
  | _ => True

/-- No entity that waits for its removal comes into the client's scope in a tick, or is in the table of a client whose
scope is not updated, unless it is being deleted. -/
def OutOfScope (tree : SyncTreeBase Tree) (w : ServerGameState Tree) : Action Tree → Prop
  | .tick input => ∀ c ∈ w.allClients, (w.clients c).slotId ≠ noSlot → input.fakeSend c = false →
      ∀ p ∈ (w.clients c).entitiesToDestroy,
        if (w.clients c).slotId ∈ input.slots then
          ∀ e ∈ w.entityList, (w.entities e).pair = p → w.collectable tree e = false →
            (w.entities e).deleting = false → (w.clients c).slotId ∉ (w.entities e).deletedFor →
              w.inScope tree input c e = false
        else ∀ data, (w.clients c).syncedEntities[p]? = some data → (w.entities data.entity).deleting = true
  | _ => True

/-- An entity that waits for its removal and is in the table is being deleted. -/
def Waiting (w : ServerGameState Tree) (c : ClientPtr) : Prop :=
  ∀ p ∈ (w.clients c).entitiesToDestroy, ∀ e, ((w.clients c).kept p).map (·.1) = some e →
    (w.entities e).deleting = true

theorem saveFrame_removes (client : Client) (frameIndex : Nat) (lastSeen : Bool) (ces : ClientEntityState) :
    (client.saveFrame frameIndex lastSeen ces).removes = ces.deletions.map Prod.fst := by
  simp [Client.removes, Client.saveFrame]

theorem kept_eq_none {client : Client} {p : Nat × Nat} : client.kept p = none ↔ client.syncedEntities[p]? = none :=
  Option.map_eq_none_iff

theorem kept_doomed (w : ServerGameState Tree) (c : ClientPtr) (p : Nat × Nat) :
    w.doomed c p = (((w.clients c).kept p).map (·.1)).filter fun e => (w.entities e).deleting := by
  rw [doomed, Client.syncedEntity, Client.kept, Option.map_map]
  rfl

/-- What a client's part of the tick sends and leaves, when the entities that wait are out of its table. -/
theorem tickClient_removes (hslot : (w.clients c).slotId ≠ noSlot) (h : w.Waiting c) :
    (∀ p ∈ ((w.tickClient tree input c).clients c).removes, ((w.tickClient tree input c).clients c).kept p = none) ∧
      ∀ p ∈ ((w.tickClient tree input c).clients c).entitiesToDestroy,
        ((w.tickClient tree input c).clients c).kept p = none := by
  have hcleared := deleteEntities_cleared tree w c
  have hdeleted : ∀ p ∈ ((w.deleteEntities tree c).clients c).entitiesToDestroy,
      ((w.deleteEntities tree c).clients c).kept p = none := by
    intro p hp
    obtain ⟨hsynced, hdestroy⟩ := moveAll_tables w c p
    rw [hcleared.kept, kept_eq_none, hsynced]
    rw [hcleared.entitiesToDestroy, TreeMap.mem_iff_isSome_getElem?, hdestroy] at hp
    cases hdoomed : w.doomed c p with
    | some e => rw [Option.isSome_some, if_pos rfl]
    | none =>
      rw [hdoomed] at hp
      rw [Option.isSome_none, if_neg Bool.false_ne_true, ← kept_eq_none]
      cases hkept : (w.clients c).kept p with
      | none => rfl
      | some entry =>
        have hdeleting := h p (TreeMap.mem_iff_isSome_getElem?.mpr hp) entry.1 (by rw [hkept]; rfl)
        rw [kept_doomed, hkept, Option.map_some, Option.filter_some, hdeleting] at hdoomed
        cases hdoomed
  unfold tickClient
  rw [if_neg hslot]
  dsimp only
  generalize w.deleteEntities tree c = left at hdeleted ⊢
  generalize hclear : (if input.syncStyle = .NAK then
    left.modifyClient c fun client => { client with entitiesToDestroy := ∅ } else left) = right
  have hkept : ∀ p, (right.clients c).kept p = (left.clients c).kept p := by
    intro p
    rw [← hclear]
    split
    · rw [modifyClient_self]
      rfl
    · rfl
  have hdestroy : ∀ p ∈ (right.clients c).entitiesToDestroy, p ∈ (left.clients c).entitiesToDestroy := by
    intro p hp
    rw [← hclear] at hp
    split at hp
    · rw [modifyClient_self] at hp
      simp at hp
    · exact hp
  have hsync := syncedBy_loop input c (nodup_keys (right.clients c).syncedEntities) (right, [])
  generalize (right.clients c).syncedEntities.keys.foldl (syncEntity input c) (right, []) = acc at hsync ⊢
  have hnone : ∀ p ∈ (left.clients c).entitiesToDestroy, (acc.1.clients c).kept p = none := by
    intro p hp
    have hbefore := (hkept p).trans (hdeleted p hp)
    by_cases hmem : p ∈ (right.clients c).syncedEntities.keys
    · obtain hafter | hafter := hsync.kept p hmem
      · exact hafter
      · rw [hafter, hbefore, Option.map_none]
    · exact (hsync.kept_of_notMem p hmem).trans hbefore
  rw [modifyClient_self]
  refine ⟨fun p hp => ?_, fun p hp => ?_⟩
  · apply hnone
    rw [saveFrame_removes, List.map_map] at hp
    have hkeys : (left.clients c).entitiesToDestroy.toList.map Prod.fst = (left.clients c).entitiesToDestroy.keys :=
      TreeMap.map_fst_toList_eq_keys
    rw [← TreeMap.mem_keys, ← hkeys]
    exact hp
  · apply hnone
    apply hdestroy
    rw [← hsync.entitiesToDestroy]
    exact hp

theorem deletedFor_updateClient {relevantEntities : List SyncEntityPtr} (hnodup : relevantEntities.Nodup)
    (w : ServerGameState Tree) (c : ClientPtr) (e : SyncEntityPtr) :
    ((w.updateClient tree input relevantEntities c).entities e).deletedFor = (w.entities e).deletedFor := by
  by_cases he : e ∈ relevantEntities
  · rw [updateClient_entity hnodup w c he, rescope_deletedFor]
  · rw [updateClient_entity_of_notMem w c he]

theorem rescoped_updateClient (relevantEntities : List SyncEntityPtr) (w : ServerGameState Tree) (c : ClientPtr) :
    Rescoped w (w.updateClient tree input relevantEntities c) := by
  unfold updateClient
  dsimp only
  exact (scanning_loop relevantEntities w c).rescoped.trans (same_modifyClient _ c rfl)

/-- The client in the slot of a connected client. -/
theorem Consistent.getClientBySlotID (h : w.Consistent) (hc : c ∈ w.connected)
    (hslot : (w.clients c).slotId ≠ noSlot) :
    w.getClientBySlotID (w.clients c).slotId = some c := by
  unfold ServerGameState.getClientBySlotID
  rw [if_pos (h.slotId_lt c hc hslot)]
  cases hfind : w.connected.find? fun c' => (w.clients c').slotId == (w.clients c).slotId with
  | none =>
    have hnone := List.find?_eq_none.mp hfind c hc
    simp at hnone
  | some c' =>
    have heq : (w.clients c').slotId = (w.clients c).slotId := eq_of_beq (List.find?_some hfind :)
    rw [h.slotId_inj c hc c' (List.mem_of_find?_eq_some hfind) hslot heq.symm]

/-- What the scope updates keep, seen from one client and the state before them. -/
structure Updating (tree : SyncTreeBase Tree) (input : ScopeInput) (w : ServerGameState Tree) (c : ClientPtr)
    (w' : ServerGameState Tree) : Prop extends SameRegistry w w' where
  rescoped : Rescoped w w'
  deletedFor : ∀ e, (w'.entities e).deletedFor = (w.entities e).deletedFor
  destroy : ∀ p ∈ (w'.clients c).entitiesToDestroy, p ∈ (w.clients c).entitiesToDestroy ∨
    ∀ e ∈ w.entityList, (w.entities e).pair = p → (w.entities e).deleting = false → w.inScope tree input c e = false

/-- The table has entities that are in scope, or are being deleted. -/
def TableInScope (tree : SyncTreeBase Tree) (input : ScopeInput) (relevantEntities : List SyncEntityPtr)
    (w : ServerGameState Tree) (c : ClientPtr) (w' : ServerGameState Tree) : Prop :=
  ∀ p e, ((w'.clients c).kept p).map (·.1) = some e → e ∈ relevantEntities ∧ (w.entities e).pair = p ∧
    (w.clients c).slotId ∉ (w.entities e).deletedFor ∧
      ((w.entities e).deleting = false → w.inScope tree input c e = true)

section Update

variable {relevantEntities : List SyncEntityPtr} (hrelevant : ∀ e ∈ relevantEntities, e ∈ w.entityList)
  (hnodup : relevantEntities.Nodup) (hw : w.Consistent)
include hrelevant hnodup hw

/-- A scope update of the client itself. -/
theorem Updating.self (h : Updating tree input w c w') :
    Updating tree input w c (w'.updateClient tree input relevantEntities c) ∧
      TableInScope tree input relevantEntities w c (w'.updateClient tree input relevantEntities c) := by
  have hpairs : ∀ e ∈ relevantEntities, ∀ e' ∈ relevantEntities,
      (w'.entities e).pair = (w'.entities e').pair → e = e' := by
    intro e he e' he' heq
    rw [h.pair, h.pair] at heq
    exact hw.pair_inj (hrelevant e he) (hrelevant e' he') heq
  have hscope : ∀ e, (w.entities e).deleting = false →
      w'.relevantFor tree input c e = w.inScope tree input c e := by
    intro e hdeleting
    unfold relevantFor
    rw [h.rescoped.deleting, hdeleting, if_neg Bool.false_ne_true, h.rescoped.inScope]
  refine ⟨⟨h.toSameRegistry.trans (sameRegistry_updateClient tree input relevantEntities w' c),
    h.rescoped.trans (rescoped_updateClient relevantEntities w' c),
    fun e => (deletedFor_updateClient hnodup w' c e).trans (h.deletedFor e), fun p hp => ?_⟩, fun p e hkept => ?_⟩
  · by_cases hfound : ∃ e ∈ relevantEntities, (w'.entities e).pair = p
    · obtain ⟨e, he, rfl⟩ := hfound
      rw [TreeMap.mem_iff_isSome_getElem?, updateClient_destroy hnodup hpairs c he] at hp
      split at hp
      · rename_i hleaves
        refine .inr fun e' he' hpair hdeleting => ?_
        rw [h.pair] at hpair
        obtain rfl := hw.pair_inj he' (hrelevant e he) hpair
        rw [← hscope _ hdeleting]
        simp only [leaves, Bool.and_eq_true, Bool.not_eq_true'] at hleaves
        exact hleaves.1.2
      · exact h.destroy _ (TreeMap.mem_iff_isSome_getElem?.mpr hp)
    · have hnone : ∀ e ∈ relevantEntities, (w'.entities e).pair ≠ p := fun e he heq => hfound ⟨e, he, heq⟩
      rw [TreeMap.mem_iff_isSome_getElem?, updateClient_destroy_same w' c hnone] at hp
      exact h.destroy p (TreeMap.mem_iff_isSome_getElem?.mpr hp)
  · by_cases hfound : ∃ e ∈ relevantEntities, (w'.entities e).pair = p
    · obtain ⟨e', he', rfl⟩ := hfound
      rw [Client.kept, updateClient_synced hnodup hpairs c he'] at hkept
      split at hkept
      · rename_i hvisible
        have hentry : (w'.entry c e').entity = e' := by
          unfold entry
          split <;> rfl
        have heq : e' = e := hentry.symm.trans (Option.some.inj hkept)
        subst heq
        obtain ⟨hdeleted, hrelevantFor⟩ := Bool.and_eq_true_iff.mp hvisible
        rw [decide_eq_true_iff, h.deletedFor, h.slotId] at hdeleted
        refine ⟨he', (h.pair e').symm, hdeleted, fun hdeleting => ?_⟩
        rw [← hscope e' hdeleting]
        exact hrelevantFor
      · cases hkept
    · have hnone : ∀ e ∈ relevantEntities, (w'.entities e).pair ≠ p := fun e he heq => hfound ⟨e, he, heq⟩
      rw [Client.kept, updateClient_synced_none w' c hnone] at hkept
      cases hkept

omit hrelevant hw in
/-- A scope update of another client. -/
theorem Updating.other (h : Updating tree input w c w') {c' : ClientPtr} (hne : c ≠ c') :
    Updating tree input w c (w'.updateClient tree input relevantEntities c') where
  toSameRegistry := h.toSameRegistry.trans (sameRegistry_updateClient tree input relevantEntities w' c')
  rescoped := h.rescoped.trans (rescoped_updateClient relevantEntities w' c')
  deletedFor e := (deletedFor_updateClient hnodup w' c' e).trans (h.deletedFor e)
  destroy := by
    rw [updateClient_others relevantEntities w' hne]
    exact h.destroy

end Update

theorem collect_clients (w : ServerGameState Tree) : (w.collect tree).clients = w.clients := by
  refine Loop.keeps (fun w w' : ServerGameState Tree => w'.clients = w.clients) (fun _ => rfl) (fun h h' => h'.trans h)
    (fun w e => ?_) w.entityList w
  split
  · unfold finalizeClone
    split <;> rfl
  · rfl

/-- Before the scope updates, the entities are collected. -/
theorem updating_collect (input : ScopeInput) (w : ServerGameState Tree) (c : ClientPtr) :
    Updating tree input w c ({ w with syncStyle := input.syncStyle }.collect tree) where
  toSameRegistry := by
    have hstyle : SameRegistry w { w with syncStyle := input.syncStyle } :=
      ⟨rfl, fun _ => rfl, fun _ => rfl⟩
    exact hstyle.trans (still_collect _).toSameRegistry
  rescoped := by
    have hstyle : Rescoped w { w with syncStyle := input.syncStyle } := ⟨rfl, fun _ => rfl, fun _ => rfl⟩
    exact hstyle.trans (same_collect rescoped_scopes _)
  deletedFor := (still_collect { w with syncStyle := input.syncStyle }).deletedFor
  destroy p hp := by
    rw [collect_clients] at hp
    exact .inl hp

theorem updateSlot_of_some {relevantEntities : List SyncEntityPtr} {slotId : Nat}
    (h : w.getClientBySlotID slotId = some c) :
    w.updateSlot tree input relevantEntities slotId = w.updateClient tree input relevantEntities c := by
  rw [updateSlot, h]

/-- The scope update of a slot leaves the clients of other slots alone. -/
theorem updateSlot_others (relevantEntities : List SyncEntityPtr) (w : ServerGameState Tree) {slotId : Nat}
    (hne : (w.clients c).slotId ≠ slotId) :
    (w.updateSlot tree input relevantEntities slotId).clients c = w.clients c := by
  unfold updateSlot
  split
  · rename_i c' hfound
    apply updateClient_others
    rintro rfl
    exact hne (getClientBySlotID_some hfound).2.1
  · rfl

/-- The scope updates leave the clients of other slots alone. -/
theorem updateScopes_others (w : ServerGameState Tree) (hslot : (w.clients c).slotId ∉ input.slots) :
    (w.updateScopes tree input).clients c = w.clients c := by
  have hcollect := @collect_clients _ tree { w with syncStyle := input.syncStyle }
  unfold updateScopes
  dsimp only
  refine (Loop.untouched (fun s : ServerGameState Tree => s.clients c = w.clients c) (fun s => s.clients c)
    (fun s h slotId hmem => ?_) (fun s h slotId hmem => ?_) _ (congrFun hcollect c)).trans (congrFun hcollect c)
  all_goals
    have hne : (s.clients c).slotId ≠ slotId := by
      rw [h]
      exact fun heq => hslot (heq ▸ hmem)
  · exact (updateSlot_others _ s hne).trans h
  · exact updateSlot_others _ s hne

theorem updating_updateSlot {relevantEntities : List SyncEntityPtr}
    (hrelevant : ∀ e ∈ relevantEntities, e ∈ w.entityList) (hnodup : relevantEntities.Nodup) (hw : w.Consistent)
    (h : Updating tree input w c w') (slotId : Nat) :
    Updating tree input w c (w'.updateSlot tree input relevantEntities slotId) := by
  unfold updateSlot
  split
  · rename_i c' _
    by_cases hself : c = c'
    · rw [← hself]
      exact (Updating.self hrelevant hnodup hw h).1
    · exact Updating.other hnodup h hself
  · exact h

/-- The scope updates of a client's slot leave entities in scope in its table. -/
theorem tableInScope_updateScopes (hw : w.Consistent) (hc : c ∈ w.connected) (hslot : (w.clients c).slotId ≠ noSlot) :
    Updating tree input w c (w.updateScopes tree input) ∧ ((w.clients c).slotId ∈ input.slots →
      TableInScope tree input
        (w.entityList.filter fun e => !w.collectable tree e) w c (w.updateScopes tree input)) := by
  generalize hentities : (w.entityList.filter fun e => !w.collectable tree e) = relevantEntities
  have hrelevant : ∀ e ∈ relevantEntities, e ∈ w.entityList := fun e he => List.mem_of_mem_filter (hentities ▸ he)
  have hnodup : relevantEntities.Nodup := hentities ▸ hw.nodup.filter _
  have hstart := @updating_collect _ tree input w c
  unfold updateScopes
  dsimp only
  rw [hentities]
  refine ⟨List.foldlRecOn _ _ hstart fun s h slotId _ => updating_updateSlot hrelevant hnodup hw h slotId,
    fun hmem => ?_⟩
  refine Loop.all (Updating tree input w c)
    (fun slotId s => slotId = (w.clients c).slotId → TableInScope tree input relevantEntities w c s)
    (fun s h slotId _ => updating_updateSlot hrelevant hnodup hw h slotId) (fun s h slotId _ => ?_)
    (fun s h slotId _ slotId' hdone => ?_) _ hstart _ hmem rfl
  all_goals
    have hfound : s.getClientBySlotID (w.clients c).slotId = some c :=
      (h.getClientBySlotID _).trans (hw.getClientBySlotID hc hslot)
  · rintro rfl
    rw [updateSlot_of_some hfound]
    exact (Updating.self hrelevant hnodup hw h).2
  · by_cases hself : slotId = (w.clients c).slotId
    · intro _
      rw [hself, updateSlot_of_some hfound]
      exact (Updating.self hrelevant hnodup hw h).2
    · intro heq p e hkept
      rw [updateSlot_others _ s (by rw [h.slotId]; exact Ne.symm hself)] at hkept
      exact hdone heq p e hkept

/-- After the scope updates, an entity that waits for its removal is out of the table, or is being deleted. -/
theorem waiting_updateScopes (hw : w.Consistent) (hc : c ∈ w.allClients) (hslot : (w.clients c).slotId ≠ noSlot)
    (hfake : input.fakeSend c = false) (hok : OutOfScope tree w (.tick input)) :
    (w.updateScopes tree input).Waiting c := by
  obtain ⟨hupdating, htable⟩ := tableInScope_updateScopes hw (mem_allClients.mp hc).1 hslot
  intro p hp e hkept
  rw [hupdating.rescoped.deleting]
  by_contra hdeleting
  rw [Bool.not_eq_true] at hdeleting
  by_cases hmem : (w.clients c).slotId ∈ input.slots
  · obtain ⟨he, hpair, hdeleted, hscope⟩ := htable hmem p e hkept
    obtain ⟨he, hcollectable⟩ := List.mem_filter.mp he
    rw [Bool.not_eq_true'] at hcollectable
    have hout : w.inScope tree input c e = false := by
      obtain hbefore | hleft := hupdating.destroy p hp
      · have hall := hok c hc hslot hfake p hbefore
        rw [if_pos hmem] at hall
        exact hall e he hpair hcollectable hdeleting hdeleted
      · exact hleft e he hpair hdeleting
    rw [hscope hdeleting] at hout
    cases hout
  · rw [updateScopes_others w hmem] at hp hkept
    have hall := hok c hc hslot hfake p hp
    rw [if_neg hmem] at hall
    obtain ⟨data, hdata, rfl⟩ := Option.map_eq_some_iff.mp hkept
    obtain ⟨synced, hsynced, rfl⟩ := Option.map_eq_some_iff.mp hdata
    have hdeleting' := hall synced hsynced
    exact Bool.false_ne_true (hdeleting.symm.trans hdeleting')

theorem tickClient_deleting (w : ServerGameState Tree) (c : ClientPtr) (e : SyncEntityPtr) :
    ((w.tickClient tree input c).entities e).deleting = (w.entities e).deleting :=
  (same_tickClient deletingView_owners deletingView_scopes (fun _ _ _ => rfl) input w c).entity e

/-- What the rounds over the clients keep: the registry, and that what waits is out of the tables. -/
structure AllWaiting (input : ScopeInput) (w w' : ServerGameState Tree) : Prop extends SameRegistry w w' where
  waiting : ∀ c ∈ w.allClients, (w.clients c).slotId ≠ noSlot → input.fakeSend c = false → w'.Waiting c

theorem tickClient_noSlot (h : (w.clients c).slotId = noSlot) : w.tickClient tree input c = w := by
  rw [tickClient, if_pos h]

/-- Another client's round leaves what waits, and what was sent, as it is. -/
theorem AllWaiting.apart (hw : w.Consistent) (h : AllWaiting input w w') (hb : b ∈ w.allClients)
    (hc : c ∈ w.allClients) (hslot : (w.clients b).slotId ≠ noSlot) (hne : b ≠ c) :
    Apart b w' (w'.tickClient tree input c) := by
  by_cases hno : (w'.clients c).slotId = noSlot
  · rw [tickClient_noSlot hno]
    exact .refl w'
  · apply apart_tickClient hne
    rw [h.slotId, h.slotId]
    exact fun heq => hne (hw.slotId_inj b (mem_allClients.mp hb).1 c (mem_allClients.mp hc).1 hslot heq)

theorem AllWaiting.tickClient (hw : w.Consistent) (h : AllWaiting input w w') (hc : c ∈ w.allClients) :
    AllWaiting input w (w'.tickClient tree input c) where
  toSameRegistry := h.toSameRegistry.trans (sameRegistry_tickClient tree input w' c)
  waiting b hb hslot hfake := by
    have hbefore := h.waiting b hb hslot hfake
    intro p hp e hkept
    by_cases hne : b = c
    · rw [hne] at hp hkept hbefore hslot
      have hslot' : (w'.clients c).slotId ≠ noSlot := by
        rw [h.slotId]
        exact hslot
      rw [(tickClient_removes hslot' hbefore).2 p hp] at hkept
      cases hkept
    · have hapart := @AllWaiting.apart _ tree _ _ _ _ _ hw h hb hc hslot hne
      rw [hapart.kept] at hkept
      rw [hapart.entitiesToDestroy] at hp
      rw [tickClient_deleting]
      exact hbefore p hp e hkept

/-- A tick that starts with no waiting entity in scope sends no remove of an entity that the client keeps. -/
theorem tick_removesApart (hw : w.Consistent) (hok : OutOfScope tree w (.tick input)) :
    RemovesApart tree w (.tick input) := by
  have hsame := sameRegistry_updateScopes tree input w
  have hw' := hw.of_same hsame
  have hwaiting : ∀ c ∈ (w.updateScopes tree input).allClients,
      ((w.updateScopes tree input).clients c).slotId ≠ noSlot → input.fakeSend c = false →
        (w.updateScopes tree input).Waiting c := by
    intro c hc hslot hfake
    rw [hsame.allClients] at hc
    rw [hsame.slotId] at hslot
    exact waiting_updateScopes hw hc hslot hfake hok
  intro c hc hslot hfake p hp
  rw [← hsame.allClients] at hc
  rw [← hsame.slotId] at hslot
  unfold tick at hp ⊢
  dsimp only at hp ⊢
  generalize w.updateScopes tree input = left at hw' hwaiting hc hslot hp ⊢
  have hstart : AllWaiting input left left := ⟨.refl left, hwaiting⟩
  refine kept_eq_none.mp (Loop.all (AllWaiting input left) (fun c s => c ∈ left.allClients →
    (left.clients c).slotId ≠ noSlot → input.fakeSend c = false → ∀ p ∈ (s.clients c).removes,
      (s.clients c).kept p = none)
    (fun s h a ha => h.tickClient hw' ha) (fun s h a ha => ?_)
    (fun s h a ha b hdone => ?_) left hstart c hc hc hslot hfake
    p hp)
  · intro _ hslot hfake
    have hslot' : (s.clients a).slotId ≠ noSlot := by
      rw [h.slotId]
      exact hslot
    exact (tickClient_removes hslot' (h.waiting a ha hslot hfake)).1
  · intro hb hslot hfake
    by_cases hne : b = a
    · have hslot' : (s.clients a).slotId ≠ noSlot := by
        rw [h.slotId, ← hne]
        exact hslot
      rw [hne]
      exact (tickClient_removes hslot' (h.waiting a ha (hne ▸ hslot) (hne ▸ hfake))).1
    · have hapart := @AllWaiting.apart _ tree _ _ _ _ _ hw' h hb ha hslot hne
      intro p hp
      rw [Client.removes, hapart.frameStates] at hp
      rw [hapart.kept]
      exact hdone hb hslot hfake p hp

/-- Runs in which nothing that waits for its removal comes into scope again send removes of absent entities only.
The condition is asked of ticks; NAcks and acks keep the two apart by themselves. -/
theorem run_removesApart (blank : SyncEntityState Tree) (syncStyle : SyncStyle) (bigMode lengthHack : Bool)
    (acts : List (Action Tree)) (w : ServerGameState Tree)
    (hrun : Transition.Run (step tree) (OutOfScope tree) (new blank syncStyle bigMode lengthHack) acts w) :
    Transition.Run (step tree) (RemovesApart tree) (new blank syncStyle bigMode lengthHack) acts w := by
  refine hrun.upgrade Consistent (consistent_new blank syncStyle bigMode lengthHack) (fun h _ hstep => h.step hstep)
    fun {s a t} h hok _ => ?_
  cases a with
  | tick input => exact tick_removesApart h hok
  | _ => trivial

/-- Nothing waits for its removal. -/
def nothingWaits (w : ServerGameState Tree) : Bool :=
  w.allClients.all fun c => (w.clients c).entitiesToDestroy.isEmpty

theorem outOfScope_of_nothingWaits (h : w.nothingWaits = true) (a : Action Tree) : OutOfScope tree w a := by
  cases a with
  | tick input =>
    intro c hc _ _ p hp
    have hempty := List.all_eq_true.mp h c hc
    rw [TreeMap.isEmpty_iff_forall_not_mem] at hempty
    exact absurd hp (hempty p)
  | _ => trivial

/-- A tick that updates the scopes of some slots, to which nothing is near. -/
def cull (syncStyle : SyncStyle) (slots : List Nat) : ScopeInput :=
  { uncull syncStyle slots with culling := true, nearby := fun _ _ => false }

/-- A client's entity comes into another client's scope and leaves it. -/
def leaveRun : List (Action Unit) :=
  [.connect 1 1 0, .connect 2 2 1, .record 1 (.create 7 5 0 5 []), .entityCreating 0 false, .tick (uncull .NAK [1]),
    .tick (cull .NAK [1])]

theorem run_removesApart_leave : ∃ w, Transition.Run (step plainTree) (RemovesApart plainTree)
    (plain .NAK false) leaveRun w ∧ (w.clients 2).removes = [(5, 7)] := by
  have hend : ((Transition.exec (fun w a => if nothingWaits w then step plainTree w a else none) (plain .NAK false)
      leaveRun).any fun w => (w.clients 2).removes == [(5, 7)]) = true := by decide +kernel
  have hcheck : ∀ (w : ServerGameState Unit) a, w.nothingWaits = true → OutOfScope plainTree w a :=
    fun w a h => outOfScope_of_nothingWaits h a
  obtain ⟨w, hrun, hw⟩ := Transition.exists_checked hcheck hend
  exact ⟨w, run_removesApart _ _ _ _ _ w hrun, eq_of_beq hw⟩

/-- It comes into the scope again, and then the client misses the frame with the removal. -/
def lostRemoveRun : List (Action Unit) := leaveRun ++ [.tick (uncull .NAK [1]), .gameStateNAck 2 ⟨3, some (2, 2), []⟩]

/-- The next tick sends the removal again, of an entity that the client has. -/
theorem run_lostRemove : ∃ w, Transition.Run (step plainTree) (fun _ _ => True) (plain .NAK false) lostRemoveRun w ∧
    ¬ RemovesApart plainTree w (.tick (uncull .NAK [1])) := by
  have hend : ((Transition.exec (step plainTree) (plain .NAK false) lostRemoveRun).any fun w =>
      decide (2 ∈ w.allClients) && decide ((w.clients 2).slotId = 1) &&
        ((w.tick plainTree (uncull .NAK [1])).clients 2).removes == [(5, 7)] &&
        (((w.tick plainTree (uncull .NAK [1])).clients 2).syncedEntities[(5, 7)]?).isSome) = true := by decide +kernel
  obtain ⟨w, hrun, hw⟩ := Transition.exists_run hend
  simp only [Bool.and_eq_true, beq_iff_eq, decide_eq_true_eq] at hw
  obtain ⟨⟨⟨hconnected, hslot⟩, hremoves⟩, hkept⟩ := hw
  refine ⟨w, hrun, fun h => ?_⟩
  have hnone := h 2 hconnected (by rw [hslot]; decide) rfl (5, 7) (by rw [hremoves]; exact List.mem_singleton_self _)
  rw [hnone] at hkept
  cases hkept

end ServerGameState

end fx
