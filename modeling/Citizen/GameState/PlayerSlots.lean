import Citizen.GameState.Consistent
import Citizen.GameState.Frames

open Std

namespace fx

open sync

namespace ServerGameState

variable {Tree : Type*} {tree : SyncTreeBase Tree} {w w' : ServerGameState Tree} {c : ClientPtr} {e : SyncEntityPtr}
variable {client : Client} {netId slotId : Nat}

/-- The players in scope have a slot each, which is in use, and is not 31. Each is of a client whose
`HandleClientDrop` has not run yet, unless the client with the table is itself dropping: `ForAllClients` leaves
it out. -/
structure PlayersCoherent (w : ServerGameState Tree) (client : Client) : Prop where
  injective : ∀ netId netId' slotId : Nat, client.playersToSlots[netId]? = some slotId →
    client.playersToSlots[netId']? = some slotId → netId = netId'
  image : ∀ slotId, slotId ∈ client.playersInScope ↔ ∃ netId : Nat, client.playersToSlots[netId]? = some slotId
  slot : ∀ netId slotId : Nat, client.playersToSlots[netId]? = some slotId → slotId < 128 ∧ slotId ≠ 31
  present : client.isDropping = false → ∀ netId slotId : Nat, client.playersToSlots[netId]? = some slotId →
    ∃ owner ∈ w.alive, (w.clients owner).netId = netId

/-- A player comes into scope. -/
theorem PlayersCoherent.enter (h : PlayersCoherent w client)
    (howner : ∃ owner ∈ w.alive, (w.clients owner).netId = netId) (hnew : client.playersToSlots[netId]? = none)
    (hfree : slotId ∉ client.playersInScope)
    (hslot : slotId < 128 ∧ slotId ≠ 31) :
    PlayersCoherent w { client with
      playersInScope := insert slotId client.playersInScope
      playersToSlots := client.playersToSlots.insert netId slotId } := by
  have hget : ∀ n s, (client.playersToSlots.insert netId slotId)[n]? = some s ↔
      (netId = n ∧ slotId = s) ∨ (netId ≠ n ∧ client.playersToSlots[n]? = some s) := by
    intro n s
    rw [TreeMap.getElem?_insert]
    by_cases hn : netId = n <;> simp [hn]
  have hused : ∀ n, client.playersToSlots[n]? ≠ some slotId := fun n hn => hfree ((h.image slotId).mpr ⟨n, hn⟩)
  refine ⟨fun n n' s hn hn' => ?_, fun s => ?_, fun n s hn => ?_, fun hdropping n s hn => ?_⟩
  · obtain ⟨rfl, rfl⟩ | ⟨_, hold⟩ := (hget n s).mp hn
    · obtain ⟨rfl, _⟩ | ⟨_, hold'⟩ := (hget n' _).mp hn'
      · rfl
      · exact absurd hold' (hused n')
    · obtain ⟨rfl, rfl⟩ | ⟨_, hold'⟩ := (hget n' s).mp hn'
      · exact absurd hold (hused n)
      · exact h.injective n n' s hold hold'
  · rw [Finset.mem_insert, h.image s]
    constructor
    · rintro (rfl | ⟨n, hn⟩)
      · exact ⟨netId, (hget netId _).mpr (.inl ⟨rfl, rfl⟩)⟩
      · refine ⟨n, (hget n s).mpr (.inr ⟨?_, hn⟩)⟩
        rintro rfl
        rw [hnew] at hn
        cases hn
    · rintro ⟨n, hn⟩
      obtain ⟨_, rfl⟩ | ⟨_, hold⟩ := (hget n s).mp hn
      · exact .inl rfl
      · exact .inr ⟨n, hold⟩
  · obtain ⟨_, rfl⟩ | ⟨_, hold⟩ := (hget n s).mp hn
    · exact hslot
    · exact h.slot n s hold
  · obtain ⟨rfl, _⟩ | ⟨_, hold⟩ := (hget n s).mp hn
    · exact howner
    · exact h.present hdropping n s hold

/-- A player leaves the scope. -/
theorem PlayersCoherent.leave (h : PlayersCoherent w client) (hslot : client.playersToSlots[netId]? = some slotId) :
    PlayersCoherent w { client with
      playersInScope := client.playersInScope.erase slotId
      playersToSlots := client.playersToSlots.erase netId } := by
  have hget : ∀ n s, (client.playersToSlots.erase netId)[n]? = some s ↔
      netId ≠ n ∧ client.playersToSlots[n]? = some s := by
    intro n s
    rw [TreeMap.getElem?_erase]
    by_cases hn : netId = n <;> simp [hn]
  refine ⟨fun n n' s hn hn' => ?_, fun s => ?_, fun n s hn => ?_, fun hdropping n s hn => ?_⟩
  · exact h.injective n n' s ((hget n s).mp hn).2 ((hget n' s).mp hn').2
  · rw [Finset.mem_erase, h.image s]
    constructor
    · rintro ⟨hne, n, hn⟩
      refine ⟨n, (hget n s).mpr ⟨?_, hn⟩⟩
      rintro rfl
      exact hne (Option.some.inj (hn.symm.trans hslot))
    · rintro ⟨n, hn⟩
      obtain ⟨hne, hold⟩ := (hget n s).mp hn
      refine ⟨?_, n, hold⟩
      rintro rfl
      exact hne (h.injective _ _ _ hslot hold)
  · exact h.slot n s ((hget n s).mp hn).2
  · exact h.present hdropping n s ((hget n s).mp hn).2

/-- The player slots of a client, its net id, and whether it is dropping. -/
def playerSlots (client : Client) : Nat × TreeMap Nat Nat × Finset Nat × Bool :=
  (client.netId, client.playersToSlots, client.playersInScope, client.isDropping)

/-- Big mode, net ids that are not 0, and coherent player slots for every client of the registry. -/
structure SlotsCoherent (w : ServerGameState Tree) : Prop where
  bigMode : w.bigMode = true
  netId_ne : ∀ c ∈ w.alive, (w.clients c).netId ≠ 0
  coherent : ∀ c ∈ w.connected, PlayersCoherent w (w.clients c)

/-- Two states with the same players. -/
abbrev SamePlayers (w w' : ServerGameState Tree) : Prop := Same noView playerSlots w w'

theorem PlayersCoherent.of_same {client' : Client} (hsame : SamePlayers w w') (h : PlayersCoherent w client)
    (hclient : playerSlots client' = playerSlots client) : PlayersCoherent w' client' := by
  have hmap : client'.playersToSlots = client.playersToSlots := congrArg (·.2.1) hclient
  have hscope : client'.playersInScope = client.playersInScope := congrArg (·.2.2.1) hclient
  have hdropping : client'.isDropping = client.isDropping := congrArg (·.2.2.2) hclient
  have hnet : ∀ owner, (w'.clients owner).netId = (w.clients owner).netId :=
    fun owner => congrArg Prod.fst (hsame.client owner)
  refine ⟨?_, ?_, ?_, ?_⟩ <;> rw [hmap]
  · exact h.injective
  · rw [hscope]
    exact h.image
  · exact h.slot
  · simp only [hsame.alive, hnet, hdropping]
    exact h.present

theorem SlotsCoherent.of_same (h : w.SlotsCoherent) (hsame : SamePlayers w w') : w'.SlotsCoherent where
  bigMode := hsame.bigMode.trans h.bigMode
  netId_ne c hc := by
    have hnet : (w'.clients c).netId = (w.clients c).netId := congrArg Prod.fst (hsame.client c)
    rw [hnet]
    exact h.netId_ne c (hsame.alive ▸ hc)
  coherent c hc := (h.coherent c (hsame.connected ▸ hc)).of_same hsame (hsame.client c)

/-- One client's player slots change. -/
theorem SlotsCoherent.modifyClient (h : w.SlotsCoherent) (c : ClientPtr) {f : Client → Client}
    (hnet : (f (w.clients c)).netId = (w.clients c).netId)
    (hcoherent : PlayersCoherent w (w.clients c) → PlayersCoherent w (f (w.clients c))) :
    (w.modifyClient c f).SlotsCoherent := by
  have hnets := modifyClient_eq Client.netId w c hnet
  have hlift : ∀ client, PlayersCoherent w client → PlayersCoherent (w.modifyClient c f) client := by
    refine fun client h => ⟨h.injective, h.image, h.slot, fun hdropping n s hn => ?_⟩
    simp only [hnets]
    exact h.present hdropping n s hn
  refine ⟨h.bigMode, fun c' hc' => ?_, fun c' hc' => ?_⟩
  · rw [hnets]
    exact h.netId_ne c' hc'
  · by_cases heq : c' = c
    · subst heq
      rw [modifyClient_self]
      exact hlift _ (hcoherent (h.coherent c' hc'))
    · rw [modifyClient_of_ne w f heq]
      exact hlift _ (h.coherent c' hc')

theorem SlotsCoherent.leavePlayer (h : w.SlotsCoherent) (c : ClientPtr) (e : SyncEntityPtr) :
    (w.leavePlayer c e).SlotsCoherent := by
  unfold ServerGameState.leavePlayer
  split
  · split
    · rename_i hslot
      split
      · exact h.modifyClient c rfl fun hcoherent => hcoherent.leave hslot
      · exact h
    · exact h
  · exact h

theorem findPlayerSlot_some {playersInScope : Finset Nat} (h : findPlayerSlot playersInScope = some slotId) :
    slotId ∉ playersInScope ∧ slotId < 128 ∧ slotId ≠ 31 := by
  have hmem := List.mem_of_find?_eq_some h
  rw [List.mem_filter, List.mem_reverse, List.mem_range] at hmem
  exact ⟨of_decide_eq_true (List.find?_some h :), hmem.1, of_decide_eq_true hmem.2⟩

/-- The player that takes a slot is of a client that is alive, and has none. -/
theorem playerWithoutSlot_some (h : w.playerWithoutSlot c e = some netId) :
    (∃ owner ∈ w.alive, (w.clients owner).netId = netId) ∧ (w.clients c).playersToSlots[netId]? = none := by
  unfold playerWithoutSlot at h
  split at h
  · obtain ⟨howner, hnew⟩ := Option.filter_eq_some_iff.mp h
    obtain ⟨owner, hlock, rfl⟩ := Option.map_eq_some_iff.mp howner
    refine ⟨⟨owner, (lock_eq_some.mp hlock).2, rfl⟩, ?_⟩
    rw [Bool.not_eq_true', TreeMap.contains_eq_isSome_getElem?, Option.isSome_eq_false_iff, Option.isNone_iff_eq_none]
      at hnew
    exact hnew
  · cases h

theorem SlotsCoherent.enterPlayer (h : w.SlotsCoherent) (c : ClientPtr) (e : SyncEntityPtr) :
    (w.enterPlayer c e).SlotsCoherent := by
  unfold ServerGameState.enterPlayer
  split
  · rename_i netId slotId hplayer hslot
    obtain ⟨⟨owner, howner, hnet⟩, hnew⟩ := playerWithoutSlot_some hplayer
    obtain ⟨hfree, hslot⟩ := findPlayerSlot_some hslot
    have hne : netId ≠ 0 := hnet ▸ h.netId_ne owner howner
    simp only [if_neg hne]
    exact h.modifyClient c rfl fun hcoherent => hcoherent.enter ⟨owner, howner, hnet⟩ hnew hfree hslot
  · exact h

theorem playerSlots_owners : @IgnoresOwners Tree _ _ noView playerSlots := ⟨fun _ _ _ _ => rfl, fun _ _ _ => rfl⟩

theorem playerSlots_scopes : @IgnoresScopes Tree _ _ noView playerSlots :=
  ⟨fun _ _ _ _ _ _ _ => rfl, fun _ _ _ _ _ => rfl⟩

theorem playerSlots_messages : IgnoresMessages playerSlots := fun _ _ _ _ _ => rfl

theorem SlotsCoherent.deleteEntities (h : w.SlotsCoherent) (c : ClientPtr) :
    (w.deleteEntities tree c).SlotsCoherent := by
  unfold ServerGameState.deleteEntities
  dsimp only
  apply List.foldlRecOn
  · exact h.of_same (Loop.keeps _ Same.refl Same.trans (same_moveDeleting playerSlots_scopes c) _ w)
  · intro w h entityPair _
    obtain hsame | ⟨left, e, hleft, hsame⟩ :=
      processDeletion_same playerSlots_owners playerSlots_scopes c w entityPair
    · rw [hsame]
      exact h
    · rw [hsame]
      exact (h.of_same hleft).leavePlayer c e

theorem SlotsCoherent.syncEntity (input : ScopeInput) (c : ClientPtr)
    (acc : ServerGameState Tree × List (Nat × SyncEntityPtr × Bool)) (identPair : Nat × Nat)
    (h : acc.1.SlotsCoherent) :
    (ServerGameState.syncEntity input c acc identPair).1.SlotsCoherent := by
  obtain ⟨left, right, hleft, hplayer, hright⟩ :=
    syncEntity_same playerSlots_owners playerSlots_scopes input c acc identPair
  refine of_same ?_ hright
  obtain rfl | ⟨e, rfl⟩ := hplayer
  · exact h.of_same hleft
  · exact (h.of_same hleft).enterPlayer c e

theorem SlotsCoherent.tickClient (h : w.SlotsCoherent) (input : ScopeInput) (c : ClientPtr) :
    (w.tickClient tree input c).SlotsCoherent := by
  unfold ServerGameState.tickClient
  split
  · exact h
  · have hdelete := @SlotsCoherent.deleteEntities _ tree _ h c
    dsimp only
    generalize w.deleteEntities tree c = w' at hdelete ⊢
    have hloop : ∀ (l : List (Nat × Nat)) (w : ServerGameState Tree), w.SlotsCoherent →
        SlotsCoherent (l.foldl (ServerGameState.syncEntity input c) (w, [])).1 := fun l w h =>
      @List.foldlRecOn _ _ (fun acc => SlotsCoherent acc.1) l (ServerGameState.syncEntity input c) (w, []) h
        fun acc hacc identPair _ => SlotsCoherent.syncEntity input c acc identPair hacc
    refine of_same (hloop _ _ ?_) (same_saveFrame playerSlots_scopes _ c _ _ _)
    split
    · exact hdelete.of_same (same_modifyClient w' c rfl)
    · exact hdelete

theorem SlotsCoherent.tick (h : w.SlotsCoherent) (input : ScopeInput) : (w.tick tree input).SlotsCoherent := by
  have hscopes := h.of_same (@same_updateScopes _ tree _ _ _ _ playerSlots_scopes input w)
  have hloop : SlotsCoherent ((w.updateScopes tree input).allClients.foldl (ServerGameState.tickClient tree input)
      (w.updateScopes tree input)) := by
    apply List.foldlRecOn
    · exact hscopes
    · exact fun w h c _ => h.tickClient input c
  exact hloop.of_same ⟨rfl, fun _ => rfl, fun _ => rfl⟩

theorem same_dropEntity (distance : SyncEntityPtr → ClientPtr → Nat) (c : ClientPtr) (slotId : Nat)
    (acc : ServerGameState Tree × List Nat) (e : SyncEntityPtr) :
    SamePlayers acc.1 (dropEntity tree distance c slotId acc e).1 := by
  unfold dropEntity
  dsimp only
  generalize hw : acc.1.modifyEntity e _ = w
  have hsame : SamePlayers acc.1 w := hw ▸ same_modifyEntity acc.1 e rfl
  have hmove := @same_moveEntityToCandidate _ tree _ _ _ _ playerSlots_owners distance w c e
  generalize w.moveEntityToCandidate tree distance c e = moved at hmove ⊢
  obtain ⟨found, w'⟩ := moved
  cases found with
  | true => exact hsame.trans hmove
  | false =>
    dsimp only at hmove ⊢
    split
    · exact (hsame.trans hmove).trans (same_reassignEntity playerSlots_owners _ _ _)
    · exact hsame.trans hmove

/-- The drop of a player takes it out of the tables of the clients that are not dropping. -/
theorem PlayersCoherent.dropPlayer (h : PlayersCoherent w (w.clients c)) (hmode : w.bigMode = true)
    (hc : c ∈ w.connected) (netId : Nat) :
    PlayersCoherent w ((w.dropPlayer netId).clients c) ∧ (((w.dropPlayer netId).clients c).isDropping = false →
      ((w.dropPlayer netId).clients c).playersToSlots[netId]? = none) := by
  unfold ServerGameState.dropPlayer
  rw [hmode, if_pos rfl]
  dsimp only
  split
  · rename_i slot hslot
    split
    · exact ⟨h.leave hslot, fun _ => TreeMap.getElem?_erase_self⟩
    · rename_i hdropping
      exact ⟨h, fun hnot => absurd (mem_allClients.mpr ⟨hc, hnot⟩) hdropping⟩
  · exact ⟨h, fun _ => ‹_›⟩

/-- A dropped client leaves the tables before its net id can be used again. -/
theorem SlotsCoherent.handleClientDrop (h : w.SlotsCoherent) (distance : SyncEntityPtr → ClientPtr → Nat)
    (hnet : netId = (w.clients c).netId) :
    ((w.handleClientDrop tree distance c netId slotId).free c).SlotsCoherent := by
  have hstill := still_dropPlayer w netId
  have hmode : (w.dropPlayer netId).bigMode = true := by
    rw [← h.bigMode]
    unfold dropPlayer
    split <;> rfl
  have hdropped : ((w.dropPlayer netId).free c).SlotsCoherent := by
    refine ⟨hmode, fun c' hc' => ?_, fun c' hc' => ?_⟩
    · have halive : c' ∈ w.alive := hstill.alive ▸ List.mem_of_mem_filter hc'
      exact (hstill.netId c').symm ▸ h.netId_ne c' halive
    · have hconnected : c' ∈ w.connected := hstill.connected ▸ hc'
      obtain ⟨hcoherent, hnone⟩ := (h.coherent c' hconnected).dropPlayer h.bigMode hconnected netId
      refine ⟨hcoherent.injective, hcoherent.image, hcoherent.slot, fun hdropping netId' slotId' hslot => ?_⟩
      obtain ⟨owner, howner, hnet'⟩ := hcoherent.present hdropping netId' slotId' hslot
      refine ⟨owner, List.mem_filter.mpr ⟨hstill.alive.symm ▸ howner, ?_⟩, (hstill.netId owner).trans hnet'⟩
      rw [decide_eq_true_iff]
      rintro rfl
      rw [← hnet', ← hnet] at hslot
      exact Option.some_ne_none slotId' (hslot.symm.trans (hnone hdropping))
  have hloop := Loop.keeps (fun acc acc' : ServerGameState Tree × List Nat => SamePlayers acc.1 acc'.1)
    (fun acc => .refl acc.1) Same.trans (@same_dropEntity _ tree distance c slotId) (w.dropPlayer netId).entityList
    (w.dropPlayer netId, [])
  have hsame : SamePlayers (w.dropPlayer netId) (w.handleClientDrop tree distance c netId slotId) :=
    hloop.trans ((Loop.keeps _ Same.refl Same.trans same_removeClone _ _).trans (same_entities rfl rfl))
  refine hdropped.of_same ⟨?_, fun _ => rfl, hsame.client⟩
  dsimp only [free]
  rw [hsame.bigMode, hsame.connected, hsame.alive]

/-- A client that is dropping needs less, and one that leaves the registry nothing. -/
theorem SlotsCoherent.dropClient (h : w.SlotsCoherent) (c : ClientPtr) : (w.dropClient c).SlotsCoherent :=
  h.modifyClient c rfl fun hcoherent =>
    ⟨hcoherent.injective, hcoherent.image, hcoherent.slot, fun hnot => nomatch hnot⟩

theorem SlotsCoherent.removeClient (h : w.SlotsCoherent) (c : ClientPtr) : (w.removeClient c).SlotsCoherent := by
  have hslot : SlotsCoherent (w.modifyClient c fun client => { client with slotId := noSlot }) :=
    h.of_same (same_modifyClient w c rfl)
  refine ⟨hslot.bigMode, hslot.netId_ne, fun c' hc' => ?_⟩
  have hcoherent := hslot.coherent c' (List.mem_of_mem_filter hc')
  exact ⟨hcoherent.injective, hcoherent.image, hcoherent.slot, hcoherent.present⟩

/-- A client connects without player slots, and no scope has its net id. -/
theorem SlotsCoherent.connect {netId slotId : Nat} (h : w.SlotsCoherent) (hconsistent : w.Consistent)
    (hc : c ∉ w.alive) (hne : netId ≠ 0) :
    SlotsCoherent { w.modifyClient c fun _ => { netId, slotId } with
      connected := c :: w.connected, alive := c :: w.alive } := by
  have hold : ∀ c' ∈ w.alive, (w.modifyClient c fun _ => { netId, slotId }).clients c' = w.clients c' :=
    fun c' hc' => modifyClient_of_ne w _ fun heq => hc (heq ▸ hc')
  have hempty : ∀ (netId' : Nat), (∅ : TreeMap Nat Nat)[netId']? = none := fun _ => TreeMap.getElem?_emptyc
  refine ⟨h.bigMode, fun c' hc' => ?_, fun c' hc' => ?_⟩
  · dsimp only
    obtain rfl | hmem := List.mem_cons.mp hc'
    · rw [modifyClient_self]
      exact hne
    · rw [hold c' hmem]
      exact h.netId_ne c' hmem
  · dsimp only
    obtain rfl | hmem := List.mem_cons.mp hc'
    · rw [modifyClient_self]
      refine ⟨fun _ _ _ hslot => ?_, fun _ => ?_, fun _ _ hslot => ?_, fun _ _ _ hslot => ?_⟩
      · cases (hempty _).symm.trans hslot
      · simp
      · cases (hempty _).symm.trans hslot
      · cases (hempty _).symm.trans hslot
    · rw [hold c' (hconsistent.alive c' hmem)]
      have hcoherent := h.coherent c' hmem
      refine ⟨hcoherent.injective, hcoherent.image, hcoherent.slot, fun hdropping netId' slotId' hslot => ?_⟩
      obtain ⟨owner, howner, hnet⟩ := hcoherent.present hdropping netId' slotId' hslot
      exact ⟨owner, List.mem_cons_of_mem _ howner, by rw [hold owner howner]; exact hnet⟩

theorem SlotsCoherent.gameStateNAck (h : w.SlotsCoherent) (c : ClientPtr) (nack : FrameNAck) :
    (w.gameStateNAck c nack).SlotsCoherent := by
  unfold ServerGameState.gameStateNAck
  split
  · split
    · exact h.of_same (same_modifyClient w c (same_nackClient playerSlots_scopes ‹_›))
    · exact h.dropClient c
  · exact h

/-- The sync thread takes a callback. -/
theorem SlotsCoherent.runSyncCallback {callback : SyncCallback} {syncCallbacks : List SyncCallback}
    (h : w.SlotsCoherent) (hconsistent : w.Consistent) (hqueue : w.syncCallbacks = callback :: syncCallbacks)
    (distance : SyncEntityPtr → ClientPtr → Nat) :
    (ServerGameState.runSyncCallback tree distance { w with syncCallbacks } callback).SlotsCoherent := by
  have hpop : SlotsCoherent { w with syncCallbacks } := h.of_same (same_entities rfl rfl)
  cases callback with
  | removeClone e => exact hpop.of_same (same_removeClone _ _)
  | doRemove e => exact hpop.of_same (same_unregister playerSlots_owners _ e)
  | handleClientDrop c netId slotId =>
    have hnet := (hconsistent.dropped c netId slotId (hqueue ▸ List.mem_cons_self)).1
    exact hpop.handleClientDrop distance hnet

theorem SlotsCoherent.processRecord (h : w.SlotsCoherent) (c : ClientPtr) (record : CloneRecord) :
    (w.processRecord tree c record).2.SlotsCoherent := by
  by_cases htakeover : ∀ clientId objectId, record ≠ .takeover clientId objectId
  · exact h.of_same (same_processRecord playerSlots_messages playerSlots_scopes w c htakeover)
  · simp only [not_forall, not_not] at htakeover
    obtain ⟨clientId, objectId, rfl⟩ := htakeover
    exact h.of_same (same_processCloneTakeover playerSlots_owners w c clientId objectId)

theorem SlotsCoherent.step {a : Action Tree} (h : w.SlotsCoherent) (hconsistent : w.Consistent)
    (hstep : step tree w a = some w') : w'.SlotsCoherent := by
  cases a with
  | connect c netId slotId =>
    obtain ⟨⟨⟨hc, _⟩, hne, _, _⟩, hw⟩ := Option.ite_none_right_eq_some.mp hstep
    cases hw
    exact h.connect hconsistent hc hne
  | dropClient c =>
    obtain ⟨_, hw⟩ := Option.ite_none_right_eq_some.mp hstep
    cases hw
    exact h.dropClient c
  | removeClient c =>
    obtain ⟨_, hw⟩ := Option.ite_none_right_eq_some.mp hstep
    cases hw
    exact h.removeClient c
  | syncCallback distance =>
    obtain ⟨callback, syncCallbacks, hqueue, rfl⟩ := step_syncCallback hstep
    exact h.runSyncCallback hconsistent hqueue distance
  | record c record =>
    obtain ⟨_, hw⟩ := Option.ite_none_right_eq_some.mp hstep
    cases hw
    exact h.processRecord c record
  | ack c record =>
    obtain ⟨_, hw⟩ := Option.ite_none_right_eq_some.mp hstep
    cases hw
    exact h.of_same (same_parseAck playerSlots_scopes w c record)
  | gameStateAck c frameIndex recreates =>
    obtain ⟨_, hw⟩ := Option.ite_none_right_eq_some.mp hstep
    cases hw
    exact h.of_same (same_gameStateAck playerSlots_scopes w c frameIndex recreates)
  | gameStateNAck c nack =>
    obtain ⟨_, hw⟩ := Option.ite_none_right_eq_some.mp hstep
    cases hw
    exact h.gameStateNAck c nack
  | ensureStateBag e =>
    obtain ⟨_, hw⟩ := Option.ite_none_right_eq_some.mp hstep
    cases hw
    exact h.of_same (same_modifyEntity w e rfl)
  | deleteEntity e =>
    obtain ⟨_, hw⟩ := Option.ite_none_right_eq_some.mp hstep
    cases hw
    exact h.of_same (same_deleteEntity w e)
  | entityCreating e cancelled =>
    obtain ⟨_, hw⟩ := Option.ite_none_right_eq_some.mp hstep
    cases hw
    have hpassed : SlotsCoherent (w.modifyEntity e fun entity =>
        { entity with entityCreating := false, passedFilter := entity.passedFilter || !cancelled }) :=
      h.of_same (same_modifyEntity w e rfl)
    unfold onEntityCreating
    dsimp only
    split
    · exact hpassed.of_same (same_deleteEntity _ e)
    · exact hpassed
  | reassign entityHandle targetClient =>
    obtain ⟨_, hw⟩ := Option.ite_none_right_eq_some.mp hstep
    cases hw
    exact h.of_same (same_reassignEntity playerSlots_owners w entityHandle _)
  | entityRemoved e =>
    obtain ⟨_, hw⟩ := Option.ite_none_right_eq_some.mp hstep
    cases hw
    exact h.of_same (same_entities rfl rfl)
  | createEntityFromTree type syncTree uniqifier =>
    obtain ⟨_, hw⟩ := Option.ite_none_right_eq_some.mp hstep
    cases hw
    exact h.of_same (same_entities rfl rfl)
  | setRoutingBucket c bucket =>
    cases hstep
    exact h.of_same (same_modifyClient w c rfl)
  | createRpc | setLockdownMode | wait =>
    cases hstep
    exact h.of_same (same_entities rfl rfl)
  | tick input =>
    cases hstep
    exact h.tick input

/-- In big mode, the player slots of every client of the registry are coherent in every state that the server
reaches. A client leaves the registry before its drop is handled; until then it is in `w.alive`, and the tables
of the others may name it. -/
theorem run_playersCoherent {blank : SyncEntityState Tree} {syncStyle : SyncStyle} {lengthHack : Bool}
    {acts : List (Action Tree)}
    (hrun : Transition.Run (ServerGameState.step tree) (fun _ _ => True)
    (new blank syncStyle true lengthHack) acts w) :
    ∀ c ∈ w.connected, PlayersCoherent w (w.clients c) := by
  have hinit : SlotsCoherent (new blank syncStyle true lengthHack) :=
    ⟨rfl, (fun _ hc => nomatch hc), (fun _ hc => nomatch hc)⟩
  have hinv := hrun.invariant
    (fun w => w.Consistent ∧ w.SlotsCoherent) ⟨consistent_new blank syncStyle true lengthHack, hinit⟩ fun h _ hstep =>
      ⟨h.1.step hstep, h.2.step h.1 hstep⟩
  exact hinv.2.coherent

/-- Three players, of whom the first two come into the third one's scope, and the first drops. -/
def droppedRun : List (Action Unit) :=
  [.connect 1 1 0, .connect 2 2 1, .connect 3 3 2, .record 1 (.create 7 5 0 11 []), .record 2 (.create 7 6 0 11 []),
    .tick (uncull .NAK [2]), .dropClient 1, .removeClient 1, .tick (uncull .NAK [2]), .syncCallback fun _ _ => 0]

theorem run_playersCoherent_three : ∃ w : ServerGameState Unit,
    Transition.Run (ServerGameState.step plainTree) (fun _ _ => True) (plain .NAK true) droppedRun w ∧
    (w.clients 3).playersToSlots[2]? = some 126 ∧ (w.clients 3).playersToSlots[1]? = none ∧ w.connected = [3, 2] ∧
      ∀ c ∈ w.connected, PlayersCoherent w (w.clients c) := by
  have hend : ((Transition.exec (ServerGameState.step plainTree) (plain .NAK true) droppedRun).any fun w =>
      decide ((w.clients 3).playersToSlots[2]? = some 126 ∧ (w.clients 3).playersToSlots[1]? = none ∧
        w.connected = [3, 2])) = true := by decide +kernel
  obtain ⟨w, hrun, hw⟩ := Transition.exists_run hend
  obtain ⟨hkept, hleft, hconnected⟩ := of_decide_eq_true hw
  exact ⟨w, hrun, hkept, hleft, hconnected, run_playersCoherent hrun⟩

/-- Two players, both to be dropped, of whom the first leaves the registry. -/
def droppingRun : List (Action Unit) :=
  [.connect 1 1 0, .connect 2 2 1, .record 1 (.create 7 5 0 11 []), .tick (uncull .NAK [1]), .dropClient 1,
    .dropClient 2, .removeClient 1, .syncCallback fun _ _ => 0]

/-- The second is still in the registry, and its table names the first. -/
theorem dropping_names_dropped : ∃ w : ServerGameState Unit,
    Transition.Run (ServerGameState.step plainTree) (fun _ _ => True) (plain .NAK true) droppingRun w ∧
      w.connected = [2] ∧ (w.clients 2).playersToSlots[1]? = some 127 ∧
        ¬ ∃ owner ∈ w.connected, (w.clients owner).netId = 1 := by
  have hend : ((Transition.exec (ServerGameState.step plainTree) (plain .NAK true) droppingRun).any fun w =>
      decide (w.connected = [2] ∧ (w.clients 2).playersToSlots[1]? = some 127 ∧ (w.clients 2).netId = 2)) = true := by
    decide +kernel
  obtain ⟨w, hrun, hw⟩ := Transition.exists_run hend
  obtain ⟨hconnected, hslot, hnet⟩ := of_decide_eq_true hw
  refine ⟨w, hrun, hconnected, hslot, ?_⟩
  rintro ⟨owner, howner, hone⟩
  rw [hconnected, List.mem_singleton] at howner
  rw [howner, hnet] at hone
  cases hone

end ServerGameState

end fx
