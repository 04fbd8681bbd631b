import Citizen.GameState.Creations
import Citizen.GameState.Frames
import Citizen.ServerRPC.Native

open Std Transition

namespace fx

open sync

namespace ServerGameState

variable {Tree : Type*} {tree : SyncTreeBase Tree} {w w' w₁ : ServerGameState Tree} {c : ClientPtr} {e : SyncEntityPtr}

/-- The token was issued, and an entity has used it up. -/
def TokenUsed (w : ServerGameState Tree) (creationToken : Nat) : Prop :=
  ∃ clientIdx, w.entityCreationList creationToken = some ⟨clientIdx, false⟩

/-- The entity is subject to a strict lockdown in every case: only objects have other ways in. -/
def Restricted (entity : SyncEntityState Tree) : Prop := entity.type = .Ped ∨ entity.type.isVehicle = true

/-- The tokens that are issued are draws of the generator. -/
def TokensDrawn : Action Tree → Prop
  | .createRpc creationToken _ =>
    ∃ n, creationToken = (Congruential.next ServerRPC.minstd.1 ServerRPC.minstd.2)^[n + 1] 1
  | _ => True

theorem TokensDrawn.ne_zero {creationToken : Nat} {clientIdx : Option Nat}
    (h : @TokensDrawn Tree (.createRpc creationToken clientIdx)) : creationToken ≠ 0 := by
  obtain ⟨n, rfl⟩ := h
  exact Congruential.iterate_ne_zero (by decide +kernel) (Nat.coprime_one_right _) (by decide) n

theorem tokenAllows_eq_true {creationToken : Nat} :
    w.tokenAllows creationToken = true ↔ ∃ clientIdx, w.entityCreationList creationToken = some ⟨clientIdx, true⟩ := by
  rw [tokenAllows, Option.any_eq_true]
  constructor
  · rintro ⟨⟨clientIdx, _⟩, hfound, rfl⟩
    exact ⟨clientIdx, hfound⟩
  · rintro ⟨clientIdx, hfound⟩
    exact ⟨_, hfound, rfl⟩

/-- Strict lockdown asks a ped or a vehicle for its token. -/
theorem validateEntity_strict {entity : SyncEntityState Tree} (h : Restricted entity) :
    w.validateEntity tree .Strict entity = w.tokenAllows entity.creationToken := by
  have hobject : entity.type ≠ .Object := by
    intro htype
    rw [Restricted, htype] at h
    simp [NetObjEntityType.isVehicle] at h
  simp [validateEntity, hobject]

/-- What a create does to the tokens and the registry when the new entity `e` is registered. -/
structure Admits (tree : SyncTreeBase Tree) (w w' : ServerGameState Tree) (c : ClientPtr) (e : SyncEntityPtr)
    (objectId creationToken : Nat) : Prop where
  entitiesById : w'.entitiesById = Function.update w.entitiesById objectId (some e)
  creationToken : (w'.entities e).creationToken =
    if (w.entityCreationList creationToken).isSome then creationToken else 0
  entityCreationList : w'.entityCreationList = (w.onEntityCreate (w'.entities e).creationToken).entityCreationList
  allowed : Restricted (w'.entities e) → w.lockdownMode (w.clients c).routingBucket = .Strict →
    w.tokenAllows (w'.entities e).creationToken = true

/-- A create that registers nothing leaves the tokens and the registry alone. -/
structure Refuses (w w' : ServerGameState Tree) : Prop where
  entitiesById : ∀ id e, w'.entitiesById id = some e → w.entitiesById id = some e
  entityCreationList : w'.entityCreationList = w.entityCreationList

theorem cloneCreated_cases (w : ServerGameState Tree) (c : ClientPtr) (e : SyncEntityPtr) :
    Refuses w (w.cloneCreated tree c e).2 ∨
      Admits tree w (w.cloneCreated tree c e).2 c e (w.entities e).handle (w.entities e).creationToken := by
  unfold cloneCreated
  dsimp only
  generalize hmade : w.modifyEntity e _ = made
  have hhandle : (made.entities e).handle = (w.entities e).handle := by
    rw [← hmade, modifyEntity_self]
  have htoken : (made.entities e).creationToken =
      if (w.entityCreationList (w.entities e).creationToken).isSome then (w.entities e).creationToken else 0 := by
    rw [← hmade, modifyEntity_self]
  have hbyId : made.entitiesById = w.entitiesById := hmade ▸ rfl
  have hlist : made.entityCreationList = w.entityCreationList := hmade ▸ rfl
  have hclients : made.clients = w.clients := hmade ▸ rfl
  have hmode : made.lockdownMode = w.lockdownMode := hmade ▸ rfl
  split
  · have hremove := noCreation_removeClone made (made.entities e).handle
    exact .inl ⟨fun id e' h => hbyId ▸ hremove.entitiesById id e' h, hremove.entityCreationList.trans hlist⟩
  · rename_i hvalid
    -- only the flag of the event is set after the entity has been checked
    generalize hevent : (made.onEntityCreate (made.entities e).creationToken).modifyEntity e _ = event
    have hentity : event.entities e = { made.entities e with entityCreating := true } := by
      rw [← hevent, modifyEntity_self]
      rfl
    refine .inr ⟨?_, ?_, ?_, fun hrestricted hstrict => ?_⟩
    · dsimp only [register, modifyClient]
      rw [hentity, ← hevent]
      dsimp only [modifyEntity, onEntityCreate]
      rw [hhandle, hbyId]
    · dsimp only [register, modifyClient]
      rw [hentity]
      exact htoken
    · dsimp only [register, modifyClient]
      rw [hentity, ← hevent]
      dsimp only [modifyEntity, onEntityCreate]
      rw [hlist]
    · dsimp only [register, modifyClient] at hrestricted ⊢
      rw [hentity] at hrestricted ⊢
      change Restricted (made.entities e) at hrestricted
      rw [hclients, hmode, hstrict] at hvalid
      have hplayer : (made.entities e).type ≠ .Player := by
        intro htype
        rw [Restricted, htype] at hrestricted
        simp [NetObjEntityType.isVehicle] at hrestricted
      by_contra hdenied
      refine hvalid ⟨hplayer, by decide, ?_⟩
      rw [validateEntity_strict hrestricted, tokenAllows, hlist]
      exact Bool.eq_false_of_not_eq_true hdenied

/-- A record that has found its entity does not change lockdown modes and routing buckets. -/
theorem syncClone_lockdown (w : ServerGameState Tree) (c : ClientPtr) (e : SyncEntityPtr) (parsingType uniqifier : Nat)
    (bitBytes : List (BitVec 8)) :
    let w' := (w.syncClone tree c e parsingType uniqifier bitBytes).2
    w'.lockdownMode = w.lockdownMode ∧ ∀ c', (w'.clients c').routingBucket = (w.clients c').routingBucket := by
  refine ⟨?_, (same_syncClone (fun _ _ _ _ _ => rfl) w c e parsingType uniqifier bitBytes).client⟩
  obtain ⟨result, _, h⟩ | ⟨_, ⟨result, _, _, h⟩ | ⟨_, h⟩⟩ := syncClone_cases tree w c e parsingType uniqifier bitBytes
  · rw [h]
  · rw [h]
    rfl
  · rw [h]
    unfold receiveClone
    dsimp only
    generalize hw : (w.modifyEntity e (·.enterScope (w.clients c).slotId)).modifyEntity e _ = w'
    have hmode : w'.lockdownMode = w.lockdownMode := hw ▸ rfl
    split <;> exact hmode

theorem processCloneCreate_cases (w : ServerGameState Tree) (c : ClientPtr)
    (uniqifier objectId creationToken objectType : Nat) (bitBytes : List (BitVec 8)) :
    let w' := (w.processCloneCreate tree c uniqifier objectId creationToken objectType bitBytes).2
    Refuses w w' ∨ Admits tree w w' c w.nextEntity objectId creationToken := by
  dsimp only
  unfold processCloneCreate
  split
  · exact .inl ⟨fun _ _ h => h, rfl⟩
  · split
    · exact .inl ⟨fun _ _ h => h, rfl⟩
    · split
      · exact .inl ⟨fun _ _ h => h, rfl⟩
      · rename_i type _
        dsimp only
        generalize hentity : w.construct tree c uniqifier objectId creationToken type = entity
        have hself : (w.allocate entity).entities w.nextEntity = entity := Function.update_self ..
        have hsync := @noCreation_syncClone _ tree (w.allocate entity) c w.nextEntity 1 uniqifier bitBytes
        have hsame := sameRegistry_syncClone tree (w.allocate entity) c w.nextEntity 1 uniqifier bitBytes
        have hlockdown := @syncClone_lockdown _ tree (w.allocate entity) c w.nextEntity 1 uniqifier bitBytes
        dsimp only at hlockdown
        generalize (w.allocate entity).syncClone tree c w.nextEntity 1 uniqifier bitBytes =
          made at hsync hsame hlockdown ⊢
        split
        · rename_i made
          obtain hrefused | hadmitted := @cloneCreated_cases _ tree made c w.nextEntity
          · exact .inl ⟨fun id e h => hsync.entitiesById id e (hrefused.entitiesById id e h),
              hrefused.entityCreationList.trans hsync.entityCreationList⟩
          · refine .inr ?_
            have hhandle : (made.entities w.nextEntity).handle = objectId := by
              rw [hsame.handle, hself, ← hentity]
              rfl
            have htoken : (made.entities w.nextEntity).creationToken = creationToken := by
              rw [hsync.creationToken, hself, ← hentity]
              rfl
            have hlist : made.entityCreationList = w.entityCreationList := hsync.entityCreationList
            rw [hhandle, htoken] at hadmitted
            refine ⟨?_, ?_, ?_, fun hrestricted hstrict => ?_⟩
            · rw [hadmitted.entitiesById, hsame.entitiesById]
              rfl
            · rw [hadmitted.creationToken, hlist]
            · rw [hadmitted.entityCreationList, onEntityCreate, hlist]
              rfl
            · have hallowed := hadmitted.allowed hrestricted (by rw [hlockdown.1, hlockdown.2]; exact hstrict)
              rwa [tokenAllows, hlist] at hallowed
        · exact .inl ⟨hsync.entitiesById, hsync.entityCreationList⟩

/-- An entity has used its token up, unless the server made it; 0 is no token. -/
def Spent (w : ServerGameState Tree) (entity : SyncEntityState Tree) : Prop :=
  entity.firstOwner = none ∨ entity.creationToken = 0 ∨ w.TokenUsed entity.creationToken

/-- Every registered entity with a token has used it up. -/
structure TokensSpent (w : ServerGameState Tree) : Prop where
  consistent : w.Consistent
  zero : w.entityCreationList 0 = none
  used : ∀ id e, w.entitiesById id = some e → w.Spent (w.entities e)

theorem onEntityCreate_used {creationToken token : Nat} (h : w.TokenUsed token) :
    (w.onEntityCreate creationToken).TokenUsed token := by
  obtain ⟨clientIdx, hfound⟩ := h
  by_cases htoken : token = creationToken
  · exact ⟨some 0, by simp [onEntityCreate, htoken ▸ hfound, htoken]⟩
  · exact ⟨clientIdx, by simp [onEntityCreate, htoken, hfound]⟩

theorem createRpc_used {creationToken token : Nat} {clientIdx : Option Nat} (h : w.TokenUsed token) :
    (w.createRpc creationToken clientIdx).TokenUsed token := by
  obtain ⟨clientIdx', hfound⟩ := h
  exact ⟨clientIdx', by simp [createRpc, hfound]⟩

/-- The steps by what they do to the tokens. -/
theorem step_tokens {a : Action Tree} (hstep : step tree w a = some w') :
    (NoCreation w w' ∧ ∀ creationToken clientIdx, a ≠ .createRpc creationToken clientIdx) ∨
      (∃ creationToken clientIdx, a = .createRpc creationToken clientIdx ∧ w' = w.createRpc creationToken clientIdx) ∨
      (∃ type syncTree uniqifier, a = .createEntityFromTree type syncTree uniqifier ∧
        w' = w.createEntityFromTree type syncTree uniqifier) ∨
      ∃ c uniqifier objectId creationToken objectType bitBytes,
        a = .record c (.create uniqifier objectId creationToken objectType bitBytes) ∧
        (∀ e ≠ w.nextEntity, w'.entities e = w.entities e) ∧
        (Refuses w w' ∨ Admits tree w w' c w.nextEntity objectId creationToken) := by
  by_cases hcreates : a.creates = false
  · refine .inl ⟨noCreation_step hstep hcreates, ?_⟩
    rintro creationToken clientIdx rfl
    cases hcreates
  · cases a with
    | createRpc creationToken clientIdx =>
      cases hstep
      exact .inr (.inl ⟨_, _, rfl, rfl⟩)
    | createEntityFromTree type syncTree uniqifier =>
      obtain ⟨_, hw⟩ := Option.ite_none_right_eq_some.mp hstep
      cases hw
      exact .inr (.inr (.inl ⟨_, _, _, rfl, rfl⟩))
    | record c record =>
      cases record with
      | create uniqifier objectId creationToken objectType bitBytes =>
        obtain ⟨_, hw⟩ := Option.ite_none_right_eq_some.mp hstep
        cases hw
        exact .inr (.inr (.inr ⟨_, _, _, _, _, _, rfl, fun e he => processCloneCreate_entities _ _ _ _ _ he,
          w.processCloneCreate_cases c uniqifier objectId creationToken objectType bitBytes⟩))
      | _ => exact absurd rfl hcreates
    | _ => exact absurd rfl hcreates

/-- A token that is used up stays so. -/
theorem TokenUsed.step {a : Action Tree} {token : Nat} (h : w.TokenUsed token) (hstep : step tree w a = some w') :
    w'.TokenUsed token := by
  have hsame : w'.entityCreationList = w.entityCreationList → w'.TokenUsed token := by
    intro hlist
    rwa [TokenUsed, hlist]
  obtain ⟨hnone, -⟩ | ⟨_, _, -, rfl⟩ | ⟨_, _, _, -, rfl⟩ | ⟨c, _, _, _, _, _, -, -, hrefused | hadmitted⟩ :=
    step_tokens hstep
  · exact hsame hnone.entityCreationList
  · exact createRpc_used h
  · exact hsame rfl
  · exact hsame hrefused.entityCreationList
  · rw [TokenUsed, hadmitted.entityCreationList]
    exact onEntityCreate_used h

theorem TokensSpent.step {a : Action Tree} (h : w.TokensSpent) (hdrawn : TokensDrawn a)
    (hstep : step tree w a = some w') :
    w'.TokensSpent := by
  have hold : ∀ id e, w.entitiesById id = some e → (w'.entities e).origin = (w.entities e).origin →
      w'.Spent (w'.entities e) := by
    intro id e hbyId horigin
    have htoken : (w'.entities e).creationToken = (w.entities e).creationToken := congrArg Prod.fst horigin
    have hfirst : (w'.entities e).firstOwner = (w.entities e).firstOwner := congrArg Prod.snd horigin
    rw [Spent, htoken, hfirst]
    exact (h.used id e hbyId).imp_right (Or.imp_right fun hused => hused.step hstep)
  have hregistered : ∀ id e, w.entitiesById id = some e → e ≠ w.nextEntity := fun id e hbyId =>
    Nat.ne_of_lt (h.consistent.lt_next e (h.consistent.registered id e hbyId).1)
  obtain ⟨hnone, -⟩ | ⟨token, clientIdx, rfl, rfl⟩ | ⟨type, syncTree, uniqifier, -, rfl⟩ |
    ⟨c, _, objectId, token, _, _, -, hentities, hcreate⟩ := step_tokens hstep
  · refine ⟨h.consistent.step hstep, hnone.entityCreationList ▸ h.zero, fun id e hbyId => ?_⟩
    exact hold id e (hnone.entitiesById id e hbyId) (hnone.origin e)
  · refine ⟨h.consistent.step hstep, ?_, fun id e hbyId => hold id e hbyId rfl⟩
    have hne : 0 ≠ token := (TokensDrawn.ne_zero hdrawn).symm
    simp [createRpc, hne, h.zero]
  · refine ⟨h.consistent.step hstep, h.zero, fun id e hbyId => ?_⟩
    have hentities : ∀ e ≠ w.nextEntity, (w.createEntityFromTree type syncTree uniqifier).entities e = w.entities e :=
      fun e he => Function.update_of_ne he ..
    dsimp only [createEntityFromTree, register] at hbyId
    rw [Function.update_apply] at hbyId
    split at hbyId
    · cases hbyId
      have hself : (w.createEntityFromTree type syncTree uniqifier).entities w.nextEntity =
        w.constructFromTree type syncTree uniqifier := Function.update_self ..
      exact .inl (by rw [hself]; rfl)
    · exact hold id e hbyId (congrArg SyncEntityState.origin (hentities e (hregistered id e hbyId)))
  · have hkept : ∀ id e, w.entitiesById id = some e → w'.Spent (w'.entities e) := fun id e hbyId =>
      hold id e hbyId (congrArg SyncEntityState.origin (hentities e (hregistered id e hbyId)))
    obtain hrefused | hadmitted := hcreate
    · exact ⟨h.consistent.step hstep, hrefused.entityCreationList ▸ h.zero,
        fun id e hbyId => hkept id e (hrefused.entitiesById id e hbyId)⟩
    · refine ⟨h.consistent.step hstep, ?_, fun id e hbyId => ?_⟩
      · rw [hadmitted.entityCreationList]
        simp [onEntityCreate, h.zero]
      · rw [hadmitted.entitiesById, Function.update_apply] at hbyId
        split at hbyId
        · cases hbyId
          right
          cases hfound : w.entityCreationList token with
          | none =>
            left
            rw [hadmitted.creationToken, hfound]
            rfl
          | some state =>
            right
            have htoken : (w'.entities w.nextEntity).creationToken = token := by
              rw [hadmitted.creationToken, hfound]
              rfl
            exact ⟨some 0, by simp [hadmitted.entityCreationList, onEntityCreate, htoken, hfound]⟩
        · exact hkept id e hbyId

/-- Every token in the list is of a native of the run. -/
theorem issued_of_run {ok : ServerGameState Tree → Action Tree → Prop} {acts : List (Action Tree)}
    (hrun : Run (step tree) ok w acts w') {token : Nat} (hfound : (w'.entityCreationList token).isSome) :
    (w.entityCreationList token).isSome ∨ ∃ clientIdx, .createRpc token clientIdx ∈ acts := by
  induction hrun with
  | nil => exact .inl hfound
  | @cons w u w' a acts _ hstep _ ih =>
    obtain hbefore | ⟨clientIdx, hmem⟩ := ih hfound
    · obtain ⟨hnone, -⟩ | ⟨token', clientIdx, rfl, rfl⟩ | ⟨_, _, _, -, rfl⟩ |
        ⟨c, _, _, _, _, _, -, -, hrefused | hadmitted⟩ := step_tokens hstep
      · exact .inl (hnone.entityCreationList ▸ hbefore)
      · by_cases htoken : token = token'
        · exact .inr ⟨clientIdx, htoken ▸ List.mem_cons_self⟩
        · exact .inl (by simpa [createRpc, htoken] using hbefore)
      · exact .inl hbefore
      · exact .inl (hrefused.entityCreationList ▸ hbefore)
      · left
        rw [hadmitted.entityCreationList] at hbefore
        unfold onEntityCreate at hbefore
        dsimp only at hbefore
        split at hbefore
        · rwa [Option.isSome_map] at hbefore
        · exact hbefore
    · exact .inr ⟨clientIdx, List.mem_cons_of_mem _ hmem⟩

theorem tokensSpent_new (blank : SyncEntityState Tree) (syncStyle : SyncStyle) (bigMode lengthHack : Bool) :
    (new blank syncStyle bigMode lengthHack).TokensSpent :=
  ⟨consistent_new blank syncStyle bigMode lengthHack, rfl, fun _ _ h => nomatch h⟩

theorem TokensSpent.run {acts : List (Action Tree)} (h : w.TokensSpent)
    (hrun : Run (ServerGameState.step tree) (fun _ a => TokensDrawn a) w acts w') : w'.TokensSpent :=
  hrun.invariant TokensSpent h fun hinv hok htake => hinv.step hok htake

theorem TokenUsed.run {ok : ServerGameState Tree → Action Tree → Prop} {acts : List (Action Tree)} {token : Nat}
    (h : w.TokenUsed token) (hrun : Run (ServerGameState.step tree) ok w acts w') : w'.TokenUsed token :=
  hrun.invariant (TokenUsed · token) h fun hinv _ htake => hinv.step htake

/-- Two clients, strict lockdown, and a native whose token goes to the first client. -/
def lockdownRun : List (Action Unit) :=
  [.connect 1 1 0, .connect 2 2 1, .setLockdownMode 0 .Strict, .createRpc 48271 (some 1)]

end ServerGameState

end fx
