import Citizen.Lib.Transition

namespace fx

/-- The sets of `ObjectIdManager.cpp`, with the removes that `CloneManagerLocal` waits for. -/
structure ObjectIds where
  objectIds : List Nat := []
  usedObjectIds : Nat → Bool := fun _ => false
  stolenObjectIds : Nat → Bool := fun _ => false
  pendingRemoveAcks : List (Nat × Nat) := []
  pendingConfirmObjectIds : Nat → Bool := fun _ => false

namespace ObjectIds

/-- `AssignObjectId`. There is no object 0. -/
def assignObjectId (s : ObjectIds) : Nat × ObjectIds :=
  match s.objectIds with
  | [] => (0, s)
  | objectId :: rest =>
    (objectId, { s with
      objectIds := rest
      stolenObjectIds := Function.update s.stolenObjectIds objectId false
      usedObjectIds := Function.update s.usedObjectIds objectId true })

/-- `IsRemovingObjectId`. -/
def isRemovingObjectId (s : ObjectIds) (objectId : Nat) : Bool × ObjectIds :=
  let indeed := s.pendingRemoveAcks.any (·.1 == objectId)
  (indeed, if indeed then { s with pendingConfirmObjectIds := Function.update s.pendingConfirmObjectIds objectId true }
    else s)

/-- `ReturnObjectId`. -/
def returnObjectId (netProtoVersion : Nat) (s : ObjectIds) (objectId : Nat) : ObjectIds :=
  if s.usedObjectIds objectId then
    let s := { s with usedObjectIds := Function.update s.usedObjectIds objectId false }
    let s :=
      if netProtoVersion < 0x201903031957 ∨ s.stolenObjectIds objectId = false then
        let removing := s.isRemovingObjectId objectId
        if removing.1 then removing.2 else { removing.2 with objectIds := removing.2.objectIds ++ [objectId] }
      else s
    { s with stolenObjectIds := Function.update s.stolenObjectIds objectId false }
  else s

/-- `ObjectIds_AddObjectId`. -/
def addObjectId (s : ObjectIds) (objectId : Nat) : ObjectIds :=
  let wasOurs := s.objectIds.contains objectId
  { s with
    usedObjectIds := Function.update s.usedObjectIds objectId true
    objectIds := s.objectIds.erase objectId
    stolenObjectIds := if wasOurs then s.stolenObjectIds else Function.update s.stolenObjectIds objectId true }

/-- `ObjectIds_ConfirmObjectId`. -/
def confirmObjectId (s : ObjectIds) (objectId : Nat) : ObjectIds := { s with objectIds := s.objectIds ++ [objectId] }

/-- `ObjectIds_StealObjectId`. -/
def stealObjectId (s : ObjectIds) (objectId : Nat) : ObjectIds :=
  if s.usedObjectIds objectId then { s with stolenObjectIds := Function.update s.stolenObjectIds objectId true }
  else { s with objectIds := s.objectIds.erase objectId }

/-- `ObjectIds_RemoveObjectId`. -/
def removeObjectId (s : ObjectIds) (objectId : Nat) : ObjectIds :=
  { s with
    usedObjectIds := Function.update s.usedObjectIds objectId false
    stolenObjectIds := Function.update s.stolenObjectIds objectId false }

/-- The start of `ProcessRemoveAck`: the ack is for another object, on the protocols that look at the tracked one. -/
def invalidUniqifier (netProtoVersion uniqifier tracked : Nat) : Bool :=
  decide (netProtoVersion < 0x202002271209 ∧ 0x201912301309 ≤ netProtoVersion ∧ tracked ≠ uniqifier ∧ uniqifier ≠ 0)

/-- The removes that an ack leaves pending. -/
def removesAfter (netProtoVersion : Nat) (s : ObjectIds) (objectId uniqifier : Nat) : List (Nat × Nat) :=
  if 0x202002271209 ≤ netProtoVersion then
    if uniqifier = 0 then s.pendingRemoveAcks.filter (·.1 != objectId)
    else s.pendingRemoveAcks.filter (· != (objectId, uniqifier))
  else if 0x201905190829 ≤ netProtoVersion then s.pendingRemoveAcks.filter (·.1 != objectId)
  else s.pendingRemoveAcks

/-- `sure` of `ProcessRemoveAck`. -/
def sure (s : ObjectIds) (objectId : Nat) : ObjectIds :=
  if s.pendingConfirmObjectIds objectId then
    let s := s.confirmObjectId objectId
    { s with pendingConfirmObjectIds := Function.update s.pendingConfirmObjectIds objectId false }
  else s

/-- `ProcessRemoveAck`, with the uniqifier of the object that is tracked under the id. -/
def processRemoveAck (netProtoVersion : Nat) (s : ObjectIds) (objectId uniqifier tracked : Nat) : ObjectIds :=
  if invalidUniqifier netProtoVersion uniqifier tracked then s
  else sure { s with pendingRemoveAcks := s.removesAfter netProtoVersion objectId uniqifier } objectId

/-- The ids of a `msgObjectIds`, from pairs of ids to skip and more ids to take. -/
def handedOut : Nat → List (Nat × Nat) → List Nat
  | _, [] => []
  | last, (skip, take) :: rest =>
    (List.range (take + 1)).map (last + (skip + 1) + ·) ++ handedOut (last + (skip + 1) + (take + 1)) rest

/-- The handler of `msgObjectIds`. -/
def msgObjectIds (s : ObjectIds) (ids : List Nat) : ObjectIds :=
  { s with
    objectIds := s.objectIds ++ ids
    stolenObjectIds := fun objectId => s.stolenObjectIds objectId && !ids.contains objectId }

/-- The entry points. An object is deleted with a remove to send; `HandleCloneSync` steals with the pending
confirmation taken back, and `HandleCloneCreate` without; the old protocols forget the removes that were sent;
and a reset, or the end of the network, forgets what `CloneManagerLocal`, or the object id manager, has. -/
inductive Action
  | assignObjectId
  | returnObjectId (objectId : Nat)
  | addObjectId (objectId : Nat)
  | stealObjectId (objectId : Nat)
  | handleCloneRemove (objectId : Nat)
  | removeObjectId (objectId : Nat)
  | isRemovingObjectId (objectId : Nat)
  | deleteObject (objectId uniqifier : Nat)
  | forgetRemoves
  | processRemoveAck (objectId uniqifier tracked : Nat)
  | msgObjectIds (ranges : List (Nat × Nat))
  | reset
  | killNetwork

/-- One step. The server only hands out ids that the client does not hold. -/
def step (netProtoVersion : Nat) (s : ObjectIds) : Action → Option ObjectIds
  | .assignObjectId => some s.assignObjectId.2
  | .returnObjectId objectId => some (s.returnObjectId netProtoVersion objectId)
  | .addObjectId objectId => some (s.addObjectId objectId)
  | .stealObjectId objectId => some (s.stealObjectId objectId)
  | .handleCloneRemove objectId =>
    some (stealObjectId { s with
      pendingConfirmObjectIds := Function.update s.pendingConfirmObjectIds objectId false } objectId)
  | .removeObjectId objectId => some (s.removeObjectId objectId)
  | .isRemovingObjectId objectId => some (s.isRemovingObjectId objectId).2
  | .deleteObject objectId uniqifier =>
    some { s with pendingRemoveAcks := (objectId, uniqifier) :: s.pendingRemoveAcks }
  | .forgetRemoves => some { s with pendingRemoveAcks := [] }
  | .processRemoveAck objectId uniqifier tracked =>
    some (s.processRemoveAck netProtoVersion objectId uniqifier tracked)
  | .msgObjectIds ranges =>
    let ids := handedOut 0 ranges
    if ∀ objectId ∈ ids, objectId ∉ s.objectIds ∧ s.usedObjectIds objectId = false
      then some (s.msgObjectIds ids) else none
  | .reset => some { s with pendingRemoveAcks := [], pendingConfirmObjectIds := fun _ => false }
  | .killNetwork => some { s with objectIds := [], usedObjectIds := fun _ => false, stolenObjectIds := fun _ => false }

/-- No id is free twice, or free and in use. -/
structure Apart (s : ObjectIds) : Prop where
  nodup : s.objectIds.Nodup
  unused : ∀ objectId ∈ s.objectIds, s.usedObjectIds objectId = false

/-- The step keeps the ids apart, and an id that it assigns is not in use. -/
def KeepsApart (netProtoVersion : Nat) (s : ObjectIds) (a : Action) : Prop :=
  (∀ s', s.step netProtoVersion a = some s' → s'.Apart) ∧
    (a = .assignObjectId → s.objectIds ≠ [] → s.usedObjectIds s.assignObjectId.1 = false)

/-- A remove ack that confirms an id finds it neither free nor in use. -/
def Confirms (netProtoVersion : Nat) (s : ObjectIds) : Action → Prop
  | .processRemoveAck objectId uniqifier tracked =>
    invalidUniqifier netProtoVersion uniqifier tracked = false → s.pendingConfirmObjectIds objectId = true →
      objectId ∉ s.objectIds ∧ s.usedObjectIds objectId = false
  | _ => True

instance (netProtoVersion : Nat) (s : ObjectIds) (a : Action) : Decidable (s.Confirms netProtoVersion a) := by
  cases a <;> unfold Confirms <;> infer_instance

theorem handedOut_lt {ranges : List (Nat × Nat)} {last objectId : Nat} (h : objectId ∈ handedOut last ranges) :
    last < objectId := by
  induction ranges generalizing last with
  | nil => cases h
  | cons range ranges ih =>
    rw [handedOut, List.mem_append] at h
    obtain h | h := h
    · obtain ⟨j, -, rfl⟩ := List.mem_map.mp h
      omega
    · have hlt := ih h
      omega

/-- A message hands out an id only once. -/
theorem handedOut_nodup (ranges : List (Nat × Nat)) (last : Nat) : (handedOut last ranges).Nodup := by
  induction ranges generalizing last with
  | nil => exact List.nodup_nil
  | cons range ranges ih =>
    rw [handedOut]
    refine List.Nodup.append ?_ (ih _) ?_
    · exact List.Nodup.map (fun _ _ heq => Nat.add_left_cancel heq) List.nodup_range
    · intro objectId hfirst hrest
      obtain ⟨j, hj, rfl⟩ := List.mem_map.mp hfirst
      have hlt := handedOut_lt hrest
      have hj := List.mem_range.mp hj
      omega

namespace Apart

variable {netProtoVersion : Nat} {s s' : ObjectIds} {objectId : Nat}

/-- The free ids and the used ids are all that matters. -/
theorem congr (h : s.Apart) (hfree : s'.objectIds = s.objectIds) (hused : s'.usedObjectIds = s.usedObjectIds) :
    s'.Apart := by
  constructor
  · rw [hfree]
    exact h.nodup
  · rw [hfree, hused]
    exact h.unused

theorem assignObjectId (h : s.Apart) : s.assignObjectId.2.Apart := by
  unfold ObjectIds.assignObjectId
  split
  · exact h
  · rename_i objectId rest hfree
    have hnodup := h.nodup
    rw [hfree, List.nodup_cons] at hnodup
    refine ⟨hnodup.2, fun objectId' hmem => ?_⟩
    have hne : objectId' ≠ objectId := by
      rintro rfl
      exact hnodup.1 hmem
    dsimp only
    rw [Function.update_of_ne hne]
    refine h.unused objectId' ?_
    rw [hfree]
    exact List.mem_cons_of_mem objectId hmem

/-- An id that is not held becomes free. -/
theorem push (h : s.Apart) (hnew : objectId ∉ s.objectIds) (hunused : s.usedObjectIds objectId = false)
    (hfree : s'.objectIds = s.objectIds ++ [objectId]) (hused : s'.usedObjectIds = s.usedObjectIds) : s'.Apart := by
  constructor
  · rw [hfree, List.nodup_append_comm]
    exact List.nodup_cons.mpr ⟨hnew, h.nodup⟩
  · intro objectId' hmem
    rw [hfree, List.mem_append, List.mem_singleton] at hmem
    rw [hused]
    obtain hmem | rfl := hmem
    · exact h.unused objectId' hmem
    · exact hunused

/-- An id is not in use any more. -/
theorem release (h : s.Apart) (objectId : Nat) :
    Apart { s with usedObjectIds := Function.update s.usedObjectIds objectId false } := by
  refine ⟨h.nodup, fun objectId' hmem => ?_⟩
  dsimp only
  rw [Function.update_apply]
  split
  · rfl
  · exact h.unused objectId' hmem

theorem isRemovingObjectId (h : s.Apart) (objectId : Nat) : (s.isRemovingObjectId objectId).2.Apart := by
  refine h.congr ?_ ?_
  · unfold ObjectIds.isRemovingObjectId
    dsimp only
    split
    · rfl
    · rfl
  · unfold ObjectIds.isRemovingObjectId
    dsimp only
    split
    · rfl
    · rfl

theorem returnObjectId (h : s.Apart) (netProtoVersion objectId : Nat) :
    (s.returnObjectId netProtoVersion objectId).Apart := by
  unfold ObjectIds.returnObjectId
  split
  · rename_i hused
    have hnew : objectId ∉ s.objectIds := by
      intro hmem
      rw [h.unused objectId hmem] at hused
      cases hused
    have hrelease := h.release objectId
    dsimp only
    split
    · have hremoving := hrelease.isRemovingObjectId objectId
      split
      · exact hremoving.congr rfl rfl
      · rename_i hnot
        have hsame : (ObjectIds.isRemovingObjectId
            { s with usedObjectIds := Function.update s.usedObjectIds objectId false } objectId).2 =
              { s with usedObjectIds := Function.update s.usedObjectIds objectId false } := if_neg hnot
        rw [hsame]
        exact hrelease.push hnew (Function.update_self ..) rfl rfl
    · exact hrelease.congr rfl rfl
  · exact h

theorem addObjectId (h : s.Apart) (objectId : Nat) : (s.addObjectId objectId).Apart := by
  refine ⟨h.nodup.erase objectId, fun objectId' hmem => ?_⟩
  have hmem : objectId' ∈ s.objectIds.erase objectId := hmem
  have hne : objectId' ≠ objectId := by
    rintro rfl
    exact List.Nodup.not_mem_erase h.nodup hmem
  exact (Function.update_of_ne hne ..).trans (h.unused objectId' (List.mem_of_mem_erase hmem))

theorem stealObjectId (h : s.Apart) (objectId : Nat) : (s.stealObjectId objectId).Apart := by
  unfold ObjectIds.stealObjectId
  split
  · exact h.congr rfl rfl
  · exact ⟨h.nodup.erase objectId, fun objectId' hmem => h.unused objectId' (List.mem_of_mem_erase hmem)⟩

theorem msgObjectIds (h : s.Apart) {ids : List Nat} (hnodup : ids.Nodup)
    (hnew : ∀ objectId ∈ ids, objectId ∉ s.objectIds ∧ s.usedObjectIds objectId = false) :
    (s.msgObjectIds ids).Apart := by
  constructor
  · refine List.Nodup.append h.nodup hnodup fun objectId hfree hmem => ?_
    exact (hnew objectId hmem).1 hfree
  · intro objectId hmem
    obtain hmem | hmem := List.mem_append.mp hmem
    · exact h.unused objectId hmem
    · exact (hnew objectId hmem).2

/-- An ack keeps the ids apart exactly when it does not confirm an id that is held. -/
theorem processRemoveAck_iff (h : s.Apart) (objectId uniqifier tracked : Nat) :
    (s.processRemoveAck netProtoVersion objectId uniqifier tracked).Apart ↔
      s.Confirms netProtoVersion (.processRemoveAck objectId uniqifier tracked) := by
  unfold ObjectIds.processRemoveAck Confirms
  split
  · rename_i hinvalid
    refine iff_of_true h fun hvalid => ?_
    rw [hinvalid] at hvalid
    cases hvalid
  · rename_i hvalid
    rw [Bool.not_eq_true] at hvalid
    unfold sure
    split
    · rename_i hpending
      constructor
      · intro hafter _ _
        have hnodup : (s.objectIds ++ [objectId]).Nodup := hafter.nodup
        rw [List.nodup_append_comm] at hnodup
        refine ⟨(List.nodup_cons.mp hnodup).1, hafter.unused objectId ?_⟩
        exact List.mem_append_right s.objectIds List.mem_cons_self
      · intro hconfirms
        obtain ⟨hnew, hunused⟩ := hconfirms hvalid hpending
        exact h.push hnew hunused rfl rfl
    · rename_i hpending
      exact ⟨fun _ _ hpending' => absurd hpending' hpending, fun _ => h.congr rfl rfl⟩

/-- The id that is assigned is not in use. -/
theorem assigned (h : s.Apart) (hfree : s.objectIds ≠ []) : s.usedObjectIds s.assignObjectId.1 = false := by
  obtain ⟨objectId, rest, heq⟩ := List.exists_cons_of_ne_nil hfree
  have hassign : s.assignObjectId.1 = objectId := by
    unfold ObjectIds.assignObjectId
    split
    · rename_i hnil
      exact absurd hnil hfree
    · rename_i objectId' rest' heq'
      rw [heq] at heq'
      cases heq'
      rfl
  rw [hassign]
  refine h.unused objectId ?_
  rw [heq]
  exact List.mem_cons_self

theorem step_iff (h : s.Apart) {a : Action} (hstep : s.step netProtoVersion a = some s') :
    s'.Apart ↔ s.Confirms netProtoVersion a := by
  cases a with
  | assignObjectId =>
    cases hstep
    exact iff_of_true h.assignObjectId trivial
  | returnObjectId objectId =>
    cases hstep
    exact iff_of_true (h.returnObjectId netProtoVersion objectId) trivial
  | addObjectId objectId =>
    cases hstep
    exact iff_of_true (h.addObjectId objectId) trivial
  | stealObjectId objectId =>
    cases hstep
    exact iff_of_true (h.stealObjectId objectId) trivial
  | handleCloneRemove objectId =>
    cases hstep
    have hcleared : Apart { s with
        pendingConfirmObjectIds := Function.update s.pendingConfirmObjectIds objectId false } := h.congr rfl rfl
    exact iff_of_true (hcleared.stealObjectId objectId) trivial
  | removeObjectId objectId =>
    cases hstep
    exact iff_of_true ((h.release objectId).congr rfl rfl) trivial
  | isRemovingObjectId objectId =>
    cases hstep
    exact iff_of_true (h.isRemovingObjectId objectId) trivial
  | deleteObject | forgetRemoves | reset =>
    cases hstep
    exact iff_of_true (h.congr rfl rfl) trivial
  | processRemoveAck objectId uniqifier tracked =>
    cases hstep
    exact h.processRemoveAck_iff objectId uniqifier tracked
  | msgObjectIds ranges =>
    obtain ⟨hnew, heq⟩ := Option.ite_none_right_eq_some.mp hstep
    cases heq
    exact iff_of_true (h.msgObjectIds (handedOut_nodup ranges 0) hnew) trivial
  | killNetwork =>
    cases hstep
    exact iff_of_true ⟨List.nodup_nil, fun _ hmem => nomatch hmem⟩ trivial

theorem keepsApart_iff (h : s.Apart) {a : Action} (hstep : s.step netProtoVersion a = some s') :
    s.KeepsApart netProtoVersion a ↔ s.Confirms netProtoVersion a := by
  constructor
  · intro hkeeps
    exact (h.step_iff hstep).mp (hkeeps.1 s' hstep)
  · intro hconfirms
    refine ⟨fun t ht => ?_, fun _ => h.assigned⟩
    exact (h.step_iff ht).mpr hconfirms

end Apart

theorem apart_empty : ({} : ObjectIds).Apart := ⟨List.nodup_nil, fun _ hmem => nomatch hmem⟩

/-- The ids stay apart in a run exactly when every ack that confirms an id finds it neither free nor in use. All
other calls keep them apart in any state. -/
theorem run_keepsApart_iff (netProtoVersion : Nat) (acts : List Action) (s : ObjectIds) :
    Transition.Run (step netProtoVersion) (KeepsApart netProtoVersion) {} acts s ↔
      Transition.Run (step netProtoVersion) (Confirms netProtoVersion) {} acts s := by
  constructor
  · exact fun hrun => hrun.upgrade Apart apart_empty (fun _ hkeeps hstep => hkeeps.1 _ hstep)
      fun h hkeeps hstep => (h.keepsApart_iff hstep).mp hkeeps
  · exact fun hrun => hrun.upgrade Apart apart_empty (fun h hconfirms hstep => (h.step_iff hstep).mpr hconfirms)
      fun h hconfirms hstep => (h.keepsApart_iff hstep).mpr hconfirms

/-- The server has given a removed object's id back to the client when it acknowledges the remove. -/
theorem run_confirmed_late : ∃ acts s, Transition.Run (step 0x202103292050) (fun _ _ => True)
    {} acts s ∧ ¬ s.Apart := by
  have hend : ((Transition.exec (step 0x202103292050) {}
      [.msgObjectIds [(4, 0)], .assignObjectId, .deleteObject 5 1, .returnObjectId 5, .addObjectId 5,
        .processRemoveAck 5 1 0]).any fun s => s.objectIds.contains 5 && s.usedObjectIds 5) = true := by decide +kernel
  obtain ⟨s, hrun, hs⟩ := Transition.exists_run hend
  refine ⟨_, s, hrun, fun h => ?_⟩
  rw [Bool.and_eq_true, List.contains_iff_mem] at hs
  rw [h.unused 5 hs.1] at hs
  exact absurd hs.2 Bool.false_ne_true

end ObjectIds

end fx
