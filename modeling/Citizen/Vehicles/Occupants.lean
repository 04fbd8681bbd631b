import Citizen.Vehicles.Seats

namespace fx

open sync

namespace SeatWorld

variable {w w' w'' : SeatWorld} {e v : SyncEntityPtr} {seat : Fin 32}

/-- The registered entities are the same, and what does not change of them. -/
structure Same (w w' : SeatWorld) : Prop where
  entityList : w'.entityList = w.entityList
  entitiesById : w'.entitiesById = w.entitiesById
  nextEntity : w'.nextEntity = w.nextEntity
  handle : ∀ e, (w'.entities e).handle = (w.entities e).handle
  type : ∀ e, (w'.entities e).type = (w.entities e).type

namespace Same

theorem refl (w : SeatWorld) : Same w w := ⟨rfl, rfl, rfl, fun _ => rfl, fun _ => rfl⟩

theorem trans (h : Same w w') (h' : Same w' w'') : Same w w'' :=
  ⟨h'.entityList.trans h.entityList, h'.entitiesById.trans h.entitiesById, h'.nextEntity.trans h.nextEntity,
    fun e => (h'.handle e).trans (h.handle e), fun e => (h'.type e).trans (h.type e)⟩

variable (h : Same w w')
include h

theorem isPed (e : SyncEntityPtr) : (w'.entities e).isPed = (w.entities e).isPed := by
  unfold SeatEntity.isPed
  rw [h.type]

theorem getVehicle (vehicle : Int) : w'.getVehicle vehicle = w.getVehicle vehicle := by
  unfold SeatWorld.getVehicle
  simp only [h.entitiesById, h.type]

theorem place (vehicle vehicleSeat : Int) : w'.place vehicle vehicleSeat = w.place vehicle vehicleSeat := by
  rw [SeatWorld.place, h.getVehicle]
  rfl

end Same

/-- Who is in a seat, and whether it is a player. -/
def seatOf (w : SeatWorld) (v : SyncEntityPtr) (seat : Fin 32) : Nat × Bool :=
  ((w.entities v).vehicleGameState.occupants seat, (w.entities v).vehicleGameState.playerOccupants seat)

theorem modify_self (w : SeatWorld) (e : SyncEntityPtr) (f : SeatEntity → SeatEntity) :
    (w.modify e f).entities e = f (w.entities e) := Function.update_self ..

theorem modify_of_ne (w : SeatWorld) {e e' : SyncEntityPtr} (f : SeatEntity → SeatEntity) (hne : e' ≠ e) :
    (w.modify e f).entities e' = w.entities e' := Function.update_of_ne hne ..

/-- What a function of the entity leaves alone, `modify` leaves alone in every entity. -/
theorem modify_eq {α : Type*} (field : SeatEntity → α) (w : SeatWorld) (e : SyncEntityPtr)
    {f : SeatEntity → SeatEntity} (h : field (f (w.entities e)) = field (w.entities e)) (e' : SyncEntityPtr) :
    field ((w.modify e f).entities e') = field (w.entities e') := by
  by_cases he : e' = e
  · rw [he, modify_self, h]
  · rw [modify_of_ne w f he]

theorem same_modify (w : SeatWorld) (e : SyncEntityPtr) {f : SeatEntity → SeatEntity}
    (hhandle : (f (w.entities e)).handle = (w.entities e).handle)
    (htype : (f (w.entities e)).type = (w.entities e).type) :
    Same w (w.modify e f) := ⟨rfl, rfl, rfl, modify_eq _ w e hhandle, modify_eq _ w e htype⟩

/-- What the seats of a ped do not change. -/
structure Seated (w w' : SeatWorld) : Prop extends Same w w' where
  pedGameState : ∀ e, (w'.entities e).pedGameState = (w.entities e).pedGameState
  finalizing : ∀ e, (w'.entities e).finalizing = (w.entities e).finalizing

theorem Seated.refl (w : SeatWorld) : Seated w w := ⟨.refl w, fun _ => rfl, fun _ => rfl⟩

theorem Seated.trans (h : Seated w w') (h' : Seated w' w'') : Seated w w'' :=
  ⟨h.toSame.trans h'.toSame, fun e => (h'.pedGameState e).trans (h.pedGameState e),
    fun e => (h'.finalizing e).trans (h.finalizing e)⟩

theorem seated_modify (w : SeatWorld) (v : SyncEntityPtr) {f : SeatEntity → SeatEntity}
    (hhandle : (f (w.entities v)).handle = (w.entities v).handle)
    (htype : (f (w.entities v)).type = (w.entities v).type)
    (hped : (f (w.entities v)).pedGameState = (w.entities v).pedGameState)
    (hfinalizing : (f (w.entities v)).finalizing = (w.entities v).finalizing) : Seated w (w.modify v f) :=
  ⟨same_modify w v hhandle htype, modify_eq _ w v hped, modify_eq _ w v hfinalizing⟩

theorem seated_clearSeat (w : SeatWorld) (vehicle vehicleSeat : Int) (pedHandle : Nat) :
    Seated w (w.clearSeat vehicle vehicleSeat pedHandle) := by
  unfold clearSeat
  split
  · exact .refl w
  · split
    · exact ⟨⟨rfl, rfl, rfl, fun _ => rfl, fun _ => rfl⟩, fun _ => rfl, fun _ => rfl⟩
    · split
      · exact seated_modify w _ rfl rfl rfl rfl
      · exact .refl w

theorem seated_takeSeat (w : SeatWorld) (vehicle vehicleSeat : Int) (pedHandle : Nat) (player : Bool) :
    Seated w (w.takeSeat vehicle vehicleSeat pedHandle player) := by
  unfold takeSeat
  split
  · exact .refl w
  · split
    · exact ⟨⟨rfl, rfl, rfl, fun _ => rfl, fun _ => rfl⟩, fun _ => rfl, fun _ => rfl⟩
    · split
      · exact seated_modify w _ rfl rfl rfl rfl
      · exact .refl w

theorem place_eq_some {vehicle vehicleSeat : Int} :
    w.place vehicle vehicleSeat = some (v, seat) ↔ w.getVehicle vehicle = some v ∧ seat? vehicleSeat = some seat := by
  simp [place, Option.bind_eq_some_iff]

/-- The seats after one is cleared. -/
theorem seatOf_clearSeat (w : SeatWorld) (vehicle vehicleSeat : Int) (pedHandle : Nat) (v : SyncEntityPtr)
    (seat : Fin 32) : (w.clearSeat vehicle vehicleSeat pedHandle).seatOf v seat =
      if w.place vehicle vehicleSeat = some (v, seat) ∧ (w.seatOf v seat).1 = pedHandle then (0, false)
      else w.seatOf v seat := by
  simp only [place_eq_some]
  unfold clearSeat
  cases hvehicle : w.getVehicle vehicle with
  | none => simp
  | some found =>
    dsimp only
    cases hseat : seat? vehicleSeat with
    | none => simp [seatOf]
    | some found' =>
      dsimp only
      by_cases hv : v = found
      · subst hv
        by_cases hs : seat = found'
        · subst hs
          by_cases hoccupied : (w.entities v).vehicleGameState.occupants seat = pedHandle
          · simp [seatOf, hoccupied, modify_self, SeatEntity.clear]
          · simp [seatOf, hoccupied]
        · have hne : ¬ found' = seat := fun heq => hs heq.symm
          split
          · simp [seatOf, modify_self, SeatEntity.clear, hs, hne]
          · simp [hne]
      · have hne : ¬ found = v := fun heq => hv heq.symm
        split
        · simp [seatOf, modify_of_ne w _ hv, hne]
        · simp [hne]

/-- The seats after one is taken, if it is free. -/
theorem seatOf_takeSeat (w : SeatWorld) (vehicle vehicleSeat : Int) (pedHandle : Nat) (player : Bool)
    (v : SyncEntityPtr) (seat : Fin 32) : (w.takeSeat vehicle vehicleSeat pedHandle player).seatOf v seat =
      if w.place vehicle vehicleSeat = some (v, seat) ∧ (w.seatOf v seat).1 = 0 then
        (pedHandle, player || (w.seatOf v seat).2)
      else w.seatOf v seat := by
  simp only [place_eq_some]
  unfold takeSeat
  cases hvehicle : w.getVehicle vehicle with
  | none => simp
  | some found =>
    dsimp only
    cases hseat : seat? vehicleSeat with
    | none => simp [seatOf]
    | some found' =>
      dsimp only
      by_cases hv : v = found
      · subst hv
        by_cases hs : seat = found'
        · subst hs
          by_cases hfree : (w.entities v).vehicleGameState.occupants seat = 0
          · cases player <;> simp [seatOf, hfree, modify_self, SeatEntity.take]
          · simp [seatOf, hfree]
        · have hne : ¬ found' = seat := fun heq => hs heq.symm
          split
          · cases player <;> simp [seatOf, modify_self, SeatEntity.take, hs, hne]
          · simp [hne]
      · have hne : ¬ found = v := fun heq => hv heq.symm
        split
        · simp [seatOf, modify_of_ne w _ hv, hne]
        · simp [hne]

/-- An index inside of the arrays, or no vehicle, leaves `outside` as it is. -/
theorem outside_clearSeat (w : SeatWorld) {vehicle vehicleSeat : Int} (pedHandle : Nat)
    (h : (w.getVehicle vehicle).isSome → (seat? vehicleSeat).isSome) :
    (w.clearSeat vehicle vehicleSeat pedHandle).outside = w.outside := by
  unfold clearSeat
  split
  · rfl
  · rename_i hvehicle
    rw [hvehicle] at h
    split
    · rename_i hseat
      rw [hseat] at h
      exact absurd (h rfl) Bool.false_ne_true
    · split <;> rfl

theorem outside_takeSeat (w : SeatWorld) {vehicle vehicleSeat : Int} (pedHandle : Nat) (player : Bool)
    (h : (w.getVehicle vehicle).isSome → (seat? vehicleSeat).isSome) :
    (w.takeSeat vehicle vehicleSeat pedHandle player).outside = w.outside := by
  unfold takeSeat
  split
  · rfl
  · rename_i hvehicle
    rw [hvehicle] at h
    split
    · rename_i hseat
      rw [hseat] at h
      exact absurd (h rfl) Bool.false_ne_true
    · split <;> rfl

/-- A living ped was in a seat of an existing vehicle in the last pass. -/
structure Sits (w : SeatWorld) (e v : SyncEntityPtr) (seat : Fin 32) : Prop where
  mem : e ∈ w.entityList
  isPed : (w.entities e).isPed = true
  living : (w.entities e).finalizing = false
  place : w.place (w.entities e).pedGameState.lastVehicle (w.entities e).pedGameState.lastVehicleSeat = some (v, seat)

/-- Every registered entity is found by its handle; and the seats are of the peds that were in them. -/
structure Settled (w : SeatWorld) : Prop where
  byId : ∀ e ∈ w.entityList, w.entitiesById (w.entities e).handle = some e
  registered : ∀ id e, w.entitiesById id = some e → e ∈ w.entityList ∧ (w.entities e).handle = id
  lt_next : ∀ e ∈ w.entityList, e < w.nextEntity
  nodup : w.entityList.Nodup
  inside : w.outside = false
  last_inside : ∀ e ∈ w.entityList, (w.entities e).isPed →
    (w.getVehicle (w.entities e).pedGameState.lastVehicle).isSome →
      (seat? (w.entities e).pedGameState.lastVehicleSeat).isSome
  sits : ∀ e v seat, w.Sits e v seat →
    w.seatOf v seat = ((w.entities e).handle, (w.entities e).type == .Player) ∧ (w.entities e).handle ≠ 0
  free : ∀ v ∈ w.entityList, (w.entities v).type.isVehicle → ∀ seat, (∀ e, ¬ w.Sits e v seat) →
    w.seatOf v seat = (0, false)

namespace Settled

variable (h : w.Settled)
include h

theorem handle_inj {e e' : SyncEntityPtr} (he : e ∈ w.entityList) (he' : e' ∈ w.entityList)
    (heq : (w.entities e).handle = (w.entities e').handle) : e = e' := by
  have hbyId := h.byId e he
  rw [heq, h.byId e' he'] at hbyId
  exact (Option.some.inj hbyId).symm

theorem vehicle_mem {vehicle : Int} (hvehicle : w.getVehicle vehicle = some v) :
    v ∈ w.entityList ∧ (w.entities v).type.isVehicle = true := by
  unfold getVehicle at hvehicle
  split at hvehicle
  · cases hvehicle
  · obtain ⟨hfound, htype⟩ := Option.filter_eq_some_iff.mp hvehicle
    split at hfound
    · exact ⟨(h.registered _ v hfound).1, htype⟩
    · cases hfound

/-- Who is in a seat sits there. -/
theorem sits_of_occupied (hv : v ∈ w.entityList) (htype : (w.entities v).type.isVehicle = true) (he : e ∈ w.entityList)
    (hne : (w.entities e).handle ≠ 0) (hoccupied : (w.seatOf v seat).1 = (w.entities e).handle) : w.Sits e v seat := by
  by_contra hnot
  have hempty : ∀ e', ¬ w.Sits e' v seat := by
    intro e' hsits
    rw [(h.sits e' v seat hsits).1] at hoccupied
    exact hnot (h.handle_inj hsits.mem he hoccupied ▸ hsits)
  rw [h.free v hv htype seat hempty] at hoccupied
  exact hne hoccupied.symm

/-- The seat that a ped sits in is cleared for it. -/
theorem seatOf_cleared {vehicle vehicleSeat : Int} (hplace : w.place vehicle vehicleSeat = some (v, seat))
    (hsits : w.Sits e v seat) : (w.clearSeat vehicle vehicleSeat (w.entities e).handle).seatOf v seat =
      (0, false) := by
  rw [seatOf_clearSeat]
  exact if_pos ⟨hplace, congrArg Prod.fst (h.sits e v seat hsits).1⟩

/-- Other seats are as they were. -/
theorem seatOf_kept {vehicle vehicleSeat : Int} (he : e ∈ w.entityList)
    (hnot : w.place vehicle vehicleSeat = some (v, seat) → ¬ w.Sits e v seat) :
    (w.clearSeat vehicle vehicleSeat (w.entities e).handle).seatOf v seat = w.seatOf v seat := by
  rw [seatOf_clearSeat]
  split
  · rename_i hboth
    obtain ⟨hplace, hoccupied⟩ := hboth
    obtain ⟨hv, htype⟩ := h.vehicle_mem (place_eq_some.mp hplace).1
    by_cases hzero : (w.entities e).handle = 0
    · refine (h.free v hv htype seat fun e' hsits' => ?_).symm
      obtain ⟨hseat, hne⟩ := h.sits e' v seat hsits'
      rw [hseat, hzero] at hoccupied
      exact hne hoccupied
    · exact absurd (h.sits_of_occupied hv htype he hzero hoccupied) (hnot hplace)
  · rfl

end Settled

/-- A visit of a ped that has moved: it leaves its seat and takes another. -/
structure Visited (w : SeatWorld) (e : SyncEntityPtr) (w' : SeatWorld) : Prop extends Same w w' where
  finalizing : ∀ e', (w'.entities e').finalizing = (w.entities e').finalizing
  others : ∀ e' ≠ e, (w'.entities e').pedGameState = (w.entities e').pedGameState
  self : (w'.entities e).pedGameState =
    { (w.entities e).pedGameState with
      lastVehicle := (w.entities e).pedGameState.curVehicle, lastVehicleSeat :=
        (w.entities e).pedGameState.curVehicleSeat }
  outside : w'.outside = w.outside
  taken : ∀ v seat,
    w.place (w.entities e).pedGameState.curVehicle (w.entities e).pedGameState.curVehicleSeat = some (v, seat) →
    w'.seatOf v seat = ((w.entities e).handle, (w.entities e).type == .Player)
  left : ∀ v seat,
    w.place (w.entities e).pedGameState.curVehicle (w.entities e).pedGameState.curVehicleSeat ≠ some (v, seat) →
    w.Sits e v seat → w'.seatOf v seat = (0, false)
  kept : ∀ v seat,
    w.place (w.entities e).pedGameState.curVehicle (w.entities e).pedGameState.curVehicleSeat ≠ some (v, seat) →
    ¬ w.Sits e v seat → w'.seatOf v seat = w.seatOf v seat

theorem updateEntity_of_not_moved (hnot : ((w.entities e).isPed && moved (w.entities e).pedGameState) = false) :
    w.updateEntity e = w := by
  rw [updateEntity, hnot, if_neg Bool.false_ne_true]

/-- The ped's target is inside of the arrays, if its vehicle exists. -/
theorem Free.inside (hfree : w.Free e) (hped : (w.entities e).isPed = true)
    (hmoved : moved (w.entities e).pedGameState = true) :
    (w.getVehicle (w.entities e).pedGameState.curVehicle).isSome →
      (seat? (w.entities e).pedGameState.curVehicleSeat).isSome := by
  intro hvehicle
  obtain ⟨_, _, v, seat, hplace, _⟩ := hfree hped hmoved hvehicle
  rw [(place_eq_some.mp hplace).2]
  rfl

theorem Settled.visited (h : w.Settled) (he : e ∈ w.entityList) (hfree : w.Free e) (hped : (w.entities e).isPed = true)
    (hmoved : moved (w.entities e).pedGameState = true) : Visited w e (w.updateEntity e) := by
  have hinside := hfree.inside hped hmoved
  have hlast := h.last_inside e he hped
  rw [updateEntity, hped, hmoved, Bool.true_and, if_pos rfl]
  dsimp only
  have hclear := seated_clearSeat w (w.entities e).pedGameState.lastVehicle (w.entities e).pedGameState.lastVehicleSeat
    (w.entities e).handle
  have houtside := outside_clearSeat w (w.entities e).handle hlast
  have hleft : ∀ v seat, w.Sits e v seat →
      (w.clearSeat (w.entities e).pedGameState.lastVehicle (w.entities e).pedGameState.lastVehicleSeat
        (w.entities e).handle).seatOf v seat = (0, false) := fun v seat hsits => h.seatOf_cleared hsits.place hsits
  have hkept : ∀ v seat, ¬ w.Sits e v seat →
      (w.clearSeat (w.entities e).pedGameState.lastVehicle (w.entities e).pedGameState.lastVehicleSeat
        (w.entities e).handle).seatOf v seat = w.seatOf v seat := fun v seat hnot => h.seatOf_kept he fun _ => hnot
  generalize w.clearSeat (w.entities e).pedGameState.lastVehicle (w.entities e).pedGameState.lastVehicleSeat
    (w.entities e).handle = cleared at hclear houtside hleft hkept ⊢
  have htake := seated_takeSeat cleared (w.entities e).pedGameState.curVehicle
    (w.entities e).pedGameState.curVehicleSeat (w.entities e).handle ((w.entities e).type == .Player)
  have hseats := seatOf_takeSeat cleared (w.entities e).pedGameState.curVehicle
    (w.entities e).pedGameState.curVehicleSeat (w.entities e).handle ((w.entities e).type == .Player)
  have houtside' := outside_takeSeat cleared (w.entities e).handle ((w.entities e).type == .Player)
    (by rw [hclear.getVehicle]; exact hinside)
  simp only [hclear.place] at hseats
  generalize cleared.takeSeat (w.entities e).pedGameState.curVehicle (w.entities e).pedGameState.curVehicleSeat
    (w.entities e).handle ((w.entities e).type == .Player) = seated at htake hseats houtside' ⊢
  have hsame := hclear.trans htake
  have hmodify : ∀ v seat, (seated.modify e fun entity => entity.modifyPed fun data =>
      { data with lastVehicle := data.curVehicle, lastVehicleSeat := data.curVehicleSeat }).seatOf v seat =
        seated.seatOf v seat :=
    fun v seat => modify_eq (fun entity =>
      (entity.vehicleGameState.occupants seat, entity.vehicleGameState.playerOccupants seat))
      seated e rfl v
  refine ⟨hsame.toSame.trans (same_modify seated e rfl rfl), fun e' => ?_, fun e' hne => ?_, ?_,
    houtside'.trans houtside, fun v seat hplace => ?_, fun v seat hplace hsits => ?_, fun v seat hplace hnot => ?_⟩
  · rw [modify_eq SeatEntity.finalizing seated e rfl, hsame.finalizing]
  · rw [modify_of_ne seated _ hne, hsame.pedGameState]
  · rw [modify_self, SeatEntity.modifyPed, hsame.pedGameState]
  · have hvehicle := (place_eq_some.mp hplace).1
    obtain ⟨hliving, hhandle, v', seat', hplace', hoccupied⟩ := hfree hped hmoved (by rw [hvehicle]; rfl)
    rw [hplace] at hplace'
    cases hplace'
    obtain ⟨hv, htype⟩ := h.vehicle_mem hvehicle
    have hempty : cleared.seatOf v seat = (0, false) := by
      by_cases hsits : w.Sits e v seat
      · exact hleft v seat hsits
      · rw [hkept v seat hsits]
        have hzero : (w.seatOf v seat).1 = 0 :=
          hoccupied.resolve_right fun hself => hsits (h.sits_of_occupied hv htype he hhandle hself)
        refine h.free v hv htype seat fun e' hsits' => ?_
        obtain ⟨hseat, hne⟩ := h.sits e' v seat hsits'
        rw [hseat] at hzero
        exact hne hzero
    rw [hmodify, hseats, hempty, if_pos ⟨hplace, rfl⟩, Bool.or_false]
  · rw [hmodify, hseats, if_neg fun hboth => hplace hboth.1, hleft v seat hsits]
  · rw [hmodify, hseats, if_neg fun hboth => hplace hboth.1, hkept v seat hnot]

namespace Visited

variable (hvisit : Visited w e w')
include hvisit

theorem sits_of_ne {e' : SyncEntityPtr} (hne : e' ≠ e) : w'.Sits e' v seat ↔ w.Sits e' v seat := by
  have hplace := hvisit.place
  constructor
  · intro hsits
    refine ⟨hvisit.entityList ▸ hsits.mem, (hvisit.isPed e').symm.trans hsits.isPed,
      (hvisit.finalizing e').symm.trans hsits.living, ?_⟩
    rw [← hplace, ← hvisit.others e' hne]
    exact hsits.place
  · intro hsits
    refine ⟨hvisit.entityList.symm ▸ hsits.mem, (hvisit.isPed e').trans hsits.isPed,
      (hvisit.finalizing e').trans hsits.living, ?_⟩
    rw [hplace, hvisit.others e' hne]
    exact hsits.place

theorem place_self : w'.place (w'.entities e).pedGameState.lastVehicle (w'.entities e).pedGameState.lastVehicleSeat =
    w.place (w.entities e).pedGameState.curVehicle (w.entities e).pedGameState.curVehicleSeat := by
  rw [hvisit.place, hvisit.self]

/-- A visit that finds its seat free keeps the seats settled. -/
theorem settled (h : w.Settled) (he : e ∈ w.entityList) (hfree : w.Free e) (hped : (w.entities e).isPed = true)
    (hmoved : moved (w.entities e).pedGameState = true) : w'.Settled := by
  have hinside := hfree.inside hped hmoved
  have htarget : ∀ v seat, w'.Sits e v seat →
      w.place (w.entities e).pedGameState.curVehicle (w.entities e).pedGameState.curVehicleSeat = some (v, seat) :=
    fun v seat hsits => hvisit.place_self.symm.trans hsits.place
  refine ⟨fun e' he' => ?_, fun id e' he' => ?_, fun e' he' => ?_, ?_, hvisit.outside.trans h.inside,
    fun e' he' hped' hvehicle => ?_, fun e' v seat hsits => ?_, fun v hv htype seat hnone => ?_⟩
  · rw [hvisit.entityList] at he'
    rw [hvisit.entitiesById, hvisit.handle]
    exact h.byId e' he'
  · rw [hvisit.entitiesById] at he'
    rw [hvisit.entityList, hvisit.handle]
    exact h.registered id e' he'
  · rw [hvisit.entityList] at he'
    rw [hvisit.nextEntity]
    exact h.lt_next e' he'
  · rw [hvisit.entityList]
    exact h.nodup
  · rw [hvisit.entityList] at he'
    rw [hvisit.isPed] at hped'
    rw [hvisit.getVehicle] at hvehicle
    by_cases hne : e' = e
    · rw [hne, hvisit.self] at hvehicle ⊢
      exact hinside hvehicle
    · rw [hvisit.others e' hne] at hvehicle ⊢
      exact h.last_inside e' he' hped' hvehicle
  · rw [hvisit.handle, hvisit.type]
    by_cases hne : e' = e
    · rw [hne] at hsits ⊢
      have hplace := htarget v seat hsits
      obtain ⟨_, hhandle, _⟩ := hfree hped hmoved (by rw [(place_eq_some.mp hplace).1]; rfl)
      exact ⟨hvisit.taken v seat hplace, hhandle⟩
    · have hbefore := (hvisit.sits_of_ne hne).mp hsits
      obtain ⟨hseat, hhandle⟩ := h.sits e' v seat hbefore
      refine ⟨?_, hhandle⟩
      rw [← hseat]
      refine hvisit.kept v seat (fun hplace => ?_) fun hself => ?_
      · obtain ⟨_, _, v', seat', hplace', hoccupied⟩ := hfree hped hmoved (by rw [(place_eq_some.mp hplace).1]; rfl)
        rw [hplace] at hplace'
        cases hplace'
        have hoccupant : (w.entities v).vehicleGameState.occupants seat = (w.entities e').handle :=
          congrArg Prod.fst hseat
        rw [hoccupant] at hoccupied
        exact hne (h.handle_inj hbefore.mem he (hoccupied.resolve_left hhandle))
      · have heq := hseat.symm.trans (h.sits e v seat hself).1
        exact hne (h.handle_inj hbefore.mem he (congrArg Prod.fst heq))
  · rw [hvisit.entityList] at hv
    rw [hvisit.type] at htype
    have hplace : w.place (w.entities e).pedGameState.curVehicle (w.entities e).pedGameState.curVehicleSeat ≠
      some (v, seat) := by
      intro hplace
      obtain ⟨hliving, _, _⟩ := hfree hped hmoved (by rw [(place_eq_some.mp hplace).1]; rfl)
      exact hnone e ⟨hvisit.entityList.symm ▸ he, (hvisit.isPed e).trans hped, (hvisit.finalizing e).trans hliving,
        hvisit.place_self.trans hplace⟩
    by_cases hself : w.Sits e v seat
    · exact hvisit.left v seat hplace hself
    · rw [hvisit.kept v seat hplace hself]
      refine h.free v hv htype seat fun e' hsits => ?_
      by_cases hne : e' = e
      · exact hself (hne ▸ hsits)
      · exact hnone e' ((hvisit.sits_of_ne hne).mpr hsits)

end Visited

theorem Settled.updateEntity (h : w.Settled) (he : e ∈ w.entityList) (hfree : w.Free e) :
    (w.updateEntity e).Settled := by
  by_cases hboth : ((w.entities e).isPed && moved (w.entities e).pedGameState) = true
  · obtain ⟨hped, hmoved⟩ := Bool.and_eq_true_iff.mp hboth
    exact (h.visited he hfree hped hmoved).settled h he hfree hped hmoved
  · rw [updateEntity_of_not_moved (Bool.not_eq_true _ ▸ hboth)]
    exact h

/-- A visit leaves the registered entities and the other peds alone. -/
theorem updateEntity_others (w : SeatWorld) (e : SyncEntityPtr) :
    Same w (w.updateEntity e) ∧ ∀ e' ≠ e,
      ((w.updateEntity e).entities e').pedGameState = (w.entities e').pedGameState := by
  unfold updateEntity
  dsimp only
  split
  · have hsame := (seated_clearSeat w (w.entities e).pedGameState.lastVehicle
      (w.entities e).pedGameState.lastVehicleSeat (w.entities e).handle).trans
        (seated_takeSeat _ (w.entities e).pedGameState.curVehicle (w.entities e).pedGameState.curVehicleSeat
          (w.entities e).handle ((w.entities e).type == .Player))
    refine ⟨hsame.toSame.trans (same_modify _ e rfl rfl), fun e' hne => ?_⟩
    rw [modify_of_ne _ _ hne, hsame.pedGameState]
  · exact ⟨.refl w, fun _ _ => rfl⟩

/-- After its visit, a ped has not moved. -/
theorem updateEntity_self (w : SeatWorld) (e : SyncEntityPtr) (hped : (w.entities e).isPed = true) :
    moved ((w.updateEntity e).entities e).pedGameState = false := by
  unfold updateEntity
  dsimp only
  split
  · rw [modify_self, SeatEntity.modifyPed, moved]
    simp
  · rename_i hnot
    rw [hped, Bool.true_and, Bool.not_eq_true] at hnot
    exact hnot

/-- After a pass over all entities that finds every seat free, the seats are settled, and no ped has moved. -/
theorem Settled.updateEntities {order : List SyncEntityPtr} (h : w.Settled) (horder : order.Perm w.entityList)
    (hfree : Loop.Along SeatWorld.updateEntity Free w order) :
    (order.foldl SeatWorld.updateEntity w).Settled ∧ ∀ e ∈ (order.foldl SeatWorld.updateEntity w).entityList,
      ((order.foldl SeatWorld.updateEntity w).entities e).isPed = true →
      moved ((order.foldl SeatWorld.updateEntity w).entities e).pedGameState = false := by
  have hmem : Loop.Along SeatWorld.updateEntity (fun w' e => w'.Free e ∧ e ∈ w.entityList) w order :=
    hfree.mono fun _ e he hround => ⟨hround, horder.subset he⟩
  have hsettled := hmem.invariant (fun w' => w'.Settled ∧ Same w w')
    (fun w' e hinv hround => ⟨hinv.1.updateEntity (hinv.2.entityList.symm ▸ hround.2) hround.1,
      hinv.2.trans (updateEntity_others w' e).1⟩) order w ⟨h, .refl w⟩
  have hmoved := Loop.all (f := SeatWorld.updateEntity) (fun _ => True)
    (fun e w' => (w'.entities e).isPed = true → moved (w'.entities e).pedGameState = false) (l := order)
    (fun _ _ _ _ => trivial)
    (fun w' _ e _ hped => updateEntity_self w' e (((updateEntity_others w' e).1.isPed e).symm.trans hped))
    (fun w' _ a _ e hdone hped => ?_) w trivial
  · exact ⟨hsettled.1, fun e he => hmoved e (horder.mem_iff.mpr (hsettled.2.entityList ▸ he))⟩
  · have hbefore := ((updateEntity_others w' a).1.isPed e).symm.trans hped
    by_cases hne : e = a
    · rw [hne] at hbefore ⊢
      exact updateEntity_self w' a hbefore
    · rw [(updateEntity_others w' a).2 e hne]
      exact hdone hbefore

/-- Settled seats of peds that have not moved have converged. -/
theorem Settled.converged (h : w.Settled)
    (hmoved : ∀ e ∈ w.entityList, (w.entities e).isPed = true → moved (w.entities e).pedGameState = false) :
    w.Converged := by
  have hsits : ∀ e v seat, w.Claims e v seat ↔ w.Sits e v seat := by
    intro e v seat
    have hsame : ∀ (_ : e ∈ w.entityList) (_ : (w.entities e).isPed = true),
        (w.entities e).pedGameState.lastVehicle = (w.entities e).pedGameState.curVehicle ∧
          (w.entities e).pedGameState.lastVehicleSeat = (w.entities e).pedGameState.curVehicleSeat := by
      intro he hped
      have hnot := hmoved e he hped
      rw [moved, decide_eq_false_iff_not, not_or, not_not, not_not] at hnot
      exact hnot
    constructor
    · intro hclaims
      obtain ⟨hvehicle, hseat⟩ := hsame hclaims.mem hclaims.isPed
      exact ⟨hclaims.mem, hclaims.isPed, hclaims.living, by rw [hvehicle, hseat]; exact hclaims.place⟩
    · intro hsits
      obtain ⟨hvehicle, hseat⟩ := hsame hsits.mem hsits.isPed
      exact ⟨hsits.mem, hsits.isPed, hsits.living, by rw [← hvehicle, ← hseat]; exact hsits.place⟩
  refine ⟨h.inside, fun _ v hv htype seat => ⟨fun e hclaims => ?_, fun hnone => ?_⟩⟩
  · have hseat := (h.sits e v seat ((hsits e v seat).mp hclaims)).1
    exact ⟨congrArg Prod.fst hseat, congrArg Prod.snd hseat⟩
  · have hseat := h.free v hv htype seat fun e hsit => hnone e ((hsits e v seat).mpr hsit)
    exact ⟨congrArg Prod.fst hseat, congrArg Prod.snd hseat⟩

/-- Where the peds were, and the seats, are all that matters. -/
theorem Settled.congr (h : w.Settled) (hsame : Same w w')
    (hfinalizing : ∀ e, (w'.entities e).finalizing = (w.entities e).finalizing)
    (hlast : ∀ e, (w'.entities e).pedGameState.lastVehicle = (w.entities e).pedGameState.lastVehicle ∧
      (w'.entities e).pedGameState.lastVehicleSeat = (w.entities e).pedGameState.lastVehicleSeat)
    (hseat : ∀ v seat, w'.seatOf v seat = w.seatOf v seat) (houtside : w'.outside = w.outside) : w'.Settled := by
  have hsits : ∀ e v seat, w'.Sits e v seat → w.Sits e v seat := by
    intro e v seat hsits
    refine ⟨hsame.entityList ▸ hsits.mem, (hsame.isPed e).symm.trans hsits.isPed,
      (hfinalizing e).symm.trans hsits.living, ?_⟩
    rw [← hsame.place, ← (hlast e).1, ← (hlast e).2]
    exact hsits.place
  have hsits' : ∀ e v seat, w.Sits e v seat → w'.Sits e v seat := by
    intro e v seat hsits
    refine ⟨hsame.entityList.symm ▸ hsits.mem, (hsame.isPed e).trans hsits.isPed,
      (hfinalizing e).trans hsits.living, ?_⟩
    rw [hsame.place, (hlast e).1, (hlast e).2]
    exact hsits.place
  refine ⟨?_, ?_, ?_, ?_, houtside.trans h.inside, fun e he hped hvehicle => ?_, fun e v seat hsit => ?_,
    fun v hv htype seat hnone => ?_⟩
  · rw [hsame.entityList, hsame.entitiesById]
    simp only [hsame.handle]
    exact h.byId
  · rw [hsame.entityList, hsame.entitiesById]
    simp only [hsame.handle]
    exact h.registered
  · rw [hsame.entityList, hsame.nextEntity]
    exact h.lt_next
  · rw [hsame.entityList]
    exact h.nodup
  · rw [hsame.entityList] at he
    rw [hsame.isPed] at hped
    rw [hsame.getVehicle, (hlast e).1] at hvehicle
    rw [(hlast e).2]
    exact h.last_inside e he hped hvehicle
  · rw [hseat, hsame.handle, hsame.type]
    exact h.sits e v seat (hsits e v seat hsit)
  · rw [hsame.entityList] at hv
    rw [hsame.type] at htype
    rw [hseat]
    exact h.free v hv htype seat fun e hsit => hnone e (hsits' e v seat hsit)

theorem getVehicle_eq_some {vehicle : Int} : w.getVehicle vehicle = some v ↔
    vehicle ≠ -1 ∧ (vehicle % 2 ^ 16).toNat < MaxObjectId ∧ w.entitiesById (vehicle % 2 ^ 16).toNat = some v ∧
      (w.entities v).type.isVehicle = true := by
  unfold getVehicle
  dsimp only
  generalize (vehicle % 2 ^ 16).toNat = objectId
  by_cases hvehicle : vehicle = -1
  · simp [hvehicle]
  · rw [if_neg hvehicle]
    by_cases hlt : objectId < MaxObjectId
    · rw [if_pos hlt, Option.filter_eq_some_iff]
      simp [hvehicle, hlt]
    · rw [if_neg hlt]
      simp [hlt]

section Create

variable {entity : SeatEntity} (hfresh : Fresh entity) (hfree : w.entitiesById entity.handle = none)
  (horderly : w.Orderly (.create entity))
  (hw' : w' = { w with
    entities := Function.update w.entities w.nextEntity entity
    nextEntity := w.nextEntity + 1
    entitiesById := Function.update w.entitiesById entity.handle (some w.nextEntity)
    entityList := w.nextEntity :: w.entityList })
include hw'

theorem create_self : w'.entities w.nextEntity = entity := by
  rw [hw']
  exact Function.update_self ..

theorem create_old (h : w.Settled) (he : e ∈ w.entityList) : w'.entities e = w.entities e := by
  rw [hw']
  exact Function.update_of_ne (Nat.ne_of_lt (h.lt_next e he)) ..

include hfree horderly

/-- No ped was in the new entity. -/
theorem create_getVehicle (h : w.Settled) (he : e ∈ w.entityList) (hped : (w.entities e).isPed = true) :
    w'.getVehicle (w.entities e).pedGameState.lastVehicle = w.getVehicle (w.entities e).pedGameState.lastVehicle := by
  ext v
  rw [getVehicle_eq_some, getVehicle_eq_some]
  refine and_congr_right fun hvehicle => and_congr_right fun _ => ?_
  have hbyId : w'.entitiesById = Function.update w.entitiesById entity.handle (some w.nextEntity) := by rw [hw']
  rw [hbyId]
  by_cases hid : ((w.entities e).pedGameState.lastVehicle % 2 ^ 16).toNat = entity.handle
  · rw [hid, Function.update_self, hfree]
    refine iff_of_false ?_ fun hboth => nomatch hboth.1
    rintro ⟨heq, htype⟩
    cases heq
    rw [create_self hw'] at htype
    exact horderly htype e he ⟨hped, hvehicle, hid⟩
  · rw [Function.update_of_ne hid]
    refine and_congr_right fun hfound => ?_
    rw [create_old hw' h (h.registered _ v hfound).1]

theorem Settled.create (hfresh : Fresh entity) (h : w.Settled) : w'.Settled := by
  obtain ⟨hlastVehicle, _, _, hoccupants, hplayers⟩ := hfresh
  have hnew : w.nextEntity ∉ w.entityList := fun hmem => absurd (h.lt_next _ hmem) (Nat.lt_irrefl _)
  have hold : ∀ {e}, e ∈ w.entityList → w'.entities e = w.entities e := create_old hw' h
  have hself := create_self hw'
  have hlist : w'.entityList = w.nextEntity :: w.entityList := by rw [hw']
  have hbyId : w'.entitiesById = Function.update w.entitiesById entity.handle (some w.nextEntity) := by rw [hw']
  have hnone : w'.getVehicle entity.pedGameState.lastVehicle = none := by
    rw [hlastVehicle]
    rfl
  have hsits : ∀ e v seat, w'.Sits e v seat → w.Sits e v seat := by
    intro e v seat hsits
    have hmem := hsits.mem
    rw [hlist] at hmem
    obtain rfl | hmem := List.mem_cons.mp hmem
    · have hplace := hsits.place
      rw [hself, place, hnone] at hplace
      cases hplace
    · have hplace := hsits.place
      have hped := hsits.isPed
      rw [hold hmem] at hplace hped
      rw [place, create_getVehicle hfree horderly hw' h hmem hped] at hplace
      exact ⟨hmem, hped, hold hmem ▸ hsits.living, hplace⟩
  have hsits' : ∀ e v seat, w.Sits e v seat → w'.Sits e v seat := by
    intro e v seat hsits
    have hmem := hsits.mem
    refine ⟨by rw [hlist]; exact List.mem_cons_of_mem _ hmem, by rw [hold hmem]; exact hsits.isPed,
      by rw [hold hmem]; exact hsits.living, ?_⟩
    rw [hold hmem, place, create_getVehicle hfree horderly hw' h hmem hsits.isPed]
    exact hsits.place
  refine ⟨fun e he => ?_, fun id e he => ?_, fun e he => ?_, ?_, ?_, fun e he hped hvehicle => ?_,
    fun e v seat hsit => ?_, fun v hv htype seat hempty => ?_⟩
  · rw [hlist] at he
    rw [hbyId]
    obtain rfl | hmem := List.mem_cons.mp he
    · rw [hself, Function.update_self]
    · have hne : (w.entities e).handle ≠ entity.handle := by
        intro heq
        have hfound := h.byId e hmem
        rw [heq, hfree] at hfound
        cases hfound
      rw [hold hmem, Function.update_of_ne hne, h.byId e hmem]
  · rw [hbyId] at he
    rw [hlist]
    by_cases hid : id = entity.handle
    · rw [hid, Function.update_self] at he
      cases he
      exact ⟨List.mem_cons_self, by rw [hself, hid]⟩
    · rw [Function.update_of_ne hid] at he
      obtain ⟨hmem, hhandle⟩ := h.registered id e he
      exact ⟨List.mem_cons_of_mem _ hmem, by rw [hold hmem, hhandle]⟩
  · rw [hlist] at he
    have hnext : w'.nextEntity = w.nextEntity + 1 := by rw [hw']
    rw [hnext]
    obtain rfl | hmem := List.mem_cons.mp he
    · exact Nat.lt_succ_self _
    · exact Nat.lt_succ_of_lt (h.lt_next e hmem)
  · rw [hlist]
    exact List.nodup_cons.mpr ⟨hnew, h.nodup⟩
  · rw [hw']
    exact h.inside
  · rw [hlist] at he
    obtain rfl | hmem := List.mem_cons.mp he
    · rw [hself, hnone] at hvehicle
      cases hvehicle
    · rw [hold hmem] at hped hvehicle ⊢
      rw [create_getVehicle hfree horderly hw' h hmem hped] at hvehicle
      exact h.last_inside e hmem hped hvehicle
  · have hbefore := hsits e v seat hsit
    have hv := (h.vehicle_mem (place_eq_some.mp hbefore.place).1).1
    rw [seatOf, hold hv, hold hbefore.mem]
    exact h.sits e v seat hbefore
  · rw [hlist] at hv
    obtain rfl | hmem := List.mem_cons.mp hv
    · rw [seatOf, hself, hoccupants, hplayers]
    · rw [hold hmem] at htype
      rw [seatOf, hold hmem]
      exact h.free v hmem htype seat fun e hsit => hempty e (hsits' e v seat hsit)

end Create

section Remove

variable (hfinalizing : (w.entities e).finalizing = true)
  (hw' : w' = { w with
    entitiesById := Function.update w.entitiesById (w.entities e).handle none
    entityList := w.entityList.erase e })
include hw'

/-- A removed vehicle is gone, and the others stay. -/
theorem remove_getVehicle (h : w.Settled) (he : e ∈ w.entityList) (vehicle : Int) :
    w'.getVehicle vehicle = some v ↔ w.getVehicle vehicle = some v ∧ v ≠ e := by
  have hentities : w'.entities = w.entities := by rw [hw']
  have hbyId : w'.entitiesById = Function.update w.entitiesById (w.entities e).handle none := by rw [hw']
  rw [getVehicle_eq_some, getVehicle_eq_some, hentities, hbyId]
  by_cases hid : (vehicle % 2 ^ 16).toNat = (w.entities e).handle
  · rw [hid, Function.update_self, h.byId e he]
    refine iff_of_false (fun hboth => nomatch hboth.2.2.1) fun hboth => hboth.2 ?_
    exact (Option.some.inj hboth.1.2.2.1).symm
  · rw [Function.update_of_ne hid]
    refine ⟨fun hfound => ⟨hfound, ?_⟩, fun hboth => hboth.1⟩
    rintro rfl
    exact hid (h.registered _ v hfound.2.2.1).2.symm

include hfinalizing

theorem Settled.remove (h : w.Settled) (he : e ∈ w.entityList) : w'.Settled := by
  have hentities : w'.entities = w.entities := by rw [hw']
  have hlist : w'.entityList = w.entityList.erase e := by rw [hw']
  have hbyId : w'.entitiesById = Function.update w.entitiesById (w.entities e).handle none := by rw [hw']
  have hsits : ∀ e' v seat, w'.Sits e' v seat ↔ w.Sits e' v seat ∧ v ≠ e := by
    intro e' v seat
    constructor
    · intro hsits
      obtain ⟨hvehicle, hseat⟩ := place_eq_some.mp hsits.place
      obtain ⟨hvehicle, hne⟩ := (remove_getVehicle hw' h he _).mp hvehicle
      rw [hentities] at hvehicle hseat
      exact ⟨⟨List.mem_of_mem_erase (hlist ▸ hsits.mem), hentities ▸ hsits.isPed, hentities ▸ hsits.living,
        place_eq_some.mpr ⟨hvehicle, hseat⟩⟩, hne⟩
    · rintro ⟨hsits, hne⟩
      obtain ⟨hvehicle, hseat⟩ := place_eq_some.mp hsits.place
      have hother : e' ≠ e := by
        rintro rfl
        rw [hsits.living] at hfinalizing
        cases hfinalizing
      refine ⟨by rw [hlist]; exact (List.mem_erase_of_ne hother).mpr hsits.mem, by rw [hentities]; exact hsits.isPed,
        by rw [hentities]; exact hsits.living, ?_⟩
      rw [hentities]
      exact place_eq_some.mpr ⟨(remove_getVehicle hw' h he _).mpr ⟨hvehicle, hne⟩, hseat⟩
  have hseats : w'.seatOf = w.seatOf := by rw [hw']; rfl
  refine ⟨fun e' he' => ?_, fun id e' he' => ?_, fun e' he' => ?_, ?_, ?_, fun e' he' hped hvehicle => ?_,
    fun e' v seat hsit => ?_, fun v hv htype seat hempty => ?_⟩
  · rw [hlist, h.nodup.mem_erase_iff] at he'
    rw [hbyId, hentities]
    have hne : (w.entities e').handle ≠ (w.entities e).handle := fun heq => he'.1 (h.handle_inj he'.2 he heq)
    rw [Function.update_of_ne hne]
    exact h.byId e' he'.2
  · rw [hbyId] at he'
    by_cases hid : id = (w.entities e).handle
    · rw [hid, Function.update_self] at he'
      cases he'
    · rw [Function.update_of_ne hid] at he'
      obtain ⟨hmem, hhandle⟩ := h.registered id e' he'
      rw [hlist, hentities, h.nodup.mem_erase_iff]
      refine ⟨⟨?_, hmem⟩, hhandle⟩
      rintro rfl
      exact hid hhandle.symm
  · rw [hlist] at he'
    have hnext : w'.nextEntity = w.nextEntity := by rw [hw']
    rw [hnext]
    exact h.lt_next e' (List.mem_of_mem_erase he')
  · rw [hlist]
    exact h.nodup.erase e
  · rw [hw']
    exact h.inside
  · rw [hlist] at he'
    rw [hentities] at hped hvehicle ⊢
    obtain ⟨v, hvehicle⟩ := Option.isSome_iff_exists.mp hvehicle
    obtain ⟨hvehicle, _⟩ := (remove_getVehicle hw' h he _).mp hvehicle
    exact h.last_inside e' (List.mem_of_mem_erase he') hped (by rw [hvehicle]; rfl)
  · rw [hseats, hentities]
    exact h.sits e' v seat ((hsits e' v seat).mp hsit).1
  · rw [hlist, h.nodup.mem_erase_iff] at hv
    rw [hentities] at htype
    rw [hseats]
    exact h.free v hv.2 htype seat fun e' hsit => hempty e' ((hsits e' v seat).mpr ⟨hsit, hv.1⟩)

end Remove

/-- A ped that is no longer living has left its seat. -/
theorem Settled.left (h : w.Settled) (hsame : Same w w') (hself : (w'.entities e).finalizing = true)
    (hothers : ∀ e' ≠ e, (w'.entities e').finalizing = (w.entities e').finalizing)
    (hped : ∀ e', (w'.entities e').pedGameState = (w.entities e').pedGameState) (houtside : w'.outside = w.outside)
    (hcleared : ∀ v seat, w.Sits e v seat → w'.seatOf v seat = (0, false))
    (hkept : ∀ v seat, ¬ w.Sits e v seat → w'.seatOf v seat = w.seatOf v seat) : w'.Settled := by
  have hsits : ∀ e' v seat, w'.Sits e' v seat ↔ w.Sits e' v seat ∧ e' ≠ e := by
    intro e' v seat
    constructor
    · intro hsits
      have hne : e' ≠ e := by
        rintro rfl
        rw [hsits.living] at hself
        cases hself
      refine ⟨⟨hsame.entityList ▸ hsits.mem, (hsame.isPed e').symm.trans hsits.isPed,
        (hothers e' hne).symm.trans hsits.living, ?_⟩, hne⟩
      rw [← hsame.place, ← hped]
      exact hsits.place
    · rintro ⟨hsits, hne⟩
      refine ⟨hsame.entityList.symm ▸ hsits.mem, (hsame.isPed e').trans hsits.isPed,
        (hothers e' hne).trans hsits.living, ?_⟩
      rw [hsame.place, hped]
      exact hsits.place
  refine ⟨?_, ?_, ?_, ?_, houtside.trans h.inside, fun e' he' hped' hvehicle => ?_, fun e' v seat hsit => ?_,
    fun v hv htype seat hnone => ?_⟩
  · rw [hsame.entityList, hsame.entitiesById]
    simp only [hsame.handle]
    exact h.byId
  · rw [hsame.entityList, hsame.entitiesById]
    simp only [hsame.handle]
    exact h.registered
  · rw [hsame.entityList, hsame.nextEntity]
    exact h.lt_next
  · rw [hsame.entityList]
    exact h.nodup
  · rw [hsame.entityList] at he'
    rw [hsame.isPed] at hped'
    rw [hsame.getVehicle, hped] at hvehicle
    rw [hped]
    exact h.last_inside e' he' hped' hvehicle
  · obtain ⟨hbefore, hne⟩ := (hsits e' v seat).mp hsit
    have hnot : ¬ w.Sits e v seat := by
      intro hself'
      have heq := (h.sits e' v seat hbefore).1.symm.trans (h.sits e v seat hself').1
      exact hne (h.handle_inj hbefore.mem hself'.mem (congrArg Prod.fst heq))
    rw [hkept v seat hnot, hsame.handle, hsame.type]
    exact h.sits e' v seat hbefore
  · rw [hsame.entityList] at hv
    rw [hsame.type] at htype
    by_cases hself' : w.Sits e v seat
    · exact hcleared v seat hself'
    · rw [hkept v seat hself']
      refine h.free v hv htype seat fun e' hsit => hnone e' ((hsits e' v seat).mpr ⟨hsit, ?_⟩)
      rintro rfl
      exact hself' hsit

/-- A ped that is finalized leaves its seat. -/
theorem Settled.finalize (h : w.Settled) (he : e ∈ w.entityList) (horderly : w.Orderly (.finalize e)) :
    (w.finalize e).Settled := by
  unfold SeatWorld.finalize
  split
  · exact h
  · dsimp only
    rw [modify_self]
    have hmarked : Same w (w.modify e fun entity => { entity with finalizing := true }) := same_modify w e rfl rfl
    have hothers : ∀ e' ≠ e, ((w.modify e fun entity => { entity with finalizing := true }).entities e').finalizing =
        (w.entities e').finalizing := fun e' hne => by rw [modify_of_ne w _ hne]
    have hself : ((w.modify e fun entity => { entity with finalizing := true }).entities e).finalizing = true := by
      rw [modify_self]
    have hped : ∀ e', ((w.modify e fun entity => { entity with finalizing := true }).entities e').pedGameState =
        (w.entities e').pedGameState := modify_eq SeatEntity.pedGameState w e rfl
    have hseats : ∀ v seat, (w.modify e fun entity => { entity with finalizing := true }).seatOf v seat =
      w.seatOf v seat :=
      fun v seat => modify_eq
        (fun entity => (entity.vehicleGameState.occupants seat,
          entity.vehicleGameState.playerOccupants seat)) w e rfl v
    have houtside : (w.modify e fun entity => { entity with finalizing := true }).outside = w.outside := rfl
    have hisPed : ({ w.entities e with finalizing := true } : SeatEntity).isPed = (w.entities e).isPed := rfl
    rw [hisPed]
    generalize (w.modify e fun entity => { entity with finalizing := true }) = marked at *
    split
    · rename_i hisPed
      obtain ⟨hlast, hcur⟩ := horderly hisPed
      have hclear := seated_clearSeat marked (w.entities e).pedGameState.curVehicle
        (w.entities e).pedGameState.curVehicleSeat (w.entities e).handle
      have hseats' : ∀ v seat, (marked.clearSeat (w.entities e).pedGameState.curVehicle
          (w.entities e).pedGameState.curVehicleSeat (w.entities e).handle).seatOf v seat =
          (w.clearSeat (w.entities e).pedGameState.curVehicle (w.entities e).pedGameState.curVehicleSeat
            (w.entities e).handle).seatOf v seat := by
        intro v seat
        rw [seatOf_clearSeat, seatOf_clearSeat]
        simp only [hmarked.place, hseats]
      refine h.left (hmarked.trans hclear.toSame) ((hclear.finalizing e).trans hself)
        (fun e' hne => (hclear.finalizing e').trans (hothers e' hne))
          (fun e' => (hclear.pedGameState e').trans (hped e'))
        ((outside_clearSeat marked _ ?_).trans houtside) (fun v seat hsits => ?_) fun v seat hnot => ?_
      · rw [hmarked.getVehicle]
        exact hcur
      · rw [hseats']
        refine h.seatOf_cleared ?_ hsits
        have hnot := hlast (by rw [(place_eq_some.mp hsits.place).1]; rfl)
        rw [moved, decide_eq_false_iff_not, not_or, not_not, not_not] at hnot
        rw [← hnot.1, ← hnot.2]
        exact hsits.place
      · rw [hseats']
        exact h.seatOf_kept he fun _ => hnot
    · rename_i hisPed
      exact h.left hmarked hself hothers hped houtside (fun v seat hsits => absurd hsits.isPed hisPed)
        fun v seat _ => hseats v seat

theorem Settled.sync (h : w.Settled) (inVehicle : InVehicle) :
    (w.modify e (·.modifyPed (·.parse inVehicle))).Settled := by
  have hparse : ∀ data : CPedGameStateNodeData, (data.parse inVehicle).lastVehicle = data.lastVehicle ∧
      (data.parse inVehicle).lastVehicleSeat = data.lastVehicleSeat := by
    intro data
    unfold CPedGameStateNodeData.parse
    split <;> exact ⟨rfl, rfl⟩
  refine h.congr (same_modify w e rfl rfl) (modify_eq SeatEntity.finalizing w e rfl) (fun e' => ⟨?_, ?_⟩)
    (fun v seat => ?_) rfl
  · exact modify_eq (fun entity => entity.pedGameState.lastVehicle) w e (hparse _).1 e'
  · exact modify_eq (fun entity => entity.pedGameState.lastVehicleSeat) w e (hparse _).2 e'
  · exact modify_eq
      (fun entity => (entity.vehicleGameState.occupants seat, entity.vehicleGameState.playerOccupants seat)) w e rfl v

theorem Settled.step {a : Action} (h : w.Settled) (horderly : w.Orderly a) (hstep : w.step a = some w') :
    w'.Settled := by
  cases a with
  | create entity =>
    obtain ⟨⟨hfresh, _, hfree⟩, hw'⟩ := Option.ite_none_right_eq_some.mp hstep
    exact h.create hfree horderly (Option.some.inj hw').symm hfresh
  | sync e inVehicle =>
    obtain ⟨_, hw'⟩ := Option.ite_none_right_eq_some.mp hstep
    cases hw'
    exact h.sync inVehicle
  | finalize e =>
    obtain ⟨he, hw'⟩ := Option.ite_none_right_eq_some.mp hstep
    cases hw'
    exact h.finalize he horderly
  | remove e =>
    obtain ⟨⟨he, hfinalizing⟩, hw'⟩ := Option.ite_none_right_eq_some.mp hstep
    exact h.remove hfinalizing (Option.some.inj hw').symm he
  | updateEntities order =>
    obtain ⟨horder, hw'⟩ := Option.ite_none_right_eq_some.mp hstep
    cases hw'
    exact (h.updateEntities horder horderly).1

theorem settled_empty (entities : SyncEntityPtr → SeatEntity) : (empty entities).Settled where
  byId _ he := nomatch he
  registered _ _ he := nomatch he
  lt_next _ he := nomatch he
  nodup := .nil
  inside := rfl
  last_inside _ he := nomatch he
  sits _ _ _ hsits := nomatch hsits.mem
  free _ hv := nomatch hv

/-- In an orderly run, the seats converge in every pass. A pass visits the entities in any order; that every visit
finds its seat free makes the order irrelevant. -/
theorem run_converges (entities : SyncEntityPtr → SeatEntity) (acts : List Action) (w : SeatWorld)
    (hrun : Transition.Run step Orderly (empty entities) acts w) :
    Transition.Run step Converges (empty entities) acts w := by
  refine hrun.upgrade Settled (settled_empty entities) (fun h horderly hstep => h.step horderly hstep)
    fun {s a t} h horderly _ w' hstep => ?_
  cases a with
  | updateEntities order =>
    obtain ⟨horder, hw'⟩ := Option.ite_none_right_eq_some.mp hstep
    cases hw'
    obtain ⟨hsettled, hmoved⟩ := h.updateEntities horder horderly
    exact hsettled.converged hmoved
  | create | sync | finalize | remove => exact (h.step horderly hstep).inside

/-- An entity with a handle and a type, as it is created. -/
def fresh (handle : Nat) (type : NetObjEntityType) : SeatEntity where
  handle := handle
  type := type
  pedGameState := { curVehicle := -1, curVehicleSeat := -1 }
  vehicleGameState := { lastOccupant := fun _ => 0 }

/-- A player and a ped get into an automobile. -/
def boardRun : List Action :=
  [.create (fresh 10 .Automobile), .create (fresh 1 .Player), .create (fresh 2 .Ped), .sync 1 (some (10, some 0)),
    .sync 2 (some (10, some 1)), .updateEntities [1, 2, 0]]

theorem run_converges_board : ∃ w, Transition.Run step Converges (empty fun _ => fresh 0 .Object) boardRun w ∧
    w.seatOf 0 0 = (1, true) ∧ w.seatOf 0 1 = (2, false) := by
  have hend : ((Transition.exec (fun w a => if decide (Orderly w a) then step w a else none)
      (empty fun _ => fresh 0 .Object) boardRun).any fun w => w.seatOf 0 0 == (1, true) &&
        w.seatOf 0 1 == (2, false)) = true := by decide +kernel
  have hcheck : ∀ (w : SeatWorld) a, decide (w.Orderly a) = true → w.Orderly a := fun _ _ => of_decide_eq_true
  obtain ⟨w, hrun, hw⟩ := Transition.exists_checked hcheck hend
  rw [Bool.and_eq_true, beq_iff_eq, beq_iff_eq] at hw
  exact ⟨w, run_converges _ _ w hrun, hw⟩

/-- They change seats: the first visit finds its seat taken, and the player has none. -/
def swapRun : List Action := boardRun ++ [.sync 1 (some (10, some 1)), .sync 2 (some (10, some 0))]

theorem run_swap : ∃ w, Transition.Run step (fun _ _ => True) (empty fun _ => fresh 0 .Object) swapRun w ∧
    ¬ w.Converges (.updateEntities [1, 2, 0]) := by
  have hend : ((Transition.exec step (empty fun _ => fresh 0 .Object) swapRun).any fun w =>
      (step w (.updateEntities [1, 2, 0])).any fun w' =>
        w'.entityList == [2, 1, 0] && (w'.entities 0).type.isVehicle && !(w'.entities 2).finalizing &&
          !(w'.entities 1).finalizing && (w'.entities 2).isPed && (w'.entities 1).isPed && !(w'.entities 0).isPed &&
          w'.place (w'.entities 2).pedGameState.curVehicle (w'.entities 2).pedGameState.curVehicleSeat ==
            some (0, 0) &&
          w'.place (w'.entities 1).pedGameState.curVehicle (w'.entities 1).pedGameState.curVehicleSeat ==
            some (0, 1) &&
          (w'.entities 1).handle == 1 && w'.seatOf 0 1 == (0, false)) = true := by decide +kernel
  obtain ⟨w, hrun, hw⟩ := Transition.exists_run hend
  refine ⟨w, hrun, fun h => ?_⟩
  obtain ⟨w', hstep, hw'⟩ := (Option.any_eq_true _ _).mp hw
  simp only [Bool.and_eq_true, beq_iff_eq, Bool.not_eq_true'] at hw'
  obtain ⟨⟨⟨⟨⟨⟨⟨⟨⟨⟨hlist, htype⟩, hliving₂⟩, hliving₁⟩, hped₂⟩, hped₁⟩, hnot⟩, hplace₂⟩, hplace₁⟩, hhandle⟩,
    hempty⟩ := hw'
  have hconverged : w'.Converged := h w' hstep
  have hdistinct : ∀ e v seat, w'.Claims e v seat → (e = 2 ∧ (v, seat) = (0, 0)) ∨ (e = 1 ∧ (v, seat) = (0, 1)) := by
    intro e v seat hclaims
    have hmem := hclaims.mem
    rw [hlist] at hmem
    simp only [List.mem_cons, List.not_mem_nil, or_false] at hmem
    obtain rfl | rfl | rfl := hmem
    · exact .inl ⟨rfl, Option.some.inj (hclaims.place.symm.trans hplace₂)⟩
    · exact .inr ⟨rfl, Option.some.inj (hclaims.place.symm.trans hplace₁)⟩
    · cases hclaims.isPed.symm.trans hnot
  have hclaim : w'.Claims 1 0 1 := ⟨by rw [hlist]; decide, hped₁, hliving₁, hplace₁⟩
  have hseats := hconverged.2 (fun e e' v seat hclaims hclaims' => ?_) 0 (by rw [hlist]; decide) htype 1
  · have hoccupant := (hseats.1 1 hclaim).1
    have hzero : (w'.entities 0).vehicleGameState.occupants 1 = 0 := congrArg Prod.fst hempty
    rw [hzero, hhandle] at hoccupant
    cases hoccupant
  · obtain ⟨rfl, hplace⟩ | ⟨rfl, hplace⟩ := hdistinct e v seat hclaims <;>
      obtain ⟨rfl, hplace'⟩ | ⟨rfl, hplace'⟩ := hdistinct e' v seat hclaims'
    · rfl
    · cases hplace.symm.trans hplace'
    · cases hplace.symm.trans hplace'
    · rfl

end SeatWorld

end fx
