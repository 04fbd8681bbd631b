import Citizen.GameState.Basic
import Citizen.Lib.Loop
import Citizen.Lib.Transition

namespace fx

open sync

/-- `CPedGameStateNodeData`. A ped that has synced no game state yet has any current vehicle and seat. -/
structure CPedGameStateNodeData where
  curVehicle : Int
  curVehicleSeat : Int
  lastVehicle : Int := -1
  lastVehicleSeat : Int := -1
  deriving DecidableEq

/-- `CVehicleGameStateNodeData`. -/
structure CVehicleGameStateNodeData where
  occupants : Fin 32 → Nat := fun _ => 0
  playerOccupants : Fin 32 → Bool := fun _ => false
  lastOccupant : Fin 32 → Nat

/-- An entity, with the game states that its tree has if it is a ped or a vehicle. -/
structure SeatEntity where
  handle : Nat
  type : NetObjEntityType
  pedGameState : CPedGameStateNodeData
  vehicleGameState : CVehicleGameStateNodeData
  finalizing : Bool := false

/-- The registered entities. `outside` says that an index outside of a seat array was used. -/
structure SeatWorld where
  entities : SyncEntityPtr → SeatEntity
  nextEntity : SyncEntityPtr
  entitiesById : Nat → Option SyncEntityPtr
  entityList : List SyncEntityPtr
  outside : Bool := false

/-- What a ped syncs: the vehicle it is in, and its seat, if it is in one. -/
abbrev InVehicle := Option (BitVec 16 × Option (BitVec 5))

/-- The end of `CPedGameStateDataNode::Parse`. -/
def CPedGameStateNodeData.parse (data : CPedGameStateNodeData) : InVehicle → CPedGameStateNodeData
  | some (vehicleId, some vehicleSeat) =>
    { data with curVehicle := vehicleId.toNat, curVehicleSeat := vehicleSeat.toNat }
  | _ => { data with curVehicle := -1, curVehicleSeat := -1 }

namespace SeatEntity

def isPed (entity : SeatEntity) : Bool := entity.type == .Ped || entity.type == .Player

def modifyPed (entity : SeatEntity) (f : CPedGameStateNodeData → CPedGameStateNodeData) : SeatEntity :=
  { entity with pedGameState := f entity.pedGameState }

/-- The seat becomes free. -/
def clear (entity : SeatEntity) (seat : Fin 32) : SeatEntity :=
  { entity with vehicleGameState :=
    { entity.vehicleGameState with
      occupants := Function.update entity.vehicleGameState.occupants seat 0
      playerOccupants := Function.update entity.vehicleGameState.playerOccupants seat false } }

/-- A ped takes the seat. -/
def take (entity : SeatEntity) (seat : Fin 32) (pedHandle : Nat) (player : Bool) : SeatEntity :=
  { entity with vehicleGameState :=
    { entity.vehicleGameState with
      occupants := Function.update entity.vehicleGameState.occupants seat pedHandle
      lastOccupant := Function.update entity.vehicleGameState.lastOccupant seat pedHandle
      playerOccupants :=
        if player then Function.update entity.vehicleGameState.playerOccupants seat true
        else entity.vehicleGameState.playerOccupants } }

end SeatEntity

/-- A seat inside of the arrays. -/
def seat? (vehicleSeat : Int) : Option (Fin 32) :=
  if h : 0 ≤ vehicleSeat ∧ vehicleSeat < 32 then some ⟨vehicleSeat.toNat, by omega⟩ else none

namespace SeatWorld

def modify (w : SeatWorld) (e : SyncEntityPtr) (f : SeatEntity → SeatEntity) : SeatWorld :=
  { w with entities := Function.update w.entities e (f (w.entities e)) }

/-- `GetEntity` of an `int` that is not -1, when the entity is a vehicle. -/
def getVehicle (w : SeatWorld) (vehicle : Int) : Option SyncEntityPtr :=
  if vehicle = -1 then none
  else
    let objectId := (vehicle % 2 ^ 16).toNat
    (if objectId < MaxObjectId then w.entitiesById objectId else none).filter fun e => (w.entities e).type.isVehicle

/-- The seat is cleared if the ped is in it. -/
def clearSeat (w : SeatWorld) (vehicle vehicleSeat : Int) (pedHandle : Nat) : SeatWorld :=
  match w.getVehicle vehicle with
  | none => w
  | some v =>
    match seat? vehicleSeat with
    | none => { w with outside := true }
    | some seat =>
      if (w.entities v).vehicleGameState.occupants seat = pedHandle then w.modify v (·.clear seat) else w

/-- The seat is taken if it is free. -/
def takeSeat (w : SeatWorld) (vehicle vehicleSeat : Int) (pedHandle : Nat) (player : Bool) : SeatWorld :=
  match w.getVehicle vehicle with
  | none => w
  | some v =>
    match seat? vehicleSeat with
    | none => { w with outside := true }
    | some seat =>
      if (w.entities v).vehicleGameState.occupants seat = 0 then w.modify v (·.take seat pedHandle player) else w

/-- The ped is not where it was in the last pass. -/
def moved (data : CPedGameStateNodeData) : Bool :=
  decide (data.lastVehicle ≠ data.curVehicle ∨ data.lastVehicleSeat ≠ data.curVehicleSeat)

/-- One entity of `UpdateEntities`, without the camera and the forced migration. -/
def updateEntity (w : SeatWorld) (e : SyncEntityPtr) : SeatWorld :=
  let entity := w.entities e
  let data := entity.pedGameState
  if entity.isPed && moved data then
    let w := w.clearSeat data.lastVehicle data.lastVehicleSeat entity.handle
    let w := w.takeSeat data.curVehicle data.curVehicleSeat entity.handle (entity.type == .Player)
    w.modify e (·.modifyPed fun data =>
      { data with lastVehicle := data.curVehicle, lastVehicleSeat := data.curVehicleSeat })
  else w

/-- `FinalizeClone`, and its `OnCloneRemove`. -/
def finalize (w : SeatWorld) (e : SyncEntityPtr) : SeatWorld :=
  if (w.entities e).finalizing then w
  else
    let w := w.modify e fun entity => { entity with finalizing := true }
    let entity := w.entities e
    if entity.isPed then
      w.clearSeat entity.pedGameState.curVehicle entity.pedGameState.curVehicleSeat entity.handle
    else w

/-- An entity is created, a ped syncs its game state, an entity is finalized and then removed, and `UpdateEntities`
goes through the entities in some order. -/
inductive Action
  | create (entity : SeatEntity)
  | sync (e : SyncEntityPtr) (inVehicle : InVehicle)
  | finalize (e : SyncEntityPtr)
  | remove (e : SyncEntityPtr)
  | updateEntities (order : List SyncEntityPtr)

/-- An entity as it is created: no seat is taken yet. -/
def Fresh (entity : SeatEntity) : Prop :=
  entity.pedGameState.lastVehicle = -1 ∧ entity.pedGameState.lastVehicleSeat = -1 ∧ entity.finalizing = false ∧
    (∀ seat, entity.vehicleGameState.occupants seat = 0) ∧ ∀ seat, entity.vehicleGameState.playerOccupants seat = false

instance (entity : SeatEntity) : Decidable (Fresh entity) := by
  unfold Fresh
  infer_instance

/-- One step. -/
def step (w : SeatWorld) : Action → Option SeatWorld
  | .create entity =>
    if Fresh entity ∧ entity.handle < MaxObjectId ∧ w.entitiesById entity.handle = none then
      some { w with
        entities := Function.update w.entities w.nextEntity entity
        nextEntity := w.nextEntity + 1
        entitiesById := Function.update w.entitiesById entity.handle (some w.nextEntity)
        entityList := w.nextEntity :: w.entityList }
    else none
  | .sync e inVehicle =>
    if e ∈ w.entityList ∧ (w.entities e).isPed then some (w.modify e (·.modifyPed (·.parse inVehicle))) else none
  | .finalize e => if e ∈ w.entityList then some (w.finalize e) else none
  | .remove e =>
    if e ∈ w.entityList ∧ (w.entities e).finalizing then
      some { w with
        entitiesById := Function.update w.entitiesById (w.entities e).handle none
        entityList := w.entityList.erase e }
    else none
  | .updateEntities order => if order.Perm w.entityList then some (order.foldl updateEntity w) else none

/-- A seat of an existing vehicle. -/
def place (w : SeatWorld) (vehicle vehicleSeat : Int) : Option (SyncEntityPtr × Fin 32) :=
  (w.getVehicle vehicle).bind fun v => (seat? vehicleSeat).map fun seat => (v, seat)

/-- A living ped claims a seat of an existing vehicle. -/
structure Claims (w : SeatWorld) (e v : SyncEntityPtr) (seat : Fin 32) : Prop where
  mem : e ∈ w.entityList
  isPed : (w.entities e).isPed = true
  living : (w.entities e).finalizing = false
  place : w.place (w.entities e).pedGameState.curVehicle (w.entities e).pedGameState.curVehicleSeat = some (v, seat)

/-- The seats are of the peds that claim them, if no two claim the same. -/
def Converged (w : SeatWorld) : Prop :=
  w.outside = false ∧ ((∀ e e' v seat, w.Claims e v seat → w.Claims e' v seat → e = e') →
    ∀ v ∈ w.entityList, (w.entities v).type.isVehicle → ∀ seat,
      (∀ e, w.Claims e v seat → (w.entities v).vehicleGameState.occupants seat = (w.entities e).handle ∧
        (w.entities v).vehicleGameState.playerOccupants seat = ((w.entities e).type == .Player)) ∧
      ((∀ e, ¬ w.Claims e v seat) → (w.entities v).vehicleGameState.occupants seat = 0 ∧
        (w.entities v).vehicleGameState.playerOccupants seat = false))

/-- After a pass, the seats have converged, and no step uses an index outside of the arrays. -/
def Converges (w : SeatWorld) (a : Action) : Prop :=
  ∀ w', w.step a = some w' → match a with
    | .updateEntities _ => w'.Converged
    | _ => w'.outside = false

/-- A visit of a ped that has moved into an existing vehicle finds its seat free, or the ped itself in it. -/
def Free (w : SeatWorld) (e : SyncEntityPtr) : Prop :=
  (w.entities e).isPed → moved (w.entities e).pedGameState →
    (w.getVehicle (w.entities e).pedGameState.curVehicle).isSome →
    (w.entities e).finalizing = false ∧ (w.entities e).handle ≠ 0 ∧
      ∃ v seat, w.place (w.entities e).pedGameState.curVehicle (w.entities e).pedGameState.curVehicleSeat =
        some (v, seat) ∧ ((w.entities v).vehicleGameState.occupants seat = 0 ∨
          (w.entities v).vehicleGameState.occupants seat = (w.entities e).handle)

instance (w : SeatWorld) (e : SyncEntityPtr) : Decidable (w.Free e) :=
  decidable_of_iff
    ((w.entities e).isPed → moved (w.entities e).pedGameState →
      (w.getVehicle (w.entities e).pedGameState.curVehicle).isSome →
      (w.entities e).finalizing = false ∧ (w.entities e).handle ≠ 0 ∧
        (w.place (w.entities e).pedGameState.curVehicle (w.entities e).pedGameState.curVehicleSeat).any fun found =>
          decide ((w.entities found.1).vehicleGameState.occupants found.2 = 0 ∨
            (w.entities found.1).vehicleGameState.occupants found.2 = (w.entities e).handle))
    (by simp only [Free, Option.any_eq_true, Prod.exists, decide_eq_true_eq])

/-- The last vehicle of a registered ped has the object id. -/
def LastIn (w : SeatWorld) (objectId : Nat) (e : SyncEntityPtr) : Prop :=
  (w.entities e).isPed ∧ (w.entities e).pedGameState.lastVehicle ≠ -1 ∧
    ((w.entities e).pedGameState.lastVehicle % 2 ^ 16).toNat = objectId

instance (w : SeatWorld) (objectId : Nat) (e : SyncEntityPtr) : Decidable (w.LastIn objectId e) := by
  unfold LastIn
  infer_instance

/-- Every visit finds its seat free; no vehicle is created under the object id of a vehicle that a ped was in; and a
ped is finalized in the seat that it was in, if it was in a vehicle. -/
def Orderly (w : SeatWorld) : Action → Prop
  | .create entity => entity.type.isVehicle → ∀ e ∈ w.entityList, ¬ w.LastIn entity.handle e
  | .finalize e => (w.entities e).isPed →
    ((w.getVehicle (w.entities e).pedGameState.lastVehicle).isSome → moved (w.entities e).pedGameState = false) ∧
      ((w.getVehicle (w.entities e).pedGameState.curVehicle).isSome →
        (seat? (w.entities e).pedGameState.curVehicleSeat).isSome)
  | .updateEntities order => Loop.Along updateEntity Free w order
  | _ => True

instance (w : SeatWorld) (a : Action) : Decidable (w.Orderly a) := by
  cases a <;> unfold Orderly <;> infer_instance

/-- No entity is registered. -/
def empty (entities : SyncEntityPtr → SeatEntity) : SeatWorld where
  entities := entities
  nextEntity := 0
  entitiesById _ := none
  entityList := []

end SeatWorld

end fx
