import Citizen.GameState.Basic
import Citizen.Lib.Loop
import Citizen.Lib.Transition

namespace fx

/-- The net id of no client. -/
def noNetId : Nat := 0xFFFF

/-- `WorldGridEntry`. -/
structure WorldGridEntry where
  sectorX : Fin 256 := 0
  sectorY : Fin 256 := 0
  netID : Nat := noNetId
  deriving DecidableEq

/-- An entry for the sector. -/
def WorldGridEntry.For (entry : WorldGridEntry) (x y : Fin 256) : Prop :=
  entry.netID ≠ noNetId ∧ entry.sectorX = x ∧ entry.sectorY = y

/-- `WorldGrid`: the 32 entries of every slot, and the owners of the sectors. -/
structure WorldGrid where
  state : Nat → Fin 32 → WorldGridEntry := fun _ _ => {}
  netIDs : Fin 256 → Fin 256 → Nat := fun _ _ => noNetId

/-- A sector number that is inside of the grid. -/
def sector? (i : Int) : Option (Fin 256) := if h : 0 ≤ i ∧ i < 256 then some ⟨i.toNat, by omega⟩ else none

/-- The address of a sector in `worldGridCooldown`. -/
def secAddr (x y : Fin 256) : Nat := x.1 * 256 + y.1

/-- The sectors around a focus position. They are whatever the conversion from `float` to `int` makes of it. -/
structure SectorRange where
  minSectorX : Int
  maxSectorX : Int
  minSectorY : Int
  maxSectorY : Int

namespace SectorRange

/-- The sectors around a position in whole units, where the arithmetic on `float` is exact. -/
def ofPos (x y : Int) : SectorRange where
  minSectorX := max (x - 299 + 8192) 0 / 150
  maxSectorX := max (x + 299 + 8192) 0 / 150
  minSectorY := max (y - 299 + 8192) 0 / 150
  maxSectorY := max (y + 299 + 8192) 0 / 150

/-- The check on the lower ends. -/
def refused (range : SectorRange) : Bool :=
  decide (range.minSectorX < 0 ∨ range.minSectorX > 256 ∨ range.minSectorY < 0 ∨ range.minSectorY > 256)

/-- The range is not refused, and ends inside of the grid. -/
def Inside (range : SectorRange) : Prop := range.refused = false → range.maxSectorX < 256 ∧ range.maxSectorY < 256

def contains (range : SectorRange) (x y : Nat) : Bool :=
  decide (range.minSectorX ≤ x ∧ (x : Int) ≤ range.maxSectorX ∧ range.minSectorY ≤ y ∧ (y : Int) ≤ range.maxSectorY)

/-- The sectors in the order of the two loops. -/
def sectors (range : SectorRange) : List (Int × Int) :=
  (List.range (range.maxSectorX + 1 - range.minSectorX).toNat).flatMap fun (x : Nat) =>
    (List.range (range.maxSectorY + 1 - range.minSectorY).toNat).map fun (y : Nat) =>
      (range.minSectorX + x, range.minSectorY + y)

end SectorRange

namespace WorldGrid

def setNetID (grid : WorldGrid) (x y : Fin 256) (netId : Nat) : WorldGrid :=
  { grid with netIDs := Function.update grid.netIDs x (Function.update (grid.netIDs x) y netId) }

def setEntry (grid : WorldGrid) (slotId : Nat) (i : Fin 32) (entry : WorldGridEntry) : WorldGrid :=
  { grid with state := Function.update grid.state slotId (Function.update (grid.state slotId) i entry) }

/-- The owners without those that do not pass. -/
def filterNetIDs (grid : WorldGrid) (keep : Nat → Bool) : WorldGrid :=
  { grid with netIDs := fun x y => if keep (grid.netIDs x y) then grid.netIDs x y else noNetId }

/-- The grid without a client: the entries of its slot, if it has one, and its net id. -/
def clear (grid : WorldGrid) (netId slotId : Nat) : WorldGrid where
  state := if slotId = noSlot then grid.state else Function.update grid.state slotId fun _ => {}
  netIDs := (grid.filterNetIDs (· != netId)).netIDs

/-- The first free entry of a slot. -/
def freeEntry (grid : WorldGrid) (slotId : Nat) : Option (Fin 32) :=
  (List.finRange 32).find? fun i => (grid.state slotId i).netID == noNetId

/-- No sector and no entry has the net id. -/
def Forgot (grid : WorldGrid) (netId : Nat) : Prop :=
  (∀ x y, grid.netIDs x y ≠ netId) ∧ ∀ slotId i, (grid.state slotId i).netID ≠ netId

/-- The sectors that a net id owns are the entries of its slot, and no other slot has an entry for one of them. -/
def Agrees (grid : WorldGrid) (netId slotId : Nat) : Prop :=
  ∀ x y, (grid.netIDs x y = netId ↔ slotId ≠ noSlot ∧ ∃! i, grid.state slotId i = ⟨x, y, netId⟩) ∧
    (grid.netIDs x y = netId → ∀ slotId' i, slotId' ≠ slotId → ¬ (grid.state slotId' i).For x y)

end WorldGrid

/-- What the loops over a client's entries and sectors change. `outside` says that an index outside of the grid was
used. -/
structure GridPass where
  grid : WorldGrid
  worldGridCooldown : Nat → Option Nat
  outside : Bool

namespace GridPass

/-- One entry of the loop that disowns the entries that are not near any more. -/
def disown (slotId netId : Nat) (range : SectorRange) (pass : GridPass) (i : Fin 32) : GridPass :=
  let entry := pass.grid.state slotId i
  if entry.netID ≠ noNetId ∧ range.contains entry.sectorX entry.sectorY = false then
    let grid :=
      if pass.grid.netIDs entry.sectorX entry.sectorY = netId
        then pass.grid.setNetID entry.sectorX entry.sectorY noNetId
      else pass.grid
    { pass with
      grid := grid.setEntry slotId i {}
      worldGridCooldown := Function.update pass.worldGridCooldown (secAddr entry.sectorX entry.sectorY) none }
  else pass

/-- The client takes the sector in the first free entry. -/
def take (slotId netId : Nat) (pass : GridPass) (x y : Fin 256) : GridPass :=
  match pass.grid.freeEntry slotId with
  | none => pass
  | some i => { pass with grid := (pass.grid.setEntry slotId i ⟨x, y, netId⟩).setNetID x y netId }

/-- When a sector that no client owns may be taken. -/
def due (pass : GridPass) (now : Nat) (x y : Fin 256) : Nat :=
  (pass.worldGridCooldown (secAddr x y)).getD (now + 100)

/-- One sector of the loops that create the grid chunks. -/
def visit (slotId netId now : Nat) (pass : GridPass) (sector : Int × Int) : GridPass :=
  match sector? sector.1, sector? sector.2 with
  | some x, some y =>
    if pass.grid.netIDs x y ≠ noNetId then
      { pass with worldGridCooldown := Function.update pass.worldGridCooldown (secAddr x y) none }
    else
      let due := pass.due now x y
      let pass := { pass with worldGridCooldown := Function.update pass.worldGridCooldown (secAddr x y) (some due) }
      if now < due then pass else pass.take slotId netId x y
  | _, _ => { pass with outside := true }

end GridPass

/-- The clients and the grids. `drops` are the clients with a `HandleClientDrop` on the sync thread, which can run
before or after the registry removes the client. -/
structure GridWorld where
  connected : List ClientPtr
  isDropping : ClientPtr → Bool
  drops : List ClientPtr
  netId : ClientPtr → Nat
  slotId : ClientPtr → Nat
  routingBucket : ClientPtr → Int
  worldGridCooldown : ClientPtr → Nat → Option Nat
  worldGrids : Int → Option WorldGrid
  nextWorldCheck : Nat
  outside : Bool

/-- A client in the order of `UpdateWorldGrid`, the time at its turn, and the sectors around its player, if it has
one. -/
structure GridTurn where
  client : ClientPtr
  now : Nat
  focus : Option SectorRange

namespace GridWorld

def setGrid (w : GridWorld) (routingBucket : Int) (grid : WorldGrid) : GridWorld :=
  { w with worldGrids := Function.update w.worldGrids routingBucket (some grid) }

/-- The clean-up: owners that do not exist, and grids of routing buckets with no client that `ForAllClients` visits. -/
def cleanUp (w : GridWorld) : GridWorld :=
  { w with worldGrids := fun routingBucket =>
      if ∃ c ∈ w.connected, w.isDropping c = false ∧ w.routingBucket c = routingBucket then
        (w.worldGrids routingBucket).map (·.filterNetIDs fun netId => decide (∃ c ∈ w.connected, w.netId c = netId))
      else none }

/-- The grid of the client's routing bucket, which its turn creates. -/
def gridOf (w : GridWorld) (c : ClientPtr) : WorldGrid := (w.worldGrids (w.routingBucket c)).getD {}

/-- The turn of a client before its last loop: the cooldowns and the entries that are not near any more are gone. -/
def disowned (w : GridWorld) (c : ClientPtr) (range : SectorRange) : GridPass :=
  (List.finRange 32).foldl (GridPass.disown (w.slotId c) (w.netId c) range)
    { grid := w.gridOf c
      worldGridCooldown := fun addr =>
        (w.worldGridCooldown c addr).filter fun _ => range.contains (addr / 256) (addr % 256)
      outside := w.outside }

/-- A client's turn of `UpdateWorldGrid`. -/
def updateClient (w : GridWorld) (turn : GridTurn) : GridWorld :=
  match turn.focus with
  | none => w
  | some range =>
    if w.slotId turn.client = noSlot then w
    else if range.refused then w.setGrid (w.routingBucket turn.client) (w.gridOf turn.client)
    else
      let pass := range.sectors.foldl
        (GridPass.visit (w.slotId turn.client) (w.netId turn.client) turn.now) (w.disowned turn.client range)
      { w.setGrid (w.routingBucket turn.client) pass.grid with
        worldGridCooldown := Function.update w.worldGridCooldown turn.client pass.worldGridCooldown
        outside := pass.outside }

/-- The periodic check of `UpdateWorldGrid`. -/
def checkWorld (w : GridWorld) (now : Nat) : GridWorld :=
  if w.nextWorldCheck ≤ now then { w.cleanUp with nextWorldCheck := now + 10000 } else w

/-- `UpdateWorldGrid`. -/
def updateWorldGrid (w : GridWorld) (now : Nat) (turns : List GridTurn) : GridWorld :=
  turns.foldl updateClient (w.checkWorld now)

/-- `ClearClientFromWorldGrid`, without the packet and the array handlers. -/
def clearClientFromWorldGrid (w : GridWorld) (c : ClientPtr) : GridWorld :=
  match w.worldGrids (w.routingBucket c) with
  | none => w
  | some grid => w.setGrid (w.routingBucket c) (grid.clear (w.netId c) (w.slotId c))

/-- A client joins with a net id and a slot of its own; it drops, the registry removes it, and the sync thread
handles the drop; a script sets its routing bucket; and the grid is updated for the clients that are not
dropping, in some order. -/
inductive Action
  | join (c : ClientPtr) (netId slotId : Nat)
  | drop (c : ClientPtr)
  | removeClient (c : ClientPtr)
  | handleClientDrop (c : ClientPtr)
  | setRoutingBucket (c : ClientPtr) (routingBucket : Int)
  | updateWorldGrid (now : Nat) (turns : List GridTurn)

/-- One step. -/
def step (w : GridWorld) : Action → Option GridWorld
  | .join c netId slotId =>
    if c ∉ w.connected ∧ c ∉ w.drops ∧ 0 < netId ∧ netId < noNetId ∧ (∀ c' ∈ w.connected, w.netId c' ≠ netId) ∧
        (slotId = noSlot ∨ slotId < MAX_CLIENTS ∧ ∀ c' ∈ w.connected, w.slotId c' ≠ slotId) then
      some { w with
        connected := c :: w.connected
        isDropping := Function.update w.isDropping c false
        netId := Function.update w.netId c netId
        slotId := Function.update w.slotId c slotId
        routingBucket := Function.update w.routingBucket c 0
        worldGridCooldown := Function.update w.worldGridCooldown c fun _ => none }
    else none
  | .drop c =>
    if c ∈ w.connected ∧ w.isDropping c = false then
      some { w with isDropping := Function.update w.isDropping c true, drops := c :: w.drops }
    else none
  | .removeClient c =>
    if c ∈ w.connected then
      some { w with
        connected := w.connected.filter (· ≠ c)
        slotId := Function.update w.slotId c noSlot }
    else none
  | .handleClientDrop c =>
    if c ∈ w.drops then some { w.clearClientFromWorldGrid c with drops := w.drops.filter (· ≠ c) } else none
  | .setRoutingBucket c routingBucket =>
    if c ∈ w.connected then
      some { w.clearClientFromWorldGrid c with routingBucket := Function.update w.routingBucket c routingBucket }
    else none
  | .updateWorldGrid now turns =>
    if (turns.map (·.client)).Perm (w.connected.filter fun c => !w.isDropping c)
      then some (w.updateWorldGrid now turns) else none

/-- The two representations agree for every connected client, and no index outside of the grid was used. -/
def Consistent (w : GridWorld) : Prop :=
  w.outside = false ∧ ∀ c ∈ w.connected, ∀ routingBucket grid, w.worldGrids routingBucket = some grid →
    grid.Agrees (w.netId c) (w.slotId c)

/-- The entry of a slot is no one's: the client that has the slot, if any, has another net id. The client whose
entry it was has been removed before its drop was handled. -/
def Stale (w : GridWorld) (grid : WorldGrid) (slotId : Nat) (i : Fin 32) : Prop :=
  (grid.state slotId i).netID ≠ noNetId ∧
    ∀ c ∈ w.connected, w.slotId c = slotId → slotId ≠ noSlot → w.netId c ≠ (grid.state slotId i).netID

/-- The sectors around the client are inside of the grid, and no other slot has a stale entry for one of them. -/
def Undisturbed (w : GridWorld) (turn : GridTurn) : Prop :=
  ∀ range, turn.focus = some range → w.slotId turn.client ≠ noSlot → range.Inside ∧
    ∀ slotId i, slotId ≠ w.slotId turn.client → w.Stale (w.gridOf turn.client) slotId i →
      range.contains ((w.gridOf turn.client).state slotId i).sectorX
        ((w.gridOf turn.client).state slotId i).sectorY = false

/-- The net id of a new client is none that the grids still have; a client is not handled as dropped when it has been
removed and another one has its net id; and the clients that an update visits are undisturbed before it. -/
def Orderly (w : GridWorld) : Action → Prop
  | .join _ netId _ => ∀ routingBucket grid, w.worldGrids routingBucket = some grid → grid.Forgot netId
  | .handleClientDrop c => c ∉ w.connected → ∀ c' ∈ w.connected, w.netId c' ≠ w.netId c
  | .updateWorldGrid _ turns => ∀ turn ∈ turns, w.Undisturbed turn
  | _ => True

/-- No grid exists, and no client is there. -/
def empty : GridWorld where
  connected := []
  isDropping _ := false
  drops := []
  netId _ := noNetId
  slotId _ := noSlot
  routingBucket _ := 0
  worldGridCooldown _ _ := none
  worldGrids _ := none
  nextWorldCheck := 0
  outside := false

end GridWorld

end fx
