import Citizen.Clones.NodeWrapper
import Citizen.Clones.Slot
import Citizen.Lib.Transition

open Bits rl MessageBuffer Transition fx.sync

namespace fx.ServerSetters

structure CEntityScriptInfoDataNode where
  m_scriptHash : BitVec 32
  m_timestamp : BitVec 32

/-- `CEntityScriptInfoDataNode::Unparse`. -/
def CEntityScriptInfoDataNode.unparse (lengthHack : Bool) (node : CEntityScriptInfoDataNode) (buffer : MessageBuffer) :
    Option MessageBuffer :=
  if node.m_scriptHash ≠ 0 then do
    let buffer ← (buffer.writeBit 1).2.write lengthHack 32 node.m_scriptHash
    let buffer ← buffer.write lengthHack 32 node.m_timestamp
    let buffer ← ((buffer.writeBit 0).2.writeBit 0).2.write lengthHack 32 12
    (buffer.writeBit 0).2.write lengthHack 3 0
  else some (buffer.writeBit 0).2

/-- `CEntityScriptInfoDataNode::Parse`, as far as it reads. -/
def CEntityScriptInfoDataNode.parse (buffer : MessageBuffer) : Int :=
  let (hasScript, buffer) := buffer.readBit
  if hasScript ≠ 0 then
    let buffer := ((buffer.read false 32).2.2.read false 32).2.2
    let (hasPosition, buffer) := buffer.readBit
    let buffer := if hasPosition ≠ 0 then (buffer.read false 32).2.2 else buffer
    let (hasInstance, buffer) := buffer.readBit
    let buffer := if hasInstance ≠ 0 then (buffer.read false 7).2.2 else buffer
    let (longToken, buffer) := (buffer.read false 32).2.2.readBit
    (buffer.read false (if longToken ≠ 0 then 16 else 3)).2.2.curBit
  else buffer.curBit

/-- `UnparseTo`, for the `Unparse` of a node. -/
def unparseTo (unparse : MessageBuffer → Option MessageBuffer) (wrapper : NodeWrapper) : Option NodeWrapper := do
  let mb ← unparse (ofSize wrapper.data.length)
  let data ← memcpy wrapper.data 0 mb.data 0 mb.data.length
  some { wrapper with data, length := BitVec.ofNat 32 mb.getCurrentBit }

/-- `SetupNode` of a node that has been given its values. -/
def setupNode (unparse : MessageBuffer → Option MessageBuffer) (now : BitVec 32) (wrapper : NodeWrapper) :
    Option NodeWrapper :=
  (unparseTo unparse wrapper).map fun wrapper => { wrapper with frameIndex := 12, timestamp := now }

/-- `DisownEntityScript`. -/
def disownEntityScript (lengthHack : Bool) (now : BitVec 32) (wrapper : NodeWrapper) : Option NodeWrapper :=
  setupNode (CEntityScriptInfoDataNode.unparse lengthHack ⟨0, now⟩) now wrapper

/-- A node of a sync tree, with the `NodeIds` of the parents that it is below. -/
structure TreeNode where
  kind : NodeKind
  parents : List (BitVec 32 × BitVec 32 × BitVec 32)

/-- The state that `runSync` and `SyncTree::Unparse` begin with. -/
def unparseState (syncType : BitVec 32) (lastFrameIndex : Nat) (isFirstUpdate : Bool) : SyncUnparseState where
  buffer := ofSize 1200
  syncType := syncType
  objType := if syncType = 2 ∨ syncType = 4 then 1 else 0
  timestamp := 0
  lastFrameIndex := lastFrameIndex
  isFirstUpdate := isFirstUpdate

/-- `ParentNode::Unparse` goes on with its children. -/
def parentWrites (state : SyncUnparseState) (ids : BitVec 32 × BitVec 32 × BitVec 32) : Bool :=
  decide (ids.1 &&& state.syncType ≠ 0 ∧ (ids.2.2 = 0 ∨ state.objType &&& ids.2.2 ≠ 0))

/-- Whether `Unparse` of the tree writes a node. -/
def TreeNode.writes (node : TreeNode) (wrapper : NodeWrapper) (state : SyncUnparseState) : Bool :=
  node.parents.all (parentWrites state) && (shouldWrite node.kind state (wrapper.couldWrite node.kind state)).1

/-- What the server has about the entity for a slot, and which content of a node it has last sent to it. -/
structure EntitySlot (Node : Type*) where
  lastFramesSent : Nat := 0
  lastFramesPreSent : Nat := 0
  hasCreated : Bool := false
  forceUpdate : Bool := false
  sent : Node → Option Nat := fun _ => none

/-- An entity that is no player. The contents that a node has had are numbered; `edited` says that the server has set
the latest one. -/
structure SyncEntity (Node Client : Type*) where
  m_frameIndex : Nat
  lastFrameIndex : Nat
  client : Option Client
  relevantTo : Finset Client
  nodes : Node → NodeWrapper
  content : Node → Nat
  edited : Node → Bool
  slots : Client → EntitySlot Node

/-- What `Tick` looks at for a client: whether it has the entity in its scope, `IsOwnedByServerScript` and
`wantsReassign` of the entity, whether the last update was out of band, whether `nextSync` is due, whether there
is no peer to send to, and of the time at which the command is executed whether client and owner are there and
are the same. -/
structure SlotInput where
  inScope : Bool := true
  ownedByServerScript : Bool := false
  wantsReassign : Bool := false
  outOfBand : Bool := false
  nextSync : Bool := false
  fakeSend : Bool := false
  executes : Bool := true
  executesOwner : Bool := false
  deriving DecidableEq

/-- `CEntityScriptInfoDataNode` in the tree of a vehicle. -/
def scriptInfoNode : TreeNode where
  kind := ⟨127, 127, 1, true, 24, by decide, CEntityScriptInfoDataNode.parse⟩
  parents := [(127, 0, 0), (127, 127, 0), (127, 127, 0), (127, 127, 1)]

section

variable {Node Client : Type} [Fintype Node] (style : SyncStyle) (tree : Node → TreeNode)

namespace EntitySlot

variable (slot : EntitySlot Node) (entity : SyncEntity Node Client)

/-- The command of `runSync`. A client is not told what its own entity does. -/
def runSync (state : SyncUnparseState) (mayWrite : Bool) : EntitySlot Node :=
  if ∃ n, (tree n).writes (entity.nodes n) state = true then
    let sent := fun n =>
      if mayWrite && (tree n).writes (entity.nodes n) state then some (entity.content n) else slot.sent n
    if !state.isFirstUpdate && decide (state.syncType = 2) then
      match style with
      | .NAK => { slot with sent, lastFramesSent := entity.lastFrameIndex }
      | .ARQ => { slot with sent, lastFramesPreSent := entity.lastFrameIndex }
    else { slot with sent }
  else slot

/-- `forceUpdate` once `Tick` has looked at `hasCreated`. -/
def forced : Bool := slot.forceUpdate || !slot.hasCreated

/-- `baseFrameIndex`. -/
def base : Nat := if slot.forced then 0 else slot.lastFramesSent

/-- A forced update starts over. -/
def based : EntitySlot Node := if slot.forced then { slot with lastFramesSent := 0, forceUpdate := false } else slot

/-- Whether `Tick` gets to `runSync`; `owner` says that the client owns the entity. -/
def sends (owner : Bool) (input : SlotInput) : Bool :=
  (!owner || slot.forced || input.outOfBand) && (slot.forced || input.outOfBand || input.nextSync) && !input.fakeSend

/-- The commands of a tick, for the `baseFrameIndex` and the `forceUpdate` that they were made with. -/
def runSyncs (base : Nat) (wasForceUpdate : Bool) (input : SlotInput) : EntitySlot Node :=
  if slot.hasCreated then
    if input.executes then
      slot.runSync style tree entity (unparseState 2 base false) (!(wasForceUpdate && input.executesOwner))
    else slot
  else
    let created := match style with
      | .NAK => { slot with hasCreated := true }
      | .ARQ => slot
    if input.executes then
      (created.runSync style tree entity (unparseState 1 base false) true).runSync style tree entity
        (unparseState 2 0 true) true
    else created

/-- The part of `Tick` for a client that is about its own slot. -/
def tick (owner : Bool) (input : SlotInput) : EntitySlot Node :=
  if !input.inScope then { slot with hasCreated := false, forceUpdate := false }
  else if slot.sends owner input then
    slot.based.runSyncs style tree entity slot.base (slot.forced || input.outOfBand) input
  else slot.based

end EntitySlot

/-- What happens to the entity: a clone packet, a `SetupNode`, the part of a `Tick` for a client (these parts run in
parallel), the end of the tick, what clients answer, and the drop of a client with the one that gets the entity. -/
inductive Event (Node Client : Type)
  | parse (client : Client) (nodes : Node → Option (BitVec 32 × List Byte)) (timestamp : BitVec 32)
  | setupNode (node : Node) (unparse : MessageBuffer → Option MessageBuffer) (now : BitVec 32)
  | tick (client : Client) (input : SlotInput)
  | nextFrame
  | created (client : Client)
  | recreate (client : Client)
  | resend (client : Client) (frame : Nat)
  | ack (client : Client) (frame : Nat)
  | drop (client : Client) (registered : Finset Client) (ownedByServerScript : Bool) (target : Option Client)

namespace SyncEntity

variable [DecidableEq Node] [DecidableEq Client] (entity : SyncEntity Node Client)

/-- `ProcessClonePacket`: `Parse` gives the nodes that it reads a length and data. -/
def parse (client : Client) (nodes : Node → Option (BitVec 32 × List Byte)) (timestamp : BitVec 32) :
    SyncEntity Node Client :=
  { entity with
    lastFrameIndex := entity.m_frameIndex
    relevantTo := insert client entity.relevantTo
    nodes := fun n => match nodes n with
      | some (length, data) => ⟨length, data, timestamp, entity.m_frameIndex, fun _ => false⟩
      | none => entity.nodes n
    content := fun n => if (nodes n).isSome then entity.content n + 1 else entity.content n
    edited := fun n => entity.edited n && (nodes n).isNone }

def setupNode (node : Node) (wrapper : NodeWrapper) : SyncEntity Node Client :=
  { entity with
    nodes := Function.update entity.nodes node wrapper
    content := Function.update entity.content node (entity.content node + 1)
    edited := Function.update entity.edited node true }

def setSlot (client : Client) (slot : EntitySlot Node) : SyncEntity Node Client :=
  { entity with slots := Function.update entity.slots client slot }

/-- What an ignored or missing frame does: the frame is one that the client or a saved frame has named. -/
def resend (client : Client) (frame : Nat) : SyncEntity Node Client :=
  let slot := entity.slots client
  match style with
  | .NAK => entity.setSlot client { slot with lastFramesSent := min frame slot.lastFramesSent }
  | .ARQ => entity.setSlot client
      { slot with
        lastFramesSent := min slot.lastFramesSent frame
        lastFramesPreSent := min slot.lastFramesPreSent frame }

/-- `gameStateAck`, for an entity of the frame. -/
def ack (client : Client) (frame : Nat) : SyncEntity Node Client :=
  let slot := entity.slots client
  match style with
  | .NAK => entity
  | .ARQ => entity.setSlot client { slot with lastFramesSent := min frame slot.lastFramesPreSent }

/-- `ReassignEntity`: the clients that have the entity in their scope are sent it again. -/
def reassignEntity (targetClient : Option Client) : SyncEntity Node Client :=
  { entity with
    client := targetClient
    slots := fun client =>
      if client ∈ entity.relevantTo then { entity.slots client with forceUpdate := true } else entity.slots client }

/-- `Tick` reassigns the entity when its owner leaves the scope, and when nobody owns it that a client has in scope. -/
def reassigned (client : Client) (input : SlotInput) : SyncEntity Node Client :=
  if input.inScope then
    let entity := { entity with relevantTo := insert client entity.relevantTo }
    if entity.client = none ∨ (input.wantsReassign ∧ entity.client ≠ some client)
      then entity.reassignEntity (some client)
    else entity
  else
    let entity := { entity with relevantTo := entity.relevantTo.erase client }
    if entity.client = some client ∧ input.ownedByServerScript then entity.reassignEntity none else entity

/-- The part of `Tick` for a client. -/
def tick (client : Client) (input : SlotInput) : SyncEntity Node Client :=
  let entity := entity.reassigned client input
  entity.setSlot client ((entity.slots client).tick style tree entity (decide (entity.client = some client)) input)

/-- `HandleClientDrop`, where it does not erase the entity. `MoveEntityToCandidate` moves one that the client owns,
or nobody, to a registered client that has it in its scope; only where there is none, nobody gets it, or its
first owner. -/
def handleClientDrop (client : Client) (registered : Finset Client) (ownedByServerScript : Bool)
    (target : Option Client) :
    Option (SyncEntity Node Client) :=
  let dropped := { entity.setSlot client { lastFramesPreSent := (entity.slots client).lastFramesPreSent } with
    relevantTo := entity.relevantTo.erase client }
  let candidates := dropped.relevantTo ∩ registered
  if entity.client = none ∨ entity.client = some client then
    if (∃ candidate ∈ candidates, target = some candidate) ∨
        candidates = ∅ ∧ ownedByServerScript = target.isNone ∧ target ≠ some client then
      some (dropped.reassignEntity target)
    else none
  else some dropped

/-- A script's `SetupNode` is `DisownEntityScript`, which is for entities that nobody owns. -/
def step : Event Node Client → Option (SyncEntity Node Client)
  | .parse client nodes timestamp => some (entity.parse client nodes timestamp)
  | .setupNode node unparse now =>
    if entity.client = none then
      (ServerSetters.setupNode unparse now (entity.nodes node)).map fun wrapper => entity.setupNode node wrapper
    else none
  | .tick client input => some (entity.tick style tree client input)
  | .nextFrame => some { entity with m_frameIndex := entity.m_frameIndex + 1 }
  | .created client => some (entity.setSlot client { entity.slots client with hasCreated := true })
  | .recreate client => some (entity.setSlot client { entity.slots client with hasCreated := false })
  | .resend client frame => some (entity.resend style client frame)
  | .ack client frame => some (entity.ack style client frame)
  | .drop client registered ownedByServerScript target =>
    entity.handleClientDrop client registered ownedByServerScript target

/-- The slot has been sent an older content of the node. -/
def Behind (client : Client) (n : Node) : Prop :=
  ∃ number, (entity.slots client).sent n = some number ∧ number ≠ entity.content n

/-- What the server has set in a node is stamped after what every slot with an older content has been sent. -/
def Visible : Prop :=
  ∀ client n, entity.edited n = true → entity.Behind client n →
    (entity.slots client).lastFramesSent < (entity.nodes n).frameIndex

/-- A sync that is due writes it. -/
def DueSyncWrites : Prop :=
  ∀ client n, entity.edited n = true → entity.Behind client n →
    (tree n).writes (entity.nodes n) (unparseState 2 (entity.slots client).base false) = true

end SyncEntity

/-- The node is one that syncs can hold. -/
def TreeNode.Syncs (node : TreeNode) : Prop :=
  node.parents.all (parentWrites (unparseState 2 0 false)) = true ∧ node.kind.id1 &&& 2 ≠ 0 ∧
    (node.kind.id3 = 0 ∨ 1 &&& node.kind.id3 ≠ 0)

/-- The tick counts the client, which owns the entity, as one that has been told, and does not tell it. -/
def EntitySlot.silent (slot : EntitySlot Node) (owner : Bool) (input : SlotInput) : Bool :=
  input.inScope && input.executesOwner && slot.hasCreated && slot.sends owner input && input.executes

/-- A node is set before the twelfth frame is sent to a slot that has been sent the node, and neither a tick nor an ack
lets such a slot pass it. -/
def Allowed [DecidableEq Client] (entity : SyncEntity Node Client) : Event Node Client → Prop
  | .setupNode node unparse now =>
    ∀ client, (entity.slots client).sent node ≠ none → (entity.slots client).lastFramesSent < 12 ∧ (tree node).Syncs ∧
      ∀ wrapper, setupNode unparse now (entity.nodes node) = some wrapper → wrapper.length ≠ 0
  | .tick client input =>
    let reassigned := entity.reassigned client input
    style = .NAK → (reassigned.slots client).silent (decide (reassigned.client = some client)) input = true →
      ∀ n, entity.edited n = true → entity.Behind client n → entity.lastFrameIndex < 12
  | .ack client frame =>
    style = .ARQ → ∀ n, entity.edited n = true → entity.Behind client n →
      min frame (entity.slots client).lastFramesPreSent < 12
  | _ => True

end

theorem base_le {Node : Type} (slot : EntitySlot Node) : slot.base ≤ slot.lastFramesSent := by
  unfold EntitySlot.base
  split
  · exact Nat.zero_le _
  · exact Nat.le_refl _

theorem lastFramesSent_based_le {Node : Type} (slot : EntitySlot Node) :
    slot.based.lastFramesSent ≤ slot.lastFramesSent := by
  unfold EntitySlot.based
  split
  · exact Nat.zero_le _
  · exact Nat.le_refl _

theorem hasCreated_based {Node : Type} (slot : EntitySlot Node) : slot.based.hasCreated = slot.hasCreated := by
  unfold EntitySlot.based
  split <;> rfl

theorem sent_based {Node : Type} (slot : EntitySlot Node) : slot.based.sent = slot.sent := by
  unfold EntitySlot.based
  split <;> rfl

section Syncs

variable {Node Client : Type} [Fintype Node] (style : SyncStyle) (tree : Node → TreeNode)
  (entity : SyncEntity Node Client) (slot : EntitySlot Node) (state : SyncUnparseState) (mayWrite : Bool) (base : Nat)
    (wasForceUpdate owner : Bool)
  (input : SlotInput) (n : Node)

/-- A sync holds a node with data that is stamped after its base. -/
theorem writes_of_base_lt {node : TreeNode} {wrapper : NodeWrapper} {base : Nat} (hsyncs : node.Syncs)
    (hdata : wrapper.length ≠ 0) (hbase : base < wrapper.frameIndex) :
    node.writes wrapper (unparseState 2 base false) = true := by
  obtain ⟨hparents, hid, htype⟩ := hsyncs
  have hcould : wrapper.couldWrite node.kind (unparseState 2 base false) = true := by
    simpa [NodeWrapper.couldWrite, unparseState, hbase] using hdata
  have htype' : ¬ (node.kind.id3 ≠ 0 ∧ 1 &&& node.kind.id3 = 0) := fun hskip => htype.elim hskip.1 fun hmatch =>
    hmatch hskip.2
  have hwrites : (shouldWrite node.kind (unparseState 2 base false) true).1 = true := by
    have hsyncType : (unparseState 2 base false).syncType = 2 := rfl
    have hobjType : (unparseState 2 base false).objType = 1 := rfl
    unfold shouldWrite
    rw [hsyncType, hobjType, if_neg hid, if_neg htype']
    split <;> rfl
  rw [TreeNode.writes, hcould, hwrites, Bool.and_true]
  exact hparents

/-- A command leaves what a slot has been sent of a node, or sends the content that the node has. -/
theorem sent_runSync :
    (slot.runSync style tree entity state mayWrite).sent n = slot.sent n ∨
      (slot.runSync style tree entity state mayWrite).sent n = some (entity.content n) := by
  unfold EntitySlot.runSync
  split
  case isFalse => exact .inl rfl
  case isTrue =>
    cases hsent : mayWrite && (tree n).writes (entity.nodes n) state <;> dsimp only <;> split <;> cases style <;>
      simp [hsent]

theorem sent_runSync_of_writes (hwrites : (tree n).writes (entity.nodes n) state = true) :
    (slot.runSync style tree entity state true).sent n = some (entity.content n) := by
  unfold EntitySlot.runSync
  rw [if_pos ⟨n, hwrites⟩]
  dsimp only
  split <;> cases style <;> simp [hwrites]

/-- Only a sync that is no first-frame one moves `lastFramesSent`, and not in ARQ mode. -/
theorem lastFramesSent_runSync :
    (slot.runSync style tree entity state mayWrite).lastFramesSent = slot.lastFramesSent ∨
      style = .NAK ∧ state.syncType = 2 ∧ state.isFirstUpdate = false ∧
        (slot.runSync style tree entity state mayWrite).lastFramesSent = entity.lastFrameIndex := by
  unfold EntitySlot.runSync
  split
  case isFalse => exact .inl rfl
  case isTrue =>
    dsimp only
    split
    case isFalse => exact .inl rfl
    case isTrue hsync =>
      rw [Bool.and_eq_true, Bool.not_eq_true', decide_eq_true_eq] at hsync
      cases style with
      | NAK => exact .inr ⟨rfl, hsync.2, hsync.1, rfl⟩
      | ARQ => exact .inl rfl

theorem sent_runSyncs :
    (slot.runSyncs style tree entity base wasForceUpdate input).sent n = slot.sent n ∨
      (slot.runSyncs style tree entity base wasForceUpdate input).sent n = some (entity.content n) := by
  unfold EntitySlot.runSyncs
  split
  case isTrue =>
    split
    · exact sent_runSync style tree entity slot _ _ n
    · exact .inl rfl
  case isFalse =>
    dsimp only
    split
    case isTrue =>
      rcases sent_runSync style tree entity (EntitySlot.runSync style tree _ entity _ true) _ true n with hkept | hsent
      · rw [hkept]
        rcases sent_runSync style tree entity _ _ true n with hkept | hsent
        · rw [hkept]
          cases style <;> exact .inl rfl
        · exact .inr hsent
      · exact .inr hsent
    case isFalse => cases style <;> exact .inl rfl

/-- The commands of a tick move `lastFramesSent` only where the slot is sent, or its client owns the entity. -/
theorem lastFramesSent_runSyncs :
    (slot.runSyncs style tree entity base wasForceUpdate input).lastFramesSent = slot.lastFramesSent ∨
      style = .NAK ∧ slot.hasCreated = true ∧ input.executes = true ∧
        (slot.runSyncs style tree entity base wasForceUpdate input).lastFramesSent = entity.lastFrameIndex ∧
        (input.executesOwner = true ∨
          ∀ n, (tree n).writes (entity.nodes n) (unparseState 2 base false) = true →
            (slot.runSyncs style tree entity base wasForceUpdate input).sent n = some (entity.content n)) := by
  unfold EntitySlot.runSyncs
  split
  case isTrue hcreated =>
    split
    case isTrue hexecutes =>
      rcases lastFramesSent_runSync style tree entity slot (unparseState 2 base false)
        (!(wasForceUpdate && input.executesOwner)) with hkept | ⟨hstyle, -, -, hsent⟩
      · exact .inl hkept
      · refine .inr ⟨hstyle, hcreated, hexecutes, hsent, ?_⟩
        cases howner : input.executesOwner with
        | true => exact .inl rfl
        | false =>
          refine .inr fun n hwrites => ?_
          rw [Bool.and_false, Bool.not_false]
          exact sent_runSync_of_writes style tree entity slot _ n hwrites
    case isFalse => exact .inl rfl
  case isFalse =>
    have hcreate (slot : EntitySlot Node) (base : Nat) :
        ((slot.runSync style tree entity (unparseState 1 base false) true).runSync style tree entity
          (unparseState 2 0 true) true).lastFramesSent = slot.lastFramesSent := by
      rcases lastFramesSent_runSync style tree entity (slot.runSync style tree entity (unparseState 1 base false) true)
        (unparseState 2 0 true) true with hkept | ⟨-, -, hfirst, -⟩
      · rw [hkept]
        rcases lastFramesSent_runSync style tree entity slot (unparseState 1 base false) true with hkept |
          ⟨-, hsync, -, -⟩
        · exact hkept
        · have hsync : (1 : BitVec 32) = 2 := hsync
          exact absurd hsync (by decide)
      · cases hfirst
    left
    dsimp only
    split
    case isTrue =>
      rw [hcreate]
      cases style <;> rfl
    case isFalse => cases style <;> rfl

theorem sent_tick :
    (slot.tick style tree entity owner input).sent n = slot.sent n ∨
      (slot.tick style tree entity owner input).sent n = some (entity.content n) := by
  unfold EntitySlot.tick
  split
  case isTrue => exact .inl rfl
  case isFalse =>
    split
    case isTrue =>
      rcases sent_runSyncs style tree entity slot.based slot.base (slot.forced || input.outOfBand) input n with
        hkept | hsent
      · exact .inl (hkept.trans (by rw [sent_based]))
      · exact .inr hsent
    case isFalse => exact .inl (by rw [sent_based])

/-- A tick does not move the slot past a node that it has to tell it of, unless the tick is silent. -/
theorem lastFramesSent_tick
    (hwrites : ∀ base ≤ slot.lastFramesSent, (tree n).writes (entity.nodes n) (unparseState 2 base false) = true)
    (hsent : (slot.tick style tree entity owner input).sent n ≠ some (entity.content n)) :
    (slot.tick style tree entity owner input).lastFramesSent ≤ slot.lastFramesSent ∨
      style = .NAK ∧ slot.silent owner input = true ∧
        (slot.tick style tree entity owner input).lastFramesSent = entity.lastFrameIndex := by
  have hbased := lastFramesSent_based_le slot
  unfold EntitySlot.tick at hsent ⊢
  split at hsent
  case isTrue hscope =>
    rw [if_pos hscope]
    exact .inl (Nat.le_refl _)
  case isFalse hscope =>
    rw [if_neg hscope]
    split at hsent
    case isFalse hsends =>
      rw [if_neg hsends]
      exact .inl hbased
    case isTrue hsends =>
      rw [if_pos hsends]
      rcases lastFramesSent_runSyncs style tree entity slot.based slot.base (slot.forced || input.outOfBand) input with
        hkept | ⟨hstyle, hcreated, hexecutes, hmoved, howner | htold⟩
      · exact .inl (hkept.trans_le hbased)
      · refine .inr ⟨hstyle, ?_, hmoved⟩
        rw [Bool.not_eq_true', Bool.not_eq_false] at hscope
        rw [hasCreated_based] at hcreated
        rw [EntitySlot.silent, hscope, howner, hcreated, hsends, hexecutes]
        rfl
      · exact absurd (htold n (hwrites _ (base_le slot))) hsent

end Syncs

section Setters

variable {unparse : MessageBuffer → Option MessageBuffer} {wrapper : NodeWrapper} {mb : MessageBuffer}
  {bits : List Bool}

/-- The wrapper has what `Unparse` of the node writes. -/
theorem setupNode_written (now : BitVec 32) (hunparse : unparse (ofSize wrapper.data.length) = some mb)
    (hwritten : mb.Written wrapper.data.length bits) :
    ∃ edited, setupNode unparse now wrapper = some edited ∧ edited.length = BitVec.ofNat 32 bits.length ∧
      edited.data = mb.data ∧ (bitsOf edited.data).take bits.length = bits := by
  have hsize := hwritten.length_eq
  have hcopy : memcpy wrapper.data 0 mb.data 0 mb.data.length = some mb.data := by
    rw [memcpy, if_pos (by omega), List.take_zero, List.nil_append, List.drop_zero, List.take_length,
      List.drop_eq_nil_of_le (by omega), List.append_nil]
  have hcursor : mb.getCurrentBit = bits.length := by
    have hcur := hwritten.curBit_eq
    have hmax := hwritten.maxBit_eq
    have hfits := hwritten.fits
    have hsmall := hwritten.small
    rw [MessageBuffer.getCurrentBit, hcur, hmax]
    omega
  refine ⟨{ wrapper with
    data := mb.data
    length := BitVec.ofNat 32 mb.getCurrentBit
    frameIndex := 12
    timestamp := now },
    ?_, ?_, rfl, hwritten.eq_take.symm⟩
  · rw [setupNode, unparseTo, hunparse, Option.bind_eq_bind, Option.bind_some, hcopy, Option.bind_eq_bind,
      Option.bind_some, Option.map_some]
  · dsimp only
    rw [hcursor]

/-- `DisownEntityScript` leaves a node that syncs can hold. -/
theorem disownEntityScript_written {lengthHack : Bool} (now : BitVec 32) (hpos : 1 ≤ wrapper.data.length)
    (hsmall : 8 * wrapper.data.length < 2 ^ 31) :
    ∃ edited, disownEntityScript lengthHack now wrapper = some edited ∧ edited.length = 1 ∧
      (bitsOf edited.data).take 1 = [false] := by
  obtain ⟨mb, hwrite, hwritten⟩ := (ofSize_written hsmall).writeBit false (by rw [List.length_nil]; omega)
  have hunparse : CEntityScriptInfoDataNode.unparse lengthHack ⟨0, now⟩ (ofSize wrapper.data.length) = some mb := by
    rw [CEntityScriptInfoDataNode.unparse, if_neg (by simp)]
    have hwrite : (ofSize wrapper.data.length).writeBit 0 = (true, mb) := hwrite
    rw [hwrite]
  obtain ⟨edited, hsetup, hlength, -, hbits⟩ := setupNode_written now hunparse hwritten
  exact ⟨edited, hsetup, hlength, hbits⟩

end Setters

section Runs

variable {Node Client : Type} {style : SyncStyle} {tree : Node → TreeNode} {entity after : SyncEntity Node Client}

/-- What the server has set is stamped 12, and the slots with an older content can still be sent it. -/
structure Inv (tree : Node → TreeNode) (entity : SyncEntity Node Client) : Prop where
  frameIndex_eq : ∀ n, entity.edited n = true → (entity.nodes n).frameIndex = 12
  lastFramesSent_lt : ∀ client n, entity.edited n = true → entity.Behind client n →
    (entity.slots client).lastFramesSent < 12
  syncs : ∀ client n, entity.edited n = true → entity.Behind client n → (tree n).Syncs ∧ (entity.nodes n).length ≠ 0

theorem Inv.visible (hinv : Inv tree entity) : entity.Visible := by
  intro client n hedited hbehind
  rw [hinv.frameIndex_eq n hedited]
  exact hinv.lastFramesSent_lt client n hedited hbehind

theorem Inv.writes (hinv : Inv tree entity) {client : Client} {n : Node} (hedited : entity.edited n = true)
    (hbehind : entity.Behind client n) {base : Nat} (hbase : base ≤ (entity.slots client).lastFramesSent) :
    (tree n).writes (entity.nodes n) (unparseState 2 base false) = true := by
  obtain ⟨hsyncs, hdata⟩ := hinv.syncs client n hedited hbehind
  exact writes_of_base_lt hsyncs hdata (Nat.lt_of_le_of_lt hbase (hinv.visible client n hedited hbehind))

theorem Inv.dueSyncWrites (hinv : Inv tree entity) : entity.DueSyncWrites tree :=
  fun client _ hedited hbehind => hinv.writes hedited hbehind (base_le (entity.slots client))

/-- A step that leaves the nodes alone, and a slot that it leaves behind where it was. -/
theorem Inv.of_slots (hinv : Inv tree entity) (hnodes : after.nodes = entity.nodes)
    (hedited : after.edited = entity.edited) (hslots : ∀ client n, after.edited n = true → after.Behind client n →
      entity.Behind client n ∧ (after.slots client).lastFramesSent < 12) : Inv tree after := by
  refine ⟨fun n hn => ?_, fun client n hn hbehind => (hslots client n hn hbehind).2, fun client n hn hbehind => ?_⟩
  · rw [hedited] at hn
    rw [hnodes]
    exact hinv.frameIndex_eq n hn
  · have hbefore := (hslots client n hn hbehind).1
    rw [hedited] at hn
    rw [hnodes]
    exact hinv.syncs client n hn hbefore

theorem Inv.parse [DecidableEq Client] (hinv : Inv tree entity) (sender : Client)
    (nodes : Node → Option (BitVec 32 × List Bits.Byte)) (timestamp : BitVec 32) :
    Inv tree (entity.parse sender nodes timestamp) := by
  have hkept {n : Node} (hedited : (entity.parse sender nodes timestamp).edited n = true) :
      entity.edited n = true ∧ nodes n = none := by
    simpa [SyncEntity.parse] using hedited
  have hnode {n : Node} (hnone : nodes n = none) : (entity.parse sender nodes timestamp).nodes n = entity.nodes n := by
    simp [SyncEntity.parse, hnone]
  have hbefore {client : Client} {n : Node} (hnone : nodes n = none)
      (hbehind : (entity.parse sender nodes timestamp).Behind client n) : entity.Behind client n := by
    simpa [SyncEntity.Behind, SyncEntity.parse, hnone] using hbehind
  refine ⟨fun n hedited => ?_, fun client n hedited hbehind => ?_, fun client n hedited hbehind => ?_⟩
  all_goals obtain ⟨hold, hnone⟩ := hkept hedited
  · rw [hnode hnone]
    exact hinv.frameIndex_eq n hold
  · exact hinv.lastFramesSent_lt client n hold (hbefore hnone hbehind)
  · rw [hnode hnone]
    exact hinv.syncs client n hold (hbefore hnone hbehind)

theorem Inv.setSlot [DecidableEq Client] (hinv : Inv tree entity) (client : Client) (slot : EntitySlot Node)
    (hslot : ∀ n, entity.edited n = true → (∃ number, slot.sent n = some number ∧ number ≠ entity.content n) →
      entity.Behind client n ∧ slot.lastFramesSent < 12) : Inv tree (entity.setSlot client slot) := by
  refine hinv.of_slots rfl rfl fun other n hedited hbehind => ?_
  unfold SyncEntity.Behind SyncEntity.setSlot at hbehind
  unfold SyncEntity.setSlot
  dsimp only at hbehind ⊢
  by_cases hother : other = client
  · subst hother
    rw [Function.update_self] at hbehind ⊢
    exact hslot n hedited hbehind
  · rw [Function.update_of_ne hother] at hbehind ⊢
    exact ⟨hbehind, hinv.lastFramesSent_lt other n hedited hbehind⟩

theorem Inv.setupNode [DecidableEq Node] (hinv : Inv tree entity) {node : Node} {wrapper : NodeWrapper}
    (hstamp : wrapper.frameIndex = 12)
    (hallowed : ∀ client, (entity.slots client).sent node ≠ none →
      (entity.slots client).lastFramesSent < 12 ∧ (tree node).Syncs ∧ wrapper.length ≠ 0) :
    Inv tree (entity.setupNode node wrapper) := by
  have hbefore {client : Client} {n : Node} (hne : n ≠ node)
    (hbehind : (entity.setupNode node wrapper).Behind client n) :
      entity.Behind client n := by
    simpa [SyncEntity.Behind, SyncEntity.setupNode, Function.update_of_ne hne] using hbehind
  have hsent {client : Client} (hbehind : (entity.setupNode node wrapper).Behind client node) :
      (entity.slots client).sent node ≠ none := by
    obtain ⟨number, hnumber, -⟩ := hbehind
    have hnumber : (entity.slots client).sent node = some number := hnumber
    rw [hnumber]
    exact Option.some_ne_none number
  refine ⟨fun n hedited => ?_, fun client n hedited hbehind => ?_, fun client n hedited hbehind => ?_⟩
  all_goals by_cases hne : n = node
  all_goals unfold SyncEntity.setupNode at hedited ⊢
  all_goals dsimp only at hedited ⊢
  all_goals first | subst hne | rw [Function.update_of_ne hne] at hedited
  · rwa [Function.update_self]
  · rw [Function.update_of_ne hne]
    exact hinv.frameIndex_eq n hedited
  · exact (hallowed client (hsent hbehind)).1
  · exact hinv.lastFramesSent_lt client n hedited (hbefore hne hbehind)
  · rw [Function.update_self]
    exact (hallowed client (hsent hbehind)).2
  · rw [Function.update_of_ne hne]
    exact hinv.syncs client n hedited (hbefore hne hbehind)

/-- Setting a node shows it to exactly the slots that have not been sent the twelfth frame. -/
theorem visible_setupNode_iff [DecidableEq Node] {node : Node} {wrapper : NodeWrapper}
    (hstamp : wrapper.frameIndex = 12)
    (hnumbered : ∀ client number, (entity.slots client).sent node = some number → number ≤ entity.content node) :
    (∀ client, (entity.setupNode node wrapper).Behind client node →
      (entity.slots client).lastFramesSent < ((entity.setupNode node wrapper).nodes node).frameIndex) ↔
        ∀ client, (entity.slots client).sent node ≠ none → (entity.slots client).lastFramesSent < 12 := by
  have hbehind {client : Client} :
      (entity.setupNode node wrapper).Behind client node ↔ (entity.slots client).sent node ≠ none := by
    unfold SyncEntity.Behind SyncEntity.setupNode
    dsimp only
    rw [Function.update_self, Option.ne_none_iff_exists']
    refine exists_congr fun number => and_iff_left_of_imp fun hnumber => ?_
    have hle := hnumbered client number hnumber
    omega
  have hnode : ((entity.setupNode node wrapper).nodes node).frameIndex = 12 := by
    unfold SyncEntity.setupNode
    dsimp only
    rw [Function.update_self, hstamp]
  simp only [hbehind, hnode]

/-- The server's own stamp. -/
theorem frameIndex_setupNode {unparse : MessageBuffer → Option MessageBuffer} {now : BitVec 32}
    {wrapper edited : NodeWrapper} (hsetup : setupNode unparse now wrapper = some edited) :
    edited.frameIndex = 12 := by
  obtain ⟨written, -, rfl⟩ := Option.map_eq_some_iff.mp hsetup
  rfl

/-- A slot that is changed, but not what it has been sent. -/
theorem Inv.lower [DecidableEq Client] (hinv : Inv tree entity) {client : Client} {slot : EntitySlot Node}
    (hsent : slot.sent = (entity.slots client).sent)
    (hlt : ∀ n, entity.edited n = true → entity.Behind client n → slot.lastFramesSent < 12) :
    Inv tree (entity.setSlot client slot) := by
  refine hinv.setSlot client slot fun n hedited hbehind => ?_
  rw [hsent] at hbehind
  exact ⟨hbehind, hlt n hedited hbehind⟩

section Owners

variable [DecidableEq Client]

/-- A new owner changes nothing that has been sent. -/
theorem slots_reassignEntity (entity : SyncEntity Node Client) (targetClient : Option Client) (client : Client) :
    ((entity.reassignEntity targetClient).slots client).sent = (entity.slots client).sent ∧
      ((entity.reassignEntity targetClient).slots client).lastFramesSent = (entity.slots client).lastFramesSent := by
  unfold SyncEntity.reassignEntity
  dsimp only
  split <;> exact ⟨rfl, rfl⟩

theorem Inv.reassignEntity (hinv : Inv tree entity) (targetClient : Option Client) :
    Inv tree (entity.reassignEntity targetClient) := by
  refine hinv.of_slots rfl rfl fun client n hedited hbehind => ?_
  obtain ⟨hsent, hlast⟩ := slots_reassignEntity entity targetClient client
  have hbefore : entity.Behind client n := by
    unfold SyncEntity.Behind at hbehind ⊢
    rwa [hsent] at hbehind
  exact ⟨hbefore, hlast.symm ▸ hinv.lastFramesSent_lt client n hedited hbefore⟩

omit [DecidableEq Client] in
/-- The invariant does not look at the scopes. -/
theorem Inv.relevantTo (hinv : Inv tree entity) (relevantTo : Finset Client) : Inv tree { entity with relevantTo } :=
  ⟨hinv.frameIndex_eq, hinv.lastFramesSent_lt, hinv.syncs⟩

theorem Inv.reassigned (hinv : Inv tree entity) (client : Client) (input : SlotInput) :
    Inv tree (entity.reassigned client input) := by
  unfold SyncEntity.reassigned
  split <;> dsimp only <;> split
  · exact (hinv.relevantTo _).reassignEntity _
  · exact hinv.relevantTo _
  · exact (hinv.relevantTo _).reassignEntity _
  · exact hinv.relevantTo _

/-- What `Tick` does with the owner before it looks at the slot. -/
theorem reassigned_frame (entity : SyncEntity Node Client) (client : Client) (input : SlotInput) :
    (entity.reassigned client input).edited = entity.edited ∧
      (entity.reassigned client input).lastFrameIndex = entity.lastFrameIndex ∧
      ∀ other n, (entity.reassigned client input).Behind other n ↔ entity.Behind other n := by
  have hreassign (relevantTo : Finset Client) (targetClient : Option Client) (other : Client) (n : Node) :
      (SyncEntity.reassignEntity { entity with relevantTo } targetClient).Behind other n ↔ entity.Behind other n := by
    unfold SyncEntity.Behind
    rw [(slots_reassignEntity _ targetClient other).1]
    rfl
  unfold SyncEntity.reassigned
  split <;> dsimp only <;> split
  · exact ⟨rfl, rfl, hreassign _ _⟩
  · exact ⟨rfl, rfl, fun _ _ => Iff.rfl⟩
  · exact ⟨rfl, rfl, hreassign _ _⟩
  · exact ⟨rfl, rfl, fun _ _ => Iff.rfl⟩

theorem Inv.tick [Fintype Node] [DecidableEq Node] (hinv : Inv tree entity) {client : Client} {input : SlotInput}
    (hallowed : Allowed style tree entity (.tick client input)) : Inv tree (entity.tick style tree client input) := by
  obtain ⟨hsame, hframe, hbefore⟩ := reassigned_frame entity client input
  have hinv := hinv.reassigned client input
  unfold SyncEntity.tick
  dsimp only
  unfold Allowed at hallowed
  dsimp only at hallowed
  rw [← hsame, ← hframe] at hallowed
  simp only [← hbefore] at hallowed
  generalize entity.reassigned client input = entity at *
  refine hinv.setSlot client _ fun n hedited hbehind => ?_
  obtain ⟨number, hsent, hne⟩ := hbehind
  have hnew : ((entity.slots client).tick style tree entity (decide (entity.client = some client)) input).sent n ≠
      some (entity.content n) := by
    rw [hsent]
    exact fun hsame => hne (Option.some.inj hsame)
  have hbehind : entity.Behind client n := by
    rcases sent_tick style tree entity (entity.slots client) (decide (entity.client = some client)) input n with
      hkept | htold
    · exact ⟨number, hkept.symm.trans hsent, hne⟩
    · exact absurd htold hnew
  refine ⟨hbehind, ?_⟩
  rcases lastFramesSent_tick style tree entity (entity.slots client) _ input n
    (fun _ hbase => hinv.writes hedited hbehind hbase) hnew with hle | ⟨hstyle, hsilent, hmoved⟩
  · exact Nat.lt_of_le_of_lt hle (hinv.lastFramesSent_lt client n hedited hbehind)
  · rw [hmoved]
    exact hallowed hstyle hsilent n hedited hbehind

theorem Inv.handleClientDrop (hinv : Inv tree entity) {client : Client} {registered : Finset Client}
    {ownedByServerScript : Bool} {target : Option Client}
    (hdrop : entity.handleClientDrop client registered ownedByServerScript target = some after) : Inv tree after := by
  have hdropped := hinv.setSlot client { lastFramesPreSent := (entity.slots client).lastFramesPreSent }
    fun n _ hbehind => by
      obtain ⟨number, hnumber, -⟩ := hbehind
      cases hnumber
  have hdropped := hdropped.relevantTo (entity.relevantTo.erase client)
  unfold SyncEntity.handleClientDrop at hdrop
  dsimp only at hdrop
  split at hdrop
  · split at hdrop
    · cases hdrop
      exact hdropped.reassignEntity target
    · cases hdrop
  · cases hdrop
    exact hdropped

end Owners

variable [Fintype Node] [DecidableEq Node] [DecidableEq Client]

theorem Inv.step (hinv : Inv tree entity) {event : Event Node Client} (hallowed : Allowed style tree entity event)
    (hstep : entity.step style tree event = some after) : Inv tree after := by
  cases event with
  | parse client nodes timestamp =>
    cases hstep
    exact hinv.parse client nodes timestamp
  | setupNode node unparse now =>
    obtain ⟨-, hstep⟩ := Option.ite_none_right_eq_some.mp hstep
    obtain ⟨wrapper, hsetup, rfl⟩ := Option.map_eq_some_iff.mp hstep
    refine hinv.setupNode (frameIndex_setupNode hsetup) fun client hsent => ?_
    obtain ⟨hlt, hsyncs, hdata⟩ := hallowed client hsent
    exact ⟨hlt, hsyncs, hdata wrapper hsetup⟩
  | tick client input =>
    cases hstep
    exact hinv.tick hallowed
  | nextFrame =>
    cases hstep
    exact ⟨hinv.frameIndex_eq, hinv.lastFramesSent_lt, hinv.syncs⟩
  | created client =>
    cases hstep
    exact hinv.lower rfl fun n => hinv.lastFramesSent_lt client n
  | recreate client =>
    cases hstep
    exact hinv.lower rfl fun n => hinv.lastFramesSent_lt client n
  | resend client frame =>
    cases hstep
    unfold SyncEntity.resend
    cases style with
    | NAK => exact hinv.lower rfl fun n hedited hbehind =>
        Nat.lt_of_le_of_lt (Nat.min_le_right _ _) (hinv.lastFramesSent_lt client n hedited hbehind)
    | ARQ => exact hinv.lower rfl fun n hedited hbehind =>
        Nat.lt_of_le_of_lt (Nat.min_le_left _ _) (hinv.lastFramesSent_lt client n hedited hbehind)
  | ack client frame =>
    cases hstep
    unfold SyncEntity.ack
    cases style with
    | NAK => exact hinv
    | ARQ => exact hinv.lower rfl fun n hedited hbehind => hallowed rfl n hedited hbehind
  | drop client registered ownedByServerScript target => exact hinv.handleClientDrop hstep

theorem syncs_scriptInfoNode : scriptInfoNode.Syncs := ⟨by decide, by decide, by decide⟩

/-- A vehicle that a script has made before a frame, for nobody yet. -/
def vehicle (frame : Nat) : SyncEntity Unit (Fin 2) where
  m_frameIndex := frame
  lastFrameIndex := 0
  client := none
  relevantTo := ∅
  nodes _ := ⟨103, List.replicate 24 0, 0, 12, fun _ => false⟩
  content _ := 0
  edited _ := false
  slots _ := {}

/-- The second client gets the vehicle and sends a clone packet, which the first is sent. -/
def shared : List (Event Unit (Fin 2)) :=
  [.tick 1 { ownedByServerScript := true, nextSync := true, executesOwner := true },
    .tick 0 { ownedByServerScript := true, nextSync := true }, .nextFrame,
    .parse 1 (fun _ => some (103, List.replicate 24 1)) 5,
    .tick 0 { ownedByServerScript := true, nextSync := true },
    .tick 1 { ownedByServerScript := true, nextSync := true, executesOwner := true }, .nextFrame]

/-- The vehicle leaves the scope of its owner, and before the next tick the script disowns it. -/
def disown : List (Event Unit (Fin 2)) :=
  [.tick 0 { ownedByServerScript := true }, .tick 1 { inScope := false, ownedByServerScript := true }, .nextFrame,
    .setupNode () (CEntityScriptInfoDataNode.unparse false ⟨0, 100⟩) 100]

/-- The first client gets the vehicle. -/
def takeOver : Event Unit (Fin 2) := .tick 0 { executesOwner := true }

/-- Enough for a step of the vehicle to be allowed. -/
def mayTake (entity : SyncEntity Unit (Fin 2)) : Event Unit (Fin 2) → Bool
  | .setupNode node unparse now =>
    decide (∀ client, (entity.slots client).lastFramesSent < 12) &&
      (setupNode unparse now (entity.nodes node)).all fun wrapper => decide (wrapper.length ≠ 0)
  | .tick _ _ => !entity.edited () || decide (entity.lastFrameIndex < 12)
  | .ack _ _ => false
  | _ => true

theorem allowed_of_mayTake (entity : SyncEntity Unit (Fin 2)) (event : Event Unit (Fin 2))
    (hmay : mayTake entity event = true) : Allowed .NAK (fun _ => scriptInfoNode) entity event := by
  cases event with
  | setupNode node unparse now =>
    obtain ⟨hlt, hdata⟩ := Bool.and_eq_true_iff.mp hmay
    refine fun client _ => ⟨of_decide_eq_true hlt client, syncs_scriptInfoNode, fun wrapper hsetup => ?_⟩
    rw [hsetup] at hdata
    exact of_decide_eq_true hdata
  | tick client input =>
    intro _ _ n hedited _
    rcases Bool.or_eq_true_iff.mp hmay with hmay | hmay
    · rw [hedited] at hmay
      cases hmay
    · exact of_decide_eq_true hmay
  | ack client frame => cases hmay
  | parse client nodes timestamp => exact trivial
  | nextFrame => exact trivial
  | created client => exact trivial
  | recreate client => exact trivial
  | resend client frame => exact trivial
  | drop client registered ownedByServerScript target => exact trivial

/-- Whether the first client has been sent the owner's content of the node, and the edited node does not come after the
frame that it has been sent. -/
def hidden (entity : SyncEntity Unit (Fin 2)) : Bool :=
  entity.edited () && decide ((entity.slots 0).sent () = some 1) && decide (entity.content () = 2) &&
    decide ((entity.nodes ()).frameIndex ≤ (entity.slots 0).lastFramesSent)

theorem not_visible_of_hidden {entity : SyncEntity Unit (Fin 2)} (hhidden : hidden entity = true) :
    ¬ entity.Visible := by
  simp only [hidden, Bool.and_eq_true, decide_eq_true_eq] at hhidden
  obtain ⟨⟨⟨hedited, hsent⟩, hcontent⟩, hstamp⟩ := hhidden
  intro hvisible
  have hbehind : entity.Behind 0 () := ⟨1, hsent, by rw [hcontent]; decide⟩
  exact absurd (hvisible 0 () hedited hbehind) (Nat.not_lt.mpr hstamp)

end Runs

end fx.ServerSetters
