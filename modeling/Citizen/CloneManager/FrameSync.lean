import Citizen.CloneManager.FrameAck
import Citizen.Lib.Loop

open Bits net

namespace sync

/-- The union `FrameIndex`: one bit, 7 bits and 56 bits. -/
structure FrameIndex where
  lastFragment : Bool := false
  currentFragment : Nat := 0
  frameIndex : Nat := 0
  deriving DecidableEq

namespace FrameIndex

/-- `full`. -/
def full (index : FrameIndex) : Nat :=
  index.lastFragment.toNat + 2 * (index.currentFragment % 2 ^ 7 + 2 ^ 7 * (index.frameIndex % 2 ^ 56))

/-- The fields of a `full`. -/
def ofFull (full : Nat) : FrameIndex where
  lastFragment := full % 2 = 1
  currentFragment := full / 2 % 2 ^ 7
  frameIndex := full / 2 ^ 8 % 2 ^ 56

theorem ofFull_full (index : FrameIndex) : ofFull index.full =
    { index with
      currentFragment := index.currentFragment % 2 ^ 7
      frameIndex := index.frameIndex % 2 ^ 56 } := by
  have hbit := Bool.toNat_lt index.lastFragment
  have hlast : (decide (index.full % 2 = 1)) = index.lastFragment := by
    unfold full
    cases index.lastFragment <;> simp
  unfold ofFull
  rw [hlast]
  unfold full
  congr 1 <;> omega

end FrameIndex

/-- The result of `HandleCloneUpdate`. -/
inductive AckResult
  | OK
  | ResendClone
  | ResendCloneMinimal
  | ResendCreate
  deriving DecidableEq

/-- A clone of a packet with what its handler says: whether a create is acked, or the result of an update with the
frame that the object was last updated in. -/
inductive CloneResult
  | create (objectId : Value 2) (acked : Bool)
  | update (objectId : Value 2) (acked : AckResult) (lastFrameUpdated : Value 8)
  deriving DecidableEq

namespace CloneResult

def objectId : CloneResult → Value 2
  | .create objectId _ | .update objectId _ _ => objectId

/-- The create or the update was refused. -/
def refused : CloneResult → Bool
  | .create _ acked => !acked
  | .update _ acked _ => acked != .OK

end CloneResult

/-- A frame of the server, by the clones of its fragments. There is one at least: the last flush is unconditional. -/
structure ServerFrame where
  frameIndex : Nat
  fragments : List (List CloneResult)
  nonempty : fragments ≠ []
  deriving DecidableEq

/-- A packet: a fragment of a frame, counted from 0. -/
structure ClonePacket where
  frame : ServerFrame
  fragment : Nat
  deriving DecidableEq

namespace ClonePacket

/-- It is the one of the final flush. -/
def isLast (packet : ClonePacket) : Bool := packet.fragment + 1 = packet.frame.fragments.length

/-- The `full` that `FlushBuffer` writes. -/
def frameIndex (packet : ClonePacket) : Nat :=
  FrameIndex.full {
    lastFragment := packet.isLast
    currentFragment := packet.fragment + 1
    frameIndex := packet.frame.frameIndex }

def clones (packet : ClonePacket) : List CloneResult := packet.frame.fragments.getD packet.fragment []

/-- The packet comes before another one. -/
def Before (packet packet' : ClonePacket) : Prop :=
  packet.frame.frameIndex < packet'.frame.frameIndex ∨
    (packet.frame = packet'.frame ∧ packet.fragment < packet'.fragment)

end ClonePacket

/-- The frames that the server sends to a client: their indexes go up, and fit their 56 bits. -/
structure FrameStream where
  frames : List ServerFrame
  increasing : frames.Pairwise fun frame frame' => frame.frameIndex < frame'.frameIndex
  small : ∀ frame ∈ frames, frame.frameIndex < 2 ^ 56

/-- The packets of the frames, in order. -/
def FrameStream.packets (stream : FrameStream) : List ClonePacket :=
  stream.frames.flatMap fun frame => (List.range frame.fragments.length).map fun fragment => { frame, fragment }

/-- What a client answers. -/
inductive SyncReply
  | ack (reply : FrameReply)
  | nack (reply : FrameReply)
  deriving DecidableEq

/-- What `HandleCloneSync` keeps: the last frame that was received, and the two static lists. -/
structure SyncClient where
  netProtoVersion : Nat
  syncIsARQ : Bool
  lastReceivedFrame : FrameIndex := {}
  ignoreList : List (Value 2 × Value 8) := []
  recreateList : List (Value 2) := []
  deriving DecidableEq

namespace SyncClient

/-- The check for missing frames and fragments. `none` is the return for a second last fragment. -/
def checkMissing (last new : FrameIndex) : Option (Option (Value 8 × Value 8)) :=
  let lastFrame : Value 8 := BitVec.ofNat (8 * 8) last.frameIndex
  let newFrame : Value 8 := BitVec.ofNat (8 * 8) new.frameIndex
  if last.frameIndex = 0 then some none
  else if last.frameIndex = new.frameIndex then
    if last.lastFragment ∧ new.lastFragment then none
    else if last.currentFragment + 1 ≠ new.currentFragment then some (some (newFrame, newFrame))
    else some none
  else if last.frameIndex + 1 ≠ new.frameIndex then some (some (lastFrame + 1, newFrame - 1))
  else if last.lastFragment ∧ new.currentFragment ≠ 1 then some (some (lastFrame + 1, newFrame))
  else if last.lastFragment = false then some (some (lastFrame, lastFrame))
  else some none

/-- What a clone adds to the lists. -/
def addClone (client : SyncClient) : CloneResult → SyncClient
  | .create objectId acked =>
    if acked then client
    else if 0x202010191044 ≤ client.netProtoVersion then
      { client with recreateList := client.recreateList ++ [objectId] }
    else if 0x202007022353 ≤ client.netProtoVersion
      then { client with ignoreList := client.ignoreList ++ [(objectId, 0)] }
    else client
  | .update objectId acked lastFrameUpdated =>
    match acked with
    | .OK => client
    | .ResendCreate =>
      if 0x202007022353 ≤ client.netProtoVersion then { client with recreateList := client.recreateList ++ [objectId] }
      else client
    | .ResendClone => { client with ignoreList := client.ignoreList ++ [(objectId, 0)] }
    | .ResendCloneMinimal => { client with ignoreList := client.ignoreList ++ [(objectId, lastFrameUpdated)] }

/-- The answer, after which the lists are empty. -/
def reply (client : SyncClient) (full : Nat) (missing : Option (Value 8 × Value 8)) : SyncClient × Option SyncReply :=
  let cleared := { client with ignoreList := [], recreateList := [] }
  if client.netProtoVersion < 0x202010191044 ∨ (0x202011231556 ≤ client.netProtoVersion ∧ client.syncIsARQ = true) then
    let (isLast, frameIndex) :=
      if 0x202011231556 ≤ client.netProtoVersion then
        (client.lastReceivedFrame.lastFragment, client.lastReceivedFrame.frameIndex)
      else (decide (2 ^ 63 ≤ full ∨ client.netProtoVersion < 0x202007022353), full % 2 ^ 63)
    if isLast then
      (cleared, some (.ack {
        frameIndex := BitVec.ofNat (8 * 8) frameIndex
        ignoreList := client.ignoreList
        recreateList := client.recreateList }))
    else (client, none)
  else if missing = none ∧ client.ignoreList = [] ∧ client.recreateList = [] then (client, none)
  else
    (cleared, some (.nack {
      frameIndex := BitVec.ofNat (8 * 8) (FrameIndex.ofFull full).frameIndex
      missing
      ignoreList := client.ignoreList
      recreateList := client.recreateList }))

/-- `HandleCloneSync`, with what the handlers of the clones say. `none` is the return before they are called. -/
def handleCloneSync (client : SyncClient) (full : Nat) (clones : List CloneResult) :
    Option (SyncClient × Option SyncReply) :=
  let newIndex := FrameIndex.ofFull full
  if 0x202010191044 ≤ client.netProtoVersion then
    (checkMissing client.lastReceivedFrame newIndex).map fun missing =>
      (clones.foldl addClone { client with lastReceivedFrame := newIndex }).reply full missing
  else some ((clones.foldl addClone client).reply full none)

end SyncClient

/-- The client, and the packets that it has handled. -/
structure SyncWorld where
  client : SyncClient
  handled : List ClonePacket := []

namespace SyncWorld

/-- A packet arrives. -/
def deliver (w : SyncWorld) (packet : ClonePacket) : SyncWorld :=
  match w.client.handleCloneSync packet.frameIndex packet.clones with
  | none => w
  | some (client, _) => { client, handled := packet :: w.handled }

/-- What the client answers to a packet. -/
def answer (w : SyncWorld) (packet : ClonePacket) : Option SyncReply :=
  (w.client.handleCloneSync packet.frameIndex packet.clones).bind (·.2)

/-- The ack is of a frame that was handled whole, and names what was refused of it. -/
def Sound (frame : ServerFrame) (handled : List ClonePacket) (ack : FrameReply) : Prop :=
  ∀ fragment < frame.fragments.length, ⟨frame, fragment⟩ ∈ handled ∧
    ∀ clone ∈ (⟨frame, fragment⟩ : ClonePacket).clones, clone.refused = true →
      clone.objectId ∈ ack.ignoreList.map Prod.fst ∨ clone.objectId ∈ ack.recreateList

/-- An ack that answers the packet is sound for every frame with its index. -/
def AckSound (stream : FrameStream) (w : SyncWorld) (packet : ClonePacket) : Prop :=
  ∀ ack, w.answer packet = some (.ack ack) → ∀ frame ∈ stream.frames,
    ack.frameIndex = BitVec.ofNat (8 * 8) frame.frameIndex → Sound frame (w.deliver packet).handled ack

/-- The last fragment of a frame comes after all others. -/
def Whole (w : SyncWorld) (packet : ClonePacket) : Prop :=
  packet.isLast = true → ∀ fragment < packet.fragment, ⟨packet.frame, fragment⟩ ∈ w.handled

instance (w : SyncWorld) (packet : ClonePacket) : Decidable (w.Whole packet) :=
  inferInstanceAs (Decidable (packet.isLast = true → ∀ fragment < packet.fragment,
    ⟨packet.frame, fragment⟩ ∈ w.handled))

end SyncWorld

end sync
