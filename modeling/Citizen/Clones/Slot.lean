import Mathlib.Algebra.Order.BigOperators.Group.List
import Mathlib.Data.Fintype.Basic
import Mathlib.Data.List.GetD
import Mathlib.Data.List.MinMax
import Mathlib.Data.List.Perm.Subperm
import Mathlib.Data.List.Sublists
import Mathlib.Data.List.TakeWhile
import Mathlib.Tactic.IntervalCases

namespace fx

inductive SyncStyle
  | NAK
  | ARQ
  deriving Repr, DecidableEq

def maxSavedClientFrames : Nat := 650

def maxSavedClientFramesWorstCase : Nat := 60000 / 15

/-- What a saved frame holds about the entity. -/
structure ClientEntityData where
  lastSent : Nat
  isCreated : Bool
  deriving Repr, DecidableEq

/-- What `ServerGameState` keeps about one entity for one client slot: `frameStates` holds the saved frames,
oldest first; `hasCreated` is the one of the client's `SyncedEntityData`, and `lastFramesSent` and
`lastFramesPreSent` are those of the slot. The entity is in the client's scope, and the client does not own
it. -/
structure Slot (Node Value : Type*) where
  frameIndex : Nat
  value : Node → Value
  stamp : Node → Nat
  lastFrameIndex : Nat
  lastFramesSent : Nat
  lastFramesPreSent : Nat
  hasCreated : Bool
  frameStates : List (Nat × ClientEntityData)
  firstSavedFrameState : Nat

/-- A create, a first-frame sync, or a sync. -/
inductive SyncKind
  | create
  | first
  | sync
  deriving Repr, DecidableEq

/-- A sync as `runSync` builds it: the frame, the base it depends on, and the nodes it holds. The stamps
are not sent. -/
structure Sync (Node Value : Type*) where
  kind : SyncKind
  frameIndex : Nat
  baseFrameIndex : Nat
  nodes : Node → Option (Value × Nat)

/-- What `Tick` looks at: `syncData.forceUpdate`, whether the last update was out of band, whether `nextSync` is
due, whether there is no peer to send to, and whether the client has not been seen for five seconds. -/
structure TickInput where
  forceUpdate : Bool
  outOfBand : Bool
  nextSync : Bool
  fakeSend : Bool
  lastSeen : Bool
  deriving Repr, DecidableEq

namespace Slot

variable {Node Value : Type*}

/-- A clone sync of the entity's owner: it stamps the nodes it holds, and the entity. -/
def parse (s : Slot Node Value) (nodes : Node → Option Value) : Slot Node Value :=
  { s with
    value := fun n => (nodes n).getD (s.value n)
    stamp := fun n => if (nodes n).isSome then s.frameIndex else s.stamp n
    lastFrameIndex := s.frameIndex }

/-- `Unparse` of the sync tree: the nodes stamped after the base that take part in a sync of this kind. -/
def unparse (carries : Node → Bool) (s : Slot Node Value) (baseFrameIndex : Nat) : Node → Option (Value × Nat) :=
  fun n => if carries n ∧ baseFrameIndex < s.stamp n then some (s.value n, s.stamp n) else none

/-- The first frame that is still saved once `Tick` has erased old frames; `size() - 2` wraps around. -/
def firstSaved (s : Slot Node Value) (lastSeen : Bool) : Nat :=
  let thisMaxBacklog := if lastSeen then maxSavedClientFramesWorstCase else maxSavedClientFrames
  let thisMaxBacklog := max thisMaxBacklog ((s.frameStates.length + (2 ^ 64 - 2)) % 2 ^ 64)
  if thisMaxBacklog - 1 ≤ s.frameIndex - s.firstSavedFrameState then s.frameIndex + 2 - thisMaxBacklog
  else s.firstSavedFrameState

/-- The end of `Tick`: old frames are erased, the new one is saved, and `m_frameIndex` moves on. -/
def save (s : Slot Node Value) (lastSeen : Bool) (data : ClientEntityData) : Slot Node Value :=
  let first := s.firstSaved lastSeen
  { s with
    frameStates :=
      (if s.firstSavedFrameState = 0 then s.frameStates else s.frameStates.filter fun e => first ≤ e.1) ++
        [(s.frameIndex, data)]
    firstSavedFrameState := if s.firstSavedFrameState = 0 then s.frameIndex else first
    frameIndex := s.frameIndex + 1 }

/-- `forceUpdate` once `Tick` has looked at `hasCreated`. -/
def forced (s : Slot Node Value) (input : TickInput) : Bool := input.forceUpdate || !s.hasCreated

/-- `lastFramesSent` once `Tick` has looked at `forceUpdate`; this is the base of the frame. -/
def base (s : Slot Node Value) (input : TickInput) : Nat := if s.forced input then 0 else s.lastFramesSent

/-- `runSync` runs. -/
def sends (s : Slot Node Value) (input : TickInput) : Bool :=
  (s.forced input || input.outOfBand || input.nextSync) && !input.fakeSend

/-- The syncs that `runSync` builds in a tick; `creates` and `firsts` are the nodes that take part in a create and
in a first-frame sync, which starts over from base 0. -/
def syncs (creates firsts : Node → Bool) (s : Slot Node Value) (input : TickInput) : List (Sync Node Value) :=
  if s.sends input then
    if s.hasCreated then [⟨.sync, s.frameIndex, s.base input, s.unparse (fun _ => true) (s.base input)⟩]
    else [⟨.create, s.frameIndex, s.base input, s.unparse creates 0⟩, ⟨.first, s.frameIndex, 0, s.unparse firsts 0⟩]
  else []

/-- `Tick`, without what it sends. -/
def tick [Fintype Node] (style : SyncStyle) (s : Slot Node Value) (input : TickInput) : Slot Node Value :=
  let sent := { s with lastFramesSent := s.base input }
  let wroteData := decide (∃ n, s.base input < s.stamp n)
  let sent := if s.sends input then
      match style with
      | .NAK =>
        if s.hasCreated then if wroteData then { sent with lastFramesSent := s.lastFrameIndex } else sent
        else { sent with hasCreated := true }
      | .ARQ => if s.hasCreated ∧ wroteData then { sent with lastFramesPreSent := s.lastFrameIndex } else sent
    else sent
  sent.save input.lastSeen ⟨s.base input, s.hasCreated⟩

/-- Nothing the server remembers is from a frame that has not been ticked. -/
structure Past (s : Slot Node Value) : Prop where
  lastFrameIndex_le : s.lastFrameIndex ≤ s.frameIndex
  lastFramesSent_lt : s.lastFramesSent < s.frameIndex
  frameStates_lt : ∀ e ∈ s.frameStates, e.1 < s.frameIndex

theorem Past.parse {s : Slot Node Value} (h : s.Past) (nodes : Node → Option Value) : (s.parse nodes).Past :=
  ⟨Nat.le_refl _, h.lastFramesSent_lt, h.frameStates_lt⟩

variable {s : Slot Node Value} {carries : Node → Bool} {baseFrameIndex : Nat} {n : Node} {v : Value} {k : Nat}

theorem unparse_some (h : s.unparse carries baseFrameIndex n = some (v, k)) :
    v = s.value n ∧ k = s.stamp n ∧ baseFrameIndex < s.stamp n := by
  unfold unparse at h
  split at h
  · cases h
    exact ⟨rfl, rfl, (‹_› : _ ∧ _).2⟩
  · cases h

theorem unparse_of_lt (hcarries : carries n = true) (h : baseFrameIndex < s.stamp n) :
    s.unparse carries baseFrameIndex n = some (s.value n, s.stamp n) := if_pos ⟨hcarries, h⟩

theorem base_le (s : Slot Node Value) (input : TickInput) : s.base input ≤ s.lastFramesSent := by
  rw [base]
  split
  · exact Nat.zero_le _
  · exact Nat.le_refl _

theorem mem_save {lastSeen : Bool} {data : ClientEntityData} {e : Nat × ClientEntityData}
    (h : e ∈ (s.save lastSeen data).frameStates) : e ∈ s.frameStates ∨ e = (s.frameIndex, data) := by
  rw [save] at h
  obtain hold | hnew := List.mem_append.mp h
  · left
    split at hold
    · exact hold
    · exact (List.mem_filter.mp hold).1
  · exact .inr (List.mem_singleton.mp hnew)

/-- A sync built by a tick of a created entity. -/
theorem syncs_created {creates firsts : Node → Bool} {input : TickInput} (hcreated : s.hasCreated = true) :
    s.syncs creates firsts input =
      if s.sends input then [⟨.sync, s.frameIndex, s.base input, s.unparse (fun _ => true) (s.base input)⟩]
        else [] := by
  rw [syncs, if_pos hcreated]

section Tick

variable [Fintype Node] (style : SyncStyle) (s : Slot Node Value) (input : TickInput)

/-- The fields that a tick leaves alone. -/
theorem tick_fields : (s.tick style input).value = s.value ∧ (s.tick style input).stamp = s.stamp ∧
    (s.tick style input).frameIndex = s.frameIndex + 1 ∧ (s.tick style input).lastFrameIndex = s.lastFrameIndex ∧
    (s.hasCreated = true → (s.tick style input).hasCreated = true) := by
  unfold tick
  cases style <;> dsimp only <;> split_ifs <;> simp_all [save]

@[simp] theorem tick_value : (s.tick style input).value = s.value := (s.tick_fields style input).1

@[simp] theorem tick_stamp : (s.tick style input).stamp = s.stamp := (s.tick_fields style input).2.1

@[simp] theorem tick_frameIndex : (s.tick style input).frameIndex = s.frameIndex + 1 :=
    (s.tick_fields style input).2.2.1

@[simp] theorem tick_lastFrameIndex : (s.tick style input).lastFrameIndex = s.lastFrameIndex :=
  (s.tick_fields style input).2.2.2.1

theorem tick_hasCreated (h : s.hasCreated = true) : (s.tick style input).hasCreated = true :=
  (s.tick_fields style input).2.2.2.2 h

theorem mem_tick {e : Nat × ClientEntityData} (h : e ∈ (s.tick style input).frameStates) :
    e ∈ s.frameStates ∨ e = (s.frameIndex, ⟨s.base input, s.hasCreated⟩) := by
  unfold tick at h
  cases style <;> dsimp only at h <;> split_ifs at h <;> exact mem_save h

/-- Under ARQ a tick leaves `lastFramesSent` at the base. -/
theorem tick_lastFramesSent_arq : (s.tick .ARQ input).lastFramesSent = s.base input := by
  unfold tick
  dsimp only
  split_ifs <;> rfl

/-- Under NAK a tick that writes the entity moves `lastFramesSent` to the entity's stamp. -/
theorem tick_lastFramesSent_nak : (s.tick .NAK input).lastFramesSent =
    if s.sends input = true ∧ s.hasCreated = true ∧ ∃ n, s.base input < s.stamp n then s.lastFrameIndex
    else s.base input := by
  unfold tick
  dsimp only
  by_cases hsends : s.sends input = true <;> by_cases hcreated : s.hasCreated = true <;>
    by_cases hwrote : ∃ n, s.base input < s.stamp n <;> simp [hsends, hcreated, hwrote, save]

theorem Past.tick {s : Slot Node Value} (h : s.Past) (style : SyncStyle) (input : TickInput) :
    (s.tick style input).Past := by
  have hbase := s.base_le input
  have hlast := h.lastFrameIndex_le
  have hsent := h.lastFramesSent_lt
  refine ⟨?_, ?_, fun e he => ?_⟩
  · rw [tick_lastFrameIndex, tick_frameIndex]
    omega
  · rw [tick_frameIndex]
    cases style with
    | ARQ =>
      rw [tick_lastFramesSent_arq]
      omega
    | NAK =>
      rw [tick_lastFramesSent_nak]
      split <;> omega
  · rw [tick_frameIndex]
    obtain hold | rfl := mem_tick style s input he
    · exact Nat.lt_succ_of_lt (h.frameStates_lt e hold)
    · exact Nat.lt_succ_self _

end Tick

end Slot

theorem mem_of_lookup {frames : List (Nat × ClientEntityData)} {frame : Nat} {data : ClientEntityData}
    (h : frames.lookup frame = some data) : (frame, data) ∈ frames := by
  induction frames with
  | nil => cases h
  | cons e frames ih =>
    rw [List.lookup_cons] at h
    split at h
    · cases h
      rename_i heq
      rw [eq_of_beq heq]
      exact List.mem_cons_self
    · exact List.mem_cons_of_mem _ (ih h)

end fx
