import Citizen.Clones.Slot
import Citizen.Lib.Transition

namespace fx

variable {Node Value : Type*}

/-- The `gameStateAck` handler for an entity that is not deleted for the slot; `ignore` is its entry in
`ignoreHandles`, `recreate` its membership in `recreateHandles`. A frame that is not saved has no entities. -/
def Slot.gameStateAck (s : Slot Node Value) (frameIndex : Nat) (ignore : Option Nat) (recreate : Bool) :
    Slot Node Value :=
  let erased := { s with frameStates := s.frameStates.filter fun e => e.1 ≠ frameIndex }
  match s.frameStates.lookup frameIndex, ignore with
  | none, _ => erased
  | some _, some lastFrame =>
    { erased with
      hasCreated := s.hasCreated && !recreate
      lastFramesSent := min s.lastFramesSent lastFrame
      lastFramesPreSent := min s.lastFramesPreSent lastFrame }
  | some _, none =>
    { erased with
      hasCreated := s.hasCreated && !recreate
      lastFramesSent := if s.hasCreated && !recreate then min frameIndex s.lastFramesPreSent else s.lastFramesSent }

/-- The slot, the syncs built for the client, and the frames the client has received and acknowledged. -/
structure AckWorld (Node Value : Type*) where
  slot : Slot Node Value
  built : List (Sync Node Value)
  received : List Nat
  acked : List Nat

inductive AckAction (Node Value : Type*)
  | update (nodes : Node → Option Value)
  | tick (input : TickInput)
  | receive (frame : Nat)
  | ack (frame : Nat) (ignore : Option Nat)

namespace AckWorld

/-- A frame can be received once it has been ticked, and acknowledged once it has been received, any number
of times and in any order. The client never asks for the entity to be created again. -/
def step [Fintype Node] (w : AckWorld Node Value) : AckAction Node Value → Option (AckWorld Node Value)
  | .update nodes => some { w with slot := w.slot.parse nodes }
  | .tick input =>
    some { w with
      slot := w.slot.tick .ARQ input
      built := w.built ++ w.slot.syncs (fun _ => true) (fun _ => true) input }
  | .receive frame => if frame < w.slot.frameIndex then some { w with received := frame :: w.received } else none
  | .ack frame ignore =>
    if frame ∈ w.received then
      some { w with slot := w.slot.gameStateAck frame ignore false, acked := frame :: w.acked }
    else none

/-- The latest update of a node is in a sync that the client has acknowledged. -/
def Held (w : AckWorld Node Value) (n : Node) : Prop :=
  ∃ sync ∈ w.built, sync.frameIndex ∈ w.acked ∧ sync.nodes n = some (w.slot.value n, w.slot.stamp n)

/-- No update is lost: a node at or below `lastFramesSent` is held. -/
def NothingLost (w : AckWorld Node Value) : Prop :=
  ∀ n, 0 < w.slot.stamp n → w.slot.stamp n ≤ w.slot.lastFramesSent → w.Held n

/-- An acknowledgement of a saved frame: each node up to the new `lastFramesSent` was stamped no later than some
acknowledged frame in which the entity was due. -/
def AckCovered (w : AckWorld Node Value) : AckAction Node Value → Prop
  | .ack frame none => (w.slot.frameStates.lookup frame).isSome →
    ∀ n, 0 < w.slot.stamp n → w.slot.stamp n ≤ min frame w.slot.lastFramesPreSent →
      ∃ sync ∈ w.built, sync.frameIndex ∈ frame :: w.acked ∧ w.slot.stamp n ≤ sync.frameIndex
  | _ => True

/-- An entity that has just been created: nothing has been synced. -/
structure Created (w : AckWorld Node Value) : Prop where
  hasCreated_eq : w.slot.hasCreated = true
  stamp_le : ∀ n, w.slot.stamp n ≤ w.slot.frameIndex
  lastFrameIndex_le : w.slot.lastFrameIndex ≤ w.slot.frameIndex
  frameIndex_pos : 0 < w.slot.frameIndex
  lastFramesSent_eq : w.slot.lastFramesSent = 0
  frameStates_eq : w.slot.frameStates = []
  built_eq : w.built = []
  acked_eq : w.acked = []

/-- Every sync holds each node whose latest update it is not older than, or the node is held already. -/
structure Inv (w : AckWorld Node Value) : Prop where
  hasCreated_eq : w.slot.hasCreated = true
  past : w.slot.Past
  stamp_le : ∀ n, w.slot.stamp n ≤ w.slot.frameIndex
  stamped : ∀ sync ∈ w.built, ∀ n v k, sync.nodes n = some (v, k) → k ≤ sync.frameIndex
  built_lt : ∀ sync ∈ w.built, sync.frameIndex < w.slot.frameIndex
  complete : ∀ sync ∈ w.built, ∀ n, 0 < w.slot.stamp n → w.slot.stamp n ≤ sync.frameIndex →
    sync.nodes n = some (w.slot.value n, w.slot.stamp n) ∨ w.Held n
  nothingLost : w.NothingLost

theorem Created.inv {w : AckWorld Node Value} (h : w.Created) : w.Inv where
  hasCreated_eq := h.hasCreated_eq
  past := ⟨h.lastFrameIndex_le, by rw [h.lastFramesSent_eq]; exact h.frameIndex_pos, by rw [h.frameStates_eq]; simp⟩
  stamp_le := h.stamp_le
  stamped := by rw [h.built_eq]; simp
  built_lt := by rw [h.built_eq]; simp
  complete := by rw [h.built_eq]; simp
  nothingLost := fun n hpos hle => absurd (hpos.trans_le hle) (by rw [h.lastFramesSent_eq]; exact Nat.lt_irrefl 0)

/-- A held node stays held until it is updated. -/
theorem Held.mono {w w' : AckWorld Node Value} {n : Node} (h : w.Held n) (hbuilt : w.built ⊆ w'.built)
    (hacked : w.acked ⊆ w'.acked) (hvalue : w'.slot.value n = w.slot.value n)
    (hstamp : w'.slot.stamp n = w.slot.stamp n) :
    w'.Held n := by
  obtain ⟨sync, hsync, hack, hnode⟩ := h
  exact ⟨sync, hbuilt hsync, hacked hack, by rw [hvalue, hstamp]; exact hnode⟩

theorem Inv.update {w : AckWorld Node Value} (h : w.Inv) (nodes : Node → Option Value) :
    Inv { w with slot := w.slot.parse nodes } := by
  have hkeep : ∀ n, nodes n = none → (w.slot.parse nodes).value n = w.slot.value n ∧
      (w.slot.parse nodes).stamp n = w.slot.stamp n := by
    intro n hn
    simp [Slot.parse, hn]
  have hnew : ∀ n v, nodes n = some v → (w.slot.parse nodes).stamp n = w.slot.frameIndex := by
    intro n v hn
    simp [Slot.parse, hn]
  refine ⟨h.hasCreated_eq, h.past.parse nodes, fun n => ?_, h.stamped, h.built_lt, fun sync hsync n hpos hle => ?_,
    fun n hpos hle => ?_⟩
  · cases hn : nodes n with
    | some v => exact (hnew n v hn).le
    | none => exact (hkeep n hn).2.le.trans (h.stamp_le n)
  · cases hn : nodes n with
    | some v =>
      have hlt := h.built_lt sync hsync
      rw [hnew n v hn] at hle
      exact absurd hlt (Nat.not_lt_of_le hle)
    | none =>
      obtain ⟨hvalue, hstamp⟩ := hkeep n hn
      rw [hstamp] at hpos hle
      rw [hvalue, hstamp]
      exact (h.complete sync hsync n hpos hle).imp_right fun hheld => hheld.mono (fun _ => id)
        (fun _ => id) hvalue hstamp
  · cases hn : nodes n with
    | some v =>
      rw [hnew n v hn] at hle
      exact absurd h.past.lastFramesSent_lt (Nat.not_lt_of_le hle)
    | none =>
      obtain ⟨hvalue, hstamp⟩ := hkeep n hn
      rw [hstamp] at hpos hle
      exact (h.nothingLost n hpos hle).mono (fun _ => id) (fun _ => id) hvalue hstamp

theorem Inv.tick [Fintype Node] {w : AckWorld Node Value} (h : w.Inv) (input : TickInput) :
    Inv { w with
      slot := w.slot.tick .ARQ input
      built := w.built ++ w.slot.syncs (fun _ => true) (fun _ => true) input } := by
  have hheld : ∀ n, w.Held n → Held { w with
      slot := w.slot.tick .ARQ input
      built := w.built ++ w.slot.syncs (fun _ => true) (fun _ => true) input } n := fun n hn =>
    hn.mono (List.subset_append_left _ _) (fun _ => id) (by rw [Slot.tick_value]) (by rw [Slot.tick_stamp])
  have hsync : ∀ sync ∈ w.slot.syncs (fun _ => true) (fun _ => true) input,
      sync = ⟨.sync, w.slot.frameIndex, w.slot.base input, w.slot.unparse (fun _ => true) (w.slot.base input)⟩ := by
    intro sync hmem
    rw [Slot.syncs_created h.hasCreated_eq] at hmem
    split at hmem
    · exact List.mem_singleton.mp hmem
    · cases hmem
  refine ⟨Slot.tick_hasCreated .ARQ _ input h.hasCreated_eq, h.past.tick .ARQ input, fun n => ?_,
    fun sync hmem n v k hnode => ?_, fun sync hmem => ?_, fun sync hmem n hpos hle => ?_, fun n hpos hle => ?_⟩
  · rw [Slot.tick_stamp, Slot.tick_frameIndex]
    exact Nat.le_succ_of_le (h.stamp_le n)
  · obtain hold | hnew := List.mem_append.mp hmem
    · exact h.stamped sync hold n v k hnode
    · rw [hsync sync hnew] at hnode ⊢
      dsimp only at hnode ⊢
      rw [(Slot.unparse_some hnode).2.1]
      exact h.stamp_le n
  · rw [Slot.tick_frameIndex]
    obtain hold | hnew := List.mem_append.mp hmem
    · exact Nat.lt_succ_of_lt (h.built_lt sync hold)
    · rw [hsync sync hnew]
      exact Nat.lt_succ_self _
  · simp only [Slot.tick_value, Slot.tick_stamp] at hpos hle ⊢
    obtain hold | hnew := List.mem_append.mp hmem
    · exact (h.complete sync hold n hpos hle).imp_right (hheld n)
    · rw [hsync sync hnew]
      dsimp only
      by_cases hbase : w.slot.base input < w.slot.stamp n
      · exact .inl (Slot.unparse_of_lt rfl hbase)
      · exact .inr (hheld n (h.nothingLost n hpos ((Nat.le_of_not_lt hbase).trans (w.slot.base_le input))))
  · rw [Slot.tick_lastFramesSent_arq] at hle
    rw [Slot.tick_stamp] at hpos hle
    exact hheld n (h.nothingLost n hpos (hle.trans (w.slot.base_le input)))

theorem Inv.lookup_lt {w : AckWorld Node Value} (h : w.Inv) {frame : Nat}
    (hlookup : (w.slot.frameStates.lookup frame).isSome) : frame < w.slot.frameIndex := by
  obtain ⟨data, hdata⟩ := Option.isSome_iff_exists.mp hlookup
  exact h.past.frameStates_lt _ (mem_of_lookup hdata)

section Fields

variable (s : Slot Node Value) (frame : Nat) (ignore : Option Nat)

@[simp] theorem gameStateAck_value : (s.gameStateAck frame ignore false).value = s.value := by
  unfold Slot.gameStateAck
  split <;> rfl

@[simp] theorem gameStateAck_stamp : (s.gameStateAck frame ignore false).stamp = s.stamp := by
  unfold Slot.gameStateAck
  split <;> rfl

@[simp] theorem gameStateAck_frameIndex : (s.gameStateAck frame ignore false).frameIndex = s.frameIndex := by
  unfold Slot.gameStateAck
  split <;> rfl

theorem gameStateAck_hasCreated (h : s.hasCreated = true) : (s.gameStateAck frame ignore false).hasCreated = true := by
  unfold Slot.gameStateAck
  split <;> simp [h]

/-- An acknowledgement leaves `lastFramesSent` where it is or lowers it, or it is of a saved frame. -/
theorem gameStateAck_lastFramesSent :
    (s.gameStateAck frame ignore false).lastFramesSent ≤ s.lastFramesSent ∨
      ignore = none ∧ (s.frameStates.lookup frame).isSome ∧
        (s.gameStateAck frame ignore false).lastFramesSent = min frame s.lastFramesPreSent := by
  unfold Slot.gameStateAck
  split
  · exact .inl (Nat.le_refl _)
  · exact .inl (Nat.min_le_left _ _)
  · rename_i hlookup
    dsimp only
    split
    · exact .inr ⟨rfl, Option.isSome_of_eq_some hlookup, rfl⟩
    · exact .inl (Nat.le_refl _)

end Fields

theorem gameStateAck_past {w : AckWorld Node Value} (h : w.Inv) (frame : Nat) (ignore : Option Nat) :
    (w.slot.gameStateAck frame ignore false).Past := by
  refine ⟨?_, ?_, fun e he => ?_⟩
  · rw [gameStateAck_frameIndex]
    unfold Slot.gameStateAck
    split <;> exact h.past.lastFrameIndex_le
  · rw [gameStateAck_frameIndex]
    obtain hle | ⟨_, hlookup, heq⟩ := gameStateAck_lastFramesSent w.slot frame ignore
    · exact hle.trans_lt h.past.lastFramesSent_lt
    · rw [heq]
      exact (Nat.min_le_left _ _).trans_lt (h.lookup_lt hlookup)
  · rw [gameStateAck_frameIndex]
    unfold Slot.gameStateAck at he
    split at he <;> exact h.past.frameStates_lt e (List.mem_filter.mp he).1

section Ack

variable {w : AckWorld Node Value} {frame : Nat}

/-- The world after an acknowledgement. -/
private abbrev acknowledged (w : AckWorld Node Value) (frame : Nat) (ignore : Option Nat) : AckWorld Node Value :=
  { w with slot := w.slot.gameStateAck frame ignore false, acked := frame :: w.acked }

private theorem Held.acknowledged {n : Node} (h : w.Held n) (frame : Nat) (ignore : Option Nat) :
    (w.acknowledged frame ignore).Held n :=
  h.mono (fun _ => id) (List.subset_cons_self _ _) (by rw [gameStateAck_value]) (by rw [gameStateAck_stamp])

/-- A node stamped no later than an acknowledged sync is held. -/
private theorem Inv.held_of_le (h : w.Inv) (ignore : Option Nat) {sync : Sync Node Value} (hsync : sync ∈ w.built)
    (hack : sync.frameIndex ∈ frame :: w.acked) {n : Node} (hpos : 0 < w.slot.stamp n)
    (hle : w.slot.stamp n ≤ sync.frameIndex) : (w.acknowledged frame ignore).Held n := by
  obtain hnode | hheld := h.complete sync hsync n hpos hle
  · exact ⟨sync, hsync, hack, by rw [gameStateAck_value, gameStateAck_stamp]; exact hnode⟩
  · exact hheld.acknowledged frame ignore

theorem Inv.ack (h : w.Inv) {ignore : Option Nat} (hcovered : w.AckCovered (.ack frame ignore)) :
    (w.acknowledged frame ignore).Inv := by
  refine ⟨gameStateAck_hasCreated _ _ _ h.hasCreated_eq, gameStateAck_past h frame ignore, fun n => ?_, h.stamped,
    fun sync hsync => ?_, fun sync hsync n hpos hle => ?_, fun n hpos hle => ?_⟩
  · rw [gameStateAck_stamp, gameStateAck_frameIndex]
    exact h.stamp_le n
  · rw [gameStateAck_frameIndex]
    exact h.built_lt sync hsync
  · rw [gameStateAck_stamp] at hpos hle
    rw [gameStateAck_value, gameStateAck_stamp]
    exact (h.complete sync hsync n hpos hle).imp_right fun hheld => hheld.acknowledged frame ignore
  · rw [gameStateAck_stamp] at hpos hle
    obtain hlower | ⟨rfl, hlookup, heq⟩ := gameStateAck_lastFramesSent w.slot frame ignore
    · exact (h.nothingLost n hpos (hle.trans hlower)).acknowledged frame ignore
    · rw [heq] at hle
      obtain ⟨sync, hsync, hack, hstamp⟩ := hcovered hlookup n hpos hle
      exact h.held_of_le none hsync hack hpos hstamp

/-- The condition is exact: an acknowledgement of a saved frame that breaks it loses an update. -/
theorem Inv.lost_of_not_covered (h : w.Inv) (hcovered : ¬ w.AckCovered (.ack frame none)) :
    ¬ (w.acknowledged frame none).NothingLost := by
  intro hkept
  apply hcovered
  intro hlookup n hpos hle
  obtain ⟨data, hdata⟩ := Option.isSome_iff_exists.mp hlookup
  have hsent : (w.slot.gameStateAck frame none false).lastFramesSent = min frame w.slot.lastFramesPreSent := by
    unfold Slot.gameStateAck
    rw [hdata]
    simp [h.hasCreated_eq]
  obtain ⟨sync, hsync, hack, hnode⟩ := hkept n (by rwa [gameStateAck_stamp]) (by rwa [gameStateAck_stamp, hsent])
  rw [gameStateAck_value, gameStateAck_stamp] at hnode
  exact ⟨sync, hsync, hack, h.stamped sync hsync n _ _ hnode⟩

end Ack

theorem step_inv [Fintype Node] {w w' : AckWorld Node Value} {action : AckAction Node Value} (h : w.Inv)
    (hcovered : w.AckCovered action) (hstep : w.step action = some w') : w'.Inv := by
  cases action with
  | update nodes =>
    cases hstep
    exact h.update nodes
  | tick input =>
    cases hstep
    exact h.tick input
  | receive frame =>
    rw [step] at hstep
    split at hstep
    · cases hstep
      exact ⟨h.hasCreated_eq, h.past, h.stamp_le, h.stamped, h.built_lt, h.complete, h.nothingLost⟩
    · cases hstep
  | ack frame ignore =>
    rw [step] at hstep
    split at hstep
    · cases hstep
      exact h.ack hcovered
    · cases hstep

/-- No update is lost in any run whose acks are covered. The condition is asked of acks of saved frames: one in
which the entity was not due can move `lastFramesSent` past an update that was lost. -/
theorem run_nothingLost [Fintype Node] {w w' : AckWorld Node Value} {actions : List (AckAction Node Value)}
    (hcreated : w.Created) (hrun : Transition.Run step AckCovered w actions w') : w'.NothingLost :=
  (hrun.invariant Inv hcreated.inv fun hinv hok hstep => step_inv hinv hok hstep).nothingLost

/-- An entity of one node that has been created at frame 10. -/
def createdAt10 : AckWorld Unit Nat := ⟨⟨10, fun _ => 1, fun _ => 9, 9, 0, 0, true, [], 1⟩, [], [], []⟩

theorem createdAt10_created : createdAt10.Created :=
  ⟨rfl, fun _ => Nat.le_succ 9, by decide, by decide, rfl, rfl, rfl, rfl⟩

/-- An update is synced in frame 10, which is acknowledged. -/
theorem run_nothingLost_one :
    ∃ w, Transition.Run step AckCovered createdAt10
      [.update fun _ => some 2, .tick ⟨false, false, true, false, false⟩, .receive 10, .ack 10 none] w ∧
      w.slot.lastFramesSent = 10 ∧ w.NothingLost := by
  have hrun : Transition.Run step AckCovered createdAt10
      [.update fun _ => some 2, .tick ⟨false, false, true, false, false⟩, .receive 10, .ack 10 none] _ :=
    .cons trivial rfl (.cons trivial rfl (.cons trivial rfl (.cons
      (fun _ _ _ _ => ⟨_, List.mem_cons_self, List.mem_cons_self, Nat.le_refl _⟩) rfl (.nil _))))
  exact ⟨_, hrun, rfl, run_nothingLost createdAt10_created hrun⟩

/-- The update is synced in frame 10, which is lost; frame 11, in which the entity is not due, is acknowledged. -/
theorem run_lost :
    ∃ w, Transition.Run step (fun _ _ => True) createdAt10
      [.update fun _ => some 2, .tick ⟨false, false, true, false, false⟩, .tick ⟨false, false, false, false, false⟩,
        .receive 11, .ack 11 none] w ∧ ¬ w.NothingLost := by
  have hrun : Transition.Run step (fun _ _ => True) createdAt10
      [.update fun _ => some 2, .tick ⟨false, false, true, false, false⟩, .tick ⟨false, false, false, false, false⟩,
        .receive 11, .ack 11 none] _ :=
    .cons trivial rfl (.cons trivial rfl (.cons trivial rfl (.cons trivial rfl (.cons trivial rfl (.nil _)))))
  refine ⟨_, hrun, fun hkept => ?_⟩
  obtain ⟨sync, hsync, hack, _⟩ := hkept () (by decide) (by decide)
  obtain rfl := List.mem_singleton.mp hsync
  exact absurd hack (by decide)

end AckWorld

end fx
