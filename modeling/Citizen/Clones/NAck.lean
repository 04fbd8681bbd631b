import Citizen.Clones.Slot
import Citizen.Lib.Transition

namespace fx

variable {Node Value : Type*}

/-- A `gameStateNAck`: the frame it was sent in, the missing frames, the resend frames of the entity's entries in
the ignore list, and whether the entity is in the recreate list. -/
structure NAck where
  thisFrame : Nat
  missing : Option (Nat × Nat)
  resendFrames : List Nat
  recreate : Bool
  deriving Repr, DecidableEq

/-- What the loop over the missing frames changes: `correction` is the entity's entry in `lastSentCorrections`. -/
structure NAckState where
  lastFramesSent : Nat
  hasCreated : Bool
  correction : Option Nat
  deriving Repr, DecidableEq

/-- The loop over `count` missing frames from `first`, newest first; `none` if a frame is not saved. -/
def nackLoop (frameStates : List (Nat × ClientEntityData)) (first : Nat) : Nat → NAckState → Option NAckState
  | 0, st => some st
  | count + 1, st => do
    let data ← frameStates.lookup (first + count)
    nackLoop frameStates first count
      (if data.isCreated then
        { st with
          lastFramesSent := min data.lastSent st.lastFramesSent
          correction := some (min data.lastSent st.lastFramesSent) }
      else { st with hasCreated := false })

/-- The correction replaces `lastSent` in the frames after `last`. -/
def propagate (last : Nat) (correction : Option Nat) (frameStates : List (Nat × ClientEntityData)) :
    List (Nat × ClientEntityData) :=
  match correction with
  | some correction => frameStates.map fun e => if last < e.1 then (e.1, { e.2 with lastSent := correction }) else e
  | none => frameStates

namespace Slot

/-- The missing frames of a NAck. `none` drops the client. -/
def nackMissing (s : Slot Node Value) (first last : Nat) : Option (Slot Node Value) :=
  (nackLoop s.frameStates first (last + 1 - first) ⟨s.lastFramesSent, s.hasCreated, none⟩).map fun st =>
    { s with
      lastFramesSent := st.lastFramesSent
      hasCreated := st.hasCreated
      frameStates := propagate last st.correction s.frameStates }

/-- The `gameStateNAck` handler. -/
def gameStateNAck (s : Slot Node Value) (nack : NAck) : Option (Slot Node Value) :=
  let corrected := match nack.missing with
    | some (first, last) => s.nackMissing first last
    | none => some s
  corrected.bind fun s =>
    (s.frameStates.lookup nack.thisFrame).map fun _ =>
      { s with
        lastFramesSent := nack.resendFrames.foldl (fun sent resendFrame => min resendFrame sent) s.lastFramesSent
        hasCreated := s.hasCreated && !nack.recreate }

end Slot

/-- The slot, the syncs built for the client, and the ranges it has NAcked. -/
structure NAckWorld (Node Value : Type*) where
  slot : Slot Node Value
  built : List (Sync Node Value)
  nacked : List (Nat × Nat)

inductive NAckAction (Node Value : Type*)
  | update (nodes : Node → Option Value)
  | tick (input : TickInput)
  | nack (nack : NAck)

namespace NAckWorld

/-- The frame is in a range that the client has NAcked. -/
def NAcked (w : NAckWorld Node Value) (frame : Nat) : Prop := ∃ range ∈ w.nacked, range.1 ≤ frame ∧ frame ≤ range.2

/-- One step. The client never asks for the entity to be created again. -/
def step [Fintype Node] (w : NAckWorld Node Value) : NAckAction Node Value → Option (NAckWorld Node Value)
  | .update nodes => some { w with slot := w.slot.parse nodes }
  | .tick input =>
    some { w with
      slot := w.slot.tick .NAK input
      built := w.built ++ w.slot.syncs (fun _ => true) (fun _ => true) input }
  | .nack nack =>
    if nack.recreate then none
    else (w.slot.gameStateNAck nack).map fun slot => { w with slot, nacked := nack.missing.toList ++ w.nacked }

/-- A node in a NAcked sync is in a later sync that is not NAcked, or the next sync that is due carries it. -/
def Resends (w : NAckWorld Node Value) : Prop :=
  ∀ sync ∈ w.built, w.NAcked sync.frameIndex → ∀ n, (sync.nodes n).isSome →
    (∃ later ∈ w.built, sync.frameIndex < later.frameIndex ∧ ¬ w.NAcked later.frameIndex ∧ (later.nodes n).isSome) ∨
      w.slot.lastFramesSent < w.slot.stamp n

/-- Each node in the sync of a newer saved frame is stamped after `lastFramesSent` or after the `lastSent` of some
frame of the missing range, so that the correction does not raise its base to the stamp. -/
def NAckCovered (w : NAckWorld Node Value) : NAckAction Node Value → Prop
  | .nack nack => ∀ range ∈ nack.missing, range.1 ≤ range.2 →
    ∀ sync ∈ w.built, range.2 < sync.frameIndex → (∃ e ∈ w.slot.frameStates, e.1 = sync.frameIndex) →
      ∀ n v k, sync.nodes n = some (v, k) → w.slot.lastFramesSent < k ∨
        ∃ frame data, range.1 ≤ frame ∧ frame ≤ range.2 ∧ w.slot.frameStates.lookup frame = some data ∧
          data.lastSent < k
  | _ => True

/-- An entity that has just been created: nothing has been synced. -/
structure Created (w : NAckWorld Node Value) : Prop where
  hasCreated_eq : w.slot.hasCreated = true
  stamp_le : ∀ n, w.slot.stamp n ≤ w.slot.frameIndex
  lastFrameIndex_le : w.slot.lastFrameIndex ≤ w.slot.frameIndex
  lastFramesSent_lt : w.slot.lastFramesSent < w.slot.frameIndex
  frameStates_eq : w.slot.frameStates = []
  built_eq : w.built = []
  nacked_eq : w.nacked = []

/-- Every node in a sync is stamped after the `lastSent` of the sync's frame. -/
structure Inv (w : NAckWorld Node Value) : Prop where
  hasCreated_eq : w.slot.hasCreated = true
  isCreated_eq : ∀ e ∈ w.slot.frameStates, e.2.isCreated = true
  past : w.slot.Past
  stamp_le : ∀ n, w.slot.stamp n ≤ w.slot.frameIndex
  built_lt : ∀ sync ∈ w.built, sync.frameIndex < w.slot.frameIndex
  stamped : ∀ sync ∈ w.built, ∀ n v k, sync.nodes n = some (v, k) → k ≤ w.slot.stamp n
  recorded : ∀ sync ∈ w.built, ∀ e ∈ w.slot.frameStates, e.1 = sync.frameIndex →
    ∀ n v k, sync.nodes n = some (v, k) → e.2.lastSent < k
  nacked_lt : ∀ frame, w.NAcked frame → frame < w.slot.frameIndex
  resends : w.Resends

theorem Created.inv {w : NAckWorld Node Value} (h : w.Created) : w.Inv where
  hasCreated_eq := h.hasCreated_eq
  isCreated_eq := by rw [h.frameStates_eq]; simp
  past := ⟨h.lastFrameIndex_le, h.lastFramesSent_lt, by rw [h.frameStates_eq]; simp⟩
  stamp_le := h.stamp_le
  built_lt := by rw [h.built_eq]; simp
  stamped := by rw [h.built_eq]; simp
  recorded := by rw [h.built_eq]; simp
  nacked_lt := by
    rintro frame ⟨range, hrange, _⟩
    rw [h.nacked_eq] at hrange
    cases hrange
  resends := by
    intro sync hsync
    rw [h.built_eq] at hsync
    cases hsync

theorem Inv.update {w : NAckWorld Node Value} (h : w.Inv) (nodes : Node → Option Value) :
    Inv { w with slot := w.slot.parse nodes } := by
  have hstamp : ∀ n, w.slot.stamp n ≤ (w.slot.parse nodes).stamp n := by
    intro n
    dsimp only [Slot.parse]
    split
    · exact h.stamp_le n
    · exact Nat.le_refl _
  refine ⟨h.hasCreated_eq, h.isCreated_eq, h.past.parse nodes, fun n => ?_, h.built_lt, fun sync hsync n v k hnode =>
    ?_, h.recorded, h.nacked_lt,
    fun sync hsync hnacked n hnode => ?_⟩
  · dsimp only [Slot.parse]
    split
    · exact Nat.le_refl _
    · exact h.stamp_le n
  · exact (h.stamped sync hsync n v k hnode).trans (hstamp n)
  · exact (h.resends sync hsync hnacked n hnode).imp_right fun hdue => hdue.trans_le (hstamp n)

/-- A due tick carries every node that a NAck has left to be sent again. -/
theorem Inv.tick [Fintype Node] {w : NAckWorld Node Value} (h : w.Inv) (input : TickInput) :
    Inv { w with
      slot := w.slot.tick .NAK input
      built := w.built ++ w.slot.syncs (fun _ => true) (fun _ => true) input } := by
  have hbase := w.slot.base_le input
  have hbuilt : w.slot.syncs (fun _ => true) (fun _ => true) input = if w.slot.sends input then
      [⟨.sync, w.slot.frameIndex, w.slot.base input, w.slot.unparse (fun _ => true) (w.slot.base input)⟩] else [] :=
    Slot.syncs_created h.hasCreated_eq
  have hsync : ∀ sync ∈ w.slot.syncs (fun _ => true) (fun _ => true) input,
      sync = ⟨.sync, w.slot.frameIndex, w.slot.base input, w.slot.unparse (fun _ => true) (w.slot.base input)⟩ := by
    intro sync hmem
    rw [hbuilt] at hmem
    split at hmem
    · exact List.mem_singleton.mp hmem
    · cases hmem
  refine ⟨Slot.tick_hasCreated .NAK _ input h.hasCreated_eq, fun e he => ?_, h.past.tick .NAK input, fun n => ?_,
    fun sync hmem => ?_, fun sync hmem n v k hnode => ?_, fun sync hmem e he heq n v k hnode => ?_,
    fun frame hnacked => ?_, fun sync hmem hnacked n hnode => ?_⟩
  · obtain hold | rfl := Slot.mem_tick .NAK w.slot input he
    · exact h.isCreated_eq e hold
    · exact h.hasCreated_eq
  · rw [Slot.tick_stamp, Slot.tick_frameIndex]
    exact Nat.le_succ_of_le (h.stamp_le n)
  · rw [Slot.tick_frameIndex]
    obtain hold | hnew := List.mem_append.mp hmem
    · exact Nat.lt_succ_of_lt (h.built_lt sync hold)
    · rw [hsync sync hnew]
      exact Nat.lt_succ_self _
  · rw [Slot.tick_stamp]
    obtain hold | hnew := List.mem_append.mp hmem
    · exact h.stamped sync hold n v k hnode
    · rw [hsync sync hnew] at hnode
      dsimp only at hnode
      exact (Slot.unparse_some hnode).2.1.le
  · obtain hold | hnew := List.mem_append.mp hmem <;> obtain holde | rfl := Slot.mem_tick .NAK w.slot input he
    · exact h.recorded sync hold e holde heq n v k hnode
    · exact absurd (h.built_lt sync hold) (by rw [← heq]; exact Nat.lt_irrefl _)
    · rw [hsync sync hnew] at heq
      exact absurd (h.past.frameStates_lt e holde) (by rw [heq]; exact Nat.lt_irrefl _)
    · rw [hsync sync hnew] at hnode
      dsimp only at hnode
      obtain ⟨_, rfl, hlt⟩ := Slot.unparse_some hnode
      exact hlt
  · rw [Slot.tick_frameIndex]
    exact Nat.lt_succ_of_lt (h.nacked_lt frame hnacked)
  · obtain hold | hnew := List.mem_append.mp hmem
    · obtain ⟨later, hlater, hafter, hfresh, hcarries⟩ | hdue := h.resends sync hold hnacked n hnode
      · exact .inl ⟨later, List.mem_append_left _ hlater, hafter, hfresh, hcarries⟩
      · by_cases hsent : w.slot.sends input = true
        · refine .inl ⟨⟨.sync, w.slot.frameIndex, w.slot.base input, w.slot.unparse (fun _ => true)
            (w.slot.base input)⟩, List.mem_append_right _ ?_, h.built_lt sync hold, fun hnew => ?_, ?_⟩
          · rw [hbuilt, if_pos hsent]
            exact List.mem_singleton.mpr rfl
          · exact absurd (h.nacked_lt _ hnew) (Nat.lt_irrefl _)
          · dsimp only
            exact Option.isSome_of_eq_some (Slot.unparse_of_lt rfl (hbase.trans_lt hdue))
        · right
          rw [Slot.tick_lastFramesSent_nak, if_neg fun hsends => hsent hsends.1, Slot.tick_stamp]
          exact hbase.trans_lt hdue
    · rw [hsync sync hnew] at hnacked
      exact absurd (h.nacked_lt _ hnacked) (Nat.lt_irrefl _)

/-- The missing frames are all saved. If the entity is created in them, the loop ends below `lastFramesSent` and the
`lastSent` of each, and the correction is where it ends. -/
theorem nackLoop_spec {frameStates : List (Nat × ClientEntityData)}
    (hcreated : ∀ e ∈ frameStates, e.2.isCreated = true) {first count : Nat} {st st' : NAckState}
    (h : nackLoop frameStates first count st = some st')
    (hcorrection : ∀ c ∈ st.correction, c = st.lastFramesSent) :
    st'.hasCreated = st.hasCreated ∧ (∀ c ∈ st'.correction, c = st'.lastFramesSent) ∧
    st'.lastFramesSent ≤ st.lastFramesSent ∧ ∀ frame, first ≤ frame → frame < first + count →
      ∃ data, frameStates.lookup frame = some data ∧ st'.lastFramesSent ≤ data.lastSent := by
  induction count generalizing st with
  | zero =>
    cases h
    exact ⟨rfl, hcorrection, Nat.le_refl _, fun frame hlo hhi => absurd hhi (Nat.not_lt_of_le hlo)⟩
  | succ count ih =>
    obtain ⟨data, hlookup, hrest⟩ := Option.bind_eq_some_iff.mp h
    rw [if_pos (hcreated _ (mem_of_lookup hlookup))] at hrest
    obtain ⟨hsame, hends, hle, hall⟩ := ih hrest (fun c hc => (Option.some.inj hc).symm)
    refine ⟨hsame, hends, hle.trans (Nat.min_le_right _ _), fun frame hlo hhi => ?_⟩
    obtain hlt | rfl := Nat.lt_or_eq_of_le (Nat.le_of_lt_succ hhi)
    · exact hall frame hlo hlt
    · exact ⟨data, hlookup, hle.trans (Nat.min_le_left _ _)⟩

/-- No loop corrects anything if no frame is missing. -/
theorem nackLoop_zero {frameStates : List (Nat × ClientEntityData)} {first : Nat} {st st' : NAckState}
    (h : nackLoop frameStates first 0 st = some st') : st' = st := (Option.some.inj h).symm

/-- A value not above `lastFramesSent` or the `lastSent` of a missing frame; the missing frames are saved. -/
def Below (s : Slot Node Value) (range : Nat × Nat) (correction : Nat) : Prop :=
  correction ≤ s.lastFramesSent ∧ ∀ frame, range.1 ≤ frame → frame ≤ range.2 →
    ∃ data, s.frameStates.lookup frame = some data ∧ correction ≤ data.lastSent

/-- What a NAck does to a slot: `lastFramesSent` is lowered, and newer frames get a correction. -/
structure Corrected (s : Slot Node Value) (nack : NAck) (s' : Slot Node Value) : Prop where
  hasCreated_eq : s'.hasCreated = (s.hasCreated && !nack.recreate)
  frameIndex_eq : s'.frameIndex = s.frameIndex
  stamp_eq : s'.stamp = s.stamp
  lastFrameIndex_eq : s'.lastFrameIndex = s.lastFrameIndex
  lastFramesSent_le : s'.lastFramesSent ≤ s.lastFramesSent
  missing_le : ∀ range ∈ nack.missing, Below s range s'.lastFramesSent
  saved : ∀ e ∈ s'.frameStates, e ∈ s.frameStates ∨ ∃ range ∈ nack.missing, range.1 ≤ range.2 ∧ range.2 < e.1 ∧
    (∃ old ∈ s.frameStates, old.1 = e.1 ∧ old.2.isCreated = e.2.isCreated) ∧ Below s range e.2.lastSent

theorem foldl_min_le (resendFrames : List Nat) (sent : Nat) :
    resendFrames.foldl (fun sent resendFrame => min resendFrame sent) sent ≤ sent := by
  induction resendFrames generalizing sent with
  | nil => exact Nat.le_refl _
  | cons resendFrame resendFrames ih => exact (ih _).trans (Nat.min_le_right _ _)

theorem corrected_nackMissing {s s' : Slot Node Value} (hcreated : ∀ e ∈ s.frameStates, e.2.isCreated = true)
    {first last thisFrame : Nat} {resendFrames : List Nat} (h : s.nackMissing first last = some s') :
    Corrected s ⟨thisFrame, some (first, last), resendFrames, false⟩ s' := by
  obtain ⟨st, hloop, rfl⟩ := Option.map_eq_some_iff.mp h
  obtain ⟨hsame, hends, hle, hall⟩ := nackLoop_spec hcreated hloop (fun c hc => by cases hc)
  have hbelow : Below s (first, last) st.lastFramesSent :=
    ⟨hle, fun frame hlo hhi => hall frame hlo (by dsimp only at hhi; omega)⟩
  refine ⟨by simp [hsame], rfl, rfl, rfl, hle, fun range hmem => ?_, fun e he => ?_⟩
  · obtain rfl := Option.some.inj hmem
    exact hbelow
  · dsimp only [propagate] at he
    split at he
    · rename_i correction hcorrection
      obtain ⟨old, hold, rfl⟩ := List.mem_map.mp he
      by_cases hrange : first ≤ last
      · split
        · rename_i hnewer
          obtain rfl := hends correction hcorrection
          exact .inr ⟨(first, last), rfl, hrange, hnewer, ⟨old, hold, rfl, rfl⟩, hbelow⟩
        · exact .inl hold
      · rw [show last + 1 - first = 0 by omega] at hloop
        rw [nackLoop_zero hloop] at hcorrection
        cases hcorrection
    · exact .inl he

theorem corrected_gameStateNAck {s s' : Slot Node Value} {nack : NAck}
    (hcreated : ∀ e ∈ s.frameStates, e.2.isCreated = true) (h : s.gameStateNAck nack = some s') :
    Corrected s nack s' := by
  obtain ⟨thisFrame, missing, resendFrames, recreate⟩ := nack
  obtain ⟨corrected, hcorrected, hrest⟩ := Option.bind_eq_some_iff.mp h
  obtain ⟨_, _, rfl⟩ := Option.map_eq_some_iff.mp hrest
  have hlower := foldl_min_le resendFrames corrected.lastFramesSent
  have hmissing : Corrected s ⟨thisFrame, missing, resendFrames, false⟩ corrected := by
    cases missing with
    | none =>
      cases hcorrected
      exact ⟨by simp, rfl, rfl, rfl, Nat.le_refl _, fun _ hmem => (by cases hmem), fun e he => .inl he⟩
    | some range => exact corrected_nackMissing hcreated hcorrected
  refine ⟨?_, hmissing.frameIndex_eq, hmissing.stamp_eq, hmissing.lastFrameIndex_eq,
    hlower.trans hmissing.lastFramesSent_le, fun range hmem => ⟨hlower.trans (hmissing.missing_le range hmem).1,
      fun frame hlo hhi => ((hmissing.missing_le range hmem).2 frame hlo hhi).imp fun _ => And.imp_right hlower.trans⟩,
    hmissing.saved⟩
  rw [hmissing.hasCreated_eq]
  simp

section NAck

variable {w : NAckWorld Node Value} {nack : NAck} {slot : Slot Node Value}

/-- After a NAck, a node in a sync of a missing frame is due. -/
theorem Inv.due_of_missing (h : w.Inv) (hcorrected : Corrected w.slot nack slot) {range : Nat × Nat}
    (hrange : range ∈ nack.missing) {sync : Sync Node Value} (hsync : sync ∈ w.built) (hlo : range.1 ≤ sync.frameIndex)
    (hhi : sync.frameIndex ≤ range.2) {n : Node} (hnode : (sync.nodes n).isSome) :
    slot.lastFramesSent < slot.stamp n := by
  obtain ⟨⟨v, k⟩, hnode⟩ := Option.isSome_iff_exists.mp hnode
  obtain ⟨data, hlookup, hle⟩ := (hcorrected.missing_le range hrange).2 sync.frameIndex hlo hhi
  rw [hcorrected.stamp_eq]
  calc slot.lastFramesSent ≤ data.lastSent := hle
    _ < k := h.recorded sync hsync _ (mem_of_lookup hlookup) rfl n v k hnode
    _ ≤ w.slot.stamp n := h.stamped sync hsync n v k hnode

theorem Inv.gameStateNAck (h : w.Inv) (hcovered : w.NAckCovered (.nack nack)) (hrecreate : nack.recreate = false)
    (hnack : w.slot.gameStateNAck nack = some slot) :
    Inv { w with slot, nacked := nack.missing.toList ++ w.nacked } := by
  have hcorrected := corrected_gameStateNAck h.isCreated_eq hnack
  have hsame := hcorrected.frameIndex_eq
  refine ⟨?_, fun e he => ?_, ⟨?_, ?_, fun e he => ?_⟩, fun n => ?_, fun sync hsync => ?_,
    fun sync hsync n v k hnode => ?_, fun sync hsync e he heq n v k hnode => ?_, fun frame hnacked => ?_,
      fun sync hsync hnacked n hnode => ?_⟩
  · rw [hcorrected.hasCreated_eq, h.hasCreated_eq, hrecreate]
    rfl
  · obtain hold | ⟨_, _, _, _, ⟨old, hold, _, heq⟩, _⟩ := hcorrected.saved e he
    · exact h.isCreated_eq e hold
    · rw [← heq]
      exact h.isCreated_eq old hold
  · rw [hsame, hcorrected.lastFrameIndex_eq]
    exact h.past.lastFrameIndex_le
  · rw [hsame]
    exact hcorrected.lastFramesSent_le.trans_lt h.past.lastFramesSent_lt
  · rw [hsame]
    obtain hold | ⟨_, _, _, _, ⟨old, hold, heq, _⟩, _⟩ := hcorrected.saved e he
    · exact h.past.frameStates_lt e hold
    · rw [← heq]
      exact h.past.frameStates_lt old hold
  · rw [hsame, hcorrected.stamp_eq]
    exact h.stamp_le n
  · rw [hsame]
    exact h.built_lt sync hsync
  · rw [hcorrected.stamp_eq]
    exact h.stamped sync hsync n v k hnode
  · obtain hold | ⟨range, hrange, hle, hnewer, ⟨old, hold, hsaved, _⟩, hbelow⟩ := hcorrected.saved e he
    · exact h.recorded sync hsync e hold heq n v k hnode
    · rw [heq] at hnewer hsaved
      obtain hlt | ⟨frame, data, hlo, hhi, hlookup, hlt⟩ :=
        hcovered range hrange hle sync hsync hnewer ⟨old, hold, hsaved⟩ n v k hnode
      · exact hbelow.1.trans_lt hlt
      · obtain ⟨data', hlookup', hle'⟩ := hbelow.2 frame hlo hhi
        cases hlookup.symm.trans hlookup'
        exact hle'.trans_lt hlt
  · rw [hsame]
    obtain ⟨range, hmem, hlo, hhi⟩ := hnacked
    obtain hnew | hold := List.mem_append.mp hmem
    · have hrange : range ∈ nack.missing := by simpa using hnew
      obtain ⟨data, hlookup, _⟩ := (hcorrected.missing_le range hrange).2 frame hlo hhi
      exact h.past.frameStates_lt _ (mem_of_lookup hlookup)
    · exact h.nacked_lt frame ⟨range, hold, hlo, hhi⟩
  · -- a frame of the new range is due at once, and a later sync of it no longer counts
    have hdue : ∀ sync ∈ w.built, (∃ range ∈ nack.missing, range.1 ≤ sync.frameIndex ∧ sync.frameIndex ≤ range.2) →
        (sync.nodes n).isSome → slot.lastFramesSent < slot.stamp n := by
      rintro sync hsync ⟨range, hrange, hlo, hhi⟩ hnode
      exact h.due_of_missing hcorrected hrange hsync hlo hhi hnode
    obtain ⟨range, hmem, hlo, hhi⟩ := hnacked
    obtain hnew | hold := List.mem_append.mp hmem
    · exact .inr (hdue sync hsync ⟨range, by simpa using hnew, hlo, hhi⟩ hnode)
    · obtain ⟨later, hlater, hafter, hfresh, hcarries⟩ | hstamp := h.resends sync hsync ⟨range, hold, hlo, hhi⟩ n hnode
      · by_cases hmissing : ∃ range ∈ nack.missing, range.1 ≤ later.frameIndex ∧ later.frameIndex ≤ range.2
        · exact .inr (hdue later hlater hmissing hcarries)
        · refine .inl ⟨later, hlater, hafter, ?_, hcarries⟩
          rintro ⟨range', hmem', hlo', hhi'⟩
          obtain hnew' | hold' := List.mem_append.mp hmem'
          · exact hmissing ⟨range', by simpa using hnew', hlo', hhi'⟩
          · exact hfresh ⟨range', hold', hlo', hhi'⟩
      · right
        rw [hcorrected.stamp_eq]
        exact hcorrected.lastFramesSent_le.trans_lt hstamp

end NAck

theorem step_inv [Fintype Node] {w w' : NAckWorld Node Value} {action : NAckAction Node Value} (h : w.Inv)
    (hcovered : w.NAckCovered action) (hstep : w.step action = some w') : w'.Inv := by
  cases action with
  | update nodes =>
    cases hstep
    exact h.update nodes
  | tick input =>
    cases hstep
    exact h.tick input
  | nack nack =>
    rw [step] at hstep
    split at hstep
    · cases hstep
    · rename_i hrecreate
      obtain ⟨slot, hnack, rfl⟩ := Option.map_eq_some_iff.mp hstep
      exact h.gameStateNAck hcovered (Bool.not_eq_true _ ▸ hrecreate) hnack

/-- A lost node is sent again in any run whose NAcks are covered. An entity that has just been created is enough to
start from; the condition is asked of the ranges of each NAck, since the correction may raise the base to the
stamp of a node. -/
theorem run_resends [Fintype Node] {w w' : NAckWorld Node Value} {actions : List (NAckAction Node Value)}
    (hcreated : w.Created) (hrun : Transition.Run step NAckCovered w actions w') : w'.Resends :=
  (hrun.invariant Inv hcreated.inv fun hinv hok hstep => step_inv hinv hok hstep).resends

/-- An entity of two nodes that has been created at frame 10. -/
def createdAt10 : NAckWorld Bool Nat := ⟨⟨10, fun _ => 1, fun _ => 9, 9, 0, 0, true, [], 1⟩, [], []⟩

theorem createdAt10_created : createdAt10.Created :=
  ⟨rfl, fun _ => Nat.le_succ 9, by decide, by decide, rfl, rfl, rfl⟩

/-- The syncs of frames 10 and 11 are NAcked together. -/
theorem run_resends_two :
    ∃ w, Transition.Run step NAckCovered createdAt10
      [.tick ⟨false, false, true, false, false⟩, .update fun n => if n then some 2 else none,
        .tick ⟨false, false, true, false, false⟩, .nack ⟨11, some (10, 11), [], false⟩] w ∧
      w.slot.lastFramesSent = 0 ∧ w.Resends := by
  have hrun : Transition.Run step NAckCovered createdAt10
      [.tick ⟨false, false, true, false, false⟩, .update fun n => if n then some 2 else none,
        .tick ⟨false, false, true, false, false⟩, .nack ⟨11, some (10, 11), [], false⟩] _ :=
    .cons trivial rfl (.cons trivial rfl (.cons trivial rfl (.cons (by
      rintro range hrange _ sync hsync hnewer _
      obtain rfl := Option.some.inj hrange
      obtain rfl | hsync := List.mem_cons.mp hsync
      · exact absurd hnewer (by decide)
      · obtain rfl := List.mem_singleton.mp hsync
        exact absurd hnewer (by decide)) rfl (.nil _))))
  exact ⟨_, hrun, rfl, run_resends createdAt10_created hrun⟩

/-- Both nodes are synced in frame 10, one of them in frame 11, and both again in frame 12, which is forced. The
NAck of frame 11 raises the base of frame 12 to 9, so that a NAck of frame 12 does not send the other node again. -/
theorem run_not_resent :
    ∃ w, Transition.Run step (fun _ _ => True) createdAt10
      [.tick ⟨false, false, true, false, false⟩, .update fun n => if n then some 2 else none,
        .tick ⟨false, false, true, false, false⟩, .tick ⟨true, false, true, false, false⟩,
        .nack ⟨12, some (11, 11), [], false⟩, .nack ⟨12, some (12, 12), [], false⟩] w ∧ ¬ w.Resends := by
  have hrun : Transition.Run step (fun _ _ => True) createdAt10
      [.tick ⟨false, false, true, false, false⟩, .update fun n => if n then some 2 else none,
        .tick ⟨false, false, true, false, false⟩, .tick ⟨true, false, true, false, false⟩,
        .nack ⟨12, some (11, 11), [], false⟩, .nack ⟨12, some (12, 12), [], false⟩] _ :=
    .cons trivial rfl (.cons trivial rfl (.cons trivial rfl (.cons trivial rfl (.cons trivial rfl
      (.cons trivial rfl (.nil _))))))
  refine ⟨_, hrun, fun hresends => ?_⟩
  obtain ⟨later, hlater, hafter, -⟩ | hdue := hresends _ (List.mem_append_right _ List.mem_cons_self)
    ⟨(12, 12), List.mem_cons_self, by decide, by decide⟩ false (by decide)
  · obtain hlater | hlater := List.mem_append.mp hlater
    · obtain hlater | hlater := List.mem_append.mp hlater
      · obtain rfl := List.mem_singleton.mp hlater
        exact absurd hafter (by decide)
      · obtain rfl := List.mem_singleton.mp hlater
        exact absurd hafter (by decide)
    · obtain rfl := List.mem_singleton.mp hlater
      exact absurd hafter (by decide)
  · exact absurd hdue (by decide)

end NAckWorld

end fx
