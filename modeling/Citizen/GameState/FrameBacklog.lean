import Citizen.GameState.Tick
import Citizen.CloneManager.FrameAck
import Citizen.Lib.Transition

open Transition

namespace fx.FrameBacklog

/-- The texts that a client is dropped with. -/
inductive DropReason
  /-- "Timed out after 60 seconds (1, %d)" -/
  | missing (count : Nat)
  /-- "Timed out after 60 seconds (2)" -/
  | unknown
  deriving DecidableEq

/-- The keys of `frameStates` are in their order. -/
structure State where
  syncStyle : SyncStyle := .NAK
  frameIndex : Nat
  now : Nat
  hasSlot : Bool := false
  lastSeen : Nat := 0
  firstSavedFrameState : Nat := 0
  frameStates : List Nat := []
  dropped : Option DropReason := none

/-- A tick reads `onesync_automaticResend`, and acks are given by what is read of them. -/
inductive Action
  | wait (time : Nat)
  | touch
  | assignSlot
  | tick (oneSyncARQ : Bool)
  | gameStateAck (frameIndex : net.Value 8)
  | gameStateNAck (missing : Option (net.Value 8 × net.Value 8)) (thisFrame : net.Value 8)

/-- `a - b` of `uint64_t`. -/
def sub (a b : Nat) : Nat := (a + 2 ^ 64 - b) % 2 ^ 64

def emplace (frame : Nat) (frameStates : List Nat) : List Nat :=
  if frame ∈ frameStates then frameStates
  else frameStates.takeWhile (· < frame) ++ frame :: frameStates.dropWhile (· < frame)

/-- The loop that erases old frames. `none` when the fuel is used up. -/
def eraseOld (frameIndex thisMaxBacklog : Nat) : Nat → Nat → List Nat → Option (Nat × List Nat)
  | 0, _, _ => none
  | fuel + 1, first, frameStates =>
    if thisMaxBacklog - 1 ≤ sub frameIndex first then
      eraseOld frameIndex thisMaxBacklog fuel ((first + 1) % 2 ^ 64) (frameStates.erase first)
    else some (first, frameStates)

/-- The loop over the missing frames, from the last one: whether all are saved. `none` when the fuel is used up. -/
def findMissing (frameStates : List Nat) (firstMissingFrame : Nat) : Nat → Nat → Option Bool
  | 0, _ => none
  | fuel + 1, frame =>
    if firstMissingFrame ≤ frame then
      if frame ∈ frameStates then findMissing frameStates firstMissingFrame fuel (sub frame 1) else some false
    else some true

namespace State

variable (s : State)

/-- `thisMaxBacklog`; `size() - 2` wraps around. -/
def maxBacklog : Nat :=
  max (if 5000 < s.lastSeen then maxSavedClientFramesWorstCase else maxSavedClientFrames) (sub s.frameStates.length 2)

/-- The end of a client's part of the tick. -/
def saveFrame : Option State :=
  if s.firstSavedFrameState ≠ 0 then
    (eraseOld s.frameIndex s.maxBacklog (sub s.frameIndex s.firstSavedFrameState + 1) s.firstSavedFrameState
      s.frameStates).map fun (first, frameStates) =>
        { s with firstSavedFrameState := first, frameStates := emplace s.frameIndex frameStates }
  else some { s with firstSavedFrameState := s.frameIndex, frameStates := emplace s.frameIndex s.frameStates }

/-- `Tick`. -/
def tick (oneSyncARQ : Bool) : Option State :=
  let s := { s with syncStyle := if oneSyncARQ then .ARQ else .NAK }
  (if s.hasSlot then s.saveFrame else some s).map fun s => { s with frameIndex := (s.frameIndex + 1) % 2 ^ 64 }

/-- `gameStateAck`: the frame is looked up with `[]` and erased. -/
def gameStateAck (frameIndex : net.Value 8) : State :=
  if s.syncStyle ≠ .ARQ then s
  else if !s.hasSlot then s
  else { s with frameStates := (emplace frameIndex.toNat s.frameStates).erase frameIndex.toNat }

/-- The lookup of the frame itself in `gameStateNAck`. -/
def findThis (thisFrame : net.Value 8) : State :=
  if thisFrame.toNat ∈ s.frameStates then s else { s with dropped := some .unknown }

/-- `gameStateNAck`. -/
def gameStateNAck (missing : Option (net.Value 8 × net.Value 8)) (thisFrame : net.Value 8) : Option State :=
  if s.syncStyle ≠ .NAK then some s
  else if !s.hasSlot then some s
  else
    match missing with
    | some (firstMissingFrame, lastMissingFrame) =>
      (findMissing s.frameStates firstMissingFrame.toNat (s.frameStates.length + 1) lastMissingFrame.toNat).map
        fun found =>
        if found then s.findThis thisFrame
        else { s with dropped := some (.missing (sub lastMissingFrame.toNat firstMissingFrame.toNat)) }
    | none => some (s.findThis thisFrame)

end State

/-- `none` would be a loop that does not end. -/
def step (s : State) : Action → Option State
  | .wait time => some { s with now := s.now + time }
  | .touch => some { s with lastSeen := s.now }
  | .assignSlot => some { s with hasSlot := true }
  | .tick oneSyncARQ => s.tick oneSyncARQ
  | .gameStateAck frameIndex => some (s.gameStateAck frameIndex)
  | .gameStateNAck missing thisFrame => s.gameStateNAck missing thisFrame

/-- Ticks are those of NAK mode, and their index has not gone round to 0. -/
def NAKMode (s : State) : Action → Prop
  | .tick oneSyncARQ => oneSyncARQ = false ∧ s.frameIndex ≠ 0
  | _ => True

/-- A client that is to connect, when the server starts. -/
def init : State := { frameIndex := 1, now := 0 }

variable {s s' : State} {first n frameIndex fuel : Nat}

theorem sub_eq {a b : Nat} (hle : b ≤ a) (hlt : a < 2 ^ 64) : sub a b = a - b := by
  have hsum : a + 2 ^ 64 - b = a - b + 2 ^ 64 := by omega
  rw [sub, hsum, Nat.add_mod_right, Nat.mod_eq_of_lt (by omega)]

/-- The newest frame comes last. -/
theorem emplace_range' (first n : Nat) : emplace (first + n) (List.range' first n) = List.range' first (n + 1) := by
  have hbefore : ∀ frame ∈ List.range' first n, frame < first + n := fun frame hmem => by
    rw [List.mem_range'_1] at hmem
    exact hmem.2
  have hnew : first + n ∉ List.range' first n := fun hmem => absurd (hbefore _ hmem) (Nat.lt_irrefl _)
  rw [emplace, if_neg hnew, List.takeWhile_eq_self_iff.2 fun frame hmem => decide_eq_true (hbefore frame hmem),
    List.dropWhile_eq_nil_iff.2 fun frame hmem => decide_eq_true (hbefore frame hmem), List.range'_1_concat]

/-- The oldest frames are erased, until their number is allowed. -/
theorem eraseOld_range' {thisMaxBacklog : Nat} (hmax : 2 ≤ thisMaxBacklog) (hlt : first + n < 2 ^ 64)
    (hfuel : n < fuel) :
    eraseOld (first + n) thisMaxBacklog fuel first (List.range' first n) =
      some (first + (n - (thisMaxBacklog - 2)),
        List.range' (first + (n - (thisMaxBacklog - 2))) (min n (thisMaxBacklog - 2))) := by
  induction n generalizing first fuel with
  | zero =>
    obtain ⟨fuel, rfl⟩ : ∃ k, fuel = k + 1 := ⟨fuel - 1, by omega⟩
    have hsub := @sub_eq (first + 0) first (by omega) hlt
    rw [eraseOld, if_neg (by omega)]
    simp
  | succ n ih =>
    obtain ⟨fuel, rfl⟩ : ∃ k, fuel = k + 1 := ⟨fuel - 1, by omega⟩
    have hsub := @sub_eq (first + (n + 1)) first (by omega) hlt
    rw [eraseOld]
    by_cases hold : thisMaxBacklog - 1 ≤ n + 1
    · have hnext : (first + 1) % 2 ^ 64 = first + 1 := Nat.mod_eq_of_lt (by omega)
      have hindex : first + (n + 1) = first + 1 + n := by omega
      have herase : (List.range' first (n + 1)).erase first = List.range' (first + 1) n := by
        rw [List.range'_succ, List.erase_cons_head]
      rw [if_pos (by omega), hnext, herase, hindex, ih (by omega) (by omega)]
      have hfirst : first + 1 + (n - (thisMaxBacklog - 2)) = first + (n + 1 - (thisMaxBacklog - 2)) := by omega
      have hcount : min n (thisMaxBacklog - 2) = min (n + 1) (thisMaxBacklog - 2) := by omega
      rw [hfirst, hcount]
    · have hfirst : n + 1 - (thisMaxBacklog - 2) = 0 := by omega
      have hcount : min (n + 1) (thisMaxBacklog - 2) = n + 1 := by omega
      rw [if_neg (by omega), hfirst, hcount]
      simp only [Nat.add_zero]

/-- The saved frames are those before the next frame, and there are not too many. -/
structure Saved (s : State) (n : Nat) : Prop where
  hasSlot : s.hasSlot = true
  first_pos : 0 < s.firstSavedFrameState
  pos : 0 < n
  le : n ≤ maxSavedClientFramesWorstCase - 1
  fits : s.firstSavedFrameState + n ≤ 2 ^ 64
  frames : s.frameStates = List.range' s.firstSavedFrameState n
  index : s.frameIndex = (s.firstSavedFrameState + n) % 2 ^ 64

/-- What holds in any run in NAK mode. -/
structure Inv (s : State) : Prop where
  syncStyle : s.syncStyle = .NAK
  frameIndex_lt : s.frameIndex < 2 ^ 64
  frames : (s.firstSavedFrameState = 0 ∧ s.frameStates = []) ∨ ∃ n, Saved s n

/-- The index of the next frame, which has not gone round to 0. -/
theorem Saved.index_eq (hsaved : Saved s n) (hindex : s.frameIndex ≠ 0) :
    s.frameIndex = s.firstSavedFrameState + n ∧ s.firstSavedFrameState + n < 2 ^ 64 := by
  have hfits := hsaved.fits
  have hmod := hsaved.index
  by_cases hlt : s.firstSavedFrameState + n < 2 ^ 64
  · rw [hmod, Nat.mod_eq_of_lt hlt]
    exact ⟨rfl, hlt⟩
  · have heq : s.firstSavedFrameState + n = 2 ^ 64 := by omega
    rw [heq, Nat.mod_self] at hmod
    exact absurd hmod hindex

/-- The other fields do not matter. -/
theorem Inv.of_eq (hinv : Inv s) (hstyle : s'.syncStyle = s.syncStyle) (hindex : s'.frameIndex = s.frameIndex)
    (hfirst : s'.firstSavedFrameState = s.firstSavedFrameState) (hframes : s'.frameStates = s.frameStates)
    (hslot : s.hasSlot = true → s'.hasSlot = true) : Inv s' := by
  refine ⟨hstyle.trans hinv.syncStyle, hindex ▸ hinv.frameIndex_lt, ?_⟩
  rw [hfirst, hframes]
  obtain hnone | ⟨n, hsaved⟩ := hinv.frames
  · exact .inl hnone
  · refine .inr ⟨n, hslot hsaved.hasSlot, ?_, hsaved.pos, hsaved.le, ?_, ?_, ?_⟩
    · rw [hfirst]
      exact hsaved.first_pos
    · rw [hfirst]
      exact hsaved.fits
    · rw [hframes, hfirst]
      exact hsaved.frames
    · rw [hindex, hfirst]
      exact hsaved.index

theorem maxBacklog_ge (s : State) : maxSavedClientFrames ≤ s.maxBacklog := by
  unfold State.maxBacklog
  split
  · exact Nat.le_trans (by decide) (Nat.le_max_left _ _)
  · exact Nat.le_max_left _ _

/-- A later frame is saved, and as many as there is place for. -/
theorem saveFrame_saved (hsaved : Saved s n) (hindex : s.frameIndex ≠ 0) :
    s.saveFrame = some { s with
      firstSavedFrameState := s.firstSavedFrameState + (n - (s.maxBacklog - 2))
      frameStates := List.range' (s.firstSavedFrameState + (n - (s.maxBacklog - 2)))
        (min n (s.maxBacklog - 2) + 1) } := by
  have hpos := hsaved.pos
  obtain ⟨hnext, hlt⟩ := hsaved.index_eq hindex
  have hsub := @sub_eq s.frameIndex s.firstSavedFrameState (by omega) (by omega)
  have hmax : 2 ≤ s.maxBacklog := Nat.le_trans (by decide) (maxBacklog_ge s)
  have herase := @eraseOld_range' s.firstSavedFrameState n (sub s.frameIndex s.firstSavedFrameState + 1) _ hmax
    hlt (by omega)
  have hfirst : s.firstSavedFrameState ≠ 0 := Nat.pos_iff_ne_zero.1 hsaved.first_pos
  rw [State.saveFrame, if_pos hfirst, hsaved.frames, hnext]
  rw [hnext] at herase
  rw [herase, Option.map_some]
  have hnewest : s.firstSavedFrameState + n =
      s.firstSavedFrameState + (n - (s.maxBacklog - 2)) + min n (s.maxBacklog - 2) := by omega
  dsimp only
  rw [hnewest, emplace_range']

/-- How many of the frames are kept for the next one. -/
theorem kept_frames (hsaved : Saved s n) :
    (5000 < s.lastSeen → min n (s.maxBacklog - 2) = min n (maxSavedClientFramesWorstCase - 2)) ∧
      (s.lastSeen ≤ 5000 → min n (s.maxBacklog - 2) + 1 ≤ max n (maxSavedClientFrames - 1)) ∧
      0 < min n (s.maxBacklog - 2) ∧ min n (s.maxBacklog - 2) + 1 ≤ maxSavedClientFramesWorstCase - 1 := by
  have hpos := hsaved.pos
  have hle := hsaved.le
  have hlength : s.frameStates.length = n := by
    rw [hsaved.frames, List.length_range']
  have hconst : maxSavedClientFrames = 650 ∧ maxSavedClientFramesWorstCase = 4000 := by decide
  have hbacklog : s.maxBacklog =
      max (if 5000 < s.lastSeen then maxSavedClientFramesWorstCase else maxSavedClientFrames) (sub n 2) := by
    rw [State.maxBacklog, hlength]
  have hsub : sub n 2 = if n = 1 then 2 ^ 64 - 1 else n - 2 := by
    split
    · rename_i hone
      rw [hone]
      decide
    · exact sub_eq (by omega) (by omega)
  rw [hsub] at hbacklog
  by_cases hseen : 5000 < s.lastSeen
  · rw [if_pos hseen] at hbacklog
    refine ⟨fun _ => ?_, fun hle => absurd hseen (Nat.not_lt.2 hle), ?_, ?_⟩ <;> split at hbacklog <;> omega
  · rw [if_neg hseen] at hbacklog
    refine ⟨fun h => absurd h hseen, fun _ => ?_, ?_, ?_⟩ <;> split at hbacklog <;> omega

theorem tick_of_slot (hstyle : s.syncStyle = .NAK) (hslot : s.hasSlot = true) :
    s.tick false = s.saveFrame.map fun s => { s with frameIndex := (s.frameIndex + 1) % 2 ^ 64 } := by
  obtain ⟨syncStyle, frameIndex, now, hasSlot, lastSeen, firstSavedFrameState, frameStates, dropped⟩ := s
  dsimp only at hstyle hslot
  subst hstyle
  subst hslot
  rfl

theorem tick_without_slot (hslot : ¬ s.hasSlot = true) :
    s.tick false = some { s with syncStyle := .NAK, frameIndex := (s.frameIndex + 1) % 2 ^ 64 } := by
  unfold State.tick
  dsimp only
  rw [if_neg hslot]
  rfl

/-- A tick in NAK mode of a client that has a slot. -/
theorem tick_cases (hinv : Inv s) (hindex : s.frameIndex ≠ 0) (hslot : s.hasSlot = true) :
    ∃ s', s.tick false = some s' ∧ s'.lastSeen = s.lastSeen ∧ s'.now = s.now ∧ s'.syncStyle = .NAK ∧
      s'.hasSlot = true ∧ s'.frameIndex = (s.frameIndex + 1) % 2 ^ 64 ∧ s'.dropped = s.dropped ∧
      ((s.frameStates = [] ∧ s'.firstSavedFrameState = s.frameIndex ∧ s'.frameStates = [s.frameIndex]) ∨
        ∃ n, Saved s n ∧ s'.firstSavedFrameState = s.firstSavedFrameState + (n - (s.maxBacklog - 2)) ∧
          s'.frameStates = List.range' s'.firstSavedFrameState (min n (s.maxBacklog - 2) + 1)) := by
  have hstyle := hinv.syncStyle
  rw [tick_of_slot hstyle hslot]
  obtain ⟨hfirst, hempty⟩ | ⟨n, hsaved⟩ := hinv.frames
  · rw [State.saveFrame, if_neg (not_not_intro hfirst), Option.map_some, hempty]
    exact ⟨_, rfl, rfl, rfl, hstyle, hslot, rfl, rfl, .inl ⟨rfl, rfl, rfl⟩⟩
  · rw [saveFrame_saved hsaved hindex, Option.map_some]
    exact ⟨_, rfl, rfl, rfl, hstyle, hslot, rfl, rfl, .inr ⟨n, hsaved, rfl, rfl⟩⟩

/-- A NAck changes nothing but what it drops the client for. -/
theorem gameStateNAck_same {missing : Option (net.Value 8 × net.Value 8)} {thisFrame : net.Value 8}
    (h : s.gameStateNAck missing thisFrame = some s') : s' = { s with dropped := s'.dropped } := by
  have hthis : s.findThis thisFrame = { s with dropped := (s.findThis thisFrame).dropped } := by
    unfold State.findThis
    split <;> rfl
  unfold State.gameStateNAck at h
  split at h
  · cases h
    rfl
  split at h
  · cases h
    rfl
  split at h
  · obtain ⟨found, -, hfound⟩ := Option.map_eq_some_iff.1 h
    subst hfound
    split
    · exact hthis
    · rfl
  · cases h
    exact hthis

/-- A step in NAK mode. -/
theorem Inv.step (hinv : Inv s) {a : Action} (hmode : NAKMode s a) (htake : step s a = some s') : Inv s' := by
  have hstyle := hinv.syncStyle
  cases a with
  | wait time =>
    cases htake
    exact hinv.of_eq rfl rfl rfl rfl id
  | touch =>
    cases htake
    exact hinv.of_eq rfl rfl rfl rfl id
  | assignSlot =>
    cases htake
    exact hinv.of_eq rfl rfl rfl rfl fun _ => rfl
  | tick oneSyncARQ =>
    obtain ⟨rfl, hindex⟩ := hmode
    by_cases hslot : s.hasSlot = true
    · obtain ⟨s₁, htick, -, -, hstyle₁, hslot₁, hindex₁, -, hframes⟩ := tick_cases hinv hindex hslot
      obtain rfl : s₁ = s' := Option.some.inj (htick.symm.trans htake)
      refine ⟨hstyle₁, ?_, .inr ?_⟩
      · rw [hindex₁]
        exact Nat.mod_lt _ (Nat.two_pow_pos 64)
      obtain ⟨-, hfirst, hnew⟩ | ⟨n, hsaved, hfirst, hnew⟩ := hframes
      · have hlt := hinv.frameIndex_lt
        refine ⟨1, hslot₁, by omega, Nat.one_pos, by decide, by omega, ?_, ?_⟩
        · rw [hnew, hfirst]
          rfl
        · rw [hindex₁, hfirst]
      · obtain ⟨-, -, hpos, hle⟩ := kept_frames hsaved
        obtain ⟨hnext, hlt⟩ := hsaved.index_eq hindex
        have hfirst_pos := hsaved.first_pos
        refine ⟨_, hslot₁, by omega, Nat.succ_pos _, hle, by omega, hnew, ?_⟩
        rw [hindex₁, hnext, hfirst]
        congr 1
        omega
    · obtain hnone | ⟨n, hsaved⟩ := hinv.frames
      · obtain rfl := Option.some.inj ((tick_without_slot hslot).symm.trans htake)
        exact ⟨rfl, Nat.mod_lt _ (Nat.two_pow_pos 64), .inl hnone⟩
      · exact absurd hsaved.hasSlot hslot
  | gameStateAck frameIndex =>
    have hreturn : s.gameStateAck frameIndex = s := by
      rw [State.gameStateAck, if_pos]
      rw [hstyle]
      decide
    obtain rfl := Option.some.inj ((congrArg some hreturn).symm.trans htake)
    exact hinv
  | gameStateNAck missing thisFrame =>
    rw [gameStateNAck_same htake]
    exact hinv.of_eq rfl rfl rfl rfl id

theorem inv_init : Inv init := ⟨rfl, by decide, .inl ⟨rfl, rfl⟩⟩

theorem inv_of_run {acts : List Action} (hrun : Run step NAKMode init acts s) : Inv s :=
  hrun.invariant Inv inv_init fun hinv hmode htake => hinv.step hmode htake

/-- The client has been heard of in the last five seconds. -/
def Responsive (s : State) : Prop := s.now - s.lastSeen ≤ 5000

/-- The frames that are saved after a tick. -/
structure TickKeeps (s s' : State) : Prop where
  interval : ∀ frame, frame ∈ s'.frameStates ↔ s'.firstSavedFrameState ≤ frame ∧ frame ≤ s.frameIndex
  built : s.frameIndex ∈ s'.frameStates
  bounded : s'.frameStates.length ≤ maxSavedClientFramesWorstCase + 1
  shrinks : Responsive s → maxSavedClientFrames < s.frameStates.length → s'.frameStates.length ≤ s.frameStates.length

/-- The client has been silent, or the server had been up for five seconds at most when it was heard of, or the
number of its frames is not one that grows. -/
def Shrinks (s : State) : Prop :=
  Responsive s → s.lastSeen ≤ 5000 ∨ s.frameStates.length ≤ maxSavedClientFrames ∨
    maxSavedClientFramesWorstCase - 1 ≤ s.frameStates.length

theorem tickKeeps_iff (hinv : Inv s) (hindex : s.frameIndex ≠ 0) (hslot : s.hasSlot = true)
    (htick : s.tick false = some s') :
    TickKeeps s s' ↔ Shrinks s := by
  obtain ⟨s₁, htick₁, -, -, -, -, -, -, hframes⟩ := tick_cases hinv hindex hslot
  obtain rfl : s₁ = s' := Option.some.inj (htick₁.symm.trans htick)
  have hconst : maxSavedClientFrames = 650 ∧ maxSavedClientFramesWorstCase = 4000 := by decide
  obtain ⟨hempty, hfirst, hnew⟩ | ⟨n, hsaved, hfirst, hnew⟩ := hframes
  · have hlength : s.frameStates.length = 0 := by
      rw [hempty, List.length_nil]
    refine iff_of_true ⟨?_, ?_, ?_, ?_⟩ fun _ => .inr (.inl (by omega))
    · intro frame
      rw [hnew, hfirst, List.mem_singleton]
      omega
    · rw [hnew]
      exact List.mem_singleton_self _
    · rw [hnew, List.length_singleton]
      omega
    · intro _ hmany
      omega
  · obtain ⟨hworst, hnormal, -, hle⟩ := kept_frames hsaved
    obtain ⟨hnext, -⟩ := hsaved.index_eq hindex
    have hlength : s.frameStates.length = n := by
      rw [hsaved.frames, List.length_range']
    have hlength₁ : s₁.frameStates.length = min n (s.maxBacklog - 2) + 1 := by
      rw [hnew, List.length_range']
    have hlast : s₁.firstSavedFrameState + min n (s.maxBacklog - 2) = s.frameIndex := by
      rw [hfirst]
      clear hworst hnormal hlength₁ hconst
      omega
    have hmem : ∀ frame, frame ∈ s₁.frameStates ↔ s₁.firstSavedFrameState ≤ frame ∧ frame ≤ s.frameIndex := by
      intro frame
      rw [hnew, List.mem_range'_1, ← hlast, ← Nat.add_assoc, Nat.lt_succ_iff]
    constructor
    · intro hkeeps hresponsive
      have hshrinks := hkeeps.shrinks hresponsive
      rw [hlength, hlength₁] at hshrinks
      rw [hlength]
      by_cases hseen : s.lastSeen ≤ 5000
      · exact .inl hseen
      · rw [hworst (Nat.lt_of_not_le hseen)] at hshrinks
        omega
    · intro hshrinks
      refine ⟨hmem, (hmem _).2 (by omega), by omega, fun hresponsive hmany => ?_⟩
      rw [hlength] at hmany
      rw [hlength, hlength₁]
      obtain hseen | hfew | hfull := hshrinks hresponsive
      · have hkept := hnormal hseen
        omega
      · omega
      · omega

/-- A frame that is saved does not count among those before it. -/
theorem countP_pred_lt {frameStates : List Nat} {frame : Nat} (hpos : 1 ≤ frame) (hmem : frame ∈ frameStates) :
    frameStates.countP (· ≤ frame - 1) < frameStates.countP (· ≤ frame) := by
  have hmono : ∀ l : List Nat, l.countP (· ≤ frame - 1) ≤ l.countP (· ≤ frame) := by
    intro l
    apply List.countP_mono_left
    intro other _ hle
    have hle' := of_decide_eq_true hle
    exact decide_eq_true (by omega)
  obtain ⟨before, after, rfl⟩ := List.append_of_mem hmem
  have hbefore := hmono before
  have hafter := hmono after
  have hout : ¬ frame ≤ frame - 1 := by omega
  rw [List.countP_append, List.countP_append, List.countP_cons, List.countP_cons]
  simp only [hout, decide_false, Bool.false_eq_true, if_false, Nat.le_refl, decide_true, if_true]
  omega

/-- While frame 0 is not saved, the loop over the missing frames ends. -/
theorem findMissing_ends {frameStates : List Nat} (hzero : 0 ∉ frameStates) (firstMissingFrame : Nat) {frame : Nat}
    (hframe : frame < 2 ^ 64) (hfuel : frameStates.countP (· ≤ frame) < fuel) :
    ∃ found, findMissing frameStates firstMissingFrame fuel frame = some found := by
  induction fuel generalizing frame with
  | zero => exact absurd hfuel (Nat.not_lt_zero _)
  | succ fuel ih =>
    rw [findMissing]
    by_cases hfirst : firstMissingFrame ≤ frame
    · rw [if_pos hfirst]
      by_cases hmem : frame ∈ frameStates
      · rw [if_pos hmem]
        have hpos : 1 ≤ frame := Nat.pos_of_ne_zero fun h => hzero (h ▸ hmem)
        rw [sub_eq hpos hframe]
        refine ih (by omega) ?_
        have hcount := countP_pred_lt hpos hmem
        omega
      · rw [if_neg hmem]
        exact ⟨false, rfl⟩
    · rw [if_neg hfirst]
      exact ⟨true, rfl⟩

/-- What is between two saved frames is found. -/
theorem findMissing_within {frameStates : List Nat} {firstMissingFrame frame : Nat} (hframe : frame < 2 ^ 64)
    (hpos : 0 < firstMissingFrame)
    (hwithin : ∀ missing, firstMissingFrame ≤ missing → missing ≤ frame → missing ∈ frameStates)
    {found : Bool} (h : findMissing frameStates firstMissingFrame fuel frame = some found) : found = true := by
  induction fuel generalizing frame with
  | zero => cases h
  | succ fuel ih =>
    rw [findMissing] at h
    by_cases hfirst : firstMissingFrame ≤ frame
    · rw [if_pos hfirst, if_pos (hwithin frame hfirst (Nat.le_refl _)), sub_eq (by omega) hframe] at h
      exact ih (by omega) (fun missing hlow hhigh => hwithin missing hlow (by omega)) h
    · rw [if_neg hfirst] at h
      exact (Option.some.inj h).symm

/-- A NAck is handled. One with a range within the saved frames goes by its own frame only, and drops nobody if that
one is saved. -/
structure NAckKeeps (s : State) : Prop where
  ends : ∀ missing thisFrame, ∃ s', s.gameStateNAck missing thisFrame = some s'
  within : ∀ firstMissingFrame lastMissingFrame : net.Value 8, firstMissingFrame.toNat ∈ s.frameStates →
    lastMissingFrame.toNat ∈ s.frameStates → ∀ thisFrame,
      s.gameStateNAck (some (firstMissingFrame, lastMissingFrame)) thisFrame = s.gameStateNAck none thisFrame ∧
        (thisFrame.toNat ∈ s.frameStates →
          s.gameStateNAck (some (firstMissingFrame, lastMissingFrame)) thisFrame = some s)

theorem nackKeeps (hinv : Inv s) : NAckKeeps s := by
  have hzero : 0 ∉ s.frameStates := by
    obtain ⟨-, hempty⟩ | ⟨n, hsaved⟩ := hinv.frames
    · rw [hempty]
      exact List.not_mem_nil
    · rw [hsaved.frames, List.mem_range'_1]
      have hpos := hsaved.first_pos
      omega
  have hends : ∀ firstMissingFrame lastMissingFrame : net.Value 8, ∃ found,
      findMissing s.frameStates firstMissingFrame.toNat (s.frameStates.length + 1) lastMissingFrame.toNat =
        some found :=
    fun firstMissingFrame lastMissingFrame =>
      findMissing_ends hzero _ lastMissingFrame.isLt (Nat.lt_succ_of_le List.countP_le_length)
  refine ⟨fun missing thisFrame => ?_, fun firstMissingFrame lastMissingFrame hfirst hlast thisFrame => ?_⟩
  · unfold State.gameStateNAck
    split
    · exact ⟨s, rfl⟩
    split
    · exact ⟨s, rfl⟩
    split
    · rename_i firstMissingFrame lastMissingFrame
      obtain ⟨found, hfound⟩ := hends firstMissingFrame lastMissingFrame
      rw [hfound]
      exact ⟨_, rfl⟩
    · exact ⟨_, rfl⟩
  · have hwithin : ∀ missing, firstMissingFrame.toNat ≤ missing → missing ≤ lastMissingFrame.toNat →
        missing ∈ s.frameStates := by
      obtain ⟨-, hempty⟩ | ⟨n, hsaved⟩ := hinv.frames
      · rw [hempty] at hfirst
        exact absurd hfirst List.not_mem_nil
      · intro missing hlow hhigh
        rw [hsaved.frames, List.mem_range'_1] at *
        omega
    have hpos : 0 < firstMissingFrame.toNat := Nat.pos_of_ne_zero fun h => hzero (h ▸ hfirst)
    obtain ⟨found, hfound⟩ := hends firstMissingFrame lastMissingFrame
    have htrue := findMissing_within lastMissingFrame.isLt hpos hwithin hfound
    have hsame : s.gameStateNAck (some (firstMissingFrame, lastMissingFrame)) thisFrame =
      s.gameStateNAck none thisFrame := by
      unfold State.gameStateNAck
      dsimp only
      rw [hfound, htrue]
      rfl
    refine ⟨hsame, fun hthis => ?_⟩
    rw [hsame]
    unfold State.gameStateNAck State.findThis
    rw [if_pos hthis, ite_self, ite_self]

/-- In any run in NAK mode, each tick of a client with a slot keeps the saved frames contiguous and within their
bound, and their number does not grow for a responsive client, if and only if the client was responsive within
the first five seconds of the server only, or its number of frames is out of the range that grows. NAcks are
handled as they should be in any case. -/
theorem frames_kept {acts : List Action} (hrun : Run step NAKMode init acts s) :
    (∀ s', s.hasSlot = true → s.frameIndex ≠ 0 → step s (.tick false) = some s' → (TickKeeps s s' ↔ Shrinks s)) ∧
      (∀ oneSyncARQ, NAKMode s (.tick oneSyncARQ) → ∃ s', step s (.tick oneSyncARQ) = some s') ∧ NAckKeeps s := by
  have hinv := inv_of_run hrun
  refine ⟨fun s' hslot hindex htick => tickKeeps_iff hinv hindex hslot htick, ?_, nackKeeps hinv⟩
  rintro oneSyncARQ ⟨rfl, hindex⟩
  by_cases hslot : s.hasSlot = true
  · obtain ⟨s', htick, -⟩ := tick_cases hinv hindex hslot
    exact ⟨s', htick⟩
  · exact ⟨_, tick_without_slot hslot⟩

/-- A client that is sent three frames, and asks for the first two again. -/
def missedActs : List Action :=
  [.wait 10, .assignSlot, .touch, .tick false, .wait 20, .tick false, .touch, .tick false,
    .gameStateNAck (some (1#64, 2#64)) 3#64]

theorem frames_kept_missed : ∃ s s', Run step NAKMode init missedActs s ∧ s.frameStates = [1, 2, 3] ∧
    step s (.tick false) = some s' ∧ s'.frameStates = [1, 2, 3, 4] ∧ TickKeeps s s' ∧ NAckKeeps s := by
  have hrun : Run step NAKMode init missedActs
      { frameIndex := 4, now := 30, hasSlot := true, lastSeen := 30
        firstSavedFrameState := 1, frameStates := [1, 2, 3] } :=
    .cons trivial rfl (.cons trivial rfl (.cons trivial rfl (.cons ⟨rfl, by decide⟩ rfl (.cons trivial rfl
      (.cons ⟨rfl, by decide⟩ rfl (.cons trivial rfl (.cons ⟨rfl, by decide⟩ rfl (.cons trivial rfl (.nil _)))))))))
  obtain ⟨htick, -, hnack⟩ := frames_kept hrun
  refine ⟨_, _, hrun, rfl, rfl, rfl, ?_, hnack⟩
  exact (htick _ rfl (by decide) rfl).2 fun _ => .inl (by decide)

/-- A client that sends something before every tick, 15 ms apart, after `n` more of them. -/
def busy (n : Nat) : State :=
  { frameIndex := n + 2, now := 6015 + 15 * n, hasSlot := true, lastSeen := 6015 + 15 * n, firstSavedFrameState := 1,
    frameStates := List.range' 1 (n + 1) }

/-- The steps to there: the client gets its slot, and the server has been up for six seconds. -/
def busyActs : Nat → List Action
  | 0 => [.assignSlot, .wait 6000, .wait 15, .touch, .tick false]
  | n + 1 => busyActs n ++ [.wait 15, .touch, .tick false]

theorem busy_tick (hn : n < 3998) : ∃ s, step (busy n) (.wait 15) = some s ∧ ∃ s', step s .touch = some s' ∧
    step s' (.tick false) = some (busy (n + 1)) ∧ s'.frameIndex ≠ 0 := by
  refine ⟨_, rfl, _, rfl, ?_, Nat.succ_ne_zero _⟩
  have hsaved : Saved { busy n with now := 6015 + 15 * n + 15, lastSeen := 6015 + 15 * n + 15 } (n + 1) := by
    refine ⟨rfl, Nat.one_pos, Nat.succ_pos n, ?_, ?_, rfl, ?_⟩
    · have hconst : maxSavedClientFramesWorstCase = 4000 := by decide
      omega
    · dsimp only [busy]
      omega
    · dsimp only [busy]
      omega
  have hindex : n + 2 ≠ 0 := Nat.succ_ne_zero _
  have hseen : 5000 < 6015 + 15 * n + 15 := by omega
  have hkept := (kept_frames hsaved).1 hseen
  have hconst : maxSavedClientFramesWorstCase = 4000 := by decide
  have hall : min (n + 1) (maxSavedClientFramesWorstCase - 2) = n + 1 := by omega
  have hnone : n + 1 - (State.maxBacklog { busy n with now := 6015 + 15 * n + 15, lastSeen := 6015 + 15 * n + 15 } - 2)
    = 0 := by
    omega
  have hmod : (n + 2 + 1) % 2 ^ 64 = n + 1 + 2 := Nat.mod_eq_of_lt (by omega)
  have htime : 6015 + 15 * n + 15 = 6015 + 15 * (n + 1) := by omega
  have hsave := saveFrame_saved hsaved hindex
  rw [hkept, hall, hnone] at hsave
  have htick := @tick_of_slot { busy n with now := 6015 + 15 * n + 15, lastSeen := 6015 + 15 * n + 15 } rfl rfl
  rw [hsave, Option.map_some] at htick
  refine htick.trans ?_
  simp only [busy, hmod, htime, Nat.add_zero]

theorem busy_run {n : Nat} (hn : n ≤ 3998) : Run step NAKMode init (busyActs n) (busy n) := by
  induction n with
  | zero =>
    refine .cons trivial rfl
      (.cons trivial rfl (.cons trivial rfl (.cons trivial rfl (.cons ⟨rfl, by decide⟩ ?_ (.nil _)))))
    rfl
  | succ n ih =>
    obtain ⟨s, hwait, s', htouch, htick, hindex⟩ := busy_tick (Nat.lt_of_succ_le hn)
    exact (ih (Nat.le_of_succ_le hn)).trans
      (.cons trivial hwait (.cons trivial htouch (.cons ⟨rfl, hindex⟩ htick (.nil _))))

/-- A client that was heard of just now, with more frames than it should have, gets yet another one. -/
theorem busyClient_grows :
    ∃ s s', Run step NAKMode init (busyActs 650 ++ [.wait 15, .touch]) s ∧ step s (.tick false) = some s' ∧
      Responsive s ∧ s.frameStates.length = maxSavedClientFrames + 1 ∧ s'.frameStates.length = maxSavedClientFrames +
        2 ∧ ¬ TickKeeps s s' := by
  obtain ⟨s₁, hwait, s, htouch, htick, -⟩ := @busy_tick 650 (by omega)
  have hrun : Run step NAKMode init (busyActs 650 ++ [.wait 15, .touch]) s :=
    (busy_run (by omega)).trans (.cons trivial hwait (.cons trivial htouch (.nil _)))
  cases hwait
  cases htouch
  have hlength : (busy 650).frameStates.length = maxSavedClientFrames + 1 := List.length_range'
  have hlength' : (busy 651).frameStates.length = maxSavedClientFrames + 2 := List.length_range'
  have hresponsive : Responsive { busy 650 with now := (busy 650).now + 15, lastSeen := (busy 650).now + 15 } := by
    exact Nat.le_trans (Nat.le_of_eq (Nat.sub_self _)) (Nat.zero_le _)
  refine ⟨_, _, hrun, htick, hresponsive, hlength, hlength', fun hkeeps => ?_⟩
  have hshrinks := hkeeps.shrinks hresponsive (by rw [hlength]; omega)
  rw [hlength', hlength] at hshrinks
  omega

/-- The frames from a later one on. -/
theorem filter_range' {a b : Nat} (h : n = a + b) :
    (List.range' first n).filter (fun frame => first + a ≤ frame) = List.range' (first + a) b := by
  have hold : (List.range' first a).filter (fun frame => first + a ≤ frame) = [] := by
    rw [List.filter_eq_nil_iff]
    intro frame hmem
    rw [List.mem_range'_1] at hmem
    simp only [decide_eq_true_eq]
    omega
  have hkept : (List.range' (first + a) b).filter (fun frame => first + a ≤ frame) = List.range' (first + a) b := by
    rw [List.filter_eq_self]
    intro frame hmem
    exact decide_eq_true (List.mem_range'_1.1 hmem).1
  rw [h, ← List.range'_append_1, List.filter_append, hold, hkept, List.nil_append]

/-- The saved frames of a client of the whole game state are these. -/
theorem client_saveFrame (client : Client) (ces : ClientEntityState) (hinv : Inv s) (hindex : s.frameIndex ≠ 0)
    (hfirst : client.firstSavedFrameState = s.firstSavedFrameState)
    (hframes : client.frameStates.map Prod.fst = s.frameStates)
    (hsave : s.saveFrame = some s') :
    (client.saveFrame s.frameIndex (5000 < s.lastSeen) ces).firstSavedFrameState = s'.firstSavedFrameState ∧
      (client.saveFrame s.frameIndex (5000 < s.lastSeen) ces).frameStates.map Prod.fst = s'.frameStates := by
  obtain ⟨hzero, hempty⟩ | ⟨n, hsaved⟩ := hinv.frames
  · rw [State.saveFrame, if_neg (not_not_intro hzero)] at hsave
    cases hsave
    rw [hzero] at hfirst
    rw [hempty, List.map_eq_nil_iff] at hframes
    simp [Client.saveFrame, hfirst, hframes, hempty, emplace]
  · have hlength : client.frameStates.length = n := by
      rw [← List.length_map, hframes, hsaved.frames, List.length_range']
    have hlength' : s.frameStates.length = n := by
      rw [hsaved.frames, List.length_range']
    have hle := hsaved.le
    have hconst : maxSavedClientFramesWorstCase = 4000 := by decide
    have hbacklog : max (if decide (5000 < s.lastSeen) = true then maxSavedClientFramesWorstCase
        else maxSavedClientFrames) ((client.frameStates.length + (2 ^ 64 - 2)) % 2 ^ 64) = s.maxBacklog := by
      unfold State.maxBacklog sub
      rw [hlength, hlength']
      have hwrap : n + (2 ^ 64 - 2) = n + 2 ^ 64 - 2 := by omega
      simp only [hwrap, decide_eq_true_eq]
    obtain ⟨hnext, -⟩ := hsaved.index_eq hindex
    have hpos := hsaved.first_pos
    have hmax := maxBacklog_ge s
    have hmin : 650 ≤ s.maxBacklog := hmax
    rw [saveFrame_saved hsaved hindex] at hsave
    cases hsave
    have hnonzero : ¬ client.firstSavedFrameState = 0 := by omega
    have hnew : (if s.maxBacklog - 1 ≤ s.frameIndex - client.firstSavedFrameState then s.frameIndex + 2 - s.maxBacklog
        else client.firstSavedFrameState) = s.firstSavedFrameState + (n - (s.maxBacklog - 2)) := by
      split <;> omega
    unfold Client.saveFrame
    simp only [hbacklog, if_neg hnonzero, hnew]
    refine ⟨trivial, ?_⟩
    have hfilter := List.filter_map (f := Prod.fst) (p := fun frame => decide (s.firstSavedFrameState +
      (n - (s.maxBacklog - 2)) ≤ frame)) (l := client.frameStates)
    rw [hframes, hsaved.frames] at hfilter
    have hkept := @filter_range' s.firstSavedFrameState n (n - (s.maxBacklog - 2))
      (min n (s.maxBacklog - 2)) (by omega)
    rw [hkept] at hfilter
    have hlast : s.frameIndex =
        s.firstSavedFrameState + (n - (s.maxBacklog - 2)) + min n (s.maxBacklog - 2) := by omega
    rw [List.map_append, List.map_singleton, List.range'_1_concat, hfilter, hlast]
    rfl

end fx.FrameBacklog
