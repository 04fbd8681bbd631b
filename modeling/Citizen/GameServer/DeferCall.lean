import Citizen.Lib.Transition

open Transition

namespace fx.DeferCallbacks

/-- An entry of `m_deferCallbacks`: it is free at time 0. -/
structure Slot where
  due : Int := 0
  fn : Option Nat := none
  deriving DecidableEq

/-- What `DeferCall` was asked for: the time, and the first frame after it. -/
structure Call where
  due : Nat
  first : Nat

/-- The walk of a frame over the entries: those that it started with, those it has been at, and the one whose
callback runs. -/
structure Walk where
  size : Nat
  visited : List Nat := []
  running : Option Nat := none

/-- The times of all frames, the calls, and the frames in which callbacks were run are there for the record. A
callback is the index of its call. -/
structure State where
  serverTime : Nat
  deferCallbacks : List Slot := []
  walk : Option Walk := none
  frames : List Nat := []
  calls : List Call := []
  runs : List (Nat × Nat) := []

/-- Any free entry may be the first one that is found, and entries may come in any order; those that are inserted
during the walk may be part of it or not. -/
inductive Action
  | deferCall (inMsec : Int) (slot : Option Nat)
  | processServerFrame (frameTime : Int)
  | visit (k : Nat)
  | returned
  | endFrame

/-- The conversion to `int`. -/
def toInt (a : Int) : Int := (a + 2 ^ 31) % 2 ^ 32 - 2 ^ 31

/-- The conversion to `uint64_t`. -/
def toUInt64 (a : Int) : Nat := (a % 2 ^ 64).toNat

namespace State

variable (s : State)

def deferCall (inMsec : Int) (slot : Option Nat) : Option State :=
  let cb : Slot := { due := toInt (s.serverTime + inMsec), fn := some s.calls.length }
  let calls := s.calls ++ [{ due := (s.serverTime + inMsec).toNat, first := s.frames.length }]
  match slot with
  | some k =>
    if s.deferCallbacks[k]?.any (·.due = 0) then some { s with deferCallbacks := s.deferCallbacks.set k cb, calls }
      else none
  | none =>
    if s.deferCallbacks.all (·.due ≠ 0) then some { s with deferCallbacks := s.deferCallbacks ++ [cb], calls }
      else none

/-- The start of a frame. -/
def processServerFrame (frameTime : Int) : Option State :=
  if s.walk.isNone then
    let serverTime := toUInt64 (s.serverTime + frameTime)
    some { s with serverTime, walk := some { size := s.deferCallbacks.length }, frames := s.frames ++ [serverTime] }
  else none

/-- The walk comes to an entry. -/
def visit (k : Nat) : Option State :=
  match s.walk, s.deferCallbacks[k]? with
  | some w, some cb =>
    if w.running.isNone ∧ k ∉ w.visited then
      let w := { w with visited := k :: w.visited }
      if cb.due = 0 then some { s with walk := some w }
      else if toUInt64 cb.due ≤ s.serverTime then
        some { s with
          walk := some { w with running := some k }
          runs := s.runs ++ cb.fn.toList.map fun id => (id, s.frames.length - 1) }
      else some { s with walk := some w }
    else none
  | _, _ => none

/-- The callback returns, and its entry is free. -/
def returned : Option State :=
  match s.walk with
  | some w =>
    w.running.map fun k =>
      { s with deferCallbacks := s.deferCallbacks.set k {}, walk := some { w with running := none } }
  | none => none

/-- The end of the walk. -/
def endFrame : Option State :=
  match s.walk with
  | some w => if w.running.isNone ∧ ∀ k < w.size, k ∈ w.visited then some { s with walk := none } else none
  | none => none

/-- The frames in which a callback was run. -/
def runsOf (id : Nat) : List Nat := (s.runs.filter (·.1 = id)).map Prod.snd

/-- The first frame after the call whose time has reached the call's. -/
def dueFrame (call : Call) : Option Nat :=
  (List.range s.frames.length).find? fun n => call.first ≤ n ∧ s.frames[n]?.any (call.due ≤ ·)

end State

def step (s : State) : Action → Option State
  | .deferCall inMsec slot => s.deferCall inMsec slot
  | .processServerFrame frameTime => s.processServerFrame frameTime
  | .visit k => s.visit k
  | .returned => s.returned
  | .endFrame => s.endFrame

def init (serverTime : Nat) : State := { serverTime }

/-- Between the frames every callback has run once in its frame, and at no time it has run otherwise. -/
structure OnTime (s : State) : Prop where
  once : s.walk = none → ∀ id call, s.calls[id]? = some call → s.runsOf id = (s.dueFrame call).toList
  never : ∀ id call, s.calls[id]? = some call → s.runsOf id = [] ∨ s.runsOf id = (s.dueFrame call).toList

/-- A positive delay, to a time that is an `int`. -/
def InRange (s : State) : Action → Prop
  | .deferCall inMsec _ => 0 < inMsec ∧ s.serverTime + inMsec < 2 ^ 31
  | _ => True

instance decidableInRange (s : State) : ∀ a, Decidable (InRange s a)
  | .deferCall inMsec _ => inferInstanceAs (Decidable (0 < inMsec ∧ s.serverTime + inMsec < 2 ^ 31))
  | .processServerFrame _ => .isTrue trivial
  | .visit _ => .isTrue trivial
  | .returned => .isTrue trivial
  | .endFrame => .isTrue trivial

variable {s s' : State} {id k n : Nat} {call : Call}

theorem toInt_eq {a : Nat} (h : a < 2 ^ 31) : toInt a = a := by
  unfold toInt
  omega

theorem toUInt64_eq {a : Nat} (h : a < 2 ^ 31) : toUInt64 a = a := by
  unfold toUInt64
  omega

theorem mem_runsOf : n ∈ s.runsOf id ↔ (id, n) ∈ s.runs := by
  unfold State.runsOf
  simp

namespace State

/-- The number of frames that an entry has been through. -/
def behind (s : State) (k : Nat) : Nat :=
  if s.walk.any (fun w => decide (k < w.size ∧ k ∉ w.visited)) then s.frames.length - 1 else s.frames.length

/-- The callback of an entry is running. -/
def Running (s : State) (k : Nat) : Prop := ∃ w, s.walk = some w ∧ w.running = some k

/-- An entry holds a callback, with its time. -/
def Holds (s : State) (k id due : Nat) : Prop := s.deferCallbacks[k]? = some { due, fn := some id }

/-- A call's time is later than those of the frames from its first one to a given one. -/
def Later (s : State) (call : Call) (n : Nat) : Prop :=
  ∀ m time, call.first ≤ m → m < n → s.frames[m]? = some time → time < call.due

end State

/-- The callback has an entry, which has not been through a frame that has reached its time. -/
def Waiting (s : State) (id : Nat) (call : Call) : Prop :=
  s.runsOf id = [] ∧ ∃ k, s.Holds k id call.due ∧ s.Later call (s.behind k)

/-- The callback was run in its frame, and has no entry any more unless it is running. -/
def Done (s : State) (id : Nat) (call : Call) : Prop :=
  (∃ n time, s.runsOf id = [n] ∧ call.first ≤ n ∧ s.frames[n]? = some time ∧ call.due ≤ time ∧ s.Later call n) ∧
    ∀ k due, s.Holds k id due → s.Running k

/-- What holds in any run whose calls are in range. -/
structure Inv (s : State) : Prop where
  current : s.walk.isSome → s.frames.getLast? = some s.serverTime
  slot : ∀ k (slot : Slot), s.deferCallbacks[k]? = some slot → slot = {} ∨
    ∃ (id : Nat) (call : Call), s.calls[id]? = some call ∧ s.Holds k id call.due ∧ 0 < call.due ∧ call.due < 2 ^ 31
  unique : ∀ k k' id due due', s.Holds k id due → s.Holds k' id due' → k = k'
  ahead : ∀ (id : Nat) (call : Call), s.calls[id]? = some call → call.first ≤ s.frames.length ∧
    (call.first = s.frames.length → s.serverTime < call.due)
  known : ∀ id n, (id, n) ∈ s.runs → id < s.calls.length
  running : ∀ k, s.Running k → ∃ id due, s.Holds k id due ∧ s.runsOf id ≠ []
  call : ∀ (id : Nat) (call : Call), s.calls[id]? = some call → Waiting s id call ∨ Done s id call

theorem inv_init (serverTime : Nat) : Inv (init serverTime) where
  current h := by cases h
  slot k slot h := by simp [init] at h
  unique k k' id due due' h := by simp [init, State.Holds] at h
  ahead id call h := by simp [init] at h
  known id n h := by simp [init] at h
  running k h := by simp [init, State.Running] at h
  call id call h := by simp [init] at h

theorem behind_of_idle (hwalk : s.walk = none) (k : Nat) : s.behind k = s.frames.length := by
  simp [State.behind, hwalk]

theorem not_running_of_idle (hwalk : s.walk = none) (k : Nat) : ¬ s.Running k := by
  rintro ⟨w, hw, -⟩
  rw [hwalk] at hw
  cases hw

theorem length_frames_pos (hinv : Inv s) (hwalk : s.walk.isSome) : 0 < s.frames.length := by
  have hlast := hinv.current hwalk
  obtain hempty | hpos := Nat.eq_zero_or_pos s.frames.length
  · rw [List.length_eq_zero_iff.1 hempty] at hlast
    cases hlast
  · exact hpos

theorem running_iff {w : Walk} (hwalk : s.walk = some w) : s.Running k ↔ w.running = some k := by
  constructor
  · rintro ⟨w', hw', hk⟩
    rw [hwalk] at hw'
    cases hw'
    exact hk
  · exact fun hk => ⟨w, hwalk, hk⟩

theorem not_running {w : Walk} (hwalk : s.walk = some w) (hrunning : w.running = none) (k : Nat) : ¬ s.Running k := by
  rw [running_iff hwalk, hrunning]
  exact Option.some_ne_none k ∘ Eq.symm

/-- The frame of the walk is the last one. -/
theorem Inv.last_frame (hinv : Inv s) {w : Walk} (hwalk : s.walk = some w) :
    0 < s.frames.length ∧ s.frames[s.frames.length - 1]? = some s.serverTime := by
  have hsome : s.walk.isSome := by
    rw [hwalk]
    rfl
  refine ⟨length_frames_pos hinv hsome, ?_⟩
  rw [← List.getLast?_eq_getElem?]
  exact hinv.current hsome

theorem behind_ge (s : State) (k : Nat) : s.frames.length - 1 ≤ s.behind k := by
  unfold State.behind
  split <;> omega

/-- A walk that has been at the same entry or not at it leaves it where it is. -/
theorem behind_congr {s s' : State} {w w' : Walk} (hwalk : s.walk = some w) (hwalk' : s'.walk = some w')
    (hframes : s'.frames = s.frames) (hsize : w'.size = w.size) (hvisited : k ∈ w'.visited ↔ k ∈ w.visited) :
    s'.behind k = s.behind k := by
  simp only [State.behind, hwalk, hwalk', hframes, Option.any_some, hsize, hvisited]

theorem later_behind {s s' : State} {w w' : Walk} (hwalk : s.walk = some w) (hwalk' : s'.walk = some w')
    (hframes : s'.frames = s.frames) (hsize : w'.size = w.size) (hvisited : k ∈ w'.visited ↔ k ∈ w.visited) :
    s'.Later call (s'.behind k) ↔ s.Later call (s.behind k) := by
  rw [behind_congr hwalk hwalk' hframes hsize hvisited, State.Later, State.Later, hframes]

/-- Frames that are there stay. -/
theorem later_append {s' : State} {time : Nat} (hframes : s'.frames = s.frames ++ [time]) (hn : n ≤ s.frames.length) :
    s'.Later call n ↔ s.Later call n := by
  unfold State.Later
  refine forall_congr' fun m => forall_congr' fun time => ?_
  constructor
  · intro h hfirst hm htime
    exact h hfirst hm (by rw [hframes, List.getElem?_append_left (by omega)]; exact htime)
  · intro h hfirst hm htime
    rw [hframes, List.getElem?_append_left (by omega)] at htime
    exact h hfirst hm htime

theorem Inv.processServerFrame (hinv : Inv s) {frameTime : Int} (htake : s.processServerFrame frameTime = some s') :
    Inv s' := by
  unfold State.processServerFrame at htake
  split at htake
  · rename_i hidle
    have hwalk : s.walk = none := Option.isNone_iff_eq_none.1 hidle
    have hframes : s'.frames = s.frames ++ [toUInt64 (s.serverTime + frameTime)] := by
      cases htake
      rfl
    have hlength : s'.frames.length = s.frames.length + 1 := by
      rw [hframes, List.length_append, List.length_singleton]
    cases htake
    refine ⟨fun _ => by simp, hinv.slot, hinv.unique, ?_, hinv.known, ?_, ?_⟩
    · intro id call hcall
      obtain ⟨hle, -⟩ := hinv.ahead id call hcall
      rw [hlength]
      exact ⟨by omega, fun h => by omega⟩
    · rintro k ⟨w, hw, hk⟩
      cases hw
      cases hk
    · intro id call hcall
      obtain ⟨hnone, k, hslot, hlater⟩ | ⟨⟨n, time, hruns, hfirst, htime, hdue, hlater⟩, hslots⟩ :=
        hinv.call id call hcall
      · refine .inl ⟨hnone, k, hslot, ?_⟩
        -- its entry is among those that the walk is to visit
        have hk : k < s.deferCallbacks.length := (List.getElem?_eq_some_iff.1 hslot).1
        rw [behind_of_idle hwalk] at hlater
        have hbehind : State.behind { s with
            serverTime := toUInt64 (s.serverTime + frameTime), walk := some { size := s.deferCallbacks.length }
            frames := s.frames ++ [toUInt64 (s.serverTime + frameTime)] } k = s.frames.length := by
          simp [State.behind, hk]
        rw [hbehind, later_append hframes (Nat.le_refl _)]
        exact hlater
      · have hn : n < s.frames.length := (List.getElem?_eq_some_iff.1 htime).1
        refine .inr ⟨⟨n, time, hruns, hfirst, ?_, hdue, ?_⟩, ?_⟩
        · rw [hframes, List.getElem?_append_left hn]
          exact htime
        · rw [later_append hframes (Nat.le_of_lt hn)]
          exact hlater
        · intro k due hholds
          exact absurd (hslots k due hholds) (not_running_of_idle hwalk k)
  · cases htake

theorem Inv.endFrame (hinv : Inv s) (htake : s.endFrame = some s') : Inv s' := by
  unfold State.endFrame at htake
  split at htake
  · rename_i w hwalk
    split at htake
    · rename_i hend
      obtain ⟨hrunning, hvisited⟩ := hend
      have hidle := not_running hwalk (Option.isNone_iff_eq_none.1 hrunning)
      have hbehind : ∀ k, s.behind k = s.frames.length := by
        intro k
        rw [State.behind, hwalk, if_neg]
        intro hmust
        obtain ⟨hlt, hnew⟩ := of_decide_eq_true hmust
        exact hnew (hvisited k hlt)
      cases htake
      refine ⟨fun h => (by cases h), hinv.slot, hinv.unique, hinv.ahead, hinv.known, ?_, ?_⟩
      · rintro k ⟨w', hw', -⟩
        cases hw'
      · intro id call hcall
        obtain ⟨hnone, k, hholds, hlater⟩ | ⟨hruns, hslots⟩ := hinv.call id call hcall
        · rw [hbehind] at hlater
          exact .inl ⟨hnone, k, hholds, hlater⟩
        · exact .inr ⟨hruns, fun k due hholds => absurd (hslots k due hholds) (hidle k)⟩
    · cases htake
  · cases htake

/-- What an entry holds is one callback. -/
theorem holds_inj {k id id' due due' : Nat} (h : s.Holds k id due) (h' : s.Holds k id' due') : id = id' := by
  have heq := Option.some.inj (h.symm.trans h')
  exact Option.some.inj (congrArg Slot.fn heq)

theorem Inv.returned (hinv : Inv s) (htake : s.returned = some s') : Inv s' := by
  unfold State.returned at htake
  split at htake
  · rename_i w hwalk
    obtain ⟨k, hk, hs'⟩ := Option.map_eq_some_iff.1 htake
    have hrunning : s.Running k := ⟨w, hwalk, hk⟩
    have honly : ∀ k', s.Running k' → k' = k := fun k' hk' =>
      Option.some.inj (((running_iff hwalk).1 hk').symm.trans hk)
    obtain ⟨id₀, due₀, hholds₀, hruns₀⟩ := hinv.running k hrunning
    have hlt : k < s.deferCallbacks.length := (List.getElem?_eq_some_iff.1 hholds₀).1
    subst hs'
    have hkept : ∀ k' id due, k' ≠ k → s.Holds k' id due →
        State.Holds { s with deferCallbacks := s.deferCallbacks.set k {}, walk := some { w with running := none } } k'
          id due :=
      fun k' id due hne h => (List.getElem?_set_ne (Ne.symm hne)).trans h
    have hholds : ∀ k' id due,
        State.Holds { s with deferCallbacks := s.deferCallbacks.set k {}, walk := some { w with running := none } } k'
          id due →
        k' ≠ k ∧ s.Holds k' id due := by
      intro k' id due h
      unfold State.Holds at h
      by_cases hne : k' = k
      · subst hne
        rw [List.getElem?_set_self hlt] at h
        cases h
      · rw [List.getElem?_set_ne (Ne.symm hne)] at h
        exact ⟨hne, h⟩
    refine ⟨fun _ => hinv.current (by rw [hwalk]; rfl), ?_, ?_, hinv.ahead, hinv.known, ?_, ?_⟩
    · intro k' slot hslot
      by_cases hne : k' = k
      · subst hne
        rw [List.getElem?_set_self hlt] at hslot
        exact .inl (Option.some.inj hslot).symm
      · rw [List.getElem?_set_ne (Ne.symm hne)] at hslot
        obtain hfree | ⟨id, call, hcall, hold, hpos, hsmall⟩ := hinv.slot k' slot hslot
        · exact .inl hfree
        · exact .inr ⟨id, call, hcall, hkept k' id _ hne hold, hpos, hsmall⟩
    · intro k₁ k₂ id due due' h₁ h₂
      exact hinv.unique k₁ k₂ id due due' (hholds k₁ id due h₁).2 (hholds k₂ id due' h₂).2
    · rintro k' ⟨w', hw', hk'⟩
      cases hw'
      cases hk'
    · intro id call hcall
      obtain ⟨hnone, k', hold, hlater⟩ | ⟨hruns, hslots⟩ := hinv.call id call hcall
      · have hne : k' ≠ k := by
          rintro rfl
          rw [holds_inj hold hholds₀] at hnone
          exact hruns₀ hnone
        exact .inl ⟨hnone, k', hkept k' id _ hne hold, Iff.mpr (later_behind hwalk rfl rfl rfl Iff.rfl) hlater⟩
      · refine .inr ⟨hruns, fun k' due h => ?_⟩
        obtain ⟨hne, hold⟩ := hholds k' id due h
        exact absurd (honly k' (hslots k' due hold)) hne
  · cases htake

/-- What an entry holds is a call, at a time in range. -/
theorem Inv.holds (hinv : Inv s) {due : Nat} (h : s.Holds k id due) :
    ∃ call, s.calls[id]? = some call ∧ due = call.due ∧ 0 < due ∧ due < 2 ^ 31 := by
  obtain hfree | ⟨id', call, hcall, hholds, hpos, hlt⟩ := hinv.slot k _ h
  · cases hfree
  · have hdue : (due : Int) = call.due := congrArg Slot.due (Option.some.inj (h.symm.trans hholds))
    have hdue : due = call.due := Int.ofNat.inj hdue
    rw [holds_inj h hholds]
    exact ⟨call, hcall, hdue, hdue ▸ hpos, hdue ▸ hlt⟩

/-- The walk has come to an entry that stays. -/
theorem Inv.skip (hinv : Inv s) {w : Walk} (hwalk : s.walk = some w) (hrunning : w.running = none)
    (hlater : ∀ id due, s.Holds k id due → s.serverTime < due) :
    Inv { s with walk := some { w with visited := k :: w.visited } } := by
  have hidle := not_running hwalk hrunning
  obtain ⟨hpos, hlast⟩ := hinv.last_frame hwalk
  refine ⟨fun _ => hinv.current (by rw [hwalk]; rfl), hinv.slot, hinv.unique, hinv.ahead, hinv.known, ?_, ?_⟩
  · rintro k' ⟨w', hw', hk'⟩
    cases hw'
    rw [hrunning] at hk'
    cases hk'
  · intro id call hcall
    obtain ⟨hnone, k', hholds, hbefore⟩ | ⟨hruns, hslots⟩ := hinv.call id call hcall
    · refine .inl ⟨hnone, k', hholds, ?_⟩
      intro m time hfirst hm htime
      by_cases hlt : m < s.behind k'
      · exact hbefore m time hfirst hlt htime
      · -- the frame of the walk, which only the visited entry has now been through
        have hlt' : m < s.frames.length := (List.getElem?_eq_some_iff.1 htime).1
        have hk : k' = k := by
          by_contra hne
          exact hlt (Nat.lt_of_lt_of_eq hm (behind_congr hwalk rfl rfl rfl (by simp [hne])))
        have hm : m = s.frames.length - 1 := by
          have hge := behind_ge s k'
          omega
        rw [hm, hlast] at htime
        cases htime
        rw [hk] at hholds
        exact hlater id call.due hholds
    · exact .inr ⟨hruns, fun k' due h => absurd (hslots k' due h) (hidle k')⟩

/-- The walk has come to an entry whose time it is. -/
theorem Inv.run (hinv : Inv s) {w : Walk} {due : Nat} (hwalk : s.walk = some w) (hrunning : w.running = none)
    (hholds : s.Holds k id due) (hdue : due ≤ s.serverTime) :
    Inv { s with
      walk := some { w with visited := k :: w.visited, running := some k }
      runs := s.runs ++ [(id, s.frames.length - 1)] } := by
  have hidle := not_running hwalk hrunning
  obtain ⟨hpos, hlast⟩ := hinv.last_frame hwalk
  obtain ⟨call₀, hcall₀, rfl, -, -⟩ := hinv.holds hholds
  obtain ⟨hnone₀, k₀, hholds₀, hlater₀⟩ | ⟨-, hslots₀⟩ := hinv.call id call₀ hcall₀
  swap
  · exact absurd (hslots₀ k _ hholds) (hidle k)
  obtain rfl : k₀ = k := hinv.unique _ _ _ _ _ hholds₀ hholds
  have hruns : State.runsOf { s with
      walk := some { w with visited := k₀ :: w.visited, running := some k₀ }
      runs := s.runs ++ [(id, s.frames.length - 1)] } id = [s.frames.length - 1] := by
    unfold State.runsOf at hnone₀ ⊢
    rw [List.filter_append, List.map_append, hnone₀]
    simp
  have hothers : ∀ id', id' ≠ id → State.runsOf { s with
      walk := some { w with visited := k₀ :: w.visited, running := some k₀ }
      runs := s.runs ++ [(id, s.frames.length - 1)] } id' = s.runsOf id' := by
    intro id' hne
    unfold State.runsOf
    rw [List.filter_append, List.filter_singleton]
    simp [Ne.symm hne]
  refine ⟨fun _ => hinv.current (by rw [hwalk]; rfl), hinv.slot, hinv.unique, hinv.ahead, ?_, ?_, ?_⟩
  · intro id' n hmem
    obtain hold | hnew := List.mem_append.1 hmem
    · exact hinv.known id' n hold
    · rw [List.mem_singleton] at hnew
      cases hnew
      exact (List.getElem?_eq_some_iff.1 hcall₀).1
  · rintro k' ⟨w', hw', hk'⟩
    cases hw'
    cases hk'
    exact ⟨id, _, hholds, by rw [hruns]; exact List.cons_ne_nil _ _⟩
  · intro id' call hcall
    by_cases hid : id' = id
    · subst hid
      obtain rfl : call₀ = call := Option.some.inj (hcall₀.symm.trans hcall)
      obtain ⟨hfirst, hahead⟩ := hinv.ahead id' call₀ hcall₀
      have hreached : call₀.first ≠ s.frames.length := fun h => absurd (hahead h) (by omega)
      refine .inr ⟨⟨_, s.serverTime, hruns, by omega, hlast, hdue, ?_⟩, ?_⟩
      · intro m time hfirst hm htime
        have hbehind := behind_ge s k₀
        exact hlater₀ m time hfirst (by omega) htime
      · intro k' due h
        obtain rfl : k' = k₀ := hinv.unique _ _ _ _ _ h hholds
        exact ⟨_, rfl, rfl⟩
    · obtain ⟨hnone, k', hold, hlater⟩ | ⟨hruns', hslots⟩ := hinv.call id' call hcall
      · have hne : k' ≠ k₀ := by
          rintro rfl
          exact hid (holds_inj hold hholds)
        exact .inl ⟨(hothers id' hid).trans hnone, k', hold,
          Iff.mpr (later_behind hwalk rfl rfl rfl (by simp [hne])) hlater⟩
      · obtain ⟨n, time, hn, hrest⟩ := hruns'
        refine .inr ⟨⟨n, time, (hothers id' hid).trans hn, hrest⟩, fun k' due h => absurd (hslots k' due h) (hidle k')⟩

theorem Inv.visit (hinv : Inv s) (htake : s.visit k = some s') : Inv s' := by
  unfold State.visit at htake
  split at htake
  · rename_i w cb hwalk hcb
    split at htake
    · rename_i hvisit
      obtain ⟨hrunning, -⟩ := hvisit
      have hrunning : w.running = none := Option.isNone_iff_eq_none.1 hrunning
      have hdue : ∀ id due, s.Holds k id due → cb = { due, fn := some id } := fun id due hholds =>
        Option.some.inj (hcb.symm.trans hholds)
      dsimp only at htake
      split at htake
      · rename_i hzero
        cases htake
        refine hinv.skip hwalk hrunning fun id due hholds => ?_
        obtain ⟨-, -, -, hpos, -⟩ := hinv.holds hholds
        rw [hdue id due hholds] at hzero
        exact absurd (Int.ofNat.inj hzero) (Nat.ne_of_gt hpos)
      rename_i hnonzero
      split at htake
      · rename_i hreached
        obtain hfree | ⟨id, call, -, hholds, -, hlt⟩ := hinv.slot k cb hcb
        · rw [hfree] at hnonzero
          exact absurd rfl hnonzero
        · rw [hdue id _ hholds] at hreached htake
          rw [toUInt64_eq hlt] at hreached
          cases htake
          exact hinv.run hwalk hrunning hholds hreached
      · rename_i hreached
        cases htake
        refine hinv.skip hwalk hrunning fun id due hholds => ?_
        obtain ⟨-, -, -, -, hlt⟩ := hinv.holds hholds
        rw [hdue id due hholds, toUInt64_eq hlt] at hreached
        exact Nat.lt_of_not_le hreached
    · cases htake
  · cases htake

/-- A new call has an entry that was free or is new. The other entries stay as they are. -/
theorem Inv.insert (hinv : Inv s) {deferCallbacks : List Slot} {due : Nat} (hahead : s.serverTime < due)
    (hrange : due < 2 ^ 31) (hat : deferCallbacks[k]? = some { due, fn := some s.calls.length })
    (hothers : ∀ k', k' ≠ k → deferCallbacks[k']? = s.deferCallbacks[k']?)
    (hfree : ∀ slot, s.deferCallbacks[k]? = some slot → slot.due = 0) :
    Inv { s with deferCallbacks, calls := s.calls ++ [{ due, first := s.frames.length }] } := by
  have hnot : ∀ id due, ¬ s.Holds k id due := by
    intro id due' h
    obtain ⟨-, -, -, hpos, -⟩ := hinv.holds h
    exact absurd (Int.ofNat.inj (hfree _ h)) (Nat.ne_of_gt hpos)
  have hne : ∀ {k' id due'}, s.Holds k' id due' → k' ≠ k := fun h heq => hnot _ _ (heq ▸ h)
  have hcalls : ∀ (id : Nat) (call : Call), s.calls[id]? = some call →
      (s.calls ++ [{ due, first := s.frames.length }])[id]? = some call := fun id call h => by
    rw [List.getElem?_append_left (List.getElem?_eq_some_iff.1 h).1]
    exact h
  have hnew : (s.calls ++ [{ due, first := s.frames.length }])[s.calls.length]? =
    some { due, first := s.frames.length } :=
    List.getElem?_concat_length
  have hcases : ∀ (id : Nat) (call : Call), (s.calls ++ [{ due, first := s.frames.length }])[id]? = some call →
      s.calls[id]? = some call ∨ (id = s.calls.length ∧ call = { due, first := s.frames.length }) := by
    intro id call h
    by_cases hid : id < s.calls.length
    · rw [List.getElem?_append_left hid] at h
      exact .inl h
    · have hlt := (List.getElem?_eq_some_iff.1 h).1
      rw [List.length_append, List.length_singleton] at hlt
      obtain rfl : id = s.calls.length := by omega
      exact .inr ⟨rfl, Option.some.inj (h.symm.trans hnew)⟩
  have hkept : ∀ {k' id due'}, s.Holds k' id due' →
    deferCallbacks[k']? = some { due := (due' : Int), fn := some id } :=
    fun h => (hothers _ (hne h)).trans h
  have hold : ∀ {k' id due'}, deferCallbacks[k']? = some { due := ((due' : Nat) : Int), fn := some id } →
      s.Holds k' id due' ∨ (k' = k ∧ id = s.calls.length) := by
    intro k' id due' h
    by_cases hk : k' = k
    · rw [hk, hat] at h
      exact .inr ⟨hk, (Option.some.inj (congrArg Slot.fn (Option.some.inj h))).symm⟩
    · rw [hothers k' hk] at h
      exact .inl h
  have holdid : ∀ {k' id due'}, s.Holds k' id due' → id ≠ s.calls.length := by
    intro k' id due' h heq
    obtain ⟨call, hcall, -⟩ := hinv.holds h
    exact absurd (List.getElem?_eq_some_iff.1 hcall).1 (by omega)
  refine ⟨hinv.current, ?_, ?_, ?_, ?_, ?_, ?_⟩
  · intro k' slot hslot
    by_cases hk : k' = k
    · subst hk
      rw [hat] at hslot
      cases hslot
      exact .inr ⟨_, _, hnew, hat, Nat.lt_of_le_of_lt (Nat.zero_le _) hahead, hrange⟩
    · rw [hothers k' hk] at hslot
      obtain hempty | ⟨id, call, hcall, hholds, hpos, hlt⟩ := hinv.slot k' slot hslot
      · exact .inl hempty
      · exact .inr ⟨id, call, hcalls id call hcall, hkept hholds, hpos, hlt⟩
  · intro k₁ k₂ id due₁ due₂ h₁ h₂
    obtain h₁ | ⟨hk₁, hid₁⟩ := hold h₁ <;> obtain h₂ | ⟨hk₂, hid₂⟩ := hold h₂
    · exact hinv.unique _ _ _ _ _ h₁ h₂
    · exact absurd hid₂ (holdid h₁)
    · exact absurd hid₁ (holdid h₂)
    · exact hk₁.trans hk₂.symm
  · intro id call hcall
    obtain hcall | ⟨-, rfl⟩ := hcases id call hcall
    · exact hinv.ahead id call hcall
    · exact ⟨Nat.le_refl _, fun _ => hahead⟩
  · intro id n hmem
    have hlt := hinv.known id n hmem
    dsimp only
    rw [List.length_append]
    omega
  · intro k' hk'
    obtain ⟨id, due', hholds, hruns⟩ := hinv.running k' hk'
    exact ⟨id, due', hkept hholds, hruns⟩
  · intro id call hcall
    obtain hcall | ⟨rfl, rfl⟩ := hcases id call hcall
    · obtain ⟨hnone, k', hholds, hlater⟩ | ⟨hruns, hslots⟩ := hinv.call id call hcall
      · exact .inl ⟨hnone, k', hkept hholds, hlater⟩
      · refine .inr ⟨hruns, fun k' due' h => ?_⟩
        obtain h | ⟨-, hid⟩ := hold h
        · exact hslots k' due' h
        · exact absurd (List.getElem?_eq_some_iff.1 hcall).1 (by omega)
    · refine .inl ⟨?_, k, hat, ?_⟩
      · rw [List.eq_nil_iff_forall_not_mem]
        intro n hn
        exact absurd (hinv.known _ n (mem_runsOf.1 hn)) (Nat.lt_irrefl _)
      · intro m time hfirst hm htime
        have hlt := (List.getElem?_eq_some_iff.1 htime).1
        dsimp only at hfirst hlt
        omega

theorem Inv.deferCall (hinv : Inv s) {inMsec : Int} {slot : Option Nat} (hpos : 0 < inMsec)
    (hrange : s.serverTime + inMsec < 2 ^ 31) (htake : s.deferCall inMsec slot = some s') : Inv s' := by
  obtain ⟨due, hdue⟩ : ∃ due : Nat, s.serverTime + inMsec = due := ⟨(s.serverTime + inMsec).toNat, by omega⟩
  have hint : toInt due = due := toInt_eq (by omega)
  have hahead : s.serverTime < due := by omega
  have hlt : due < 2 ^ 31 := by omega
  unfold State.deferCall at htake
  rw [hdue] at htake
  dsimp only at htake
  rw [hint, Int.toNat_natCast] at htake
  split at htake
  · rename_i k
    split at htake
    · rename_i hfree
      cases htake
      obtain ⟨old, hold, hzero⟩ := (Option.any_eq_true _ _).1 hfree
      have hk : k < s.deferCallbacks.length := (List.getElem?_eq_some_iff.1 hold).1
      refine hinv.insert hahead hlt (List.getElem?_set_self hk) (fun k' hne => List.getElem?_set_ne (Ne.symm hne)) ?_
      intro slot hslot
      rw [hold] at hslot
      cases hslot
      exact of_decide_eq_true hzero
    · cases htake
  · split at htake
    · cases htake
      refine hinv.insert (k := s.deferCallbacks.length) hahead hlt List.getElem?_concat_length (fun k' hne => ?_) ?_
      · by_cases hk : k' < s.deferCallbacks.length
        · exact List.getElem?_append_left hk
        · rw [List.getElem?_eq_none (by rw [List.length_append, List.length_singleton]; omega),
            List.getElem?_eq_none (by omega)]
      · intro slot hslot
        rw [List.getElem?_eq_none (Nat.le_refl _)] at hslot
        cases hslot
    · cases htake

theorem inv_of_run {serverTime : Nat} {acts : List Action} (hrun : Run step InRange (init serverTime) acts s) :
    Inv s := by
  refine hrun.invariant Inv (inv_init serverTime) ?_
  intro s a s' hinv hok htake
  cases a with
  | deferCall inMsec slot => exact hinv.deferCall hok.1 hok.2 htake
  | processServerFrame frameTime => exact hinv.processServerFrame htake
  | visit k => exact hinv.visit htake
  | returned => exact hinv.returned htake
  | endFrame => exact hinv.endFrame htake

theorem dueFrame_of_done (hdone : Done s id call) : s.runsOf id = (s.dueFrame call).toList := by
  obtain ⟨⟨n, time, hruns, hfirst, htime, hdue, hlater⟩, -⟩ := hdone
  have hframe : s.dueFrame call = some n := by
    rw [State.dueFrame, List.find?_range_eq_some]
    refine ⟨?_, List.mem_range.2 (List.getElem?_eq_some_iff.1 htime).1, fun m hm => ?_⟩
    · rw [htime]
      simp [hfirst, hdue]
    · simp only [Bool.not_eq_true', decide_eq_false_iff_not, not_and]
      intro hfirst' hreached
      obtain ⟨time', htime', hdue'⟩ := (Option.any_eq_true _ _).1 hreached
      have hlt := hlater m time' hfirst' hm htime'
      have hle := of_decide_eq_true hdue'
      omega
  rw [hruns, hframe]
  rfl

theorem dueFrame_of_later (hlater : s.Later call s.frames.length) : s.dueFrame call = none := by
  rw [State.dueFrame, List.find?_eq_none]
  intro m hm hreached
  obtain ⟨hfirst, hreached⟩ := of_decide_eq_true hreached
  obtain ⟨time, htime, hdue⟩ := (Option.any_eq_true _ _).1 hreached
  have hlt := hlater m time hfirst (List.mem_range.1 hm) htime
  have hle := of_decide_eq_true hdue
  omega

/-- While the times of the calls are below 2^31, every callback runs once, in its frame. -/
theorem onTime_of_run {serverTime : Nat} {acts : List Action} (hrun : Run step InRange (init serverTime) acts s) :
    OnTime s := by
  have hinv := inv_of_run hrun
  constructor
  · intro hidle id call hcall
    obtain ⟨hnone, k, -, hlater⟩ | hdone := hinv.call id call hcall
    · rw [behind_of_idle hidle] at hlater
      rw [hnone, dueFrame_of_later hlater]
      rfl
    · exact dueFrame_of_done hdone
  · intro id call hcall
    obtain ⟨hnone, -⟩ | hdone := hinv.call id call hcall
    · exact .inl hnone
    · exact .inr (dueFrame_of_done hdone)

/-- Two calls, the second one from the first one's callback. -/
theorem onTime_of_two :
    ∃ s, Run step InRange (init 100)
      [.deferCall 50 none, .processServerFrame 60, .visit 0, .deferCall 5 none, .returned, .visit 1, .endFrame,
        .processServerFrame 5, .visit 1, .returned, .visit 0, .endFrame] s ∧
      OnTime s ∧ s.runsOf 0 = [0] ∧ s.runsOf 1 = [1] := by
  have hend : (exec (fun s a => if decide (InRange s a) then step s a else none) (init 100)
      [.deferCall 50 none, .processServerFrame 60, .visit 0, .deferCall 5 none, .returned, .visit 1, .endFrame,
        .processServerFrame 5, .visit 1, .returned, .visit 0, .endFrame]).any
      (fun s => decide (s.runsOf 0 = [0] ∧ s.runsOf 1 = [1])) = true := by decide +kernel
  obtain ⟨s, hrun, hruns⟩ := exists_checked (fun _ _ => of_decide_eq_true) hend
  exact ⟨s, hrun, onTime_of_run hrun, of_decide_eq_true hruns⟩

/-- A call at 2^31 ms of uptime never runs, and one after 2^32 ms runs at once. -/
theorem longUptime_offTime :
    (∃ s, Run step (fun _ _ => True) (init (2 ^ 31 - 1000))
      [.deferCall 1000 none, .processServerFrame 1000, .visit 0, .endFrame] s ∧ ¬ OnTime s ∧ s.runsOf 0 = []) ∧
      ∃ s, Run step (fun _ _ => True) (init (2 ^ 32))
        [.deferCall 1000 none, .processServerFrame 1, .visit 0, .returned, .endFrame] s ∧ ¬ OnTime s ∧
          s.runsOf 0 = [0] := by
  have hoff : ∀ s : State, s.walk.isNone ∧
      s.calls[0]?.any (fun call => decide (s.runsOf 0 ≠ (s.dueFrame call).toList)) → ¬ OnTime s := by
    rintro s ⟨hidle, hany⟩ hon
    obtain ⟨call, hcall, hne⟩ := (Option.any_eq_true _ _).1 hany
    exact of_decide_eq_true hne (hon.once (Option.isNone_iff_eq_none.1 hidle) 0 call hcall)
  have hlate : (exec step (init (2 ^ 31 - 1000))
      [.deferCall 1000 none, .processServerFrame 1000, .visit 0, .endFrame]).any
        (fun s => decide ((s.walk.isNone ∧
          s.calls[0]?.any (fun call => decide (s.runsOf 0 ≠ (s.dueFrame call).toList))) ∧ s.runsOf 0 = [])) = true :=
            by decide +kernel
  have hearly : (exec step (init (2 ^ 32))
      [.deferCall 1000 none, .processServerFrame 1, .visit 0, .returned, .endFrame]).any
      (fun s => decide ((s.walk.isNone ∧
        s.calls[0]?.any (fun call => decide (s.runsOf 0 ≠ (s.dueFrame call).toList))) ∧ s.runsOf 0 = [0])) = true := by
          decide +kernel
  obtain ⟨s₁, hrun₁, htest₁⟩ := exists_run hlate
  obtain ⟨s₂, hrun₂, htest₂⟩ := exists_run hearly
  obtain ⟨hoff₁, hruns₁⟩ := of_decide_eq_true htest₁
  obtain ⟨hoff₂, hruns₂⟩ := of_decide_eq_true htest₂
  exact ⟨⟨s₁, hrun₁, hoff s₁ hoff₁, hruns₁⟩, s₂, hrun₂, hoff s₂ hoff₂, hruns₂⟩

end fx.DeferCallbacks
