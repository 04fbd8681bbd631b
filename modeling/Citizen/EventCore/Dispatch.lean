import Citizen.Lib.Transition

open Transition

namespace fwEvent

/-- A node of the list. The serial number says which connection made it. -/
structure Callback where
  order : Int
  serial : Nat
  deriving DecidableEq

def Callback.cookie (cb : Callback) : Nat := cb.serial % 2 ^ 64

/-- What happens to a callback. -/
inductive Entry
  | called (cb : Callback)
  | removed (cb : Callback)
  deriving DecidableEq

/-- A dispatch whose `current` callback has not returned, with the node to go to then. The list at
its start and the answers that it had are there for the record. -/
structure Dispatch where
  start : List Callback
  calls : List (Callback × Bool)
  current : Callback
  next : Option Callback

/-- A dispatch that has returned `answer`, with the list at its start and at its end. -/
structure Finished where
  start : List Callback
  calls : List (Callback × Bool)
  answer : Bool
  atEnd : List Callback

/-- The dispatches are there from the innermost on. -/
structure Event where
  callbacks : List Callback := []
  connected : Nat := 0
  dispatches : List Dispatch := []
  finished : List Finished := []
  log : List Entry := []
  followed : Bool := false

/-- The loop of `ConnectInternal`. -/
def insert (cb : Callback) : List Callback → List Callback
  | [] => [cb]
  | cur :: rest => if cb.order ≥ cur.order then cur :: insert cb rest else cb :: cur :: rest

/-- What `cb->next` is in a list. -/
def successor (cb : Callback) : List Callback → Option Callback
  | [] => none
  | cur :: rest => if cur = cb then rest.head? else successor cb rest

namespace Event

variable (self : Event)

def connectInternal (func : Bool) (order : Int) : Event :=
  if !func then self
  else
    let cb : Callback := { order, serial := self.connected }
    { self with callbacks := insert cb self.callbacks, connected := self.connected + 1 }

def disconnect (cookie : Nat) : Event :=
  if cookie = 2 ^ 64 - 1 then self
  else
    match self.callbacks.find? (·.cookie = cookie) with
    | some cb => { self with callbacks := self.callbacks.erase cb, log := self.log ++ [.removed cb] }
    | none => self

def reset : Event := { self with callbacks := [], log := self.log ++ self.callbacks.map .removed }

/-- A dispatch goes to a callback of the list. -/
def enter (start : List Callback) (calls : List (Callback × Bool)) (cb : Callback) (outer : List Dispatch) : Event :=
  { self with
    dispatches := { start, calls, current := cb, next := successor cb self.callbacks } :: outer
    log := self.log ++ [.called cb] }

def leave (start : List Callback) (calls : List (Callback × Bool)) (answer : Bool) (outer : List Dispatch) : Event :=
  { self with
    dispatches := outer
    finished := self.finished ++ [{ start, calls, answer, atEnd := self.callbacks }] }

/-- `operator()`, up to its first call. -/
def dispatch : Event :=
  match self.callbacks with
  | [] => self.leave [] [] true self.dispatches
  | cb :: _ => self.enter self.callbacks [] cb self.dispatches

/-- The current callback of a dispatch returns. A node that is not in the list any more has been freed. -/
def returns (answer : Bool) (active : Dispatch) (outer : List Dispatch) : Event :=
  let calls := active.calls ++ [(active.current, answer)]
  if !answer then self.leave active.start calls false outer
  else
    match active.next with
    | none => self.leave active.start calls true outer
    | some cb => if cb ∈ self.callbacks then self.enter active.start calls cb outer else { self with followed := true }

end Event

inductive Action
  | connect (func : Bool) (order : Int)
  | disconnect (cookie : Nat)
  | reset
  | dispatch
  | returns (answer : Bool)

/-- Nothing is known of what comes after a freed node was followed. -/
def step (self : Event) (action : Action) : Option Event :=
  if self.followed then none
  else
    match action with
    | .connect func order => some (self.connectInternal func order)
    | .disconnect cookie => some (self.disconnect cookie)
    | .reset => some self.reset
    | .dispatch => some self.dispatch
    | .returns answer =>
      match self.dispatches with
      | [] => none
      | active :: outer => some (self.returns answer active outer)

/-- The order of calls. -/
def Before (a b : Callback) : Prop := a.order < b.order ∨ a.order = b.order ∧ a.serial < b.serial

/-- A finished dispatch was in order up to the first that returned `false`, and left out none of those
that stayed connected. -/
structure Complete (done : Finished) : Prop where
  ordered : done.calls.Pairwise fun a b => a.2 = true ∧ Before a.1 b.1
  covered : ∀ cb ∈ done.start, cb ∈ done.atEnd →
    cb ∈ done.calls.map Prod.fst ∨ ∃ stop, (stop, false) ∈ done.calls ∧ Before stop cb
  answer : done.answer = done.calls.all Prod.snd

/-- A dispatch that has not returned is in order. -/
structure Ordered (active : Dispatch) : Prop where
  answered : ∀ call ∈ active.calls, call.2 = true
  ordered : (active.calls.map Prod.fst ++ [active.current]).Pairwise Before

/-- Dispatch is ordered, and nothing that was removed is followed or called. -/
structure Orderly (ev : Event) : Prop where
  followed : ev.followed = false
  log : ev.log.Pairwise fun a b => ∀ cb, a = .removed cb → b ≠ .called cb
  active : ∀ active ∈ ev.dispatches, Ordered active
  finished : ∀ done ∈ ev.finished, Complete done

/-- When a callback returns `true`, the one that came after it when it was called is still connected. -/
def KeepsNext (ev : Event) : Action → Prop
  | .returns true => ∀ active ∈ ev.dispatches.head?, ∀ cb ∈ active.next, .removed cb ∉ ev.log
  | _ => True

instance (ev : Event) (action : Action) : Decidable (KeepsNext ev action) := by
  unfold KeepsNext
  split <;> infer_instance

theorem Before.trans {a b c : Callback} (hab : Before a b) (hbc : Before b c) : Before a c := by
  unfold Before at *
  omega

theorem Before.irrefl (a : Callback) : ¬ Before a a := by
  unfold Before
  omega

section List

variable {cb x n : Callback} {l : List Callback}

theorem insert_cons (cb cur : Callback) (rest : List Callback) :
    insert cb (cur :: rest) = if cb.order ≥ cur.order then cur :: insert cb rest else cb :: cur :: rest := rfl

theorem successor_cons (cb cur : Callback) (rest : List Callback) :
    successor cb (cur :: rest) = if cur = cb then rest.head? else successor cb rest := rfl

theorem mem_insert : x ∈ insert cb l ↔ x = cb ∨ x ∈ l := by
  induction l with
  | nil => exact List.mem_cons
  | cons cur rest ih =>
    rw [insert_cons]
    split
    · simp only [List.mem_cons, ih]
      tauto
    · simp only [List.mem_cons]

/-- A callback with the greatest serial number goes after those of its order. -/
theorem pairwise_insert (hsorted : l.Pairwise Before) (hfresh : ∀ x ∈ l, x.serial < cb.serial) :
    (insert cb l).Pairwise Before := by
  induction l with
  | nil => exact List.pairwise_singleton _ _
  | cons cur rest ih =>
    obtain ⟨hcur, hrest⟩ := List.pairwise_cons.mp hsorted
    rw [insert_cons]
    split
    · rename_i hge
      refine List.pairwise_cons.mpr ⟨?_, ih hrest fun x hx => hfresh x (List.mem_cons_of_mem _ hx)⟩
      intro x hx
      rcases mem_insert.mp hx with rfl | hx
      · have hserial := hfresh cur List.mem_cons_self
        unfold Before
        omega
      · exact hcur x hx
    · rename_i hlt
      have hhead : Before cb cur := Or.inl (by omega)
      refine List.pairwise_cons.mpr ⟨?_, hsorted⟩
      intro x hx
      rcases List.mem_cons.mp hx with rfl | hx
      · exact hhead
      · exact hhead.trans (hcur x hx)

theorem successor_mem (hnext : successor cb l = some n) : n ∈ l := by
  induction l with
  | nil => cases hnext
  | cons cur rest ih =>
    rw [successor_cons] at hnext
    split at hnext
    · exact List.mem_cons_of_mem _ (List.mem_of_mem_head? hnext)
    · exact List.mem_cons_of_mem _ (ih hnext)

theorem before_successor (hsorted : l.Pairwise Before) (hnext : successor cb l = some n) : Before cb n := by
  induction l with
  | nil => cases hnext
  | cons cur rest ih =>
    obtain ⟨hcur, hrest⟩ := List.pairwise_cons.mp hsorted
    rw [successor_cons] at hnext
    split at hnext
    · rename_i heq
      subst heq
      exact hcur n (List.mem_of_mem_head? hnext)
    · exact ih hrest hnext

/-- What comes after a callback of a sorted list is its successor or comes after that. -/
theorem successor_or_after (hsorted : l.Pairwise Before) (hcb : cb ∈ l) (hx : x ∈ l) (hafter : Before cb x) :
    ∃ n, successor cb l = some n ∧ (x = n ∨ Before n x) := by
  induction l with
  | nil => cases hx
  | cons cur rest ih =>
    obtain ⟨hcur, hrest⟩ := List.pairwise_cons.mp hsorted
    rw [successor_cons]
    split
    · rename_i heq
      subst heq
      have hxrest : x ∈ rest := by
        rcases List.mem_cons.mp hx with rfl | hx
        · exact absurd hafter (Before.irrefl x)
        · exact hx
      cases rest with
      | nil => cases hxrest
      | cons n rest =>
        refine ⟨n, rfl, ?_⟩
        rcases List.mem_cons.mp hxrest with rfl | hx
        · exact Or.inl rfl
        · exact Or.inr ((List.pairwise_cons.mp hrest).1 x hx)
    · rename_i hne
      have hcbrest : cb ∈ rest := (List.mem_cons.mp hcb).resolve_left (Ne.symm hne)
      have hxrest : x ∈ rest := by
        rcases List.mem_cons.mp hx with rfl | hx
        · exact absurd (hafter.trans (hcur cb hcbrest)) (Before.irrefl cb)
        · exact hx
      exact ih hrest hcbrest hxrest

end List

/-- What a dispatch relies on until its current callback returns. -/
structure Active (ev : Event) (active : Dispatch) : Prop extends Ordered active where
  begun : ∀ cb ∈ active.start, cb.serial < ev.connected
  before_next : ∀ cb ∈ active.next, Before active.current cb
  next : ∀ cb ∈ active.next, cb ∈ ev.callbacks ∨ .removed cb ∈ ev.log
  covered : ∀ cb ∈ active.start, cb ∈ ev.callbacks →
    cb ∈ active.calls.map Prod.fst ∨ cb = active.current ∨ ∃ n ∈ active.next, cb = n ∨ Before n cb

/-- The list is sorted, and nothing comes back that was removed. -/
structure Inv (ev : Event) : Prop where
  followed : ev.followed = false
  sorted : ev.callbacks.Pairwise Before
  fresh : ∀ cb ∈ ev.callbacks, cb.serial < ev.connected
  removed : ∀ cb, .removed cb ∈ ev.log → cb.serial < ev.connected ∧ cb ∉ ev.callbacks
  log : ev.log.Pairwise fun a b => ∀ cb, a = .removed cb → b ≠ .called cb
  active : ∀ active ∈ ev.dispatches, Active ev active
  finished : ∀ done ∈ ev.finished, Complete done

/-- What dispatches see of a step: callbacks that are new, and callbacks that are gone and logged. -/
structure Later (ev other : Event) : Prop where
  connected : ev.connected ≤ other.connected
  added : ∀ cb ∈ other.callbacks, cb ∈ ev.callbacks ∨ ev.connected ≤ cb.serial
  gone : ∀ cb ∈ ev.callbacks, cb ∈ other.callbacks ∨ .removed cb ∈ other.log
  log : ∀ entry ∈ ev.log, entry ∈ other.log

theorem Active.later {ev other : Event} {active : Dispatch} (h : Active ev active) (hlater : Later ev other) :
    Active other active := by
  refine { h.toOrdered with begun := ?_, before_next := h.before_next, next := ?_, covered := ?_ }
  · intro cb hcb
    exact (h.begun cb hcb).trans_le hlater.connected
  · intro cb hcb
    rcases h.next cb hcb with hhere | hremoved
    · exact hlater.gone cb hhere
    · exact Or.inr (hlater.log _ hremoved)
  · intro cb hcb hother
    rcases hlater.added cb hother with hhere | hnew
    · exact h.covered cb hcb hhere
    · have hold := h.begun cb hcb
      omega

/-- The calls of a dispatch with the answer of the last one. -/
theorem Ordered.pairwise {active : Dispatch} (h : Ordered active) (answer : Bool) :
    (active.calls ++ [(active.current, answer)]).Pairwise fun a b => a.2 = true ∧ Before a.1 b.1 := by
  obtain ⟨hcalls, _, hcross⟩ := List.pairwise_append.mp h.ordered
  refine List.pairwise_append.mpr ⟨?_, List.pairwise_singleton _ _, ?_⟩
  · exact (List.pairwise_map.mp hcalls).imp_of_mem fun ha _ hbefore => ⟨h.answered _ ha, hbefore⟩
  · intro a ha b hb
    obtain rfl := List.mem_singleton.mp hb
    exact ⟨h.answered a ha, hcross a.1 (List.mem_map_of_mem ha) _ (by simp)⟩

theorem inv_init : Inv {} := by
  constructor <;> simp

namespace Inv

variable {ev : Event}

theorem orderly (h : Inv ev) : Orderly ev :=
  { followed := h.followed
    log := h.log
    active := fun active hactive => (h.active active hactive).toOrdered
    finished := h.finished }

theorem connectInternal (h : Inv ev) (func : Bool) (order : Int) : Inv (ev.connectInternal func order) := by
  rw [Event.connectInternal]
  split
  · exact h
  · refine { h with sorted := ?_, fresh := ?_, removed := ?_, active := ?_ }
    · exact pairwise_insert h.sorted h.fresh
    · intro cb hcb
      rcases mem_insert.mp hcb with rfl | hcb
      · exact Nat.lt_succ_self _
      · exact (h.fresh cb hcb).trans (Nat.lt_succ_self _)
    · intro cb hcb
      obtain ⟨hserial, hgone⟩ := h.removed cb hcb
      refine ⟨hserial.trans (Nat.lt_succ_self _), fun hmem => ?_⟩
      rcases mem_insert.mp hmem with rfl | hmem
      · exact absurd hserial (Nat.lt_irrefl _)
      · exact hgone hmem
    · intro active hactive
      refine (h.active active hactive).later ⟨Nat.le_succ _, ?_, ?_, fun _ => id⟩
      · intro cb hcb
        rcases mem_insert.mp hcb with rfl | hcb
        · exact Or.inr le_rfl
        · exact Or.inl hcb
      · intro cb hcb
        exact Or.inl (mem_insert.mpr (Or.inr hcb))

/-- Callbacks leave the list. -/
theorem remove (h : Inv ev) {kept gone : List Callback} (hsub : kept.Sublist ev.callbacks)
    (hgone : ∀ cb, cb ∈ gone ↔ cb ∈ ev.callbacks ∧ cb ∉ kept) :
    Inv { ev with callbacks := kept, log := ev.log ++ gone.map .removed } := by
  refine { h with sorted := h.sorted.sublist hsub, fresh := ?_, removed := ?_, log := ?_, active := ?_ }
  · exact fun cb hcb => h.fresh cb (hsub.subset hcb)
  · intro cb hcb
    rcases List.mem_append.mp hcb with hold | hnew
    · exact ⟨(h.removed cb hold).1, fun hmem => (h.removed cb hold).2 (hsub.subset hmem)⟩
    · obtain ⟨hhere, hleft⟩ := (hgone cb).mp (by simpa using hnew)
      exact ⟨h.fresh cb hhere, hleft⟩
  · refine List.pairwise_append.mpr ⟨h.log, ?_, ?_⟩
    · exact List.pairwise_map.mpr (List.pairwise_of_forall (by simp))
    · intro a _ b hb cb _ hcalled
      simp [hcalled] at hb
  · intro active hactive
    refine (h.active active hactive).later ⟨le_rfl, fun cb hcb => Or.inl (hsub.subset hcb), ?_, ?_⟩
    · intro cb hcb
      by_cases hkept : cb ∈ kept
      · exact Or.inl hkept
      · refine Or.inr (List.mem_append_right _ ?_)
        exact List.mem_map_of_mem ((hgone cb).mpr ⟨hcb, hkept⟩)
    · exact fun entry hentry => List.mem_append_left _ hentry

theorem nodup (h : Inv ev) : ev.callbacks.Nodup := by
  apply h.sorted.imp
  intro a b hbefore heq
  rw [heq] at hbefore
  exact Before.irrefl b hbefore

theorem disconnect (h : Inv ev) (cookie : Nat) : Inv (ev.disconnect cookie) := by
  rw [Event.disconnect]
  split
  · exact h
  · split
    · rename_i cb hfind
      refine @remove ev h (ev.callbacks.erase cb) [cb] List.erase_sublist fun x => ?_
      have hcb := List.mem_of_find?_eq_some hfind
      rw [List.mem_singleton, h.nodup.mem_erase_iff]
      constructor
      · rintro rfl
        exact ⟨hcb, by simp⟩
      · rintro ⟨hx, hnot⟩
        by_contra hne
        exact hnot ⟨hne, hx⟩
    · exact h

theorem reset (h : Inv ev) : Inv ev.reset :=
  h.remove (List.nil_sublist _) (by simp)

/-- A dispatch goes on to a callback that is in the list and comes after those that it has called. -/
theorem enter (h : Inv ev) {start : List Callback} {calls : List (Callback × Bool)} {cb : Callback}
    {outer : List Dispatch} (hcb : cb ∈ ev.callbacks) (houter : ∀ active ∈ outer, Active ev active)
    (hbegun : ∀ x ∈ start, x.serial < ev.connected) (hanswered : ∀ call ∈ calls, call.2 = true)
    (hordered : (calls.map Prod.fst ++ [cb]).Pairwise Before)
    (hcovered : ∀ x ∈ start, x ∈ ev.callbacks → x ∈ calls.map Prod.fst ∨ x = cb ∨ Before cb x) :
    Inv (ev.enter start calls cb outer) := by
  have hlater : Later ev (ev.enter start calls cb outer) :=
    ⟨le_rfl, fun _ => Or.inl, fun _ => Or.inl, fun entry hentry => List.mem_append_left _ hentry⟩
  refine { h with removed := ?_, log := ?_, active := ?_ }
  · intro x hx
    exact h.removed x (by simpa [Event.enter] using hx)
  · refine List.pairwise_append.mpr ⟨h.log, List.pairwise_singleton _ _, ?_⟩
    intro a ha b hb x hremoved hcalled
    obtain rfl : x = cb := by simpa [hcalled] using hb
    exact (h.removed x (hremoved ▸ ha)).2 hcb
  · intro active hactive
    rcases List.mem_cons.mp hactive with rfl | hactive
    · refine {
        answered := hanswered, ordered := hordered, begun := hbegun
        before_next := ?_, next := ?_, covered := ?_ }
      · exact fun n hn => before_successor h.sorted hn
      · exact fun n hn => Or.inl (successor_mem hn)
      · intro x hx hhere
        rcases hcovered x hx hhere with hcalled | heq | hafter
        · exact Or.inl hcalled
        · exact Or.inr (Or.inl heq)
        · exact Or.inr (Or.inr (successor_or_after h.sorted hcb hhere hafter))
    · exact (houter active hactive).later hlater

theorem leave (h : Inv ev) {start : List Callback} {calls : List (Callback × Bool)} {answer : Bool}
    {outer : List Dispatch} (houter : ∀ active ∈ outer, Active ev active)
    (hdone : Complete { start, calls, answer, atEnd := ev.callbacks }) :
    Inv (ev.leave start calls answer outer) := by
  refine { h with active := ?_, finished := ?_ }
  · intro active hactive
    exact (houter active hactive).later ⟨le_rfl, fun _ => Or.inl, fun _ => Or.inl, fun _ => id⟩
  · intro done hmem
    rcases List.mem_append.mp hmem with hold | hnew
    · exact h.finished done hold
    · exact List.mem_singleton.mp hnew ▸ hdone

theorem dispatch (h : Inv ev) : Inv ev.dispatch := by
  rw [Event.dispatch]
  split
  · exact h.leave h.active ⟨List.Pairwise.nil, by simp, rfl⟩
  · rename_i cb rest hcallbacks
    refine h.enter (hcallbacks ▸ List.mem_cons_self) h.active h.fresh (by simp) (by simp) ?_
    intro x hx _
    have hsorted := h.sorted
    rw [hcallbacks] at hsorted hx
    rcases List.mem_cons.mp hx with rfl | hx
    · exact Or.inr (Or.inl rfl)
    · exact Or.inr (Or.inr ((List.pairwise_cons.mp hsorted).1 x hx))

/-- The current callback has returned `false`, or nothing comes after it. -/
theorem complete (h : Inv ev) {active : Dispatch} (hactive : active ∈ ev.dispatches) {answer : Bool}
    (hend : answer = true → active.next = none) :
    Complete {
      start := active.start, calls := active.calls ++ [(active.current, answer)], answer
      atEnd := ev.callbacks } := by
  have hrunning := h.active active hactive
  refine ⟨hrunning.pairwise answer, ?_, ?_⟩
  · intro x hx hhere
    rcases hrunning.covered x hx hhere with hcalled | rfl | ⟨n, hn, hafter⟩
    · exact Or.inl (by simpa using Or.inl hcalled)
    · exact Or.inl (by simp)
    · cases answer with
      | true => simp [hend rfl] at hn
      | false =>
        refine Or.inr ⟨active.current, by simp, ?_⟩
        have hnext := hrunning.before_next n hn
        rcases hafter with rfl | hafter
        · exact hnext
        · exact hnext.trans hafter
  · have hall := List.all_eq_true.mpr hrunning.answered
    simp [hall]

theorem returns (h : Inv ev) {active : Dispatch} {outer : List Dispatch}
    (hdispatches : ev.dispatches = active :: outer) {answer : Bool} (hkeeps : KeepsNext ev (.returns answer)) :
    Inv (ev.returns answer active outer) := by
  have hactive : active ∈ ev.dispatches := hdispatches ▸ List.mem_cons_self
  have houter : ∀ d ∈ outer, Active ev d := fun d hd => h.active d (hdispatches ▸ List.mem_cons_of_mem _ hd)
  have hrunning := h.active active hactive
  rw [Event.returns]
  cases answer with
  | false => exact h.leave houter (h.complete hactive (by simp))
  | true =>
    cases hnext : active.next with
    | none => exact h.leave houter (h.complete hactive fun _ => hnext)
    | some cb =>
      have hkept : .removed cb ∉ ev.log := hkeeps active (by simp [hdispatches]) cb hnext
      have hcb : cb ∈ ev.callbacks := (hrunning.next cb hnext).resolve_right hkept
      have hbefore := hrunning.before_next cb hnext
      simp only [Bool.not_true, Bool.false_eq_true, if_false, if_pos hcb]
      refine h.enter hcb houter hrunning.begun ?_ ?_ ?_
      · intro call hcall
        rcases List.mem_append.mp hcall with hcall | hcall
        · exact hrunning.answered call hcall
        · rw [List.mem_singleton.mp hcall]
      · rw [List.map_append]
        refine List.pairwise_append.mpr ⟨hrunning.ordered, List.pairwise_singleton _ _, ?_⟩
        intro a ha b hb
        obtain rfl := List.mem_singleton.mp hb
        rcases List.mem_append.mp ha with ha | ha
        · have hcross := (List.pairwise_append.mp hrunning.ordered).2.2 a ha active.current (by simp)
          exact hcross.trans hbefore
        · exact List.mem_singleton.mp ha ▸ hbefore
      · intro x hx hhere
        rcases hrunning.covered x hx hhere with hcalled | rfl | ⟨n, hn, hafter⟩
        · exact Or.inl (by simpa using Or.inl hcalled)
        · exact Or.inl (by simp)
        · obtain rfl : cb = n := Option.some.inj (hnext.symm.trans hn)
          exact Or.inr hafter

theorem step (h : Inv ev) {action : Action} (hkeeps : KeepsNext ev action) {next : Event}
    (hstep : step ev action = some next) : Inv next := by
  unfold fwEvent.step at hstep
  rw [if_neg (by simp [h.followed])] at hstep
  cases action with
  | connect func order => exact Option.some.inj hstep ▸ h.connectInternal func order
  | disconnect cookie => exact Option.some.inj hstep ▸ h.disconnect cookie
  | reset => exact Option.some.inj hstep ▸ h.reset
  | dispatch => exact Option.some.inj hstep ▸ h.dispatch
  | returns answer =>
    cases hdispatches : ev.dispatches with
    | nil => simp [hdispatches] at hstep
    | cons active outer =>
      simp only [hdispatches, Option.some.injEq] at hstep
      exact hstep ▸ h.returns hdispatches hkeeps

end Inv

/-- Dispatch is ordered as long as no callback that is next in a dispatch is removed before it is its turn. -/
theorem orderly_of_run {ev : Event} {actions : List Action} (hrun : Run step KeepsNext {} actions ev) : Orderly ev :=
  (hrun.invariant Inv inv_init fun h hkeeps hstep => h.step hkeeps hstep).orderly

/-- The second callback removes itself and the first, and connects one that comes after the third. -/
theorem orderly_reentrant :
    ∃ ev, ev.finished.map (fun done => done.calls.map fun call => call.1.serial) = [[1, 0, 2, 3]] ∧ Orderly ev := by
  have hend : ((exec (fun ev action => if decide (KeepsNext ev action) then step ev action else none) {}
      [.connect true 5, .connect true 2, .connect true 5, .dispatch, .returns true, .disconnect 1, .disconnect 0,
        .connect true 7, .returns true, .returns true, .returns true]).any fun ev =>
        ev.finished.map (fun done => done.calls.map fun call => call.1.serial) == [[1, 0, 2, 3]]) = true := by
    decide +kernel
  obtain ⟨ev, hrun, hcalls⟩ := exists_checked (fun ev action hcheck => of_decide_eq_true hcheck) hend
  exact ⟨ev, beq_iff_eq.mp hcalls, orderly_of_run hrun⟩

/-- A callback that removes the next one makes the dispatch follow it. -/
theorem next_followed : ¬ ∀ (actions : List Action) (ev : Event), Run step (fun _ _ => True) {} actions ev →
    Orderly ev := by
  intro hall
  have hend : ((exec step {} [.connect true 0, .connect true 0, .dispatch, .disconnect 1, .returns true]).any
      Event.followed) = true := by decide +kernel
  obtain ⟨ev, hrun, hfollowed⟩ := exists_run hend
  have hnever := (hall _ ev hrun).followed
  rw [hfollowed] at hnever
  cases hnever

end fwEvent
