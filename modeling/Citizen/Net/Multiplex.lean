import Citizen.Lib.Bits
import Citizen.Lib.Transition

open Bits Transition

namespace net

inductive MultiplexPatternMatchResult
  | NoMatch
  | Match
  | InsufficientData
  deriving DecidableEq

/-- What a read callback does while it handles the first bytes: it sets another one, or none. -/
inductive ReadCallback
  | done
  | unset (next : ReadCallback)
  | set (readCallback next : ReadCallback)
  deriving DecidableEq

/-- `MultiplexTcpChildServerStream`. -/
structure ChildStream where
  /-- The child server that the stream belongs to. -/
  server : Nat
  initialData : List Byte
  readCallback : Option ReadCallback := none
  /-- `CloseInternal` has run. -/
  closed : Bool := false
  /-- What the read callbacks have been called with, one after another. -/
  received : List Byte := []
  deriving DecidableEq

namespace ChildStream

/-- What a read callback does to its stream. In `SetReadCallback`, a callback that takes the place of none gets the
initial data, which is cleared only after it returns. -/
def handle : ReadCallback → ChildStream → ChildStream
  | .done, c => c
  | .unset next, c => handle next { c with readCallback := none }
  | .set readCallback next, c =>
    let wasFirst := c.readCallback.isNone
    let c := { c with readCallback := some readCallback }
    if wasFirst ∧ c.initialData ≠ [] then
      handle next { handle readCallback { c with received := c.received ++ c.initialData } with initialData := [] }
    else handle next c

/-- `SetReadCallback`. -/
def setReadCallback (c : ChildStream) : Option ReadCallback → ChildStream
  | none => handle (.unset .done) c
  | some readCallback => handle (.set readCallback .done) c

/-- `TrySendInitialData`. -/
def trySendInitialData (c : ChildStream) : ChildStream :=
  match c.readCallback with
  | none => c
  | some readCallback =>
    if c.initialData ≠ [] then
      { handle readCallback { c with received := c.received ++ c.initialData } with initialData := [] }
    else c

/-- The read callback that the child stream sets on its base stream. -/
def baseRead (c : ChildStream) (data : List Byte) : ChildStream :=
  match c.readCallback with
  | none => c
  | some _ =>
    let c := c.trySendInitialData
    { c with received := c.received ++ data }

/-- `CloseInternal`. -/
def closeInternal (c : ChildStream) : ChildStream := { c with readCallback := none, closed := true }

end ChildStream

/-- A stream of the multiplexer. -/
structure MultiplexStream where
  recvQueue : List Byte := []
  /-- The child stream, after a match. -/
  child : Option ChildStream := none
  /-- The multiplexer or the child stream has asked the base stream to close. -/
  closing : Bool := false
  /-- The base stream has closed. -/
  closed : Bool := false
  /-- The bytes of all reads. -/
  arrived : List Byte := []
  deriving DecidableEq

/-- What happens to a stream. What a read callback does after the first bytes is a step of its own. -/
inductive MultiplexAction
  | read (data : List Byte)
  | setReadCallback (readCallback : Option ReadCallback)
  | close
  | baseClosed
  deriving DecidableEq

/-- The loop over the child servers, from the one with number `i`: the server that matched, or whether one needs
more data. -/
def matchServers (queue : List Byte) (needMoreData : Bool) (i : Nat) :
    List (List Byte → MultiplexPatternMatchResult) → Nat ⊕ Bool
  | [] => .inr needMoreData
  | matchFunction :: servers =>
    match matchFunction queue with
    | .Match => .inl i
    | .InsufficientData => matchServers queue true (i + 1) servers
    | .NoMatch => matchServers queue needMoreData (i + 1) servers

namespace MultiplexStream

/-- A read of the base stream, for the read callback that is set on it. -/
def read (servers : List (List Byte → MultiplexPatternMatchResult)) (s : MultiplexStream) (data : List Byte) :
    MultiplexStream :=
  let s := { s with arrived := s.arrived ++ data }
  match s.child with
  | some child => { s with child := some (child.baseRead data) }
  | none =>
    let s := { s with recvQueue := s.recvQueue ++ data }
    match matchServers s.recvQueue false 0 servers with
    | .inl server => { s with child := some { server, initialData := s.recvQueue } }
    | .inr true => s
    | .inr false => { s with closing := true }

/-- One step. Reads are not empty, and end when the base stream has closed. The server does not use its stream after
closing it. -/
def step (servers : List (List Byte → MultiplexPatternMatchResult)) (s : MultiplexStream) :
    MultiplexAction → Option MultiplexStream
  | .read data => if data = [] ∨ s.closed then none else some (s.read servers data)
  | .setReadCallback readCallback =>
    match s.child with
    | none => none
    | some child =>
      if child.closed then none else some { s with child := some (child.setReadCallback readCallback) }
  | .close =>
    match s.child with
    | none => none
    | some child => some { s with child := some child.closeInternal, closing := true }
  | .baseClosed => some { s with child := s.child.map ChildStream.closeInternal, closed := true }

/-- The read callbacks of the child stream have received what has arrived, and nothing else. -/
def Delivers (s : MultiplexStream) : Prop :=
  ∀ child ∈ s.child, child.received <+: s.arrived ∧
    (child.closed = false → child.readCallback ≠ none → child.received = s.arrived)

end MultiplexStream

/-- After it has been without a read callback, the stream gets one again. -/
def ReadCallback.Resets (isUnset : Bool) : ReadCallback → Bool
  | .done => false
  | .unset next => next.Resets true
  | .set _ next => isUnset || next.Resets false

namespace MultiplexStream

/-- No read arrives while the child stream is without a read callback, and a callback does not leave the stream
without one and then set one again while it handles the first bytes. -/
def Allows (s : MultiplexStream) : MultiplexAction → Prop
  | .read _ => ∀ child ∈ s.child, child.closed = false → child.readCallback ≠ none
  | .setReadCallback readCallback => ∀ child ∈ s.child, child.readCallback = none → child.initialData ≠ [] →
      ∀ callback ∈ readCallback, callback.Resets false = false
  | .close | .baseClosed => True

instance (s : MultiplexStream) : (action : MultiplexAction) → Decidable (s.Allows action)
  | .read _ => inferInstanceAs (Decidable (∀ child ∈ s.child, _))
  | .setReadCallback _ => inferInstanceAs (Decidable (∀ child ∈ s.child, _))
  | .close => isTrue trivial
  | .baseClosed => isTrue trivial

end MultiplexStream

/-- A callback that does not reset only changes the read callback. -/
theorem ChildStream.handle_eq {callback : ReadCallback} {c : ChildStream}
    (h : callback.Resets c.readCallback.isNone = false) :
    ∃ readCallback, c.handle callback = { c with readCallback } := by
  induction callback generalizing c with
  | done => exact ⟨c.readCallback, rfl⟩
  | unset next ih =>
    obtain ⟨readCallback, hhandle⟩ := ih (c := { c with readCallback := none }) h
    exact ⟨readCallback, hhandle⟩
  | set readCallback next _ ih =>
    rw [ReadCallback.Resets, Bool.or_eq_false_iff] at h
    obtain ⟨readCallback', hhandle⟩ := ih (c := { c with readCallback := some readCallback }) h.2
    refine ⟨readCallback', ?_⟩
    rw [ChildStream.handle, h.1, if_neg (by simp)]
    exact hhandle

/-- The bytes are those that the callbacks have received and those that wait for the first one. -/
structure ChildStream.Holds (c : ChildStream) (arrived : List Byte) : Prop where
  bytes : c.closed = false → c.received ++ c.initialData = arrived
  sent : c.readCallback ≠ none → c.initialData = []
  begins : c.received <+: arrived
  unset : c.closed = true → c.readCallback = none

namespace ChildStream

variable {c : ChildStream} {arrived : List Byte}

/-- `SetReadCallback` sends the initial data to the first callback. -/
theorem Holds.setReadCallback (h : c.Holds arrived) {readCallback : Option ReadCallback} (hopen : c.closed = false)
    (hresets : c.readCallback = none → c.initialData ≠ [] → ∀ callback ∈ readCallback, callback.Resets false = false) :
    (c.setReadCallback readCallback).Holds arrived := by
  have hbytes := h.bytes hopen
  cases readCallback with
  | none =>
    exact
      { bytes := fun _ => hbytes
        sent := fun hset => absurd rfl hset
        begins := h.begins
        unset := fun _ => rfl }
  | some callback =>
    by_cases hfirst : c.readCallback.isNone = true ∧ c.initialData ≠ []
    · obtain ⟨readCallback, hhandle⟩ := @handle_eq callback
        { c with readCallback := some callback, received := c.received ++ c.initialData }
        (hresets (Option.isNone_iff_eq_none.mp hfirst.1) hfirst.2 callback rfl)
      rw [ChildStream.setReadCallback, handle, if_pos hfirst, handle, hhandle]
      exact
        { bytes := fun _ => (List.append_nil _).trans hbytes
          sent := fun _ => rfl
          begins := hbytes ▸ List.prefix_rfl
          unset := fun hclosed => absurd (hclosed.symm.trans hopen) (by simp) }
    · rw [ChildStream.setReadCallback, handle, if_neg hfirst, handle]
      refine ⟨fun _ => hbytes, fun _ => ?_, h.begins, fun hclosed => absurd (hclosed.symm.trans hopen) (by simp)⟩
      by_contra hdata
      cases hcallback : c.readCallback with
      | none => exact hfirst ⟨by rw [hcallback]; rfl, hdata⟩
      | some _ => exact hdata (h.sent (by rw [hcallback]; simp))

theorem Holds.closeInternal (h : c.Holds arrived) : c.closeInternal.Holds arrived where
  bytes hopen := nomatch hopen
  sent hset := absurd rfl hset
  begins := h.begins
  unset _ := rfl

/-- A read while the callback is set, or after the stream has been closed. -/
theorem Holds.baseRead (h : c.Holds arrived) (data : List Byte) (hset : c.closed = false → c.readCallback ≠ none) :
    (c.baseRead data).Holds (arrived ++ data) := by
  unfold ChildStream.baseRead
  cases hcallback : c.readCallback with
  | none =>
    have hclosed : c.closed = true := by
      by_contra hopen
      exact hset (by simpa using hopen) hcallback
    exact
      { bytes := fun hopen => absurd (hclosed.symm.trans hopen) (by simp)
        sent := fun hset' => absurd hcallback hset'
        begins := h.begins.trans (List.prefix_append _ _)
        unset := fun _ => hcallback }
  | some callback =>
    have hdata : c.initialData = [] := h.sent (by rw [hcallback]; simp)
    have hopen : c.closed = false := by
      by_contra hclosed
      rw [h.unset (by simpa using hclosed)] at hcallback
      cases hcallback
    have hbytes : c.received = arrived := by
      have hall := h.bytes hopen
      rwa [hdata, List.append_nil] at hall
    have htry : c.trySendInitialData = c := by
      rw [trySendInitialData, hcallback]
      exact if_neg (not_not_intro hdata)
    dsimp only
    rw [htry, hbytes]
    exact
      { bytes := fun _ => by rw [hdata, List.append_nil]
        sent := fun _ => hdata
        begins := List.prefix_rfl
        unset := fun hclosed => absurd (hclosed.symm.trans hopen) (by simp) }

end ChildStream

namespace MultiplexStream

structure Holds (s : MultiplexStream) : Prop where
  queue : s.child = none → s.recvQueue = s.arrived
  child : ∀ child ∈ s.child, child.Holds s.arrived

theorem Holds.of_child {s : MultiplexStream} {child : ChildStream} (hchild : s.child = some child)
    (h : child.Holds s.arrived) : s.Holds where
  queue hnone := by
    rw [hchild] at hnone
    cases hnone
  child child' hchild' := by
    rw [hchild] at hchild'
    cases hchild'
    exact h

theorem Holds.delivers {s : MultiplexStream} (h : s.Holds) : s.Delivers := by
  intro child hchild
  refine ⟨(h.child child hchild).begins, fun hopen hset => ?_⟩
  have hbytes := (h.child child hchild).bytes hopen
  rwa [(h.child child hchild).sent hset, List.append_nil] at hbytes

theorem Holds.read {s : MultiplexStream} (h : s.Holds) (servers : List (List Byte → MultiplexPatternMatchResult))
    {data : List Byte} (hallows : s.Allows (.read data)) : (s.read servers data).Holds := by
  unfold MultiplexStream.read
  dsimp only
  cases hchild : s.child with
  | none =>
    have hqueue : s.recvQueue ++ data = s.arrived ++ data := by rw [h.queue hchild]
    dsimp only
    split
    · refine .of_child rfl ?_
      exact
        { bytes := fun _ => hqueue
          sent := fun hset => absurd rfl hset
          begins := List.nil_prefix
          unset := fun _ => rfl }
    · exact ⟨fun _ => hqueue, by simp⟩
    · exact ⟨fun _ => hqueue, by simp⟩
  | some child =>
    exact .of_child rfl ((h.child child hchild).baseRead data (hallows child hchild))

theorem Holds.step {servers : List (List Byte → MultiplexPatternMatchResult)} {s t : MultiplexStream}
    {action : MultiplexAction} (h : s.Holds) (hallows : s.Allows action) (hstep : s.step servers action = some t) :
    t.Holds := by
  cases action with
  | read data =>
    simp only [MultiplexStream.step] at hstep
    split at hstep
    · cases hstep
    · cases hstep
      exact h.read servers hallows
  | setReadCallback readCallback =>
    simp only [MultiplexStream.step] at hstep
    split at hstep
    · cases hstep
    · rename_i child hchild
      split at hstep
      · cases hstep
      · rename_i hopen
        cases hstep
        exact .of_child rfl ((h.child child hchild).setReadCallback (by simpa using hopen) (hallows child hchild))
  | close =>
    simp only [MultiplexStream.step] at hstep
    split at hstep
    · cases hstep
    · rename_i child hchild
      cases hstep
      exact .of_child rfl (h.child child hchild).closeInternal
  | baseClosed =>
    cases hstep
    refine ⟨fun hnone => h.queue (Option.map_eq_none_iff.mp hnone), fun child hmem => ?_⟩
    obtain ⟨child, hchild, rfl⟩ := Option.map_eq_some_iff.mp hmem
    exact (h.child child hchild).closeInternal

/-- In every run in which no read finds the child stream without a read callback and no callback resets the first
bytes, the callbacks receive every byte once and in order. -/
theorem run_receives (servers : List (List Byte → MultiplexPatternMatchResult)) {actions : List MultiplexAction}
    {s : MultiplexStream} (h : Run (step servers) Allows {} actions s) : s.Delivers :=
  Holds.delivers (h.invariant Holds ⟨fun _ => rfl, by simp⟩ Holds.step)

/-- A server that needs two bytes, and takes the streams that begin with a one. -/
def sampleServer (queue : List Byte) : MultiplexPatternMatchResult :=
  if queue.length < 2 then .InsufficientData else if queue.head? = some 1 then .Match else .NoMatch

/-- The callback is set at the match, and sets another one while it handles the first bytes. -/
theorem run_receives_sample : ∃ s : MultiplexStream, s.Delivers ∧
    s.child.map ChildStream.received = some [1, 2, 3, 4] := by
  have hend : ((exec (fun s action => if decide (s.Allows action) then step [sampleServer] s action else none) {}
      [.read [1], .read [2, 3], .setReadCallback (some (.set .done .done)), .read [4]]).any fun s =>
        s.child.map ChildStream.received == some [1, 2, 3, 4]) = true := by decide +kernel
  obtain ⟨s, hrun, hs⟩ := exists_checked (fun s action hcheck => of_decide_eq_true hcheck) hend
  exact ⟨s, run_receives [sampleServer] hrun, beq_iff_eq.mp hs⟩

/-- The bytes between the match and the first callback are lost. -/
theorem run_late : ∃ s : MultiplexStream, Run (step [sampleServer]) (fun _ _ => True) {}
      [.read [1, 2], .read [3], .setReadCallback (some .done), .read [4]] s ∧
    s.child.map ChildStream.received = some [1, 2, 4] ∧ s.arrived = [1, 2, 3, 4] ∧ ¬ s.Delivers := by
  have hend : ((exec (step [sampleServer]) {} [.read [1, 2], .read [3], .setReadCallback (some .done), .read [4]]).any
    fun s =>
      s.child.map ChildStream.received == some [1, 2, 4] && s.arrived == [1, 2, 3, 4]) = true := by decide +kernel
  obtain ⟨s, hrun, hs⟩ := exists_run hend
  rw [Bool.and_eq_true, beq_iff_eq, beq_iff_eq] at hs
  obtain ⟨hreceived, harrived⟩ := hs
  refine ⟨s, hrun, hreceived, harrived, fun h => ?_⟩
  obtain ⟨child, hchild, hbytes⟩ := Option.map_eq_some_iff.mp hreceived
  have hbegins := (h child hchild).1
  rw [hbytes, harrived] at hbegins
  exact absurd hbegins (by decide)

end MultiplexStream

end net
