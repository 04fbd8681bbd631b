import Citizen.Lib.Transition

open Transition

namespace net

/-- The completion callbacks that can still be called, by the numbers of their writes, and the calls so far. -/
structure Completions where
  live : List Nat := []
  calls : List (Nat × Bool) := []

namespace Completions

/-- What a listener does: it calls the callback, and resets it for the listeners that share it. -/
def complete (c : Completions) (success : Bool) (id : Nat) : Completions :=
  if id ∈ c.live then { live := c.live.erase id, calls := c.calls ++ [(id, success)] } else c

/-- An event calls its one-shot listeners. -/
def publish (c : Completions) (success : Bool) (listeners : List Nat) : Completions :=
  listeners.foldl (fun c id => c.complete success id) c

/-- How often a callback has been called. -/
def count (c : Completions) (id : Nat) : Nat := (c.calls.map Prod.fst).count id

end Completions

/-- What waits for the thread of the stream. -/
inductive StreamRequest
  | write (id : Nat) (onComplete : Bool)
  | close
  deriving DecidableEq

/-- The number of a write that waits. -/
def StreamRequest.id? : StreamRequest → Option Nat
  | .write id _ => some id
  | .close => none

/-- `UvTcpServerStream`. Writes are numbered in the order of the calls. -/
structure UvStream where
  /-- `m_client` is set. -/
  client : Bool := true
  closingClient : Bool := false
  /-- `m_writeCallback` is set. -/
  writeCallback : Bool := true
  /-- Whether the timer is started, until it is closed. -/
  writeTimeout : Option Bool := some false
  pendingWrites : BitVec 64
  pendingRequests : List StreamRequest := []
  writeListeners : List Nat := []
  endListeners : List Nat := []
  errorListeners : List Nat := []
  completions : Completions := {}
  /-- The writes that have been handed to libuv and have not completed, in order. -/
  inFlight : List Nat := []
  writes : Nat := 0
  /-- All writes that have been handed to libuv. -/
  handed : List Nat := []
  /-- Those of them with a completion callback. -/
  callbacks : List Nat := []
  completed : List Nat := []
  /-- The writes that the stream has seen complete, end or fail since they were handed to libuv. -/
  seen : List Nat := []

/-- The calls and events of a stream. -/
inductive StreamAction
  | write (ownThread onComplete : Bool)
  | close
  | asyncEvent
  | writeEvent
  | endEvent
  | errorEvent
  deriving DecidableEq

namespace UvStream

def resetWriteTimeout (s : UvStream) : UvStream := { s with writeTimeout := s.writeTimeout.map fun _ => true }

/-- `doWrite` of `WriteInternal`. -/
def doWrite (s : UvStream) (id : Nat) (onComplete : Bool) : UvStream :=
  let s := if onComplete then
      { s with
        endListeners := s.endListeners ++ [id]
        errorListeners := s.errorListeners ++ [id]
        writeListeners := s.writeListeners ++ [id]
        completions := { s.completions with live := s.completions.live ++ [id] }
        callbacks := s.callbacks ++ [id] }
    else s
  let s := { s with pendingWrites := s.pendingWrites + 1 }
  let s := s.resetWriteTimeout
  { s with inFlight := s.inFlight ++ [id], handed := s.handed ++ [id] }

/-- `WriteInternal`. -/
def write (s : UvStream) (ownThread onComplete : Bool) : UvStream :=
  let id := s.writes
  let s := { s with writes := s.writes + 1 }
  if s.client = false then s
  else if ownThread then s.doWrite id onComplete
  else if s.writeCallback then { s with pendingRequests := s.pendingRequests ++ [.write id onComplete] }
  else s

/-- `Close`. -/
def close (s : UvStream) : UvStream :=
  if s.client ∧ s.writeCallback then { s with pendingRequests := s.pendingRequests ++ [.close] } else s

/-- The loop of `HandlePendingWrites`. The first request to close runs `CloseClient`, which takes the requests
behind it before it closes the timer and lets go of the client. -/
def handleRequests (s : UvStream) : List StreamRequest → UvStream
  | [] => s
  | .write id onComplete :: requests => (s.doWrite id onComplete).handleRequests requests
  | .close :: requests =>
    if s.closingClient then s.handleRequests requests
    else
      { ({ s with closingClient := true, writeCallback := false } : UvStream).handleRequests requests with
        writeTimeout := none, client := false }

/-- `HandlePendingWrites`. -/
def handlePendingWrites (s : UvStream) : UvStream :=
  if s.client then { s with pendingRequests := [] }.handleRequests s.pendingRequests else s

/-- The write at the head of those in flight completes. -/
def writeEvent (s : UvStream) (id : Nat) (inFlight : List Nat) : UvStream :=
  let s := { s with inFlight, completed := s.completed ++ [id], seen := s.seen ++ [id] }
  let s :=
    if s.closingClient then s
    else
      let before := s.pendingWrites
      let s := { s with pendingWrites := s.pendingWrites - 1 }
      if before = 0 then { s with writeTimeout := s.writeTimeout.map fun _ => false } else s.resetWriteTimeout
  { s with completions := s.completions.publish true s.writeListeners, writeListeners := [] }

/-- `HandleRead` after an end or an error. -/
def handleEnd (s : UvStream) : UvStream := if s.closingClient then s else s.close

def endEvent (s : UvStream) : UvStream :=
  let s := s.handleEnd
  let s := { s with seen := s.seen ++ s.handed }
  { s with completions := s.completions.publish false s.endListeners, endListeners := [] }

def errorEvent (s : UvStream) : UvStream :=
  let s := s.handleEnd
  let s := { s with seen := s.seen ++ s.handed }
  { s with completions := s.completions.publish false s.errorListeners, errorListeners := [] }

def step (s : UvStream) : StreamAction → Option UvStream
  | .write ownThread onComplete => some (s.write ownThread onComplete)
  | .close => some s.close
  | .asyncEvent => if s.writeCallback then some s.handlePendingWrites else none
  | .writeEvent =>
    match s.inFlight with
    | [] => none
    | id :: inFlight => some (s.writeEvent id inFlight)
  | .endEvent => some s.endEvent
  | .errorEvent => some s.errorEvent

/-- Each callback has been called once at most, with success only if its write has completed, and exactly once if
the stream has seen the write complete, end or fail. The timer runs exactly while a write is in flight. -/
structure Exact (s : UvStream) : Prop where
  once : ∀ id, s.completions.count id ≤ 1
  success : ∀ id, (id, true) ∈ s.completions.calls → id ∈ s.completed
  seen : ∀ id ∈ s.callbacks, id ∈ s.seen → s.completions.count id = 1
  timeout : s.writeTimeout = some true ↔ s.inFlight ≠ []

/-- A write completes while no other one has a callback to be called and, unless the stream is closing, while the
counter is zero exactly if it is the last one in flight. The stream closes while no write is in flight or waits. -/
def Allows (s : UvStream) : StreamAction → Prop
  | .writeEvent =>
    (∀ id ∈ s.writeListeners, id ∈ s.completions.live → s.inFlight.head? = some id) ∧
      (s.closingClient = false → (s.pendingWrites = 0 ↔ s.inFlight.tail = []))
  | .asyncEvent => .close ∈ s.pendingRequests → s.inFlight = [] ∧ ∀ request ∈ s.pendingRequests, request = .close
  | .write _ _ | .close | .endEvent | .errorEvent => True

instance (s : UvStream) : (action : StreamAction) → Decidable (s.Allows action)
  | .writeEvent => inferInstanceAs (Decidable (_ ∧ _))
  | .asyncEvent => inferInstanceAs (Decidable (_ → _))
  | .write _ _ => isTrue trivial
  | .close => isTrue trivial
  | .endEvent => isTrue trivial
  | .errorEvent => isTrue trivial

end UvStream

namespace Completions

/-- The callbacks that have been given are called once or can still be called. -/
structure Once (c : Completions) (callbacks : List Nat) : Prop where
  nodup : c.live.Nodup
  live : ∀ id ∈ c.live, id ∈ callbacks ∧ c.count id = 0
  called : ∀ id ∈ callbacks, id ∈ c.live ∨ c.count id = 1
  other : ∀ id ∉ callbacks, c.count id = 0

theorem Once.count_le {c : Completions} {callbacks : List Nat} (h : c.Once callbacks) (id : Nat) : c.count id ≤ 1 := by
  by_cases hmem : id ∈ callbacks
  · rcases h.called id hmem with hlive | hcalled
    · have hzero := (h.live id hlive).2
      omega
    · omega
  · have hzero := h.other id hmem
    omega

theorem count_append (c : Completions) (live : List Nat) (success : Bool) (id id' : Nat) :
    count { live, calls := c.calls ++ [(id, success)] } id' = c.count id' + if id = id' then 1 else 0 := by
  simp [count, List.count_append, List.count_singleton]

theorem Once.complete {c : Completions} {callbacks : List Nat} (h : c.Once callbacks) (success : Bool) (id : Nat) :
    (c.complete success id).Once callbacks := by
  unfold Completions.complete
  split
  · rename_i hlive
    obtain ⟨hcallback, hzero⟩ := h.live id hlive
    refine ⟨h.nodup.erase id, fun id' hid' => ?_, fun id' hid' => ?_, fun id' hid' => ?_⟩
    · obtain ⟨hne, hmem⟩ := h.nodup.mem_erase_iff.mp hid'
      rw [count_append, if_neg (Ne.symm hne)]
      exact h.live id' hmem
    · rw [count_append]
      by_cases heq : id = id'
      · rw [if_pos heq, ← heq, hzero]
        exact .inr rfl
      · rw [if_neg heq, h.nodup.mem_erase_iff]
        exact (h.called id' hid').imp (fun hmem => ⟨Ne.symm heq, hmem⟩) fun hone => hone
    · have hne : id ≠ id' := fun heq => hid' (heq ▸ hcallback)
      rw [count_append, if_neg hne]
      exact h.other id' hid'
  · exact h

theorem complete_live {c : Completions} (hnodup : c.live.Nodup) (success : Bool) (id id' : Nat) :
    id' ∈ (c.complete success id).live ↔ id' ∈ c.live ∧ id' ≠ id := by
  unfold Completions.complete
  split
  · rw [hnodup.mem_erase_iff, and_comm]
  · rename_i hlive
    exact ⟨fun hmem => ⟨hmem, fun heq => hlive (heq ▸ hmem)⟩, fun h => h.1⟩

theorem complete_calls {c : Completions} {success success' : Bool} {id id' : Nat}
    (h : (id', success') ∈ (c.complete success id).calls) :
    (id', success') ∈ c.calls ∨ success' = success ∧ id' = id ∧ id' ∈ c.live := by
  unfold Completions.complete at h
  split at h
  · rename_i hlive
    rcases List.mem_append.mp h with hold | hnew
    · exact .inl hold
    · cases List.mem_singleton.mp hnew
      exact .inr ⟨rfl, rfl, hlive⟩
  · exact .inl h

/-- An event calls the callbacks of its listeners that can still be called, and no other ones. -/
theorem Once.publish {c : Completions} {callbacks : List Nat} (h : c.Once callbacks) (success : Bool)
    (listeners : List Nat) :
    (c.publish success listeners).Once callbacks ∧
      (∀ id, id ∈ (c.publish success listeners).live ↔ id ∈ c.live ∧ id ∉ listeners) ∧
      ∀ id success', (id, success') ∈ (c.publish success listeners).calls →
        (id, success') ∈ c.calls ∨ success' = success ∧ id ∈ listeners ∧ id ∈ c.live := by
  induction listeners generalizing c with
  | nil => exact ⟨h, by simp [Completions.publish], fun id success' hmem => .inl hmem⟩
  | cons listener listeners ih =>
    obtain ⟨honce, hlive, hcalls⟩ := ih (h.complete success listener)
    refine ⟨honce, fun id => ?_, fun id success' hmem => ?_⟩
    · rw [Completions.publish, List.foldl_cons] at *
      rw [hlive, complete_live h.nodup, List.mem_cons, not_or, and_assoc]
    · rcases hcalls id success' hmem with hold | ⟨rfl, hlistener, hid⟩
      · rcases complete_calls hold with hold | ⟨rfl, rfl, hid⟩
        · exact .inl hold
        · exact .inr ⟨rfl, List.mem_cons_self, hid⟩
      · exact .inr ⟨rfl, List.mem_cons_of_mem _ hlistener, ((complete_live h.nodup _ listener id).mp hid).1⟩

theorem Once.add {c : Completions} {callbacks : List Nat} (h : c.Once callbacks) {id : Nat} (hid : id ∉ callbacks) :
    Once { c with live := c.live ++ [id] } (callbacks ++ [id]) := by
  have hlive : id ∉ c.live := fun hmem => hid (h.live id hmem).1
  refine ⟨?_, fun id' hid' => ?_, fun id' hid' => ?_, fun id' hid' => h.other id' ?_⟩
  · rw [List.nodup_append]
    refine ⟨h.nodup, List.nodup_singleton id, fun a ha b hb heq => hlive ?_⟩
    rwa [← List.mem_singleton.mp hb, ← heq]
  · rcases List.mem_append.mp hid' with hold | hnew
    · exact ⟨List.mem_append_left _ (h.live id' hold).1, (h.live id' hold).2⟩
    · rw [List.mem_singleton.mp hnew]
      exact ⟨List.mem_append_right _ (List.mem_singleton_self id), h.other id hid⟩
  · rcases List.mem_append.mp hid' with hold | hnew
    · exact (h.called id' hold).imp_left (List.mem_append_left _)
    · exact .inl (List.mem_append_right _ hnew)
  · exact fun hmem => hid' (List.mem_append_left _ hmem)

end Completions

namespace UvStream

/-- The writes that wait. -/
def waiting (s : UvStream) : List Nat := s.pendingRequests.filterMap StreamRequest.id?

/-- What every step keeps. -/
structure Tracks (s : UvStream) : Prop where
  handed_lt : ∀ id ∈ s.handed, id < s.writes
  waiting_lt : ∀ id ∈ s.waiting, id < s.writes ∧ id ∉ s.handed
  waiting_nodup : s.waiting.Nodup
  callbacks : ∀ id ∈ s.callbacks, id ∈ s.handed
  seen_handed : ∀ id ∈ s.seen, id ∈ s.handed
  inFlight_handed : ∀ id ∈ s.inFlight, id ∈ s.handed
  completions : s.completions.Once s.callbacks
  listeners : ∀ id ∈ s.completions.live, id ∈ s.writeListeners ∧ id ∈ s.endListeners ∧ id ∈ s.errorListeners
  success : ∀ id, (id, true) ∈ s.completions.calls → id ∈ s.completed
  seen : ∀ id ∈ s.seen, id ∉ s.completions.live
  timeout : s.writeTimeout = some true ↔ s.inFlight ≠ []
  client : s.client = true → s.closingClient = false ∧ s.writeTimeout ≠ none
  closing : s.closingClient = true → s.writeTimeout = none

theorem Tracks.exact {s : UvStream} (h : s.Tracks) : s.Exact where
  once := h.completions.count_le
  success := h.success
  seen id hid hseen := (h.completions.called id hid).resolve_left (h.seen id hseen)
  timeout := h.timeout

/-- Listeners for a write that the stream has not seen end. -/
theorem Tracks.listen {s : UvStream} (h : s.Tracks) {id : Nat} (hhanded : id ∈ s.handed) (hcallback : id ∉ s.callbacks)
    (hseen : id ∉ s.seen) : Tracks { s with
      endListeners := s.endListeners ++ [id]
      errorListeners := s.errorListeners ++ [id]
      writeListeners := s.writeListeners ++ [id]
      completions := { s.completions with live := s.completions.live ++ [id] }
      callbacks := s.callbacks ++ [id] } :=
  { h with
    callbacks := fun id' hid' => by
      rcases List.mem_append.mp hid' with hold | hnew
      · exact h.callbacks id' hold
      · rwa [List.mem_singleton.mp hnew]
    completions := h.completions.add hcallback
    listeners := fun id' hid' => by
      rcases List.mem_append.mp hid' with hold | hnew
      · obtain ⟨hwrite, hend, herror⟩ := h.listeners id' hold
        exact ⟨List.mem_append_left _ hwrite, List.mem_append_left _ hend, List.mem_append_left _ herror⟩
      · exact ⟨List.mem_append_right _ hnew, List.mem_append_right _ hnew, List.mem_append_right _ hnew⟩
    seen := fun id' hid' hlive => by
      rcases List.mem_append.mp hlive with hold | hnew
      · exact h.seen id' hid' hold
      · exact hseen (List.mem_singleton.mp hnew ▸ hid') }

/-- A write is handed to libuv. -/
theorem Tracks.hand {s : UvStream} (h : s.Tracks) (hclient : s.client = true) {id : Nat} (hlt : id < s.writes)
    (hwaiting : id ∉ s.waiting) : (s.doWrite id false).Tracks := by
  obtain ⟨hopen, htimer⟩ := h.client hclient
  obtain ⟨started, hstarted⟩ := Option.ne_none_iff_exists'.mp htimer
  have hset : (s.doWrite id false).writeTimeout = some true := by
    change s.writeTimeout.map _ = _
    rw [hstarted]
    rfl
  exact
    { handed_lt := fun id' hid' => by
        rcases List.mem_append.mp hid' with hold | hnew
        · exact h.handed_lt id' hold
        · rwa [List.mem_singleton.mp hnew]
      waiting_lt := fun id' hid' => by
        refine ⟨(h.waiting_lt id' hid').1, fun hmem => ?_⟩
        rcases List.mem_append.mp hmem with hold | hnew
        · exact (h.waiting_lt id' hid').2 hold
        · exact hwaiting (List.mem_singleton.mp hnew ▸ hid')
      waiting_nodup := h.waiting_nodup
      callbacks := fun id' hid' => List.mem_append_left _ (h.callbacks id' hid')
      seen_handed := fun id' hid' => List.mem_append_left _ (h.seen_handed id' hid')
      inFlight_handed := fun id' hid' => by
        rcases List.mem_append.mp hid' with hold | hnew
        · exact List.mem_append_left _ (h.inFlight_handed id' hold)
        · exact List.mem_append_right _ hnew
      completions := h.completions
      listeners := h.listeners
      success := h.success
      seen := h.seen
      timeout := iff_of_true hset (by simp [UvStream.doWrite])
      client := fun _ => ⟨hopen, by simp [hset]⟩
      closing := fun hclosing => absurd (hopen.symm.trans hclosing) (by simp) }

theorem Tracks.doWrite {s : UvStream} (h : s.Tracks) (hclient : s.client = true) {id : Nat} (hlt : id < s.writes)
    (hhanded : id ∉ s.handed) (hwaiting : id ∉ s.waiting) (onComplete : Bool) : (s.doWrite id onComplete).Tracks := by
  have hhand := h.hand hclient hlt hwaiting
  cases onComplete with
  | false => exact hhand
  | true =>
    exact hhand.listen (List.mem_append_right _ (List.mem_singleton_self id))
      (fun hmem => hhanded (h.callbacks id hmem)) fun hmem => hhanded (h.seen_handed id hmem)

theorem Tracks.write {s : UvStream} (h : s.Tracks) (ownThread onComplete : Bool) :
    (s.write ownThread onComplete).Tracks := by
  have hnext : Tracks { s with writes := s.writes + 1 } :=
    { h with
      handed_lt := fun id hid => Nat.lt_succ_of_lt (h.handed_lt id hid)
      waiting_lt := fun id hid => ⟨Nat.lt_succ_of_lt (h.waiting_lt id hid).1, (h.waiting_lt id hid).2⟩ }
  have hhanded : s.writes ∉ s.handed := fun hmem => Nat.lt_irrefl _ (h.handed_lt _ hmem)
  have hwaiting : s.writes ∉ s.waiting := fun hmem => Nat.lt_irrefl _ (h.waiting_lt _ hmem).1
  unfold UvStream.write
  dsimp only
  split
  · exact hnext
  · rename_i hclient
    split
    · exact hnext.doWrite (by simpa using hclient) (Nat.lt_succ_self _) hhanded hwaiting onComplete
    · split
      · have hwaiting' : UvStream.waiting { s with
            writes := s.writes + 1, pendingRequests := s.pendingRequests ++ [.write s.writes onComplete] } =
            s.waiting ++ [s.writes] := List.filterMap_append
        exact
          { hnext with
            waiting_lt := fun id hid => by
              rw [hwaiting'] at hid
              rcases List.mem_append.mp hid with hold | hnew
              · exact hnext.waiting_lt id hold
              · rw [List.mem_singleton.mp hnew]
                exact ⟨Nat.lt_succ_self _, hhanded⟩
            waiting_nodup := by
              rw [hwaiting', List.nodup_append]
              refine ⟨h.waiting_nodup, List.nodup_singleton _, fun id hid id' hid' heq => hwaiting ?_⟩
              rwa [← List.mem_singleton.mp hid', ← heq] }
      · exact hnext

theorem Tracks.close {s : UvStream} (h : s.Tracks) : s.close.Tracks := by
  unfold UvStream.close
  split
  · have hwaiting : UvStream.waiting { s with pendingRequests := s.pendingRequests ++ [.close] } = s.waiting := by
      simp [UvStream.waiting, StreamRequest.id?]
    exact
      { h with
        waiting_lt := hwaiting ▸ h.waiting_lt
        waiting_nodup := hwaiting ▸ h.waiting_nodup }
  · exact h

theorem Tracks.handleEnd {s : UvStream} (h : s.Tracks) : s.handleEnd.Tracks := by
  unfold UvStream.handleEnd
  split
  · exact h
  · exact h.close

/-- Requests that write, while the stream is open. -/
theorem Tracks.handleWrites {s : UvStream} (h : s.Tracks) (hclient : s.client = true) (hempty : s.pendingRequests = [])
    {requests : List StreamRequest} (hids : ∀ id ∈ requests.filterMap StreamRequest.id?, id < s.writes ∧ id ∉ s.handed)
    (hnodup : (requests.filterMap StreamRequest.id?).Nodup) (hclose : .close ∉ requests) :
    (s.handleRequests requests).Tracks := by
  induction requests generalizing s with
  | nil => exact h
  | cons request requests ih =>
    rw [List.mem_cons, not_or] at hclose
    cases request with
    | close => exact absurd rfl hclose.1
    | write id onComplete =>
      have hsplit : (StreamRequest.write id onComplete :: requests).filterMap StreamRequest.id? =
          id :: requests.filterMap StreamRequest.id? := rfl
      rw [hsplit] at hids hnodup
      obtain ⟨hid, hids⟩ := List.forall_mem_cons.mp hids
      obtain ⟨hfirst, hnodup⟩ := List.nodup_cons.mp hnodup
      have hnext := h.doWrite hclient hid.1 hid.2 (by simp [waiting, hempty]) onComplete
      refine ih hnext ?_ ?_ (fun id' hid' => ?_) hnodup hclose.2
      · cases onComplete <;> exact hclient
      · cases onComplete <;> exact hempty
      · have hne : id' ≠ id := fun heq => hfirst (heq ▸ hid')
        have hold := hids id' hid'
        cases onComplete <;> simpa [UvStream.doWrite, resetWriteTimeout, hne] using hold

theorem handleRequests_closes {s : UvStream} (hclosing : s.closingClient = true) {requests : List StreamRequest}
    (hcloses : ∀ request ∈ requests, request = .close) : s.handleRequests requests = s := by
  induction requests with
  | nil => rfl
  | cons request requests ih =>
    obtain ⟨rfl, hrest⟩ := List.forall_mem_cons.mp hcloses
    rw [handleRequests, if_pos hclosing, ih hrest]

theorem Tracks.handlePendingWrites {s : UvStream} (h : s.Tracks) (hallows : s.Allows .asyncEvent) :
    s.handlePendingWrites.Tracks := by
  unfold UvStream.handlePendingWrites
  split
  · rename_i hclient
    have hempty : Tracks { s with pendingRequests := [] } :=
      { h with
        waiting_lt := by simp [waiting]
        waiting_nodup := List.nodup_nil }
    by_cases hclose : StreamRequest.close ∈ s.pendingRequests
    · obtain ⟨hinFlight, hcloses⟩ := hallows hclose
      obtain ⟨hopen, -⟩ := h.client hclient
      cases hrequests : s.pendingRequests with
      | nil => simp [hrequests] at hclose
      | cons request requests =>
        rw [hrequests] at hcloses
        obtain ⟨rfl, hrest⟩ := List.forall_mem_cons.mp hcloses
        rw [handleRequests, if_neg (by simp [hopen]), handleRequests_closes rfl hrest]
        exact
          { hempty with
            timeout := iff_of_false (by simp) (by simpa using hinFlight)
            client := fun hopen => nomatch hopen
            closing := fun _ => rfl }
    · exact hempty.handleWrites hclient rfl h.waiting_lt h.waiting_nodup hclose
  · exact h

/-- After an event that all callbacks listen to, none is left to be called. -/
theorem Tracks.publish {s : UvStream} (h : s.Tracks) (success : Bool) {listeners : List Nat}
    (hlisten : ∀ id ∈ s.completions.live, id ∈ listeners) (id : Nat) :
    id ∉ (s.completions.publish success listeners).live := by
  intro hlive
  obtain ⟨hid, hnot⟩ := ((h.completions.publish success listeners).2.1 id).mp hlive
  exact hnot (hlisten id hid)

theorem Tracks.writeEvent {s : UvStream} (h : s.Tracks) {id : Nat} {inFlight : List Nat}
    (hinFlight : s.inFlight = id :: inFlight) (hallows : s.Allows .writeEvent) :
    (s.writeEvent id inFlight).Tracks := by
  obtain ⟨honly, hcount⟩ := hallows
  have hstarted : s.writeTimeout = some true := h.timeout.mpr (by simp [hinFlight])
  have hopen : s.closingClient = false := by
    by_contra hclosing
    rw [h.closing (by simpa using hclosing)] at hstarted
    cases hstarted
  obtain ⟨honce, -, hcalls⟩ := h.completions.publish true s.writeListeners
  have hnone := h.publish true fun id' hid' => (h.listeners id' hid').1
  have hid : id ∈ s.handed := h.inFlight_handed id (by simp [hinFlight])
  have htimeout : (s.writeEvent id inFlight).writeTimeout ≠ none ∧
      ((s.writeEvent id inFlight).writeTimeout = some true ↔ inFlight ≠ []) := by
    have hlast := hcount hopen
    rw [hinFlight, List.tail_cons] at hlast
    unfold UvStream.writeEvent
    simp only [hopen, Bool.false_eq_true, if_false]
    split
    · rename_i hzero
      exact ⟨by simp [hstarted], by simpa [hstarted] using hlast.mp hzero⟩
    · rename_i hmore
      refine ⟨by simp [resetWriteTimeout, hstarted], ?_⟩
      simpa [resetWriteTimeout, hstarted] using fun hempty => hmore (hlast.mpr hempty)
  have hframe : ∃ pendingWrites, s.writeEvent id inFlight =
      { s with
        inFlight, completed := s.completed ++ [id], seen := s.seen ++ [id], pendingWrites
        writeTimeout := (s.writeEvent id inFlight).writeTimeout
        completions := s.completions.publish true s.writeListeners, writeListeners := [] } := by
    refine ⟨s.pendingWrites - 1, ?_⟩
    unfold UvStream.writeEvent
    simp only [hopen, Bool.false_eq_true, if_false]
    split <;> rfl
  obtain ⟨pendingWrites, hframe⟩ := hframe
  generalize (s.writeEvent id inFlight).writeTimeout = writeTimeout at htimeout hframe
  rw [hframe]
  exact
    { h with
      seen_handed := fun id' hid' => by
        rcases List.mem_append.mp hid' with hold | hnew
        · exact h.seen_handed id' hold
        · rwa [List.mem_singleton.mp hnew]
      inFlight_handed := fun id' hid' => h.inFlight_handed id' (hinFlight ▸ List.mem_cons_of_mem _ hid')
      completions := honce
      listeners := fun id' hid' => absurd hid' (hnone id')
      success := fun id' hid' => by
        rcases hcalls id' true hid' with hold | ⟨-, hlistener, hlive⟩
        · exact List.mem_append_left _ (h.success id' hold)
        · have hhead := honly id' hlistener hlive
          rw [hinFlight, List.head?_cons, Option.some.injEq] at hhead
          exact List.mem_append_right _ (List.mem_singleton.mpr hhead.symm)
      seen := fun id' _ => hnone id'
      timeout := htimeout.2
      client := fun _ => ⟨hopen, htimeout.1⟩
      closing := fun hclosing => absurd (hopen.symm.trans hclosing) (by simp) }

/-- An event that ends all writes in flight. -/
theorem Tracks.fail {s : UvStream} (h : s.Tracks) {listeners endListeners errorListeners : List Nat}
    (hlisten : ∀ id ∈ s.completions.live, id ∈ listeners) : Tracks { s with
      seen := s.seen ++ s.handed, completions := s.completions.publish false listeners, endListeners,
        errorListeners } := by
  have hnone := h.publish false hlisten
  obtain ⟨honce, -, hcalls⟩ := h.completions.publish false listeners
  exact
    { h with
      seen_handed := fun id hid => (List.mem_append.mp hid).elim (h.seen_handed id) fun hhanded => hhanded
      completions := honce
      listeners := fun id hid => absurd hid (hnone id)
      success := fun id hid => by
        rcases hcalls id true hid with hold | ⟨hfalse, -⟩
        · exact h.success id hold
        · cases hfalse
      seen := fun id _ => hnone id }

theorem Tracks.step {s t : UvStream} {action : StreamAction} (h : s.Tracks) (hallows : s.Allows action)
    (hstep : s.step action = some t) : t.Tracks := by
  cases action with
  | write ownThread onComplete =>
    cases hstep
    exact h.write ownThread onComplete
  | close =>
    cases hstep
    exact h.close
  | asyncEvent =>
    obtain ⟨-, htake⟩ := Option.ite_none_right_eq_some.mp hstep
    cases htake
    exact h.handlePendingWrites hallows
  | writeEvent =>
    simp only [UvStream.step] at hstep
    split at hstep
    · cases hstep
    · rename_i id inFlight hinFlight
      cases hstep
      exact h.writeEvent hinFlight hallows
  | endEvent =>
    cases hstep
    exact h.handleEnd.fail fun id hid => (h.handleEnd.listeners id hid).2.1
  | errorEvent =>
    cases hstep
    exact h.handleEnd.fail fun id hid => (h.handleEnd.listeners id hid).2.2

/-- In every run in which each write completes alone and with the right counter, and the stream closes without
writes, the completion callbacks and the timer are exact. -/
theorem run_exact (pendingWrites : BitVec 64) {actions : List StreamAction} {s : UvStream}
    (h : Run step Allows { pendingWrites } actions s) : s.Exact := by
  refine Tracks.exact (h.invariant Tracks ?_ Tracks.step)
  exact
    { handed_lt := by simp
      waiting_lt := by simp [waiting]
      waiting_nodup := List.nodup_nil
      callbacks := by simp
      seen_handed := by simp
      inFlight_handed := by simp
      completions := ⟨List.nodup_nil, by simp, by simp, fun _ _ => rfl⟩
      listeners := by simp
      success := by simp
      seen := by simp
      timeout := by simp
      client := fun _ => ⟨rfl, by simp⟩
      closing := fun hclosing => nomatch hclosing }

/-- Two writes, of which the second one has no callback, one from another thread, and the end of the stream. -/
theorem run_exact_sample : ∃ s : UvStream, s.Exact ∧ s.completions.calls = [(0, true), (2, false)] ∧
    s.inFlight = [1, 2] := by
  have hend : ((exec (fun s action => if decide (Allows s action) then step s action else none) { pendingWrites := 0 }
      [.write true true, .write true false, .writeEvent, .write false true, .asyncEvent, .endEvent]).any fun s =>
        s.completions.calls == [(0, true), (2, false)] && s.inFlight == [1, 2]) = true := by decide +kernel
  obtain ⟨s, hrun, hs⟩ := exists_checked (fun s action hcheck => of_decide_eq_true hcheck) hend
  rw [Bool.and_eq_true, beq_iff_eq, beq_iff_eq] at hs
  exact ⟨s, run_exact 0 hrun, hs⟩

/-- With two writes in flight, the first completion calls both callbacks. After the only write has completed, the
timer still runs. -/
theorem run_early : (∃ s : UvStream, Run step (fun _ _ => True) { pendingWrites := 0 }
      [.write true true, .write true true, .writeEvent] s ∧
        s.completions.calls = [(0, true), (1, true)] ∧ s.completed = [0] ∧ ¬ s.Exact) ∧
    ∃ s : UvStream, Run step (fun _ _ => True) { pendingWrites := 0 } [.write true true, .writeEvent] s ∧
      s.writeTimeout = some true ∧ s.inFlight = [] ∧ ¬ s.Exact := by
  constructor
  · have hend : ((exec step { pendingWrites := 0 } [.write true true, .write true true, .writeEvent]).any fun s =>
        s.completions.calls == [(0, true), (1, true)] && s.completed == [0]) = true := by decide +kernel
    obtain ⟨s, hrun, hs⟩ := exists_run hend
    rw [Bool.and_eq_true, beq_iff_eq, beq_iff_eq] at hs
    obtain ⟨hcalls, hcompleted⟩ := hs
    refine ⟨s, hrun, hcalls, hcompleted, fun h => ?_⟩
    have hearly := h.success 1 (by simp [hcalls])
    simp [hcompleted] at hearly
  · have hend : ((exec step { pendingWrites := 0 } [.write true true, .writeEvent]).any fun s =>
        s.writeTimeout == some true && s.inFlight == []) = true := by decide +kernel
    obtain ⟨s, hrun, hs⟩ := exists_run hend
    rw [Bool.and_eq_true, beq_iff_eq, beq_iff_eq] at hs
    obtain ⟨htimeout, hinFlight⟩ := hs
    exact ⟨s, hrun, htimeout, hinFlight, fun h => h.timeout.mp htimeout hinFlight⟩

end UvStream

end net
