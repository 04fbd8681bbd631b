import Citizen.Clones.NAck

namespace fx

variable {Node Value : Type*}

inductive AckResult
  | OK
  | ResendCloneMinimal
  deriving Repr, DecidableEq

/-- `lastFrameUpdated` of the object's `ObjectData`, and the nodes the object has been given. -/
structure CloneObject (Node Value : Type*) where
  lastFrameUpdated : Nat
  nodes : Node → Option Value

/-- `HandleCloneUpdate` for a saved object of the same uniqifier, whose owner's player is known and is not the client;
`canApply` is the answer of `CanApplyToObject`. -/
def handleCloneUpdate (object : CloneObject Node Value) (m_lastReceivedFrame : Nat) (msg : Sync Node Value)
    (canApply : Bool) : AckResult × CloneObject Node Value :=
  if object.lastFrameUpdated < msg.baseFrameIndex then (.ResendCloneMinimal, object)
  else if canApply then
    (.OK, ⟨m_lastReceivedFrame, fun n => ((msg.nodes n).map Prod.fst).or (object.nodes n)⟩)
  else (.ResendCloneMinimal, object)

/-- The nodes and stamps that the server holds when it builds a sync. -/
abbrev Snapshot (Node Value : Type*) := Node → Value × Nat

/-- The server's slot, the syncs on their way with the snapshots they were built from, and the client's object. `asOf`
is the last frame in which an applied update was full or carried the node; `accepted` holds what the client had after
each accepted update beside the snapshot of that update. -/
structure CloneWorld (Node Value : Type*) where
  slot : Slot Node Value
  flight : List (Sync Node Value × Snapshot Node Value)
  object : CloneObject Node Value
  asOf : Node → Nat
  accepted : List ((Node → Option Value) × Snapshot Node Value)

/-- `deliver` and `lose` are about the oldest sync on its way. -/
inductive CloneAction (Node Value : Type*)
  | update (nodes : Node → Option Value)
  | tick (input : TickInput)
  | deliver (canApply : Bool)
  | lose
  | nack (nack : NAck)

namespace CloneWorld

def snapshot (w : CloneWorld Node Value) : Snapshot Node Value := fun n => (w.slot.value n, w.slot.stamp n)

/-- The client handles a sync: an object that exists is not created again. -/
def receive (w : CloneWorld Node Value) (msg : Sync Node Value) (held : Snapshot Node Value) (canApply : Bool) :
    CloneWorld Node Value :=
  match msg.kind with
  | .create => w
  | .first =>
    match handleCloneUpdate w.object msg.frameIndex msg canApply with
    | (.OK, object) => { w with object, asOf := fun n => if (msg.nodes n).isSome then msg.frameIndex else w.asOf n }
    | (.ResendCloneMinimal, object) => { w with object }
  | .sync =>
    match handleCloneUpdate w.object msg.frameIndex msg canApply with
    | (.OK, object) =>
      { w with object, asOf := fun _ => msg.frameIndex, accepted := (object.nodes, held) :: w.accepted }
    | (.ResendCloneMinimal, object) => { w with object }

/-- One step; `creates` and `firsts` are the nodes of a create and of a first-frame sync. A sync that holds no node is
not sent. A NAck can name any frames and resend frames. -/
def step [Fintype Node] (creates firsts : Node → Bool) (w : CloneWorld Node Value) :
    CloneAction Node Value → Option (CloneWorld Node Value)
  | .update nodes => some { w with slot := w.slot.parse nodes }
  | .tick input =>
    some { w with
      slot := w.slot.tick .NAK input
      flight := w.flight ++
        ((w.slot.syncs creates firsts input).filter fun msg => ∃ n, (msg.nodes n).isSome).map fun msg =>
          (msg, w.snapshot) }
  | .deliver canApply =>
    match w.flight with
    | [] => none
    | (msg, held) :: flight => some ({ w with flight }.receive msg held canApply)
  | .lose =>
    match w.flight with
    | [] => none
    | _ :: flight => some { w with flight }
  | .nack nack => (w.slot.gameStateNAck nack).map fun slot => { w with slot }

/-- After each accepted update the client had every node as the server held it. -/
def Agreed (w : CloneWorld Node Value) : Prop :=
  ∀ e ∈ w.accepted, ∀ n, 0 < (e.2 n).2 → e.1 n = some (e.2 n).1

/-- An update that passes the check of its base: each node the server had stamped up to the base was stamped no later
than the last applied update that was full or carried the node. -/
def BaseHeld (w : CloneWorld Node Value) : CloneAction Node Value → Prop
  | .deliver _ => ∀ msg held, w.flight.head? = some (msg, held) → msg.kind = .sync →
    msg.baseFrameIndex ≤ w.object.lastFrameUpdated →
      ∀ n, 0 < (held n).2 → (held n).2 ≤ msg.baseFrameIndex → (held n).2 ≤ w.asOf n
  | _ => True

/-- The later snapshot has what the earlier one has, in each node that was not stamped after the frame. -/
def Continues (frame : Nat) (earlier later : Snapshot Node Value) : Prop :=
  ∀ n, (later n).2 ≤ frame → later n = earlier n

/-- The client has the nodes of a snapshot that are not newer than its copy. -/
def Has (w : CloneWorld Node Value) (held : Snapshot Node Value) : Prop :=
  ∀ n, 0 < (held n).2 → (held n).2 ≤ w.asOf n → w.object.nodes n = some (held n).1

/-- A sync holds nodes of its snapshot, and an update all those stamped after its base. -/
structure Built (msg : Sync Node Value) (held : Snapshot Node Value) : Prop where
  nodes_eq : ∀ n p, msg.nodes n = some p → p = held n
  complete : msg.kind = .sync → ∀ n, msg.baseFrameIndex < (held n).2 → msg.nodes n = some (held n)

structure Inv (w : CloneWorld Node Value) : Prop where
  asOf_lt : ∀ n, w.asOf n < w.slot.frameIndex
  flight_lt : ∀ e ∈ w.flight, e.1.frameIndex < w.slot.frameIndex
  built : ∀ e ∈ w.flight, Built e.1 e.2
  pairwise : w.flight.Pairwise fun e e' => Continues e.1.frameIndex e.2 e'.2
  current : ∀ e ∈ w.flight, Continues e.1.frameIndex e.2 w.snapshot
  has_flight : ∀ e ∈ w.flight, w.Has e.2
  has_current : w.Has w.snapshot
  agreed : w.Agreed

/-- An object that has just been created on the client: no sync is on its way, and the object has the nodes that
the create gave it. -/
structure Created (w : CloneWorld Node Value) : Prop where
  flight_eq : w.flight = []
  accepted_eq : w.accepted = []
  asOf_lt : ∀ n, w.asOf n < w.slot.frameIndex
  has_current : w.Has w.snapshot

theorem Created.inv {w : CloneWorld Node Value} (h : w.Created) : w.Inv where
  asOf_lt := h.asOf_lt
  flight_lt := by rw [h.flight_eq]; simp
  built := by rw [h.flight_eq]; simp
  pairwise := by rw [h.flight_eq]; exact .nil
  current := by rw [h.flight_eq]; simp
  has_flight := by rw [h.flight_eq]; simp
  has_current := h.has_current
  agreed := by rw [Agreed, h.accepted_eq]; simp

theorem Inv.update {w : CloneWorld Node Value} (h : w.Inv) (nodes : Node → Option Value) :
    Inv { w with slot := w.slot.parse nodes } := by
  have hnew : ∀ n, snapshot { w with slot := w.slot.parse nodes } n = w.snapshot n ∨
      (snapshot { w with slot := w.slot.parse nodes } n).2 = w.slot.frameIndex := by
    intro n
    cases hn : nodes n with
    | none => exact .inl (by simp [snapshot, Slot.parse, hn])
    | some v => exact .inr (by simp [snapshot, Slot.parse, hn])
  refine ⟨h.asOf_lt, h.flight_lt, h.built, h.pairwise, fun e he n hle => ?_, h.has_flight, fun n hpos hle =>
    ?_, h.agreed⟩
  · obtain hsame | hstamp := hnew n
    · rw [hsame] at hle ⊢
      exact h.current e he n hle
    · rw [hstamp] at hle
      exact absurd (h.flight_lt e he) (Nat.not_lt_of_le hle)
  · obtain hsame | hstamp := hnew n
    · rw [hsame] at hpos hle ⊢
      exact h.has_current n hpos hle
    · rw [hstamp] at hle
      exact absurd (h.asOf_lt n) (Nat.not_lt_of_le hle)

/-- What a tick builds. -/
theorem built_syncs {w : CloneWorld Node Value} {creates firsts : Node → Bool} {input : TickInput}
    {msg : Sync Node Value} (h : msg ∈ w.slot.syncs creates firsts input) : msg.frameIndex = w.slot.frameIndex ∧
      Built msg w.snapshot := by
  have hnodes : ∀ (carries : Node → Bool) (base : Nat) (n : Node) (p : Value × Nat),
      w.slot.unparse carries base n = some p → p = w.snapshot n := by
    rintro carries base n ⟨v, k⟩ hnode
    obtain ⟨rfl, rfl, _⟩ := Slot.unparse_some hnode
    rfl
  unfold Slot.syncs at h
  split_ifs at h
  · obtain rfl := List.mem_singleton.mp h
    refine ⟨rfl, hnodes _ _, fun _ n hlt => ?_⟩
    dsimp only at hlt ⊢
    exact Slot.unparse_of_lt rfl hlt
  · obtain rfl | h := List.mem_cons.mp h
    · exact ⟨rfl, hnodes _ _, fun hkind => by cases hkind⟩
    · obtain rfl := List.mem_singleton.mp h
      exact ⟨rfl, hnodes _ _, fun hkind => by cases hkind⟩
  · cases h

theorem Inv.tick [Fintype Node] {w : CloneWorld Node Value} (h : w.Inv) (creates firsts : Node → Bool)
    (input : TickInput) :
    Inv { w with
      slot := w.slot.tick .NAK input
      flight := w.flight ++
        ((w.slot.syncs creates firsts input).filter fun msg => ∃ n, (msg.nodes n).isSome).map
          fun msg => (msg, w.snapshot) } := by
  have hsame : ∀ flight, snapshot { w with slot := w.slot.tick .NAK input, flight } = w.snapshot := by
    intro flight
    unfold snapshot
    simp only [Slot.tick_value, Slot.tick_stamp]
  generalize hnews : ((w.slot.syncs creates firsts input).filter fun msg => ∃ n, (msg.nodes n).isSome).map
    (fun msg => (msg, w.snapshot)) = news
  have hnew : ∀ e ∈ news, e.1.frameIndex = w.slot.frameIndex ∧ Built e.1 e.2 ∧ e.2 = w.snapshot := by
    intro e he
    rw [← hnews] at he
    obtain ⟨msg, hmsg, rfl⟩ := List.mem_map.mp he
    obtain ⟨hframe, hbuilt⟩ := built_syncs (List.mem_filter.mp hmsg).1
    exact ⟨hframe, hbuilt, rfl⟩
  refine ⟨fun n => ?_, fun e he => ?_, fun e he => ?_, ?_, fun e he => ?_, fun e he => ?_, ?_, h.agreed⟩
  · rw [Slot.tick_frameIndex]
    exact Nat.lt_succ_of_lt (h.asOf_lt n)
  · rw [Slot.tick_frameIndex]
    obtain hold | he := List.mem_append.mp he
    · exact Nat.lt_succ_of_lt (h.flight_lt e hold)
    · rw [(hnew e he).1]
      exact Nat.lt_succ_self _
  · obtain hold | he := List.mem_append.mp he
    · exact h.built e hold
    · exact (hnew e he).2.1
  · refine List.pairwise_append.mpr ⟨h.pairwise, ?_, fun e he e' he' => ?_⟩
    · exact List.pairwise_of_forall_mem_list fun e he e' he' n _ => by rw [(hnew e he).2.2, (hnew e' he').2.2]
    · rw [(hnew e' he').2.2]
      exact h.current e he
  · rw [hsame]
    obtain hold | he := List.mem_append.mp he
    · exact h.current e hold
    · rw [(hnew e he).2.2]
      exact fun _ _ => rfl
  · obtain hold | he := List.mem_append.mp he
    · exact h.has_flight e hold
    · rw [(hnew e he).2.2]
      exact h.has_current
  · rw [hsame]
    exact h.has_current

/-- A NAck changes no node and no stamp. -/
theorem gameStateNAck_fields {s s' : Slot Node Value} {nack : NAck} (h : s.gameStateNAck nack = some s') :
    s'.value = s.value ∧ s'.stamp = s.stamp ∧ s'.frameIndex = s.frameIndex := by
  obtain ⟨thisFrame, missing, resendFrames, recreate⟩ := nack
  obtain ⟨corrected, hcorrected, hrest⟩ := Option.bind_eq_some_iff.mp h
  obtain ⟨_, _, rfl⟩ := Option.map_eq_some_iff.mp hrest
  cases missing with
  | none =>
    cases hcorrected
    exact ⟨rfl, rfl, rfl⟩
  | some range =>
    obtain ⟨st, _, rfl⟩ := Option.map_eq_some_iff.mp hcorrected
    exact ⟨rfl, rfl, rfl⟩

theorem Inv.nack {w : CloneWorld Node Value} (h : w.Inv) {nack : NAck} {slot : Slot Node Value}
    (hnack : w.slot.gameStateNAck nack = some slot) : Inv { w with slot } := by
  obtain ⟨hvalue, hstamp, hframe⟩ := gameStateNAck_fields hnack
  have hsame : snapshot { w with slot } = w.snapshot := by
    unfold snapshot
    simp only [hvalue, hstamp]
  refine ⟨fun n => ?_, fun e he => ?_, h.built, h.pairwise, fun e he => ?_, h.has_flight, ?_, h.agreed⟩
  · rw [hframe]
    exact h.asOf_lt n
  · rw [hframe]
    exact h.flight_lt e he
  · rw [hsame]
    exact h.current e he
  · rw [hsame]
    exact h.has_current

section Receive

variable {w : CloneWorld Node Value} {msg : Sync Node Value} {held : Snapshot Node Value}
  {flight : List (Sync Node Value × Snapshot Node Value)}

theorem Inv.lose (h : w.Inv) (hflight : w.flight = (msg, held) :: flight) : Inv { w with flight } := by
  have hmem : ∀ e ∈ flight, e ∈ w.flight := fun e he => by rw [hflight]; exact List.mem_cons_of_mem _ he
  refine ⟨h.asOf_lt, fun e he => h.flight_lt e (hmem e he), fun e he => h.built e (hmem e he), ?_,
    fun e he => h.current e (hmem e he), fun e he => h.has_flight e (hmem e he), h.has_current, h.agreed⟩
  have hpairwise := h.pairwise
  rw [hflight] at hpairwise
  exact hpairwise.of_cons

/-- What the client has after it has applied a sync and taken note of what is up to date. -/
theorem Inv.apply (h : w.Inv) (hflight : w.flight = (msg, held) :: flight) {asOf : Node → Nat}
    {nodes : Node → Option Value} {lastFrameUpdated : Nat}
    {accepted : List ((Node → Option Value) × Snapshot Node Value)}
    (hasOf : ∀ n, asOf n = w.asOf n ∧ nodes n = w.object.nodes n ∨
      asOf n = msg.frameIndex ∧ (0 < (held n).2 → nodes n = some (held n).1))
    (hagreed : ∀ e ∈ accepted, ∀ n, 0 < (e.2 n).2 → e.1 n = some (e.2 n).1) :
    Inv { w with flight, object := ⟨lastFrameUpdated, nodes⟩, asOf, accepted } := by
  have hlose := h.lose hflight
  have hfirst : (msg, held) ∈ w.flight := by rw [hflight]; exact List.mem_cons_self
  have hhas : ∀ later, Continues msg.frameIndex held later → w.Has later →
      Has { w with flight, object := ⟨lastFrameUpdated, nodes⟩, asOf, accepted } later := by
    intro later hcontinues hold n hpos hle
    obtain ⟨heq, hnodes⟩ | ⟨heq, hnodes⟩ := hasOf n
    · dsimp only at hle ⊢
      rw [heq] at hle
      rw [hnodes]
      exact hold n hpos hle
    · dsimp only at hle ⊢
      rw [heq] at hle
      rw [hcontinues n hle] at hpos ⊢
      exact hnodes hpos
  have hpairwise := h.pairwise
  rw [hflight] at hpairwise
  refine ⟨fun n => ?_, hlose.flight_lt, hlose.built, hlose.pairwise, hlose.current, fun e he => ?_, ?_, hagreed⟩
  · obtain ⟨heq, _⟩ | ⟨heq, _⟩ := hasOf n
    · dsimp only
      rw [heq]
      exact h.asOf_lt n
    · dsimp only
      rw [heq]
      exact h.flight_lt _ hfirst
  · exact hhas e.2 (List.rel_of_pairwise_cons hpairwise he) (hlose.has_flight e he)
  · exact hhas w.snapshot (h.current _ hfirst) h.has_current

/-- An update whose base the client holds leaves the client with the whole snapshot. -/
theorem Inv.nodes_eq (h : w.Inv) (hmem : (msg, held) ∈ w.flight) (hkind : msg.kind = .sync)
    (hbase : ∀ n, 0 < (held n).2 → (held n).2 ≤ msg.baseFrameIndex → (held n).2 ≤ w.asOf n) (n : Node)
    (hpos : 0 < (held n).2) : ((msg.nodes n).map Prod.fst).or (w.object.nodes n) = some (held n).1 := by
  have hbuilt := h.built _ hmem
  by_cases hnew : msg.baseFrameIndex < (held n).2
  · rw [hbuilt.complete hkind n hnew]
    rfl
  · have hhas := h.has_flight _ hmem n hpos (hbase n hpos (Nat.le_of_not_lt hnew))
    cases hnode : msg.nodes n with
    | none => exact hhas
    | some p =>
      rw [hbuilt.nodes_eq n p hnode]
      rfl

theorem Inv.receive (h : w.Inv) (hflight : w.flight = (msg, held) :: flight) {canApply : Bool}
    (hbase : w.BaseHeld (.deliver canApply)) : Inv ({ w with flight }.receive msg held canApply) := by
  have hmem : (msg, held) ∈ w.flight := by rw [hflight]; exact List.mem_cons_self
  unfold CloneWorld.receive handleCloneUpdate
  cases hkind : msg.kind with
  | create => exact h.lose hflight
  | first =>
    by_cases hold : w.object.lastFrameUpdated < msg.baseFrameIndex
    · simp only [if_pos hold]
      exact h.lose hflight
    · cases canApply with
      | false =>
        simp only [if_neg hold, Bool.false_eq_true, if_false]
        exact h.lose hflight
      | true =>
        simp only [if_neg hold, if_true]
        refine h.apply hflight (fun n => ?_) h.agreed
        cases hnode : msg.nodes n with
        | none => exact .inl ⟨rfl, rfl⟩
        | some p =>
          refine .inr ⟨rfl, fun _ => ?_⟩
          rw [(h.built _ hmem).nodes_eq n p hnode]
          rfl
  | sync =>
    by_cases hold : w.object.lastFrameUpdated < msg.baseFrameIndex
    · simp only [if_pos hold]
      exact h.lose hflight
    · cases canApply with
      | false =>
        simp only [if_neg hold, Bool.false_eq_true, if_false]
        exact h.lose hflight
      | true =>
        simp only [if_neg hold, if_true]
        have hhead : w.flight.head? = some (msg, held) := by rw [hflight]; rfl
        have hnodes := h.nodes_eq hmem hkind (hbase msg held hhead hkind (Nat.le_of_not_lt hold))
        refine h.apply hflight (fun n => .inr ⟨rfl, hnodes n⟩) fun e he => ?_
        obtain rfl | he := List.mem_cons.mp he
        · exact hnodes
        · exact h.agreed e he

end Receive

theorem step_inv [Fintype Node] {creates firsts : Node → Bool} {w w' : CloneWorld Node Value}
    {action : CloneAction Node Value} (h : w.Inv) (hbase : w.BaseHeld action)
    (hstep : w.step creates firsts action = some w') : w'.Inv := by
  cases action with
  | update nodes =>
    cases hstep
    exact h.update nodes
  | tick input =>
    cases hstep
    exact h.tick creates firsts input
  | deliver canApply =>
    rw [step] at hstep
    split at hstep
    · cases hstep
    · cases hstep
      exact h.receive ‹_› hbase
  | lose =>
    rw [step] at hstep
    split at hstep
    · cases hstep
    · cases hstep
      exact h.lose ‹_›
  | nack nack =>
    obtain ⟨slot, hnack, rfl⟩ := Option.map_eq_some_iff.mp hstep
    exact h.nack hnack

/-- An update is only ever applied to the state it depends on, in any run in which the client holds the base of each
update that passes its check. The check compares frame indices alone, so it is the condition, not the check,
that carries the content of the base. -/
theorem run_agreed [Fintype Node] {creates firsts : Node → Bool} {w w' : CloneWorld Node Value}
    {actions : List (CloneAction Node Value)} (hcreated : w.Created)
    (hrun : Transition.Run (step creates firsts) BaseHeld w actions w') : w'.Agreed :=
  (hrun.invariant Inv hcreated.inv fun hinv hok hstep => step_inv hinv hok hstep).agreed

/-- An entity of two nodes stamped 9 that the server creates at frame 10; the object has no node yet. -/
def createdAt10 : CloneWorld Bool Nat :=
  ⟨⟨10, fun _ => 1, fun _ => 9, 9, 0, 0, false, [], 1⟩, [], ⟨0, fun _ => none⟩, fun _ => 0, []⟩

theorem createdAt10_created : createdAt10.Created :=
  ⟨rfl, rfl, fun _ => Nat.zero_lt_succ 9, fun _ _ hle => absurd hle (Nat.not_succ_le_zero 8)⟩

/-- One of the nodes is in the create and in the first-frame sync. -/
def oneNode : Bool → Bool := fun n => n

/-- The create, the first-frame sync and the update of frame 11 arrive. -/
theorem run_agreed_full :
    ∃ w, Transition.Run (step oneNode oneNode) BaseHeld createdAt10
      [.tick ⟨false, false, true, false, false⟩, .deliver true, .deliver true,
        .tick ⟨false, false, true, false, false⟩, .deliver true] w ∧ w.accepted.length = 1 ∧ w.Agreed := by
  have hrun : Transition.Run (step oneNode oneNode) BaseHeld createdAt10
      [.tick ⟨false, false, true, false, false⟩, .deliver true, .deliver true,
        .tick ⟨false, false, true, false, false⟩, .deliver true] _ :=
    .cons trivial rfl (.cons (fun _ _ hhead hkind => by cases hhead; cases hkind) rfl
      (.cons (fun _ _ hhead hkind => by cases hhead; cases hkind) rfl (.cons trivial rfl
        (.cons (fun _ _ hhead _ _ _ hpos hle => by cases hhead; exact absurd (hpos.trans_le hle) (by decide)) rfl
          (.nil _)))))
  exact ⟨_, hrun, rfl, run_agreed createdAt10_created hrun⟩

/-- The update of frame 11, which is full, is lost. The update of frame 12 depends on stamp 9 and is applied, since
the first-frame sync has set `lastFrameUpdated` to 10: the client never had the other node. -/
theorem run_not_agreed :
    ∃ w, Transition.Run (step oneNode oneNode) (fun _ _ => True) createdAt10
      [.tick ⟨false, false, true, false, false⟩, .deliver true, .deliver true,
        .tick ⟨false, false, true, false, false⟩, .lose, .update fun n => if n then some 2 else none,
          .tick ⟨false, false, true, false, false⟩, .deliver true] w ∧
      ¬ w.Agreed := by
  have hrun : Transition.Run (step oneNode oneNode) (fun _ _ => True) createdAt10
      [.tick ⟨false, false, true, false, false⟩, .deliver true, .deliver true,
        .tick ⟨false, false, true, false, false⟩, .lose, .update fun n => if n then some 2 else none,
          .tick ⟨false, false, true, false, false⟩, .deliver true] _ :=
    .cons trivial rfl (.cons trivial rfl (.cons trivial rfl (.cons trivial rfl (.cons trivial rfl (.cons trivial rfl
      (.cons trivial rfl (.cons trivial rfl (.nil _))))))))
  refine ⟨_, hrun, fun hagreed => ?_⟩
  have hnode := hagreed _ List.mem_cons_self false (by decide)
  exact absurd hnode (by decide)

end CloneWorld

end fx
