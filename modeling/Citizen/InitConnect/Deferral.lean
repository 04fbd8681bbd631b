import Citizen.Lib.Transition

open Std Transition

namespace fx.ClientDeferral

/-- An argument of a call: a string, or another value, which has a form in JSON. -/
inductive Arg
  | str (text : String)
  | other (json : String)
  deriving DecidableEq

/-- A call on the object that `playerConnecting` gets. -/
inductive DeferralCall
  | defer
  | update (args : List Arg)
  | presentCard (args : List Arg)
  | done (args : List Arg)
  | handover (args : List Arg)
  deriving DecidableEq

structure DeferralState where
  done : Bool := false
  rejected : Bool := false
  description : String := ""
  message : String := ""

/-- A callback of the deferral with what it is given. -/
inductive Callback
  | resolve
  | reject (message : String)
  | message (text : String)
  | card (json : String)
  deriving DecidableEq

/-- The callbacks that were run are there for the record, and so are the calls before the deferral was completed. -/
structure Deferral where
  deferralStates : TreeMap String DeferralState := ∅
  nextCard : String := ""
  completed : Bool := false
  ranEvents : Bool := false
  pending : Bool := false
  callbacks : List Callback := []
  history : List (String × DeferralCall) := []

namespace Deferral

variable (self : Deferral)

def run (callback : Callback) : Deferral := { self with callbacks := self.callbacks ++ [callback] }

def updateDeferrals : Deferral :=
  if !self.ranEvents then { self with pending := true }
  else
    match self.deferralStates.toList.find? (·.2.rejected) with
    | some entry => { self with completed := true }.run (.reject entry.2.message)
    | none =>
      if self.deferralStates.toList.all (·.2.done) then { self with completed := true }.run .resolve
      else
        let progress := self.deferralStates.toList.filter (!·.2.done)
        self.run (.message (String.join
          (progress.map fun entry => entry.2.description ++ ": " ++ entry.2.message ++ "\n")))

def presentCard (json : String) : Deferral :=
  if !self.ranEvents then { self with nextCard := json } else self.run (.card json)

/-- `RanEvents`, after the event of the connection. -/
def eventsRan : Deferral :=
  let self := { self with ranEvents := true }
  let self := if self.pending then { self.updateDeferrals with pending := false } else self
  let card := self.nextCard
  let self := { self with nextCard := "" }
  if card = "" then self else self.presentCard card

/-- `m_deferralStates[deferralKey]`, which is there from then on. -/
def state (deferralKey : String) : DeferralState := (self.deferralStates[deferralKey]?).getD {}

def setState (deferralKey : String) (ds : DeferralState) : Deferral :=
  { self with deferralStates := self.deferralStates.insert deferralKey ds }

/-- A call by a resource. What is no string throws where a string is expected. -/
def call (deferralKey : String) : DeferralCall → Deferral
  | .defer =>
    (self.setState deferralKey { description := deferralKey, message := "Deferring connection..." }).updateDeferrals
  | .update args =>
    let deferralState := self.state deferralKey
    match args with
    | [.str message] => (self.setState deferralKey { deferralState with message }).updateDeferrals
    | _ => self.setState deferralKey deferralState
  | .presentCard args =>
    let self := self.setState deferralKey (self.state deferralKey)
    match args with
    | .str card :: _ => self.presentCard card
    | .other json :: _ => self.presentCard json
    | [] => self
  | .done args =>
    let deferralState := { self.state deferralKey with done := true }
    match args with
    | [.str message] => (self.setState deferralKey { deferralState with message, rejected := true }).updateDeferrals
    | [.other _] => self.setState deferralKey deferralState
    | _ => (self.setState deferralKey deferralState).updateDeferrals
  | .handover _ => self

end Deferral

inductive Action
  | call (resource : String) (call : DeferralCall)
  | ranEvents

/-- A completed deferral takes no calls. -/
def step (self : Deferral) : Action → Option Deferral
  | .call resource call =>
    if self.completed then some self
    else some { self.call resource call with history := self.history ++ [(resource, call)] }
  | .ranEvents => some self.eventsRan

/-- The calls of a resource. -/
def callsOf (history : List (String × DeferralCall)) (resource : String) : List DeferralCall :=
  (history.filter (·.1 = resource)).map Prod.snd

/-- The calls of a resource since it has called `defer`. -/
def sinceDefer (history : List (String × DeferralCall)) (resource : String) : List DeferralCall :=
  (callsOf history resource).reverse.takeWhile (· ≠ .defer)

/-- A resource has touched the deferral. -/
def Touches (history : List (String × DeferralCall)) (resource : String) : Prop :=
  ∃ call ∈ callsOf history resource, ∀ args, call ≠ .handover args

/-- A resource is done. -/
def Completes (history : List (String × DeferralCall)) (resource : String) : Prop :=
  ∃ args, .done args ∈ sinceDefer history resource

/-- A resource is done with a reason. -/
def Rejects (history : List (String × DeferralCall)) (resource : String) : Prop :=
  ∃ reason, .done [.str reason] ∈ sinceDefer history resource

/-- The arguments of a `done`. -/
def DeferralCall.doneArgs : DeferralCall → Option (List Arg)
  | .done args => some args
  | _ => none

/-- A resource's latest `done` had a reason. -/
def LatestRejects (history : List (String × DeferralCall)) (resource : String) : Prop :=
  ∃ reason, ((callsOf history resource).filterMap DeferralCall.doneArgs).getLast? = some [.str reason]

/-- Every resource that has touched the deferral is done, and none has a reason. -/
def AllDone (history : List (String × DeferralCall)) : Prop :=
  (∃ resource, Touches history resource) ∧
    ∀ resource, Touches history resource → Completes history resource ∧ ¬ Rejects history resource

def Callback.isOutcome : Callback → Bool
  | .resolve => true
  | .reject _ => true
  | .message _ => false
  | .card _ => false

/-- The outcomes of the deferral. -/
def Deferral.outcomes (self : Deferral) : List Callback := self.callbacks.filter Callback.isOutcome

/-- The only argument of a `done` is a string. -/
def Action.Typed : Action → Prop
  | .call _ (.done args) => ∀ json, args ≠ [.other json]
  | _ => True

section History

variable {history : List (String × DeferralCall)} {resource other : String} {call : DeferralCall}

theorem callsOf_self : callsOf (history ++ [(resource, call)]) resource = callsOf history resource ++ [call] := by
  rw [callsOf, List.filter_append, List.map_append, List.filter_cons_of_pos (by simp)]
  rfl

theorem callsOf_other (hother : other ≠ resource) :
    callsOf (history ++ [(resource, call)]) other = callsOf history other := by
  rw [callsOf, List.filter_append, List.map_append, List.filter_cons_of_neg (by simpa using hother.symm),
    List.filter_nil, List.map_nil, List.append_nil]
  rfl

theorem sinceDefer_self : sinceDefer (history ++ [(resource, call)]) resource =
    if call = .defer then [] else call :: sinceDefer history resource := by
  rw [sinceDefer, callsOf_self, List.reverse_append, List.reverse_singleton, List.singleton_append,
    List.takeWhile_cons]
  by_cases hdefer : call = .defer
  · rw [if_pos hdefer, if_neg (by simpa using hdefer)]
  · rw [if_neg hdefer, if_pos (by simpa using hdefer)]
    rfl

theorem touches_self : Touches (history ++ [(resource, call)]) resource ↔
    Touches history resource ∨ ∀ args, call ≠ .handover args := by
  rw [Touches, callsOf_self]
  simp only [List.mem_append, List.mem_singleton, or_and_right, exists_or, exists_eq_left]
  rfl

theorem completes_self : Completes (history ++ [(resource, call)]) resource ↔
    (∃ args, call = .done args) ∨ call ≠ .defer ∧ Completes history resource := by
  rw [Completes, sinceDefer_self]
  by_cases hdefer : call = .defer
  · rw [if_pos hdefer, hdefer]
    simp
  · rw [if_neg hdefer]
    simp only [List.mem_cons, exists_or, eq_comm, ne_eq, hdefer, not_false_eq_true, true_and]
    rfl

theorem rejects_self : Rejects (history ++ [(resource, call)]) resource ↔
    (∃ reason, call = .done [.str reason]) ∨ call ≠ .defer ∧ Rejects history resource := by
  rw [Rejects, sinceDefer_self]
  by_cases hdefer : call = .defer
  · rw [if_pos hdefer, hdefer]
    simp
  · rw [if_neg hdefer]
    simp only [List.mem_cons, exists_or, eq_comm, ne_eq, hdefer, not_false_eq_true, true_and]
    rfl

end History

/-- The states are those of the resources that have touched the deferral. -/
structure Tracks (deferralStates : TreeMap String DeferralState) (history : List (String × DeferralCall)) : Prop where
  touched : ∀ resource, deferralStates[resource]?.isSome = true ↔ Touches history resource
  done : ∀ resource (ds : DeferralState), deferralStates[resource]? = some ds →
    (ds.done = true ↔ Completes history resource)
  rejected : ∀ resource (ds : DeferralState), deferralStates[resource]? = some ds →
    (ds.rejected = true ↔ Rejects history resource)

section Tracks

variable {deferralStates : TreeMap String DeferralState} {history : List (String × DeferralCall)} {resource : String}
  {call : DeferralCall}

theorem Completes.touches (h : Completes history resource) : Touches history resource := by
  obtain ⟨args, hmem⟩ := h
  refine ⟨.done args, ?_, nofun⟩
  exact List.mem_reverse.mp (List.takeWhile_subset _ hmem)

theorem Rejects.completes (h : Rejects history resource) : Completes history resource :=
  let ⟨reason, hmem⟩ := h
  ⟨[.str reason], hmem⟩

theorem tracks_nil : Tracks ∅ [] where
  touched _ := by simp [Touches, callsOf]
  done _ _ h := by simp at h
  rejected _ _ h := by simp at h

/-- What the map has for a resource, or would have. -/
theorem Tracks.old (h : Tracks deferralStates history) (resource : String) :
    ((deferralStates[resource]?.getD {}).done = true ↔ Completes history resource) ∧
      ((deferralStates[resource]?.getD {}).rejected = true ↔ Rejects history resource) := by
  cases hstate : deferralStates[resource]? with
  | none =>
    have hnot : ¬ Touches history resource := by
      rw [← h.touched, hstate]
      exact Bool.false_ne_true
    exact ⟨iff_of_false Bool.false_ne_true fun hdone => hnot hdone.touches,
      iff_of_false Bool.false_ne_true fun hrejected => hnot hrejected.completes.touches⟩
  | some ds => exact ⟨h.done resource ds hstate, h.rejected resource ds hstate⟩

/-- A handover leaves all states as they are. -/
theorem Tracks.handover (h : Tracks deferralStates history) (args : List Arg) :
    Tracks deferralStates (history ++ [(resource, .handover args)]) := by
  have hcalls : ∀ other, Touches (history ++ [(resource, .handover args)]) other ↔ Touches history other := by
    intro other
    by_cases hother : other = resource
    · subst hother
      rw [touches_self]
      exact or_iff_left fun hcall => hcall args rfl
    · rw [Touches, callsOf_other hother]
      rfl
  have hdone : ∀ other, (Completes (history ++ [(resource, .handover args)]) other ↔ Completes history other) ∧
      (Rejects (history ++ [(resource, .handover args)]) other ↔ Rejects history other) := by
    intro other
    by_cases hother : other = resource
    · subst hother
      rw [completes_self, rejects_self]
      simp
    · rw [Completes, Rejects, sinceDefer, callsOf_other hother]
      exact ⟨Iff.rfl, Iff.rfl⟩
  exact ⟨fun other => (h.touched other).trans (hcalls other).symm,
    fun other ds hds => (h.done other ds hds).trans (hdone other).1.symm,
    fun other ds hds => (h.rejected other ds hds).trans (hdone other).2.symm⟩

theorem Tracks.insert (h : Tracks deferralStates history) (hcall : ∀ args, call ≠ .handover args) {ds : DeferralState}
    (hdone : ds.done = true ↔ (∃ args, call = .done args) ∨ call ≠ .defer ∧
      (deferralStates[resource]?.getD {}).done = true)
    (hrejected : ds.rejected = true ↔
      (∃ reason, call = .done [.str reason]) ∨ call ≠ .defer ∧ (deferralStates[resource]?.getD {}).rejected = true) :
    Tracks (deferralStates.insert resource ds) (history ++ [(resource, call)]) := by
  obtain ⟨holdDone, holdRejected⟩ := h.old resource
  have hget : ∀ other, (deferralStates.insert resource ds)[other]? = if other = resource then some ds
    else deferralStates[other]? := by
    intro other
    rw [TreeMap.getElem?_insert]
    by_cases hother : other = resource
    · rw [if_pos hother, if_pos (by rw [hother]; exact ReflCmp.compare_self)]
    · rw [if_neg hother, if_neg fun heq => hother (LawfulEqCmp.eq_of_compare heq).symm]
  refine ⟨fun other => ?_, fun other other' hother' => ?_, fun other other' hother' => ?_⟩
  · rw [hget]
    by_cases hother : other = resource
    · rw [if_pos hother, hother, touches_self]
      exact iff_of_true rfl (.inr hcall)
    · rw [if_neg hother, h.touched, Touches, Touches, callsOf_other hother]
  · rw [hget] at hother'
    by_cases hother : other = resource
    · rw [if_pos hother] at hother'
      cases hother'
      rw [hother, hdone, completes_self, holdDone]
    · rw [if_neg hother] at hother'
      rw [h.done other other' hother', Completes, Completes, sinceDefer, sinceDefer, callsOf_other hother]
  · rw [hget] at hother'
    by_cases hother : other = resource
    · rw [if_pos hother] at hother'
      cases hother'
      rw [hother, hrejected, rejects_self, holdRejected]
    · rw [if_neg hother] at hother'
      rw [h.rejected other other' hother', Rejects, Rejects, sinceDefer, sinceDefer, callsOf_other hother]

/-- The loop of `UpdateDeferrals` finds a state that is rejected. -/
theorem Tracks.find_rejected (h : Tracks deferralStates history) :
    (deferralStates.toList.find? (·.2.rejected)).isSome = true ↔ ∃ resource, Rejects history resource := by
  rw [List.find?_isSome]
  constructor
  · rintro ⟨⟨resource, ds⟩, hmem, hrejected⟩
    exact ⟨resource, (h.rejected resource ds (TreeMap.mem_toList_iff_getElem?_eq_some.mp hmem)).mp hrejected⟩
  · rintro ⟨resource, hrejected⟩
    obtain ⟨ds, hds⟩ := Option.isSome_iff_exists.mp ((h.touched resource).mpr hrejected.completes.touches)
    exact ⟨(resource, ds), TreeMap.mem_toList_iff_getElem?_eq_some.mpr hds, (h.rejected resource ds hds).mpr hrejected⟩

/-- It finds all states done. -/
theorem Tracks.all_done (h : Tracks deferralStates history) :
    deferralStates.toList.all (·.2.done) = true ↔ ∀ resource, Touches history resource →
      Completes history resource := by
  rw [List.all_eq_true]
  constructor
  · intro hall resource htouches
    obtain ⟨ds, hds⟩ := Option.isSome_iff_exists.mp ((h.touched resource).mpr htouches)
    exact (h.done resource ds hds).mp (hall (resource, ds) (TreeMap.mem_toList_iff_getElem?_eq_some.mpr hds))
  · rintro hall ⟨resource, ds⟩ hmem
    have hds := TreeMap.mem_toList_iff_getElem?_eq_some.mp hmem
    exact (h.done resource ds hds).mpr (hall resource ((h.touched resource).mp (by rw [hds]; rfl)))

end Tracks

/-- The deferral has to have an outcome. -/
def Settled (history : List (String × DeferralCall)) : Prop := (∃ resource, Rejects history resource) ∨ AllDone history

/-- Nothing but the card of a deferral has changed. -/
structure Quiet (d after : Deferral) : Prop where
  deferralStates : after.deferralStates = d.deferralStates
  completed : after.completed = d.completed
  ranEvents : after.ranEvents = d.ranEvents
  pending : after.pending = d.pending
  outcomes : after.outcomes = d.outcomes
  history : after.history = d.history

/-- What `UpdateDeferrals` does to a deferral whose states are those of some calls. -/
structure Updated (history : List (String × DeferralCall)) (d after : Deferral) : Prop where
  deferralStates : after.deferralStates = d.deferralStates
  ranEvents : after.ranEvents = d.ranEvents
  history_eq : after.history = d.history
  outcome : (d.ranEvents = false ∧ after.pending = true ∧ after.completed = d.completed ∧
    after.outcomes = d.outcomes) ∨ (d.ranEvents = true ∧ after.pending = d.pending ∧
      ((after.completed = true ∧ (∃ message, after.outcomes = d.outcomes ++ [.reject message]) ∧ ∃ resource,
        Rejects history resource) ∨
          (after.completed = true ∧ after.outcomes = d.outcomes ++ [.resolve] ∧ AllDone history) ∨
        (after.completed = d.completed ∧ after.outcomes = d.outcomes ∧ ¬ Settled history)))

variable {d after : Deferral} {history : List (String × DeferralCall)} {resource : String} {call : DeferralCall}

theorem outcomes_run (callback : Callback) : (d.run callback).outcomes =
    d.outcomes ++ if callback.isOutcome then [callback] else [] := by
  rw [Deferral.outcomes, Deferral.run, List.filter_append, List.filter_singleton]
  cases callback.isOutcome with
  | false => rfl
  | true => rfl

theorem updateDeferrals_updated (htracks : Tracks d.deferralStates history)
    (htouched : ∃ resource, Touches history resource) :
    Updated history d d.updateDeferrals := by
  unfold Deferral.updateDeferrals
  split
  · rename_i hearly
    exact ⟨rfl, rfl, rfl, .inl ⟨by simpa using hearly, rfl, rfl, rfl⟩⟩
  · rename_i hlate
    have hran : d.ranEvents = true := by simpa using hlate
    split
    · rename_i entry hfind
      have hrejects := htracks.find_rejected.mp (by rw [hfind]; rfl)
      exact ⟨rfl, rfl, rfl, .inr ⟨hran, rfl, .inl ⟨rfl, ⟨entry.2.message, outcomes_run _⟩, hrejects⟩⟩⟩
    · rename_i hnone
      have hrejects : ¬ ∃ resource, Rejects history resource := by
        rw [← htracks.find_rejected, hnone]
        exact Bool.false_ne_true
      split
      · rename_i hall
        have hdone : AllDone history := ⟨htouched, fun resource htouches =>
          ⟨htracks.all_done.mp hall resource htouches, fun hreject => hrejects ⟨resource, hreject⟩⟩⟩
        exact ⟨rfl, rfl, rfl, .inr ⟨hran, rfl, .inr (.inl ⟨rfl, outcomes_run _, hdone⟩)⟩⟩
      · rename_i hall
        have hsettled : ¬ Settled history := by
          rintro (hreject | ⟨-, hdone⟩)
          · exact hrejects hreject
          · exact hall (htracks.all_done.mpr fun resource htouches => (hdone resource htouches).1)
        refine ⟨rfl, rfl, rfl, .inr ⟨hran, rfl, .inr (.inr ⟨rfl, ?_, hsettled⟩)⟩⟩
        rw [outcomes_run]
        exact List.append_nil _

theorem presentCard_quiet (d : Deferral) (json : String) : Quiet d (d.presentCard json) := by
  unfold Deferral.presentCard
  split
  · exact ⟨rfl, rfl, rfl, rfl, rfl, rfl⟩
  · refine ⟨rfl, rfl, rfl, rfl, ?_, rfl⟩
    rw [outcomes_run]
    exact List.append_nil _

/-- What a call does: it sets the state of its resource, and the deferral is looked at unless the call is no `defer`
and no `done`, or a `done` with a value that is no string. -/
theorem call_cases (d : Deferral) (resource : String) (call : DeferralCall) :
    (∃ args, call = .handover args ∧ d.call resource call = d) ∨
      (∀ args, call ≠ .handover args) ∧ ∃ ds : DeferralState,
        (ds.done = true ↔ (∃ args, call = .done args) ∨ call ≠ .defer ∧ (d.state resource).done = true) ∧
        (ds.rejected = true ↔ (∃ reason, call = .done [.str reason]) ∨ call ≠ .defer ∧
          (d.state resource).rejected = true) ∧
        (d.call resource call = (d.setState resource ds).updateDeferrals ∨
          Quiet (d.setState resource ds) (d.call resource call) ∧
            (call.doneArgs = none ∧ call ≠ .defer ∨ ∃ json, call = .done [.other json])) := by
  cases call with
  | defer => exact .inr ⟨nofun, _, by simp, by simp, .inl rfl⟩
  | update args =>
    refine .inr ⟨nofun, ?_⟩
    unfold Deferral.call
    dsimp only
    split
    · exact ⟨_, by simp, by simp, .inl rfl⟩
    · exact ⟨_, by simp, by simp, .inr ⟨⟨rfl, rfl, rfl, rfl, rfl, rfl⟩, .inl ⟨rfl, nofun⟩⟩⟩
  | presentCard args =>
    refine .inr ⟨nofun, d.state resource, by simp, by simp, .inr ⟨?_, .inl ⟨rfl, nofun⟩⟩⟩
    unfold Deferral.call
    dsimp only
    split
    · exact presentCard_quiet _ _
    · exact presentCard_quiet _ _
    · exact ⟨rfl, rfl, rfl, rfl, rfl, rfl⟩
  | done args =>
    refine .inr ⟨nofun, ?_⟩
    unfold Deferral.call
    dsimp only
    split
    · exact ⟨_, by simp, by simp, .inl rfl⟩
    · exact ⟨_, by simp, by simp, .inr ⟨⟨rfl, rfl, rfl, rfl, rfl, rfl⟩, .inr ⟨_, rfl⟩⟩⟩
    · rename_i hstr _
      refine ⟨{ d.state resource with done := true },
        by simp, ⟨fun hrejected => .inr ⟨nofun, hrejected⟩, ?_⟩, .inl rfl⟩
      rintro (⟨reason, heq⟩ | ⟨-, hrejected⟩)
      · exact absurd (DeferralCall.done.inj heq) (hstr reason)
      · exact hrejected
  | handover args => exact .inl ⟨args, rfl, rfl⟩

/-- What holds in any run. -/
structure Inv (d : Deferral) : Prop where
  tracks : Tracks d.deferralStates d.history
  early : d.ranEvents = false → d.completed = false
  pending : d.pending = true → d.ranEvents = false ∧ ∃ resource, Touches d.history resource
  none : d.completed = false → d.outcomes = []
  one : d.completed = true →
    (∃ message, d.outcomes = [.reject message]) ∧ (∃ resource, Rejects d.history resource) ∨
      d.outcomes = [.resolve] ∧ AllDone d.history

theorem inv_init : Inv {} where
  tracks := tracks_nil
  early _ := rfl
  pending h := by cases h
  none _ := rfl
  one h := by cases h

/-- An update keeps the invariant, for a deferral that is not completed. -/
theorem Updated.inv (h : Updated history d after) (hopen : d.completed = false) (hnone : d.outcomes = [])
    (htracks : Tracks d.deferralStates history) (htouched : ∃ resource, Touches history resource)
    (hpending : d.pending = true → d.ranEvents = false) : Inv { after with history } := by
  have htracks' : Tracks after.deferralStates history := h.deferralStates ▸ htracks
  obtain ⟨hearly, -, hcompleted, houtcomes⟩ | ⟨hran, hpending', houtcome⟩ := h.outcome
  · refine ⟨htracks', fun _ => hcompleted.trans hopen, fun _ => ⟨h.ranEvents.trans hearly, htouched⟩,
      fun _ => houtcomes.trans hnone, fun hdone => ?_⟩
    rw [hcompleted, hopen] at hdone
    cases hdone
  · have hlate : after.ranEvents = true := h.ranEvents.trans hran
    refine ⟨htracks', fun hearly => ?_, fun hdue => ?_, fun hopen' => ?_, fun hdone => ?_⟩
    · rw [hlate] at hearly
      cases hearly
    · rw [hpending (hpending'.symm.trans hdue)] at hran
      cases hran
    · obtain ⟨hdone, -⟩ | ⟨hdone, -⟩ | ⟨-, houtcomes, -⟩ := houtcome
      · rw [hdone] at hopen'
        cases hopen'
      · rw [hdone] at hopen'
        cases hopen'
      · exact houtcomes.trans hnone
    · obtain ⟨-, ⟨message, houtcomes⟩, hrejects⟩ | ⟨-, houtcomes, hall⟩ | ⟨hcompleted, -⟩ := houtcome
      · rw [hnone] at houtcomes
        exact .inl ⟨⟨message, houtcomes⟩, hrejects⟩
      · rw [hnone] at houtcomes
        exact .inr ⟨houtcomes, hall⟩
      · rw [hcompleted, hopen] at hdone
        cases hdone

theorem Quiet.inv (h : Quiet d after) (hopen : d.completed = false) (hnone : d.outcomes = [])
    (htracks : Tracks d.deferralStates history)
    (hpending : d.pending = true → d.ranEvents = false ∧ ∃ resource, Touches history resource) :
    Inv { after with history } := by
  refine ⟨h.deferralStates ▸ htracks, fun _ => h.completed.trans hopen, fun hdue => ?_,
    fun _ => h.outcomes.trans hnone, fun hdone => ?_⟩
  · obtain ⟨hearly, htouched⟩ := hpending (h.pending ▸ hdue)
    exact ⟨h.ranEvents.trans hearly, htouched⟩
  · rw [h.completed, hopen] at hdone
    cases hdone

/-- Resources that have touched the deferral have done so for good. -/
theorem Touches.append {other : String} (h : Touches history other) :
    Touches (history ++ [(resource, call)]) other := by
  obtain ⟨call', hmem, hcall⟩ := h
  refine ⟨call', ?_, hcall⟩
  rw [callsOf, List.filter_append, List.map_append]
  exact List.mem_append_left _ hmem

theorem Inv.resourceCall (hinv : Inv d) (hopen : d.completed = false) :
    Inv { d.call resource call with history := d.history ++ [(resource, call)] } := by
  have hpending : d.pending = true → d.ranEvents = false ∧ ∃ other, Touches (d.history ++ [(resource, call)]) other :=
    fun hdue => (hinv.pending hdue).imp_right fun ⟨other, htouches⟩ => ⟨other, htouches.append⟩
  obtain ⟨args, rfl, hsame⟩ | ⟨hcall, ds, hdone, hrejected, hafter⟩ := call_cases d resource call
  · rw [hsame]
    exact Quiet.inv ⟨rfl, rfl, rfl, rfl, rfl, rfl⟩ hopen (hinv.none hopen) (hinv.tracks.handover args) hpending
  · have htracks : Tracks (d.setState resource ds).deferralStates (d.history ++ [(resource, call)]) :=
      hinv.tracks.insert hcall hdone hrejected
    have htouched : ∃ other, Touches (d.history ++ [(resource, call)]) other :=
      ⟨resource, touches_self.mpr (.inr hcall)⟩
    obtain hupdate | ⟨hquiet, -⟩ := hafter
    · rw [hupdate]
      exact (updateDeferrals_updated htracks htouched).inv hopen (hinv.none hopen) htracks htouched fun hdue =>
        (hpending hdue).1
    · exact hquiet.inv hopen (hinv.none hopen) htracks hpending

/-- After the event the states are looked at if that is due. -/
theorem eventsRan_quiet (d : Deferral) : Quiet
    (if d.pending then { Deferral.updateDeferrals { d with ranEvents := true } with pending := false }
      else { d with ranEvents := true })
    d.eventsRan := by
  have hcard : ∀ between : Deferral, Quiet between
      (if between.nextCard = "" then { between with nextCard := "" } else
        ({ between with nextCard := "" } : Deferral).presentCard between.nextCard) := by
    intro between
    split
    · exact ⟨rfl, rfl, rfl, rfl, rfl, rfl⟩
    · have hquiet := presentCard_quiet { between with nextCard := "" } between.nextCard
      exact ⟨hquiet.1, hquiet.2, hquiet.3, hquiet.4, hquiet.5, hquiet.6⟩
  exact hcard _

/-- The invariant does not depend on the card. -/
theorem Inv.quiet (hinv : Inv d) (hquiet : Quiet d after) : Inv after := by
  obtain ⟨hstates, hcompleted, hran, hpending, houtcomes, hhistory⟩ := hquiet
  obtain ⟨htracks, hearly, hdue, hnone, hone⟩ := hinv
  constructor
  · rwa [hstates, hhistory]
  · rwa [hran, hcompleted]
  · rwa [hpending, hran, hhistory]
  · rwa [hcompleted, houtcomes]
  · rwa [hcompleted, houtcomes, hhistory]

/-- Once the event has run, an update does not look at what is due. -/
theorem updateDeferrals_late (d : Deferral) :
    { Deferral.updateDeferrals { d with ranEvents := true } with pending := false } =
      Deferral.updateDeferrals { d with ranEvents := true, pending := false } := by
  unfold Deferral.updateDeferrals
  dsimp only
  rw [Bool.not_true, if_neg Bool.false_ne_true, if_neg Bool.false_ne_true]
  split
  · rfl
  · split
    · rfl
    · rfl

theorem Inv.of_history (hhistory : after.history = history) (hinv : Inv { after with history }) : Inv after := by
  subst hhistory
  exact hinv

theorem Inv.eventsRan (hinv : Inv d) : Inv d.eventsRan := by
  refine Inv.quiet ?_ (eventsRan_quiet d)
  split
  · rename_i hdue
    obtain ⟨hearly, htouched⟩ := hinv.pending hdue
    have hopen := hinv.early hearly
    have hupdated : Updated d.history { d with ranEvents := true, pending := false } _ :=
      updateDeferrals_updated hinv.tracks htouched
    rw [updateDeferrals_late]
    exact Inv.of_history hupdated.history_eq (hupdated.inv hopen (hinv.none hopen) hinv.tracks htouched nofun)
  · rename_i hidle
    exact ⟨hinv.tracks, nofun, fun hdue => absurd hdue hidle, hinv.none, hinv.one⟩

theorem inv_of_run {acts : List Action} {ok : Deferral → Action → Prop} (hrun : Run step ok {} acts d) : Inv d := by
  refine hrun.invariant Inv inv_init ?_
  intro d action after hinv _ htake
  cases action with
  | call resource call =>
    rw [step] at htake
    by_cases hcompleted : d.completed = true
    · rw [if_pos hcompleted] at htake
      cases htake
      exact hinv
    · rw [if_neg hcompleted] at htake
      cases htake
      exact hinv.resourceCall (Bool.eq_false_of_not_eq_true hcompleted)
  | ranEvents =>
    cases htake
    exact hinv.eventsRan

/-- A deferral that is not completed has got no outcome yet, or its outcome is due after the event. -/
structure Prompt (d : Deferral) : Prop where
  early : d.ranEvents = false → Settled d.history → d.pending = true
  late : d.ranEvents = true → d.completed = false → ¬ Settled d.history

theorem Settled.of_append (h : Settled (history ++ [(resource, call)])) (hdefer : call ≠ .defer)
    (hdone : call.doneArgs = none) :
    Settled history := by
  have hcalls : ∀ other, (Completes (history ++ [(resource, call)]) other ↔ Completes history other) ∧
      (Rejects (history ++ [(resource, call)]) other ↔ Rejects history other) := by
    intro other
    by_cases hother : other = resource
    · subst hother
      rw [completes_self, rejects_self]
      constructor
      · refine (or_iff_right ?_).trans (and_iff_right hdefer)
        rintro ⟨args, rfl⟩
        cases hdone
      · refine (or_iff_right ?_).trans (and_iff_right hdefer)
        rintro ⟨reason, rfl⟩
        cases hdone
    · rw [Completes, Rejects, sinceDefer, callsOf_other hother]
      exact ⟨Iff.rfl, Iff.rfl⟩
  obtain ⟨other, hrejects⟩ | ⟨⟨other, htouches⟩, hall⟩ := h
  · exact .inl ⟨other, (hcalls other).2.mp hrejects⟩
  · obtain ⟨hcompletes, -⟩ := hall other htouches
    refine .inr ⟨⟨other, ((hcalls other).1.mp hcompletes).touches⟩, fun other' htouches' => ?_⟩
    obtain ⟨hcompletes', hrejects'⟩ := hall other' htouches'.append
    exact ⟨(hcalls other').1.mp hcompletes', mt (hcalls other').2.mpr hrejects'⟩

theorem Prompt.resourceCall (h : Prompt d) (hinv : Inv d) (hopen : d.completed = false)
    (htyped : (Action.call resource call).Typed) :
    Prompt { d.call resource call with history := d.history ++ [(resource, call)] } := by
  obtain ⟨args, rfl, hsame⟩ | ⟨hcall, ds, hdone, hrejected, hafter⟩ := call_cases d resource call
  · rw [hsame]
    exact ⟨fun hearly hsettled => h.early hearly (hsettled.of_append nofun rfl),
      fun hlate hopen hsettled => h.late hlate hopen (hsettled.of_append nofun rfl)⟩
  · have htracks : Tracks (d.setState resource ds).deferralStates (d.history ++ [(resource, call)]) :=
      hinv.tracks.insert hcall hdone hrejected
    obtain hupdate | ⟨hquiet, hidle⟩ := hafter
    · rw [hupdate]
      have hupdated := updateDeferrals_updated htracks ⟨resource, touches_self.mpr (.inr hcall)⟩
      obtain ⟨hearly, hpending, -⟩ | ⟨hran, -, houtcome⟩ := hupdated.outcome
      · refine ⟨fun _ _ => hpending, fun hlate => ?_⟩
        rw [hupdated.ranEvents.trans hearly] at hlate
        cases hlate
      · refine ⟨fun hearly => ?_, fun _ hopen' => ?_⟩
        · rw [hupdated.ranEvents.trans hran] at hearly
          cases hearly
        · obtain ⟨hclosed, -⟩ | ⟨hclosed, -⟩ | ⟨-, -, hsettled⟩ := houtcome
          · rw [hclosed] at hopen'
            cases hopen'
          · rw [hclosed] at hopen'
            cases hopen'
          · exact hsettled
    · obtain ⟨hnone, hdefer⟩ | ⟨json, rfl⟩ := hidle
      · exact ⟨fun hearly hsettled =>
          hquiet.pending.trans (h.early (hquiet.ranEvents.symm.trans hearly) (hsettled.of_append hdefer hnone)),
          fun hlate _ hsettled => h.late (hquiet.ranEvents.symm.trans hlate) hopen (hsettled.of_append hdefer hnone)⟩
      · exact absurd rfl (htyped json)

theorem Prompt.quiet (h : Prompt d) (hquiet : Quiet d after) : Prompt after := by
  obtain ⟨-, hcompleted, hran, hpending, -, hhistory⟩ := hquiet
  constructor
  · rw [hran, hhistory, hpending]
    exact h.early
  · rw [hran, hcompleted, hhistory]
    exact h.late

theorem Prompt.eventsRan (h : Prompt d) (hinv : Inv d) : Prompt d.eventsRan := by
  refine Prompt.quiet ?_ (eventsRan_quiet d)
  split
  · rename_i hdue
    obtain ⟨-, htouched⟩ := hinv.pending hdue
    have hupdated : Updated d.history { d with ranEvents := true } _ := updateDeferrals_updated hinv.tracks htouched
    obtain ⟨hearly, -⟩ | ⟨-, -, houtcome⟩ := hupdated.outcome
    · cases hearly
    · refine ⟨fun hearly => ?_, fun _ hopen => ?_⟩
      · cases hupdated.ranEvents.symm.trans hearly
      · obtain ⟨hclosed, -⟩ | ⟨hclosed, -⟩ | ⟨-, -, hsettled⟩ := houtcome
        · cases hclosed.symm.trans hopen
        · cases hclosed.symm.trans hopen
        · exact fun hsettled' => hsettled (hupdated.history_eq ▸ hsettled')
  · rename_i hidle
    refine ⟨nofun, fun _ hopen hsettled => ?_⟩
    cases hran : d.ranEvents with
    | false => exact hidle (h.early hran hsettled)
    | true => exact h.late hran hopen hsettled

theorem prompt_of_run {acts : List Action} (hrun : Run step (fun _ action => action.Typed) {} acts d) : Prompt d := by
  have hinit : Prompt {} := by
    refine ⟨fun _ hsettled => ?_, nofun⟩
    obtain ⟨resource, reason, hmem⟩ | ⟨⟨resource, call, hmem, -⟩, -⟩ := hsettled
    · cases hmem
    · cases hmem
  refine (hrun.invariant (fun d => Inv d ∧ Prompt d) ⟨inv_init, hinit⟩ ?_).2
  rintro d action after ⟨hinv, hprompt⟩ htyped htake
  cases action with
  | call resource call =>
    rw [step] at htake
    by_cases hcompleted : d.completed = true
    · rw [if_pos hcompleted] at htake
      cases htake
      exact ⟨hinv, hprompt⟩
    · rw [if_neg hcompleted] at htake
      have hopen := Bool.eq_false_of_not_eq_true hcompleted
      cases htake
      exact ⟨hinv.resourceCall hopen, hprompt.resourceCall hinv hopen htyped⟩
  | ranEvents =>
    cases htake
    exact ⟨hinv.eventsRan, hprompt.eventsRan hinv⟩

theorem updateDeferrals_ranEvents (d : Deferral) : d.updateDeferrals.ranEvents = d.ranEvents := by
  unfold Deferral.updateDeferrals
  split
  · rfl
  · split
    · rfl
    · split
      · rfl
      · rfl

theorem step_ranEvents {action : Action} (htake : step d action = some after) :
    after.ranEvents = true ↔ d.ranEvents = true ∨ action = .ranEvents := by
  cases action with
  | call resource call =>
    have hsame : (d.call resource call).ranEvents = d.ranEvents := by
      obtain ⟨args, -, hsame⟩ | ⟨-, ds, -, -, hupdate | ⟨hquiet, -⟩⟩ := call_cases d resource call
      · rw [hsame]
      · rw [hupdate, updateDeferrals_ranEvents]
        rfl
      · exact hquiet.ranEvents
    refine Iff.trans ?_ (or_iff_left nofun).symm
    rw [step] at htake
    split at htake
    · cases htake
      exact Iff.rfl
    · cases htake
      exact iff_of_eq (congrArg (· = true) hsame)
  | ranEvents =>
    cases htake
    refine iff_of_true ?_ (.inr rfl)
    rw [(eventsRan_quiet d).ranEvents]
    split
    · exact updateDeferrals_ranEvents _
    · rfl

/-- The event has run once `RanEvents` has been called. -/
theorem ranEvents_iff {acts : List Action} {ok : Deferral → Action → Prop} (hrun : Run step ok d acts after) :
    after.ranEvents = true ↔ d.ranEvents = true ∨ .ranEvents ∈ acts := by
  induction hrun with
  | nil => exact (or_iff_left List.not_mem_nil).symm
  | cons _ htake _ ih => rw [ih, step_ranEvents htake, or_assoc, List.mem_cons, @eq_comm _ _ Action.ranEvents]

/-- A deferral has at most one outcome, and none before the event has run. It is rejected only if a resource is done
with a reason since it has called `defer`, and resolved only if all resources that have touched it are done
without one. Where every `done` has a string or nothing, or more than one value, the outcome is there as soon as
one of the two holds. -/
theorem outcome_of_run {acts : List Action} {d : Deferral} (hrun : Run step (fun _ _ => True) {} acts d) :
    d.outcomes.length ≤ 1 ∧ (.ranEvents ∉ acts → d.outcomes = []) ∧
      (∀ message, .reject message ∈ d.outcomes → ∃ resource, Rejects d.history resource) ∧
      (.resolve ∈ d.outcomes → AllDone d.history) ∧
      (.ranEvents ∈ acts → (∀ action ∈ acts, action.Typed) →
        ((∃ resource, Rejects d.history resource) → ∃ message, d.outcomes = [.reject message]) ∧
          (AllDone d.history → d.outcomes = [.resolve])) := by
  have hinv := inv_of_run hrun
  have hran : d.ranEvents = true ↔ .ranEvents ∈ acts := (ranEvents_iff hrun).trans (or_iff_right Bool.false_ne_true)
  have hempty : d.completed = true ∨ d.outcomes = [] := by
    cases hcompleted : d.completed with
    | false => exact .inr (hinv.none hcompleted)
    | true => exact .inl rfl
  refine ⟨?_, fun hearly => ?_, fun message hmem => ?_, fun hmem => ?_, fun hlate htyped => ?_⟩
  · obtain hcompleted | hnone := hempty
    · obtain ⟨⟨message, houtcomes⟩, -⟩ | ⟨houtcomes, -⟩ := hinv.one hcompleted
      · rw [houtcomes, List.length_singleton]
      · rw [houtcomes, List.length_singleton]
    · rw [hnone]
      exact Nat.zero_le _
  · exact hinv.none (hinv.early (Bool.eq_false_of_not_eq_true (mt hran.mp hearly)))
  · obtain hcompleted | hnone := hempty
    · obtain ⟨-, hrejects⟩ | ⟨houtcomes, -⟩ := hinv.one hcompleted
      · exact hrejects
      · rw [houtcomes, List.mem_singleton] at hmem
        cases hmem
    · rw [hnone] at hmem
      cases hmem
  · obtain hcompleted | hnone := hempty
    · obtain ⟨⟨message, houtcomes⟩, -⟩ | ⟨-, hall⟩ := hinv.one hcompleted
      · rw [houtcomes, List.mem_singleton] at hmem
        cases hmem
      · exact hall
    · rw [hnone] at hmem
      cases hmem
  · have hprompt := prompt_of_run (hrun.of_forall htyped)
    have hone : Settled d.history → _ := fun hsettled =>
      hinv.one (Bool.eq_true_of_not_eq_false fun hopen => hprompt.late (hran.mpr hlate) hopen hsettled)
    constructor
    · intro hrejects
      obtain ⟨houtcomes, -⟩ | ⟨-, -, hall⟩ := hone (.inl hrejects)
      · exact houtcomes
      · obtain ⟨resource, hreject⟩ := hrejects
        exact absurd hreject (hall resource hreject.completes.touches).2
    · intro hall
      obtain ⟨-, resource, hreject⟩ | ⟨houtcomes, -⟩ := hone (.inr hall)
      · exact absurd hreject (hall.2 resource hreject.completes.touches).2
      · exact houtcomes

/-- Two resources, one of which is done before the event has run. -/
theorem outcome_of_two : ∃ d, Run step (fun _ _ => True) {}
    [.call "queue" .defer, .call "queue" (.update [.str "1 ahead"]), .call "ban" .defer,
      .call "ban" (.done []), .ranEvents, .call "queue" (.done [])] d ∧ d.outcomes.length ≤ 1 ∧ .resolve ∈ d.outcomes ∧
        AllDone d.history := by
  have hend : (exec step {}
      [.call "queue" .defer, .call "queue" (.update [.str "1 ahead"]), .call "ban" .defer,
        .call "ban" (.done []), .ranEvents, .call "queue" (.done [])]).any (fun d => decide (.resolve ∈ d.outcomes)) =
          true := by
    decide +kernel
  obtain ⟨d, hrun, hresolve⟩ := exists_run hend
  obtain ⟨hone, -, -, hall, -⟩ := outcome_of_run hrun
  exact ⟨d, hrun, hone, of_decide_eq_true hresolve, hall (of_decide_eq_true hresolve)⟩

/-- A resource takes its reason back before the event has run, and is rejected. -/
theorem latestDone_rejected : ∃ acts d, Run step (fun _ _ => True)
    {} acts d ∧ (∃ message, .reject message ∈ d.outcomes) ∧ ∀ resource, ¬ LatestRejects d.history resource := by
  have hend : (exec step {} [.call "a" .defer, .call "a" (.done [.str "no"]), .call "a" (.done []), .ranEvents]).any
      (fun d => decide (d.outcomes = [.reject "no"] ∧
        d.history = [("a", .defer), ("a", .done [.str "no"]), ("a", .done [])])) = true := by
    decide +kernel
  obtain ⟨d, hrun, htest⟩ := exists_run hend
  obtain ⟨houtcomes, hhistory⟩ := of_decide_eq_true htest
  refine ⟨_, d, hrun, ⟨"no", ?_⟩, ?_⟩
  · rw [houtcomes]
    exact List.mem_singleton_self _
  · rintro resource ⟨reason, hlast⟩
    rw [hhistory, callsOf] at hlast
    by_cases hresource : "a" = resource
    · subst hresource
      cases hlast
    · simp [hresource] at hlast

end fx.ClientDeferral
