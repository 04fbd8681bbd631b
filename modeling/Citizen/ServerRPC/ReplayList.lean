import Citizen.ServerRPC.Native

open Bits net Transition

namespace fx.ServerRPC

/-- The script handles among the arguments that are of one type, as tokens. -/
def objects (ctx : ScriptContext) (type : ArgumentType) : List ArgumentType → Nat → List (Value 4)
  | [], _ => []
  | t :: types, i =>
    if t = type then (ctx.word i - 0x1000000) :: objects ctx type types (i + 1) else objects ctx type types (i + 1)

/-- Natives as they are generated: only a native with a context has an object among its arguments, and only one. -/
def Native.Simple (native : Native) : Prop :=
  native.arguments.countP (fun t => decide (t = .objRef ∨ t = .objDel)) ≤ if native.rpcType = .entityContext
    then 1 else 0

/-- The packets that were sent about objects. -/
def State.events (s : State) : List Event := s.sent.filterMap Sent.event

def State.history (s : State) (object : Value 4) : List Event := s.events.filter fun e => decide (e.object = object)

/-- The lists once the callbacks that are queued have run. -/
def State.settled (s : State) : ReplayList := s.callbacks.foldl Callback.run s.replayList

/-- Of each native the latest entry, in the order of these. -/
def latest : List Entry → List Entry
  | [] => []
  | entry :: entries =>
    if entries.any (fun e => decide (e.1 = entry.1)) then latest entries else entry :: latest entries

def entriesOf (operation : Operation) (history : List Event) : List Entry :=
  (history.filter fun e => decide (e.operation = operation)).map Event.entry

/-- The list that the packets about an object call for. -/
def replayOf (history : List Event) : List Entry :=
  if history.getLast?.any (fun e => decide (e.operation = .delete)) then []
  else entriesOf .create history ++ latest (entriesOf .modify history)

section Latest

/-- A new packet takes the place of the one before it of the same native. -/
theorem latest_append (entries : List Entry) (entry : Entry) :
    latest (entries ++ [entry]) = replace (latest entries) entry := by
  induction entries with
  | nil => rfl
  | cons first entries ih =>
    rw [List.cons_append, latest, latest, List.any_append, ih]
    by_cases hlater : entries.any (fun e => decide (e.1 = first.1)) = true
    · rw [hlater, Bool.true_or, if_pos rfl, if_pos rfl]
    · rw [if_neg hlater, Bool.not_eq_true] at *
      rw [hlater, Bool.false_or, List.any_cons, List.any_nil, Bool.or_false, replace, replace, List.filter_cons]
      by_cases hsame : entry.1 = first.1
      · rw [if_pos (by simpa using hsame), if_neg (by simpa using hsame.symm)]
      · rw [if_neg (by simpa using hsame), if_pos (by simpa using fun h => hsame h.symm)]
        rfl

theorem replace_append {front entries : List Entry} {entry : Entry} (h : ∀ e ∈ front, e.1 ≠ entry.1) :
    replace (front ++ entries) entry = front ++ replace entries entry := by
  have hfront : front.filter (fun e => decide (e.1 ≠ entry.1)) = front := by
    rw [List.filter_eq_self]
    intro e he
    exact decide_eq_true (h e he)
  rw [replace, replace, List.filter_append, hfront, List.append_assoc]

end Latest

section Callbacks

/-- The list of one object after one of its callbacks. -/
def Callback.on (list : List Entry) : Callback → List Entry
  | create _ entry => list ++ [entry]
  | modify _ entry => replace list entry

theorem Callback.run_apply (list : ReplayList) (c : Callback) (object : Value 4) :
    c.run list object = if c.object = object then c.on (list object) else list object := by
  cases c with
  | create creationToken entry =>
    by_cases h : creationToken = object
    · subst h
      simp [run, on, Callback.object]
    · simp [run, Callback.object, h, Function.update_of_ne (Ne.symm h)]
  | modify delId entry =>
    by_cases h : delId = object
    · subst h
      simp [run, on, Callback.object]
    · simp [run, Callback.object, h, Function.update_of_ne (Ne.symm h)]

/-- Only the callbacks of an object, and its list before, decide what its list becomes. -/
theorem foldl_run_apply (callbacks : List Callback) (list : ReplayList) (object : Value 4) :
    callbacks.foldl Callback.run list object =
      (callbacks.filter fun c => decide (c.object = object)).foldl Callback.on (list object) := by
  induction callbacks generalizing list with
  | nil => rfl
  | cons c callbacks ih =>
    rw [List.foldl_cons, ih, Callback.run_apply, List.filter_cons]
    by_cases h : c.object = object
    · rw [if_pos h, if_pos (decide_eq_true h), List.foldl_cons]
    · rw [if_neg h, if_neg (by simpa using h)]

end Callbacks

section Arguments

variable {ctx : ScriptContext}

/-- What the loop has found out about objects is as before. -/
def Packing.Quiet (p p' : Packing) : Prop := p'.replay = p.replay ∧ p'.delThis = p.delThis ∧ p'.delId = p.delId

theorem Packing.Quiet.trans {p p' p'' : Packing} (h : p.Quiet p') (h' : p'.Quiet p'') : p.Quiet p'' :=
  ⟨h'.1.trans h.1, h'.2.1.trans h.2.1, h'.2.2.trans h.2.2⟩

theorem write_quiet {n : Nat} (p : Packing) (v : Value n) : p.Quiet (p.write v) := ⟨rfl, rfl, rfl⟩

theorem argument_other {p p' : Packing} {i : Nat} {type : ArgumentType} (hother : ¬ (type = .objRef ∨ type = .objDel))
    (h : p.argument ctx i type = some p') : p.Quiet p' := by
  cases type with
  | objRef => exact absurd (.inl rfl) hother
  | objDel => exact absurd (.inr rfl) hother
  | entity =>
    unfold Packing.argument at h
    cases hentity : ctx.entity i with
    | missing => simp [hentity] at h
    | handle objectId =>
      rw [hentity] at h
      cases h
      exact write_quiet p _
    | temporary creationToken =>
      rw [hentity] at h
      cases h
      exact write_quiet p _
    | unset =>
      rw [hentity] at h
      cases h
      exact ⟨rfl, rfl, rfl⟩
  | player =>
    obtain ⟨netId, -, rfl⟩ := Option.map_eq_some_iff.mp h
    exact write_quiet p netId
  | vector3 =>
    cases h
    exact ⟨rfl, rfl, rfl⟩
  | int | hash | float | bool | string =>
    cases h
    exact ⟨rfl, rfl, rfl⟩

theorem arguments_none {types : List ArgumentType} {p p' : Packing} {i : Nat}
    (hnone : types.countP (fun t => decide (t = .objRef ∨ t = .objDel)) = 0)
    (h : Packing.arguments ctx types i p = some p') : p.Quiet p' := by
  induction types generalizing p i with
  | nil =>
    cases h
    exact ⟨rfl, rfl, rfl⟩
  | cons type types ih =>
    rw [List.countP_cons] at hnone
    obtain ⟨p₁, hfirst, hrest⟩ := Option.bind_eq_some_iff.mp h
    have hother : ¬ (type = .objRef ∨ type = .objDel) := by
      intro hobject
      rw [if_pos (decide_eq_true hobject)] at hnone
      omega
    exact (argument_other hother hfirst).trans (ih (by omega) hrest)

theorem mem_objects_cons {type t : ArgumentType} {types : List ArgumentType} {i : Nat} {object : Value 4}
    (h : object ∈ objects ctx type types (i + 1)) : object ∈ objects ctx type (t :: types) i := by
  rw [objects]
  split
  · exact List.mem_cons_of_mem _ h
  · exact h

theorem mem_of_mem_objects {type : ArgumentType} {types : List ArgumentType} {i : Nat} {object : Value 4}
    (h : object ∈ objects ctx type types i) : type ∈ types := by
  induction types generalizing i with
  | nil => cases h
  | cons t types ih =>
    rw [objects] at h
    split at h
    · rename_i heq
      exact heq ▸ List.mem_cons_self
    · exact List.mem_cons_of_mem _ (ih h)

/-- With at most one object among the arguments, it is referred to, or deleted, or there is none. -/
theorem arguments_one {types : List ArgumentType} {p p' : Packing} {i : Nat}
    (hone : types.countP (fun t => decide (t = .objRef ∨ t = .objDel)) ≤ 1)
    (h : Packing.arguments ctx types i p = some p') :
    p.Quiet p' ∨
    (p'.delId ∈ objects ctx .objRef types i ∧ p'.replay = true ∧ p'.delThis = p.delThis) ∨
    (p'.delId ∈ objects ctx .objDel types i ∧ p'.replay = p.replay ∧ p'.delThis = true) := by
  induction types generalizing p i with
  | nil =>
    cases h
    exact .inl ⟨rfl, rfl, rfl⟩
  | cons type types ih =>
    rw [List.countP_cons] at hone
    obtain ⟨p₁, hfirst, hrest⟩ := Option.bind_eq_some_iff.mp h
    by_cases hobject : type = .objRef ∨ type = .objDel
    · rw [if_pos (decide_eq_true hobject)] at hone
      obtain ⟨hreplay, hdel, hid⟩ := arguments_none (by omega) hrest
      rcases hobject with rfl | rfl
      · cases hfirst
        exact .inr (.inl ⟨by rw [hid]; exact List.mem_cons_self, hreplay, hdel⟩)
      · cases hfirst
        exact .inr (.inr ⟨by rw [hid]; exact List.mem_cons_self, hreplay, hdel⟩)
    · rw [if_neg (by simpa using hobject)] at hone
      have hquiet := argument_other hobject hfirst
      rcases ih hone hrest with hsame | ⟨hmem, hreplay, hdel⟩ | ⟨hmem, hreplay, hdel⟩
      · exact .inl (hquiet.trans hsame)
      · exact .inr (.inl ⟨mem_objects_cons hmem, hreplay, hdel.trans hquiet.2.1⟩)
      · exact .inr (.inr ⟨mem_objects_cons hmem, hreplay.trans hquiet.1, hdel⟩)

end Arguments

/-- What a call may do to the objects. -/
inductive Native.Effect (native : Native) (gameHash : Value 8) (ctx : ScriptContext) (s s' : State) : Prop
  | quiet (events : s'.events = s.events) (callbacks : s'.callbacks = s.callbacks)
      (replayList : s'.replayList = s.replayList)
  | create (buffer : List Byte) (type : native.rpcType = .objectCreate)
      (events : s'.events = s.events ++ [⟨(native.token s).1, .create, (gameHash, buffer)⟩])
      (callbacks : s'.callbacks = s.callbacks ++ [.create (native.token s).1 (gameHash, buffer)])
      (replayList : s'.replayList = s.replayList)
  | modify (object : Value 4) (buffer : List Byte) (mem : object ∈ objects ctx .objRef native.arguments 0)
      (type : native.rpcType = .entityContext)
      (events : s'.events = s.events ++ [⟨object, .modify, (gameHash, buffer)⟩])
      (callbacks : s'.callbacks = s.callbacks ++ [.modify object (gameHash, buffer)])
      (replayList : s'.replayList = s.replayList)
  | delete (object : Value 4) (buffer : List Byte) (mem : object ∈ objects ctx .objDel native.arguments 0)
      (events : s'.events = s.events ++ [⟨object, .delete, (gameHash, buffer)⟩])
      (callbacks : s'.callbacks = s.callbacks) (replayList : s'.replayList = Function.update s.replayList object [])

section Handler

variable (native : Native) (gameHash : Value 8) (ctx : ScriptContext)

theorem token_frame (s : State) : (native.token s).2.events = s.events ∧
    (native.token s).2.callbacks = s.callbacks ∧ (native.token s).2.replayList = s.replayList := by
  unfold Native.token
  cases native.rpcType <;> exact ⟨rfl, rfl, rfl⟩

theorem header_replay (creationToken : Value 4) :
    (native.header gameHash ctx creationToken).replay = decide (native.rpcType = .objectCreate) ∧
      (native.header gameHash ctx creationToken).delThis = false := by
  unfold Native.header
  dsimp only
  split <;> exact ⟨rfl, rfl⟩

theorem finish_events (clientIdx : Int) (creationToken : Value 4) (p : Packing) (s : State) :
    (native.finish gameHash clientIdx creationToken p s).events =
      s.events ++ (native.event gameHash creationToken p).toList := by
  have hsent : (native.finish gameHash clientIdx creationToken p s).sent =
      s.sent ++ [⟨clientIdx, p.buffer, native.event gameHash creationToken p⟩] := by
    unfold Native.finish
    cases native.rpcType <;> cases p.replay <;> cases p.delThis <;> rfl
  rw [State.events, hsent, List.filterMap_append]
  cases native.event gameHash creationToken p <;> rfl

/-- What a finished packet does, by the type of its native. -/
theorem finish_effect (hsimple : native.Simple) (clientIdx : Int) (s : State) {p : Packing}
    (hp : Packing.arguments ctx native.arguments 0 (native.header gameHash ctx (native.token s).1) = some p) :
    native.Effect gameHash ctx s (native.finish gameHash clientIdx (native.token s).1 p (native.token s).2) := by
  obtain ⟨hevents, hcallbacks, hlist⟩ := token_frame native s
  obtain ⟨hreplay, hdel⟩ := header_replay native gameHash ctx (native.token s).1
  have hfinish := finish_events native gameHash clientIdx (native.token s).1 p (native.token s).2
  rw [hevents] at hfinish
  unfold Native.Simple at hsimple
  cases htype : native.rpcType with
  | entityCreate =>
    rw [htype, if_neg nofun, Nat.le_zero] at hsimple
    obtain ⟨hreplay', hdel', -⟩ := arguments_none hsimple hp
    rw [hdel] at hdel'
    refine .quiet ?_ ?_ ?_
    · rw [hfinish]
      simp [Native.event, htype]
    · simpa [Native.finish, htype, hdel'] using hcallbacks
    · simpa [Native.finish, htype, hdel'] using hlist
  | objectCreate =>
    rw [htype, if_neg nofun, Nat.le_zero] at hsimple
    obtain ⟨hreplay', hdel', -⟩ := arguments_none hsimple hp
    rw [hdel] at hdel'
    rw [hreplay, htype, decide_eq_true rfl] at hreplay'
    refine .create p.buffer htype ?_ ?_ ?_
    · rw [hfinish]
      simp [Native.event, htype]
    · simp [Native.finish, htype, hreplay', hdel', hcallbacks]
    · simpa [Native.finish, htype, hreplay', hdel'] using hlist
  | entityContext =>
    rw [htype, if_pos rfl] at hsimple
    rw [htype, decide_eq_false nofun] at hreplay
    rcases arguments_one hsimple hp with ⟨hreplay', hdel', -⟩ | ⟨hmem, hreplay', hdel'⟩ | ⟨hmem, hreplay', hdel'⟩
    · rw [hdel] at hdel'
      rw [hreplay] at hreplay'
      refine .quiet ?_ ?_ ?_
      · rw [hfinish]
        simp [Native.event, htype, hreplay', hdel']
      · simpa [Native.finish, htype, hreplay', hdel'] using hcallbacks
      · simpa [Native.finish, htype, hreplay', hdel'] using hlist
    · rw [hdel] at hdel'
      refine .modify p.delId p.buffer hmem htype ?_ ?_ ?_
      · rw [hfinish]
        simp [Native.event, htype, hreplay', hdel']
      · simp [Native.finish, htype, hreplay', hdel', hcallbacks]
      · simpa [Native.finish, htype, hreplay', hdel'] using hlist
    · rw [hreplay] at hreplay'
      refine .delete p.delId p.buffer hmem ?_ ?_ ?_
      · rw [hfinish]
        simp [Native.event, htype, hdel']
      · simpa [Native.finish, htype, hreplay', hdel'] using hcallbacks
      · simp [Native.finish, htype, hreplay', hdel', hlist]

theorem handler_effect (hsimple : native.Simple) (s : State) :
    native.Effect gameHash ctx s (native.handler gameHash ctx s) := by
  unfold Native.handler
  cases native.route ctx with
  | none => exact .quiet rfl rfl rfl
  | some clientIdx =>
    dsimp only
    cases hp : Packing.arguments ctx native.arguments 0 (native.header gameHash ctx (native.token s).1) with
    | none =>
      obtain ⟨hevents, hcallbacks, hlist⟩ := token_frame native s
      exact .quiet hevents hcallbacks hlist
    | some p => exact finish_effect native gameHash ctx hsimple clientIdx s hp

end Handler

/-- How a game takes the packets about an object in: a native that refers to it overwrites what the same native did
before, and one that deletes it leaves nothing. -/
structure Client (natives : Value 8 → Native) {σ : Type} (apply : σ → Entry → σ) (blank : σ) : Prop where
  overwrite : ∀ (state : σ) (entry entry' : Entry) (between : List Entry), entry.1 = entry'.1 →
    .objRef ∈ (natives entry'.1).arguments →
    apply (between.foldl apply (apply state entry)) entry' = apply (between.foldl apply state) entry'
  delete : ∀ (state : σ) (entry : Entry), .objDel ∈ (natives entry.1).arguments → apply state entry = blank

/-- The replay list of an object, once the callbacks have run, is the one its history calls for, and stands for the
state that the whole history leads to. -/
structure State.Replays (natives : Value 8 → Native) (s : State) (object : Value 4) : Prop where
  list_eq : s.settled object = replayOf (s.history object)
  state_eq : ∀ {σ : Type} {apply : σ → Entry → σ} {blank : σ}, Client natives apply blank →
    (s.settled object).foldl apply blank = ((s.history object).map Event.entry).foldl apply blank

/-- An object is made under a token nobody has used, is not used once it is deleted, and is deleted only when none of
its callbacks is waiting. -/
def Allows (natives : Value 8 → Native) (s : State) : Action → Prop
  | .call gameHash ctx =>
    (natives gameHash).Simple ∧
    ((natives gameHash).rpcType = .objectCreate → s.history ((natives gameHash).token s).1 = []) ∧
    (∀ object ∈ objects ctx .objRef (natives gameHash).arguments 0, ∀ e ∈ s.history object, e.operation ≠ .delete) ∧
    (∀ object ∈ objects ctx .objDel (natives gameHash).arguments 0, ∀ c ∈ s.callbacks, c.object ≠ object)
  | _ => True

section Replay

theorem replayOf_delete (history : List Event) {e : Event} (h : e.operation = .delete) :
    replayOf (history ++ [e]) = [] := by
  rw [replayOf, List.getLast?_concat, if_pos (by simpa using h)]

theorem replayOf_of_no_delete {history : List Event} (h : ∀ e ∈ history, e.operation ≠ .delete) :
    replayOf history = entriesOf .create history ++ latest (entriesOf .modify history) := by
  rw [replayOf, if_neg]
  intro hlast
  obtain ⟨e, he, hdel⟩ := (Option.any_eq_true _ _).mp hlast
  exact h e (List.mem_of_getLast? he) (of_decide_eq_true hdel)

/-- A packet of a modifying native is put in the place of the one before it. -/
theorem replayOf_modify {history : List Event} {e : Event} (hop : e.operation = .modify)
    (hlive : ∀ e ∈ history, e.operation ≠ .delete)
    (hcreate : ∀ e' ∈ history, e'.operation = .create → e'.entry.1 ≠ e.entry.1) :
    replayOf (history ++ [e]) = replace (replayOf history) e.entry := by
  have hlive' : ∀ e' ∈ history ++ [e], e'.operation ≠ .delete := by
    intro e' he'
    rcases List.mem_append.mp he' with hold | hnew
    · exact hlive e' hold
    · rw [List.mem_singleton.mp hnew, hop]
      exact nofun
  have hcreations : entriesOf .create (history ++ [e]) = entriesOf .create history := by
    simp [entriesOf, List.filter_append, hop]
  have hmods : entriesOf .modify (history ++ [e]) = entriesOf .modify history ++ [e.entry] := by
    simp [entriesOf, List.filter_append, hop]
  rw [replayOf_of_no_delete hlive', replayOf_of_no_delete hlive, hcreations, hmods, latest_append, replace_append]
  intro entry hentry
  obtain ⟨e', he', rfl⟩ := List.mem_map.mp hentry
  obtain ⟨hmem, hop'⟩ := List.mem_filter.mp he'
  exact hcreate e' hmem (of_decide_eq_true hop')

/-- The entries that a new packet replaces have no effect before it. -/
theorem Client.foldl_replace {natives : Value 8 → Native} {σ : Type} {apply : σ → Entry → σ} {blank : σ}
    (h : Client natives apply blank) {entry : Entry} (href : .objRef ∈ (natives entry.1).arguments) (list : List Entry)
    (state : σ) : (replace list entry).foldl apply state = apply (list.foldl apply state) entry := by
  rw [replace, List.foldl_append, List.foldl_cons, List.foldl_nil]
  induction list generalizing state with
  | nil => rfl
  | cons first list ih =>
    rw [List.filter_cons, List.foldl_cons]
    by_cases hsame : first.1 = entry.1
    · rw [if_neg (by simpa using hsame), ih]
      exact (h.overwrite state first entry list hsame href).symm
    · rw [if_pos (by simpa using hsame), List.foldl_cons, ih]

end Replay

section Step

variable {natives : Value 8 → Native} {s t : State}

theorem history_append {e : Event} (h : t.events = s.events ++ [e]) (object : Value 4) :
    t.history object = s.history object ++ if e.object = object then [e] else [] := by
  rw [State.history, h, List.filter_append, State.history, List.filter_singleton]
  by_cases hobject : e.object = object
  · rw [decide_eq_true hobject, if_pos hobject]
    rfl
  · rw [decide_eq_false hobject, if_neg hobject]
    rfl

theorem settled_append {c : Callback} {used : Value 4} (hused : c.object = used)
    (hcallbacks : t.callbacks = s.callbacks ++ [c]) (hlist : t.replayList = s.replayList) (object : Value 4) :
    t.settled object = if used = object then c.on (s.settled object) else s.settled object := by
  subst hused
  rw [State.settled, hcallbacks, hlist, List.foldl_append]
  exact Callback.run_apply _ c object

/-- Clearing the list of an object that no callback waits for. -/
theorem settled_clear {deleted : Value 4} (hcallbacks : t.callbacks = s.callbacks)
    (hlist : t.replayList = Function.update s.replayList deleted []) (hnone : ∀ c ∈ s.callbacks, c.object ≠ deleted)
    (object : Value 4) : t.settled object = if deleted = object then [] else s.settled object := by
  rw [State.settled, hcallbacks, hlist, foldl_run_apply, State.settled, foldl_run_apply]
  by_cases h : deleted = object
  · subst h
    have hempty : (s.callbacks.filter fun c => decide (c.object = deleted)) = [] := by
      rw [List.filter_eq_nil_iff]
      intro c hc
      simpa using hnone c hc
    rw [hempty, if_pos rfl]
    exact Function.update_self ..
  · rw [if_neg h, Function.update_of_ne (Ne.symm h)]

/-- What every step keeps. -/
structure Inv (natives : Value 8 → Native) (s : State) : Prop where
  replays : ∀ object, s.Replays natives object
  created : ∀ e ∈ s.events, e.operation = .create → (natives e.entry.1).rpcType = .objectCreate

theorem init_inv : Inv natives {} := ⟨fun _ => ⟨rfl, fun _ => rfl⟩, fun _ h => by cases h⟩

theorem State.Replays.of_eq {object : Value 4} (h : s.Replays natives object)
    (hhistory : t.history object = s.history object) (hsettled : t.settled object = s.settled object) :
    t.Replays natives object :=
  ⟨by rw [hsettled, hhistory, h.list_eq], fun hclient => by rw [hsettled, hhistory, h.state_eq hclient]⟩

theorem created_append {e : Event}
    (h : ∀ e ∈ s.events, e.operation = .create → (natives e.entry.1).rpcType = .objectCreate)
    (hevents : t.events = s.events ++ [e]) (he : e.operation = .create → (natives e.entry.1).rpcType = .objectCreate) :
    ∀ e ∈ t.events, e.operation = .create → (natives e.entry.1).rpcType = .objectCreate := by
  intro e' he'
  rw [hevents] at he'
  rcases List.mem_append.mp he' with hold | hnew
  · exact h e' hold
  · rw [List.mem_singleton.mp hnew]
    exact he

/-- An allowed call keeps every list in step with its history. -/
theorem Inv.call (h : Inv natives s) {gameHash : Value 8} {ctx : ScriptContext}
    (hok : Allows natives s (.call gameHash ctx)) :
    Inv natives ((natives gameHash).handler gameHash ctx s) := by
  obtain ⟨hsimple, hfresh, hlive, hidle⟩ := hok
  cases handler_effect (natives gameHash) gameHash ctx hsimple s with
  | quiet hevents hcallbacks hlist =>
    refine ⟨fun object => (h.replays object).of_eq ?_ ?_, by rw [hevents]; exact h.created⟩
    · rw [State.history, hevents]
      rfl
    · rw [State.settled, hcallbacks, hlist]
      rfl
  | create buffer htype hevents hcallbacks hlist =>
    refine ⟨fun object => ?_, created_append h.created hevents fun _ => htype⟩
    have hhistory := history_append hevents object
    have hused : Callback.object (.create ((natives gameHash).token s).1 (gameHash, buffer)) =
      ((natives gameHash).token s).1 := rfl
    have hsettled := settled_append hused hcallbacks hlist object
    by_cases hobject : ((natives gameHash).token s).1 = object
    · have hempty : s.history object = [] := hobject ▸ hfresh htype
      have hnone : s.settled object = [] := by rw [(h.replays object).list_eq, hempty]; rfl
      rw [if_pos hobject, hempty, List.nil_append] at hhistory
      rw [if_pos hobject, hnone] at hsettled
      exact ⟨by rw [hsettled, hhistory]; rfl, fun _ => by rw [hsettled, hhistory]; rfl⟩
    · rw [if_neg hobject, List.append_nil] at hhistory
      rw [if_neg hobject] at hsettled
      exact (h.replays object).of_eq hhistory hsettled
  | modify modified buffer hmem htype hevents hcallbacks hlist =>
    refine ⟨fun object => ?_, created_append h.created hevents nofun⟩
    have hhistory := history_append hevents object
    have hused : Callback.object (.modify modified (gameHash, buffer)) = modified := rfl
    have hsettled := settled_append hused hcallbacks hlist object
    by_cases hobject : modified = object
    · subst hobject
      rw [if_pos rfl] at hhistory hsettled
      have hcreate : ∀ e ∈ s.history modified, e.operation = .create → e.entry.1 ≠ gameHash := by
        intro e he hop hsame
        have hobjectCreate := h.created e (List.mem_of_mem_filter he) hop
        rw [hsame, htype] at hobjectCreate
        cases hobjectCreate
      refine ⟨?_, fun hclient => ?_⟩
      · rw [hsettled, hhistory, replayOf_modify rfl (hlive modified hmem) hcreate, (h.replays modified).list_eq]
        rfl
      · rw [hsettled, hhistory, List.map_append, List.foldl_append, ← (h.replays modified).state_eq hclient]
        exact hclient.foldl_replace (mem_of_mem_objects hmem) _ _
    · rw [if_neg hobject, List.append_nil] at hhistory
      rw [if_neg hobject] at hsettled
      exact (h.replays object).of_eq hhistory hsettled
  | delete deleted buffer hmem hevents hcallbacks hlist =>
    refine ⟨fun object => ?_, created_append h.created hevents nofun⟩
    have hhistory := history_append hevents object
    have hsettled := settled_clear hcallbacks hlist (hidle deleted hmem) object
    by_cases hobject : deleted = object
    · rw [if_pos hobject] at hhistory hsettled
      refine ⟨by rw [hsettled, hhistory, replayOf_delete _ rfl], fun hclient => ?_⟩
      rw [hsettled, hhistory, List.map_append, List.foldl_append]
      exact (hclient.delete _ _ (mem_of_mem_objects hmem)).symm
    · rw [if_neg hobject, List.append_nil] at hhistory
      rw [if_neg hobject] at hsettled
      exact (h.replays object).of_eq hhistory hsettled

theorem Inv.step {a : Action} (h : Inv natives s) (hok : Allows natives s a) (hstep : step natives s a = some t) :
    Inv natives t := by
  obtain ⟨gameHash, ctx, rfl, rfl⟩ | ⟨callback, callbacks, rfl, hqueue, rfl⟩ | ⟨rfl, rfl⟩ := step_cases hstep
  · exact h.call hok
  · refine ⟨fun object => (h.replays object).of_eq rfl ?_, h.created⟩
    rw [State.settled, State.settled, hqueue]
    rfl
  · exact ⟨fun object => (h.replays object).of_eq rfl rfl, h.created⟩

end Step

/-- In a run whose deletions wait for the object's callbacks, every replay list stands for the history of its
object. The natives that are called are `Simple`, as the generated ones are. -/
theorem run_replays {natives : Value 8 → Native} {acts : List Action} {s : State}
    (h : Run (step natives) (Allows natives) {} acts s) (object : Value 4) : s.Replays natives object :=
  (h.invariant (Inv natives) init_inv fun hinv hok hstep => hinv.step hok hstep).replays object

instance (native : Native) : Decidable native.Simple := inferInstanceAs (Decidable (_ ≤ _))

/-- Preferred to going through all the values. -/
instance (list : List (Value 4)) (p : Value 4 → Prop) [DecidablePred p] : Decidable (∀ object ∈ list, p object) :=
  List.decidableBAll p list

instance (natives : Value 8 → Native) (s : State) : (a : Action) → Decidable (Allows natives s a)
  | .call gameHash ctx => inferInstanceAs (Decidable (
      (natives gameHash).Simple ∧
      ((natives gameHash).rpcType = .objectCreate → s.history ((natives gameHash).token s).1 = []) ∧
      (∀ object ∈ objects ctx .objRef (natives gameHash).arguments 0, ∀ e ∈ s.history object, e.operation ≠ .delete) ∧
      (∀ object ∈ objects ctx .objDel (natives gameHash).arguments 0, ∀ c ∈ s.callbacks, c.object ≠ object)))
  | .sync => isTrue trivial
  | .onCreatePed => isTrue trivial

/-- A client that keeps the last packet of each native. -/
def lastPacket (natives : Value 8 → Native) (state : Value 8 → Option (List Byte)) (entry : Entry) :
    Value 8 → Option (List Byte) :=
  if .objDel ∈ (natives entry.1).arguments then fun _ => none else Function.update state entry.1 (some entry.2)

section LastPacket

variable {natives : Value 8 → Native} {entry : Entry}

theorem lastPacket_delete (h : .objDel ∈ (natives entry.1).arguments) (state : Value 8 → Option (List Byte)) :
    lastPacket natives state entry = fun _ => none := if_pos h

theorem lastPacket_other (h : .objDel ∉ (natives entry.1).arguments) (state : Value 8 → Option (List Byte)) :
    lastPacket natives state entry = Function.update state entry.1 (some entry.2) := if_neg h

/-- What differs for one native only differs for it only, whatever packets follow. -/
theorem foldl_lastPacket_congr {native : Value 8} (list : List Entry) {left right : Value 8 → Option (List Byte)}
    (h : ∀ x, x ≠ native → left x = right x) (x : Value 8) (hx : x ≠ native) :
    list.foldl (lastPacket natives) left x = list.foldl (lastPacket natives) right x := by
  induction list generalizing left right with
  | nil => exact h x hx
  | cons first list ih =>
    refine ih fun y hy => ?_
    unfold lastPacket
    split
    · rfl
    · rw [Function.update_apply, Function.update_apply, h y hy]

theorem lastPacket_client (natives : Value 8 → Native) : Client natives (lastPacket natives) fun _ => none where
  delete state entry h := lastPacket_delete h state
  overwrite state entry entry' between hsame _ := by
    by_cases hdel : .objDel ∈ (natives entry'.1).arguments
    · rw [lastPacket_delete hdel, lastPacket_delete hdel]
    · rw [lastPacket_other hdel, lastPacket_other hdel]
      funext x
      by_cases hx : x = entry'.1
      · rw [hx, Function.update_self, Function.update_self]
      · rw [Function.update_of_ne hx, Function.update_of_ne hx]
        refine foldl_lastPacket_congr between (fun y hy => ?_) x hx
        rw [lastPacket_other (by rwa [hsame]), Function.update_of_ne (by rwa [hsame])]

end LastPacket

/-- `ADD_BLIP_FOR_COORD`, `SET_BLIP_SPRITE` and `REMOVE_BLIP`. -/
def blipNatives (gameHash : Value 8) : Native :=
  if gameHash = 0x5A039BB0BCA604B6 then { rpcType := .objectCreate, arguments := [.float, .float, .float] }
  else if gameHash = 0xDF735600A4696DAF then
    { rpcType := .entityContext, contextType := .objRef, arguments := [.objRef, .int] }
  else { rpcType := .entityContext, contextType := .objDel, arguments := [.objDel] }

def addBlip : Action := .call 0x5A039BB0BCA604B6 {}

/-- A call about the first blip, whose handle is the first token and `0x1000000`. -/
def onBlip (gameHash : Value 8) (sprite : Value 4) : Action :=
  .call gameHash { word := fun i => if i = 0 then 12820163 + 0x1000000 else sprite }

theorem run_replays_blip : ∃ s : State, Run (step blipNatives) (Allows blipNatives) {}
    [addBlip, .sync, onBlip 0xDF735600A4696DAF 1, onBlip 0xDF735600A4696DAF 2, .sync, .sync, .onCreatePed,
      onBlip 0x86A652570E5F25DD 0] s ∧
    s.settled 12820163 = replayOf (s.history 12820163) ∧
    (s.settled 12820163).foldl (lastPacket blipNatives) (fun _ => none) =
      ((s.history 12820163).map Event.entry).foldl (lastPacket blipNatives) fun _ => none := by
  have hend : (exec (fun s a => if decide (Allows blipNatives s a) then step blipNatives s a else none) {}
      [addBlip, .sync, onBlip 0xDF735600A4696DAF 1, onBlip 0xDF735600A4696DAF 2, .sync, .sync, .onCreatePed,
        onBlip 0x86A652570E5F25DD 0]).any (fun _ => true) = true := by decide +kernel
  obtain ⟨s, hrun, -⟩ := exists_checked (fun s a hcheck => of_decide_eq_true hcheck) hend
  exact ⟨s, hrun, (run_replays hrun _).list_eq, (run_replays hrun _).state_eq (lastPacket_client blipNatives)⟩

/-- A blip that is removed before the sync thread has put it on its list stays there. -/
theorem run_keeps_removed : ∃ s : State, Run (step blipNatives) (fun _ _ => True) {}
    [addBlip, onBlip 0x86A652570E5F25DD 0, .sync] s ∧ s.callbacks = [] ∧
    (s.history 12820163).getLast?.map Event.operation = some .delete ∧ s.settled 12820163 ≠ [] := by
  have hend : (exec (step blipNatives) {} [addBlip, onBlip 0x86A652570E5F25DD 0, .sync]).any
      (fun s => s.callbacks.isEmpty && decide ((s.history 12820163).getLast?.map Event.operation = some .delete) &&
        !(s.settled 12820163).isEmpty) = true := by decide +kernel
  obtain ⟨s, hrun, htest⟩ := exists_run hend
  simp only [Bool.and_eq_true, decide_eq_true_eq, List.isEmpty_iff, Bool.not_eq_true'] at htest
  refine ⟨s, hrun, htest.1.1, htest.1.2, fun hempty => ?_⟩
  rw [hempty] at htest
  exact absurd htest.2 (by decide)

end fx.ServerRPC
