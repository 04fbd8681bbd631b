import Citizen.Lib.Transition

open Transition

namespace fx.ResourceLookup

inductive ResourceState
  | uninitialized | stopped | starting | started
  deriving DecidableEq

structure Resource where
  name : String
  /-- The `provide` entries of its metadata. -/
  provided : List String
  state : ResourceState := .uninitialized
  deriving DecidableEq

/-- A resource is referred to by its place among all that were created. Those from `since` on were created after the
last reset. -/
structure Manager where
  objects : List Resource := []
  resources : String → Option Nat := fun _ => none
  resourceProvides : List (String × Nat) := []
  since : Nat := 0

namespace Manager

variable (m : Manager)

def state (r : Nat) : ResourceState := ((m.objects[r]?).map Resource.state).getD .uninitialized

/-- The name that a resource was created with. -/
def nameOf (r : Nat) : Option String := (m.objects[r]?).map Resource.name

/-- What a resource provides, by its metadata. -/
def provided (r : Nat) : List String := ((m.objects[r]?).map Resource.provided).getD []

def setState (r : Nat) (state : ResourceState) : Manager :=
  { m with objects := m.objects.modify r fun resource => { resource with state } }

/-- `CreateResource`, with the metadata that is loaded then. -/
def createResource (name : String) (provided : List String) : Manager :=
  { m with
    objects := m.objects ++ [{ name, provided }]
    resources := Function.update m.resources name (some m.objects.length) }

/-- `Start` up to its events. A handler of them sees a resource that is starting. -/
def beginStart (r : Nat) : Manager := if m.state r = .started then m else m.setState r .starting

/-- The end of `Start`, when its events have returned. -/
def endStart (r : Nat) (ok : Bool) : Manager :=
  if ok then m.setState r .started else if m.state r = .started then m else m.setState r .stopped

/-- `Stop`, which `OnStop` may veto. -/
def stop (r : Nat) (ok : Bool) : Manager := if m.state r ≠ .stopped ∧ ok then m.setState r .stopped else m

/-- `Destroy`. -/
def destroy (r : Nat) : Manager := m.setState r .uninitialized

/-- `RemoveResource`. The entry of the resource's name is erased. -/
def removeResource (r : Nat) (ok : Bool) : Option Manager :=
  (m.nameOf r).map fun name =>
    let m := (m.stop r ok).destroy r
    { m with resources := Function.update m.resources name none }

/-- `AddResource`: a resource that cannot be loaded is removed, and of one that can the provided names are noted
down. -/
def addResource (name : String) (provided : List String) (loads : Bool) : Option Manager :=
  let r := m.objects.length
  if loads then
    let m := (m.createResource name provided).setState r .stopped
    some { m with resourceProvides := m.resourceProvides ++ provided.map fun id => (id, r) }
  else ((m.createResource name []).setState r .stopped).removeResource r true

/-- A resource is registered under its name. -/
def Registered (r : Nat) : Prop := ∃ name, m.nameOf r = some name ∧ m.resources name = some r

/-- `ResetResources`. Without an internal resource it would dereference a null pointer. -/
def resetResources : Option Manager :=
  (m.resources "_cfx_internal").map fun cfxInternal =>
    { objects := m.objects.mapIdx fun r resource =>
        if m.resources resource.name = some r ∧ resource.name ≠ "_cfx_internal"
          then { resource with state := .uninitialized }
        else resource
      resources := Function.update (fun _ => none) "_cfx_internal" (some cfxInternal)
      resourceProvides := []
      since := m.objects.length }

/-- The providers of a name, as `m_resourceProvides` has them. -/
def providers (identifier : String) : List Nat :=
  (m.resourceProvides.filter fun entry => entry.1 = identifier).map Prod.snd

/-- `GetResource`, when the providers come in some order. -/
def getResource (identifier : String) (range : List Nat) : Option Nat :=
  let resource := m.resources identifier
  if resource.all (m.state · = .stopped) then
    match range.find? fun provider => m.state provider = .started ∨ resource = none with
    | some provider => some provider
    | none => resource
  else resource

/-- A resource that was added since the last reset provides a name. -/
def Provides (r : Nat) (identifier : String) : Prop := m.since ≤ r ∧ identifier ∈ m.provided r

end Manager

inductive Action
  | addResource (name : String) (provided : List String) (loads : Bool)
  | beginStart (r : Nat)
  | endStart (r : Nat) (ok : Bool)
  | stop (r : Nat) (ok : Bool)
  | removeResource (r : Nat) (ok : Bool)
  | resetResources

def step (m : Manager) : Action → Option Manager
  | .addResource name provided loads => m.addResource name provided loads
  | .beginStart r => some (m.beginStart r)
  | .endStart r ok => some (m.endStart r ok)
  | .stop r ok => some (m.stop r ok)
  | .removeResource r ok => m.removeResource r ok
  | .resetResources => m.resetResources

/-- A manager with its internal resource. -/
def init : Manager := Manager.createResource {} "_cfx_internal" []

/-- The two tables are about the resources as they were created. -/
structure Inv (m : Manager) : Prop where
  named : ∀ name r, m.resources name = some r → m.nameOf r = some name
  noted : ∀ identifier r, (identifier, r) ∈ m.resourceProvides ↔ m.Provides r identifier
  since_le : m.since ≤ m.objects.length

variable {m m' : Manager} {name identifier : String} {provided : List String} {r : Nat}

@[simp] theorem nameOf_setState (m : Manager) (r i : Nat) (state : ResourceState) :
    (m.setState r state).nameOf i = m.nameOf i := by
  rw [Manager.nameOf, Manager.setState, List.getElem?_modify, Manager.nameOf]
  cases m.objects[i]? with
  | none => rfl
  | some resource =>
    simp only [Option.map_eq_map, Option.map_some]
    split
    · rfl
    · rfl

@[simp] theorem provided_setState (m : Manager) (r i : Nat) (state : ResourceState) :
    (m.setState r state).provided i = m.provided i := by
  rw [Manager.provided, Manager.setState, List.getElem?_modify, Manager.provided]
  cases m.objects[i]? with
  | none => rfl
  | some resource =>
    simp only [Option.map_eq_map, Option.map_some]
    split
    · rfl
    · rfl

/-- States change nothing else. -/
theorem Inv.setState (hinv : Inv m) (r : Nat) (state : ResourceState) : Inv (m.setState r state) where
  named name i hname := (nameOf_setState m r i state).trans (hinv.named name i hname)
  noted identifier i := by
    rw [Manager.Provides, provided_setState]
    exact hinv.noted identifier i
  since_le := by
    rw [Manager.setState, List.length_modify]
    exact hinv.since_le

theorem Inv.createResource (hinv : Inv m) (name : String) (provided : List String) :
    Inv { m.createResource name provided with
      resourceProvides := m.resourceProvides ++ provided.map fun id => (id, m.objects.length) } := by
  have hnew : (m.createResource name provided).objects[m.objects.length]? = some { name, provided } :=
    List.getElem?_concat_length
  have hold : ∀ {i}, i ≠ m.objects.length → (m.createResource name provided).objects[i]? = m.objects[i]? := by
    intro i hne
    rw [Manager.createResource, List.getElem?_append]
    split
    · rfl
    · rw [List.getElem?_singleton, if_neg (by omega), List.getElem?_eq_none (by omega)]
  have hnone : m.objects[m.objects.length]? = none := List.getElem?_eq_none (Nat.le_refl _)
  refine ⟨fun name' i hname => ?_, fun identifier i => ?_, ?_⟩
  · by_cases hsame : name' = name
    · subst hsame
      obtain rfl : m.objects.length = i :=
        Option.some.inj ((Function.update_self name' _ m.resources).symm.trans hname)
      exact congrArg (Option.map Resource.name) hnew
    · have hbefore := hinv.named name' i ((Function.update_of_ne hsame _ m.resources).symm.trans hname)
      have hne : i ≠ m.objects.length := by
        rintro rfl
        rw [Manager.nameOf, hnone] at hbefore
        cases hbefore
      exact (congrArg (Option.map Resource.name) (hold hne)).trans hbefore
  · rw [List.mem_append, hinv.noted, Manager.Provides, Manager.Provides]
    by_cases hsame : i = m.objects.length
    · subst hsame
      have hempty : m.provided m.objects.length = [] := by
        rw [Manager.provided, hnone]
        rfl
      have hfull : (m.createResource name provided).provided m.objects.length = provided := by
        rw [Manager.provided, hnew]
        rfl
      rw [hempty]
      refine (or_iff_right fun h => List.not_mem_nil h.2).trans (Iff.trans ?_ (and_iff_right hinv.since_le).symm)
      refine Iff.trans ?_ (iff_of_eq (congrArg (identifier ∈ ·) hfull.symm))
      simp
    · refine (or_iff_left ?_).trans (and_congr_right' (iff_of_eq (congrArg (identifier ∈ ·) ?_)))
      · intro hmem
        obtain ⟨id, -, heq⟩ := List.mem_map.mp hmem
        exact hsame (Prod.mk.inj heq).2.symm
      · exact congrArg (fun resource => (Option.map Resource.provided resource).getD []) (hold hsame).symm
  · rw [Manager.createResource, List.length_append]
    exact Nat.le_trans hinv.since_le (Nat.le_add_right _ _)

theorem Inv.erase (hinv : Inv m) (name : String) :
    Inv { m with resources := Function.update m.resources name none } := by
  refine ⟨fun name' i hname => ?_, hinv.noted, hinv.since_le⟩
  by_cases hsame : name' = name
  · subst hsame
    cases (Function.update_self name' _ m.resources).symm.trans hname
  · exact hinv.named name' i ((Function.update_of_ne hsame _ m.resources).symm.trans hname)

theorem Inv.stop (hinv : Inv m) (r : Nat) (ok : Bool) : Inv (m.stop r ok) := by
  unfold Manager.stop
  split
  · exact hinv.setState r _
  · exact hinv

theorem Inv.removeResource (hinv : Inv m) {ok : Bool} (htake : m.removeResource r ok = some m') : Inv m' := by
  obtain ⟨name, -, rfl⟩ := Option.map_eq_some_iff.mp htake
  exact ((hinv.stop r ok).setState r _).erase name

theorem Inv.addResource (hinv : Inv m) {loads : Bool} (htake : m.addResource name provided loads = some m') :
    Inv m' := by
  unfold Manager.addResource at htake
  cases loads with
  | true =>
    cases htake
    exact (hinv.createResource name provided).setState m.objects.length .stopped
  | false =>
    have hcreated := hinv.createResource name []
    rw [List.map_nil, List.append_nil] at hcreated
    exact Inv.removeResource (hcreated.setState m.objects.length .stopped) htake

theorem Inv.resetResources (hinv : Inv m) (htake : m.resetResources = some m') : Inv m' := by
  obtain ⟨cfxInternal, hinternal, rfl⟩ := Option.map_eq_some_iff.mp htake
  refine ⟨fun name i hname => ?_, fun identifier i => ?_, ?_⟩
  · dsimp only at hname
    by_cases hsame : name = "_cfx_internal"
    · subst hsame
      rw [Function.update_self] at hname
      cases hname
      rw [Manager.nameOf, List.getElem?_mapIdx, Option.map_map, ← hinv.named _ _ hinternal, Manager.nameOf]
      refine congrArg (Option.map · _) (funext fun resource => ?_)
      dsimp only [Function.comp]
      split
      · rfl
      · rfl
    · rw [Function.update_of_ne hsame] at hname
      cases hname
  · refine iff_of_false List.not_mem_nil ?_
    rintro ⟨hsince, hmem⟩
    rw [Manager.provided, List.getElem?_mapIdx, List.getElem?_eq_none hsince] at hmem
    cases hmem
  · rw [List.length_mapIdx]

theorem inv_of_run {acts : List Action} (hrun : Run step (fun _ _ => True) init acts m) : Inv m := by
  have hinit : Inv init := by
    have hempty : Inv {} := ⟨nofun, fun _ _ => ⟨nofun, fun h => nomatch h.2⟩, Nat.le_refl _⟩
    have hcreated := hempty.createResource "_cfx_internal" []
    exact hcreated
  refine hrun.invariant Inv hinit ?_
  intro m action m' hinv _ htake
  cases action with
  | addResource name provided loads => exact hinv.addResource htake
  | beginStart r =>
    cases htake
    unfold Manager.beginStart
    split
    · exact hinv
    · exact hinv.setState r _
  | endStart r ok =>
    cases htake
    unfold Manager.endStart
    split
    · exact hinv.setState r _
    · split
      · exact hinv
      · exact hinv.setState r _
  | stop r ok =>
    cases htake
    exact hinv.stop r ok
  | removeResource r ok => exact hinv.removeResource htake
  | resetResources => exact hinv.resetResources htake

theorem mem_providers (hinv : Inv m) : r ∈ m.providers identifier ↔ m.Provides r identifier := by
  rw [Manager.providers, ← hinv.noted]
  simp

/-- A provider is found where the resource itself is stopped or not there: one that is started, or any if there is
no resource. -/
theorem getResource_cases {range : List Nat} (hrange : ∀ r, r ∈ range ↔ m.Provides r identifier) :
    (∃ r, m.resources identifier = some r ∧ m.state r ≠ .stopped ∧ m.getResource identifier range = some r) ∨
      (∀ r, m.resources identifier = some r → m.state r = .stopped) ∧
        ((∃ p, m.Provides p identifier ∧ (m.state p = .started ∨ m.resources identifier = none) ∧
            m.getResource identifier range = some p) ∨
          (∀ p, m.Provides p identifier → m.state p ≠ .started ∧ m.resources identifier ≠ none) ∧
            m.getResource identifier range = m.resources identifier) := by
  unfold Manager.getResource
  dsimp only
  split
  · rename_i hstopped
    refine .inr ⟨fun r hr => ?_, ?_⟩
    · rw [hr] at hstopped
      exact of_decide_eq_true hstopped
    · split
      · rename_i provider hfind
        have hwhy := List.find?_some hfind
        exact .inl ⟨provider, (hrange provider).mp (List.mem_of_find?_eq_some hfind), of_decide_eq_true hwhy, rfl⟩
      · rename_i hnone
        refine .inr ⟨fun p hp => ?_, rfl⟩
        have hnot := List.find?_eq_none.mp hnone p ((hrange p).mpr hp)
        exact not_or.mp (mt decide_eq_true hnot)
  · rename_i hstopped
    cases hresource : m.resources identifier with
    | none =>
      rw [hresource] at hstopped
      exact absurd rfl hstopped
    | some r =>
      rw [hresource] at hstopped
      exact .inl ⟨r, rfl, fun h => hstopped (decide_eq_true h), rfl⟩

/-- What `GetResource` finds in any run for a name none of whose providers has been removed or replaced since the
last reset: the resource of that name if it is not stopped, else a started provider, else the stopped resource;
and where there is no resource of that name, any provider. -/
theorem getResource_of_run {acts : List Action} {range : List Nat} (hrun : Run step (fun _ _ => True) init acts m)
    (hcurrent : ∀ p, m.Provides p identifier → m.Registered p) (hrange : range.Perm (m.providers identifier)) :
    (∀ r, m.getResource identifier range = some r → m.Registered r) ∧
      (∀ r, m.resources identifier = some r → m.state r ≠ .stopped → m.getResource identifier range = some r) ∧
      (∀ r, m.resources identifier = some r → m.state r = .stopped →
        (∃ p, m.Provides p identifier ∧ m.state p = .started ∧ m.getResource identifier range = some p) ∨
          (∀ p, m.Provides p identifier → m.state p ≠ .started) ∧ m.getResource identifier range = some r) ∧
      (m.resources identifier = none → (∃ p, m.Provides p identifier) →
        ∃ p, m.Provides p identifier ∧ m.getResource identifier range = some p) ∧
      (m.getResource identifier range = none ↔ m.resources identifier = none ∧ ∀ p, ¬ m.Provides p identifier) := by
  have hinv := inv_of_run hrun
  have hmem : ∀ r, r ∈ range ↔ m.Provides r identifier := fun r => hrange.mem_iff.trans (mem_providers hinv)
  have hnamed : ∀ r, m.resources identifier = some r → m.Registered r :=
    fun r hr => ⟨identifier, hinv.named identifier r hr, hr⟩
  obtain ⟨r, hr, hstate, hfound⟩ | ⟨hstopped, ⟨p, hp, hwhy, hfound⟩ | ⟨hnone, hfound⟩⟩ := getResource_cases hmem
  · rw [hfound, hr]
    refine ⟨?_, ?_, ?_, nofun, iff_of_false nofun nofun⟩
    · rintro r' h
      cases h
      exact hnamed r hr
    · rintro r' h -
      exact h
    · rintro r' h hstopped
      cases h
      exact absurd hstopped hstate
  · rw [hfound]
    refine ⟨?_, ?_, ?_, fun _ _ => ⟨p, hp, rfl⟩, iff_of_false nofun fun h => h.2 p hp⟩
    · rintro r' h
      cases h
      exact hcurrent p hp
    · intro r hr hstate
      exact absurd (hstopped r hr) hstate
    · intro r hr _
      refine .inl ⟨p, hp, hwhy.resolve_right ?_, rfl⟩
      rw [hr]
      exact nofun
  · rw [hfound]
    refine ⟨hnamed, fun r hr _ => hr, fun r hr _ => .inr ⟨fun p hp => (hnone p hp).1, hr⟩, ?_, ?_⟩
    · rintro hresource ⟨p, hp⟩
      exact absurd hresource (hnone p hp).2
    · exact ⟨fun h => ⟨h, fun p hp => (hnone p hp).2 h⟩, And.left⟩

/-- A resource and a started provider of its name, which is found while the resource is stopped. -/
theorem getResource_sample :
    ∃ m, Run step (fun _ _ => True) init [.addResource "chat" [] true, .addResource "fast-chat" ["chat"] true,
      .beginStart 2, .endStart 2 true] m ∧ m.getResource "chat" [2] = some 2 ∧ m.Registered 2 := by
  have hend : (exec step init [.addResource "chat" [] true, .addResource "fast-chat" ["chat"] true, .beginStart 2,
      .endStart 2 true]).any (fun m => decide (m.getResource "chat" [2] = some 2 ∧ m.providers "chat" = [2] ∧
        m.nameOf 2 = some "fast-chat" ∧ m.resources "fast-chat" = some 2)) = true := by
    decide +kernel
  obtain ⟨m, hrun, htest⟩ := exists_run hend
  obtain ⟨hfound, hproviders, hname, hregistered⟩ := of_decide_eq_true htest
  have hcurrent : ∀ p, m.Provides p "chat" → m.Registered p := by
    intro p hp
    rw [← mem_providers (inv_of_run hrun), hproviders, List.mem_singleton] at hp
    rw [hp]
    exact ⟨"fast-chat", hname, hregistered⟩
  have hperm : [2].Perm (m.providers "chat") := by rw [hproviders]
  obtain ⟨hall, -⟩ := getResource_of_run hrun hcurrent hperm
  exact ⟨m, hrun, hfound, hall 2 hfound⟩

/-- A provider that was removed is found, and where there is no resource of the name, a stopped provider is found
though another one is started. -/
theorem getResource_removed :
    (∃ m, Run step (fun _ _ => True) init [.addResource "fast-chat" ["chat"] true, .removeResource 1 true] m ∧
      m.getResource "chat" (m.providers "chat") = some 1 ∧ m.resources "fast-chat" = none) ∧
    ∃ m, Run step (fun _ _ => True) init [.addResource "old-chat" ["chat"] true,
        .addResource "fast-chat" ["chat"] true, .beginStart 2, .endStart 2 true] m ∧
          m.getResource "chat" (m.providers "chat") = some 1 ∧ m.state 1 = .stopped ∧
      m.resources "chat" = none ∧ m.providers "chat" = [1, 2] ∧ m.state 2 = .started := by
  have hremoved : (exec step init [.addResource "fast-chat" ["chat"] true, .removeResource 1 true]).any
      (fun m => decide (m.getResource "chat" (m.providers "chat") = some 1 ∧ m.resources "fast-chat" = none)) =
        true := by
    decide +kernel
  have hstopped : (exec step init [.addResource "old-chat" ["chat"] true, .addResource "fast-chat" ["chat"] true,
      .beginStart 2, .endStart 2 true]).any
        (fun m => decide (m.getResource "chat" (m.providers "chat") = some 1 ∧ m.state 1 = .stopped ∧
          m.resources "chat" = none ∧ m.providers "chat" = [1, 2] ∧ m.state 2 = .started)) = true := by
    decide +kernel
  obtain ⟨m, hrun, htest⟩ := exists_run hremoved
  obtain ⟨m', hrun', htest'⟩ := exists_run hstopped
  exact ⟨⟨m, hrun, of_decide_eq_true htest⟩, m', hrun', of_decide_eq_true htest'⟩

end fx.ResourceLookup
