import Citizen.Lib.Bits
import Citizen.Lib.Transition

open Bits Transition

namespace fx

/-- A resource, as its name and the number of the object. -/
structure Resource where
  name : List Byte
  id : Nat
  deriving DecidableEq

/-- A call of `ForAllResources` that has not returned. -/
structure ResourceCall where
  idx : Nat := 0
  resCount : Nat
  /-- The resources when the call began. -/
  resources : List Resource
  /-- The resources that the call has called its function for. -/
  callbacks : List Resource := []

/-- The resources in the order of the hash map, the static vector, and the calls that have not returned, innermost
first. -/
structure ResourceManager where
  resources : List Resource
  currentResources : List Resource
  calls : List ResourceCall := []
  /-- How many resources have been made. -/
  created : Nat
  names_nodup : (resources.map Resource.name).Nodup
  id_lt : ∀ resource ∈ resources, resource.id < created

/-- What happens in the manager. A callback lasts until the next step of its call, and everything in between is part
of it. -/
inductive ManagerAction
  | forAllResources
  | function
  | finish
  | createResource (resourceName : List Byte) (order : List Resource)
  | removeResource (resourceName : List Byte)

namespace ResourceManager

/-- The vector after a call has collected the resources. -/
def collected (s : ResourceManager) : List Resource := s.resources ++ s.currentResources.drop s.resources.length

/-- The resources that a call has still to call its function for, if the vector stays as it is. -/
def remaining (currentResources : List Resource) (call : ResourceCall) : List Resource :=
  (currentResources.take call.resCount).drop call.idx

def forAllResources (s : ResourceManager) : ResourceManager :=
  { s with
    currentResources := s.collected
    calls := { resCount := s.resources.length, resources := s.resources } :: s.calls }

/-- One turn of the loop of the innermost call. -/
def function (s : ResourceManager) : Option ResourceManager :=
  match s.calls with
  | [] => none
  | call :: calls =>
    if call.idx < call.resCount then
      s.currentResources[call.idx]?.map fun resource =>
        { s with calls := { call with idx := call.idx + 1, callbacks := call.callbacks ++ [resource] } :: calls }
    else none

def finish (s : ResourceManager) : Option ResourceManager :=
  match s.calls with
  | [] => none
  | call :: calls => if call.idx < call.resCount then none else some { s with calls }

theorem createResource_nodup (s : ResourceManager) {resourceName : List Byte} {order : List Resource}
    (h : order.Perm (⟨resourceName, s.created⟩ :: s.resources.filter fun resource => resource.name ≠ resourceName)) :
    (order.map Resource.name).Nodup := by
  rw [(h.map Resource.name).nodup_iff, List.map_cons, List.nodup_cons]
  refine ⟨?_, s.names_nodup.sublist (List.filter_sublist.map _)⟩
  simp

theorem createResource_lt (s : ResourceManager) {resourceName : List Byte} {order : List Resource}
    (h : order.Perm (⟨resourceName, s.created⟩ :: s.resources.filter fun resource => resource.name ≠ resourceName)) :
    ∀ resource ∈ order, resource.id < s.created + 1 := by
  intro resource hmem
  rcases List.mem_cons.mp (h.mem_iff.mp hmem) with rfl | hold
  · exact Nat.lt_succ_self _
  · exact Nat.lt_succ_of_lt (s.id_lt resource (List.mem_filter.mp hold).1)

/-- `CreateResource`. The new resource takes the place of one with its name, and the map may come to have any order. -/
def createResource (s : ResourceManager) (resourceName : List Byte) (order : List Resource) : Option ResourceManager :=
  if h : order.Perm (⟨resourceName, s.created⟩ :: s.resources.filter fun resource => resource.name ≠ resourceName) then
    some { s with
      resources := order
      created := s.created + 1
      names_nodup := s.createResource_nodup h
      id_lt := s.createResource_lt h }
  else none

/-- The end of `RemoveResource`, after the resource has been stopped and destroyed. -/
def removeResource (s : ResourceManager) (resourceName : List Byte) : ResourceManager :=
  { s with
    resources := s.resources.filter fun resource => resource.name ≠ resourceName
    names_nodup := s.names_nodup.sublist (List.filter_sublist.map _)
    id_lt := fun resource hmem => s.id_lt resource (List.mem_filter.mp hmem).1 }

def step (s : ResourceManager) : ManagerAction → Option ResourceManager
  | .forAllResources => some s.forAllResources
  | .function => s.function
  | .finish => s.finish
  | .createResource resourceName order => s.createResource resourceName order
  | .removeResource resourceName => some (s.removeResource resourceName)

/-- Calls that have gone through the vector have called their function once for each resource that is there from
their start on, and the innermost call goes on with a resource that is there. -/
def Delivers (s : ResourceManager) : Prop :=
  (∀ call ∈ s.calls, call.idx = call.resCount →
      ∀ resource ∈ call.resources, resource ∈ s.resources → call.callbacks.count resource = 1) ∧
    ∀ call ∈ s.calls.head?, ∀ resource ∈ (remaining s.currentResources call).head?, resource ∈ s.resources

/-- A nested call leaves the resources to come of each unfinished call in the vector, and no resource to come goes
away. -/
def Allows (s : ResourceManager) : ManagerAction → Prop
  | .forAllResources => ∀ call ∈ s.calls, (remaining s.collected call).Perm (remaining s.currentResources call)
  | .createResource resourceName _ | .removeResource resourceName =>
    ∀ call ∈ s.calls, ∀ resource ∈ remaining s.currentResources call, resource.name ≠ resourceName
  | .function | .finish => True

instance (s : ResourceManager) : (action : ManagerAction) → Decidable (s.Allows action)
  | .forAllResources => inferInstanceAs (Decidable (∀ call ∈ s.calls, _))
  | .createResource _ _ => inferInstanceAs (Decidable (∀ call ∈ s.calls, _))
  | .removeResource _ => inferInstanceAs (Decidable (∀ call ∈ s.calls, _))
  | .function => isTrue trivial
  | .finish => isTrue trivial

/-- The callbacks of a call and the resources that it has still to come to are those it began with. -/
structure Tracks (s : ResourceManager) (call : ResourceCall) : Prop where
  idx_le : call.idx ≤ call.resCount
  le_length : call.resCount ≤ s.currentResources.length
  nodup : call.resources.Nodup
  perm : (call.callbacks ++ remaining s.currentResources call).Perm call.resources
  mem : ∀ resource ∈ remaining s.currentResources call, resource ∈ s.resources

/-- The resources that exist go on existing for the calls that have still to come to them. -/
theorem Tracks.of_eq {s t : ResourceManager} {call : ResourceCall} (h : s.Tracks call)
    (hvector : t.currentResources = s.currentResources)
    (hmem : ∀ resource ∈ remaining s.currentResources call, resource ∈ s.resources → resource ∈ t.resources) :
    t.Tracks call where
  idx_le := h.idx_le
  le_length := hvector ▸ h.le_length
  nodup := h.nodup
  perm := hvector ▸ h.perm
  mem := by
    rw [hvector]
    exact fun resource hresource => hmem resource hresource (h.mem resource hresource)

theorem tracks_forAllResources {s : ResourceManager} (h : ∀ call ∈ s.calls, s.Tracks call)
    (hallows : s.Allows .forAllResources) : ∀ call ∈ s.forAllResources.calls, s.forAllResources.Tracks call := by
  have hlength : s.resources.length ≤ s.collected.length ∧ s.currentResources.length ≤ s.collected.length := by
    simp only [collected, List.length_append, List.length_drop]
    omega
  refine List.forall_mem_cons.mpr ⟨?_, fun call hcall => ?_⟩
  · have hremaining : remaining s.collected { resCount := s.resources.length, resources := s.resources } =
      s.resources := by
      simp [remaining, collected]
    exact
      { idx_le := Nat.zero_le _
        le_length := hlength.1
        nodup := List.Nodup.of_map _ s.names_nodup
        perm := by
          rw [List.nil_append]
          exact List.Perm.of_eq hremaining
        mem := fun resource hresource => hremaining ▸ hresource }
  · have hcall' := h call hcall
    have hperm := hallows call hcall
    exact
      { idx_le := hcall'.idx_le
        le_length := hcall'.le_length.trans hlength.2
        nodup := hcall'.nodup
        perm := (hperm.append_left _).trans hcall'.perm
        mem := fun resource hresource => hcall'.mem resource (hperm.mem_iff.mp hresource) }

theorem remaining_eq_cons {currentResources : List Resource} {call : ResourceCall} (hlt : call.idx < call.resCount)
    {resource : Resource} (hget : currentResources[call.idx]? = some resource) :
    remaining currentResources call = resource :: remaining currentResources { call with idx := call.idx + 1 } := by
  obtain ⟨hlength, rfl⟩ := List.getElem?_eq_some_iff.mp hget
  have htake : call.idx < (currentResources.take call.resCount).length := by
    rw [List.length_take]
    omega
  rw [remaining, List.drop_eq_getElem_cons htake, List.getElem_take]
  rfl

theorem tracks_function {s t : ResourceManager} (h : ∀ call ∈ s.calls, s.Tracks call) (hstep : s.function = some t) :
    ∀ call ∈ t.calls, t.Tracks call := by
  unfold function at hstep
  split at hstep
  · cases hstep
  · rename_i call calls hcalls
    rw [hcalls] at h
    obtain ⟨hcall, hothers⟩ := List.forall_mem_cons.mp h
    split at hstep
    · rename_i hlt
      obtain ⟨resource, hget, rfl⟩ := Option.map_eq_some_iff.mp hstep
      have hremaining := remaining_eq_cons hlt hget
      have hperm := hcall.perm
      have hmem := hcall.mem
      rw [hremaining] at hperm hmem
      refine List.forall_mem_cons.mpr ⟨?_, fun other hother => (hothers other hother).of_eq rfl fun _ _ hmem => hmem⟩
      exact
        { idx_le := hlt
          le_length := hcall.le_length
          nodup := hcall.nodup
          perm := by
            rw [List.append_assoc]
            exact hperm
          mem := fun resource' hresource' => hmem resource' (List.mem_cons_of_mem _ hresource') }
    · cases hstep

theorem tracks_step {s t : ResourceManager} {action : ManagerAction} (h : ∀ call ∈ s.calls, s.Tracks call)
    (hallows : s.Allows action) (hstep : s.step action = some t) : ∀ call ∈ t.calls, t.Tracks call := by
  cases action with
  | forAllResources =>
    cases hstep
    exact tracks_forAllResources h hallows
  | function => exact tracks_function h hstep
  | finish =>
    simp only [step, finish] at hstep
    split at hstep
    · cases hstep
    · rename_i call calls hcalls
      rw [hcalls] at h
      split at hstep
      · cases hstep
      · cases hstep
        exact fun other hother => ((List.forall_mem_cons.mp h).2 other hother).of_eq rfl fun _ _ hmem => hmem
  | createResource resourceName order =>
    simp only [step, createResource] at hstep
    split at hstep
    · rename_i horder
      cases hstep
      refine fun call hcall => (h call hcall).of_eq rfl fun resource hresource hmem => ?_
      have hname : resource.name ≠ resourceName := hallows call hcall resource hresource
      refine horder.mem_iff.mpr (List.mem_cons_of_mem _ (List.mem_filter.mpr ⟨hmem, ?_⟩))
      simpa using hname
    · cases hstep
  | removeResource resourceName =>
    cases hstep
    refine fun call hcall => (h call hcall).of_eq rfl fun resource hresource hmem => ?_
    have hname : resource.name ≠ resourceName := hallows call hcall resource hresource
    exact List.mem_filter.mpr ⟨hmem, by simpa using hname⟩

theorem Tracks.remaining_nil {s : ResourceManager} {call : ResourceCall} (hend : call.idx = call.resCount) :
    remaining s.currentResources call = [] := by
  rw [remaining, hend, List.drop_eq_nil_of_le (List.length_take_le _ _)]

theorem delivers_of_tracks {s : ResourceManager} (h : ∀ call ∈ s.calls, s.Tracks call) : s.Delivers := by
  constructor
  · intro call hcall hend resource hresource _
    have hperm := (h call hcall).perm
    rw [Tracks.remaining_nil hend, List.append_nil] at hperm
    rw [hperm.count_eq, List.count_eq_one_of_mem (h call hcall).nodup hresource]
  · intro call hcall resource hresource
    exact (h call (List.mem_of_head? hcall)).mem resource (List.mem_of_head? hresource)

/-- In every run in which nested calls leave the resources to come in the vector and none of them goes away, each
call of `ForAllResources` calls its function once for every resource, and for none that is gone. -/
theorem run_delivers {s t : ResourceManager} {actions : List ManagerAction} (hcalls : s.calls = [])
    (h : Run step Allows s actions t) : t.Delivers := by
  refine delivers_of_tracks (h.invariant (fun t => ∀ call ∈ t.calls, t.Tracks call) ?_ tracks_step)
  rw [hcalls]
  exact fun call hcall => absurd hcall List.not_mem_nil

/-- Three resources. -/
def sample : ResourceManager where
  resources := [⟨[97], 0⟩, ⟨[98], 1⟩, ⟨[99], 2⟩]
  currentResources := []
  created := 3
  names_nodup := by decide
  id_lt := by decide

/-- The first callback creates a resource and makes a nested call, and the second one removes the first resource. -/
theorem run_delivers_sample : ∃ t : ResourceManager, t.Delivers ∧
    t.calls.map ResourceCall.callbacks = [sample.resources] := by
  have hend : ((exec (fun s action => if decide (s.Allows action) then s.step action else none) sample
      [.forAllResources, .function, .createResource [100] (sample.resources ++ [⟨[100], 3⟩]),
        .forAllResources, .function, .function, .function, .function, .finish, .function, .removeResource [97],
          .function]).any fun t =>
          t.calls.map ResourceCall.callbacks == [sample.resources]) = true := by decide +kernel
  obtain ⟨t, hrun, ht⟩ := exists_checked (fun s action hcheck => of_decide_eq_true hcheck) hend
  exact ⟨t, run_delivers rfl hrun, beq_iff_eq.mp ht⟩

/-- The first callback removes its resource and makes a nested call. The second resource is then passed over, and
the third one gets two callbacks. -/
theorem run_nested : ∃ t, Run step (fun _ _ => True) sample
      [.forAllResources, .function, .removeResource [97], .forAllResources, .function, .function, .finish, .function,
        .function] t ∧
    t.calls.map ResourceCall.callbacks = [[⟨[97], 0⟩, ⟨[99], 2⟩, ⟨[99], 2⟩]] ∧ ¬ t.Delivers := by
  have hend : ((exec step sample [.forAllResources, .function, .removeResource [97], .forAllResources,
      .function, .function, .finish, .function, .function]).any fun t =>
        t.calls.map ResourceCall.callbacks == [[⟨[97], 0⟩, ⟨[99], 2⟩, ⟨[99], 2⟩]] && t.calls.all (fun call =>
          call.idx == call.resCount && decide (⟨[98], 1⟩ ∈ call.resources)) && decide (⟨[98], 1⟩ ∈ t.resources)) =
            true := by
    decide +kernel
  obtain ⟨t, hrun, ht⟩ := exists_run hend
  rw [Bool.and_eq_true, Bool.and_eq_true, beq_iff_eq, List.all_eq_true, decide_eq_true_eq] at ht
  obtain ⟨⟨hcallbacks, hcalls⟩, hthere⟩ := ht
  refine ⟨t, hrun, hcallbacks, fun h => ?_⟩
  cases hlist : t.calls with
  | nil => simp [hlist] at hcallbacks
  | cons call calls =>
    have hcall : call ∈ t.calls := by simp [hlist]
    obtain ⟨hfinished, hbegan⟩ : call.idx = call.resCount ∧ ⟨[98], 1⟩ ∈ call.resources := by
      simpa using hcalls call hcall
    have honce := h.1 call hcall hfinished _ hbegan hthere
    rw [hlist, List.map_cons] at hcallbacks
    rw [(List.cons.inj hcallbacks).1] at honce
    exact absurd honce (by decide)

end ResourceManager

end fx
