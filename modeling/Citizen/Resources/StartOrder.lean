import Citizen.Lib.Bits
import Citizen.Lib.OrderedMap
import Citizen.Lib.Transition

open Bits Transition

namespace fx.StartOrder

abbrev Name := List Byte

/-- A `Resource*` with the name of the resource. A folder that moved makes a second resource of its name. -/
structure ResourcePtr where
  name : Name
  index : Nat
  deriving DecidableEq

inductive ResourceState
  | uninitialized | stopped | starting | started
  deriving DecidableEq

/-- The entries of a resource that the handlers read. -/
structure MetaData where
  serverOnly : Bool := false
  dependency : List Name := []
  /-- `dependencies` without its last letter. -/
  dependencie : List Name := []
  deriving DecidableEq

structure Resource where
  state : ResourceState := .stopped
  metaData : MetaData := {}
  /-- The resources that its dependency entries stood for when it was last started. -/
  loaded : List ResourcePtr := []
  /-- It was `server_only` when it was last started. -/
  serverOnly : Bool := false
  deriving DecidableEq

/-- `ConstraintMatchResult`. -/
inductive ConstraintMatchResult
  | noConstraint | pass | fail
  deriving DecidableEq

/-- What the other handlers of `OnBeforeStart` return, and `MatchConstraint`, during a call. -/
structure Answers where
  /-- The handlers that come before the dependency loader. -/
  before : Name → Bool := fun _ => true
  /-- Those that come after it. -/
  after : Name → Bool := fun _ => true
  matchConstraint : Name → ConstraintMatchResult := fun _ => .noConstraint

/-- The resource manager, and the static variables of the handlers and of `ScanResources`. -/
structure Manager where
  /-- `m_resources`. -/
  resources : Name → Option ResourcePtr := fun _ => none
  resource : ResourcePtr → Resource := fun _ => {}
  /-- The number of resources made so far. -/
  created : Nat := 0
  /-- `m_resourceProvides`: what is provided, and by which resource. A resource that is removed stays in it. -/
  provides : List (Name × ResourcePtr) := []
  resourceDependencies : List (Name × Name) := []
  resourceDependants : List (Name × Name) := []
  /-- `g_resourceStartOrder`. The clients are sent the names. -/
  startOrder : List ResourcePtr := []
  /-- The folder that a resource was found in. -/
  scanData : Name → Option (List Byte) := fun _ => none

namespace Manager

variable (m : Manager)

def state (resource : ResourcePtr) : ResourceState := (m.resource resource).state

def metaData (resource : ResourcePtr) : MetaData := (m.resource resource).metaData

def update (resource : ResourcePtr) (f : Resource → Resource) : Manager :=
  { m with resource := Function.update m.resource resource (f (m.resource resource)) }

def setState (resource : ResourcePtr) (state : ResourceState) : Manager := m.update resource fun r => { r with state }

/-- `GetResource`. Where a resource does not exist or is stopped, another one may provide it. -/
def getResource (identifier : Name) : Option ResourcePtr :=
  if (m.resources identifier).all fun resource => m.state resource = .stopped then
    match m.provides.find? fun entry =>
        entry.1 = identifier ∧ (m.state entry.2 = .started ∨ m.resources identifier = none) with
    | some entry => some entry.2
    | none => m.resources identifier
  else m.resources identifier

/-- The other resources of the pairs of a multimap with this key: a `std::set` of the pairs goes by their names. -/
def equalRange (pairs : List (Name × Name)) (name : Name) : List Name :=
  (Std.TreeSet.ofList ((pairs.filter fun pair => pair.1 = name).map Prod.snd)).toList

/-- `erase` of a multimap. -/
def erase (pairs : List (Name × Name)) (name : Name) : List (Name × Name) := pairs.filter fun pair => pair.1 ≠ name

/-- The dependency loader notes down a resource that another one loads. -/
def record (resource other : ResourcePtr) : Manager :=
  let m := m.update resource fun r => { r with loaded := r.loaded ++ [other] }
  { m with resourceDependants := m.resourceDependants ++ [(other.name, resource.name)] }

section Calls

variable (answers : Answers)

/-- `loadDeps`, for the entries that are left. `success` is false once a constraint has failed. -/
def loadDeps (start : Manager → ResourcePtr → Option (Manager × Bool)) (resource : ResourcePtr) :
    Manager → Bool → List Name → Option (Manager × Bool)
  | m, success, [] => some (m, success)
  | m, success, dependency :: entries =>
    match answers.matchConstraint dependency with
    | .pass => loadDeps start resource m success entries
    | .fail => loadDeps start resource m false entries
    | .noConstraint =>
      match m.getResource dependency with
      | none => some (m, false)
      | some other =>
        if m.state other = .starting ∨ m.state other = .started then
          loadDeps start resource (m.record resource other) success entries
        else
          match start (m.record resource other) other with
          | none => none
          | some (m, true) => loadDeps start resource m success entries
          | some (m, false) =>
            some ({ m with resourceDependencies := m.resourceDependencies ++ [(other.name, resource.name)] }, false)

/-- `OnBeforeStart`. -/
def onBeforeStart (start : Manager → ResourcePtr → Option (Manager × Bool)) (resource : ResourcePtr) :
    Option (Manager × Bool) :=
  if answers.before resource.name then
    (loadDeps answers start resource m true
      ((m.metaData resource).dependency ++ (m.metaData resource).dependencie)).map fun result =>
        (result.1, result.2 && answers.after resource.name)
  else some (m, false)

/-- The handler that appends a resource to the start order. -/
def append (resource : ResourcePtr) : Manager :=
  let serverOnly := (m.metaData resource).serverOnly
  { m.update resource fun r => { r with serverOnly } with
    startOrder := if serverOnly then m.startOrder else m.startOrder ++ [resource] }

/-- `Start` of the dependants that wait for a resource. -/
def startAll (start : Manager → ResourcePtr → Option (Manager × Bool)) : Manager → List Name → Option Manager
  | m, [] => some m
  | m, dependant :: dependants =>
    match m.getResource dependant with
    | none => startAll start m dependants
    | some resource => (start m resource).bind fun result => startAll start result.1 dependants

/-- `OnStart`, whose handlers do not veto: the waiting dependants are started, and the resource is appended. -/
def onStart (start : Manager → ResourcePtr → Option (Manager × Bool)) (resource : ResourcePtr) : Option Manager :=
  (startAll start m (equalRange m.resourceDependencies resource.name)).map fun m =>
    append { m with resourceDependencies := erase m.resourceDependencies resource.name } resource

/-- `Start`. The first argument is the number of calls of it that the stack has room for. -/
def start : Nat → Manager → ResourcePtr → Option (Manager × Bool)
  | 0, _, _ => none
  | depth + 1, m, resource =>
    if m.state resource = .started then some (m, true)
    else
      let before :=
        if m.state resource = .starting then some (m, true)
        else onBeforeStart (m.update resource fun r => { r with state := .starting, loaded := [] }) answers
          (start depth) resource
      match before with
      | none => none
      | some (m, false) => some (if m.state resource ≠ .started then m.setState resource .stopped else m, false)
      | some (m, true) => (onStart m (start depth) resource).map fun m => (m.setState resource .started, true)

/-- `Stop` of the dependants of a resource. -/
def stopAll (stop : Manager → ResourcePtr → Option Manager) (resource : ResourcePtr) :
    Manager → List Name → Option Manager
  | m, [] => some m
  | m, dependant :: dependants =>
    match m.getResource dependant with
    | none => stopAll stop resource m dependants
    | some other =>
      if other.name ≠ resource.name then (stop m other).bind fun m => stopAll stop resource m dependants
      else stopAll stop resource m dependants

/-- The handler that removes a resource from the start order. -/
def remove (resource : ResourcePtr) : Manager :=
  { m with
    startOrder :=
      if (m.metaData resource).serverOnly then m.startOrder
      else m.startOrder.filter fun other => other.name ≠ resource.name }

/-- `Stop`, whose handlers do not veto: the dependants are stopped, and the resource is removed. -/
def stop : Nat → Manager → ResourcePtr → Option Manager
  | 0, _, _ => none
  | depth + 1, m, resource =>
    if m.state resource = .stopped then some m
    else
      (stopAll (stop depth) resource m (equalRange m.resourceDependants resource.name)).map fun m =>
        (remove { m with resourceDependants := erase m.resourceDependants resource.name } resource).setState
          resource .stopped

end Calls

/-- `RemoveResource`, for a resource that is stopped. -/
def removeResource (resource : ResourcePtr) : Manager :=
  { m.setState resource .uninitialized with resources := Function.update m.resources resource.name none }

/-- A folder as `ScanResources` finds it. -/
structure Folder where
  name : Name
  resPath : List Byte
  metaData : MetaData := {}
  provide : List Name := []
  /-- Whether `LoadFrom` succeeds. -/
  loads : Bool := true
  deriving DecidableEq

/-- A resource is found for the first time, or again. -/
def addResource (folder : Folder) : Manager :=
  let m := { m with
    scanData := Function.update m.scanData folder.name (some folder.resPath)
    created := m.created + 1 }
  let resource : ResourcePtr := ⟨folder.name, m.created⟩
  if folder.loads then
    { m with
      resources := Function.update m.resources folder.name (some resource)
      resource := Function.update m.resource resource { metaData := folder.metaData }
      provides := m.provides ++ folder.provide.map fun identifier => (identifier, resource) }
  else { m with resource := Function.update m.resource resource { state := .uninitialized } }

/-- `ScanResources`, as far as one folder goes: it is new, or it was found elsewhere before, or its metadata is
loaded again. -/
def scanResource (depth : Nat) (folder : Folder) : Option Manager :=
  match m.resources folder.name with
  | none => some (m.addResource folder)
  | some oldRes =>
    if (m.scanData folder.name).any (· ≠ folder.resPath) then
      (stop depth m oldRes).map fun m => (m.removeResource oldRes).addResource folder
    else some (m.update oldRes fun r => { r with metaData := folder.metaData })

end Manager

/-- A call from outside. -/
inductive Action
  | start (depth : Nat) (answers : Answers) (name : Name)
  | stop (depth : Nat) (name : Name)
  | refresh (depth : Nat) (folder : Manager.Folder)

namespace Manager

/-- A call that returns. `start` and `stop` do nothing for a resource that is not found. -/
def step (m : Manager) : Action → Option Manager
  | .start depth answers name =>
    match m.getResource name with
    | none => some m
    | some resource => (start answers depth m resource).map Prod.fst
  | .stop depth name =>
    match m.getResource name with
    | none => some m
    | some resource => stop depth m resource
  | .refresh depth folder => m.scanResource depth folder

/-- The start order is right. -/
structure Right (m : Manager) : Prop where
  /-- It has each resource once. -/
  nodup : (m.startOrder.map ResourcePtr.name).Nodup
  /-- It has the started resources that were not `server_only`. -/
  exact : ∀ resource, resource ∈ m.startOrder ↔ m.state resource = .started ∧ (m.resource resource).serverOnly = false
  /-- A resource comes after the dependencies that it loaded. -/
  ordered : ∀ resource ∈ m.startOrder, ∀ other ∈ (m.resource resource).loaded, other ∈ m.startOrder →
    m.startOrder.idxOf other < m.startOrder.idxOf resource

end Manager

end fx.StartOrder
