import Citizen.Lib.Transition

namespace fwRefContainer

/-- A container: the object that it is a member of, if any, and its `m_ref`. -/
structure Container where
  owner : Option Nat
  ref : Option Nat
  deriving DecidableEq

/-- The counts of the objects, and the containers. `none` is one that has been destroyed. -/
structure Heap where
  objects : List (Option Nat)
  containers : List (Option Container)
  deriving DecidableEq

/-- A call that has not returned yet. -/
inductive Call where
  | release (x : Nat)
  | delete (x : Nat)
  deriving DecidableEq

namespace Heap

/-- `GetRefCount`, of an object that has not been destroyed. -/
def getRefCount (h : Heap) (x : Nat) : Option Nat := h.objects.getD x none

def container (h : Heap) (k : Nat) : Option Container := h.containers.getD k none

def setRefCount (h : Heap) (x count : Nat) : Heap := { h with objects := h.objects.set x (some count) }

def free (h : Heap) (x : Nat) : Heap := { h with objects := h.objects.set x none }

def put (h : Heap) (k : Nat) (c : Option Container) : Heap := { h with containers := h.containers.set k c }

/-- How many containers point to an object. -/
def references (h : Heap) (x : Nat) : Nat := h.containers.countP fun c => decide (c.bind Container.ref = some x)

/-- `AddRef`. The count is a `uint32_t`. -/
def addRef (h : Heap) (x : Nat) : Option Heap := (h.getRefCount x).map fun c => h.setRefCount x ((c + 1) % 2 ^ 32)

/-- The member that is destroyed next: the last one that is still there. -/
def lastMember (h : Heap) (x : Nat) : Option Nat :=
  (List.range h.containers.length).reverse.find? fun k => decide ((h.container k).bind Container.owner = some x)

/-- What a call does until it calls again or returns, and its calls. `delete` destroys the members and then
the object. -/
def advance (h : Heap) : Call → Option (Heap × List Call)
  | .release x => (h.getRefCount x).map fun c =>
    (h.setRefCount x ((c + (2 ^ 32 - 1)) % 2 ^ 32), if c ≤ 1 then [.delete x] else [])
  | .delete x => (h.getRefCount x).map fun _ =>
    match h.lastMember x with
    | none => (h.free x, [])
    | some k => (h.put k none, (((h.container k).bind Container.ref).map Call.release).toList ++ [.delete x])

/-- The calls return one after the other. `none` is the use of something that has been destroyed. -/
def returns : Nat → Heap → List Call → Option Heap
  | _, h, [] => some h
  | 0, _, _ :: _ => none
  | fuel + 1, h, call :: calls => do
    let (h, inner) ← h.advance call
    returns fuel h (inner ++ calls)

def callWeight : Call → Nat
  | .release _ => 2
  | .delete _ => 1

/-- No more calls than this are made before all calls return. -/
def weight (h : Heap) (calls : List Call) : Nat :=
  3 * h.containers.countP Option.isSome + 2 * h.objects.countP Option.isSome +
    (calls.map callWeight).sum

/-- `new`, of an object with `fwRefContainer` members. -/
def create (h : Heap) (members : Nat) : Heap where
  objects := h.objects ++ [some 0]
  containers := h.containers ++ List.replicate members (some ⟨some h.objects.length, none⟩)

/-- `if (m_ref) m_ref->Release();` -/
def release (h : Heap) (ref : Option Nat) : Option Heap :=
  let calls := (ref.map Call.release).toList
  returns (h.weight calls) h calls

/-- `m_ref = ref; if (m_ref) m_ref->AddRef();` -/
def retain (h : Heap) (k : Nat) (ref : Option Nat) : Option Heap := do
  let c ← h.container k
  let h := h.put k (some { c with ref })
  match ref with
  | none => some h
  | some x => h.addRef x

/-- `fwRefContainer(T* ref)`, of a container that is no member. -/
def construct (h : Heap) (ref : Option Nat) : Option Heap :=
  let h' : Heap := { h with containers := h.containers ++ [some ⟨none, none⟩] }
  h'.retain h.containers.length ref

end Heap

inductive Op where
  | create (members : Nat)
  | construct (ref : Option Nat)
  | copy (other : Nat)
  | assignRef (this : Nat) (ref : Option Nat)
  | assign (this other : Nat)
  | destroy (this : Nat)
  deriving DecidableEq

/-- `none` is the use of a container or of an object that has been destroyed. -/
def step (h : Heap) : Op → Option Heap
  | .create members => some (h.create members)
  | .construct ref => h.construct ref
  | .copy other => do
    let rc ← h.container other
    h.construct rc.ref
  | .assignRef this ref => do
    let c ← h.container this
    let h ← h.release c.ref
    h.retain this ref
  | .assign this other => do
    let c ← h.container this
    let h ← h.release c.ref
    let rc ← h.container other
    h.retain this rc.ref
  | .destroy this => do
    let c ← h.container this
    (h.put this none).release c.ref

namespace Heap

variable (h : Heap)

@[simp] theorem getRefCount_put (k x : Nat) (c : Option Container) : (h.put k c).getRefCount x = h.getRefCount x := rfl

@[simp] theorem container_setRefCount (x n k : Nat) : (h.setRefCount x n).container k = h.container k := rfl

@[simp] theorem container_free (x k : Nat) : (h.free x).container k = h.container k := rfl

@[simp] theorem references_setRefCount (x n y : Nat) : (h.setRefCount x n).references y = h.references y := rfl

@[simp] theorem references_free (x y : Nat) : (h.free x).references y = h.references y := rfl

@[simp] theorem lastMember_setRefCount (x n y : Nat) : (h.setRefCount x n).lastMember y = h.lastMember y := rfl

variable {h}

theorem getRefCount_setRefCount {x n : Nat} (hx : h.getRefCount x = some n) (m y : Nat) :
    (h.setRefCount x m).getRefCount y = if y = x then some m else h.getRefCount y := by
  unfold getRefCount setRefCount at *
  rw [List.getD_eq_getElem?_getD] at hx ⊢
  have hlt : x < h.objects.length := by
    by_contra hge
    rw [List.getElem?_eq_none (Nat.le_of_not_lt hge)] at hx
    cases hx
  rw [List.getElem?_set, List.getD_eq_getElem?_getD]
  by_cases hxy : y = x
  · simp [hxy, hlt]
  · simp [hxy, Ne.symm hxy]

theorem getRefCount_free (x y : Nat) : (h.free x).getRefCount y = if y = x then none else h.getRefCount y := by
  unfold getRefCount free
  rw [List.getD_eq_getElem?_getD, List.getElem?_set, List.getD_eq_getElem?_getD]
  by_cases hxy : y = x
  · by_cases hlt : x < h.objects.length
    · simp [hxy, hlt]
    · simp [hxy, hlt]
  · simp [hxy, Ne.symm hxy]

theorem lt_of_container {k : Nat} {c : Container} (hk : h.container k = some c) : k < h.containers.length := by
  by_contra hge
  rw [container, List.getD_eq_getElem?_getD, List.getElem?_eq_none (Nat.le_of_not_lt hge)] at hk
  cases hk

theorem container_put {k : Nat} {c : Container} (hk : h.container k = some c) (c' : Option Container) (j : Nat) :
    (h.put k c').container j = if j = k then c' else h.container j := by
  have hlt := lt_of_container hk
  unfold container put
  rw [List.getD_eq_getElem?_getD, List.getElem?_set, List.getD_eq_getElem?_getD]
  by_cases hjk : j = k
  · simp [hjk, hlt]
  · simp [hjk, Ne.symm hjk]

/-- A container that is overwritten stops pointing to one object and points to another. -/
theorem references_put {k : Nat} {c : Container} (hk : h.container k = some c) (c' : Option Container) (x : Nat) :
    (h.put k c').references x + (if c.ref = some x then 1 else 0) =
      h.references x + if c'.bind Container.ref = some x then 1 else 0 := by
  have hlt := lt_of_container hk
  have hget : h.containers[k] = some c := by
    rw [container, List.getD_eq_getElem?_getD, List.getElem?_eq_getElem hlt] at hk
    exact hk
  unfold references put
  rw [List.countP_set hlt, hget]
  simp only [Option.bind_some, decide_eq_true_eq]
  split
  · have hpos : 0 < h.containers.countP fun c => decide (c.bind Container.ref = some x) := by
      rw [List.countP_pos_iff]
      exact ⟨some c, hget ▸ List.getElem_mem hlt, by simpa⟩
    omega
  · omega

theorem references_put_none {k : Nat} {c : Container} (hk : h.container k = some c) (x : Nat) :
    (h.put k none).references x + (if c.ref = some x then 1 else 0) = h.references x := by
  simpa using references_put hk none x

theorem references_pos_iff {x : Nat} : 0 < h.references x ↔ ∃ k c, h.container k = some c ∧ c.ref = some x := by
  unfold references
  rw [List.countP_pos_iff]
  constructor
  · rintro ⟨c, hmem, hc⟩
    obtain ⟨k, hk, rfl⟩ := List.getElem_of_mem hmem
    obtain ⟨c, hsome, href⟩ := Option.bind_eq_some_iff.mp (of_decide_eq_true hc)
    exact ⟨k, c, by rw [container, List.getD_eq_getElem?_getD, List.getElem?_eq_getElem hk]; exact hsome, href⟩
  · rintro ⟨k, c, hk, href⟩
    have hlt := lt_of_container hk
    rw [container, List.getD_eq_getElem?_getD, List.getElem?_eq_getElem hlt] at hk
    exact ⟨h.containers[k], List.getElem_mem hlt, by rw [show h.containers[k] = some c from hk]; simpa⟩

theorem lastMember_spec {x k : Nat} (hlast : h.lastMember x = some k) : ∃ c, h.container k = some c ∧
    c.owner = some x := by
  have hfound : decide ((h.container k).bind Container.owner = some x) = true := by
    have hfind := List.find?_some hlast
    exact hfind
  obtain ⟨c, hc, howner⟩ := Option.bind_eq_some_iff.mp (of_decide_eq_true hfound)
  exact ⟨c, hc, howner⟩

/-- Which member is destroyed next depends on the owners alone. -/
theorem lastMember_put {k : Nat} {c c' : Container} (hk : h.container k = some c)
    (howner : c'.owner = c.owner) (x : Nat) :
    (h.put k (some c')).lastMember x = h.lastMember x := by
  unfold lastMember
  have hlen : (h.put k (some c')).containers.length = h.containers.length := List.length_set
  rw [hlen]
  congr 1
  funext j
  rw [container_put hk]
  split
  next hjk =>
    subst hjk
    rw [hk, Option.bind_some, Option.bind_some, howner]
  next => rfl

theorem countP_isSome_set {α : Type} {l : List (Option α)} {k : Nat} {a : α} (hk : l.getD k none = some a)
    (b : Option α) :
    (l.set k b).countP Option.isSome + 1 = l.countP Option.isSome + if b.isSome then 1 else 0 := by
  have hlt : k < l.length := by
    by_contra hge
    rw [List.getD_eq_getElem?_getD, List.getElem?_eq_none (Nat.le_of_not_lt hge)] at hk
    cases hk
  rw [List.getD_eq_getElem?_getD, List.getElem?_eq_getElem hlt] at hk
  have hget : l[k] = some a := hk
  have hpos : 0 < l.countP Option.isSome := by
    rw [List.countP_pos_iff]
    exact ⟨some a, hget ▸ List.getElem_mem hlt, rfl⟩
  rw [List.countP_set hlt, hget]
  simp only [Option.isSome_some, if_true]
  omega

theorem weight_cons_pos (h : Heap) (call : Call) (calls : List Call) : 0 < h.weight (call :: calls) := by
  unfold weight
  rw [List.map_cons, List.sum_cons]
  cases call with
  | release x =>
    rw [callWeight]
    omega
  | delete x =>
    rw [callWeight]
    omega

/-- Every call makes fewer calls possible. -/
theorem weight_advance {h' : Heap} {call : Call} {calls inner : List Call} (hadv : h.advance call = some (h', inner)) :
    h'.weight (inner ++ calls) < h.weight (call :: calls) := by
  cases call with
  | release x =>
    obtain ⟨n, hn, hnext⟩ := Option.map_eq_some_iff.mp hadv
    obtain ⟨rfl, rfl⟩ := Prod.mk.inj hnext
    have hobjects := countP_isSome_set hn (some ((n + (2 ^ 32 - 1)) % 2 ^ 32))
    unfold weight setRefCount
    rw [List.map_append, List.sum_append, List.map_cons, List.sum_cons]
    simp only [Option.isSome_some, if_true, callWeight] at hobjects ⊢
    split
    · simp only [List.map_cons, List.map_nil, List.sum_cons, List.sum_nil, callWeight]
      omega
    · simp only [List.map_nil, List.sum_nil]
      omega
  | delete x =>
    obtain ⟨n, hn, hnext⟩ := Option.map_eq_some_iff.mp hadv
    cases hlast : h.lastMember x with
    | none =>
      rw [hlast] at hnext
      obtain ⟨rfl, rfl⟩ := Prod.mk.inj hnext
      have hobjects := countP_isSome_set hn none
      unfold weight free
      rw [List.nil_append, List.map_cons, List.sum_cons]
      simp only [Option.isSome_none, if_false, Bool.false_eq_true, callWeight] at hobjects ⊢
      omega
    | some k =>
      rw [hlast] at hnext
      obtain ⟨rfl, rfl⟩ := Prod.mk.inj hnext
      obtain ⟨c, hc, -⟩ := lastMember_spec hlast
      have hcontainers := countP_isSome_set hc none
      unfold weight put
      rw [hc, List.append_assoc, List.map_append, List.sum_append, List.map_append, List.sum_append, List.map_cons,
        List.sum_cons, List.map_cons, List.sum_cons, List.map_nil, List.sum_nil, Option.bind_some]
      simp only [Option.isSome_none, if_false, Bool.false_eq_true, callWeight] at hcontainers ⊢
      cases c.ref with
      | none =>
        simp only [Option.map_none, Option.toList_none, List.map_nil, List.sum_nil]
        omega
      | some y =>
        simp only [Option.map_some, Option.toList_some, List.map_cons, List.map_nil, List.sum_cons,
          List.sum_nil, callWeight]
        omega

/-- With enough fuel its amount does not matter. -/
theorem returns_fuel {fuel fuel' : Nat} {calls : List Call} (hfuel : h.weight calls ≤ fuel)
    (hfuel' : h.weight calls ≤ fuel') :
    returns fuel h calls = returns fuel' h calls := by
  induction fuel generalizing h calls fuel' with
  | zero =>
    cases calls with
    | nil => rw [returns, returns]
    | cons call calls =>
      have hpos := weight_cons_pos h call calls
      omega
  | succ fuel ih =>
    cases calls with
    | nil => rw [returns, returns]
    | cons call calls =>
      cases fuel' with
      | zero =>
        have hpos := weight_cons_pos h call calls
        omega
      | succ fuel' =>
        rw [returns, returns]
        cases hadv : h.advance call with
        | none => rfl
        | some next =>
          have hlt := @weight_advance h next.1 call calls next.2 hadv
          exact ih (by omega) (by omega)

end Heap

end fwRefContainer
