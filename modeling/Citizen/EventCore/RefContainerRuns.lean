import Citizen.EventCore.RefContainerSound

open Transition

namespace fwRefContainer

open Heap

/-- Counts are of the containers, and no container points to an object that has been destroyed. -/
structure Exact (h : Heap) : Prop where
  count_eq : ∀ x n, h.getRefCount x = some n → n = h.references x
  small : ∀ x n, h.getRefCount x = some n → n < 2 ^ 32
  targets : ∀ x, 0 < h.references x → ∃ n, h.getRefCount x = some n

/-- What a step destroys: the objects that containers pointed to, and no longer do. -/
def DestroysUnreferenced (h h' : Heap) : Prop :=
  ∀ x n, h.getRefCount x = some n → (h'.getRefCount x = none ↔ 0 < h.references x ∧ h'.references x = 0)

/-- The objects that are destroyed when the container `this` is made to point elsewhere: all other containers that
point to them are members of such objects. -/
inductive Doomed (h : Heap) (this : Nat) : Nat → Prop
  | intro {x : Nat} (hpointed : 0 < h.references x)
      (hmember : ∀ k c, h.container k = some c → c.ref = some x → k ≠ this → c.owner ≠ none)
      (howner : ∀ k c z, h.container k = some c → c.ref = some x → k ≠ this → c.owner = some z → Doomed h this z) :
      Doomed h this x

/-- Assignment to `this` leaves the container itself, and the object that it is then to point to. -/
structure Outlives (h : Heap) (this : Nat) (c : Container) (ref : Option Nat) : Prop where
  owner : ∀ z, c.owner = some z → ¬ Doomed h this z
  target : ∀ x, ref = some x → ¬ Doomed h this x
  room : ∀ x, ref = some x → (h.put this (some { c with ref })).references x < 2 ^ 32

/-- Operations on containers and objects that exist, and assignments that do not destroy what they go on to use. -/
def Allowed (h : Heap) : Op → Prop
  | .create _ => True
  | .construct ref => ∀ x, ref = some x → h.getRefCount x ≠ none ∧ h.references x + 1 < 2 ^ 32
  | .copy other => ∃ rc, h.container other = some rc ∧ ∀ x, rc.ref = some x → h.references x + 1 < 2 ^ 32
  | .assignRef this ref =>
    ∃ c, h.container this = some c ∧ (∀ x, ref = some x → h.getRefCount x ≠ none) ∧ Outlives h this c ref
  | .assign this other => ∃ c rc, h.container this = some c ∧ h.container other = some rc ∧ Outlives h this c rc.ref ∧
      ∀ z, rc.owner = some z → ¬ Doomed h this z
  | .destroy this => ∃ c, h.container this = some c ∧ c.owner = none

variable {h h' h₁ : Heap} {this : Nat} {c : Container}

theorem count_map_release (ref : Option Nat) (x : Nat) :
    (ref.map Call.release).toList.count (.release x) = if ref = some x then 1 else 0 := by
  cases ref with
  | none => rfl
  | some z => simp [List.count_singleton]

theorem delete_not_mem (ref : Option Nat) (x : Nat) : Call.delete x ∉ (ref.map Call.release).toList := by
  cases ref <;> simp

theorem Doomed.closed (hexact : Exact h) (hthis : h.container this = some c) (c' : Option Container) :
    Closed (Doomed h this) (h.put this c') := by
  intro x m hm hpos hall
  have hmember : ∀ k c, h.container k = some c → c.ref = some x → k ≠ this → ∃ z, c.owner = some z ∧
    Doomed h this z := by
    intro k ck hk href hne
    exact hall k ck (by rw [container_put hthis, if_neg hne, hk]) href
  refine .intro ?_ (fun k ck hk href hne => ?_) (fun k ck z hk href hne hz => ?_)
  · rw [← hexact.count_eq x m hm]
    exact hpos
  · obtain ⟨z, hz, -⟩ := hmember k ck hk href hne
    simp [hz]
  · obtain ⟨z', hz', hdoomed⟩ := hmember k ck hk href hne
    obtain rfl := Option.some.inj (hz.symm.trans hz')
    exact hdoomed

/-- Where a container no longer points to its object, the release of that object begins. -/
theorem Exact.releasing (hexact : Exact h) (hthis : h.container this = some c) {c' : Option Container}
    (hnull : c'.bind Container.ref = none) :
    Releasing (Doomed h this) (h.put this c') (h.put this c') (c.ref.map Call.release).toList := by
  have hsum : ∀ x, (h.put this c').references x + (c.ref.map Call.release).toList.count (.release x) =
    h.references x := by
    intro x
    have hrefs := references_put hthis c' x
    rw [hnull] at hrefs
    rw [count_map_release, hrefs]
    simp
  refine ⟨fun x n hx => ?_, hexact.small, fun x hx => ?_, fun x => ?_, fun x hx => ?_, fun k ck hk => hk,
    fun k ck hk hnone => ?_, fun x => le_rfl, fun x n hx => ⟨n, hx, ?_⟩, fun x m hm hnone => ?_⟩
  · rw [hsum]
    exact hexact.count_eq x n hx
  · rw [hsum] at hx
    exact hexact.targets x hx
  · rw [List.count_eq_zero.mpr (delete_not_mem c.ref x)]
    exact Nat.zero_le 1
  · exact absurd hx (delete_not_mem c.ref x)
  · rw [hk] at hnone
    cases hnone
  · simp
  · rw [hm] at hnone
    cases hnone

theorem Releasing.exact {D : Nat → Prop} (hinv : Releasing D h h₁ []) : Exact h₁ :=
  ⟨hinv.count_eq, hinv.small, hinv.targets⟩

/-- At the end of a release, the objects without references are the ones that have gone. -/
theorem Releasing.destroys {D : Nat → Prop} {h₀ : Heap} (hinv : Releasing D h₀ h₁ []) (hexact : Exact h)
    (hcount : ∀ x, h₀.getRefCount x = h.getRefCount x) (hexact' : Exact h')
    (hsame : ∀ x, h'.getRefCount x = none ↔ h₁.getRefCount x = none) (hmore : ∀ x, h₁.references x ≤ h'.references x) :
    DestroysUnreferenced h h' := by
  intro x n hx
  have hn := hexact.count_eq x n hx
  constructor
  · intro hnone
    obtain ⟨hpos, -⟩ := hinv.freed x n ((hcount x).trans hx) ((hsame x).mp hnone)
    refine ⟨by omega, ?_⟩
    by_contra hreferenced
    obtain ⟨m, hm⟩ := hexact'.targets x (by omega)
    rw [hnone] at hm
    cases hm
  · rintro ⟨hpos, hzero⟩
    rw [hsame]
    by_contra hlives
    obtain ⟨m, hm⟩ := Option.ne_none_iff_exists'.mp hlives
    obtain ⟨n', hn', hiff⟩ := hinv.kept x m hm
    rw [hcount, hx] at hn'
    obtain rfl := Option.some.inj hn'
    have hlast : 0 < m := by simpa using hiff.mpr (by omega)
    have hm' := hinv.count_eq x m hm
    have hle := hmore x
    rw [List.count_nil] at hm'
    omega

/-- A container that points nowhere is given an object. -/
theorem Exact.retain (hexact : Exact h) (hthis : h.container this = some c) (hnull : c.ref = none) {ref : Option Nat}
    (href : ∀ x, ref = some x → ∃ n, h.getRefCount x = some n ∧ n + 1 < 2 ^ 32) :
    ∃ h', h.retain this ref = some h' ∧ Exact h' ∧ (∀ x, h'.getRefCount x = none ↔ h.getRefCount x = none) ∧
      ∀ x, h.references x ≤ h'.references x := by
  have hrefs : ∀ x, (h.put this (some { c with ref })).references x = h.references x + if ref = some x
    then 1 else 0 := by
    intro x
    have hput := references_put hthis (some { c with ref }) x
    rw [hnull] at hput
    simpa using hput
  cases ref with
  | none =>
    have hsame : ∀ x, (h.put this (some { c with ref := none })).references x = h.references x := by
      intro x
      simpa using hrefs x
    refine ⟨h.put this (some { c with ref := none }), by rw [Heap.retain, hthis]; rfl, ⟨fun x n hx => ?_, hexact.small,
      fun x hx => ?_⟩, fun x => Iff.rfl, fun x => (hsame x).ge⟩
    · rw [hsame]
      exact hexact.count_eq x n hx
    · rw [hsame] at hx
      exact hexact.targets x hx
  | some z =>
    obtain ⟨n, hn, hroom⟩ := href z rfl
    have hget := getRefCount_setRefCount (h := h.put this (some { c with ref := some z })) hn (n + 1)
    have hn' := hexact.count_eq z n hn
    refine ⟨(h.put this (some { c with ref := some z })).setRefCount z (n + 1), ?_,
      ⟨fun x m hx => ?_, fun x m hx => ?_, fun x hx => ?_⟩, fun x => ?_, fun x => ?_⟩
    · rw [Heap.retain, hthis]
      change (h.put this (some { c with ref := some z })).addRef z = _
      rw [addRef, getRefCount_put, hn, Option.map_some, Nat.mod_eq_of_lt hroom]
    · rw [references_setRefCount, hrefs]
      rw [hget] at hx
      split at hx
      next hxz =>
        subst hxz
        obtain rfl := Option.some.inj hx
        rw [if_pos rfl, hn']
      next hxz =>
        rw [if_neg (by simpa using Ne.symm hxz)]
        exact hexact.count_eq x m hx
    · rw [hget] at hx
      split at hx
      · obtain rfl := Option.some.inj hx
        exact hroom
      · exact hexact.small x m hx
    · rw [references_setRefCount, hrefs] at hx
      rw [hget]
      split
      · exact ⟨_, rfl⟩
      next hxz =>
        rw [if_neg (by simpa using Ne.symm hxz)] at hx
        exact hexact.targets x hx
    · rw [hget]
      split
      next hxz =>
        subst hxz
        simp [hn]
      next => exact Iff.rfl
    · rw [references_setRefCount, hrefs]
      exact Nat.le_add_right _ _

theorem retain_put (hthis : h.container this = some c) (r ref : Option Nat) :
    (h.put this (some { c with ref := r })).retain this ref = h.retain this ref := by
  have hget : (h.put this (some { c with ref := r })).container this = some { c with ref := r } := by
    rw [container_put hthis, if_pos rfl]
  have hput : (h.put this (some { c with ref := r })).put this (some { c with ref }) =
    h.put this (some { c with ref }) := by
    unfold put
    rw [List.set_set]
  rw [Heap.retain, hget, Heap.retain, hthis]
  simp only [Option.bind_eq_bind, Option.bind_some, hput]

/-- An overwritten container that is given its old value back. -/
theorem put_back (hthis : h.container this = some c) (c' : Option Container) :
    (h.put this c').put this (some c) = h := by
  have hlt := lt_of_container hthis
  have hget : h.containers[this] = some c := by
    rw [container, List.getD_eq_getElem?_getD, List.getElem?_eq_getElem hlt] at hthis
    exact hthis
  unfold put
  rw [List.set_set, ← hget, List.set_getElem_self]

theorem weight_put (hthis : h.container this = some c) (c' : Container) (calls : List Call) :
    (h.put this (some c')).weight calls = h.weight calls := by
  have hcount := countP_isSome_set hthis (some c')
  simp only [Option.isSome_some, if_true] at hcount
  unfold weight put
  dsimp only
  omega

/-- A release for an assignment: it ends, and what is needed afterwards is still there. -/
theorem Exact.release (hexact : Exact h) (hthis : h.container this = some c)
    (howner : ∀ z, c.owner = some z → ¬ Doomed h this z) :
    ∃ h₁, h.release c.ref = some (h₁.put this (some c)) ∧ h₁.container this = some { c with ref := none } ∧
      Releasing (Doomed h this) (h.put this (some { c with ref := none })) h₁ [] := by
  have hstart := @Exact.releasing h this c hexact hthis (some { c with ref := none }) rfl
  have hclosed := Doomed.closed hexact hthis (some { c with ref := none })
  have hnulled : (h.put this (some { c with ref := none })).container this = some { c with ref := none } := by
    rw [container_put hthis, if_pos rfl]
  obtain ⟨h₁, hreturns, hend⟩ := hstart.returns hclosed (weight_put hthis { c with ref := none } _).le
  obtain ⟨hreturned, hstays⟩ := hstart.returns_put hclosed hnulled howner c.ref hreturns
  have hback := put_back hthis (some { c with ref := none })
  exact ⟨h₁, by rw [Heap.release, ← hreturned]; exact congrArg (fun h => Heap.returns _ h _) hback.symm, hstays, hend⟩

theorem container_of_release (hthis : h.container this = some c)
    (hstays : h₁.container this = some { c with ref := none })
    (hend : Releasing (Doomed h this) (h.put this (some { c with ref := none })) h₁ []) {k : Nat} {rc : Container}
    (hk : h.container k = some rc) (howner : ∀ z, rc.owner = some z → ¬ Doomed h this z) :
    (h₁.put this (some c)).container k = some rc := by
  rw [container_put hstays]
  split
  next hkt => rw [← hk, hkt, hthis]
  next hkt =>
    have hk₀ : (h.put this (some { c with ref := none })).container k = some rc := by
      rw [container_put hthis, if_neg hkt, hk]
    cases hnow : h₁.container k with
    | none =>
      obtain ⟨z, hz, hdoomed⟩ := hend.gone k rc hk₀ hnow
      exact absurd hdoomed (howner z hz)
    | some rc' => exact (hend.same k rc' hnow).symm.trans hk₀

theorem Exact.assign (hexact : Exact h) (hthis : h.container this = some c) {ref : Option Nat}
    (hlives : ∀ x, ref = some x → h.getRefCount x ≠ none) (houtlives : Outlives h this c ref)
    (hstays : h₁.container this = some { c with ref := none })
    (hend : Releasing (Doomed h this) (h.put this (some { c with ref := none })) h₁ []) :
    ∃ h', (h₁.put this (some c)).retain this ref = some h' ∧ Exact h' ∧ DestroysUnreferenced h h' := by
  have href : ∀ x, ref = some x → ∃ n, h₁.getRefCount x = some n ∧ n + 1 < 2 ^ 32 := by
    intro x hx
    obtain ⟨m, hm⟩ := Option.ne_none_iff_exists'.mp (hlives x hx)
    cases hn : h₁.getRefCount x with
    | none =>
      obtain ⟨-, hdoomed⟩ := hend.freed x m hm hn
      exact absurd hdoomed (houtlives.target x hx)
    | some n =>
      have hcount := hend.count_eq x n hn
      have hfewer := hend.fewer x
      have hroom := houtlives.room x hx
      have hnulled := references_put hthis (some { c with ref := none }) x
      have hput := references_put hthis (some { c with ref }) x
      simp only [Option.bind_some, hx, if_true, reduceCtorEq, if_false, List.count_nil] at *
      exact ⟨n, rfl, by omega⟩
  obtain ⟨h', hretain, hexact', hsame, hmore⟩ := hend.exact.retain hstays rfl href
  refine ⟨h', ?_, hexact', hend.destroys hexact (fun _ => rfl) hexact' hsame hmore⟩
  rw [← hretain]
  exact retain_put hstays c.ref ref

/-- A step that destroys nothing and takes no reference away. -/
theorem destroys_of_more (hsame : ∀ x, h.getRefCount x ≠ none → h'.getRefCount x ≠ none)
    (hmore : ∀ x, h.references x ≤ h'.references x) : DestroysUnreferenced h h' := by
  intro x n hx
  constructor
  · intro hnone
    exact absurd hnone (hsame x (by simp [hx]))
  · rintro ⟨hpos, hzero⟩
    have hle := hmore x
    omega

/-- A new container points nowhere at first. -/
theorem Exact.construct (hexact : Exact h) {ref : Option Nat}
    (href : ∀ x, ref = some x → h.getRefCount x ≠ none ∧ h.references x + 1 < 2 ^ 32) :
    ∃ h', h.construct ref = some h' ∧ Exact h' ∧ DestroysUnreferenced h h' := by
  have hrefs : ∀ x, ({ h with containers := h.containers ++ [some ⟨none, none⟩] } : Heap).references x =
    h.references x := by
    intro x
    unfold references
    rw [List.countP_append]
    rfl
  have hexact' : Exact { h with containers := h.containers ++ [some ⟨none, none⟩] } :=
    ⟨fun x n hx => (hexact.count_eq x n hx).trans (hrefs x).symm, hexact.small,
      fun x hx => hexact.targets x (hrefs x ▸ hx)⟩
  have hnew : ({ h with containers := h.containers ++ [some ⟨none, none⟩] } : Heap).container h.containers.length =
      some ⟨none, none⟩ := by
    rw [container, List.getD_eq_getElem?_getD]
    simp
  obtain ⟨h', hretain, hdone, hsame, hmore⟩ := @Exact.retain _ _ _ hexact' hnew rfl ref fun x hx => by
    obtain ⟨hlives, hroom⟩ := href x hx
    obtain ⟨n, hn⟩ := Option.ne_none_iff_exists'.mp hlives
    have hcount := hexact.count_eq x n hn
    exact ⟨n, hn, by omega⟩
  exact ⟨h', hretain, hdone, destroys_of_more (fun x hx hnone => hx ((hsame x).mp hnone))
    fun x => (hrefs x).symm.trans_le (hmore x)⟩

theorem Exact.create (hexact : Exact h) (members : Nat) :
    Exact (h.create members) ∧ DestroysUnreferenced h (h.create members) := by
  have hrefs : ∀ x, (h.create members).references x = h.references x := by
    intro x
    unfold references Heap.create
    rw [List.countP_append, List.countP_replicate]
    simp
  have hget : ∀ x, (h.create members).getRefCount x = if x = h.objects.length then some 0 else h.getRefCount x := by
    intro x
    unfold getRefCount Heap.create
    rw [List.getD_eq_getElem?_getD, List.getD_eq_getElem?_getD, List.getElem?_append]
    split
    next hlt => rw [if_neg (Nat.ne_of_lt hlt)]
    next hge =>
      split
      next heq => simp [heq]
      next hne =>
        rw [List.getElem?_eq_none (by simp; omega), List.getElem?_eq_none (by omega)]
  have hfresh : h.getRefCount h.objects.length = none := by
    unfold getRefCount
    simp
  have hkept : ∀ x, h.getRefCount x ≠ none → (h.create members).getRefCount x = h.getRefCount x := by
    intro x hx
    rw [hget, if_neg]
    rintro rfl
    exact hx hfresh
  refine ⟨⟨fun x n hx => ?_, fun x n hx => ?_, fun x hx => ?_⟩,
    destroys_of_more (fun x hx => by rw [hkept x hx]; exact hx) fun x => (hrefs x).ge⟩
  · rw [hrefs]
    rw [hget] at hx
    split at hx
    next hnew =>
      obtain rfl := Option.some.inj hx
      by_contra hpos
      obtain ⟨n, hn⟩ := hexact.targets x (by omega)
      rw [hnew, hfresh] at hn
      cases hn
    next => exact hexact.count_eq x n hx
  · rw [hget] at hx
    split at hx
    · obtain rfl := Option.some.inj hx
      decide
    · exact hexact.small x n hx
  · rw [hrefs] at hx
    obtain ⟨n, hn⟩ := hexact.targets x hx
    exact ⟨n, by rw [hkept x (by simp [hn]), hn]⟩

/-- Every allowed step is taken, keeps the counts exact, and destroys what it should. -/
theorem Exact.step (hexact : Exact h) {op : Op} (hallowed : Allowed h op) :
    ∃ h', step h op = some h' ∧ Exact h' ∧ DestroysUnreferenced h h' := by
  cases op with
  | create members => exact ⟨_, rfl, hexact.create members⟩
  | construct ref => exact hexact.construct hallowed
  | copy other =>
    obtain ⟨rc, hother, hroom⟩ := hallowed
    obtain ⟨h', hconstruct, hdone⟩ := @Exact.construct _ hexact rc.ref fun x hx => by
      obtain ⟨n, hn⟩ := hexact.targets x (references_pos_iff.mpr ⟨other, rc, hother, hx⟩)
      exact ⟨by simp [hn], hroom x hx⟩
    exact ⟨h', by rw [fwRefContainer.step, hother]; exact hconstruct, hdone⟩
  | assignRef this ref =>
    obtain ⟨c, hthis, hlives, houtlives⟩ := hallowed
    obtain ⟨h₁, hrelease, hstays, hend⟩ := hexact.release hthis houtlives.owner
    obtain ⟨h', hretain, hdone⟩ := hexact.assign hthis hlives houtlives hstays hend
    refine ⟨h', ?_, hdone⟩
    rw [fwRefContainer.step, hthis, Option.bind_eq_bind, Option.bind_some, hrelease]
    exact hretain
  | assign this other =>
    obtain ⟨c, rc, hthis, hother, houtlives, howner⟩ := hallowed
    have hlives : ∀ x, rc.ref = some x → h.getRefCount x ≠ none := by
      intro x hx
      obtain ⟨n, hn⟩ := hexact.targets x (references_pos_iff.mpr ⟨other, rc, hother, hx⟩)
      simp [hn]
    obtain ⟨h₁, hrelease, hstays, hend⟩ := hexact.release hthis houtlives.owner
    obtain ⟨h', hretain, hdone⟩ := hexact.assign hthis hlives houtlives hstays hend
    have hread := container_of_release hthis hstays hend hother howner
    refine ⟨h', ?_, hdone⟩
    rw [fwRefContainer.step, hthis, Option.bind_eq_bind, Option.bind_some, hrelease, Option.bind_eq_bind,
      Option.bind_some, hread]
    exact hretain
  | destroy this =>
    obtain ⟨c, hthis, -⟩ := hallowed
    have hstart := @Exact.releasing h this c hexact hthis none rfl
    obtain ⟨h', hreturns, hend⟩ := hstart.returns (Doomed.closed hexact hthis none) le_rfl
    refine ⟨h', by rw [fwRefContainer.step, hthis]; exact hreturns, hend.exact,
      hend.destroys hexact (fun _ => rfl) hend.exact (fun _ => Iff.rfl) fun _ => le_rfl⟩

def start : Heap := ⟨[], []⟩

/-- What is right about a sequence of operations: none of them uses what has been destroyed, and counts and
destructions are exact throughout. -/
def RunExact : Heap → List Op → Prop
  | h, [] => Exact h
  | h, op :: ops => Exact h ∧ ∃ h', step h op = some h' ∧ DestroysUnreferenced h h' ∧ RunExact h' ops

def AllAllowed : Heap → List Op → Prop
  | _, [] => True
  | h, op :: ops => Allowed h op ∧ ∀ h', step h op = some h' → AllAllowed h' ops

theorem Exact.run (hexact : Exact h) {ops : List Op} (hallowed : AllAllowed h ops) : RunExact h ops := by
  induction ops generalizing h with
  | nil => exact hexact
  | cons op ops ih =>
    obtain ⟨hop, hrest⟩ := hallowed
    obtain ⟨h', hstep, hexact', hdestroys⟩ := hexact.step hop
    exact ⟨hexact, h', hstep, hdestroys, ih hexact' (hrest h' hstep)⟩

theorem start_exact : Exact start := by
  refine ⟨fun x n hx => ?_, fun x n hx => ?_, fun x hx => absurd hx (by simp [references, start])⟩
  · simp [getRefCount, start] at hx
  · simp [getRefCount, start] at hx

/-- Counts are exact over every run in which no assignment destroys what it goes on to use. The operations may build
any graph of objects and members, cycles among them. -/
theorem runExact_of_allowed (ops : List Op) (hallowed : AllAllowed start ops) : RunExact start ops :=
  start_exact.run hallowed

/-- Another container, that is no member, keeps an object. -/
theorem not_doomed_of_local {k x : Nat} (hk : h.container k = some c) (href : c.ref = some x) (hne : k ≠ this)
    (hlocal : c.owner = none) : ¬ Doomed h this x := by
  rintro ⟨-, hmember, -⟩
  exact hmember k c hk href hne hlocal

theorem not_doomed_of_fresh {x : Nat} (hfresh : h.references x = 0) : ¬ Doomed h this x := by
  rintro ⟨hpointed, -, -⟩
  omega

/-- An object that holds another one is given up for the one that it holds, by way of a copy. -/
theorem runExact_copied : RunExact start
    [.create 1, .construct (some 0), .create 0, .assignRef 0 (some 1), .copy 0, .assign 1 2, .destroy 2] := by
  refine runExact_of_allowed _ ⟨trivial, fun h₁ hstep₁ => ?_⟩
  obtain rfl : h₁ = ⟨[some 0], [some ⟨some 0, none⟩]⟩ := Option.some.inj (hstep₁.symm.trans (by decide))
  refine ⟨fun x hx => ?_, fun h₂ hstep₂ => ?_⟩
  · obtain rfl := Option.some.inj hx
    decide
  obtain rfl : h₂ = ⟨[some 1], [some ⟨some 0, none⟩, some ⟨none, some 0⟩]⟩ :=
    Option.some.inj (hstep₂.symm.trans (by decide))
  refine ⟨trivial, fun h₃ hstep₃ => ?_⟩
  obtain rfl : h₃ = ⟨[some 1, some 0], [some ⟨some 0, none⟩, some ⟨none, some 0⟩]⟩ :=
    Option.some.inj (hstep₃.symm.trans (by decide))
  refine ⟨⟨⟨some 0, none⟩, rfl, fun x hx => ?_, fun z hz => ?_, fun x hx => ?_, fun x hx => ?_⟩, fun h₄ hstep₄ => ?_⟩
  · obtain rfl := Option.some.inj hx
    decide
  · obtain rfl := Option.some.inj hz
    exact not_doomed_of_local (k := 1) rfl rfl (by decide) rfl
  · obtain rfl := Option.some.inj hx
    exact not_doomed_of_fresh (by decide)
  · obtain rfl := Option.some.inj hx
    decide
  obtain rfl : h₄ = ⟨[some 1, some 1], [some ⟨some 0, some 1⟩, some ⟨none, some 0⟩]⟩ :=
    Option.some.inj (hstep₄.symm.trans (by decide))
  refine ⟨⟨⟨some 0, some 1⟩, rfl, fun x hx => ?_⟩, fun h₅ hstep₅ => ?_⟩
  · obtain rfl := Option.some.inj hx
    decide
  obtain rfl : h₅ = ⟨[some 1, some 2], [some ⟨some 0, some 1⟩, some ⟨none, some 0⟩, some ⟨none, some 1⟩]⟩ :=
    Option.some.inj (hstep₅.symm.trans (by decide))
  refine ⟨⟨⟨none, some 0⟩, ⟨none, some 1⟩, rfl, rfl, ⟨fun z hz => ?_, fun x hx => ?_, fun x hx => ?_⟩, fun z hz => ?_⟩,
    fun h₆ hstep₆ => ?_⟩
  · cases hz
  · obtain rfl := Option.some.inj hx
    exact not_doomed_of_local (k := 2) rfl rfl (by decide) rfl
  · obtain rfl := Option.some.inj hx
    decide
  · cases hz
  obtain rfl : h₆ = ⟨[none, some 2], [none, some ⟨none, some 1⟩, some ⟨none, some 1⟩]⟩ :=
    Option.some.inj (hstep₆.symm.trans (by decide))
  exact ⟨⟨⟨none, some 1⟩, rfl, rfl⟩, fun _ _ => trivial⟩

/-- Without the copy, `c = c->next` reads a member of the object that it has just destroyed. -/
theorem not_runExact_next : ¬ RunExact start
    [.create 1, .construct (some 0), .create 0, .assignRef 0 (some 1), .assign 1 0] := by
  rintro ⟨-, h₁, hstep₁, -, -, h₂, hstep₂, -, -, h₃, hstep₃, -, -, h₄, hstep₄, -, -, h₅, hstep₅, -⟩
  obtain rfl : h₁ = ⟨[some 0], [some ⟨some 0, none⟩]⟩ := Option.some.inj (hstep₁.symm.trans (by decide))
  obtain rfl : h₂ = ⟨[some 1], [some ⟨some 0, none⟩, some ⟨none, some 0⟩]⟩ :=
    Option.some.inj (hstep₂.symm.trans (by decide))
  obtain rfl : h₃ = ⟨[some 1, some 0], [some ⟨some 0, none⟩, some ⟨none, some 0⟩]⟩ :=
    Option.some.inj (hstep₃.symm.trans (by decide))
  obtain rfl : h₄ = ⟨[some 1, some 1], [some ⟨some 0, some 1⟩, some ⟨none, some 0⟩]⟩ :=
    Option.some.inj (hstep₄.symm.trans (by decide))
  have hnone : step ⟨[some 1, some 1], [some ⟨some 0, some 1⟩, some ⟨none, some 0⟩]⟩ (.assign 1 0) = none := by decide
  rw [hnone] at hstep₅
  cases hstep₅

end fwRefContainer
