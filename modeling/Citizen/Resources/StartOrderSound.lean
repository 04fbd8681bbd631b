import Citizen.Resources.StartOrder

open Bits Transition Relation

namespace fx.StartOrder.Manager

variable {m m' : Manager} {res other : ResourcePtr}

@[simp]
theorem update_self (f : Resource → Resource) : (m.update res f).resource res = f (m.resource res) :=
  Function.update_self _ _ _

theorem update_other (f : Resource → Resource) (h : other ≠ res) :
    (m.update res f).resource other = m.resource other :=
  Function.update_of_ne h _ _

/-- The manager has the resource under its name. -/
def Listed (m : Manager) (res : ResourcePtr) : Prop := m.resources res.name = some res

/-- A resource that an identifier may stand for. -/
def MayBe (m : Manager) (identifier : Name) (other : ResourcePtr) : Prop :=
  m.resources identifier = some other ∨ (identifier, other) ∈ m.provides

/-- What is found is the resource of that name, or one that provides it. -/
theorem mayBe_of_getResource {identifier : Name} (h : m.getResource identifier = some other) :
    m.MayBe identifier other := by
  unfold getResource at h
  split at h
  · split at h
    · rename_i entry hfind
      have hfound := List.find?_some hfind
      rw [decide_eq_true_eq] at hfound
      have hkey : entry.1 = identifier := hfound.1
      rw [← Option.some.inj h, ← hkey]
      exact .inr (List.mem_of_find?_eq_some hfind)
    · exact .inl h
  · exact .inl h

/-- A resource that runs is found under its name. -/
theorem getResource_of_running {identifier : Name} (hlisted : m.resources identifier = some res)
    (hstate : m.state res ≠ .stopped) : m.getResource identifier = some res := by
  rw [getResource, hlisted, if_neg (by simp [hstate])]

/-- What holds of the resources during a call. -/
structure Inv (m : Manager) : Prop where
  nodup : m.startOrder.Nodup
  exact : ∀ res, res ∈ m.startOrder ↔ m.state res = .started ∧ (m.resource res).serverOnly = false
  ordered : m.startOrder.Pairwise fun before after => after ∉ (m.resource before).loaded
  /-- The dependencies of a resource that is started are started, and the resource is among their dependants. -/
  loaded : ∀ res, m.state res = .started → ∀ other ∈ (m.resource res).loaded,
    m.state other = .started ∧ (other.name, res.name) ∈ m.resourceDependants ∧ other ≠ res
  /-- The manager has the resources that run, and those that provide something. -/
  listed : ∀ res, m.state res = .starting ∨ m.state res = .started → m.Listed res
  provided : ∀ entry ∈ m.provides, m.Listed entry.2
  /-- What the manager has under a name is of that name, and loaded. -/
  named : ∀ identifier res, m.resources identifier = some res → res.name = identifier ∧ m.state res ≠ .uninitialized

theorem Inv.listed_of_mayBe (h : m.Inv) {identifier : Name} (hmayBe : m.MayBe identifier other) : m.Listed other := by
  rcases hmayBe with hlisted | hprovided
  · rw [Listed, (h.named identifier other hlisted).1, hlisted]
  · exact h.provided (identifier, other) hprovided

/-- A listed resource that is not stopped runs. -/
theorem Inv.running (h : m.Inv) (hlisted : m.Listed res) (hstate : m.state res ≠ .stopped) :
    m.state res = .starting ∨ m.state res = .started := by
  have hloaded := (h.named res.name res hlisted).2
  cases hcase : m.state res with
  | uninitialized => exact absurd hcase hloaded
  | stopped => exact absurd hcase hstate
  | starting => exact .inl rfl
  | started => exact .inr rfl

theorem listed_inj (h : m.Listed res) (h' : m.Listed other) (hname : res.name = other.name) : res = other := by
  rw [Listed, hname, h'] at h
  exact (Option.some.inj h).symm

/-- What the invariant says is what the clients are to see. -/
theorem Inv.right (h : m.Inv) : m.Right := by
  have hlisted : ∀ res ∈ m.startOrder, m.Listed res := fun res hmem => h.listed res (.inr ((h.exact res).mp hmem).1)
  refine ⟨?_, h.exact, fun res hname other hother hmem => ?_⟩
  · exact h.nodup.map_on fun first hfirst second hsecond =>
      listed_inj (hlisted first hfirst) (hlisted second hsecond)
  have hne : other ≠ res := (h.loaded res ((h.exact res).mp hname).1 other hother).2.2
  rcases Nat.lt_trichotomy (m.startOrder.idxOf other) (m.startOrder.idxOf res) with hlt | heq | hgt
  · exact hlt
  · exact absurd ((List.idxOf_inj hmem).mp heq) hne
  · have hafter := List.pairwise_iff_getElem.mp h.ordered _ _ (List.idxOf_lt_length_of_mem hname)
      (List.idxOf_lt_length_of_mem hmem) hgt
    rw [List.getElem_idxOf, List.getElem_idxOf] at hafter
    exact absurd hother hafter

/-- A change that concerns a resource that is not started before and after. -/
theorem Inv.change (h : m.Inv) (hresources : m'.resources = m.resources) (hprovides : m'.provides = m.provides)
    (horder : m'.startOrder = m.startOrder) (hothers : ∀ other, other ≠ res → m'.resource other = m.resource other)
    (hbefore : m.state res ≠ .started) (hafter : m'.state res ≠ .started) (hready : m'.state res ≠ .uninitialized)
    (hlisted : m.Listed res) (hdependants : m.resourceDependants ⊆ m'.resourceDependants) : m'.Inv := by
  have hstate : ∀ other, other ≠ res → m'.state other = m.state other :=
    fun other hne => congrArg Resource.state (hothers other hne)
  have hstarted : ∀ other, m'.state other = .started → other ≠ res := by
    rintro other hother rfl
    exact hafter hother
  have hstarted' : ∀ other, m.state other = .started → other ≠ res := by
    rintro other hother rfl
    exact hbefore hother
  refine ⟨horder ▸ h.nodup, fun other => ?_, ?_, fun other hother dependency hmem => ?_, fun other hother => ?_, ?_,
    fun identifier other hother => ?_⟩
  · rw [horder, h.exact]
    by_cases hne : other = res
    · subst hne
      exact ⟨fun hold => absurd hold.1 hbefore, fun hnew => absurd hnew.1 hafter⟩
    · rw [hstate other hne, hothers other hne]
  · rw [horder]
    refine h.ordered.imp_of_mem fun {before after} hmem _ hnot => ?_
    rwa [hothers before (hstarted' before ((h.exact before).mp hmem).1)]
  · have hne := hstarted other hother
    rw [hstate other hne] at hother
    rw [hothers other hne] at hmem
    obtain ⟨hrunning, hrecorded, hself⟩ := h.loaded other hother dependency hmem
    exact ⟨(hstate dependency (hstarted' dependency hrunning)).trans hrunning, hdependants hrecorded, hself⟩
  · rw [Listed, hresources]
    by_cases hne : other = res
    · rwa [hne]
    · exact h.listed other (by rwa [← hstate other hne])
  · intro entry hmem
    rw [Listed, hresources]
    exact h.provided entry (hprovides ▸ hmem)
  · rw [hresources] at hother
    obtain ⟨hname, hloaded⟩ := h.named identifier other hother
    refine ⟨hname, ?_⟩
    by_cases hne : other = res
    · rwa [hne]
    · rwa [hstate other hne]

/-- A resource that is not started may load another one. -/
def Edge (m : Manager) (res other : ResourcePtr) : Prop := m.state res ≠ .started ∧
  ∃ identifier ∈ (m.metaData res).dependency ++ (m.metaData res).dependencie, m.MayBe identifier other

/-- A resource is being started, and this goes on with the start of another one. -/
def Chain (m : Manager) : ResourcePtr → ResourcePtr → Prop :=
  TransGen fun res other => m.state res = .starting ∧ m.Edge res other

/-- A start of a resource changes it and stopped ones. -/
structure Extends (res : ResourcePtr) (m m' : Manager) : Prop where
  resources : m'.resources = m.resources
  provides : m'.provides = m.provides
  metaData : ∀ other, m'.metaData other = m.metaData other
  keep : ∀ other, other ≠ res → m.state other ≠ .stopped → m'.resource other = m.resource other
  settled : ∀ other, other ≠ res → m.state other = .stopped → m'.state other ≠ .starting
  dependants : m.resourceDependants ⊆ m'.resourceDependants

theorem Extends.refl (res : ResourcePtr) (m : Manager) : Extends res m m :=
  ⟨rfl, rfl, fun _ => rfl, fun _ _ _ => rfl, fun other _ hstopped => by rw [hstopped]; decide, fun _ h => h⟩

theorem Extends.state (h : Extends res m m') (hother : other ≠ res) (hstate : m.state other ≠ .stopped) :
    m'.state other = m.state other := congrArg Resource.state (h.keep other hother hstate)

/-- A resource that is being started after a step was so before it. -/
theorem Extends.starting (h : Extends res m m') (hother : other ≠ res) (hstate : m'.state other = .starting) :
    m.state other = .starting := by
  by_cases hstopped : m.state other = .stopped
  · exact absurd hstate (h.settled other hother hstopped)
  · rwa [h.state hother hstopped] at hstate

theorem Extends.trans {m'' : Manager} (h : Extends res m m') (h' : Extends res m' m'') : Extends res m m'' := by
  refine ⟨h'.resources.trans h.resources, h'.provides.trans h.provides,
    fun other => (h'.metaData other).trans (h.metaData other), fun other hne hstate => ?_,
      fun other hne hstopped hstarting => ?_, fun _ hmem => h'.dependants (h.dependants hmem)⟩
  · rw [h'.keep other hne (by rwa [h.state hne hstate]), h.keep other hne hstate]
  · exact h.settled other hne hstopped (h'.starting hne hstarting)

/-- Another resource is started, from stopped. -/
theorem Extends.nested {m'' : Manager} (h : Extends res m m') (h' : Extends other m' m'')
    (hstopped : m'.state other = .stopped) (hsettled : m''.state other ≠ .starting) : Extends res m m'' := by
  refine ⟨h'.resources.trans h.resources, h'.provides.trans h.provides,
    fun third => (h'.metaData third).trans (h.metaData third), fun third hne hstate => ?_,
      fun third hne hold hstarting => ?_, fun _ hmem => h'.dependants (h.dependants hmem)⟩
  · have hstate' : m'.state third ≠ .stopped := by rwa [h.state hne hstate]
    have hthird : third ≠ other := by
      rintro rfl
      exact hstate' hstopped
    rw [h'.keep third hthird hstate', h.keep third hne hstate]
  · have hthird : third ≠ other := by
      rintro rfl
      exact hsettled hstarting
    exact h.settled third hne hold (h'.starting hthird hstarting)

theorem Extends.edge (h : Extends res m m') (hstate : m.state res ≠ .started) {first second : ResourcePtr}
    (hedge : m'.Edge first second) : m.Edge first second := by
  obtain ⟨hnot, identifier, hidentifier, hmayBe⟩ := hedge
  rw [h.metaData] at hidentifier
  refine ⟨fun hstarted => hnot ?_, identifier, hidentifier, by rwa [MayBe, ← h.resources, ← h.provides]⟩
  have hfirst : first ≠ res := by
    rintro rfl
    exact hstate hstarted
  rw [h.state hfirst (by rw [hstarted]; decide), hstarted]

/-- Nothing gets between a resource that is being started and another one, as long as none of the chain stops. -/
theorem Extends.chain (h : Extends res m m') (hstate : m.state res = .starting → m'.state res = .starting)
    {first second : ResourcePtr} (hchain : m.Chain first second) : m'.Chain first second := by
  refine TransGen.mono (fun third fourth hlink => ?_) _ _ hchain
  obtain ⟨hstarting, -, identifier, hidentifier, hmayBe⟩ := hlink
  have hstarting' : m'.state third = .starting := by
    by_cases hthird : third = res
    · exact hthird ▸ hstate (hthird ▸ hstarting)
    · rw [h.state hthird (by rw [hstarting]; decide), hstarting]
  refine ⟨hstarting', by rw [hstarting']; decide, identifier, ?_, ?_⟩
  · rwa [h.metaData]
  · rwa [MayBe, h.resources, h.provides]

theorem Chain.edges {first second : ResourcePtr} (h : m.Chain first second) : TransGen m.Edge first second :=
  TransGen.mono (fun _ _ hlink => hlink.2) _ _ h

/-- A resource can be started: none that this may start depends on itself, or has a deferred dependant that is not
started. -/
structure Startable (m : Manager) (res : ResourcePtr) : Prop where
  acyclic : ∀ other, ReflTransGen m.Edge res other → ¬ TransGen m.Edge other other
  prompt : ∀ other, ReflTransGen m.Edge res other → m.state other ≠ .started →
    ∀ dependant, (other.name, dependant) ∈ m.resourceDependencies →
      ∃ waiting, m.resources dependant = some waiting ∧ m.state waiting = .started

/-- What a resource that is being started has loaded. -/
def Loading (m : Manager) (res : ResourcePtr) : Prop := ∀ other ∈ (m.resource res).loaded,
  m.state other = .started ∧ (other.name, res.name) ∈ m.resourceDependants ∧ other ≠ res

/-- The specification of `Start`. -/
def StartSpec (start : Manager → ResourcePtr → Option (Manager × Bool)) : Prop :=
  ∀ {m res m' success}, start m res = some (m', success) → m.Inv → m.Listed res → m.state res = .stopped →
    m.Startable res → (∀ other, m.state other = .starting → m.Chain other res) →
    m'.Inv ∧ Extends res m m' ∧ m'.state res ≠ .starting ∧
      (success = true → m'.state res = .started ∧ m'.resourceDependencies ⊆ m.resourceDependencies)

/-- A resource that is being started and what it leads to can be started later in the call. -/
theorem Startable.later (h : m.Startable res) (hstate : m.state res ≠ .started) (hextends : Extends res m m')
    (hdependencies : m'.resourceDependencies ⊆ m.resourceDependencies) (hreach : ReflTransGen m.Edge res other) :
    m'.Startable other := by
  have hstarted' : ∀ third, m.state third = .started → m'.state third = .started := by
    intro third hthird
    have hne : third ≠ res := by
      rintro rfl
      exact hstate hthird
    rw [hextends.state hne (by rw [hthird]; decide), hthird]
  have hreach' : ∀ third, ReflTransGen m'.Edge other third → ReflTransGen m.Edge res third := fun third hthird =>
    hreach.trans (ReflTransGen.mono (fun _ _ hedge => hextends.edge hstate hedge) _ _ hthird)
  refine ⟨fun third hthird hcycle => ?_, fun third hthird hnot dependant hmem => ?_⟩
  · exact h.acyclic third (hreach' third hthird)
      (TransGen.mono (fun _ _ hedge => hextends.edge hstate hedge) _ _ hcycle)
  · obtain ⟨waiting, hwaiting, hstarted⟩ := h.prompt third (hreach' third hthird)
      (fun hold => hnot (hstarted' third hold)) dependant (hdependencies hmem)
    exact ⟨waiting, by rw [hextends.resources, hwaiting], hstarted' waiting hstarted⟩

theorem record_other (m : Manager) (other : ResourcePtr) {third : ResourcePtr} (hthird : third ≠ res) :
    (m.record res other).resource third = m.resource third :=
  Function.update_of_ne hthird _ m.resource

theorem record_self (m : Manager) (res other : ResourcePtr) : (m.record res other).resource res =
    { m.resource res with loaded := (m.resource res).loaded ++ [other] } :=
  Function.update_self res _ m.resource

theorem record_state (m : Manager) (res other third : ResourcePtr) :
    (m.record res other).state third = m.state third := by
  by_cases hthird : third = res
  · rw [hthird, state, record_self, state]
  · rw [state, record_other m other hthird, state]

theorem extends_record (m : Manager) (res other : ResourcePtr) : Extends res m (m.record res other) := by
  refine ⟨rfl, rfl, fun third => ?_, fun third hthird _ => record_other m other hthird, fun third _ hstopped => ?_,
    fun _ hmem => List.mem_append_left _ hmem⟩
  · by_cases hthird : third = res
    · rw [hthird, metaData, record_self, metaData]
    · rw [metaData, record_other m other hthird, metaData]
  · rw [record_state, hstopped]
    decide

theorem Inv.record (h : m.Inv) (hstate : m.state res = .starting) (other : ResourcePtr) :
    (m.record res other).Inv := by
  refine h.change rfl rfl rfl (fun third hthird => record_other m other hthird) (by rw [hstate]; decide)
    (by rw [record_state, hstate]; decide) (by rw [record_state, hstate]; decide) (h.listed res (.inl hstate))
    fun _ hmem => List.mem_append_left _ hmem

/-- A resource whose dependencies are being loaded. -/
structure Working (m : Manager) (res : ResourcePtr) : Prop where
  inv : m.Inv
  state : m.state res = .starting
  startable : m.Startable res
  ancestors : ∀ other, m.state other = .starting → other ≠ res → m.Chain other res
  loading : m.Loading res

theorem Working.later (h : m.Working res) (hextends : Extends res m m') (hinv : m'.Inv)
    (hstate : m'.state res = .starting) (hdependencies : m'.resourceDependencies ⊆ m.resourceDependencies)
    (hloading : m'.Loading res) : m'.Working res := by
  refine ⟨hinv, hstate, h.startable.later (by rw [h.state]; decide) hextends hdependencies .refl,
    fun other hother hne => ?_, hloading⟩
  exact hextends.chain (fun _ => hstate) (h.ancestors other (hextends.starting hne hother) hne)

/-- What a resource loads is another one that is not being started. -/
theorem Working.edge (h : m.Working res) (hedge : m.Edge res other) : other ≠ res ∧ m.state other ≠ .starting := by
  have hself : other ≠ res := by
    rintro rfl
    exact h.startable.acyclic other .refl (.single hedge)
  refine ⟨hself, fun hstarting => ?_⟩
  exact h.startable.acyclic other (.single hedge) ((h.ancestors other hstarting hself).edges.tail hedge)

/-- A dependency that is started is noted down. -/
theorem Working.record (h : m.Working res) (hstarted : m.state other = .started) (hother : other ≠ res) :
    (m.record res other).Working res := by
  refine h.later (extends_record m res other) (h.inv.record h.state other) (by rw [record_state]; exact h.state)
    (fun _ hmem => hmem) ?_
  intro third hthird
  rw [record_self, List.mem_append, List.mem_singleton] at hthird
  rw [record_state]
  rcases hthird with hold | rfl
  · obtain ⟨hrunning, hrecorded, hself⟩ := h.loading third hold
    exact ⟨hrunning, List.mem_append_left _ hrecorded, hself⟩
  · exact ⟨hstarted, List.mem_append_right _ List.mem_cons_self, hother⟩

/-- A dependency that is stopped is noted down and started. -/
theorem Working.nested {start : Manager → ResourcePtr → Option (Manager × Bool)} (hstart : StartSpec start)
    (h : m.Working res) (hedge : m.Edge res other) (hlisted : m.Listed other) (hstopped : m.state other = .stopped)
    {success : Bool}
    (htake : start (m.record res other) other = some (m', success)) :
    m'.Inv ∧ Extends res m m' ∧ m'.state res = .starting ∧
      (success = true → m'.Working res ∧ m'.resourceDependencies ⊆ m.resourceDependencies) := by
  obtain ⟨hother, -⟩ := h.edge hedge
  have hrecord := extends_record m res other
  have hstate : (m.record res other).state res = .starting := by rw [record_state]; exact h.state
  have hstopped' : (m.record res other).state other = .stopped := by rwa [record_state]
  have hancestors : ∀ third, (m.record res other).state third = .starting →
    (m.record res other).Chain third other := by
    intro third hthird
    refine hrecord.chain (fun _ => hstate) ?_
    rw [record_state] at hthird
    by_cases hname : third = res
    · rw [hname]
      exact .single ⟨h.state, hedge⟩
    · exact (h.ancestors third hthird hname).tail ⟨h.state, hedge⟩
  obtain ⟨hinv, hextends, hsettled, hsuccess⟩ := hstart htake (h.inv.record h.state other) hlisted hstopped'
    (h.startable.later (by rw [h.state]; decide) hrecord (fun _ hmem => hmem) (.single hedge)) hancestors
  have hname : m'.resource res = (m.record res other).resource res :=
    hextends.keep res (Ne.symm hother) (by rw [hstate]; decide)
  have hstate' : m'.state res = .starting := (congrArg Resource.state hname).trans hstate
  have hextends' := hrecord.nested hextends hstopped' hsettled
  refine ⟨hinv, hextends', hstate', fun hok => ?_⟩
  obtain ⟨hstarted, hdependencies⟩ := hsuccess hok
  refine ⟨h.later hextends' hinv hstate' hdependencies fun third hthird => ?_, hdependencies⟩
  rw [hname, record_self, List.mem_append, List.mem_singleton] at hthird
  rcases hthird with hold | rfl
  · obtain ⟨hrunning, hrecorded, hself⟩ := h.loading third hold
    have hthird : third ≠ other := by
      rintro rfl
      rw [hstopped] at hrunning
      cases hrunning
    have hrunning' : (m.record res other).state third = .started := by rwa [record_state]
    refine ⟨(hextends.state hthird (by rw [hrunning']; decide)).trans hrunning', ?_, hself⟩
    exact hextends.dependants (List.mem_append_left _ hrecorded)
  · exact ⟨hstarted, hextends.dependants (List.mem_append_right _ List.mem_cons_self), hother⟩

/-- The dependency loader starts the dependencies, or lets the start of the resource fail. -/
theorem loadDeps_spec {answers : Answers} {start : Manager → ResourcePtr → Option (Manager × Bool)}
    (hstart : StartSpec start) {entries : List Name} {success ok : Bool}
    (h : loadDeps answers start res m success entries = some (m', ok))
    (hworking : m.Working res)
    (hentries : ∀ identifier ∈ entries, identifier ∈ (m.metaData res).dependency ++ (m.metaData res).dependencie) :
    m'.Inv ∧ Extends res m m' ∧ m'.state res = .starting ∧
      (ok = true → m'.Working res ∧ m'.resourceDependencies ⊆ m.resourceDependencies) := by
  induction entries generalizing m success with
  | nil =>
    cases h
    exact ⟨hworking.inv, .refl _ _, hworking.state, fun _ => ⟨hworking, fun _ hmem => hmem⟩⟩
  | cons identifier entries ih =>
    obtain ⟨hidentifier, hentries⟩ := List.forall_mem_cons.mp hentries
    unfold loadDeps at h
    split at h
    · exact ih h hworking hentries
    · exact ih h hworking hentries
    · split at h
      · cases h
        exact ⟨hworking.inv, .refl _ _, hworking.state, fun hok => by cases hok⟩
      · rename_i other hother
        have hedge : m.Edge res other :=
          ⟨by rw [hworking.state]; decide, identifier, hidentifier, mayBe_of_getResource hother⟩
        have hlisted : m.Listed other := hworking.inv.listed_of_mayBe (mayBe_of_getResource hother)
        obtain ⟨hself, hstarting⟩ := hworking.edge hedge
        split_ifs at h with hrunning
        · have hstarted : m.state other = .started := hrunning.resolve_left hstarting
          have hrecord := extends_record m res other
          obtain ⟨hinv, hextends, hstate, hok⟩ := ih h (hworking.record hstarted hself) (by rwa [hrecord.metaData])
          exact ⟨hinv, hrecord.trans hextends, hstate, hok⟩
        · have hstopped : m.state other = .stopped := by
            by_contra hnot
            exact hrunning (hworking.inv.running hlisted hnot)
          split at h
          · cases h
          · rename_i m₁ htake
            obtain ⟨-, hextends₁, -, hsuccess⟩ := hworking.nested hstart hedge hlisted hstopped htake
            obtain ⟨hworking₁, hdependencies₁⟩ := hsuccess rfl
            obtain ⟨hinv, hextends, hstate, hok⟩ := ih h hworking₁ (by rwa [hextends₁.metaData])
            refine ⟨hinv, hextends₁.trans hextends, hstate, fun hsuccess => ?_⟩
            exact ⟨(hok hsuccess).1, fun _ hmem => hdependencies₁ ((hok hsuccess).2 hmem)⟩
          · rename_i m₁ htake
            obtain ⟨hinv, hextends, hstate, -⟩ := hworking.nested hstart hedge hlisted hstopped htake
            cases h
            have hstate' : m₁.state res ≠ .started := by
              rw [hstate]
              decide
            refine ⟨hinv.change rfl rfl rfl (fun _ _ => rfl) hstate' hstate' ?_ ?_ fun _ hmem => hmem, ?_, hstate,
              fun hok => by cases hok⟩
            · show m₁.state res ≠ .uninitialized
              rw [hstate]
              decide
            · exact hinv.listed res (.inl hstate)
            · exact ⟨hextends.resources, hextends.provides, hextends.metaData, hextends.keep, hextends.settled,
                hextends.dependants⟩

/-- A resource after its handlers of `OnStart`. -/
def finish (m : Manager) (res : ResourcePtr) : Manager := (m.append res).setState res .started

theorem finish_other (m : Manager) (hother : other ≠ res) : (m.finish res).resource other = m.resource other :=
  (Function.update_of_ne hother _ _).trans (Function.update_of_ne hother _ m.resource)

theorem finish_self (m : Manager) (res : ResourcePtr) : (m.finish res).resource res =
    { m.resource res with serverOnly := (m.metaData res).serverOnly, state := .started } := by
  rw [finish, setState, update_self, append]
  exact congrArg (fun resource : Resource => { resource with state := ResourceState.started })
    (Function.update_self res _ m.resource)

theorem finish_startOrder (m : Manager) (res : ResourcePtr) : (m.finish res).startOrder =
    if (m.metaData res).serverOnly then m.startOrder else m.startOrder ++ [res] := rfl

/-- A resource whose dependencies are loaded goes to the end of the start order. -/
theorem Working.finish (h : m.Working res) : (m.finish res).Inv := by
  have hnotStarted : m.state res ≠ .started := by
    rw [h.state]
    decide
  have hnew : res ∉ m.startOrder := fun hmem => hnotStarted ((h.inv.exact res).mp hmem).1
  have hself : (m.finish res).state res = .started := by rw [Manager.state, finish_self]
  have hstate : ∀ other, other ≠ res → (m.finish res).state other = m.state other := fun other hother =>
    congrArg Resource.state (finish_other m hother)
  have hloading : ∀ other, m.state other = .started → (m.finish res).state other = .started := by
    intro other hother
    rwa [hstate other (by rintro rfl; exact hnotStarted hother)]
  have hloaded : ((m.finish res).resource res).loaded = (m.resource res).loaded := by rw [finish_self]
  have holdOrdered : m.startOrder.Pairwise fun before after => after ∉ ((m.finish res).resource before).loaded := by
    refine h.inv.ordered.imp_of_mem fun {before after} hmem _ hnot => ?_
    rwa [finish_other m (by rintro rfl; exact hnew hmem)]
  refine ⟨?_, fun other => ?_, ?_, fun other hother dependency hmem => ?_, fun other hother => ?_, h.inv.provided,
    fun identifier other hother => ?_⟩
  · rw [finish_startOrder]
    split_ifs
    · exact h.inv.nodup
    · exact List.nodup_append_comm.mp (List.nodup_cons.mpr ⟨hnew, h.inv.nodup⟩)
  · by_cases hother : other = res
    · rw [hother, finish_startOrder, hself, finish_self]
      dsimp only
      split_ifs with hserver
      · simp [hnew, hserver]
      · simp [hserver]
    · rw [hstate other hother, finish_other m hother, ← h.inv.exact, finish_startOrder]
      split_ifs
      · rfl
      · rw [List.mem_append, List.mem_singleton]
        exact or_iff_left hother
  · rw [finish_startOrder]
    split_ifs
    · exact holdOrdered
    · refine List.pairwise_append.mpr ⟨holdOrdered, List.pairwise_singleton _ _, fun before hbefore after hafter => ?_⟩
      rw [List.mem_singleton.mp hafter, finish_other m (by rintro rfl; exact hnew hbefore)]
      intro hmem
      exact hnotStarted (h.inv.loaded before ((h.inv.exact before).mp hbefore).1 res hmem).1
  · by_cases hname : other = res
    · rw [hname, hloaded] at hmem
      obtain ⟨hrunning, hrecorded, hne⟩ := h.loading dependency hmem
      rw [hname]
      exact ⟨hloading dependency hrunning, hrecorded, hne⟩
    · rw [hstate other hname] at hother
      rw [finish_other m hname] at hmem
      obtain ⟨hrunning, hrecorded, hne⟩ := h.inv.loaded other hother dependency hmem
      exact ⟨hloading dependency hrunning, hrecorded, hne⟩
  · by_cases hname : other = res
    · rw [hname]
      exact h.inv.listed res (.inl h.state)
    · exact h.inv.listed other (by rwa [← hstate other hname])
  · obtain ⟨hname, hloaded⟩ := h.inv.named identifier other hother
    refine ⟨hname, ?_⟩
    by_cases hsame : other = res
    · rw [hsame, hself]
      decide
    · rwa [hstate other hsame]

theorem extends_finish (m : Manager) (res : ResourcePtr) : Extends res m (m.finish res) := by
  refine ⟨rfl, rfl, fun other => ?_, fun other hother _ => finish_other m hother, fun other hother hstopped => ?_,
    fun _ hmem => hmem⟩
  · by_cases hother : other = res
    · rw [hother, metaData, finish_self, metaData]
    · rw [metaData, finish_other m hother, metaData]
  · rw [state, finish_other m hother, ← state, hstopped]
    decide

theorem mem_equalRange {pairs : List (Name × Name)} {first second : Name} :
    second ∈ equalRange pairs first ↔ (first, second) ∈ pairs := by
  rw [equalRange, Std.TreeSet.mem_toList, Std.TreeSet.mem_ofList, List.contains_iff_mem, List.mem_map]
  constructor
  · rintro ⟨pair, hpair, rfl⟩
    obtain ⟨hmem, hname⟩ := List.mem_filter.mp hpair
    rwa [← of_decide_eq_true hname]
  · exact fun hmem => ⟨(first, second), List.mem_filter.mpr ⟨hmem, by simp⟩, rfl⟩

/-- The starts of dependants that are started return at once. -/
theorem startAll_started {answers : Answers} {depth : Nat} {dependants : List Name}
    (hstarted : ∀ dependant ∈ dependants, ∃ waiting, m.resources dependant = some waiting ∧ m.state waiting = .started)
    (h : startAll (start answers depth) m dependants = some m') : m' = m := by
  induction dependants with
  | nil =>
    cases h
    rfl
  | cons dependant dependants ih =>
    obtain ⟨⟨waiting, hwaiting, hfirst⟩, hstarted⟩ := List.forall_mem_cons.mp hstarted
    rw [startAll, getResource_of_running hwaiting (by rw [hfirst]; decide)] at h
    obtain ⟨result, htake, hrest⟩ := Option.bind_eq_some_iff.mp h
    cases depth with
    | zero => cases htake
    | succ depth =>
      rw [start, if_pos hfirst] at htake
      cases htake
      exact ih hstarted hrest

/-- The dependants that waited for a resource are forgotten. -/
def forget (m : Manager) (res : ResourcePtr) : Manager :=
  { m with resourceDependencies := erase m.resourceDependencies res.name }

theorem forget_dependencies (m : Manager) (res : ResourcePtr) :
    (m.forget res).resourceDependencies ⊆ m.resourceDependencies :=
  fun _ hmem => (List.mem_filter.mp hmem).1

theorem extends_forget (m : Manager) (res : ResourcePtr) : Extends res m (m.forget res) :=
  ⟨rfl, rfl, fun _ => rfl, fun _ _ _ => rfl, fun other _ hstopped => by
    show m.state other ≠ .starting
    rw [hstopped]
    decide, fun _ hmem => hmem⟩

theorem Working.forget (h : m.Working res) : (m.forget res).Working res := by
  have hinv : (m.forget res).Inv :=
    ⟨h.inv.nodup, h.inv.exact, h.inv.ordered, h.inv.loaded, h.inv.listed, h.inv.provided, h.inv.named⟩
  exact h.later (extends_forget m res) hinv h.state (forget_dependencies m res) h.loading

/-- Where the deferred dependants are started, `OnStart` only forgets them and appends the resource. -/
theorem onStart_of_prompt {answers : Answers} {depth : Nat} (h : m.Working res)
    (htake : onStart m (start answers depth) res = some m') : m' = (m.forget res).append res := by
  obtain ⟨m₁, hall, rfl⟩ := Option.map_eq_some_iff.mp htake
  rw [startAll_started (fun dependant hmem => ?_) hall, forget]
  exact h.startable.prompt res .refl (by rw [h.state]; decide) dependant (mem_equalRange.mp hmem)

theorem update_state_frame (m : Manager) (res : ResourcePtr) {f : Resource → Resource}
    (hf : ∀ resource, (f resource).metaData = resource.metaData) : Extends res m (m.update res f) := by
  refine ⟨rfl, rfl, fun other => ?_, fun other hother _ => update_other f hother, fun other hother hstopped => ?_,
    fun _ hmem => hmem⟩
  · by_cases hother : other = res
    · rw [hother, metaData, update_self, hf, metaData]
    · rw [metaData, update_other f hother, metaData]
  · rw [state, update_other f hother, ← state, hstopped]
    decide

/-- `OnBeforeStart` leaves a resource starting, with its dependencies loaded unless it fails. -/
theorem onBeforeStart_spec {answers : Answers} {start : Manager → ResourcePtr → Option (Manager × Bool)}
    (hstart : StartSpec start) {ok : Bool} (h : onBeforeStart m answers start res = some (m', ok))
    (hworking : m.Working res) :
    m'.Inv ∧ Extends res m m' ∧ m'.state res = .starting ∧
      (ok = true → m'.Working res ∧ m'.resourceDependencies ⊆ m.resourceDependencies) := by
  unfold onBeforeStart at h
  split_ifs at h
  · obtain ⟨⟨m₁, loaded⟩, hload, hresult⟩ := Option.map_eq_some_iff.mp h
    cases hresult
    obtain ⟨hinv, hextends, hstate, hok⟩ := loadDeps_spec hstart hload hworking fun _ hmem => hmem
    exact ⟨hinv, hextends, hstate, fun hboth => hok (Bool.and_eq_true_iff.mp hboth).1⟩
  · cases h
    exact ⟨hworking.inv, .refl _ _, hworking.state, fun hok => by cases hok⟩

/-- What `Start` does, with any room on the stack. -/
theorem start_spec (answers : Answers) (depth : Nat) : StartSpec (start answers depth) := by
  induction depth with
  | zero =>
    intro m res m' success htake
    cases htake
  | succ depth ih =>
    intro m res m' success htake hinv hlisted hstopped hstartable hancestors
    let begun := m.update res fun resource => { resource with state := .starting, loaded := [] }
    have hbegun : Extends res m begun := update_state_frame m res fun _ => rfl
    have hstate : begun.state res = .starting := by rw [state, update_self]
    have hworking : begun.Working res := by
      refine ⟨?_, hstate, ?_, fun other hother hne => ?_, fun other hother => ?_⟩
      · exact hinv.change rfl rfl rfl (fun other hother => update_other _ hother) (by rw [hstopped]; decide)
          (by rw [hstate]; decide) (by rw [hstate]; decide) hlisted fun _ hmem => hmem
      · exact hstartable.later (by rw [hstopped]; decide) hbegun (fun _ hmem => hmem) .refl
      · exact hbegun.chain (fun _ => hstate) (hancestors other (hbegun.starting hne hother))
      · rw [update_self] at hother
        cases hother
    rw [start, if_neg (by rw [hstopped]; decide), if_neg (by rw [hstopped]; decide)] at htake
    cases hbefore : onBeforeStart begun answers (start answers depth) res with
    | none =>
      rw [hbefore] at htake
      cases htake
    | some result =>
      obtain ⟨m₁, ok⟩ := result
      rw [hbefore] at htake
      obtain ⟨hinv₁, hextends₁, hstate₁, hok⟩ := onBeforeStart_spec ih hbefore hworking
      have hlisted₁ : m₁.Listed res := hinv₁.listed res (.inl hstate₁)
      cases ok with
      | false =>
        dsimp only at htake
        rw [if_pos (by rw [hstate₁]; decide)] at htake
        cases htake
        have hstate' : (m₁.setState res .stopped).state res = .stopped := by rw [state, setState, update_self]
        refine ⟨?_, (hbegun.trans hextends₁).trans (update_state_frame m₁ res fun _ => rfl), by rw [hstate']; decide,
          fun hsuccess => by cases hsuccess⟩
        exact hinv₁.change rfl rfl rfl (fun other hother => update_other _ hother) (by rw [hstate₁]; decide)
          (by rw [hstate']; decide) (by rw [hstate']; decide) hlisted₁ fun _ hmem => hmem
      | true =>
        obtain ⟨hworking₁, hdependencies⟩ := hok rfl
        obtain ⟨m₂, hstart, hresult⟩ := Option.map_eq_some_iff.mp htake
        cases hresult
        rw [onStart_of_prompt hworking₁ hstart]
        have hstate' : ((m₁.forget res).finish res).state res = .started := by rw [state, finish_self]
        refine ⟨hworking₁.forget.finish, ?_, ?_,
          fun _ => ⟨hstate', fun _ hmem => hdependencies (forget_dependencies m₁ res hmem)⟩⟩
        · exact (hbegun.trans hextends₁).trans ((extends_forget m₁ res).trans (extends_finish _ res))
        · show ((m₁.forget res).finish res).state res ≠ .starting
          rw [hstate']
          decide

/-- A stop of a resource may stop another one. -/
def Stops (m : Manager) (res other : ResourcePtr) : Prop :=
  ∃ dependant, (res.name, dependant) ∈ m.resourceDependants ∧ m.MayBe dependant other

/-- A resource can be stopped: none that this may stop is in the start order and has become `server_only`. -/
def Stoppable (m : Manager) (res : ResourcePtr) : Prop :=
  ∀ other, ReflTransGen m.Stops res other → other ∈ m.startOrder → (m.metaData other).serverOnly = false

/-- A stop only stops resources. -/
structure Shrinks (m m' : Manager) : Prop where
  resources : m'.resources = m.resources
  provides : m'.provides = m.provides
  metaData : ∀ res, m'.metaData res = m.metaData res
  keep : ∀ res, m'.state res = .stopped ∨ m'.resource res = m.resource res
  dependants : m'.resourceDependants ⊆ m.resourceDependants
  startOrder : m'.startOrder ⊆ m.startOrder

theorem Shrinks.refl (m : Manager) : Shrinks m m :=
    ⟨rfl, rfl, fun _ => rfl, fun _ => .inr rfl, fun _ h => h, fun _ h => h⟩

theorem Shrinks.stopped (h : Shrinks m m') (hstopped : m.state res = .stopped) : m'.state res = .stopped := by
  rcases h.keep res with hnew | hsame
  · exact hnew
  · rwa [state, hsame]

theorem Shrinks.trans {m'' : Manager} (h : Shrinks m m') (h' : Shrinks m' m'') : Shrinks m m'' := by
  refine ⟨h'.resources.trans h.resources, h'.provides.trans h.provides,
    fun res => (h'.metaData res).trans (h.metaData res), fun res => ?_,
      fun _ hmem => h.dependants (h'.dependants hmem), fun _ hmem => h.startOrder (h'.startOrder hmem)⟩
  rcases h.keep res with hstopped | hsame
  · exact .inl (h'.stopped hstopped)
  · rcases h'.keep res with hstopped | hsame'
    · exact .inl hstopped
    · exact .inr (hsame'.trans hsame)

theorem Shrinks.mayBe (h : Shrinks m m') : m'.MayBe = m.MayBe := by
  funext identifier other
  rw [MayBe, MayBe, h.resources, h.provides]

/-- A resource that a stop leads to can be stopped later in the call. -/
theorem Stoppable.later (h : m.Stoppable res) (hshrinks : Shrinks m m') (hreach : m.Stops res other) :
    m'.Stoppable other := by
  have hstops : m'.Stops ≤ m.Stops := by
    rintro first second ⟨dependant, hdependant, hsecond⟩
    exact ⟨dependant, hshrinks.dependants hdependant, by rwa [← hshrinks.mayBe]⟩
  intro third hthird hmem
  rw [hshrinks.metaData]
  exact h third (.head hreach (ReflTransGen.mono hstops _ _ hthird)) (hshrinks.startOrder hmem)

/-- The specification of `Stop`. -/
def StopSpec (stop : Manager → ResourcePtr → Option Manager) : Prop :=
  ∀ {m res m'}, stop m res = some m' → m.Inv → m.Listed res → m.Stoppable res →
    m'.Inv ∧ Shrinks m m' ∧ m'.state res = .stopped

/-- The dependants of a resource are stopped. -/
theorem stopAll_spec {stop : Manager → ResourcePtr → Option Manager} (hstop : StopSpec stop) {first : Manager}
    (hstoppable : first.Stoppable res) {dependants : List Name}
    (hdependants : ∀ dependant ∈ dependants, (res.name, dependant) ∈ first.resourceDependants)
    (h : stopAll stop res m dependants = some m') (hinv : m.Inv) (hshrinks : Shrinks first m) :
    m'.Inv ∧ Shrinks first m' ∧ Shrinks m m' ∧
      ∀ dependant ∈ dependants, dependant ≠ res.name → ∀ other, m.resources dependant = some other →
        m'.state other = .stopped := by
  induction dependants generalizing m with
  | nil =>
    cases h
    exact ⟨hinv, hshrinks, .refl _, fun _ hmem => absurd hmem List.not_mem_nil⟩
  | cons dependant dependants ih =>
    obtain ⟨hfirst, hdependants⟩ := List.forall_mem_cons.mp hdependants
    rw [stopAll] at h
    cases hget : m.getResource dependant with
    | none =>
      rw [hget] at h
      obtain ⟨hinv', hshrinks', hlast, hstopped⟩ := ih hdependants h hinv hshrinks
      refine ⟨hinv', hshrinks', hlast, List.forall_mem_cons.mpr ⟨fun _ other hother => ?_, hstopped⟩⟩
      apply hlast.stopped
      by_contra hrunning
      rw [getResource_of_running hother hrunning] at hget
      cases hget
    | some resource =>
      rw [hget] at h
      dsimp only at h
      split_ifs at h with hself
      · obtain ⟨m₁, htake, hrest⟩ := Option.bind_eq_some_iff.mp h
        have hmayBe : m.MayBe dependant resource := mayBe_of_getResource hget
        have hreach : first.Stops res resource := ⟨dependant, hfirst, hshrinks.mayBe ▸ hmayBe⟩
        obtain ⟨hinv₁, hshrinks₁, hstopped₁⟩ := hstop htake hinv (hinv.listed_of_mayBe hmayBe)
          (hstoppable.later hshrinks hreach)
        obtain ⟨hinv', hshrinks', hlast, hstopped⟩ := ih hdependants hrest hinv₁ (hshrinks.trans hshrinks₁)
        rw [hshrinks₁.resources] at hstopped
        refine ⟨hinv', hshrinks', hshrinks₁.trans hlast, List.forall_mem_cons.mpr ⟨fun _ other hother => ?_, hstopped⟩⟩
        apply hlast.stopped
        by_cases hrunning : m.state other = .stopped
        · exact hshrinks₁.stopped hrunning
        · -- a dependant that runs is the one that is found
          rw [getResource_of_running hother hrunning] at hget
          rwa [Option.some.inj hget]
      · obtain ⟨hinv', hshrinks', hlast, hstopped⟩ := ih hdependants h hinv hshrinks
        refine ⟨hinv', hshrinks', hlast, List.forall_mem_cons.mpr ⟨fun hne other hother => ?_, hstopped⟩⟩
        apply hlast.stopped
        by_contra hrunning
        rw [getResource_of_running hother hrunning] at hget
        rw [← (hinv.named dependant other hother).1, Option.some.inj hget] at hne
        exact hself hne

/-- A resource after its handlers of `OnStop`, when its dependants are stopped. -/
def leave (m : Manager) (res : ResourcePtr) : Manager :=
  (remove { m with resourceDependants := erase m.resourceDependants res.name } res).setState res .stopped

theorem leave_other (m : Manager) (hother : other ≠ res) : (m.leave res).resource other = m.resource other :=
  Function.update_of_ne hother _ m.resource

theorem leave_self (m : Manager) (res : ResourcePtr) : (m.leave res).state res = .stopped := by
  rw [state, leave, setState, update_self]

/-- Of the listed resources in the start order only this one has its name. -/
theorem Inv.leave_startOrder (h : m.Inv) (hlisted : m.Listed res)
    (hserver : res ∈ m.startOrder → (m.metaData res).serverOnly = false) :
    (m.leave res).startOrder = m.startOrder.filter fun other => other ≠ res := by
  show (if (m.metaData res).serverOnly then m.startOrder else m.startOrder.filter fun other =>
    other.name ≠ res.name) = _
  split_ifs with hcase
  · refine (List.filter_eq_self.mpr fun other hmem => decide_eq_true ?_).symm
    rintro rfl
    rw [hserver hmem] at hcase
    cases hcase
  · refine List.filter_congr fun other hmem => decide_eq_decide.mpr (not_congr ⟨?_, congrArg ResourcePtr.name⟩)
    exact listed_inj (h.listed other (.inr ((h.exact other).mp hmem).1)) hlisted

theorem shrinks_leave (m : Manager) (res : ResourcePtr) : Shrinks m (m.leave res) := by
  refine ⟨rfl, rfl, fun other => ?_, fun other => ?_, fun _ hmem => (List.mem_filter.mp hmem).1, ?_⟩
  · by_cases hother : other = res
    · rw [hother, metaData, leave, setState, update_self]
      rfl
    · rw [metaData, leave_other m hother, metaData]
  · by_cases hother : other = res
    · exact .inl (hother ▸ leave_self m res)
    · exact .inr (leave_other m hother)
  · show (if (m.metaData res).serverOnly then m.startOrder else m.startOrder.filter fun other =>
      other.name ≠ res.name) ⊆ _
    split_ifs
    · exact fun _ hmem => hmem
    · exact fun _ hmem => (List.mem_filter.mp hmem).1

/-- A resource whose dependants are stopped leaves the start order. -/
theorem Inv.leave (h : m.Inv) (hlisted : m.Listed res)
    (hserver : res ∈ m.startOrder → (m.metaData res).serverOnly = false)
    (hdependants : ∀ other, m.state other = .started → res ∉ (m.resource other).loaded) : (m.leave res).Inv := by
  have hself := leave_self m res
  have hstate : ∀ other, other ≠ res → (m.leave res).state other = m.state other := fun other hother =>
    congrArg Resource.state (leave_other m hother)
  have hrunning : ∀ other, (m.leave res).state other = .started → other ≠ res := by
    rintro other hother rfl
    rw [hself] at hother
    cases hother
  refine ⟨?_, fun other => ?_, ?_, fun other hother dependency hmem => ?_, fun other hother => ?_, h.provided,
    fun identifier other hother => ?_⟩
  · rw [h.leave_startOrder hlisted hserver]
    exact h.nodup.filter _
  · rw [h.leave_startOrder hlisted hserver, List.mem_filter, decide_eq_true_eq]
    by_cases hother : other = res
    · rw [hother, hself]
      simp
    · rw [hstate other hother, leave_other m hother, h.exact]
      exact and_iff_left hother
  · rw [h.leave_startOrder hlisted hserver]
    refine (h.ordered.filter _).imp_of_mem fun {before after} hmem _ hnot => ?_
    rwa [leave_other m (of_decide_eq_true (List.mem_filter.mp hmem).2)]
  · have hne := hrunning other hother
    rw [hstate other hne] at hother
    rw [leave_other m hne] at hmem
    obtain ⟨hstarted, hrecorded, hdiffers⟩ := h.loaded other hother dependency hmem
    have hdependency : dependency ≠ res := by
      rintro rfl
      exact hdependants other hother hmem
    refine ⟨(hstate dependency hdependency).trans hstarted, ?_, hdiffers⟩
    refine List.mem_filter.mpr ⟨hrecorded, decide_eq_true fun hname => hdependency ?_⟩
    exact listed_inj (h.listed dependency (.inr hstarted)) hlisted hname
  · by_cases hne : other = res
    · rw [hne, hself] at hother
      rcases hother with hother | hother <;> cases hother
    · exact h.listed other (by rwa [← hstate other hne])
  · obtain ⟨hname, hloaded⟩ := h.named identifier other hother
    refine ⟨hname, ?_⟩
    by_cases hne : other = res
    · rw [hne, hself]
      decide
    · rwa [hstate other hne]

/-- What `Stop` does, with any room on the stack. -/
theorem stop_spec (depth : Nat) : StopSpec (stop depth) := by
  induction depth with
  | zero =>
    intro m res m' htake
    cases htake
  | succ depth ih =>
    intro m res m' htake hinv hlisted hstoppable
    rw [stop] at htake
    split_ifs at htake with hstopped
    · cases htake
      exact ⟨hinv, .refl m, hstopped⟩
    · obtain ⟨m₁, hall, rfl⟩ := Option.map_eq_some_iff.mp htake
      obtain ⟨hinv₁, hshrinks₁, -, hdependants⟩ := stopAll_spec ih hstoppable
        (fun dependant hmem => mem_equalRange.mp hmem) hall hinv (.refl m)
      have hlisted₁ : m₁.Listed res := by rwa [Listed, hshrinks₁.resources]
      refine ⟨hinv₁.leave hlisted₁ ?_ ?_, hshrinks₁.trans (shrinks_leave m₁ res), leave_self m₁ res⟩
      · intro hmem
        rw [hshrinks₁.metaData]
        exact hstoppable res .refl (hshrinks₁.startOrder hmem)
      · intro other hstarted hmem
        obtain ⟨-, hrecorded, hne⟩ := hinv₁.loaded other hstarted res hmem
        have hother : m₁.Listed other := hinv₁.listed other (.inr hstarted)
        have hnames : other.name ≠ res.name := fun hname => hne (listed_inj hother hlisted₁ hname).symm
        have hgone := hdependants other.name (mem_equalRange.mpr (hshrinks₁.dependants hrecorded)) hnames other
          (by rwa [← hshrinks₁.resources])
        rw [hstarted] at hgone
        cases hgone

/-- A call that keeps the start order right: a resource is started without deferred dependants and cyclic
dependencies, one is stopped without one in the list that has become `server_only`, or folders are scanned. A
resource whose folder moved is stopped and removed, so it is one that can be stopped, and it provides nothing. -/
def Allowed (m : Manager) : Action → Prop
  | .start _ _ name => ∀ res, m.getResource name = some res → m.state res = .stopped → m.Startable res
  | .stop _ name => ∀ res, m.getResource name = some res → m.Stoppable res
  | .refresh _ folder => ∀ res, m.resources folder.name = some res →
      (m.scanData folder.name).any (· ≠ folder.resPath) = true → m.Stoppable res ∧ ∀ entry ∈ m.provides, entry.2 ≠ res

/-- What holds of the resources between the calls. -/
def Calm (m : Manager) : Prop := m.Inv ∧ ∀ res, m.state res ≠ .starting

theorem Calm.start (h : m.Calm) {answers : Answers} {depth : Nat} {success : Bool} (hlisted : m.Listed res)
    (hstartable : m.state res = .stopped → m.Startable res) (htake : start answers depth m res = some (m', success)) :
    m'.Calm := by
  cases hstate : m.state res with
  | uninitialized => exact absurd hstate (h.1.named res.name res hlisted).2
  | stopped =>
    obtain ⟨hinv, hextends, hsettled, -⟩ := start_spec answers depth htake h.1 hlisted hstate (hstartable hstate)
      fun other hother => absurd hother (h.2 other)
    refine ⟨hinv, fun other hother => ?_⟩
    by_cases hsame : other = res
    · exact hsettled (hsame ▸ hother)
    · exact h.2 other (hextends.starting hsame hother)
  | starting => exact absurd hstate (h.2 res)
  | started =>
    cases depth with
    | zero => cases htake
    | succ depth =>
      rw [Manager.start, if_pos hstate] at htake
      cases htake
      exact h

theorem Calm.stop (h : m.Calm) {depth : Nat} (hlisted : m.Listed res) (hstoppable : m.Stoppable res)
    (htake : stop depth m res = some m') : m'.Calm ∧ Shrinks m m' ∧ m'.state res = .stopped := by
  obtain ⟨hinv, hshrinks, hstopped⟩ := stop_spec depth htake h.1 hlisted hstoppable
  refine ⟨⟨hinv, fun other hother => ?_⟩, hshrinks, hstopped⟩
  rcases hshrinks.keep other with hstopped | hsame
  · rw [hstopped] at hother
    cases hother
  · rw [state, hsame] at hother
    exact h.2 other hother

/-- The metadata of a resource that exists is loaded again. -/
theorem Calm.reload (h : m.Calm) (res : ResourcePtr) (metaData : MetaData) :
    (m.update res fun r => { r with metaData }).Calm := by
  let m' := m.update res fun r => { r with metaData }
  have hstate : ∀ other, m'.state other = m.state other := by
    intro other
    by_cases hother : other = res
    · rw [hother, state, update_self, state]
    · rw [state, update_other _ hother, state]
  have hserver : ∀ other, (m'.resource other).serverOnly = (m.resource other).serverOnly := by
    intro other
    by_cases hother : other = res
    · rw [hother, update_self]
    · rw [update_other _ hother]
  have hloaded : ∀ other, (m'.resource other).loaded = (m.resource other).loaded := by
    intro other
    by_cases hother : other = res
    · rw [hother, update_self]
    · rw [update_other _ hother]
  refine ⟨⟨h.1.nodup, fun other => ?_, ?_, fun other hother dependency hmem => ?_, fun other hother => ?_,
    h.1.provided, fun identifier other hother => ?_⟩, ?_⟩
  · rw [hstate, hserver]
    exact h.1.exact other
  · refine h.1.ordered.imp fun {before after} hnot => ?_
    rwa [hloaded]
  · rw [hstate] at hother ⊢
    rw [hloaded] at hmem
    exact h.1.loaded other hother dependency hmem
  · rw [hstate] at hother
    exact h.1.listed other hother
  · rw [hstate]
    exact h.1.named identifier other hother
  · intro other
    rw [hstate]
    exact h.2 other

/-- A change of a resource that does not run before and after. Others may come to provide something. -/
theorem Calm.idle (h : m.Calm) (hbefore : m.state res ≠ .started)
    (hafter : m'.state res ≠ .started ∧ m'.state res ≠ .starting)
    (hothers : ∀ other, other ≠ res → m'.resource other = m.resource other)
    (hkeep : ∀ other, other ≠ res → m.Listed other → m'.Listed other)
    (hnamed : ∀ identifier other, m'.resources identifier = some other →
      other ≠ res ∧ m.resources identifier = some other ∨ other = res ∧ res.name = identifier ∧
        m'.state res ≠ .uninitialized)
    (hprovided : ∀ entry ∈ m'.provides, m'.Listed entry.2) (horder : m'.startOrder = m.startOrder)
    (hdependants : m'.resourceDependants = m.resourceDependants) : m'.Calm := by
  have hstate : ∀ other, other ≠ res → m'.state other = m.state other := fun other hne =>
    congrArg Resource.state (hothers other hne)
  have hrunning : ∀ other, m.state other = .started → other ≠ res := by
    rintro other hother rfl
    exact hbefore hother
  have hrunning' : ∀ other, m'.state other = .starting ∨ m'.state other = .started → other ≠ res := by
    rintro other hother rfl
    exact hother.elim hafter.2 hafter.1
  refine ⟨⟨horder ▸ h.1.nodup, fun other => ?_, ?_, fun other hother dependency hmem => ?_, fun other hother =>
    ?_, hprovided,
    fun identifier other hother => ?_⟩, fun other hother => ?_⟩
  · rw [horder, h.1.exact]
    by_cases hne : other = res
    · subst hne
      exact ⟨fun hold => absurd hold.1 hbefore, fun hnew => absurd hnew.1 hafter.1⟩
    · rw [hstate other hne, hothers other hne]
  · rw [horder]
    refine h.1.ordered.imp_of_mem fun {before after} hmem _ hnot => ?_
    rwa [hothers before (hrunning before ((h.1.exact before).mp hmem).1)]
  · have hne := hrunning' other (.inr hother)
    rw [hstate other hne] at hother
    rw [hothers other hne] at hmem
    rw [hdependants]
    obtain ⟨hstarted, hrest⟩ := h.1.loaded other hother dependency hmem
    exact ⟨(hstate dependency (hrunning dependency hstarted)).trans hstarted, hrest⟩
  · have hne := hrunning' other hother
    rw [hstate other hne] at hother
    exact hkeep other hne (h.1.listed other hother)
  · rcases hnamed identifier other hother with ⟨hne, hold⟩ | ⟨rfl, hname, hready⟩
    · rw [hstate other hne]
      exact h.1.named identifier other hold
    · exact ⟨hname, hready⟩
  · have hne := hrunning' other (.inl hother)
    rw [hstate other hne] at hother
    exact h.2 other hother

theorem removeResource_resources (m : Manager) (res : ResourcePtr) (identifier : Name) :
    (m.removeResource res).resources identifier = if identifier = res.name then none else m.resources identifier :=
  Function.update_apply m.resources res.name none identifier

theorem removeResource_self (m : Manager) (res : ResourcePtr) : (m.removeResource res).state res = .uninitialized :=
  congrArg Resource.state (update_self (m := m) fun r => { r with state := ResourceState.uninitialized })

theorem removeResource_other (m : Manager) (hother : other ≠ res) :
    (m.removeResource res).resource other = m.resource other :=
  Function.update_of_ne hother _ m.resource

/-- A stopped resource that provides nothing can be removed. -/
theorem Calm.removeResource (h : m.Calm) (hlisted : m.Listed res) (hstopped : m.state res = .stopped)
    (hnone : ∀ entry ∈ m.provides, entry.2 ≠ res) : (m.removeResource res).Calm := by
  have hself := removeResource_self m res
  have hkeep : ∀ other, other ≠ res → m.Listed other → (m.removeResource res).Listed other := by
    intro other hne hother
    rw [Listed, removeResource_resources, if_neg fun hname => hne (listed_inj hother hlisted hname)]
    exact hother
  refine h.idle (by rw [hstopped]; decide) (by rw [hself]; decide) (fun other hne => removeResource_other m hne)
    hkeep (fun identifier other hother => .inl ?_)
    (fun entry hmem => hkeep entry.2 (hnone entry hmem) (h.1.provided entry hmem)) rfl rfl
  rw [removeResource_resources] at hother
  split_ifs at hother with hidentifier
  refine ⟨?_, hother⟩
  rintro rfl
  exact hidentifier (h.1.named identifier other hother).1.symm

/-- A resource that is found where the manager has none of its name is stopped, or it is not loaded. -/
theorem Calm.addResource (h : m.Calm) {folder : Folder} (hnone : m.resources folder.name = none) :
    (m.addResource folder).Calm := by
  let res : ResourcePtr := ⟨folder.name, m.created + 1⟩
  have hunlisted : ∀ other, m.Listed other → other.name ≠ folder.name := by
    intro other hother hname
    rw [Listed, hname, hnone] at hother
    cases hother
  have hbefore : m.state res ≠ .started := fun hstarted => hunlisted res (h.1.listed res (.inr hstarted)) rfl
  cases hloads : folder.loads with
  | false =>
    have hadd : m.addResource folder = { m with
        scanData := Function.update m.scanData folder.name (some folder.resPath)
        created := m.created + 1
        resource := Function.update m.resource res { state := .uninitialized } } := by
      rw [Manager.addResource, if_neg (by rw [hloads]; decide)]
    rw [hadd]
    refine h.idle hbefore (by simp [state]) (fun other hne => Function.update_of_ne hne _ _) (fun _ _ hold => hold)
      (fun identifier other hother => .inl ⟨?_, hother⟩) (fun entry hmem => h.1.provided entry hmem) rfl rfl
    rintro rfl
    have hname := (h.1.named identifier res hother).1
    rw [← hname] at hother
    exact hunlisted res hother rfl
  | true =>
    have hadd : m.addResource folder = { m with
        scanData := Function.update m.scanData folder.name (some folder.resPath)
        created := m.created + 1
        resources := Function.update m.resources folder.name (some res)
        resource := Function.update m.resource res { metaData := folder.metaData }
        provides := m.provides ++ folder.provide.map fun identifier => (identifier, res) } := by
      rw [Manager.addResource, if_pos hloads]
    have hkeep : ∀ other, m.Listed other → (m.addResource folder).Listed other := by
      intro other hother
      rw [hadd]
      exact (Function.update_of_ne (hunlisted other hother) _ _).trans hother
    have hself : (m.addResource folder).Listed res := by
      rw [hadd]
      exact Function.update_self folder.name _ m.resources
    have hstate : (m.addResource folder).state res = .stopped := by
      rw [hadd, state]
      exact congrArg Resource.state (Function.update_self res _ m.resource)
    refine h.idle hbefore (by rw [hstate]; decide) (fun other hne => ?_) (fun other _ hother => hkeep other hother)
      (fun identifier other hother => ?_) (fun entry hmem => ?_) ?_ ?_
    · rw [hadd]
      exact Function.update_of_ne hne _ _
    · rw [hadd] at hother
      by_cases hidentifier : identifier = folder.name
      · subst hidentifier
        have hsame : res = other :=
          Option.some.inj ((Function.update_self folder.name (some res) m.resources).symm.trans hother)
        exact .inr ⟨hsame.symm, rfl, by rw [hstate]; decide⟩
      · have hold : m.resources identifier = some other :=
          (Function.update_of_ne hidentifier _ m.resources).symm.trans hother
        refine .inl ⟨?_, hold⟩
        rintro rfl
        exact hidentifier (h.1.named identifier res hold).1.symm
    · rw [hadd] at hmem
      rcases List.mem_append.mp hmem with hold | hnew
      · exact hkeep entry.2 (h.1.provided entry hold)
      · obtain ⟨identifier, -, rfl⟩ := List.mem_map.mp hnew
        exact hself
    · rw [hadd]
    · rw [hadd]

/-- A scan of a folder changes metadata, or adds a resource that is stopped, after one of that name is stopped and
removed. -/
theorem Calm.scanResource (h : m.Calm) {depth : Nat} {folder : Folder} (hallowed : m.Allowed (.refresh depth folder))
    (htake : m.scanResource depth folder = some m') : m'.Calm := by
  unfold Manager.scanResource at htake
  split at htake
  · rename_i hnone
    cases htake
    exact h.addResource hnone
  · rename_i oldRes hold
    split_ifs at htake with hmoved
    · have hname : oldRes.name = folder.name := (h.1.named _ _ hold).1
      have hlisted : m.Listed oldRes := by rw [Listed, hname, hold]
      obtain ⟨hstoppable, hprovides⟩ := hallowed oldRes hold hmoved
      obtain ⟨m₁, hstop, rfl⟩ := Option.map_eq_some_iff.mp htake
      obtain ⟨hcalm, hshrinks, hstopped⟩ := h.stop hlisted hstoppable hstop
      refine (hcalm.removeResource (by rwa [Listed, hshrinks.resources]) hstopped ?_).addResource ?_
      · rwa [hshrinks.provides]
      · rw [← hname]
        exact Function.update_self oldRes.name none m₁.resources
    · cases htake
      exact h.reload oldRes folder.metaData

/-- An allowed call keeps what holds between the calls. -/
theorem Calm.step (h : m.Calm) {action : Action} (hallowed : m.Allowed action) (htake : m.step action = some m') :
    m'.Calm := by
  cases action with
  | start depth answers name =>
    rw [Manager.step] at htake
    cases hget : m.getResource name with
    | none =>
      rw [hget] at htake
      cases htake
      exact h
    | some res =>
      rw [hget] at htake
      obtain ⟨⟨m₁, success⟩, hstart, rfl⟩ := Option.map_eq_some_iff.mp htake
      exact h.start (h.1.listed_of_mayBe (mayBe_of_getResource hget)) (hallowed res hget) hstart
  | stop depth name =>
    rw [Manager.step] at htake
    cases hget : m.getResource name with
    | none =>
      rw [hget] at htake
      cases htake
      exact h
    | some res =>
      rw [hget] at htake
      exact (h.stop (h.1.listed_of_mayBe (mayBe_of_getResource hget)) (hallowed res hget) htake).1
  | refresh depth folder => exact h.scanResource hallowed htake

/-- At first there are no resources. -/
theorem calm_empty : Calm {} := by
  refine ⟨⟨.nil, fun res => ?_, .nil, fun res hstarted => ?_, fun res hrunning => ?_, fun entry hmem => ?_,
    fun identifier res hlisted => ?_⟩, fun res => ?_⟩
  · exact ⟨fun hmem => absurd hmem List.not_mem_nil, fun hstarted => by cases hstarted.1⟩
  · cases hstarted
  · rcases hrunning with hrunning | hrunning <;> cases hrunning
  · exact absurd hmem List.not_mem_nil
  · cases hlisted
  · intro hstarting
    cases hstarting

/-- Where dependencies go down some rank and none was deferred, any resource can be started. -/
theorem startable_of_rank (rank : ResourcePtr → Nat)
    (hedge : ∀ first second, m.Edge first second → rank second < rank first) (hnone : m.resourceDependencies = [])
    (res : ResourcePtr) : m.Startable res := by
  have hdown : ∀ first second, TransGen m.Edge first second → rank second < rank first := by
    intro first second hpath
    induction hpath with
    | single hlink => exact hedge _ _ hlink
    | tail _ hlink ih => exact Nat.lt_trans (hedge _ _ hlink) ih
  refine ⟨fun other _ hcycle => Nat.lt_irrefl _ (hdown other other hcycle), fun other _ _ dependant hmem => ?_⟩
  rw [hnone] at hmem
  exact absurd hmem List.not_mem_nil

/-- Three folders: `c`, `b`, and `a` that depends on `b`. -/
private def threeFolders : Manager :=
  ((({} : Manager).addResource ⟨[99], [1], {}, [], true⟩).addResource ⟨[98], [1], {}, [], true⟩).addResource
    ⟨[97], [1], { dependency := [[98]] }, [], true⟩

private theorem threeFolders_startable (res : ResourcePtr) : threeFolders.Startable res := by
  refine startable_of_rank (fun res => if res = ⟨[97], 3⟩ then 1 else 0) (fun first second hedge => ?_) rfl res
  obtain ⟨-, identifier, hidentifier, hsecond⟩ := hedge
  by_cases hfirst : first = ⟨[97], 3⟩
  · subst hfirst
    have hdependency : identifier = [98] := List.mem_singleton.mp hidentifier
    rcases hsecond with hlisted | hprovided
    · rw [hdependency] at hlisted
      obtain rfl : ⟨[98], 2⟩ = second := Option.some.inj hlisted
      decide
    · exact absurd hprovided List.not_mem_nil
  · have hnone : threeFolders.metaData first = {} := by
      have hadd : ∀ (m : Manager) (folder : Folder), folder.loads = true → first ≠ ⟨folder.name, m.created + 1⟩ →
          (m.addResource folder).resource first = m.resource first := by
        intro m folder hloads hother
        rw [Manager.addResource, if_pos hloads]
        exact Function.update_of_ne hother _ _
      rw [metaData, threeFolders, hadd _ _ rfl hfirst]
      by_cases hb : first = ⟨[98], 2⟩
      · subst hb
        rfl
      · rw [hadd _ _ rfl hb]
        by_cases hc : first = ⟨[99], 1⟩
        · subst hc
          rfl
        · rw [hadd _ _ rfl hc]
    rw [hnone] at hidentifier
    exact absurd hidentifier List.not_mem_nil

end fx.StartOrder.Manager
