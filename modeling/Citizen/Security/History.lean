import Citizen.Security.Context

open Bits Std

namespace se

/-- The calls of `Context` that change the tables. -/
inductive Edit
  | addAccessControlEntry (principal object : Name) (type : AccessType)
  | removeAccessControlEntry (principal object : Name) (type : AccessType)
  | addPrincipalInheritance (child parent : Name)
  | removePrincipalInheritance (child parent : Name)
  | reset

namespace Context

variable (ctx : Context)

def addAccessControlEntry (principal object : Name) (type : AccessType) : Context :=
  { ctx with aces := ctx.aces ++ [{ object, principal, type }] }

def removeAccessControlEntry (principal object : Name) (type : AccessType) : Context :=
  { ctx with
    aces := ctx.aces.filter fun ace =>
      ¬ (stricmp ace.object object = .eq ∧ stricmp ace.principal principal = .eq ∧ ace.type = type) }

def addPrincipalInheritance (child parent : Name) : Context :=
  { ctx with principalInheritance := ctx.principalInheritance ++ [(child, parent)] }

def removePrincipalInheritance (child parent : Name) : Context :=
  { ctx with
    principalInheritance := ctx.principalInheritance.filter fun parenting =>
      ¬ (stricmp parenting.1 child = .eq ∧ stricmp parenting.2 parent = .eq) }

def edit : Edit → Context
  | .addAccessControlEntry principal object type => ctx.addAccessControlEntry principal object type
  | .removeAccessControlEntry principal object type => ctx.removeAccessControlEntry principal object type
  | .addPrincipalInheritance child parent => ctx.addPrincipalInheritance child parent
  | .removePrincipalInheritance child parent => ctx.removePrincipalInheritance child parent
  | .reset => { aces := [], principalInheritance := [] }

/-- A context after its edits. -/
def history (edits : List Edit) : Context := edits.foldl edit { aces := [], principalInheritance := [] }

/-- `AddPrincipals` where so many calls of it can be nested. -/
def addPrincipalsWithin (depth : Nat) (principal : Name) (set : TreeSet Name stricmp) :
    Option (TreeSet Name stricmp) :=
  Explore.exploreWithin ctx.parentsOf depth principal set

/-- `CheckPrivilege`, likewise. -/
def checkPrivilegeWithin (depth : Nat) (principal object : Name) : Option Bool :=
  (ctx.addPrincipalsWithin depth principal ((∅ : TreeSet Name stricmp).insert principal |>.insert everyone)).map
    fun principals =>
    checkEntries principals ((objects object).flatMap ctx.acesOf) false

end Context

/-- What an edit is about, with names as `_stricmp` sees them. -/
inductive Fact
  | entry (principal object : Name) (type : AccessType)
  | inheritance (child parent : Name)

namespace Edit

def Adds : Edit → Fact → Prop
  | .addAccessControlEntry principal object type, fact => fact = .entry (foldName principal) (foldName object) type
  | .addPrincipalInheritance child parent, fact => fact = .inheritance (foldName child) (foldName parent)
  | _, _ => False

def Removes : Edit → Fact → Prop
  | .removeAccessControlEntry principal object type, fact => fact = .entry (foldName principal) (foldName object) type
  | .removePrincipalInheritance child parent, fact => fact = .inheritance (foldName child) (foldName parent)
  | .reset, _ => True
  | _, _ => False

end Edit

/-- A fact was added after it was last removed. -/
def Added (edits : List Edit) (fact : Fact) : Prop :=
  ∃ before edit after, edits = before ++ edit :: after ∧ edit.Adds fact ∧ ∀ later ∈ after, ¬ later.Removes fact

theorem not_added_nil (fact : Fact) : ¬ Added [] fact := by
  rintro ⟨before, edit, after, hedits, -⟩
  cases before <;> cases hedits

/-- One more edit adds a fact, or keeps it. -/
theorem added_concat {edits : List Edit} {edit : Edit} {fact : Fact} :
    Added (edits ++ [edit]) fact ↔ edit.Adds fact ∨ Added edits fact ∧ ¬ edit.Removes fact := by
  constructor
  · rintro ⟨before, found, after, hedits, hadds, hafter⟩
    rcases List.eq_nil_or_concat' after with rfl | ⟨rest, last, rfl⟩
    · have hlast := List.append_inj' hedits rfl
      rw [List.cons.injEq] at hlast
      exact .inl (hlast.2.1 ▸ hadds)
    · rw [← List.cons_append, ← List.append_assoc] at hedits
      obtain ⟨hrest, hlast⟩ := List.append_inj' hedits rfl
      rw [List.cons.injEq] at hlast
      refine .inr ⟨⟨before, found, rest, hrest, hadds, fun later hlater => hafter later ?_⟩, ?_⟩
      · exact List.mem_append_left _ hlater
      · exact hlast.1 ▸ hafter last (List.mem_append_right _ List.mem_cons_self)
  · rintro (hadds | ⟨⟨before, found, after, rfl, hadds, hafter⟩, hkeeps⟩)
    · exact ⟨edits, edit, [], rfl, hadds, fun _ hmem => absurd hmem List.not_mem_nil⟩
    · refine ⟨before, found, after ++ [edit],
        by rw [List.append_assoc, List.cons_append], hadds, fun later hlater => ?_⟩
      rcases List.mem_append.mp hlater with hold | hnew
      · exact hafter later hold
      · rwa [List.mem_singleton.mp hnew]

namespace Context

variable {ctx ctx' : Context} {principal object : Name}

/-- The tables say so. -/
def Has (ctx : Context) : Fact → Prop
  | .entry principal object type =>
    ∃ ace ∈ ctx.aces, foldName ace.principal = principal ∧ foldName ace.object = object ∧ ace.type = type
  | .inheritance child parent => ctx.Inherits child parent

theorem mem_removeAccessControlEntry {type : AccessType} {ace : AccessControlEntry} :
    ace ∈ (ctx.removeAccessControlEntry principal object type).aces ↔ ace ∈ ctx.aces ∧
      Fact.entry (foldName ace.principal) (foldName ace.object) ace.type ≠ .entry (foldName principal)
        (foldName object) type := by
  rw [removeAccessControlEntry, List.mem_filter, decide_eq_true_eq, stricmp_eq, stricmp_eq, ne_eq, Fact.entry.injEq]
  refine and_congr_right fun _ => not_congr ?_
  rw [← and_assoc, ← and_assoc, and_comm (a := foldName ace.object = _)]

theorem mem_removePrincipalInheritance {child parent : Name} {parenting : Name × Name} :
    parenting ∈ (ctx.removePrincipalInheritance child parent).principalInheritance ↔
      parenting ∈ ctx.principalInheritance ∧ Fact.inheritance (foldName parenting.1)
        (foldName parenting.2) ≠ .inheritance (foldName child) (foldName parent) := by
  rw [removePrincipalInheritance, List.mem_filter, decide_eq_true_eq, stricmp_eq, stricmp_eq, ne_eq,
    Fact.inheritance.injEq]

/-- One edit adds a fact, removes it, or leaves it. -/
theorem has_edit {edit : Edit} {fact : Fact} :
    (ctx.edit edit).Has fact ↔ edit.Adds fact ∨ ctx.Has fact ∧ ¬ edit.Removes fact := by
  cases edit with
  | addAccessControlEntry principal object type =>
    cases fact with
    | entry principal' object' type' =>
      rw [Context.edit, addAccessControlEntry, Edit.Adds, Fact.entry.injEq]
      simp only [Has, List.mem_append, List.mem_singleton, or_and_right, exists_or, exists_eq_left, Edit.Removes,
        not_false_eq_true, and_true]
      rw [or_comm, eq_comm (a := foldName principal), eq_comm (a := foldName object), eq_comm (a := type)]
    | inheritance child parent =>
      exact ⟨fun h => .inr ⟨h, not_false⟩, fun h => h.elim (fun hadds => by cases hadds) And.left⟩
  | removeAccessControlEntry principal object type =>
    cases fact with
    | entry principal' object' type' =>
      constructor
      · rintro ⟨ace, hmem, rfl, rfl, rfl⟩
        obtain ⟨hold, hkeeps⟩ := mem_removeAccessControlEntry.mp hmem
        exact .inr ⟨⟨ace, hold, rfl, rfl, rfl⟩, hkeeps⟩
      · rintro (hadds | ⟨⟨ace, hold, rfl, rfl, rfl⟩, hkeeps⟩)
        · exact hadds.elim
        · exact ⟨ace, mem_removeAccessControlEntry.mpr ⟨hold, hkeeps⟩, rfl, rfl, rfl⟩
    | inheritance child parent =>
      exact ⟨fun h => .inr ⟨h, fun hremoves => by cases hremoves⟩, fun h => h.elim False.elim And.left⟩
  | addPrincipalInheritance child parent =>
    cases fact with
    | entry principal object type =>
      exact ⟨fun h => .inr ⟨h, not_false⟩, fun h => h.elim (fun hadds => by cases hadds) And.left⟩
    | inheritance child' parent' =>
      rw [Context.edit, addPrincipalInheritance, Edit.Adds, Fact.inheritance.injEq]
      simp only [Has, Inherits, List.mem_append, List.mem_singleton, or_and_right, exists_or, exists_eq_left,
        Edit.Removes, not_false_eq_true, and_true]
      rw [or_comm, eq_comm (a := foldName child), eq_comm (a := foldName parent)]
  | removePrincipalInheritance child parent =>
    cases fact with
    | entry principal object type =>
      exact ⟨fun h => .inr ⟨h, fun hremoves => by cases hremoves⟩, fun h => h.elim False.elim And.left⟩
    | inheritance child' parent' =>
      constructor
      · rintro ⟨parenting, hmem, rfl, rfl⟩
        obtain ⟨hold, hkeeps⟩ := mem_removePrincipalInheritance.mp hmem
        exact .inr ⟨⟨parenting, hold, rfl, rfl⟩, hkeeps⟩
      · rintro (hadds | ⟨⟨parenting, hold, rfl, rfl⟩, hkeeps⟩)
        · exact hadds.elim
        · exact ⟨parenting, mem_removePrincipalInheritance.mpr ⟨hold, hkeeps⟩, rfl, rfl⟩
  | reset =>
    refine ⟨fun h => ?_, fun h => h.elim False.elim fun hold => absurd trivial hold.2⟩
    cases fact with
    | entry => exact absurd h.choose_spec.1 List.not_mem_nil
    | inheritance => exact absurd h.choose_spec.1 List.not_mem_nil

/-- The tables say what the edits have added last. -/
theorem has_history {edits : List Edit} {fact : Fact} : (history edits).Has fact ↔ Added edits fact := by
  induction edits using List.reverseRecOn generalizing fact with
  | nil =>
    refine ⟨fun h => ?_, fun h => absurd h (not_added_nil fact)⟩
    cases fact with
    | entry => exact absurd h.choose_spec.1 List.not_mem_nil
    | inheritance => exact absurd h.choose_spec.1 List.not_mem_nil
  | append_singleton edits edit ih => rw [history, List.foldl_concat, ← history, has_edit, added_concat, ih]

theorem collected_mono (h : ∀ child parent, ctx.Inherits child parent → ctx'.Inherits child parent) {who : Name}
    (hwho : ctx.Collected principal who) : ctx'.Collected principal who := by
  induction hwho with
  | self => exact .self
  | everyone => exact .everyone
  | parent _ hpass hinherits ih => exact .parent ih hpass (h _ _ hinherits)

/-- The entries for some principals, in terms of facts. -/
theorem hasEntry_iff {who : Name → Prop} {type : AccessType} : ctx.HasEntry who type object ↔
    ∃ principal named, ctx.Has (.entry principal named type) ∧ who principal ∧
      ∃ covering, Covers covering object ∧ named = foldName covering := by
  constructor
  · rintro ⟨ace, hmem, htype, hwho, hcovers⟩
    exact ⟨_, _, ⟨ace, hmem, rfl, rfl, htype⟩, hwho, hcovers⟩
  · rintro ⟨_, _, ⟨ace, hmem, rfl, rfl, htype⟩, hwho, hcovers⟩
    exact ⟨ace, hmem, htype, hwho, hcovers⟩

/-- More facts make more entries for collected principals. -/
theorem hasEntry_mono {type : AccessType}
    (hinherits : ∀ child parent, ctx.Has (.inheritance child parent) → ctx'.Has (.inheritance child parent))
    (hentries : ∀ principal object, ctx.Has (.entry principal object type) → ctx'.Has (.entry principal object type))
    (h : ctx.HasEntry (ctx.Collected principal) type object) :
    ctx'.HasEntry (ctx'.Collected principal) type object := by
  obtain ⟨who, named, hentry, hwho, hcovers⟩ := hasEntry_iff.mp h
  exact hasEntry_iff.mpr ⟨who, named, hentries who named hentry, collected_mono hinherits hwho, hcovers⟩

/-- A check only depends on the facts. -/
theorem checkPrivilege_congr (h : ∀ fact, ctx.Has fact ↔ ctx'.Has fact) (principal object : Name) :
    ctx.checkPrivilege principal object = ctx'.checkPrivilege principal object := by
  have hentry : ∀ type, ctx.HasEntry (ctx.Collected principal) type object ↔
    ctx'.HasEntry (ctx'.Collected principal) type object :=
    fun type => ⟨hasEntry_mono (fun _ _ => (h _).mp) fun _ _ => (h _).mp,
      hasEntry_mono (fun _ _ => (h _).mpr) fun _ _ => (h _).mpr⟩
  rw [Bool.eq_iff_iff, checkPrivilege_collected, checkPrivilege_collected, hentry, hentry]

theorem has_addAccessControlEntry {principal' object' : Name} {type : AccessType} {fact : Fact} :
    (ctx.addAccessControlEntry principal' object' type).Has fact ↔
      (Edit.addAccessControlEntry principal' object' type).Adds fact ∨ ctx.Has fact := by
  refine (@has_edit ctx (.addAccessControlEntry principal' object' type) fact).trans (or_congr_right (and_iff_left ?_))
  exact not_false

/-- Entries of one type more, and nothing else. -/
theorem hasEntry_addAccessControlEntry {type type' : AccessType} (hne : type ≠ type') (principal' object' : Name) :
    (ctx.addAccessControlEntry principal' object' type').HasEntry
        ((ctx.addAccessControlEntry principal' object' type').Collected principal) type object ↔
      ctx.HasEntry (ctx.Collected principal) type object := by
  constructor
  · refine hasEntry_mono (fun child parent hhas => ?_) fun who named hhas => ?_
    · exact (has_addAccessControlEntry.mp hhas).resolve_left fun hadds => by cases hadds
    · refine (has_addAccessControlEntry.mp hhas).resolve_left fun hadds => ?_
      rw [Edit.Adds, Fact.entry.injEq] at hadds
      exact hne hadds.2.2
  · exact hasEntry_mono (fun _ _ hhas => has_addAccessControlEntry.mpr (.inr hhas))
      fun _ _ hhas => has_addAccessControlEntry.mpr (.inr hhas)

theorem hasEntry_grows {type : AccessType} (principal' object' : Name) (type' : AccessType)
    (h : ctx.HasEntry (ctx.Collected principal) type object) :
    (ctx.addAccessControlEntry principal' object' type').HasEntry
      ((ctx.addAccessControlEntry principal' object' type').Collected principal) type object :=
  hasEntry_mono (fun _ _ hhas => has_addAccessControlEntry.mpr (.inr hhas))
    (fun _ _ hhas => has_addAccessControlEntry.mpr (.inr hhas)) h

/-- An Allow entry grants, and takes nothing away. -/
theorem allow_monotone (principal' object' : Name) (h : ctx.checkPrivilege principal object = true) :
    (ctx.addAccessControlEntry principal' object' .allow).checkPrivilege principal object = true := by
  rw [checkPrivilege_collected] at h ⊢
  refine ⟨hasEntry_grows principal' object' .allow h.1, fun hdeny => h.2 ?_⟩
  exact (hasEntry_addAccessControlEntry (by decide) principal' object').mp hdeny

/-- A Deny entry takes away, and grants nothing. -/
theorem deny_monotone (principal' object' : Name)
    (h : (ctx.addAccessControlEntry principal' object' .deny).checkPrivilege principal object = true) :
    ctx.checkPrivilege principal object = true := by
  rw [checkPrivilege_collected] at h ⊢
  refine ⟨(hasEntry_addAccessControlEntry (by decide) principal' object').mp h.1, fun hdeny => h.2 ?_⟩
  exact hasEntry_grows principal' object' .deny hdeny

/-- `AddPrincipals` nests no deeper than there are inheritances. -/
theorem addPrincipalsWithin_eq {depth : Nat} (hdepth : ctx.principalInheritance.length < depth) (principal : Name)
    (set : TreeSet Name stricmp) :
    ctx.addPrincipalsWithin depth principal set = some (ctx.addPrincipals principal set) := by
  refine Explore.exploreWithin_mono hdepth (Explore.exploreWithin_eq (ctx.principalInheritance.map (·.2))
    (fun hsame => ?_) (fun child parent hmem => ?_) ?_)
  · rw [parentsOf, parentsOf]
    simp only [stricmp_eq, stricmp_eq.mp hsame]
  · obtain ⟨parenting, hin, -, rfl⟩ := mem_parentsOf.mp hmem
    exact List.mem_map_of_mem hin
  · refine Nat.lt_succ_of_le ((List.length_filter_le _ _).trans ?_)
    rw [List.length_map]

theorem checkPrivilegeWithin_eq {depth : Nat} (hdepth : ctx.principalInheritance.length < depth)
    (principal object : Name) :
    ctx.checkPrivilegeWithin depth principal object = some (ctx.checkPrivilege principal object) := by
  rw [checkPrivilegeWithin, addPrincipalsWithin_eq hdepth]
  rfl

/-- A check depends on what was added since it was removed, and ends; Allow entries only grant, and Deny entries
only take away. -/
theorem checkPrivilege_history (edits : List Edit) (principal object : Name) :
    (∀ edits', (∀ fact, Added edits fact ↔ Added edits' fact) →
        (history edits).checkPrivilege principal object = (history edits').checkPrivilege principal object) ∧
      (∃ enough, ∀ depth ≥ enough, (history edits).checkPrivilegeWithin depth principal object =
        some ((history edits).checkPrivilege principal object)) ∧
      (∀ principal' object', (history edits).checkPrivilege principal object = true →
        (history (edits ++ [.addAccessControlEntry principal' object' .allow])).checkPrivilege principal
          object = true) ∧
      ∀ principal' object', (history edits).checkPrivilege principal object = false →
        (history (edits ++ [.addAccessControlEntry principal' object' .deny])).checkPrivilege principal object
          = false := by
  refine ⟨fun edits' hadded => ?_, ⟨_, fun depth hdepth => checkPrivilegeWithin_eq hdepth principal object⟩,
    fun principal' object' hgranted => ?_, fun principal' object' hrefused => ?_⟩
  · refine checkPrivilege_congr (fun fact => ?_) principal object
    rw [has_history, has_history, hadded]
  · rw [history, List.foldl_concat]
    exact allow_monotone principal' object' hgranted
  · rw [history, List.foldl_concat, Bool.eq_false_iff]
    intro hgranted
    have hold := deny_monotone principal' object' hgranted
    rw [← history, hrefused] at hold
    cases hold

/-- Two histories that end with the same entry, in other spellings and orders. -/
theorem checkPrivilege_respelled :
    (history [.addPrincipalInheritance [112] [103], .addAccessControlEntry [103] [99] .allow]).checkPrivilege
      [112] [99] = (history [.addAccessControlEntry [71] [67] .allow, .addPrincipalInheritance [112] [103],
        .addPrincipalInheritance [80] [71]]).checkPrivilege [112] [99] := by
  refine (checkPrivilege_history _ [112] [99]).1 _ fun fact => ?_
  have hplayer : foldName [80] = foldName [112] := by decide
  have hgroup : foldName [71] = foldName [103] := by decide
  have hobject : foldName [67] = foldName [99] := by decide
  show Added ([] ++ [_] ++ [_]) fact ↔ Added ([] ++ [_] ++ [_] ++ [_]) fact
  simp only [added_concat, not_added_nil, Edit.Adds, Edit.Removes, hplayer, hgroup, hobject, or_false,
    not_false_eq_true, and_true]
  tauto

end Context

end se
