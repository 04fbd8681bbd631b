import Citizen.Lib.Bits
import Citizen.Lib.Explore

open Bits Std

namespace se

/-- The bytes of a `std::string`. -/
abbrev Name := List Byte

/-- The case-insensitive part of `_stricmp` on one byte. -/
def lower (b : Byte) : Byte := if 65 ≤ b.toNat ∧ b.toNat ≤ 90 then b + 32 else b

/-- What `_stricmp` sees of a name: it stops at a NUL and does not tell cases apart. -/
def foldName (name : Name) : Name := (name.takeWhile (· ≠ 0)).map lower

/-- `_stricmp` of the two `c_str()`. -/
def stricmp (a b : Name) : Ordering := compareOn foldName a b

inductive AccessType where
  | allow
  | unset
  | deny
  deriving DecidableEq

structure AccessControlEntry where
  object : Name
  principal : Name
  type : AccessType

/-- The two multimaps of `ContextImpl`, in insertion order. An entry is filed under its
object, and a parent under its child. -/
structure Context where
  aces : List AccessControlEntry
  principalInheritance : List (Name × Name)

/-- `"builtin.everyone"`. -/
def everyone : Name := "builtin.everyone".toList.map fun c => BitVec.ofNat 8 c.toNat

def dot : Byte := 46

/-- `tempObject.substr(0, tempObject.find_last_of('.'))`, unless there is no dot. -/
def parentObject (name : Name) : Option Name :=
  if dot ∈ name then some ((name.reverse.dropWhile (· ≠ dot)).tail.reverse) else none

/-- The loop that splits the object by parents, `fuel` times at most. -/
def splitObject : Nat → Name → List Name
  | 0, _ => []
  | fuel + 1, tempObject =>
    match parentObject tempObject with
    | none => []
    | some tempObject => tempObject :: splitObject fuel tempObject

/-- `objects`: every round cuts a byte at least. -/
def objects (object : Name) : List Name := object :: splitObject object.length object

/-- The loop over the entries. A deny entry returns from it. -/
def checkEntries (principals : TreeSet Name stricmp) : List AccessControlEntry → Bool → Bool
  | [], allowed => allowed
  | entry :: rest, allowed =>
    if entry.principal ∈ principals then
      match entry.type with
      | .allow => checkEntries principals rest true
      | .deny => false
      | .unset => checkEntries principals rest allowed
    else checkEntries principals rest allowed

namespace Context

variable (ctx : Context)

/-- `m_aces.equal_range(object)`. -/
def acesOf (object : Name) : List AccessControlEntry := ctx.aces.filter fun ace => stricmp ace.object object = .eq

/-- `m_principalInheritance.equal_range(principal)`. -/
def parentsOf (principal : Name) : List Name :=
  (ctx.principalInheritance.filter fun parenting => stricmp parenting.1 principal = .eq).map (·.2)

/-- `AddPrincipals`. Each call inserts a parent that was not in the set, so the calls nest
less deeply than there are inheritances. -/
def addPrincipals (principal : Name) (set : TreeSet Name stricmp) : TreeSet Name stricmp :=
  Explore.explore ctx.parentsOf (ctx.principalInheritance.length + 1) principal set

/-- `principals`, after `AddPrincipals`. -/
def principals (principal : Name) : TreeSet Name stricmp :=
  ctx.addPrincipals principal ((∅ : TreeSet Name stricmp).insert principal |>.insert everyone)

/-- `CheckPrivilege(principal, object)`. -/
def checkPrivilege (principal object : Name) : Bool :=
  checkEntries (ctx.principals principal) ((objects object).flatMap ctx.acesOf) false

/-- Direct inheritance, on names as `_stricmp` sees them. -/
def Inherits (child parent : Name) : Prop :=
  ∃ parenting ∈ ctx.principalInheritance, foldName parenting.1 = child ∧ foldName parenting.2 = parent

/-- The principals reached from `principal` or from `builtin.everyone`. -/
def Reached (principal : Name) (who : Name) : Prop :=
  Relation.ReflTransGen ctx.Inherits (foldName principal) who ∨
    Relation.ReflTransGen ctx.Inherits (foldName everyone) who

/-- The principals reached from `principal` without passing through `builtin.everyone`,
and `builtin.everyone` itself. -/
inductive Collected (principal : Name) : Name → Prop
  | self : Collected principal (foldName principal)
  | everyone : Collected principal (foldName everyone)
  | parent {child parent : Name} : Collected principal child →
      child = foldName principal ∨ child ≠ foldName se.everyone → ctx.Inherits child parent →
        Collected principal parent

/-- The object, or a prefix of it that ends before a dot. -/
def Covers (covering object : Name) : Prop := covering = object ∨ ∃ rest, object = covering ++ dot :: rest

/-- An entry of one type on the object or on a prefix of it, for one of some principals. -/
def HasEntry (who : Name → Prop) (type : AccessType) (object : Name) : Prop :=
  ∃ ace ∈ ctx.aces, ace.type = type ∧ who (foldName ace.principal) ∧
    ∃ covering, Covers covering object ∧ foldName ace.object = foldName covering

/-- What access control is for: some Allow entry and no Deny entry for a reached principal. -/
def Granted (principal object : Name) : Prop :=
  ctx.HasEntry (ctx.Reached principal) .allow object ∧ ¬ ctx.HasEntry (ctx.Reached principal) .deny object

/-- Reached through the parents of `builtin.everyone` only. -/
def Skipped (principal : Name) (who : Name) : Prop := ctx.Reached principal who ∧ ¬ ctx.Collected principal who

/-- No entry for a skipped principal decides: an Allow comes with an Allow for a collected
principal or with a Deny, and a Deny with a Deny for a collected principal or with no Allow. -/
structure SkippedIdle (principal object : Name) : Prop where
  allow : ctx.HasEntry (ctx.Skipped principal) .allow object →
    ctx.HasEntry (ctx.Collected principal) .allow object ∨ ctx.HasEntry (ctx.Reached principal) .deny object
  deny : ctx.HasEntry (ctx.Skipped principal) .deny object →
    ctx.HasEntry (ctx.Collected principal) .deny object ∨ ¬ ctx.HasEntry (ctx.Collected principal) .allow object

end Context

instance : TransCmp stricmp := inferInstanceAs (TransCmp (compareOn foldName))

theorem stricmp_eq {a b : Name} : stricmp a b = .eq ↔ foldName a = foldName b := by
  rw [stricmp, compareOn]
  exact Std.compare_eq_iff_eq

section Objects

variable {name parent : Name}

theorem parentObject_none : parentObject name = none ↔ dot ∉ name := by
  rw [parentObject]
  split <;> simp [*]

/-- The last dot splits a name. -/
theorem parentObject_some (h : parentObject name = some parent) : ∃ rest, name = parent ++ dot :: rest ∧
    dot ∉ rest := by
  rw [parentObject] at h
  split at h
  · rename_i hdot
    cases h
    have hsplit := List.takeWhile_append_dropWhile (p := (· ≠ dot)) (l := name.reverse)
    have hclean : dot ∉ name.reverse.takeWhile (· ≠ dot) := fun hmem => by simpa using List.mem_takeWhile_imp hmem
    cases hdrop : name.reverse.dropWhile (· ≠ dot) with
    | nil =>
      rw [hdrop, List.append_nil] at hsplit
      rw [hsplit] at hclean
      exact absurd (List.mem_reverse.mpr hdot) hclean
    | cons b tail =>
      have hhead := List.head?_dropWhile_not (· ≠ dot) name.reverse
      rw [hdrop] at hhead
      have hb : b = dot := by simpa using hhead
      refine ⟨(name.reverse.takeWhile (· ≠ dot)).reverse, ?_, fun hmem => hclean (List.mem_reverse.mp hmem)⟩
      have hname := congrArg List.reverse hsplit
      rw [hdrop, hb, List.reverse_append, List.reverse_reverse, List.reverse_cons, List.append_assoc] at hname
      exact hname.symm
  · cases h

/-- Two splits at a dot: the one before the last dot covers the other. -/
private theorem split_cases {covering rest rest' : Name} (h : parent ++ dot :: rest = covering ++ dot :: rest')
    (hrest : dot ∉ rest) : covering = parent ∨ ∃ tail, parent = covering ++ dot :: tail := by
  rcases List.append_eq_append_iff.mp h with ⟨tail, hcovering, hdot⟩ | ⟨tail, hparent, hdot⟩
  · cases tail with
    | nil => exact Or.inl (by rw [hcovering, List.append_nil])
    | cons b tail =>
      rw [List.cons_append, List.cons.injEq] at hdot
      rw [hdot.2] at hrest
      exact absurd (List.mem_append_right _ List.mem_cons_self) hrest
  · cases tail with
    | nil => exact Or.inl (by rw [hparent, List.append_nil])
    | cons b tail =>
      rw [List.cons_append, List.cons.injEq] at hdot
      exact Or.inr ⟨tail, by rw [hparent, hdot.1]⟩

theorem mem_splitObject {fuel : Nat} (hfuel : name.length ≤ fuel) {covering : Name} :
    covering ∈ splitObject fuel name ↔ ∃ rest, name = covering ++ dot :: rest := by
  induction fuel generalizing name with
  | zero =>
    rw [List.length_eq_zero_iff.mp (Nat.le_zero.mp hfuel)]
    simp [splitObject]
  | succ fuel ih =>
    rw [splitObject]
    cases hparent : parentObject name with
    | none =>
      refine ⟨fun h => absurd h List.not_mem_nil, fun ⟨rest, hname⟩ => ?_⟩
      rw [parentObject_none, hname] at hparent
      exact absurd (List.mem_append_right _ List.mem_cons_self) hparent
    | some parent =>
      obtain ⟨last, hname, hlast⟩ := parentObject_some hparent
      have hless : parent.length ≤ fuel := by
        rw [hname, List.length_append, List.length_cons] at hfuel
        omega
      rw [List.mem_cons, ih hless]
      constructor
      · rintro (rfl | ⟨rest, hrest⟩)
        · exact ⟨last, hname⟩
        · exact ⟨rest ++ dot :: last, by rw [hname, hrest, List.append_assoc, List.cons_append]⟩
      · rintro ⟨rest, hrest⟩
        exact split_cases (hname.symm.trans hrest) hlast

theorem mem_objects {covering object : Name} : covering ∈ objects object ↔ Context.Covers covering object := by
  rw [objects, List.mem_cons, mem_splitObject (Nat.le_refl _), Context.Covers]

end Objects

/-- The loop grants when some entry allows and none denies. -/
theorem checkEntries_iff (principals : TreeSet Name stricmp) (entries : List AccessControlEntry) (allowed : Bool) :
    checkEntries principals entries allowed = true ↔
      (allowed = true ∨ ∃ ace ∈ entries, ace.type = .allow ∧ ace.principal ∈ principals) ∧
        ¬ ∃ ace ∈ entries, ace.type = .deny ∧ ace.principal ∈ principals := by
  induction entries generalizing allowed with
  | nil => simp [checkEntries]
  | cons entry rest ih =>
    rw [checkEntries]
    by_cases hmem : entry.principal ∈ principals
    · rw [if_pos hmem]
      cases htype : entry.type with
      | allow => simp [ih, htype, hmem]
      | deny => simp [htype, hmem]
      | unset => simp [ih, htype]
    · rw [if_neg hmem, ih]
      simp [hmem]

namespace Context

variable {ctx : Context} {principal object : Name}

theorem mem_parentsOf {child parent : Name} :
    parent ∈ ctx.parentsOf child ↔ ∃ parenting ∈ ctx.principalInheritance,
      foldName parenting.1 = foldName child ∧ parenting.2 = parent := by
  rw [parentsOf, List.mem_map]
  simp only [List.mem_filter, decide_eq_true_eq, stricmp_eq, and_assoc]

theorem edge_iff {child parent : Name} :
    Explore.Edge stricmp ctx.parentsOf child parent ↔ ctx.Inherits (foldName child) (foldName parent) := by
  constructor
  · rintro ⟨found, hfound, hsame⟩
    obtain ⟨parenting, hmem, hchild, rfl⟩ := mem_parentsOf.mp hfound
    exact ⟨parenting, hmem, hchild, stricmp_eq.mp hsame⟩
  · rintro ⟨parenting, hmem, hchild, hparent⟩
    exact ⟨parenting.2, mem_parentsOf.mpr ⟨parenting, hmem, hchild, rfl⟩, stricmp_eq.mpr hparent⟩

private theorem addPrincipals_found (principal : Name) (set : TreeSet Name stricmp) :
    Explore.Found ctx.parentsOf principal set (ctx.addPrincipals principal set) ∧
      ∀ parent ∈ ctx.parentsOf principal, parent ∈ ctx.addPrincipals principal set := by
  refine Explore.explore_spec (ctx.principalInheritance.map (·.2)) (fun hsame => ?_) (fun child parent hmem => ?_) ?_
  · rw [parentsOf, parentsOf]
    simp only [stricmp_eq, stricmp_eq.mp hsame]
  · obtain ⟨parenting, hin, -, rfl⟩ := mem_parentsOf.mp hmem
    exact List.mem_map_of_mem hin
  · refine Nat.lt_succ_of_le ((List.length_filter_le _ _).trans ?_)
    rw [List.length_map]

private theorem mem_start {who : Name} : who ∈ ((∅ : TreeSet Name stricmp).insert principal).insert everyone ↔
    foldName who = foldName principal ∨ foldName who = foldName everyone := by
  simp only [TreeSet.mem_insert, stricmp_eq, TreeSet.not_mem_emptyc, or_false]
  constructor
  · rintro (h | h)
    · exact Or.inr h.symm
    · exact Or.inl h.symm
  · rintro (h | h)
    · exact Or.inr h.symm
    · exact Or.inl h.symm

/-- `AddPrincipals` finds the collected principals, and cycles do not keep it from ending. -/
theorem mem_principals {who : Name} : who ∈ ctx.principals principal ↔ ctx.Collected principal (foldName who) := by
  obtain ⟨hfound, hparents⟩ := ctx.addPrincipals_found principal
    (((∅ : TreeSet Name stricmp).insert principal).insert everyone)
  constructor
  · intro hmem
    rcases hfound.reached who hmem with hstart | hreach
    · rcases mem_start.mp hstart with h | h
      · exact h ▸ .self
      · exact h ▸ .everyone
    · clear hmem
      induction hreach with
      | first hedge => exact .parent .self (Or.inl rfl) (edge_iff.mp hedge)
      | step _ hout hedge ih => exact .parent ih (Or.inr fun h => hout (mem_start.mpr (Or.inr h))) (edge_iff.mp hedge)
  · intro hcollected
    -- every collected name is in the set under some spelling
    have hsome : ∀ name, ctx.Collected principal name → ∃ found ∈ ctx.principals principal, foldName found = name := by
      intro name hname
      induction hname with
      | self => exact ⟨principal, hfound.grows _ (mem_start.mpr (Or.inl rfl)), rfl⟩
      | everyone => exact ⟨everyone, hfound.grows _ (mem_start.mpr (Or.inr rfl)), rfl⟩
      | parent _ hpass hinherits ih =>
        obtain ⟨found, hmem, rfl⟩ := ih
        obtain ⟨parenting, hin, hchild, hparent⟩ := hinherits
        have hnext : parenting.2 ∈ ctx.parentsOf found := mem_parentsOf.mpr ⟨parenting, hin, hchild, rfl⟩
        refine ⟨parenting.2, ?_, hparent⟩
        by_cases hself : foldName found = foldName principal
        · exact hparents _ (mem_parentsOf.mpr ⟨parenting, hin, hchild.trans hself, rfl⟩)
        · refine hfound.closed found hmem (fun hstart => ?_) _ hnext
          rcases mem_start.mp hstart with h | h
          · exact hself h
          · exact hpass.elim hself fun hne => hne h
    obtain ⟨found, hmem, hsame⟩ := hsome _ hcollected
    exact (TreeSet.mem_congr (stricmp_eq.mpr hsame)).mp hmem

theorem Collected.reached {who : Name} (h : ctx.Collected principal who) : ctx.Reached principal who := by
  induction h with
  | self => exact Or.inl .refl
  | everyone => exact Or.inr .refl
  | parent _ _ hinherits ih => exact ih.imp (·.tail hinherits) (·.tail hinherits)

theorem HasEntry.mono {who who' : Name → Prop} {type : AccessType} (h : ctx.HasEntry who type object)
    (hwho : ∀ name, who name → who' name) : ctx.HasEntry who' type object := by
  obtain ⟨ace, hmem, htype, hprincipal, hcovers⟩ := h
  exact ⟨ace, hmem, htype, hwho _ hprincipal, hcovers⟩

/-- A reached principal is collected or skipped. -/
private theorem hasEntry_reached {type : AccessType} : ctx.HasEntry (ctx.Reached principal) type object ↔
    ctx.HasEntry (ctx.Collected principal) type object ∨ ctx.HasEntry (ctx.Skipped principal) type object := by
  constructor
  · rintro ⟨ace, hmem, htype, hreached, hcovers⟩
    by_cases hcollected : ctx.Collected principal (foldName ace.principal)
    · exact Or.inl ⟨ace, hmem, htype, hcollected, hcovers⟩
    · exact Or.inr ⟨ace, hmem, htype, ⟨hreached, hcollected⟩, hcovers⟩
  · rintro (h | h)
    · exact h.mono fun _ => Collected.reached
    · exact h.mono fun _ => And.left

/-- The check decides over the collected principals. -/
theorem checkPrivilege_collected : ctx.checkPrivilege principal object = true ↔
    ctx.HasEntry (ctx.Collected principal) .allow object ∧ ¬ ctx.HasEntry (ctx.Collected principal) .deny object := by
  have hentry : ∀ type, (∃ ace ∈ (objects object).flatMap ctx.acesOf, ace.type = type ∧
      ace.principal ∈ ctx.principals principal) ↔ ctx.HasEntry (ctx.Collected principal) type object := by
    intro type
    simp only [List.mem_flatMap, acesOf, List.mem_filter, decide_eq_true_eq, stricmp_eq, mem_objects, mem_principals]
    constructor
    · rintro ⟨ace, ⟨covering, hcovers, hmem, hobject⟩, htype, hprincipal⟩
      exact ⟨ace, hmem, htype, hprincipal, covering, hcovers, hobject⟩
    · rintro ⟨ace, hmem, htype, hprincipal, covering, hcovers, hobject⟩
      exact ⟨ace, ⟨covering, hcovers, hmem, hobject⟩, htype, hprincipal⟩
  rw [checkPrivilege, checkEntries_iff, hentry, hentry]
  simp

/-- The check grants what it should exactly where the principals that `builtin.everyone`
inherits, which it does not look up, make no difference. -/
theorem checkPrivilege_iff (ctx : Context) (principal object : Name) :
    (ctx.checkPrivilege principal object = true ↔ ctx.Granted principal object) ↔
      ctx.SkippedIdle principal object := by
  rw [checkPrivilege_collected, Granted, hasEntry_reached, hasEntry_reached]
  constructor
  · intro h
    refine ⟨fun hallow => ?_, fun hdeny => ?_⟩
    · rw [hasEntry_reached]
      by_contra hnone
      rw [not_or] at hnone
      exact hnone.1 (h.mpr ⟨Or.inr hallow, hnone.2⟩).1
    · by_contra hnone
      rw [not_or, not_not] at hnone
      exact (h.mp ⟨hnone.2, hnone.1⟩).2 (Or.inr hdeny)
  · rintro ⟨hallow, hdeny⟩
    rw [hasEntry_reached] at hallow
    constructor
    · rintro ⟨hyes, hno⟩
      exact ⟨Or.inl hyes, fun h => h.elim hno fun hskipped => (hdeny hskipped).elim hno fun hnone => hnone hyes⟩
    · rintro ⟨hyes, hno⟩
      rw [not_or] at hno
      refine ⟨hyes.elim id fun hskipped => ?_, hno.1⟩
      exact (hallow hskipped).resolve_right fun h => h.elim hno.1 hno.2

-- a player, spelled in capitals, inherits a group that is allowed the parent object
example : (⟨[⟨[99], [103], .allow⟩], [([112], [103]), ([103], [112])]⟩ : Context).checkPrivilege [80] [99, 46, 120] =
    true := by decide +kernel

/-- `builtin.everyone` inherits a group, and a player is refused what the group is allowed. -/
theorem checkPrivilege_everyone :
    let ctx : Context := ⟨[⟨[99], [103], .allow⟩], [(everyone, [103])]⟩
    ¬ (ctx.checkPrivilege [112] [99] = true ↔ ctx.Granted [112] [99]) := by
  intro ctx h
  have hrefused : ctx.checkPrivilege [112] [99] = false := by decide +kernel
  have hgroup : ctx.Reached [112] (foldName [103]) :=
    Or.inr (.single ⟨(everyone, [103]), List.mem_singleton_self _, rfl, rfl⟩)
  have hgranted : ctx.Granted [112] [99] := by
    refine ⟨⟨_, List.mem_singleton_self _, rfl, hgroup, [99], Or.inl rfl, rfl⟩, ?_⟩
    rintro ⟨ace, hmem, htype, -⟩
    rw [List.mem_singleton] at hmem
    rw [hmem] at htype
    cases htype
  rw [h.mpr hgranted] at hrefused
  cases hrefused

end Context

end se
