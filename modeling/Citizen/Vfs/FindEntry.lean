import Citizen.Vfs.RagePackfile7

open Bits

namespace vfs.RagePackfile7

/-- The name of an entry. -/
def nameOf (archive : Archive) (index : Nat) : Text := (entryName archive index).getD []

def isFolder (archive : Archive) (index : Nat) : Bool := archive.entries[index]?.any Entry.isDirectory

/-- The entries of a folder. -/
def children (archive : Archive) (index : Nat) : List Nat :=
  match archive.entries[index]? with
  | some entry => List.range' entry.virtFlags entry.physFlags
  | none => []

/-- The entries form a tree: those of a folder are a range of the table, lower than the folder, and sorted by name.
The names end inside the name table. -/
structure WellFormed (archive : Archive) (height : Nat → Nat) : Prop where
  root : isFolder archive 0
  named : ∀ entry ∈ archive.entries, ∃ name, readName archive.nameTable entry.nameOffset = some name
  range : ∀ entry ∈ archive.entries, entry.isDirectory → entry.virtFlags + entry.physFlags ≤ archive.entries.length
  lower : ∀ index, isFolder archive index → ∀ child ∈ children archive index, height child < height index
  sorted : ∀ index, isFolder archive index →
    (children archive index).Pairwise fun left right => strcmp (nameOf archive left) (nameOf archive right) = .lt

/-- The parts of a path between its slashes, each up to a NUL. Slashes in a row are like one, and those at the end
like none. -/
def components (path : Text) : List Text := ((path.splitOn slash).filter (· ≠ [])).map cStr

/-- The entry of a folder for a part of a path: the one of that name, or else the first whose name differs in case
only. -/
def child (archive : Archive) (index : Nat) (component : Text) : Option Nat :=
  ((children archive index).find? fun child => nameOf archive child = component).or
    ((children archive index).find? fun child => stricmp component (nameOf archive child))

/-- The entry that the parts of a path lead to. A file is where they end. -/
def follow (archive : Archive) : Nat → List Text → Option Nat
  | index, [] => some index
  | index, component :: rest =>
    if isFolder archive index then (child archive index component).bind fun next => follow archive next rest
      else some index

section Comparisons

variable {left right other : Text}

theorem strcmp_cons (a b : Byte) (left right : Text) : strcmp (a :: left) (b :: right) =
    if a.toNat < b.toNat then .lt else if b.toNat < a.toNat then .gt else strcmp left right := rfl

theorem strcmp_eq_iff : strcmp left right = .eq ↔ left = right := by
  induction left generalizing right with
  | nil =>
    cases right with
    | nil => exact iff_of_true rfl rfl
    | cons b right => exact iff_of_false nofun nofun
  | cons a left ih =>
    cases right with
    | nil => exact iff_of_false nofun nofun
    | cons b right =>
      rw [strcmp_cons, List.cons.injEq, ← ih, BitVec.toNat_inj.symm]
      split
      · simp
        omega
      · split
        · simp
          omega
        · simp
          omega

theorem strcmp_gt_iff : strcmp left right = .gt ↔ strcmp right left = .lt := by
  induction left generalizing right with
  | nil => cases right <;> exact iff_of_false nofun nofun
  | cons a left ih =>
    cases right with
    | nil => exact iff_of_true rfl rfl
    | cons b right =>
      rw [strcmp_cons, strcmp_cons]
      rcases Nat.lt_trichotomy a.toNat b.toNat with hlt | heq | hgt
      · simp [hlt, Nat.lt_asymm hlt]
      · simp [heq, ih]
      · simp [hgt, Nat.lt_asymm hgt]

theorem strcmp_cons_lt {a b : Byte} :
    strcmp (a :: left) (b :: right) = .lt ↔ a.toNat < b.toNat ∨ a.toNat = b.toNat ∧ strcmp left right = .lt := by
  rw [strcmp_cons]
  rcases Nat.lt_trichotomy a.toNat b.toNat with hlt | heq | hgt
  · simp [hlt]
  · simp [heq]
  · simp [hgt, Nat.lt_asymm hgt, hgt.ne']

theorem strcmp_lt_trans (hleft : strcmp left right = .lt) (hright : strcmp right other = .lt) :
    strcmp left other = .lt := by
  induction left generalizing right other with
  | nil =>
    cases other with
    | nil => cases right <;> cases hright
    | cons c other => rfl
  | cons a left ih =>
    cases right with
    | nil => cases hleft
    | cons b right =>
      cases other with
      | nil => cases hright
      | cons c other =>
        rw [strcmp_cons_lt] at hleft hright ⊢
        rcases hleft with hab | ⟨hab, hleft⟩
        · rcases hright with hbc | ⟨hbc, -⟩
          · exact Or.inl (hab.trans hbc)
          · exact Or.inl (hbc ▸ hab)
        · rcases hright with hbc | ⟨hbc, hright⟩
          · exact Or.inl (hab ▸ hbc)
          · exact Or.inr ⟨hab.trans hbc, ih hleft hright⟩

end Comparisons

section Folders

variable {archive : Archive} {height : Nat → Nat} {index : Nat} {entry : Entry}

theorem children_eq (hentry : archive.entries[index]? = some entry) :
    children archive index = List.range' entry.virtFlags entry.physFlags := by
  rw [children, hentry]

theorem isFolder_eq (hentry : archive.entries[index]? = some entry) : isFolder archive index = entry.isDirectory := by
  rw [isFolder, hentry]
  rfl

theorem WellFormed.entryName_eq (hwell : WellFormed archive height) (hindex : index < archive.entries.length) :
    entryName archive index = some (nameOf archive index) := by
  have hentry := List.getElem?_eq_getElem hindex
  obtain ⟨name, hname⟩ := hwell.named _ (List.getElem_mem hindex)
  have heq : entryName archive index = some name := by
    rw [entryName, hentry]
    exact hname
  rw [nameOf, heq, Option.getD_some]

theorem WellFormed.lt_length (hwell : WellFormed archive height) (hentry : archive.entries[index]? = some entry)
    (hfolder : entry.isDirectory) {next : Nat} (hnext : next ∈ children archive index) :
    next < archive.entries.length := by
  rw [children_eq hentry, List.mem_range'_1] at hnext
  exact hnext.2.trans_le (hwell.range entry (List.mem_of_getElem? hentry) hfolder)

/-- The names of a folder are in the order of its entries. -/
theorem WellFormed.strcmp_lt (hwell : WellFormed archive height) (hentry : archive.entries[index]? = some entry)
    (hfolder : entry.isDirectory) {i j : Nat} (hij : i < j) (hj : j < entry.physFlags) :
    strcmp (nameOf archive (entry.virtFlags + i)) (nameOf archive (entry.virtFlags + j)) = .lt := by
  have hsorted := hwell.sorted index (by rwa [isFolder_eq hentry])
  rw [children_eq hentry, List.pairwise_iff_getElem] at hsorted
  have hlt := hsorted i j (by rw [List.length_range']; omega) (by rwa [List.length_range']) hij
  simpa only [List.getElem_range', one_mul] using hlt

theorem findIgnoringCase_eq {compName : Text} {count : Nat}
    (hread : ∀ next ∈ List.range' index count, entryName archive next = some (nameOf archive next)) :
    findIgnoringCase archive compName count index =
      some ((List.range' index count).find? fun child => stricmp compName (nameOf archive child)) := by
  induction count generalizing index with
  | zero => rfl
  | succ count ih =>
    rw [findIgnoringCase, List.range'_succ, List.find?_cons, hread index (by simp)]
    cases hname : stricmp compName (nameOf archive index) with
    | true => simp [hname]
    | false =>
      have hrest := ih fun next hnext => hread next (by rw [List.range'_succ]; exact List.mem_cons_of_mem _ hnext)
      simp [hname, hrest]

theorem WellFormed.partitioned (hwell : WellFormed archive height) (hentry : archive.entries[index]? = some entry)
    (hfolder : entry.isDirectory) (key : Text) :
    BinarySearch.Partitioned (fun idx => strcmp key (nameOf archive (entry.virtFlags + idx))) 0 entry.physFlags where
  lt i j _ hij hj hkey := by
    rcases hij.eq_or_lt with rfl | hij
    · exact hkey
    · exact strcmp_lt_trans hkey (hwell.strcmp_lt hentry hfolder hij hj)
  gt i j _ hij hj hkey := by
    rcases hij.eq_or_lt with rfl | hij
    · exact hkey
    · rw [strcmp_gt_iff] at hkey ⊢
      exact strcmp_lt_trans (hwell.strcmp_lt hentry hfolder hij hj) hkey

/-- The search in a folder ends, within the entries and their names, with the child. -/
theorem WellFormed.findChild_eq (hwell : WellFormed archive height) (hentry : archive.entries[index]? = some entry)
    (hfolder : entry.isDirectory) (key : Text) :
    findChild archive entry key = some (child archive index (cStr key)) := by
  have hread (next : Nat) (hnext : next ∈ List.range' entry.virtFlags entry.physFlags) :
      entryName archive next = some (nameOf archive next) :=
    hwell.entryName_eq (hwell.lt_length hentry hfolder (by rwa [children_eq hentry]))
  have hsearch : ∃ found, BinarySearch.search
      (fun idx => (entryName archive (entry.virtFlags + idx)).map (strcmp (cStr key))) entry.physFlags 0
        entry.physFlags =
      some found ∧ _ :=
    BinarySearch.search_spec (by omega) (fun i _ hi => by rw [hread _ (by rw [List.mem_range'_1]; omega)]; rfl)
      (hwell.partitioned hentry hfolder (cStr key))
  obtain ⟨found, hfound, hsome, hnone⟩ := hsearch
  rw [findChild, hfound, child, children_eq hentry]
  cases found with
  | none =>
    have hexact : (List.range' entry.virtFlags entry.physFlags).find? (fun child => nameOf archive child = cStr key) =
      none := by
      refine List.find?_eq_none.mpr fun next hnext => ?_
      obtain ⟨hlow, hhigh⟩ := List.mem_range'_1.mp hnext
      have hne := hnone rfl (next - entry.virtFlags) (Nat.zero_le _) (by omega)
      rw [Ne, strcmp_eq_iff, Nat.add_sub_cancel' hlow] at hne
      simpa using Ne.symm hne
    rw [hexact, Option.none_or]
    exact findIgnoringCase_eq hread
  | some idx =>
    obtain ⟨-, hidx, hname⟩ := hsome idx rfl
    rw [strcmp_eq_iff] at hname
    have hexact : (List.range' entry.virtFlags entry.physFlags).find? (fun child => nameOf archive child = cStr key) =
        some (entry.virtFlags + idx) := by
      rw [List.find?_range'_eq_some]
      refine ⟨by simp [hname], by rw [List.mem_range'_1]; omega, fun other hlow hother => ?_⟩
      have hlt := hwell.strcmp_lt hentry hfolder (i := other - entry.virtFlags) (j := idx) (by omega) hidx
      rw [Nat.add_sub_cancel' hlow, ← hname] at hlt
      simp only [Bool.not_eq_true', decide_eq_false_iff_not]
      rintro heq
      rw [heq, strcmp_eq_iff.mpr rfl] at hlt
      cases hlt
    rw [hexact]
    rfl

end Folders

section Paths

variable {text part rest : Text} {pos : Nat}

theorem components_append (part rest : Text) :
    components (part ++ slash :: rest) = components part ++ components rest := by
  rw [components, List.splitOn_append_cons_self, List.filter_append, List.map_append]
  rfl

theorem components_part (hslash : slash ∉ part) (hne : part ≠ []) : components part = [cStr part] := by
  rw [components, List.splitOn_eq_singleton hslash]
  simp [hne]

theorem components_dropWhile (text : Text) : components (text.dropWhile (· = slash)) = components text := by
  induction text with
  | nil => rfl
  | cons c text ih =>
    rw [List.dropWhile_cons]
    split
    · rename_i hc
      obtain rfl : c = slash := by simpa using hc
      rw [ih]
      exact (components_append [] text).symm
    · rfl

/-- The characters that `skipSlashes` passes over are slashes, and the next one is none. -/
theorem skipSlashes_eq (hpos : pos ≤ text.length) :
    ∃ next, skipSlashes text pos = some next ∧ next ≤ text.length ∧
      text.drop next = (text.drop pos).dropWhile (· = slash) := by
  have hlength := (List.takeWhile_prefix (fun c : Byte => decide (c = slash)) (l := text.drop pos)).length_le
  rw [List.length_drop] at hlength
  refine ⟨_, if_pos hpos, by omega, ?_⟩
  have hsplit := List.takeWhile_append_dropWhile (p := fun c : Byte => decide (c = slash)) (l := text.drop pos)
  calc text.drop (pos + ((text.drop pos).takeWhile (· = slash)).length)
      = (text.drop pos).drop ((text.drop pos).takeWhile (· = slash)).length := (List.drop_drop).symm
    _ = ((text.drop pos).takeWhile (· = slash) ++ (text.drop pos).dropWhile (· = slash)).drop
          ((text.drop pos).takeWhile (· = slash)).length := by rw [hsplit]
    _ = (text.drop pos).dropWhile (· = slash) := List.drop_left

theorem head?_dropWhile_ne (text : Text) : (text.dropWhile (· = slash)).head? ≠ some slash := by
  intro h
  have hfalse := List.head?_dropWhile_not (fun c : Byte => decide (c = slash)) text
  rw [h] at hfalse
  simp at hfalse

/-- The part of the path at a position, and the position after it. Where a slash follows the part, the next part is
there. -/
theorem step_pos (hpos : pos ≤ text.length) :
    ∃ key next, substr text pos (findSlash text pos) = some key ∧
      skipSlashes text (afterPos (findSlash text pos)) = some next ∧
      next ≤ text.length ∧ slash ∉ key ∧
      (slash ∈ text.drop pos → components (text.drop pos) = components key ++ components (text.drop next) ∧
        (text.drop next).head? ≠ some slash ∧ (key = [] → (text.drop pos).head? = some slash)) ∧
      (slash ∉ text.drop pos → key = text.drop pos) := by
  by_cases hmem : slash ∈ text.drop pos
  · obtain ⟨part, rest, hdrop, hslash⟩ := List.eq_append_cons_of_mem hmem
    have hlength := congrArg List.length hdrop
    rw [List.length_drop, List.length_append, List.length_cons] at hlength
    have hfind : findSlash text pos = some (pos + part.length) := by
      rw [findSlash, hdrop, if_pos (by simp), List.idxOf_append_of_notMem hslash, List.idxOf_cons_self]
      rfl
    have hkey : substr text pos (some (pos + part.length)) = some part := by
      rw [substr, if_pos (by omega), Nat.add_sub_cancel_left, hdrop, List.take_left]
    have hrest : text.drop (pos + part.length + 1) = rest := by
      rw [add_assoc, ← List.drop_drop, hdrop, List.append_cons]
      exact List.drop_left' (by simp)
    have hafter : pos + part.length + 1 ≤ text.length := by omega
    obtain ⟨next, hskip, hnext, hsuffix⟩ := skipSlashes_eq hafter
    rw [hrest] at hsuffix
    refine ⟨part, next, by rw [hfind, hkey], by rw [hfind]; exact hskip, hnext, hslash, fun _ => ⟨?_, ?_,
      ?_⟩, absurd hmem⟩
    · rw [hdrop, components_append, hsuffix, components_dropWhile]
    · rw [hsuffix]
      exact head?_dropWhile_ne rest
    · rintro rfl
      rw [hdrop]
      rfl
  · obtain ⟨next, hskip, hnext, -⟩ := skipSlashes_eq (Nat.zero_le text.length)
    have hfind : findSlash text pos = none := if_neg hmem
    exact ⟨text.drop pos, next, by rw [hfind, substr, if_pos hpos], by rw [hfind]; exact hskip, hnext, hmem,
      fun h => absurd h hmem, fun _ => rfl⟩

end Paths

section Walks

variable {archive : Archive} {height : Nat → Nat} {text : Text} {index pos fuel : Nat} {nextPos : Option Nat}

theorem child_mem {component : Text} {next : Nat} (hchild : child archive index component = some next) :
    next ∈ children archive index := by
  rw [child, Option.or_eq_some_iff] at hchild
  rcases hchild with hchild | ⟨-, hchild⟩ <;> exact List.mem_of_find?_eq_some hchild

theorem walk_file (hindex : index < archive.entries.length) (hfile : isFolder archive index = false) :
    walk archive text (fuel + 1) index pos nextPos = some (some index) := by
  have hentry := List.getElem?_eq_getElem hindex
  rw [isFolder_eq hentry] at hfile
  unfold walk
  simp only [hentry, Option.bind_eq_bind, Option.bind_some, hfile, Bool.false_eq_true, if_false]

/-- In a folder the walk goes on with the child. -/
theorem WellFormed.walk_folder (hwell : WellFormed archive height) (hindex : index < archive.entries.length)
    (hfolder : isFolder archive index) {key : Text} {next : Nat} (hkey : substr text pos nextPos = some key)
    (hskip : skipSlashes text (afterPos nextPos) = some next) :
    walk archive text (fuel + 1) index pos nextPos =
      match child archive index (cStr key) with
      | some index => walk archive text fuel index next (findSlash text next)
      | none => some none := by
  have hentry := List.getElem?_eq_getElem hindex
  rw [isFolder_eq hentry] at hfolder
  have hfound := hwell.findChild_eq hentry hfolder key
  cases hchild : child archive index (cStr key) with
  | none =>
    rw [hchild] at hfound
    conv_lhs => unfold walk
    simp only [hentry, Option.bind_eq_bind, Option.bind_some, hfolder, if_true, hkey, hskip, hfound]
  | some next =>
    rw [hchild] at hfound
    conv_lhs => unfold walk
    simp only [hentry, Option.bind_eq_bind, Option.bind_some, hfolder, if_true, hkey, hskip, hfound]

/-- The walk ends, within the path, the entries and the names. What it finds is never a folder. -/
theorem WellFormed.walk_ends (hwell : WellFormed archive height) (hindex : index < archive.entries.length)
    (hpos : pos ≤ text.length) (hfuel : height index < fuel) :
    ∃ found, walk archive text fuel index pos (findSlash text pos) = some found ∧
      ∀ next ∈ found, isFolder archive next = false := by
  induction fuel generalizing index pos with
  | zero => exact absurd hfuel (Nat.not_lt_zero _)
  | succ fuel ih =>
    cases hfolder : isFolder archive index with
    | false => exact ⟨some index, walk_file hindex hfolder, by rintro next ⟨⟩; exact hfolder⟩
    | true =>
      obtain ⟨key, next, hkey, hskip, hnext, -⟩ := step_pos hpos
      rw [hwell.walk_folder hindex hfolder hkey hskip]
      cases hchild : child archive index (cStr key) with
      | none => exact ⟨none, rfl, by simp⟩
      | some other =>
        have hentry := List.getElem?_eq_getElem hindex
        have hlower := hwell.lower index hfolder other (child_mem hchild)
        exact ih (hwell.lt_length hentry (by rwa [← isFolder_eq hentry]) (child_mem hchild)) hnext (by omega)

/-- The walk follows the parts of the path, unless they lead to a folder. -/
theorem WellFormed.walk_follow (hwell : WellFormed archive height) {parts : List Text}
    (hindex : index < archive.entries.length) (hpos : pos ≤ text.length) (hhead : (text.drop pos).head? ≠ some slash)
    (hparts : components (text.drop pos) = parts)
    (hfuel : parts.length < fuel) (hfile : ∀ next ∈ follow archive index parts, isFolder archive next = false) :
    walk archive text fuel index pos (findSlash text pos) = some (follow archive index parts) := by
  induction parts generalizing index pos fuel with
  | nil =>
    obtain ⟨fuel, rfl⟩ := Nat.exists_eq_succ_of_ne_zero (Nat.ne_zero_of_lt hfuel)
    exact walk_file hindex (hfile index rfl)
  | cons part parts ih =>
    obtain ⟨fuel, rfl⟩ := Nat.exists_eq_succ_of_ne_zero (Nat.ne_zero_of_lt hfuel)
    rw [List.length_cons, Nat.succ_lt_succ_iff] at hfuel
    rw [follow] at hfile ⊢
    cases hfolder : isFolder archive index with
    | false => exact walk_file hindex hfolder
    | true =>
      simp only [hfolder, if_true] at hfile ⊢
      obtain ⟨key, next, hkey, hskip, hnext, hslash, hmore, hlast⟩ := step_pos hpos
      rw [hwell.walk_folder hindex hfolder hkey hskip]
      have hlength {other : Nat} (hother : child archive index (cStr key) = some other) :
        other < archive.entries.length :=
        hwell.lt_length (List.getElem?_eq_getElem hindex) (by rwa [← isFolder_eq (List.getElem?_eq_getElem hindex)])
          (child_mem hother)
      by_cases hmem : slash ∈ text.drop pos
      · obtain ⟨happend, hhead', hempty⟩ := hmore hmem
        rw [happend, components_part hslash fun h => hhead (hempty h), List.singleton_append,
          List.cons.injEq] at hparts
        obtain ⟨rfl, hrest⟩ := hparts
        cases hchild : child archive index (cStr key) with
        | none => rfl
        | some other =>
          rw [hchild] at hfile
          exact ih (hlength hchild) hnext hhead' hrest hfuel hfile
      · obtain rfl := hlast hmem
        have hne : text.drop pos ≠ [] := by
          intro h
          rw [h] at hparts
          cases hparts
        rw [components_part hslash hne, List.cons.injEq] at hparts
        obtain ⟨rfl, rfl⟩ := hparts
        cases hchild : child archive index (cStr (text.drop pos)) with
        | none => rfl
        | some other =>
          rw [hchild] at hfile
          obtain ⟨fuel, rfl⟩ := Nat.exists_eq_succ_of_ne_zero (Nat.ne_zero_of_lt hfuel)
          exact walk_file (hlength hchild) (hfile other rfl)

end Walks

section Lookups

variable {archive : Archive} {height : Nat → Nat} {fuel : Nat} {rest : Text}

theorem WellFormed.zero_lt_length (hwell : WellFormed archive height) : 0 < archive.entries.length := by
  by_contra hlength
  have hroot := hwell.root
  rw [isFolder, List.getElem?_eq_none (Nat.le_of_not_lt hlength)] at hroot
  cases hroot

/-- `FindEntry` for what follows the mount prefix and a slash. -/
theorem WellFormed.findEntry_eq (hwell : WellFormed archive height) (rest : Text) :
    ∃ pos, pos ≤ (slash :: rest).length ∧ ((slash :: rest).drop pos).head? ≠ some slash ∧
      components ((slash :: rest).drop pos) = components rest ∧ ∀ fuel,
        findEntry archive fuel (archive.pathPrefix ++ slash :: rest) =
          if rest = [] then some (some 0)
          else walk archive (slash :: rest) fuel 0 pos (findSlash (slash :: rest) pos) := by
  have hlength : 1 ≤ (slash :: rest).length := by simp
  obtain ⟨pos, hskip, hpos, hdrop⟩ := skipSlashes_eq hlength
  rw [List.drop_succ_cons, List.drop_zero] at hdrop
  refine ⟨pos, hpos, by rw [hdrop]; exact head?_dropWhile_ne rest, by rw [hdrop, components_dropWhile], fun fuel => ?_⟩
  have hentries : archive.entries ≠ [] := List.ne_nil_of_length_pos hwell.zero_lt_length
  have hbound : ¬ (archive.pathPrefix ++ slash :: rest).length < archive.pathPrefix.length := by simp
  rw [findEntry, if_neg (not_or.mpr ⟨hbound, hentries⟩), List.drop_left]
  simp only [hskip, Option.bind_eq_bind, Option.bind_some, List.cons.injEq, true_and]

theorem WellFormed.findEntry_ends (hwell : WellFormed archive height) (hfuel : height 0 < fuel) :
    ∃ found, findEntry archive fuel (archive.pathPrefix ++ slash :: rest) = some found ∧
      (rest ≠ [] → ∀ next ∈ found, isFolder archive next = false) := by
  obtain ⟨pos, hpos, -, -, hfind⟩ := hwell.findEntry_eq rest
  rw [hfind]
  by_cases hrest : rest = []
  · exact ⟨some 0, if_pos hrest, fun h => absurd hrest h⟩
  · obtain ⟨found, hfound, hfile⟩ := hwell.walk_ends hwell.zero_lt_length hpos hfuel
    exact ⟨found, by rw [if_neg hrest, hfound], fun _ => hfile⟩

theorem WellFormed.findEntry_follow (hwell : WellFormed archive height) (hfuel : (components rest).length < fuel)
    (hfile : rest ≠ [] → ∀ next ∈ follow archive 0 (components rest), isFolder archive next = false) :
    findEntry archive fuel (archive.pathPrefix ++ slash :: rest) = some (follow archive 0 (components rest)) := by
  obtain ⟨pos, hpos, hhead, hparts, hfind⟩ := hwell.findEntry_eq rest
  rw [hfind]
  by_cases hrest : rest = []
  · subst hrest
    rfl
  · rw [if_neg hrest, hwell.walk_follow hwell.zero_lt_length hpos hhead hparts hfuel (hfile hrest)]

end Lookups

section Enumerations

variable {archive : Archive} {height : Nat → Nat} {handles : List HandleData} {handle fuel : Nat} {entry : Entry}

theorem findNext_eq {curOffset : Nat} (hhandle : handles[handle]? = some ⟨true, entry, curOffset⟩) :
    findNext archive handles handle =
      if !entry.isDirectory || entry.physFlags ≤ curOffset + 1 then
        some (handles.set handle ⟨true, entry, curOffset + 1⟩, none)
      else (fillFindData archive (entry.virtFlags + (curOffset + 1))).map fun findData =>
        (handles.set handle ⟨true, entry, curOffset + 1⟩, some findData) := by
  have hvalid : (some (HandleData.mk true entry curOffset)).filter HandleData.valid =
    some ⟨true, entry, curOffset⟩ := rfl
  rw [findNext, hhandle, hvalid]
  dsimp only
  cases fillFindData archive (entry.virtFlags + (curOffset + 1)) <;> rfl

/-- The calls of `FindNext` yield the entries after the one that the handle is at. -/
theorem findRest_eq (hfolder : entry.isDirectory) (count curOffset : Nat)
    (hcount : curOffset + 1 + count = entry.physFlags) (hfuel : count < fuel)
    (hhandle : handles[handle]? = some ⟨true, entry, curOffset⟩) :
    findRest archive fuel handles handle =
      (List.range' (entry.virtFlags + (curOffset + 1)) count).mapM (fillFindData archive) := by
  induction count generalizing curOffset handles fuel with
  | zero =>
    obtain ⟨fuel, rfl⟩ := Nat.exists_eq_succ_of_ne_zero (Nat.ne_zero_of_lt hfuel)
    have hlast : (!entry.isDirectory || decide (entry.physFlags ≤ curOffset + 1)) = true := by
      simp [← hcount]
    rw [findRest, findNext_eq hhandle, if_pos hlast]
    rfl
  | succ count ih =>
    obtain ⟨fuel, rfl⟩ := Nat.exists_eq_succ_of_ne_zero (Nat.ne_zero_of_lt hfuel)
    have hmore : ¬ (!entry.isDirectory || decide (entry.physFlags ≤ curOffset + 1)) = true := by
      simp [hfolder]
      omega
    rw [findRest, findNext_eq hhandle, if_neg hmore, List.range'_succ, List.mapM_cons]
    cases hdata : fillFindData archive (entry.virtFlags + (curOffset + 1)) with
    | none => rfl
    | some findData =>
      have hset : (handles.set handle ⟨true, entry, curOffset + 1⟩)[handle]? = some ⟨true, entry, curOffset + 1⟩ := by
        rw [List.getElem?_set_self]
        exact (List.getElem?_eq_some_iff.mp hhandle).1
      have hrest := ih (curOffset + 1) (by omega) (Nat.lt_of_succ_lt_succ hfuel) hset
      simp only [Option.map_some, Option.bind_eq_bind, Option.bind_some, hrest]
      rw [add_assoc]
      cases (List.range' (entry.virtFlags + (curOffset + 1 + 1)) count).mapM (fillFindData archive) <;> rfl

variable {index : Nat} {path rest : Text}

theorem mapM_eq_some {f : Nat → Option FindData} (indices : List Nat)
    (hf : ∀ index ∈ indices, ∃ data, f index = some data) :
    ∃ data, indices.mapM f = some data ∧ data.length = indices.length := by
  induction indices with
  | nil => exact ⟨[], rfl, rfl⟩
  | cons index indices ih =>
    obtain ⟨first, hfirst⟩ := hf index (by simp)
    obtain ⟨data, hdata, hlength⟩ := ih fun next hnext => hf next (List.mem_cons_of_mem _ hnext)
    exact ⟨first :: data, by rw [List.mapM_cons, hfirst, hdata]; rfl, by simp [hlength]⟩

theorem WellFormed.fillFindData_eq (hwell : WellFormed archive height) (hindex : index < archive.entries.length) :
    ∃ data, fillFindData archive index = some data := by
  have hentry := List.getElem?_eq_getElem hindex
  obtain ⟨name, hname⟩ := hwell.named _ (List.getElem_mem hindex)
  exact ⟨_, by simp only [fillFindData, hentry, Option.bind_eq_bind, Option.bind_some, hname]; rfl⟩

theorem WellFormed.mapM_children (hwell : WellFormed archive height) (hentry : archive.entries[index]? = some entry)
    (hfolder : entry.isDirectory) :
    ∃ data, (children archive index).mapM (fillFindData archive) = some data ∧
      data.length = (children archive index).length :=
  mapM_eq_some _ fun _ hnext => hwell.fillFindData_eq (hwell.lt_length hentry hfolder hnext)

theorem findAll_noHandle (hfound : findEntry archive fuel path = some (some index))
    (hentry : archive.entries[index]? = some entry) (hnone : allocateHandle handles = none) :
    findAll archive fuel handles path = some [] := by
  simp only [findAll, findFirst, hfound, hentry, hnone, Option.bind_eq_bind, Option.bind_some]

theorem getElem?_set_allocated (hhandle : allocateHandle handles = some handle) (handleData : HandleData) :
    (handles.set handle handleData)[handle]? = some handleData :=
  List.getElem?_set_self (List.findIdx?_eq_some_iff_getElem.mp hhandle).1

theorem findAll_folder (hfound : findEntry archive fuel path = some (some index))
    (hentry : archive.entries[index]? = some entry) (hfolder : entry.isDirectory) (hchildren : entry.physFlags ≠ 0)
    (hfuel : entry.physFlags ≤ fuel) (hhandle : allocateHandle handles = some handle) :
    findAll archive fuel handles path = (children archive index).mapM (fillFindData archive) := by
  obtain ⟨count, hcount⟩ := Nat.exists_eq_succ_of_ne_zero hchildren
  have hfirst : (entry.isDirectory && decide (entry.physFlags ≠ 0)) = true := by simp [hfolder, hchildren]
  have hrest : findRest archive fuel (handles.set handle ⟨true, entry, 0⟩) handle = _ :=
    findRest_eq hfolder count 0 (by omega) (by omega) (getElem?_set_allocated hhandle ⟨true, entry, 0⟩)
  rw [children_eq hentry, hcount, List.range'_succ, List.mapM_cons]
  simp only [findAll, findFirst, hfound, hentry, hhandle, hfirst, if_true, Option.bind_eq_bind, Option.bind_some]
  cases fillFindData archive entry.virtFlags with
  | none => rfl
  | some data =>
    simp only [Option.bind_some, hrest]
    cases (List.range' (entry.virtFlags + (0 + 1)) count).mapM (fillFindData archive) <;> rfl

/-- Of an empty folder `FindFirst` yields the entry itself, as it does of a file. -/
theorem findAll_empty (hfound : findEntry archive fuel path = some (some index))
    (hentry : archive.entries[index]? = some entry) (hchildren : entry.physFlags = 0) (hfuel : 0 < fuel)
    (hhandle : allocateHandle handles = some handle) :
    findAll archive fuel handles path = (fillFindData archive index).map fun findData => [findData] := by
  obtain ⟨fuel, rfl⟩ := Nat.exists_eq_succ_of_ne_zero hfuel.ne'
  have hfirst : (entry.isDirectory && decide (entry.physFlags ≠ 0)) = false := by simp [hchildren]
  have hlast : (!entry.isDirectory || decide (entry.physFlags ≤ 0 + 1)) = true := by simp [hchildren]
  simp only [findAll, findFirst, hfound, hentry, hhandle, hfirst, Bool.false_eq_true, if_false, Option.bind_eq_bind,
    Option.bind_some]
  cases fillFindData archive index with
  | none => rfl
  | some data =>
    simp only [Option.bind_some, Option.map_some, findRest,
      findNext_eq (getElem?_set_allocated hhandle ⟨true, entry, 0⟩), hlast, if_true, Option.bind_eq_bind]

end Enumerations

section Agreement

variable {archive : Archive} {height : Nat → Nat}

/-- `FindEntry` ends with the entry that the path leads to. Where that is a folder, `FindFirst` and `FindNext` yield
its entries, each one once. -/
structure Agrees (archive : Archive) (handles : List HandleData) (rest : Text) : Prop where
  found : ∃ enough, ∀ fuel, enough ≤ fuel →
    findEntry archive fuel (archive.pathPrefix ++ slash :: rest) = some (follow archive 0 (components rest))
  listed : ∀ folder ∈ follow archive 0 (components rest), isFolder archive folder → ∃ enough, ∀ fuel, enough ≤ fuel →
    findAll archive fuel handles (archive.pathPrefix ++ slash :: rest) =
      (children archive folder).mapM (fillFindData archive)

/-- The mount itself is listed when it has entries and a handle is free. -/
theorem WellFormed.agrees_mount (hwell : WellFormed archive height) (handles : List HandleData) :
    Agrees archive handles [] ↔ (children archive 0 ≠ [] ↔ allocateHandle handles ≠ none) := by
  obtain ⟨entry, hentry⟩ : ∃ entry, archive.entries[0]? = some entry :=
    ⟨_, List.getElem?_eq_getElem hwell.zero_lt_length⟩
  have hfolder : entry.isDirectory = true := (isFolder_eq hentry).symm.trans hwell.root
  have hfound (fuel : Nat) : findEntry archive fuel (archive.pathPrefix ++ [slash]) = some (some 0) := by
    obtain ⟨pos, -, -, -, hfind⟩ := hwell.findEntry_eq []
    exact hfind fuel
  have hnil : children archive 0 = [] ↔ entry.physFlags = 0 := by
    rw [children_eq hentry, List.range'_eq_nil_iff]
  constructor
  · rintro ⟨-, hlisted⟩
    obtain ⟨enough, hall⟩ := hlisted 0 rfl hwell.root
    have hall := hall (enough + 1) (by omega)
    obtain ⟨data, hdata, hlength⟩ := hwell.mapM_children hentry hfolder
    constructor
    · intro hchildren hnone
      rw [findAll_noHandle (hfound _) hentry hnone, hdata, Option.some.injEq] at hall
      rw [← hall] at hlength
      exact hchildren (List.length_eq_zero_iff.mp hlength.symm)
    · intro hfree hchildren
      obtain ⟨handle, hhandle⟩ := Option.ne_none_iff_exists'.mp hfree
      rw [findAll_empty (hfound _) hentry (hnil.mp hchildren) (by omega) hhandle, hdata] at hall
      obtain ⟨first, -, rfl⟩ := Option.map_eq_some_iff.mp hall
      rw [hchildren] at hlength
      cases hlength
  · intro hiff
    refine ⟨⟨0, fun fuel _ => hfound fuel⟩, ?_⟩
    rintro folder ⟨⟩ -
    refine ⟨entry.physFlags, fun fuel hfuel => ?_⟩
    cases hhandle : allocateHandle handles with
    | none =>
      have hchildren : children archive 0 = [] := by
        by_contra hne
        exact hiff.mp hne hhandle
      rw [findAll_noHandle (hfound _) hentry hhandle, hchildren]
      rfl
    | some handle =>
      have hchildren := hiff.mpr (by simp [hhandle])
      exact findAll_folder (hfound _) hentry hfolder (fun h => hchildren (hnil.mpr h)) hfuel hhandle

/-- A walk that comes to a folder at the end of the path starts over in it: only the mount itself is found as a
folder. -/
theorem WellFormed.agrees_iff (hwell : WellFormed archive height) (handles : List HandleData) (rest : Text) :
    (∃ enough, ∀ fuel, enough ≤ fuel → ∃ found,
      findEntry archive fuel (archive.pathPrefix ++ slash :: rest) = some found) ∧
      (Agrees archive handles rest ↔
        if rest = [] then (children archive 0 ≠ [] ↔ allocateHandle handles ≠ none)
        else ∀ entry ∈ follow archive 0 (components rest), isFolder archive entry = false) := by
  refine ⟨⟨height 0 + 1, fun fuel hfuel => (hwell.findEntry_ends hfuel).imp fun _ h => h.1⟩, ?_⟩
  by_cases hrest : rest = []
  · subst hrest
    exact hwell.agrees_mount handles
  · rw [if_neg hrest]
    constructor
    · rintro ⟨⟨enough, hfound⟩, -⟩
      have hends : ∃ found, findEntry archive (max enough (height 0 + 1)) (archive.pathPrefix ++ slash :: rest) =
          some found ∧ _ := hwell.findEntry_ends (by omega)
      obtain ⟨found, hfind, hfile⟩ := hends
      rw [hfound _ (by omega), Option.some.injEq] at hfind
      exact hfind ▸ hfile hrest
    · intro hfile
      refine ⟨⟨(components rest).length + 1, fun fuel hfuel => hwell.findEntry_follow hfuel fun _ => hfile⟩, ?_⟩
      intro folder hfolder hdirectory
      rw [hfile folder hfolder] at hdirectory
      cases hdirectory

/-- A mount with the empty folder `a` and the file `b`. -/
def sampleArchive : Archive where
  pathPrefix := [114, 58]
  entries := [⟨0, 0, 0x7fffff, 1, 2⟩, ⟨1, 0, 0x7fffff, 3, 0⟩, ⟨3, 10, 8, 10, 0⟩]
  nameTable := [0, 97, 0, 98, 0]

/-- The handles before any is in use. -/
def freeHandles : List HandleData := List.replicate 32 ⟨false, ⟨0, 0, 0, 0, 0⟩, 0⟩

theorem wellFormed_sample : WellFormed sampleArchive fun index => if index = 0 then 1 else 0 where
  root := by decide
  named := by
    have hnamed : ∀ entry ∈ sampleArchive.entries, (readName sampleArchive.nameTable entry.nameOffset).isSome :=
      by decide
    exact fun entry hentry => Option.isSome_iff_exists.mp (hnamed entry hentry)
  range := by decide
  lower
    | 0, _ => by decide
    | 1, _ => by decide
    | 2, hfolder => absurd hfolder (by decide)
    | _ + 3, hfolder => absurd hfolder Bool.false_ne_true
  sorted
    | 0, _ => by decide
    | 1, _ => by decide
    | 2, hfolder => absurd hfolder (by decide)
    | _ + 3, hfolder => absurd hfolder Bool.false_ne_true

/-- The walk for the folder `a` goes on in it, for another `a`. -/
theorem not_agrees_folder : ¬ Agrees sampleArchive freeHandles [97] := by
  rintro ⟨⟨enough, hfound⟩, -⟩
  have hends : ∃ found, findEntry sampleArchive (max enough 2) (sampleArchive.pathPrefix ++ slash :: [97]) =
      some found ∧ _ := wellFormed_sample.findEntry_ends (by simp)
  obtain ⟨found, hfind, hfile⟩ := hends
  rw [hfound _ (by omega), Option.some.injEq] at hfind
  exact absurd (hfile (by simp) 1 (hfind ▸ by decide)) (by decide)

theorem agrees_file : Agrees sampleArchive freeHandles [98] := by
  refine (wellFormed_sample.agrees_iff _ _).2.mpr ?_
  decide

end Agreement

end vfs.RagePackfile7
