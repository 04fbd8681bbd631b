import Citizen.Lib.Transition
import Citizen.Resources.FileDatabase

open Bits Transition

namespace fx.ResourceFiles

/-- What the packfile on disk is. -/
inductive Packfile
  | missing
  /-- It was not written to the end. -/
  | broken
  /-- It was written from these files. -/
  | written (files : List (Name × File))
  deriving DecidableEq

/-- Where `BuildResourceSet` is. -/
inductive Phase
  | idle
  | snapshot (fileSet todo : List Name) (database : Database)
  /-- `Save` creates the database, and then writes it. -/
  | save (fileSet : List Name) (database : Database)
  | saveWrite (fileSet : List Name) (database : Database)
  /-- `AddFile` of the packfile, for each file. -/
  | add (todo added : List Name)
  /-- `Write` creates the packfile, and then writes the files, while no write has failed. -/
  | create (added : List Name)
  | write (todo : List Name) (files : List (Name × File)) (complete : Bool)
  /-- A file is open, and has changed since or not. -/
  | read (name : Name) (changed : Bool) (todo : List Name) (files : List (Name × File)) (complete : Bool)

def Phase.isIdle : Phase → Bool
  | .idle => true
  | _ => false

/-- A file that is open is noted to have changed. -/
def Phase.noteChange (name : Name) : Phase → Phase
  | .read opened changed todo files complete => .read opened (changed || decide (opened = name)) todo files complete
  | phase => phase

/-- The resource and the disk. Files change, steps fail and are interrupted between the steps of
`BuildResourceSet`. -/
structure Resource where
  /-- `GetFilesForSet`. -/
  fileNames : List Name := []
  files : Files := fun _ => none
  /-- The database file, if `Load` can read it. -/
  database : Option Database := none
  packfile : Packfile := .missing
  phase : Phase := .idle

/-- What happens to the files, and to the build. -/
inductive Action
  /-- A file changes, appears or goes away. -/
  | change (name : Name) (file : Option File)
  /-- The metadata names other files. -/
  | setFileNames (fileNames : List Name)
  /-- The resource starts. -/
  | start
  /-- The build takes its next step. -/
  | proceed
  /-- The file that was open while it changed is read. -/
  | readChanged (file : File)
  /-- `Create` fails. -/
  | failCreate
  /-- A write fails. -/
  | failWrite
  /-- The build does not go on. -/
  | interrupt

namespace Resource

variable (resource : Resource)

/-- `ShouldBuildSet`. -/
def shouldBuildSet : Bool :=
  if resource.packfile = .missing then true
  else
    match resource.database with
    | none => true
    | some database => database.check resource.fileNames resource.files

/-- The next step of `BuildResourceSet`. -/
def proceed : Option Resource :=
  match resource.phase with
  | .idle => none
  | .snapshot fileSet (name :: todo) database =>
    some { resource with phase := .snapshot fileSet todo (database.emplace name (getEntry resource.files name)) }
  | .snapshot fileSet [] database => some { resource with phase := .save fileSet database }
  | .save fileSet database => some { resource with database := none, phase := .saveWrite fileSet database }
  | .saveWrite fileSet database => some { resource with database := some database, phase := .add fileSet [] }
  | .add (name :: todo) added =>
    some { resource with phase := .add todo (if (resource.files name).isSome then added ++ [name] else added) }
  | .add [] added => some { resource with phase := .create added }
  | .create added => some { resource with packfile := .broken, phase := .write added [] true }
  | .write (name :: todo) files complete =>
    -- a file that cannot be opened any longer is a null stream, and its length is asked for
    some { resource with
      phase := if (resource.files name).isSome then .read name false todo files complete else .idle }
  | .write [] files complete =>
    some { resource with packfile := if complete then .written files else .broken, phase := .idle }
  | .read name changed todo files complete =>
    if changed then none
    else (resource.files name).map fun file =>
      { resource with phase := .write todo (files ++ [(name, file)]) complete }

/-- `Save` returns false, and `BuildResourceSet` goes on. `Write` returns false. -/
def failCreate : Option Resource :=
  match resource.phase with
  | .save fileSet _ => some { resource with phase := .add fileSet [] }
  | .create _ => some { resource with phase := .idle }
  | _ => none

/-- What `Write` of a device returns is not looked at. -/
def failWrite : Option Resource :=
  match resource.phase with
  | .saveWrite fileSet _ => some { resource with phase := .add fileSet [] }
  | .write todo files _ => some { resource with phase := .write todo files false }
  | .read name changed todo files _ => some { resource with phase := .read name changed todo files false }
  | _ => none

/-- A step. A change changes the modification time, the size or the id of a file. -/
def step (resource : Resource) : Action → Option Resource
  | .change name file =>
    if Entry.of file ≠ getEntry resource.files name then
      some { resource with
        files := Function.update resource.files name file
        phase := Phase.noteChange name resource.phase }
    else none
  | .setFileNames fileNames => some { resource with fileNames }
  | .start =>
    match resource.phase with
    | .idle =>
      if resource.shouldBuildSet then
        some { resource with phase := .snapshot resource.fileNames.dedup resource.fileNames.dedup {} }
      else some resource
    | _ => none
  | .proceed => resource.proceed
  | .readChanged file =>
    match resource.phase with
    | .read name true todo files complete =>
      some { resource with phase := .write todo (files ++ [(name, file)]) complete }
    | _ => none
  | .failCreate => resource.failCreate
  | .failWrite => resource.failWrite
  | .interrupt => some { resource with phase := .idle }

/-- The packfile was completely written from exactly the current files, in their current states. -/
def Fresh : Prop := ∃ files, resource.packfile = .written files ∧
  ∀ name, lookup files name = if name ∈ resource.fileNames then resource.files name else none

/-- When `ShouldBuildSet` is called and returns false, the package is not stale. -/
def NotStale : Prop := resource.phase.isIdle = true → resource.shouldBuildSet = false → resource.Fresh

/-- The package that is on disk or being written: the files in it, and those that are still to be read. -/
def package : Option (List (Name × File) × List Name) :=
  match resource.phase with
  | .add todo added => some ([], added ++ todo)
  | .create added => some ([], added)
  | .write todo files _ => some (files, todo)
  | .read name _ todo files _ => some (files, name :: todo)
  | _ =>
    match resource.packfile with
    | .written files => some (files, [])
    | _ => none

/-- The database can not be read, or there is no packfile. -/
def Rebuilds : Prop := resource.database = none ∨ resource.packfile = .missing

/-- A step that cannot leave a stale package behind a database that fits the files. -/
def Allowed (resource : Resource) : Action → Prop
  -- a file does not get back the entry that the database has for it, unless the package has it in this state
  | .change name file => ∀ database files pending entry, resource.database = some database →
      resource.package = some (files, pending) → name ∉ pending → lookup database.entries name = some entry →
        Entry.of file = entry → file = lookup files name
  | .readChanged file =>
    match resource.phase with
    | .read name .. =>
      ∀ database entry, resource.database = some database → lookup database.entries name = some entry →
        getEntry resource.files name = entry → resource.files name = some file
    | _ => True
  -- the file that is to be read has not gone away
  | .proceed =>
    match resource.phase with
    | .write (name :: _) .. => resource.database = none ∨ (resource.files name).isSome
    | _ => True
  | .failCreate =>
    match resource.phase with
    -- an older database that stays has entries for all files of the set, and fits none that is not in the set
    | .save fileSet _ => ∀ database, resource.database = some database → (∀ name ∈ fileSet, name ∈ database.names) ∧
        ∀ name entry, name ∉ fileSet → lookup database.entries name = some entry →
          getEntry resource.files name = entry → resource.files name = none
    | .create _ => resource.Rebuilds
    | _ => True
  | .failWrite =>
    match resource.phase with
    | .write .. | .read .. => resource.database = none
    | _ => True
  | .interrupt =>
    match resource.phase with
    | .add .. | .create _ => resource.Rebuilds
    | .write .. | .read .. => resource.database = none
    | _ => True
  | .setFileNames _ | .start => True

/-- A package fits a database: of the files that were read, each one that has its entry is in the package in its
state. -/
structure Packing (current : Files) (database : Database) (files : List (Name × File))
    (pending : List Name) : Prop where
  nodup : pending.Nodup
  unread : ∀ name ∈ pending, name ∈ database.names ∧ lookup files name = none
  fits : ∀ name entry, name ∉ pending → lookup database.entries name = some entry → getEntry current name = entry →
    current name = lookup files name
  others : ∀ name, name ∉ database.names → lookup files name = none

/-- There is no packfile, or it fits the database. -/
def Fits : Prop := ∀ database, resource.database = some database →
  resource.packfile = .missing ∨ ∃ files, resource.packfile = .written files ∧ Packing resource.files database files []

/-- What holds between the steps. -/
def Inv : Prop :=
  match resource.phase with
  | .idle => resource.Fits
  | .snapshot fileSet todo database =>
    resource.Fits ∧ fileSet.Nodup ∧ ∀ name, name ∈ fileSet ↔ name ∈ database.names ∨ name ∈ todo
  | .save fileSet database => resource.Fits ∧ fileSet.Nodup ∧ ∀ name, name ∈ fileSet ↔ name ∈ database.names
  | .saveWrite fileSet database =>
    resource.database = none ∧ fileSet.Nodup ∧ ∀ name, name ∈ fileSet ↔ name ∈ database.names
  | .add todo added =>
    ∀ database, resource.database = some database → Packing resource.files database [] (added ++ todo)
  | .create added => ∀ database, resource.database = some database → Packing resource.files database [] added
  | .write todo files complete => ∀ database, resource.database = some database →
      complete = true ∧ Packing resource.files database files todo
  | .read name _ todo files complete => ∀ database, resource.database = some database →
      complete = true ∧ Packing resource.files database files (name :: todo)

variable {resource}

theorem lookup_eq_none {V : Type} {pairs : List (Name × V)} {name : Name} :
    lookup pairs name = none ↔ name ∉ pairs.map Prod.fst := by
  rw [lookup, Option.map_eq_none_iff, List.find?_eq_none, List.mem_map]
  constructor
  · rintro h ⟨pair, hmem, rfl⟩
    exact h pair hmem (by simp)
  · intro h pair hmem hname
    exact h ⟨pair, hmem, of_decide_eq_true hname⟩

theorem mem_of_lookup {V : Type} {pairs : List (Name × V)} {name : Name} {value : V}
    (h : lookup pairs name = some value) :
    (name, value) ∈ pairs := by
  obtain ⟨pair, hfind, rfl⟩ := Option.map_eq_some_iff.mp h
  have hname : pair.1 = name := by simpa using List.find?_some hfind
  rw [← hname]
  exact List.mem_of_find?_eq_some hfind

theorem lookup_append_of_none {V : Type} {pairs : List (Name × V)} {name : Name}
    (h : lookup pairs name = none) (value : V) (other : Name) :
    lookup (pairs ++ [(name, value)]) other = if other = name then some value else lookup pairs other := by
  unfold lookup at h ⊢
  rw [List.find?_append, Option.map_or]
  split_ifs with hname
  · rw [hname, h, Option.none_or]
    simp
  · rw [List.find?_cons_of_neg (by simpa using Ne.symm hname), List.find?_nil, Option.map_none, Option.or_none]

namespace Packing

variable {current : Files} {database : Database} {files : List (Name × File)} {pending : List Name}

/-- A file changes, and does not get back an entry that is recorded for another state of it. -/
theorem change (h : Packing current database files pending) {name : Name} {file : Option File}
    (hallowed : ∀ entry, name ∉ pending → lookup database.entries name = some entry → Entry.of file = entry →
      file = lookup files name) : Packing (Function.update current name file) database files pending := by
  refine ⟨h.nodup, h.unread, fun other entry hother hentry hsame => ?_, h.others⟩
  by_cases hname : other = name
  · subst hname
    rw [getEntry, Function.update_self] at hsame
    rw [Function.update_self]
    exact hallowed entry hother hentry hsame
  · rw [getEntry, Function.update_of_ne hname] at hsame
    rw [Function.update_of_ne hname]
    exact h.fits other entry hother hentry hsame

/-- A file that cannot be opened is left out. -/
theorem skip {added todo : List Name} {name : Name} (h : Packing current database [] (added ++ name :: todo))
    (hmissing : current name = none) : Packing current database [] (added ++ todo) := by
  have hsub : (added ++ todo).Sublist (added ++ name :: todo) := (List.sublist_cons_self name todo).append_left added
  refine ⟨h.nodup.sublist hsub, fun other hother => h.unread other (hsub.subset hother), ?_, h.others⟩
  intro other entry hother hentry hsame
  by_cases hname : other = name
  · rw [hname]
    exact hmissing
  · refine h.fits other entry ?_ hentry hsame
    simpa [hname] using hother

/-- A file is read. -/
theorem read {name : Name} (h : Packing current database files (name :: pending)) {file : File}
    (hread : ∀ entry, lookup database.entries name = some entry → getEntry current name = entry →
      current name = some file) :
    Packing current database (files ++ [(name, file)]) pending := by
  obtain ⟨hnew, hnodup⟩ := List.nodup_cons.mp h.nodup
  obtain ⟨hnamed, hnone⟩ := h.unread name List.mem_cons_self
  refine ⟨hnodup, fun other hother => ?_, fun other entry hother hentry hsame => ?_, fun other hother => ?_⟩
  · obtain ⟨hmem, hlookup⟩ := h.unread other (List.mem_cons_of_mem _ hother)
    rw [lookup_append_of_none hnone, if_neg (by rintro rfl; exact hnew hother)]
    exact ⟨hmem, hlookup⟩
  · rw [lookup_append_of_none hnone]
    split_ifs with hname
    · rw [hname] at hentry hsame ⊢
      exact hread entry hentry hsame
    · exact h.fits other entry (by simp [hname, hother]) hentry hsame
  · rw [lookup_append_of_none hnone, if_neg (by rintro rfl; exact hother hnamed)]
    exact h.others other hother

end Packing

/-- Nothing has to fit a database that is not there, or a packfile that is not. -/
theorem Rebuilds.fits (h : resource.Rebuilds) : resource.Fits := by
  intro database hdatabase
  rcases h with hnone | hmissing
  · rw [hnone] at hdatabase
    cases hdatabase
  · exact .inl hmissing

theorem fits_of_none (h : resource.database = none) : resource.Fits := Rebuilds.fits (.inl h)

theorem Fits.change (h : resource.Fits) {name : Name} {file : Option File}
      (hpackage : ∀ files, resource.packfile = .written files → ∀ database entry, resource.database = some database →
        lookup database.entries name = some entry → Entry.of file = entry → file = lookup files name) :
    Fits { resource with files := Function.update resource.files name file } := by
  intro database hdatabase
  refine (h database hdatabase).imp_right ?_
  rintro ⟨files, hfiles, hpacking⟩
  exact ⟨files, hfiles, hpacking.change fun entry _ hentry hsame =>
    hpackage files hfiles database entry hdatabase hentry hsame⟩

/-- A file changes. -/
theorem Inv.change (h : resource.Inv) {name : Name} {file : Option File}
    (hallowed : resource.Allowed (.change name file)) :
    Inv { resource with
      files := Function.update resource.files name file
      phase := Phase.noteChange name resource.phase } := by
  obtain ⟨fileNames, current, database, packfile, phase⟩ := resource
  cases phase with
  | idle =>
    refine Fits.change h fun files hfiles database' entry hdatabase hentry hsame => ?_
    cases hfiles
    exact hallowed database' files [] entry hdatabase rfl List.not_mem_nil hentry hsame
  | snapshot fileSet todo recorded =>
    refine ⟨Fits.change h.1 fun files hfiles database' entry hdatabase hentry hsame => ?_, h.2⟩
    cases hfiles
    exact hallowed database' files [] entry hdatabase rfl List.not_mem_nil hentry hsame
  | save fileSet recorded =>
    refine ⟨Fits.change h.1 fun files hfiles database' entry hdatabase hentry hsame => ?_, h.2⟩
    cases hfiles
    exact hallowed database' files [] entry hdatabase rfl List.not_mem_nil hentry hsame
  | saveWrite fileSet recorded => exact h
  | add todo added =>
    intro database' hdatabase
    exact (h database' hdatabase).change fun entry hread => hallowed database' [] _ entry hdatabase rfl hread
  | create added =>
    intro database' hdatabase
    exact (h database' hdatabase).change fun entry hread => hallowed database' [] _ entry hdatabase rfl hread
  | write todo files complete =>
    intro database' hdatabase
    obtain ⟨hcomplete, hpacking⟩ := h database' hdatabase
    exact ⟨hcomplete, hpacking.change fun entry hread => hallowed database' files _ entry hdatabase rfl hread⟩
  | read opened changed todo files complete =>
    intro database' hdatabase
    obtain ⟨hcomplete, hpacking⟩ := h database' hdatabase
    exact ⟨hcomplete, hpacking.change fun entry hread => hallowed database' files _ entry hdatabase rfl hread⟩

theorem Inv.proceed (h : resource.Inv) {next : Resource} (hallowed : resource.Allowed .proceed)
    (htake : resource.proceed = some next) : next.Inv := by
  obtain ⟨fileNames, current, database, packfile, phase⟩ := resource
  cases phase with
  | idle => cases htake
  | snapshot fileSet todo recorded =>
    obtain ⟨hfits, hnodup, hnames⟩ := h
    cases todo with
    | nil =>
      cases htake
      exact ⟨hfits, hnodup, fun name => (hnames name).trans (by simp)⟩
    | cons first todo =>
      cases htake
      refine ⟨hfits, hnodup, fun name => (hnames name).trans ?_⟩
      rw [Database.names_emplace, List.mem_cons, or_assoc]
  | save fileSet recorded =>
    cases htake
    exact ⟨rfl, h.2⟩
  | saveWrite fileSet recorded =>
    cases htake
    obtain ⟨-, hnodup, hnames⟩ := h
    rintro database' ⟨⟩
    refine ⟨hnodup, fun name hmem => ⟨(hnames name).mp hmem, rfl⟩, fun name entry hother hentry _ => ?_,
      fun _ _ => rfl⟩
    exact absurd ((hnames name).mpr (List.mem_map_of_mem (mem_of_lookup hentry))) hother
  | add todo added =>
    cases todo with
    | nil =>
      cases htake
      intro database' hdatabase
      have hpacking := h database' hdatabase
      rwa [List.append_nil] at hpacking
    | cons name todo =>
      cases htake
      intro database' hdatabase
      have hpacking := h database' hdatabase
      dsimp only at hpacking ⊢
      split_ifs with hopens
      · rwa [List.append_assoc, List.singleton_append]
      · exact hpacking.skip (by simpa using hopens)
  | create added =>
    cases htake
    intro database' hdatabase
    exact ⟨rfl, h database' hdatabase⟩
  | write todo files complete =>
    cases todo with
    | nil =>
      cases htake
      intro database' hdatabase
      obtain ⟨hcomplete, hpacking⟩ := h database' hdatabase
      exact .inr ⟨files, if_pos hcomplete, hpacking⟩
    | cons name todo =>
      cases htake
      unfold Inv
      dsimp only
      split_ifs with hopens
      · exact h
      · rcases hallowed with hnone | hopens'
        · exact fits_of_none hnone
        · exact absurd hopens' hopens
  | read name changed todo files complete =>
    rw [Resource.proceed] at htake
    obtain ⟨-, htake⟩ := Option.ite_none_left_eq_some.mp htake
    obtain ⟨file, hfile, rfl⟩ := Option.map_eq_some_iff.mp htake
    intro database' hdatabase
    obtain ⟨hcomplete, hpacking⟩ := h database' hdatabase
    exact ⟨hcomplete, hpacking.read fun _ _ _ => hfile⟩

theorem Inv.failCreate (h : resource.Inv) {next : Resource} (hallowed : resource.Allowed .failCreate)
    (htake : resource.failCreate = some next) : next.Inv := by
  obtain ⟨fileNames, current, database, packfile, phase⟩ := resource
  cases phase with
  | save fileSet recorded =>
    cases htake
    intro database' hdatabase
    obtain ⟨hnames, hothers⟩ := hallowed database' hdatabase
    exact ⟨h.2.1, fun name hmem => ⟨hnames name hmem, rfl⟩, hothers, fun _ _ => rfl⟩
  | create added =>
    cases htake
    exact Rebuilds.fits hallowed
  | idle => cases htake
  | snapshot fileSet todo recorded => cases htake
  | saveWrite fileSet recorded => cases htake
  | add todo added => cases htake
  | write todo files complete => cases htake
  | read name changed todo files complete => cases htake

theorem Inv.failWrite (h : resource.Inv) {next : Resource} (hallowed : resource.Allowed .failWrite)
    (htake : resource.failWrite = some next) : next.Inv := by
  obtain ⟨fileNames, current, database, packfile, phase⟩ := resource
  cases phase with
  | saveWrite fileSet recorded =>
    cases htake
    intro database' hdatabase
    rw [show database = none from h.1] at hdatabase
    cases hdatabase
  | write todo files complete =>
    cases htake
    intro database' hdatabase
    rw [show database = none from hallowed] at hdatabase
    cases hdatabase
  | read name changed todo files complete =>
    cases htake
    intro database' hdatabase
    rw [show database = none from hallowed] at hdatabase
    cases hdatabase
  | idle => cases htake
  | snapshot fileSet todo recorded => cases htake
  | save fileSet recorded => cases htake
  | add todo added => cases htake
  | create added => cases htake

theorem Inv.interrupt (h : resource.Inv) (hallowed : resource.Allowed .interrupt) :
    Inv { resource with phase := .idle } := by
  obtain ⟨fileNames, current, database, packfile, phase⟩ := resource
  cases phase with
  | idle => exact h
  | snapshot fileSet todo recorded => exact h.1
  | save fileSet recorded => exact h.1
  | saveWrite fileSet recorded => exact fits_of_none h.1
  | add todo added => exact Rebuilds.fits hallowed
  | create added => exact Rebuilds.fits hallowed
  | write todo files complete => exact fits_of_none hallowed
  | read name changed todo files complete => exact fits_of_none hallowed

theorem Inv.start (h : resource.Inv) {next : Resource} (htake : resource.step .start = some next) : next.Inv := by
  obtain ⟨fileNames, current, database, packfile, phase⟩ := resource
  rw [Resource.step] at htake
  cases phase with
  | idle =>
    dsimp only at htake
    split_ifs at htake
    · cases htake
      exact ⟨h, List.nodup_dedup _, fun name => by simp [Database.names]⟩
    · cases htake
      exact h
  | snapshot fileSet todo recorded => cases htake
  | save fileSet recorded => cases htake
  | saveWrite fileSet recorded => cases htake
  | add todo added => cases htake
  | create added => cases htake
  | write todo files complete => cases htake
  | read name changed todo files complete => cases htake

/-- A file that changed while it was read. -/
theorem Inv.readChanged (h : resource.Inv) {file : File} {next : Resource}
    (hallowed : resource.Allowed (.readChanged file)) (htake : resource.step (.readChanged file) = some next) :
    next.Inv := by
  obtain ⟨fileNames, current, database, packfile, phase⟩ := resource
  rw [Resource.step] at htake
  cases phase with
  | read name changed todo files complete =>
    cases changed with
    | false => cases htake
    | true =>
      cases htake
      intro database' hdatabase
      obtain ⟨hcomplete, hpacking⟩ := h database' hdatabase
      exact ⟨hcomplete, hpacking.read fun entry => hallowed database' entry hdatabase⟩
  | idle => cases htake
  | snapshot fileSet todo recorded => cases htake
  | save fileSet recorded => cases htake
  | saveWrite fileSet recorded => cases htake
  | add todo added => cases htake
  | create added => cases htake
  | write todo files complete => cases htake

/-- An allowed step keeps the invariant. -/
theorem Inv.step (h : resource.Inv) {action : Action} {next : Resource} (hallowed : resource.Allowed action)
    (htake : resource.step action = some next) : next.Inv := by
  cases action with
  | change name file =>
    obtain ⟨-, htake⟩ := Option.ite_none_right_eq_some.mp htake
    cases htake
    exact h.change hallowed
  | setFileNames fileNames =>
    cases htake
    exact h
  | start => exact h.start htake
  | proceed => exact h.proceed hallowed htake
  | readChanged file => exact h.readChanged hallowed htake
  | failCreate => exact h.failCreate hallowed htake
  | failWrite => exact h.failWrite hallowed htake
  | interrupt =>
    cases htake
    exact h.interrupt hallowed

/-- Where the database fits the files, they are the files of the package. -/
theorem Inv.notStale (h : resource.Inv) : resource.NotStale := by
  intro hidle hbuild
  obtain ⟨fileNames, current, database, packfile, phase⟩ := resource
  cases phase with
  | idle =>
    unfold shouldBuildSet at hbuild
    dsimp only at hbuild
    split_ifs at hbuild with hmissing
    cases database with
    | none => cases hbuild
    | some database =>
      obtain ⟨hnames, hentries⟩ := (database.check_eq_false_iff fileNames current).mp hbuild
      obtain ⟨files, hfiles, hpacking⟩ := (h database rfl).resolve_left hmissing
      refine ⟨files, hfiles, fun name => ?_⟩
      dsimp only
      split_ifs with hmem
      · obtain ⟨entry, hentry⟩ : ∃ entry, lookup database.entries name = some entry := by
          rw [← Option.isSome_iff_exists, Option.isSome_iff_ne_none, ne_eq, lookup_eq_none, not_not]
          exact (hnames name).mpr hmem
        exact (hpacking.fits name entry List.not_mem_nil hentry (hentries _ (mem_of_lookup hentry))).symm
      · exact hpacking.others name fun hold => hmem ((hnames name).mp hold)
  | snapshot fileSet todo recorded => cases hidle
  | save fileSet recorded => cases hidle
  | saveWrite fileSet recorded => cases hidle
  | add todo added => cases hidle
  | create added => cases hidle
  | write todo files complete => cases hidle
  | read name changed todo files complete => cases hidle

theorem inv_initial : Inv {} := fits_of_none rfl

/-- In a run whose steps are all allowed, the package is never stale when it is not rebuilt. What a database that
was saved and loaded has recorded is checked exactly. -/
theorem notStale_of_run {actions : List Action} (h : Run step Allowed {} actions resource) : resource.NotStale ∧
    ∀ (fileList fileList' : List Name) (files files' : Files),
      (Database.snapshot fileList files).check fileList' files' = false ↔
        (∀ name, name ∈ fileList ↔ name ∈ fileList') ∧ ∀ name ∈ fileList, getEntry files' name = getEntry files name :=
  ⟨(h.invariant Inv inv_initial fun hinv hallowed htake => hinv.step hallowed htake).notStale,
    Database.check_snapshot_iff⟩

section Sample

/-- Two states of a file. -/
def oldFile : File := { entry := { fileId := [1], mtime := 100, size := 1 }, data := [65] }

def newFile : File := { entry := { fileId := [1], mtime := 200, size := 1 }, data := [66] }

/-- Steps of which it is plain that they are allowed. -/
def plainly (resource : Resource) : Action → Bool
  | .change .. => resource.database.isNone
  | .proceed => match resource.phase with
    | .write (name :: _) .. => (resource.files name).isSome
    | _ => true
  | .interrupt => match resource.phase with
    | .idle | .snapshot .. => true
    | _ => false
  | .setFileNames _ | .start => true
  | _ => false

theorem allowed_of_plainly {action : Action} (h : resource.plainly action = true) : resource.Allowed action := by
  obtain ⟨fileNames, current, database, packfile, phase⟩ := resource
  cases action with
  | change name file =>
    rintro database' files pending entry rfl
    cases h
  | proceed =>
    cases phase with
    | write todo files complete =>
      cases todo with
      | nil => trivial
      | cons name todo => exact .inr h
    | _ => trivial
  | interrupt =>
    cases phase with
    | idle => trivial
    | snapshot => trivial
    | _ => cases h
  | setFileNames fileNames => trivial
  | start => trivial
  | readChanged file => cases h
  | failCreate => cases h
  | failWrite => cases h

/-- Two files change until the database is created; the package is fresh, and is not built again. -/
theorem notStale_sample : ∃ (actions : List Action) (resource : Resource), Run step Allowed {} actions resource ∧
    resource.phase.isIdle = true ∧ resource.shouldBuildSet = false ∧ resource.Fresh := by
  have hend : (exec (fun (resource : Resource) action => if resource.plainly action then resource.step action
      else none) {} ([Action.change [97] (some oldFile), Action.setFileNames [[97], [98], [99]], Action.start,
        Action.interrupt, Action.change [97] (some newFile), Action.interrupt, Action.change [98] (some oldFile),
          Action.start] ++
        List.replicate 16 Action.proceed)).any
      (fun resource => resource.phase.isIdle && !resource.shouldBuildSet) = true := by
    decide +kernel
  obtain ⟨resource, hrun, htest⟩ := exists_checked (fun _ _ => allowed_of_plainly) hend
  obtain ⟨hidle, hbuild⟩ := Bool.and_eq_true_iff.mp htest
  have hbuild : resource.shouldBuildSet = false := by simpa using hbuild
  exact ⟨_, resource, hrun, hidle, hbuild, (notStale_of_run hrun).1 hidle hbuild⟩

/-- The file of a package changes, its new state is saved to the database, and the package cannot be created again.
The old package stays, and is not built any more. -/
theorem failedCreate_stale : ¬ ∀ (actions : List Action) (resource : Resource),
    Run step (fun _ _ => True) {} actions resource → resource.NotStale := by
  intro hall
  have hend : (exec step {}
      ([Action.change [97] (some oldFile), Action.setFileNames [[97]], Action.start] ++
        List.replicate 10 Action.proceed ++ [Action.change [97] (some newFile), Action.start] ++
          List.replicate 6 Action.proceed ++ [Action.failCreate])).any
      (fun resource => resource.phase.isIdle && !resource.shouldBuildSet &&
        decide (resource.packfile = .written [([97], oldFile)] ∧ [97] ∈ resource.fileNames ∧
          resource.files [97] = some newFile)) = true := by
    decide +kernel
  obtain ⟨resource, hrun, htest⟩ := exists_run hend
  simp only [Bool.and_eq_true, Bool.not_eq_true', decide_eq_true_eq] at htest
  obtain ⟨⟨hidle, hbuild⟩, hpackfile, hname, hfile⟩ := htest
  obtain ⟨files, hfiles, hfresh⟩ := hall _ resource hrun hidle hbuild
  rw [hpackfile] at hfiles
  cases hfiles
  have hsame := hfresh [97]
  rw [if_pos hname, hfile] at hsame
  exact absurd hsame (by decide)

end Sample

end Resource

end fx.ResourceFiles
