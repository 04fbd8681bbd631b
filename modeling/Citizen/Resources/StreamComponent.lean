import Citizen.Lib.LittleEndian
import Citizen.Lib.OrderedMap
import Citizen.Lib.Transition
import Citizen.Resources.FileDatabase

open Bits Std Transition

namespace fx.ResourceStream

open ResourceFiles (Name Database Files)

def ascii (text : String) : Name := text.toList.map fun c => BitVec.ofNat 8 c.toNat

/-- `strncpy` into an array of a size, read again as a C string. -/
def strncpy (size : Nat) (text : Name) : Name := (text.takeWhile (· ≠ 0)).take size

/-- What follows the last slash or backslash. -/
def baseName (fullPath : Name) : Name := (fullPath.reverse.takeWhile fun c => c ≠ 47 ∧ c ≠ 92).reverse

/-- `ResourceStreamComponent::Entry`. -/
structure Entry where
  entryName : Name := []
  hashString : Name := []
  onDiskPath : Name := []
  rscPagesVirtual : Nat := 0
  rscPagesPhysical : Nat := 0
  rscFlags : Nat := 0
  rscVersion : Nat := 0
  size : Nat := 0
  isResource : Bool := false
  deriving DecidableEq

structure RuntimeEntry extends Entry where
  isAutoScan : Bool := false
  loadDiskPath : Name := []
  deriving DecidableEq

/-- What `FindFirst` and `FindNext` give for an entry of a folder. -/
structure FindData where
  name : Name
  directory : Bool
  deriving DecidableEq

/-- `IterateRecursively`, with fuel for the depth of the folders. The files of a folder come before those of its
folders. -/
def iterateRecursively (list : Name → List FindData) : Nat → Name → List Name
  | 0, _ => []
  | fuel + 1, parent =>
    ((list parent).filter fun findData => !findData.directory).map (fun findData => parent ++ [47] ++ findData.name) ++
      ((list parent).filter fun findData => findData.directory &&
        findData.name.head? ≠ some 46).flatMap fun findData =>
        iterateRecursively list fuel (parent ++ [47] ++ findData.name)

/-- What is outside the component: the files that can be opened and the folders, the functions for hashes and
validation, and whether a hard link can be made. The names of the files fit into an entry. -/
structure Environment where
  files : Files
  list : Name → List FindData
  depth : Nat
  streamRoot : Name
  cacheRoot : Name
  sha1 : List Byte → Name
  customValidate : Entry → List Byte → Entry
  makeHardLink : Name → Name → Bool
  short : ∀ fullPath ∈ iterateRecursively list depth streamRoot, fullPath.length < 512 ∧
    (baseName fullPath).length < 128

variable (environment : Environment)

/-- The files that are scanned, in their order. -/
def Environment.scan : List Name := iterateRecursively environment.list environment.depth environment.streamRoot

/-- The header of a resource file. What the file is too short for keeps what the memory was left with. -/
def rsc7Header (stale data : List Byte) : List Byte := data.take 16 ++ (stale.takeD 16 0).drop (data.take 16).length

/-- A field of the header. -/
def headerField (header : List Byte) (offset : Nat) : Nat := LittleEndian.value ((header.drop offset).take 4)

/-- What the header says of the file. -/
def Entry.readHeader (entry : Entry) (header : List Byte) : Entry :=
  let magic := headerField header 0
  let version := headerField header 4
  let virtPages := headerField header 8
  let physPages := headerField header 12
  if magic = 0x37435352 ∨ magic = 0x38435352 then
    { entry with
      rscVersion := version
      rscPagesPhysical := physPages
      rscPagesVirtual := virtPages
      isResource := true }
  else if magic = 0x05435352 then
    { entry with rscVersion := version, rscPagesVirtual := virtPages, rscPagesPhysical := version, isResource := true }
  else entry

/-- The entry of a file that `AddStreamingFile` begins with, and the data for its header and for its hash. -/
def openFile (fullPath : Name) : Option (Entry × List Byte × List Byte) :=
  if ascii ".stream_raw" <:+: fullPath then none
  else do
    let stream ← environment.files fullPath
    let rscStream := (environment.files (fullPath ++ ascii ".stream_raw")).getD stream
    let size := stream.data.length % 2 ^ 32
    let entry := environment.customValidate
      { size, entryName := strncpy 128 (baseName fullPath), onDiskPath := strncpy 512 fullPath, rscFlags := size }
        rscStream.data
    some (entry, rscStream.data, stream.data)

/-- The entry that `AddStreamingFile` makes for a file. -/
def entryOf (stale : List Byte) (fullPath : Name) : Option Entry :=
  (openFile environment fullPath).map fun (entry, rscData, data) =>
    { (if entry.rscVersion = 0 then entry.readHeader (rsc7Header stale rscData) else entry) with
      hashString := environment.sha1 data }

/-- The component, and what it has in the cache. `m_hashPairs` points to entries of `m_resourcePairs`, by their
names. -/
structure Component where
  resourcePairs : TreeMap Name RuntimeEntry := ∅
  hashPairs : TreeMap Name Name := ∅
  /-- `resource.sfl.db`. -/
  database : Option Database := none
  /-- `resource.sfl`, the dump of the entries. -/
  sfl : Option (List Entry) := none

namespace Component

variable (component : Component)

/-- `AddStreamingFile` of an entry. -/
def addStreamingFile (entry : Entry) : Component :=
  { component with
    resourcePairs := component.resourcePairs.insertIfNew entry.entryName { entry with }
    hashPairs := component.hashPairs.insert entry.hashString entry.entryName }

/-- `isAutoScan` and `MakeSymLink` of the entry that `AddStreamingFile` returns. -/
def makeSymLink (file : RuntimeEntry) : RuntimeEntry :=
  let newPath := environment.cacheRoot ++ [122] ++ file.hashString
  { file with
    isAutoScan := true
    loadDiskPath := if environment.makeHardLink file.onDiskPath newPath then newPath else file.loadDiskPath }

def addScanned (entry : Entry) : Component :=
  let component := component.addStreamingFile entry
  { component with resourcePairs := component.resourcePairs.modify entry.entryName (makeSymLink environment) }

/-- `ShouldUpdateSet`. -/
def shouldUpdateSet : Bool :=
  match component.database with
  | none => true
  | some setDatabase =>
    if setDatabase.check environment.scan environment.files then true
    else
      match component.sfl with
      | none => true
      | some entries => entries.any fun entry => (environment.files entry.onDiskPath).isNone

/-- The entries of the files. Each read of a header finds some bytes in its memory. -/
def scanned (stale : Name → List Byte) : List Entry :=
  environment.scan.filterMap fun fullPath => entryOf environment (stale fullPath) fullPath

/-- `UpdateSet`. The list cannot be written when `Create` fails. -/
def updateSet (stale : Name → List Byte) (created : Bool) : Component :=
  let component := (scanned environment stale).foldl (addScanned environment) component
  { component with
    database := some (Database.snapshot environment.scan environment.files)
    sfl := if created then some (component.resourcePairs.toList.map fun pair => pair.2.toEntry) else component.sfl }

/-- The entries of `resource.sfl`, as `OnStart` adds them. -/
def reload : Component := (component.sfl.getD []).foldl (addScanned environment) component

/-- `OnStart`. -/
def onStart (stale : Name → List Byte) (created : Bool) : Component :=
  if component.shouldUpdateSet environment then component.updateSet environment stale created
  else component.reload environment

/-- `OnStop`. -/
def onStop : Component := { component with resourcePairs := ∅, hashPairs := ∅ }

end Component

/-- What happens to the component: it starts and stops, and entries are added by other means. -/
inductive Event
  | start (stale : Name → List Byte) (created : Bool)
  | stop
  | add (entry : Entry)

namespace Component

def step (component : Component) : Event → Component
  | .start stale created => component.onStart environment stale created
  | .stop => component.onStop
  | .add entry => component.addStreamingFile entry

abbrev next (component : Component) (event : Event) : Option Component := some (component.step environment event)

end Component

section Headers

variable {environment : Environment} {data : List Byte}

/-- What is read of a file says what its header says: it is whole, or no header of a resource file. -/
def HeaderRead (data : List Byte) : Prop :=
  16 ≤ data.length ∨ 4 ≤ data.length ∧ headerField data 0 ∉ [0x37435352, 0x38435352, 0x05435352]

theorem readHeader_eq (hread : HeaderRead data) (entry : Entry) (stale stale' : List Byte) :
    entry.readHeader (rsc7Header stale data) = entry.readHeader (rsc7Header stale' data) := by
  rcases hread with hwhole | ⟨hlength, hmagic⟩
  · have hheader (stale : List Byte) : rsc7Header stale data = data.take 16 := by
      rw [rsc7Header, List.drop_eq_nil_of_le, List.append_nil]
      rw [List.takeD_length, List.length_take, Nat.min_eq_left hwhole]
    rw [hheader, hheader]
  · have hfield (stale : List Byte) : headerField (rsc7Header stale data) 0 = headerField data 0 := by
      rw [headerField, headerField, rsc7Header, List.drop_zero, List.drop_zero,
        List.take_append_of_le_length (by simp; omega), List.take_take]
      rfl
    have hentry (stale : List Byte) : entry.readHeader (rsc7Header stale data) = entry := by
      simp only [List.mem_cons, List.not_mem_nil, or_false, not_or] at hmagic
      simp only [Entry.readHeader, hfield]
      rw [if_neg (not_or.mpr ⟨hmagic.1, hmagic.2.1⟩), if_neg hmagic.2.2]
    rw [hentry, hentry]

/-- The headers of the scanned files are determined by the files. -/
def Environment.Determined (environment : Environment) : Prop :=
  ∀ fullPath ∈ environment.scan, ∀ entry rscData data,
    openFile environment fullPath = some (entry, rscData, data) → entry.rscVersion ≠ 0 ∨ HeaderRead rscData

theorem scanned_eq (hdetermined : environment.Determined) (stale stale' : Name → List Byte) :
    Component.scanned environment stale = Component.scanned environment stale' := by
  refine List.filterMap_congr fun fullPath hscan => ?_
  unfold entryOf
  cases hopen : openFile environment fullPath with
  | none => rfl
  | some opened =>
    obtain ⟨entry, rscData, data⟩ := opened
    simp only [Option.map_some]
    rcases hdetermined fullPath hscan entry rscData data hopen with hversion | hread
    · rw [if_neg hversion, if_neg hversion]
    · rw [readHeader_eq hread entry (stale fullPath) (stale' fullPath)]

end Headers

section Lists

variable {environment : Environment} {component : Component} {entry : Entry} {name : Name}

theorem makeSymLink_idem (file : RuntimeEntry) :
    Component.makeSymLink environment (Component.makeSymLink environment file) =
      Component.makeSymLink environment file := by
  unfold Component.makeSymLink
  dsimp only
  split <;> rfl

theorem getElem?_addStreamingFile :
    (component.addStreamingFile entry).resourcePairs[name]? =
      if entry.entryName = name then some (component.resourcePairs[name]?.getD { entry with })
      else component.resourcePairs[name]? := by
  unfold Component.addStreamingFile
  dsimp only
  rw [TreeMap.getElem?_insertIfNew]
  simp only [LawfulEqCmp.compare_eq_iff_eq, TreeMap.mem_iff_isSome_getElem?, Bool.not_eq_true,
    Option.isSome_eq_false_iff, Option.isNone_iff_eq_none]
  by_cases hname : entry.entryName = name
  · subst hname
    cases component.resourcePairs[entry.entryName]? <;> simp
  · simp [hname]

/-- What is listed for a file. -/
def listed (environment : Environment) (entry : Entry) : RuntimeEntry :=
    Component.makeSymLink environment { entry with }

theorem getElem?_addScanned :
    (component.addScanned environment entry).resourcePairs[name]? =
      if entry.entryName = name then
        some ((component.resourcePairs[name]?.map (Component.makeSymLink environment)).getD (listed environment entry))
      else component.resourcePairs[name]? := by
  unfold Component.addScanned
  dsimp only
  rw [TreeMap.getElem?_modify, getElem?_addStreamingFile, getElem?_addStreamingFile, if_pos rfl]
  simp only [LawfulEqCmp.compare_eq_iff_eq]
  by_cases hname : entry.entryName = name
  · subst hname
    cases component.resourcePairs[entry.entryName]? <;> simp [listed]
  · simp [hname]

/-- The entries are scanned ones, which another scan leaves as they are. -/
def Component.Linked (environment : Environment) (component : Component) : Prop :=
  ∀ (name : Name) (file : RuntimeEntry), component.resourcePairs[name]? = some file →
    Component.makeSymLink environment file = file

theorem linked_addScanned (hlinked : component.Linked environment) (entry : Entry) :
    (component.addScanned environment entry).Linked environment := by
  intro name file hfile
  rw [getElem?_addScanned] at hfile
  split at hfile
  · cases hold : component.resourcePairs[name]? with
    | none =>
      rw [hold] at hfile
      cases hfile
      exact makeSymLink_idem _
    | some old =>
      rw [hold] at hfile
      cases hfile
      exact makeSymLink_idem old
  · exact hlinked name file hfile

/-- The first entry of a name. -/
def firstOf (entries : List Entry) (name : Name) : Option Entry := entries.find? fun entry => entry.entryName = name

/-- The file that was there stays, and of the scanned ones the first of its name. -/
theorem getElem?_foldl_addScanned (hlinked : component.Linked environment) (entries : List Entry) (name : Name) :
    (entries.foldl (Component.addScanned environment) component).resourcePairs[name]? =
      component.resourcePairs[name]?.or ((firstOf entries name).map (listed environment)) := by
  induction entries generalizing component with
  | nil => simp [firstOf]
  | cons entry entries ih =>
    rw [List.foldl_cons, ih (linked_addScanned hlinked entry), getElem?_addScanned, firstOf, firstOf, List.find?_cons]
    by_cases hname : entry.entryName = name
    · cases hold : component.resourcePairs[name]? with
      | none => simp [hname]
      | some file => simp [hname, hlinked name file hold]
    · simp [hname]

theorem foldl_addScanned_sfl (entries : List Entry) :
    (entries.foldl (Component.addScanned environment) component).sfl = component.sfl := by
  induction entries generalizing component with
  | nil => rfl
  | cons entry entries ih => exact ih

/-- The entry of a name, without what is not saved of it. -/
def Component.entryAt (component : Component) (name : Name) : Option Entry :=
  component.resourcePairs[name]?.map RuntimeEntry.toEntry

theorem entryAt_addStreamingFile :
    (component.addStreamingFile entry).entryAt name =
      if entry.entryName = name then some ((component.entryAt name).getD entry) else component.entryAt name := by
  unfold Component.entryAt
  rw [getElem?_addStreamingFile]
  by_cases hname : entry.entryName = name
  · rw [if_pos hname, if_pos hname]
    cases component.resourcePairs[name]? <;> rfl
  · rw [if_neg hname, if_neg hname]

/-- A link changes nothing of an entry that is saved. -/
theorem entryAt_addScanned :
    (component.addScanned environment entry).entryAt name = (component.addStreamingFile entry).entryAt name := by
  unfold Component.entryAt
  rw [getElem?_addScanned, getElem?_addStreamingFile]
  by_cases hname : entry.entryName = name
  · rw [if_pos hname, if_pos hname]
    cases component.resourcePairs[name]? <;> rfl
  · rw [if_neg hname, if_neg hname]

theorem entryAt_foldl_addScanned (entries : List Entry) (name : Name) :
    (entries.foldl (Component.addScanned environment) component).entryAt name =
      (component.entryAt name).or (firstOf entries name) := by
  induction entries generalizing component with
  | nil => simp [firstOf]
  | cons entry entries ih =>
    rw [List.foldl_cons, ih, entryAt_addScanned, entryAt_addStreamingFile, firstOf, firstOf, List.find?_cons]
    by_cases hname : entry.entryName = name
    · cases component.entryAt name <;> simp [hname]
    · simp [hname]

/-- What is listed under a name has it. -/
def Component.Keyed (component : Component) : Prop :=
  ∀ (name : Name) (entry : Entry), component.entryAt name = some entry → entry.entryName = name

theorem keyed_addStreamingFile (hkeyed : component.Keyed) (entry : Entry) :
    (component.addStreamingFile entry).Keyed := by
  intro name found hfound
  rw [entryAt_addStreamingFile] at hfound
  split at hfound
  case isTrue hname =>
    cases hold : component.entryAt name with
    | none =>
      rw [hold] at hfound
      cases hfound
      exact hname
    | some old =>
      rw [hold] at hfound
      cases hfound
      exact hkeyed name old hold
  case isFalse => exact hkeyed name found hfound

theorem keyed_foldl_addScanned (hkeyed : component.Keyed) (entries : List Entry) :
    (entries.foldl (Component.addScanned environment) component).Keyed := by
  induction entries generalizing component with
  | nil => exact hkeyed
  | cons entry entries ih =>
    refine ih fun name found hfound => keyed_addStreamingFile hkeyed entry name found ?_
    rwa [entryAt_addScanned] at hfound

/-- The entries that are saved, in the order of their names. -/
theorem firstOf_toList (hkeyed : component.Keyed) (name : Name) :
    firstOf (component.resourcePairs.toList.map fun pair => pair.2.toEntry) name = component.entryAt name := by
  have hlisted {key : Name} {file : RuntimeEntry} :
      (key, file) ∈ component.resourcePairs.toList ↔ component.resourcePairs[key]? = some file :=
    TreeMap.mem_toList_iff_getElem?_eq_some
  cases hfirst : firstOf (component.resourcePairs.toList.map fun pair => pair.2.toEntry) name with
  | none =>
    cases hfound : component.entryAt name with
    | none => rfl
    | some entry =>
      obtain ⟨file, hfile, rfl⟩ := Option.map_eq_some_iff.mp hfound
      refine absurd (hkeyed name _ hfound) ?_
      simpa using List.find?_eq_none.mp hfirst file.toEntry (List.mem_map.mpr ⟨(name, file), hlisted.mpr hfile, rfl⟩)
  | some entry =>
    have hname : entry.entryName = name := by simpa using List.find?_some hfirst
    obtain ⟨⟨key, file⟩, hmem, rfl⟩ := List.mem_map.mp (List.mem_of_find?_eq_some hfirst)
    have hfound : component.entryAt key = some file.toEntry := by
      rw [Component.entryAt, hlisted.mp hmem]
      rfl
    rw [← hname, hkeyed key _ hfound, hfound]

end Lists

section Caches

variable {environment : Environment} {component : Component}

/-- The streaming list of a fresh `UpdateSet`. -/
def fresh (environment : Environment) (stale : Name → List Byte) : TreeMap Name RuntimeEntry :=
  (Component.updateSet environment {} stale true).resourcePairs

theorem linked_onStop : component.onStop.Linked environment := by
  intro name file hfile
  simp [Component.onStop] at hfile

theorem getElem?_fresh (stale : Name → List Byte) (name : Name) :
    (fresh environment stale)[name]? = (firstOf (Component.scanned environment stale) name).map
      (listed environment) := by
  have hlinked : Component.Linked environment {} := @linked_onStop environment {}
  unfold fresh Component.updateSet
  dsimp only
  rw [getElem?_foldl_addScanned hlinked]
  simp

/-- The list in the cache has the entries of the files. -/
def Component.Faithful (environment : Environment) (component : Component) : Prop :=
  ∀ entries, component.sfl = some entries → ∀ stale name,
    firstOf entries name = firstOf (Component.scanned environment stale) name

/-- Reading the list in the cache gives what a fresh `UpdateSet` gives. -/
def Component.ReloadsFresh (environment : Environment) (component : Component) : Prop :=
  component.sfl ≠ none → ∀ (stale : Name → List Byte) (name : Name),
    (component.onStop.reload environment).resourcePairs[name]? = (fresh environment stale)[name]?

/-- So does starting, whichever of the two it does. -/
def Component.StartsFresh (environment : Environment) (component : Component) : Prop :=
  ∀ (stale stale' : Name → List Byte) (created : Bool) (name : Name),
    (component.onStop.onStart environment stale created).resourcePairs[name]? = (fresh environment stale')[name]?

theorem reloadsFresh_of_faithful (hfaithful : component.Faithful environment) :
    component.ReloadsFresh environment := by
  intro hsfl stale name
  obtain ⟨entries, hentries⟩ := Option.ne_none_iff_exists'.mp hsfl
  have hreload : component.onStop.reload environment = entries.foldl (Component.addScanned environment)
    component.onStop := by
    rw [Component.reload]
    simp [Component.onStop, hentries]
  rw [hreload, getElem?_foldl_addScanned linked_onStop, getElem?_fresh, hfaithful entries hentries stale name]
  simp [Component.onStop]

theorem startsFresh_of_faithful (hdetermined : environment.Determined) (hfaithful : component.Faithful environment) :
    component.StartsFresh environment := by
  intro stale stale' created name
  unfold Component.onStart
  split
  case isTrue =>
    unfold Component.updateSet
    dsimp only
    rw [getElem?_foldl_addScanned linked_onStop, getElem?_fresh, scanned_eq hdetermined stale stale']
    simp [Component.onStop]
  case isFalse hkept =>
    refine reloadsFresh_of_faithful hfaithful (fun hsfl => hkept ?_) stale' name
    unfold Component.shouldUpdateSet
    have hnone : component.onStop.sfl = none := hsfl
    rw [hnone]
    cases component.onStop.database with
    | none => rfl
    | some setDatabase =>
      dsimp only
      split <;> rfl

/-- What is listed are entries of the files. -/
def Component.OnlyFiles (environment : Environment) (component : Component) (stale : Name → List Byte) : Prop :=
  ∀ (name : Name) (entry : Entry), component.entryAt name = some entry →
    firstOf (Component.scanned environment stale) name = some entry

/-- The headers are determined by the files, and a list is written where nothing else is listed. -/
def AllowedStart (environment : Environment) (component : Component) : Event → Prop
  | .start stale created =>
    environment.Determined ∧
      (component.shouldUpdateSet environment = true → created = true → component.OnlyFiles environment stale)
  | _ => True

theorem faithful_updateSet {stale : Name → List Byte} {created : Bool} (hdetermined : environment.Determined)
    (hkeyed : component.Keyed) (hfaithful : component.Faithful environment)
    (honly : created = true → component.OnlyFiles environment stale) :
    (component.updateSet environment stale created).Faithful environment := by
  intro entries hentries stale' name
  unfold Component.updateSet at hentries
  dsimp only at hentries
  split at hentries
  case isFalse => exact hfaithful entries ((foldl_addScanned_sfl _).symm.trans hentries) stale' name
  case isTrue hcreated =>
    cases hentries
    rw [firstOf_toList (keyed_foldl_addScanned hkeyed _), entryAt_foldl_addScanned,
      scanned_eq hdetermined stale' stale]
    cases hfound : component.entryAt name with
    | none => rfl
    | some entry => exact (honly hcreated name entry hfound).symm

/-- A step keeps what the list in the cache has. -/
theorem faithful_step {event : Event} (hok : AllowedStart environment component event)
    (hinv : component.Keyed ∧ component.Faithful environment) :
    (component.step environment event).Keyed ∧ (component.step environment event).Faithful environment := by
  obtain ⟨hkeyed, hfaithful⟩ := hinv
  cases event with
  | add entry => exact ⟨keyed_addStreamingFile hkeyed entry, hfaithful⟩
  | stop =>
    refine ⟨fun name entry hfound => ?_, hfaithful⟩
    simp [Component.step, Component.onStop, Component.entryAt] at hfound
  | start stale created =>
    obtain ⟨hdetermined, honly⟩ := hok
    unfold Component.step Component.onStart
    dsimp only
    split
    case isTrue hupdate =>
      refine ⟨?_, faithful_updateSet hdetermined hkeyed hfaithful (honly hupdate)⟩
      exact keyed_foldl_addScanned hkeyed (Component.scanned environment stale)
    case isFalse =>
      refine ⟨keyed_foldl_addScanned hkeyed _, fun entries hentries => ?_⟩
      exact hfaithful entries ((foldl_addScanned_sfl _).symm.trans hentries)

end Caches

section Hashes

variable {environment : Environment} {component : Component}

/-- The entries that a step adds. -/
def Component.added (environment : Environment) (component : Component) : Event → List Entry
  | .start stale _ =>
    if component.shouldUpdateSet environment then Component.scanned environment stale else component.sfl.getD []
  | .stop => []
  | .add entry => [entry]

/-- Entries of one name have one hash. -/
def AllowedHash (environment : Environment) (component : Component) (event : Event) : Prop :=
  ∀ entry ∈ component.added environment event,
    (∀ old, component.entryAt entry.entryName = some old → old.hashString = entry.hashString) ∧
      ∀ other ∈ component.added environment event, other.entryName = entry.entryName →
        other.hashString = entry.hashString

/-- A hash leads to an entry that has it. -/
def Component.Hashed (component : Component) : Prop :=
  ∀ hash name : Name, component.hashPairs[hash]? = some name →
    ∃ entry, component.entryAt name = some entry ∧ entry.hashString = hash

theorem hashed_addStreamingFile {entry : Entry} (hhashed : component.Hashed)
    (hsame : ∀ old, component.entryAt entry.entryName = some old → old.hashString = entry.hashString) :
    (component.addStreamingFile entry).Hashed := by
  intro hash name hpair
  unfold Component.addStreamingFile at hpair
  dsimp only at hpair
  rw [TreeMap.getElem?_insert] at hpair
  rw [entryAt_addStreamingFile]
  split at hpair
  case isTrue hhash =>
    cases hpair
    rw [if_pos rfl]
    refine ⟨_, rfl, ?_⟩
    have hhash : entry.hashString = hash := LawfulEqCmp.compare_eq_iff_eq.mp hhash
    cases hold : component.entryAt entry.entryName with
    | none => exact hhash
    | some old => exact (hsame old hold).trans hhash
  case isFalse =>
    obtain ⟨found, hfound, hhash⟩ := hhashed hash name hpair
    rw [hfound]
    refine ⟨found, ?_, hhash⟩
    split <;> rfl

theorem hashed_foldl_addScanned {entries : List Entry} (hhashed : component.Hashed)
    (hsame : ∀ entry ∈ entries,
      (∀ old, component.entryAt entry.entryName = some old → old.hashString = entry.hashString) ∧
        ∀ other ∈ entries, other.entryName = entry.entryName → other.hashString = entry.hashString) :
    (entries.foldl (Component.addScanned environment) component).Hashed := by
  induction entries generalizing component with
  | nil => exact hhashed
  | cons entry entries ih =>
    refine ih (fun hash name hpair => ?_) fun later hlater => ⟨fun old hold => ?_, fun other hother => ?_⟩
    · rw [entryAt_addScanned]
      exact hashed_addStreamingFile hhashed (hsame entry List.mem_cons_self).1 hash name hpair
    · rw [entryAt_addScanned, entryAt_addStreamingFile] at hold
      obtain ⟨hbefore, hamong⟩ := hsame later (List.mem_cons_of_mem _ hlater)
      split at hold
      case isFalse => exact hbefore old hold
      case isTrue hname =>
        cases hfound : component.entryAt later.entryName with
        | none =>
          rw [hfound] at hold
          cases hold
          exact hamong entry List.mem_cons_self hname
        | some found =>
          rw [hfound] at hold
          cases hold
          exact hbefore found hfound
    · exact (hsame later (List.mem_cons_of_mem _ hlater)).2 other (List.mem_cons_of_mem _ hother)

theorem hashed_step {event : Event} (hok : AllowedHash environment component event) (hhashed : component.Hashed) :
    (component.step environment event).Hashed := by
  unfold AllowedHash Component.added at hok
  cases event with
  | add entry => exact hashed_addStreamingFile hhashed (hok entry List.mem_cons_self).1
  | stop =>
    intro hash name hpair
    simp [Component.step, Component.onStop] at hpair
  | start stale created =>
    unfold Component.step Component.onStart
    dsimp only at hok ⊢
    split at hok
    case isTrue hupdate =>
      rw [if_pos hupdate]
      exact hashed_foldl_addScanned hhashed hok
    case isFalse hupdate =>
      rw [if_neg hupdate]
      exact hashed_foldl_addScanned hhashed hok

end Hashes

section Runs

/-- In every state that is reached, starting gives a fresh list while every list was written where nothing else was
listed, and the hashes are right while the entries of one name have one hash. -/
theorem sound_of_runs (environment : Environment) (events : List Event) (component : Component) :
    (Run (Component.next environment) (AllowedStart environment) {} events component →
        component.ReloadsFresh environment ∧ (environment.Determined → component.StartsFresh environment)) ∧
      (Run (Component.next environment) (AllowedHash environment) {} events component →
        component.Hashed) := by
  refine ⟨fun hrun => ?_, fun hrun => ?_⟩
  · have hinv := hrun.invariant (fun component => component.Keyed ∧ component.Faithful environment)
      ⟨fun name entry hfound => by simp [Component.entryAt] at hfound, fun entries hentries => by cases hentries⟩
      fun {component event after} hinv hok htake => by
        cases htake
        exact faithful_step hok hinv
    exact ⟨reloadsFresh_of_faithful hinv.2, fun hdetermined => startsFresh_of_faithful hdetermined hinv.2⟩
  · refine hrun.invariant Component.Hashed (fun hash name hpair => by simp at hpair) ?_
    intro component event after hhashed hok htake
    cases htake
    exact hashed_step hok hhashed

/-- A resource whose folder has `a/x` and `b/x`, the bytes of which are given. -/
def twinFiles (second : Byte) : Environment where
  files fullPath :=
    if fullPath = ascii "stream//a/x" then some ⟨⟨List.replicate 16 1, 0, 16⟩, List.replicate 16 0⟩
    else if fullPath = ascii "stream//b/x" then some ⟨⟨List.replicate 16 2, 0, 16⟩, List.replicate 16 second⟩
    else none
  list parent :=
    if parent = ascii "stream/" then [⟨ascii "a", true⟩, ⟨ascii "b", true⟩]
    else if parent ∈ [ascii "stream//a", ascii "stream//b"] then [⟨ascii "x", false⟩]
    else []
  depth := 2
  streamRoot := ascii "stream/"
  cacheRoot := ascii "cache/"
  sha1 data :=
    if data = List.replicate 16 0 then ascii "e129f27c5103bc5cc44bcdf0a15e160d445066ff"
    else ascii "345c0e97987b1f4e1be38ee1678a5f1061c2c301"
  customValidate entry _ := entry
  makeHardLink _ _ := true
  short := by decide

theorem determined_twinFiles : (twinFiles 0).Determined := by
  intro fullPath hscan entry rscData data hopen
  have hwhole : ∀ fullPath ∈ (twinFiles 0).scan, ∀ opened ∈ openFile (twinFiles 0) fullPath,
    16 ≤ opened.2.1.length := by
    decide
  exact .inr (.inl (hwhole fullPath hscan (entry, rscData, data) hopen))

theorem sound_twinFiles : ∃ component : Component,
    component.sfl ≠ none ∧ component.ReloadsFresh (twinFiles 0) ∧ component.StartsFresh (twinFiles 0) ∧
      component.Hashed := by
  have hempty (name : Name) : Component.entryAt {} name = none := by simp [Component.entryAt]
  have hstart : AllowedStart (twinFiles 0) {} (.start (fun _ => []) true) := by
    refine ⟨determined_twinFiles, fun _ _ name entry hfound => ?_⟩
    rw [hempty] at hfound
    cases hfound
  have hhash : AllowedHash (twinFiles 0) {} (.start (fun _ => []) true) := by
    intro entry hentry
    refine ⟨fun old hold => ?_, ?_⟩
    · rw [hempty] at hold
      cases hold
    · revert entry
      decide
  have hsaved : (Component.step (twinFiles 0) {} (.start (fun _ => []) true)).sfl.isSome = true := by decide
  obtain ⟨hstarts, hhashes⟩ := sound_of_runs (twinFiles 0) [.start (fun _ => []) true] _
  obtain ⟨hreloads, hfresh⟩ := hstarts (.cons hstart rfl (.nil _))
  exact ⟨_, Option.isSome_iff_ne_none.mp hsaved, hreloads, hfresh determined_twinFiles,
    hhashes (.cons hhash rfl (.nil _))⟩

theorem not_hashed_twinFiles : ¬ ∀ (environment : Environment) (events : List Event) (component : Component),
    Run (Component.next environment) (fun _ _ => True) {} events component →
      component.ReloadsFresh environment ∧ component.Hashed := by
  intro hclaim
  have hrun : Run (Component.next (twinFiles 1)) (fun _ _ => True) {} [.start (fun _ => []) true]
      (Component.step (twinFiles 1) {} (.start (fun _ => []) true)) := .cons trivial rfl (.nil _)
  have hpair : (Component.step (twinFiles 1) {} (.start (fun _ => []) true)).hashPairs[
      (twinFiles 1).sha1 (List.replicate 16 1)]? = some (ascii "x") := by decide
  obtain ⟨entry, hentry, hhash⟩ := (hclaim _ _ _ hrun).2 _ _ hpair
  have hother : ∀ found ∈ (Component.step (twinFiles 1) {} (.start (fun _ => []) true)).entryAt (ascii "x"),
      found.hashString ≠ (twinFiles 1).sha1 (List.replicate 16 1) := by decide
  exact hother entry hentry hhash

end Runs

end fx.ResourceStream
