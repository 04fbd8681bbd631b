import Citizen.Lib.BinarySearch

open Bits

namespace vfs.RagePackfile7

abbrev Text := List Byte

structure Entry where
  nameOffset : Nat
  size : Nat
  offset : Nat
  virtFlags : Nat
  physFlags : Nat
  deriving DecidableEq

def Entry.isDirectory (entry : Entry) : Bool := entry.offset = 0x7fffff

/-- What an open archive keeps. -/
structure Archive where
  pathPrefix : Text
  entries : List Entry
  nameTable : Text
  deriving DecidableEq

structure HandleData where
  valid : Bool
  entry : Entry
  curOffset : Nat
  deriving DecidableEq

structure FindData where
  directory : Bool
  length : Nat
  name : Text
  deriving DecidableEq

def slash : Byte := 47

/-- `c_str`, up to its end. -/
def cStr (text : Text) : Text := text.takeWhile (· ≠ 0)

/-- A C string in a table, when it ends there. -/
def readName (table : Text) (offset : Nat) : Option Text :=
  if 0 ∈ table.drop offset then some (cStr (table.drop offset)) else none

def strcmp : Text → Text → Ordering
  | [], [] => .eq
  | [], _ :: _ => .lt
  | _ :: _, [] => .gt
  | a :: left, b :: right => if a.toNat < b.toNat then .lt else if b.toNat < a.toNat then .gt else strcmp left right

def toLower (c : Byte) : Byte := if 65 ≤ c.toNat ∧ c.toNat ≤ 90 then c + 32 else c

/-- `_stricmp`, against 0. -/
def stricmp (left right : Text) : Bool := left.map toLower = right.map toLower

/-- The loops over slashes. They read the character after the last one of the text, and none after it. -/
def skipSlashes (text : Text) (pos : Nat) : Option Nat :=
  if pos ≤ text.length then some (pos + ((text.drop pos).takeWhile (· = slash)).length) else none

/-- `find_first_of`, with `none` for `npos`. -/
def findSlash (text : Text) (pos : Nat) : Option Nat :=
  if slash ∈ text.drop pos then some (pos + (text.drop pos).idxOf slash) else none

/-- `substr` from a position to the next one. -/
def substr (text : Text) (pos : Nat) (nextPos : Option Nat) : Option Text :=
  if pos ≤ text.length then
    some (match nextPos with | some nextPos => (text.drop pos).take (nextPos - pos) | none => text.drop pos)
  else none

variable (archive : Archive)

/-- What `name` and `nameOffset` of an entry lead to. -/
def entryName (index : Nat) : Option Text := do
  let entry ← archive.entries[index]?
  readName archive.nameTable entry.nameOffset

/-- The alternative search, in the entries that are left. -/
def findIgnoringCase (compName : Text) : Nat → Nat → Option (Option Nat)
  | 0, _ => some none
  | count + 1, index => do
    let name ← entryName archive index
    if stricmp compName name then some (some index) else findIgnoringCase compName count (index + 1)

/-- The search for a part of a path in a folder. -/
def findChild (entry : Entry) (key : Text) : Option (Option Nat) := do
  let found ← BinarySearch.search
    (fun idx => (entryName archive (entry.virtFlags + idx)).map (strcmp (cStr key))) entry.physFlags 0 entry.physFlags
  match found with
  | some idx => some (some (entry.virtFlags + idx))
  | none => findIgnoringCase archive (cStr key) entry.physFlags entry.virtFlags

/-- `nextPos + 1`, where one more than `npos` is 0. -/
def afterPos : Option Nat → Nat
  | some nextPos => nextPos + 1
  | none => 0

/-- The loop of `FindEntry`. -/
def walk (relativePath : Text) : Nat → Nat → Nat → Option Nat → Option (Option Nat)
  | 0, _, _, _ => none
  | fuel + 1, index, pos, nextPos => do
    let entry ← archive.entries[index]?
    if entry.isDirectory then
      let key ← substr relativePath pos nextPos
      let found ← findChild archive entry key
      let pos ← skipSlashes relativePath (afterPos nextPos)
      match found with
      | some index => walk relativePath fuel index pos (findSlash relativePath pos)
      | none => some none
    else some (some index)

/-- `FindEntry`, where nothing is read outside the path, the entries and the names. The result is a position of the
entries. -/
def findEntry (fuel : Nat) (path : Text) : Option (Option Nat) :=
  if path.length < archive.pathPrefix.length ∨ archive.entries = [] then none
  else do
    let relativePath := path.drop archive.pathPrefix.length
    let pos ← skipSlashes relativePath 1
    if relativePath = [slash] then some (some 0)
    else walk archive relativePath fuel 0 pos (findSlash relativePath pos)

/-- `FillFindData`. -/
def fillFindData (index : Nat) : Option FindData := do
  let entry ← archive.entries[index]?
  let name ← readName archive.nameTable entry.nameOffset
  some { directory := entry.isDirectory, length := entry.size, name }

def allocateHandle (handles : List HandleData) : Option Nat := handles.findIdx? fun handleData => !handleData.valid

/-- `FindFirst`: the handles, and the one that it returns with what it finds. -/
def findFirst (fuel : Nat) (handles : List HandleData) (folder : Text) :
    Option (List HandleData × Option (Nat × FindData)) := do
  match ← findEntry archive fuel folder with
  | none => some (handles, none)
  | some index =>
    let entry ← archive.entries[index]?
    match allocateHandle handles with
    | none => some (handles, none)
    | some handle =>
      let handles := handles.set handle { valid := true, entry, curOffset := 0 }
      let findData ← fillFindData archive (if entry.isDirectory && entry.physFlags ≠ 0 then entry.virtFlags else index)
      some (handles, some (handle, findData))

/-- `FindNext`: the handles, and what it finds. -/
def findNext (handles : List HandleData) (handle : Nat) : Option (List HandleData × Option FindData) :=
  match handles[handle]?.filter HandleData.valid with
  | none => some (handles, none)
  | some handleData =>
    let curOffset := handleData.curOffset + 1
    let handles := handles.set handle { handleData with curOffset }
    if !handleData.entry.isDirectory || handleData.entry.physFlags ≤ curOffset then some (handles, none)
    else do
      let findData ← fillFindData archive (handleData.entry.virtFlags + curOffset)
      some (handles, some findData)

/-- The calls of `FindNext` up to one that finds nothing. -/
def findRest : Nat → List HandleData → Nat → Option (List FindData)
  | 0, _, _ => none
  | fuel + 1, handles, handle => do
    match ← findNext archive handles handle with
    | (_, none) => some []
    | (handles, some findData) => (findRest fuel handles handle).map (findData :: ·)

/-- The entries that `FindFirst` and the calls of `FindNext` after it yield. -/
def findAll (fuel : Nat) (handles : List HandleData) (folder : Text) : Option (List FindData) := do
  match ← findFirst archive fuel handles folder with
  | (_, none) => some []
  | (handles, some (handle, findData)) => (findRest archive fuel handles handle).map (findData :: ·)

end vfs.RagePackfile7
