import Citizen.Lib.Bits
import Citizen.Lib.PrefixOrder

open Bits Std

namespace kvp

/-- A name, a key or a value, as its bytes. -/
abbrev Text := List Byte

/-- `FormatKey`, for the resource that makes the call. -/
def formatKey (resName key : Text) : Text := [114, 101, 115, 58] ++ resName ++ [58] ++ key

/-- A native with its arguments. -/
inductive Native
  | putResourceKvp (key value : Text)
  | getResourceKvp (key : Text)
  | deleteResourceKvp (key : Text)
  | startFindKvp (key : Text)
  | findKvp (handleIdx : Int)
  | endFindKvp (handleIdx : Int)
  deriving DecidableEq

/-- What a native answers. -/
inductive Result
  /-- The native sets no result. -/
  | unset
  | null
  | value (value : Text)
  | handle (handleIdx : Int)
  | key (keyName : Text)
  /-- `substr` throws `std::out_of_range`. -/
  | outOfRange
  deriving DecidableEq

/-- The entries that an iterator has before it, of those at the time it was made. -/
abbrev Iterator := List (Text × Text)

/-- `FindHandle`. `dbIter` is none while the handle is not open. -/
structure FindHandle where
  dbIter : Option Iterator := none
  key : Text := []

/-- The database, and `g_handles`. -/
structure Store where
  db : TreeMap Text Text := ∅
  handles : Fin 64 → FindHandle := fun _ => {}

/-- `Seek`. -/
def Iterator.seek (entries : Iterator) (key : Text) : Iterator :=
    entries.dropWhile fun entry => compare entry.1 key = .lt

/-- The index of a handle, if it is in the range of `g_handles`. -/
def handleAt (handleIdx : Int) : Option (Fin 64) :=
  if h : handleIdx < 0 ∨ 64 ≤ handleIdx then none else some ⟨handleIdx.toNat, by omega⟩

namespace Store

def putResourceKvp (s : Store) (resName key value : Text) : Store × Result :=
  ({ s with db := s.db.insert (formatKey resName key) value }, .unset)

def getResourceKvp (s : Store) (resName key : Text) : Store × Result :=
  (s, match s.db[formatKey resName key]? with
    | none => .null
    | some value => .value value)

def deleteResourceKvp (s : Store) (resName key : Text) : Store × Result :=
  ({ s with db := s.db.erase (formatKey resName key) }, .unset)

/-- `GetFindHandle`. -/
def getFindHandle (s : Store) : Option (Fin 64) := (List.finRange 64).find? fun i => (s.handles i).dbIter.isNone

def startFindKvp (s : Store) (resName key : Text) : Store × Result :=
  match s.getFindHandle with
  | none => (s, .handle (-1))
  | some i =>
    let key := formatKey resName key
    let handle := { dbIter := some (Iterator.seek s.db.toList key), key }
    ({ s with handles := Function.update s.handles i handle }, .handle i.val)

/-- `FindKvp`. None if it reads through an iterator that is null. -/
def findKvp (s : Store) (resName : Text) (handleIdx : Int) : Option (Store × Result) :=
  match handleAt handleIdx with
  | none => some (s, .unset)
  | some i =>
    match (s.handles i).dbIter with
    | none => none
    | some [] => some (s, .null)
    | some ((k, _) :: next) =>
      if (s.handles i).key.isPrefixOf k then
        if k.length < (formatKey resName []).length then some (s, .outOfRange)
        else
          let handle := { s.handles i with dbIter := some next }
          some ({ s with handles := Function.update s.handles i handle }, .key (k.drop (formatKey resName []).length))
      else some (s, .null)

def endFindKvp (s : Store) (handleIdx : Int) : Store × Result :=
  match handleAt handleIdx with
  | none => (s, .unset)
  | some i =>
    ({ s with handles := Function.update s.handles i { s.handles i with dbIter := none } }, .unset)

/-- A native that a resource calls. -/
def invoke (s : Store) (resName : Text) : Native → Option (Store × Result)
  | .putResourceKvp key value => some (s.putResourceKvp resName key value)
  | .getResourceKvp key => some (s.getResourceKvp resName key)
  | .deleteResourceKvp key => some (s.deleteResourceKvp resName key)
  | .startFindKvp key => some (s.startFindKvp resName key)
  | .findKvp handleIdx => s.findKvp resName handleIdx
  | .endFindKvp handleIdx => some (s.endFindKvp handleIdx)

/-- The results of calls, one after another. None if a call reads through a null iterator. -/
def run (s : Store) : List (Text × Native) → Option (List Result)
  | [] => some []
  | (resName, native) :: calls =>
    (s.invoke resName native).bind fun (s, result) => (s.run calls).map fun results => result :: results

end Store

/-- A formatted key is the part that names the resource, and the key. -/
theorem formatKey_append (resName key : Text) : formatKey resName key = formatKey resName [] ++ key := by
  simp [formatKey]

theorem formatKey_inj {resName key key' : Text} : formatKey resName key = formatKey resName key' ↔ key = key' := by
  rw [formatKey_append, formatKey_append resName key', List.append_cancel_left_eq]

theorem formatKey_prefix {resName key key' : Text} : formatKey resName key <+: formatKey resName key' ↔
    key <+: key' := by
  rw [formatKey_append, formatKey_append resName key', List.prefix_append_right_inj]

theorem compare_formatKey (resName key key' : Text) :
    compare (formatKey resName key) (formatKey resName key') = compare key key' := by
  rw [formatKey_append, formatKey_append resName key', PrefixOrder.compare_append_left]

/-- Only resources of which one name with a colon begins the other can share a formatted key. -/
theorem names_of_formatKey_eq {left right key key' : Text} (hne : left ≠ right)
    (h : formatKey left key = formatKey right key') : left ++ [58] <+: right ∨ right ++ [58] <+: left := by
  have htail : left ++ 58 :: key = right ++ 58 :: key' := by simpa [formatKey] using h
  rcases List.append_eq_append_iff.mp htail with ⟨more, hright, hkey⟩ | ⟨more, hleft, hkey⟩
  · cases more with
    | nil => exact absurd (by simpa using hright.symm) hne
    | cons c more =>
      obtain ⟨rfl, -⟩ := List.cons.inj hkey
      exact .inl ⟨more, by simp [hright]⟩
  · cases more with
    | nil => exact absurd (by simpa using hleft) hne
    | cons c more =>
      obtain ⟨rfl, -⟩ := List.cons.inj hkey
      exact .inr ⟨more, by simp [hleft]⟩

end kvp
