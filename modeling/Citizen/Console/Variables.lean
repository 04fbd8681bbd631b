import Citizen.Console.SaveConfiguration

open console (Text sameName)

namespace ConsoleVariables

/-- What `ConsoleArgumentType`, `ConsoleArgumentTraits` and `Constraints` give for the types of the variables. -/
structure Arguments (Kind Value : Type) where
  /-- `std::string`. -/
  string : Kind
  /-- The empty string. -/
  empty : Value
  /-- `ParseArgument`. -/
  parse : Kind → Text → Option Value
  /-- `UnparseArgument`. -/
  unparse : Value → Text
  /-- `Equal`. -/
  equal : Value → Value → Bool
  /-- `Compare` of a value with its least and its greatest one. -/
  compare : Value → Value → Value → Bool

/-- `ConsoleVariableFlags`. -/
structure Flags where
  archive : Bool := false
  modified : Bool := false
  serverInfo : Bool := false
  replicated : Bool := false
  readOnly : Bool := false
  deriving DecidableEq

namespace Flags

/-- `|`. -/
def or (flags other : Flags) : Flags where
  archive := flags.archive || other.archive
  modified := flags.modified || other.modified
  serverInfo := flags.serverInfo || other.serverInfo
  replicated := flags.replicated || other.replicated
  readOnly := flags.readOnly || other.readOnly

/-- `RemoveEntryFlags` of `ConVar_Modified`. -/
def unmodified (flags : Flags) : Flags := { flags with modified := false }

/-- `AddEntryFlags` of `ConVar_Modified`, when `modifies` holds. -/
def mark (flags : Flags) (modifies : Bool) : Flags := flags.or { modified := modifies }

/-- `ConVar_Replicated | ConVar_Modified` are both there. -/
def pending (flags : Flags) : Bool := flags.replicated && flags.modified

@[simp]
theorem or_modified (flags other : Flags) : (flags.or other).modified = (flags.modified || other.modified) := rfl

@[simp]
theorem or_replicated (flags other : Flags) :
    (flags.or other).replicated = (flags.replicated || other.replicated) := rfl

@[simp]
theorem mark_modified (flags : Flags) (modifies : Bool) :
    (flags.mark modifies).modified = (flags.modified || modifies) := rfl

@[simp]
theorem mark_replicated (flags : Flags) (modifies : Bool) : (flags.mark modifies).replicated = flags.replicated :=
  Bool.or_false _

end Flags

variable {Kind Value : Type}

/-- `ConsoleVariableEntry<T>`, for the type `kind`. -/
structure ConsoleVariableEntry (Kind Value : Type) where
  kind : Kind
  curValue : Value
  /-- What the program variable that it tracks holds. -/
  trackingVar : Option Value
  /-- `m_minValue` and `m_maxValue`, when it has constraints. -/
  constraints : Option (Value × Value)
  deriving DecidableEq

namespace ConsoleVariableEntry

variable (types : Arguments Kind Value)

/-- The value that `GetValue` takes from the tracked variable. -/
def tracked (var : ConsoleVariableEntry Kind Value) : Value :=
  match var.trackingVar with
  | some value => if types.equal value var.curValue then var.curValue else value
  | none => var.curValue

/-- `GetValue`: the text, and below what it does to the variable. -/
def getValue (var : ConsoleVariableEntry Kind Value) : Text := types.unparse (var.tracked types)

def refreshed (var : ConsoleVariableEntry Kind Value) : ConsoleVariableEntry Kind Value :=
  { var with curValue := var.tracked types }

/-- The constraints let a value in. -/
def admits (var : ConsoleVariableEntry Kind Value) (newValue : Value) : Bool :=
  match var.constraints with
  | some (minValue, maxValue) => types.compare newValue minValue maxValue
  | none => true

/-- What `SetRawValue` leaves behind when the constraints let the value in. -/
def setRawValue (var : ConsoleVariableEntry Kind Value) (newValue : Value) : ConsoleVariableEntry Kind Value :=
  { var with curValue := newValue, trackingVar := var.trackingVar.map fun _ => newValue }

/-- The value that `SetValue` sets: the variable is not read only, and the text is one of its type, within the
constraints. -/
def accepts (var : ConsoleVariableEntry Kind Value) (readOnly : Bool) (value : Text) : Option Value :=
  if readOnly then none else (types.parse var.kind value).filter (var.admits types)

/-- `SetValue`, under the flags of the entry: the variable, and whether it marks the entry modified. -/
def setValue (var : ConsoleVariableEntry Kind Value) (readOnly : Bool) (value : Text) :
    ConsoleVariableEntry Kind Value × Bool :=
  match var.accepts types readOnly value with
  | some newValue => (var.setRawValue newValue, !types.equal var.curValue newValue)
  | none => (var, false)

/-- `SetTrackingVar`, unless there is none to set. -/
def track (var : ConsoleVariableEntry Kind Value) (tracks : Bool) : ConsoleVariableEntry Kind Value :=
  if tracks then { var with trackingVar := some var.curValue } else var

/-- The program writes to the variable that is tracked. -/
def assign (var : ConsoleVariableEntry Kind Value) (value : Value) : ConsoleVariableEntry Kind Value :=
  { var with trackingVar := var.trackingVar.map fun _ => value }

/-- A new variable. -/
def ofDefault (kind : Kind) (defaultValue : Value) : ConsoleVariableEntry Kind Value where
  kind
  curValue := defaultValue
  trackingVar := none
  constraints := none

@[simp]
theorem getValue_refreshed (var : ConsoleVariableEntry Kind Value) :
    (var.refreshed types).getValue types = var.getValue types := by
  obtain ⟨kind, curValue, trackingVar, constraints⟩ := var
  cases trackingVar with
  | none => rfl
  | some value =>
    simp only [getValue, refreshed, tracked]
    by_cases hequal : types.equal value curValue = true
    · simp [hequal]
    · simp [hequal]

/-- A value that was set is what the variable holds and what the program sees. -/
@[simp]
theorem getValue_setRawValue (var : ConsoleVariableEntry Kind Value) (newValue : Value) :
    (var.setRawValue newValue).getValue types = types.unparse newValue := by
  obtain ⟨kind, curValue, trackingVar, constraints⟩ := var
  cases trackingVar with
  | none => rfl
  | some value => exact congrArg types.unparse (ite_self newValue)

end ConsoleVariableEntry

/-- An entry of `m_entries`. -/
structure Entry (Kind Value : Type) where
  name : Text
  flags : Flags
  var : ConsoleVariableEntry Kind Value
  deriving DecidableEq

namespace Entry

variable (types : Arguments Kind Value)

/-- The value of the variable, as `GetValue` gives it. -/
def value (entry : Entry Kind Value) : Text := entry.var.getValue types

/-- The entry after `GetValue`. -/
def refreshed (entry : Entry Kind Value) : Entry Kind Value := { entry with var := entry.var.refreshed types }

/-- `SetValue` of its variable. -/
def setValue (entry : Entry Kind Value) (value : Text) : Entry Kind Value :=
  let result := entry.var.setValue types entry.flags.readOnly value
  { entry with flags := entry.flags.mark result.2, var := result.1 }

/-- `entry->flags |= addFlags`. -/
def addFlags (entry : Entry Kind Value) (flags : Flags) : Entry Kind Value :=
    { entry with flags := entry.flags.or flags }

end Entry

/-- `m_entries`, a map whose names ignore the case. -/
structure ConsoleVariableManager (Kind Value : Type) where
  entries : List (Entry Kind Value) := []
  distinct : entries.Pairwise fun left right => ¬ sameName left.name right.name := by simp

namespace ConsoleVariableManager

variable (manager : ConsoleVariableManager Kind Value)

/-- `m_entries.find`. -/
def find (name : Text) : Option (Entry Kind Value) := manager.entries.find? fun entry => sameName entry.name name

/-- The entry of a name is changed in place. -/
def modify (name : Text) (f : Entry Kind Value → Entry Kind Value) (hname : ∀ entry, (f entry).name = entry.name) :
    ConsoleVariableManager Kind Value where
  entries := manager.entries.map fun entry => if sameName entry.name name then f entry else entry
  distinct := by
    refine List.pairwise_map.mpr (manager.distinct.imp ?_)
    intro left right hne
    split_ifs <;> simpa only [hname] using hne

/-- `Register`, which removes an entry that exists. -/
def register (name : Text) (flags : Flags) (var : ConsoleVariableEntry Kind Value) :
    ConsoleVariableManager Kind Value where
  entries := manager.entries.filter (fun entry => ¬ sameName entry.name name) ++ [{ name, flags, var }]
  distinct := by
    refine List.pairwise_append.mpr ⟨manager.distinct.filter _, List.pairwise_singleton _ _, ?_⟩
    intro left hleft right hright
    rw [List.mem_singleton.mp hright]
    simpa using (List.mem_filter.mp hleft).2

/-- Every entry is changed in place. -/
def mapEntries (f : Entry Kind Value → Entry Kind Value) (hname : ∀ entry, (f entry).name = entry.name) :
    ConsoleVariableManager Kind Value where
  entries := manager.entries.map f
  distinct := by
    refine List.pairwise_map.mpr (manager.distinct.imp ?_)
    intro left right hne
    rwa [hname, hname]

/-- `CreateVariableEntry`. An entry of another type gives its value to the new one. -/
def createVariableEntry [DecidableEq Kind] (types : Arguments Kind Value) (name : Text) (kind : Kind)
    (defaultValue : Value) :
    ConsoleVariableEntry Kind Value :=
  match manager.find name with
  | some old =>
    if old.var.kind = kind then old.var
    else ((ConsoleVariableEntry.ofDefault kind defaultValue).setValue types old.flags.readOnly (old.value types)).1
  | none => .ofDefault kind defaultValue

/-- The commands `set`, `seta`, `sets` and `setr`, which differ in the flags that they add. -/
def setCommand [DecidableEq Kind] (types : Arguments Kind Value) (addFlags : Flags) (name value : Text) :
    ConsoleVariableManager Kind Value :=
  match manager.find name with
  | some _ => manager.modify name (fun entry => (entry.setValue types value).addFlags addFlags) fun _ => rfl
  | none =>
    let created := manager.register name (({ modified := true } : Flags).or addFlags)
      (manager.createVariableEntry types name types.string types.empty)
    created.modify name (fun entry => entry.setValue types value) fun _ => rfl

/-- The map holds one entry for a name. -/
theorem find_of_mem {entry : Entry Kind Value} {name : Text} (hmem : entry ∈ manager.entries)
    (hname : sameName entry.name name) : manager.find name = some entry := by
  obtain ⟨before, after, hsplit⟩ := List.append_of_mem hmem
  have hdistinct := manager.distinct
  rw [hsplit, List.pairwise_append] at hdistinct
  obtain ⟨-, -, hbefore⟩ := hdistinct
  rw [find, hsplit, List.find?_append, List.find?_eq_none.mpr, List.find?_cons_of_pos (by simpa using hname),
    Option.none_or]
  intro other hother
  have hne := hbefore other hother entry List.mem_cons_self
  have hother : ¬ sameName other.name name := fun h => hne (h.trans hname.symm)
  simpa using hother

theorem mem_modify {name : Text} {f : Entry Kind Value → Entry Kind Value}
    {hname : ∀ entry, (f entry).name = entry.name} {entry : Entry Kind Value}
    (h : entry ∈ (manager.modify name f hname).entries) :
    (entry ∈ manager.entries ∧ ¬ sameName entry.name name) ∨
      ∃ old ∈ manager.entries, sameName old.name name ∧ entry = f old := by
  obtain ⟨old, hold, rfl⟩ := List.mem_map.mp h
  split_ifs with hsame
  · exact .inr ⟨old, hold, hsame, rfl⟩
  · exact .inl ⟨hold, hsame⟩

theorem mem_register {name : Text} {flags : Flags} {var : ConsoleVariableEntry Kind Value} {entry : Entry Kind Value}
    (h : entry ∈ (manager.register name flags var).entries) :
    (entry ∈ manager.entries ∧ ¬ sameName entry.name name) ∨ entry = { name, flags, var } := by
  rcases List.mem_append.mp h with hold | hnew
  · obtain ⟨hmem, hother⟩ := List.mem_filter.mp hold
    exact .inl ⟨hmem, by simpa using hother⟩
  · exact .inr (List.mem_singleton.mp hnew)

end ConsoleVariableManager

end ConsoleVariables
