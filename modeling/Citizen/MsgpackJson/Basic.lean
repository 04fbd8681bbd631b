import Citizen.Lib.AssocMap
import Citizen.Lib.Bits

open Bits AssocMap Std

namespace MsgpackJson

/-- An integer that a `rapidjson::Value` can hold: an `int64_t` or a `uint64_t`. -/
abbrev Integer := { n : Int // -2 ^ 63 ≤ n ∧ n < 2 ^ 64 }

theorem Integer.toNat_mem (n : BitVec 64) : -2 ^ 63 ≤ (n.toNat : Int) ∧ (n.toNat : Int) < 2 ^ 64 := by omega

theorem Integer.negative_mem (n : { n : Int // -2 ^ 63 ≤ n ∧ n < 0 }) : -2 ^ 63 ≤ n.1 ∧ n.1 < 2 ^ 64 := by omega

/-- A `rapidjson::Value`. A double is its bits. -/
inductive Value where
  | null
  | bool (b : Bool)
  | integer (n : Integer)
  | double (d : BitVec 64)
  | string (s : List Byte)
  | array (items : List Value)
  | object (members : List (List Byte × Value))

/-- A `msgpack::object`. A float of 32 bits has a type of its own, and is kept as a double as well. -/
inductive Object where
  | nil
  | boolean (b : Bool)
  | positiveInteger (n : BitVec 64)
  | negativeInteger (n : { n : Int // -2 ^ 63 ≤ n ∧ n < 0 })
  | float32 (d : BitVec 64)
  | float (d : BitVec 64)
  | str (s : List Byte)
  | bin (s : List Byte)
  | ext (type : BitVec 8) (data : List Byte)
  | array (items : List Object)
  | map (entries : List (Object × Object))

/-- The order of `std::string`s. -/
def compareName : List Byte → List Byte → Ordering := compareOn fun s => s.map BitVec.toNat

/-- `std::to_string(int)`. -/
def toString (n : Int) : List Byte := n.repr.toList.map fun c => BitVec.ofNat 8 c.toNat

/-- `std::string(const char*)`, which ends at the first NUL. -/
def cString (s : List Byte) : List Byte := s.takeWhile (· ≠ 0)

/-- `msgpack::object{ n }`: the sign of a number decides its type. -/
def ofInteger (n : Integer) : Object :=
  if h : n.1 < 0 then .negativeInteger ⟨n.1, n.2.1, h⟩ else .positiveInteger (BitVec.ofInt 64 n.1)

mutual

/-- `ConvertToMsgPack`. The members are put in a `std::map`. -/
def convertToMsgPack : Value → Object
  | .null => .nil
  | .bool b => .boolean b
  | .integer n => ofInteger n
  | .double d => .float d
  | .string s => .str s
  | .array items => .array (convertItems items)
  | .object members => .map (((convertMembers members).foldl (emplace compareName) []).map fun e => (.str e.1, e.2))

def convertItems : List Value → List Object
  | [] => []
  | item :: items => convertToMsgPack item :: convertItems items

def convertMembers : List (List Byte × Value) → List (List Byte × Object)
  | [] => []
  | (name, value) :: members => (cString name, convertToMsgPack value) :: convertMembers members

end

/-- `convert` to a `std::string`. -/
def Object.asString : Object → Option (List Byte)
  | .str s => some s
  | .bin s => some s
  | _ => none

/-- `convert` to an `int`. -/
def Object.asInt : Object → Option Int
  | .positiveInteger n => if n.toNat < 2 ^ 31 then some n.toNat else none
  | .negativeInteger n => if -2 ^ 31 ≤ n.1 then some n.1 else none
  | _ => none

/-- The entries with their keys converted. `none` is the `msgpack::type_error` that one of them throws. -/
def convertKeys {κ α : Type} (key : Object → Option κ) : List (Object × α) → Option (List (κ × α))
  | [] => some []
  | (k, v) :: entries => do
    let k ← key k
    let rest ← convertKeys key entries
    some ((k, v) :: rest)

/-- The `std::map<std::string, msgpack::object>` of a map: the first key decides how the keys are converted. A map
without entries has no `ptr`. -/
def stringMap {α : Type} (entries : List (Object × α)) : Option (List (List Byte × α)) :=
  match entries with
  | [] => some []
  | (.str _, _) :: _ => (convertKeys Object.asString entries).map (List.foldl (assign compareName) [])
  | _ => do
    let intList ← (convertKeys Object.asInt entries).map (List.foldl (assign compare) [])
    some ((intList.map fun e => (toString e.1, e.2)).foldl (assign compareName) [])

/-- The values of a map, if all of them could be converted. -/
def convertValues {κ α : Type} : List (κ × Option α) → Option (List (κ × α))
  | [] => some []
  | (k, v) :: entries => do
    let v ← v
    let rest ← convertValues entries
    some ((k, v) :: rest)

mutual

/-- `ConvertToJSON`. A value is an `Option` until its entry is converted, which those that are overwritten never
are. -/
def convertToJSON : Object → Option Value
  | .boolean b => some (.bool b)
  | .positiveInteger n => some (.integer ⟨n.toNat, Integer.toNat_mem n⟩)
  | .negativeInteger n => some (.integer ⟨n.1, Integer.negative_mem n⟩)
  | .float d => some (.double d)
  | .str s => some (.string s)
  | .bin s => some (.string s)
  | .array items => (convertList items).map Value.array
  | .map entries => do
    let list ← stringMap (convertEntries entries)
    let members ← convertValues list
    some (.object members)
  | _ => some .null

def convertList : List Object → Option (List Value)
  | [] => some []
  | entry :: list => do
    let inValue ← convertToJSON entry
    let rest ← convertList list
    some (inValue :: rest)

def convertEntries : List (Object × Object) → List (Object × Option Value)
  | [] => []
  | (key, value) :: entries => (key, convertToJSON value) :: convertEntries entries

end

mutual

/-- The value with the members of its objects in the order of their names. -/
def Value.ordered : Value → Value
  | .array items => .array (orderedItems items)
  | .object members => .object (sort compareName (orderedMembers members))
  | value => value

def orderedItems : List Value → List Value
  | [] => []
  | item :: items => item.ordered :: orderedItems items

def orderedMembers : List (List Byte × Value) → List (List Byte × Value)
  | [] => []
  | (name, value) :: members => (name, value.ordered) :: orderedMembers members

end

/-- Equal up to the order of members. -/
def Value.Same (v v' : Value) : Prop := v.ordered = v'.ordered

@[elab_as_elim] theorem Value.induct {motive : Value → Prop} (null : motive .null) (bool : ∀ b, motive (.bool b))
    (integer : ∀ n, motive (.integer n)) (double : ∀ d, motive (.double d)) (string : ∀ s, motive (.string s))
    (array : ∀ items, (∀ item ∈ items, motive item) → motive (.array items))
    (object : ∀ members, (∀ member ∈ members, motive member.2) → motive (.object members)) (v : Value) : motive v :=
  match v with
  | .null => null
  | .bool b => bool b
  | .integer n => integer n
  | .double d => double d
  | .string s => string s
  | .array items => array items fun item hitem =>
    have _hlt := List.sizeOf_lt_of_mem hitem
    induct null bool integer double string array object item
  | .object members => object members fun member hmember =>
    have _hlt := List.sizeOf_lt_of_mem hmember
    induct null bool integer double string array object member.2
termination_by sizeOf v
decreasing_by
  · simp only [Value.array.sizeOf_spec]
    omega
  · obtain ⟨name, value⟩ := member
    simp only [Value.object.sizeOf_spec, Prod.mk.sizeOf_spec] at *
    omega

/-- A leaf is neither an array nor a map. -/
def Object.isLeaf : Object → Bool
  | .array _ => false
  | .map _ => false
  | _ => true

@[elab_as_elim] theorem Object.induct {motive : Object → Prop} (leaf : ∀ o, o.isLeaf = true → motive o)
    (array : ∀ items, (∀ item ∈ items, motive item) → motive (.array items))
    (map : ∀ entries, (∀ entry ∈ entries, motive entry.2) → motive (.map entries)) (o : Object) : motive o :=
  match o with
  | .nil => leaf _ rfl
  | .boolean _ => leaf _ rfl
  | .positiveInteger _ => leaf _ rfl
  | .negativeInteger _ => leaf _ rfl
  | .float32 _ => leaf _ rfl
  | .float _ => leaf _ rfl
  | .str _ => leaf _ rfl
  | .bin _ => leaf _ rfl
  | .ext _ _ => leaf _ rfl
  | .array items => array items fun item hitem =>
    have _hlt := List.sizeOf_lt_of_mem hitem
    induct leaf array map item
  | .map entries => map entries fun entry hentry =>
    have _hlt := List.sizeOf_lt_of_mem hentry
    induct leaf array map entry.2
termination_by sizeOf o
decreasing_by
  · simp only [Object.array.sizeOf_spec]
    omega
  · obtain ⟨key, value⟩ := entry
    simp only [Object.map.sizeOf_spec, Prod.mk.sizeOf_spec] at *
    omega

theorem convertItems_eq (items : List Value) : convertItems items = items.map convertToMsgPack := by
  induction items with
  | nil => rfl
  | cons item items ih => exact congrArg (convertToMsgPack item :: ·) ih

theorem convertMembers_eq (members : List (List Byte × Value)) :
    convertMembers members = members.map fun m => (cString m.1, convertToMsgPack m.2) := by
  induction members with
  | nil => rfl
  | cons m members ih => exact congrArg ((cString m.1, convertToMsgPack m.2) :: ·) ih

theorem convertEntries_eq (entries : List (Object × Object)) :
    convertEntries entries = entries.map fun e => (e.1, convertToJSON e.2) := by
  induction entries with
  | nil => rfl
  | cons e entries ih => exact congrArg ((e.1, convertToJSON e.2) :: ·) ih

theorem orderedItems_eq (items : List Value) : orderedItems items = items.map Value.ordered := by
  induction items with
  | nil => rfl
  | cons item items ih => exact congrArg (item.ordered :: ·) ih

theorem orderedMembers_eq (members : List (List Byte × Value)) :
    orderedMembers members = members.map fun m => (m.1, m.2.ordered) := by
  induction members with
  | nil => rfl
  | cons m members ih => exact congrArg ((m.1, m.2.ordered) :: ·) ih

theorem convertToMsgPack_array (items : List Value) :
    convertToMsgPack (.array items) = .array (items.map convertToMsgPack) :=
  congrArg Object.array (convertItems_eq items)

theorem convertToMsgPack_object (members : List (List Byte × Value)) :
    convertToMsgPack (.object members) =
      .map (((members.map fun m => (cString m.1, convertToMsgPack m.2)).foldl (emplace compareName) []).map fun e =>
        (.str e.1, e.2)) := by
  rw [← convertMembers_eq]
  rfl

theorem convertToJSON_array (items : List Object) :
    convertToJSON (.array items) = (convertList items).map Value.array := rfl

theorem convertToJSON_map (entries : List (Object × Object)) :
    convertToJSON (.map entries) = (stringMap (entries.map fun e => (e.1, convertToJSON e.2))).bind fun list =>
      (convertValues list).bind fun members => some (.object members) := by
  rw [← convertEntries_eq]
  rfl

theorem Value.ordered_array (items : List Value) : (Value.array items).ordered = .array (items.map Value.ordered) :=
  congrArg Value.array (orderedItems_eq items)

theorem Value.ordered_object (members : List (List Byte × Value)) :
    (Value.object members).ordered = .object (sort compareName (members.map fun m => (m.1, m.2.ordered))) := by
  rw [← orderedMembers_eq]
  rfl

theorem convertList_eq_some_iff {list : List Object} {values : List Value} :
    convertList list = some values ↔ list.map convertToJSON = values.map some := by
  induction list generalizing values with
  | nil => cases values <;> simp [convertList]
  | cons o list ih =>
    rw [convertList]
    cases values with
    | nil => cases convertToJSON o <;> cases convertList list <;> simp
    | cons v values =>
      simp only [Option.bind_eq_bind, Option.bind_eq_some_iff, Option.some.injEq, List.cons.injEq, List.map_cons]
      constructor
      · rintro ⟨v, hv, rest, hrest, rfl, rfl⟩
        exact ⟨hv, ih.mp hrest⟩
      · rintro ⟨hv, hrest⟩
        exact ⟨v, hv, values, ih.mpr hrest, rfl, rfl⟩

theorem convertValues_eq_some_iff {κ α : Type} {list : List (κ × Option α)} {members : List (κ × α)} :
    convertValues list = some members ↔ list = members.map fun m => (m.1, some m.2) := by
  induction list generalizing members with
  | nil => cases members <;> simp [convertValues]
  | cons e list ih =>
    obtain ⟨k, v⟩ := e
    rw [convertValues]
    cases members with
    | nil => cases v <;> cases convertValues list <;> simp
    | cons m members =>
      simp only [Option.bind_eq_bind, Option.bind_eq_some_iff, Option.some.injEq, List.cons.injEq, List.map_cons]
      constructor
      · rintro ⟨v, rfl, rest, hrest, rfl, rfl⟩
        exact ⟨rfl, ih.mp hrest⟩
      · rintro ⟨heq, hrest⟩
        obtain ⟨rfl, rfl⟩ := Prod.mk.inj heq
        exact ⟨m.2, rfl, members, ih.mpr hrest, rfl, rfl⟩

theorem convertKeys_eq_some_iff {κ α : Type} {key : Object → Option κ} {entries : List (Object × α)}
    {list : List (κ × α)} :
    convertKeys key entries = some list ↔
      entries.map (fun e => (key e.1, e.2)) = list.map fun e => (some e.1, e.2) := by
  induction entries generalizing list with
  | nil => cases list <;> simp [convertKeys]
  | cons e entries ih =>
    obtain ⟨k, v⟩ := e
    rw [convertKeys]
    cases list with
    | nil => cases key k <;> cases convertKeys key entries <;> simp
    | cons e list =>
      simp only [Option.bind_eq_bind, Option.bind_eq_some_iff, Option.some.injEq, List.cons.injEq, List.map_cons,
        Prod.mk.injEq]
      constructor
      · rintro ⟨k, hk, rest, hrest, rfl, rfl⟩
        exact ⟨⟨hk, rfl⟩, ih.mp hrest⟩
      · rintro ⟨⟨hk, rfl⟩, hrest⟩
        exact ⟨e.1, hk, list, ih.mpr hrest, rfl, rfl⟩

instance : TransCmp compareName := inferInstanceAs (TransCmp (compareOn fun s : List Byte => s.map BitVec.toNat))

instance : LawfulEqCmp compareName where
  eq_of_compare h := List.map_injective_iff.mpr (fun _ _ h => BitVec.eq_of_toNat_eq h)
    (Std.LawfulEqOrd.eq_of_compare h)

end MsgpackJson
