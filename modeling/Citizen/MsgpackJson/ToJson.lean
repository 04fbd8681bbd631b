import Citizen.MsgpackJson.RoundTrip

open Bits AssocMap Std

namespace MsgpackJson

namespace Object

def isString : Object → Bool
  | .str _ => true
  | _ => false

def isInteger : Object → Bool
  | .positiveInteger _ => true
  | .negativeInteger _ => true
  | _ => false

def isFloat32 : Object → Bool
  | .float32 _ => true
  | _ => false

/-- A key as a member name: an integer is written in decimal. -/
def keyText : Object → List Byte
  | .str s => s
  | .bin s => s
  | .positiveInteger n => toString n.toNat
  | .negativeInteger n => toString n.1
  | _ => []

/-- `leaf` holds of everything that is neither an array nor a map, and `keys` of the keys of every map. -/
inductive Every (leaf : Object → Prop) (keys : List Object → Prop) : Object → Prop
  | leaf {o : Object} (hleaf : o.isLeaf = true) (h : leaf o) : Every leaf keys o
  | array {items : List Object} (hitems : ∀ item ∈ items, Every leaf keys item) : Every leaf keys (.array items)
  | map {entries : List (Object × Object)} (hkeys : keys (entries.map Prod.fst))
      (hvalues : ∀ entry ∈ entries, Every leaf keys entry.2) : Every leaf keys (.map entries)

/-- All keys are strings or integers. -/
def KeysNamed : Object → Prop := Every (fun _ => True) fun keys => ∀ k ∈ keys, k.isString = true ∨ k.isInteger = true

/-- The keys of a map are all strings, or all integers that fit an `int`, and no two have the same text. -/
def KeysUniform (keys : List Object) : Prop :=
  ((∀ k ∈ keys, k.isString = true) ∨ ∀ k ∈ keys, k.asInt.isSome = true) ∧ (keys.map keyText).Nodup

/-- Every map has keys of one kind, and there are no floats of 32 bits. -/
def Uniform : Object → Prop := Every (fun o => o.isFloat32 = false) KeysUniform

mutual

/-- The JSON value of a MessagePack value, with every entry of its maps. JSON has nothing for an extension. -/
def json : Object → Value
  | .nil => .null
  | .boolean b => .bool b
  | .positiveInteger n => .integer ⟨n.toNat, Integer.toNat_mem n⟩
  | .negativeInteger n => .integer ⟨n.1, Integer.negative_mem n⟩
  | .float32 d => .double d
  | .float d => .double d
  | .str s => .string s
  | .bin s => .string s
  | .ext _ _ => .null
  | .array items => .array (jsonItems items)
  | .map entries => .object (jsonMembers entries)

def jsonItems : List Object → List Value
  | [] => []
  | item :: items => item.json :: jsonItems items

def jsonMembers : List (Object × Object) → List (List Byte × Value)
  | [] => []
  | (key, value) :: entries => (key.keyText, value.json) :: jsonMembers entries

end

theorem jsonItems_eq (items : List Object) : jsonItems items = items.map json := by
  induction items with
  | nil => rfl
  | cons item items ih => exact congrArg (item.json :: ·) ih

theorem jsonMembers_eq (entries : List (Object × Object)) : jsonMembers entries = entries.map fun e =>
    (e.1.keyText, e.2.json) := by
  induction entries with
  | nil => rfl
  | cons e entries ih => exact congrArg ((e.1.keyText, e.2.json) :: ·) ih

theorem json_array (items : List Object) : (Object.array items).json = .array (items.map json) :=
  congrArg Value.array (jsonItems_eq items)

theorem json_map (entries : List (Object × Object)) :
    (Object.map entries).json = .object (entries.map fun e => (e.1.keyText, e.2.json)) :=
  congrArg Value.object (jsonMembers_eq entries)

/-- `ConvertToJSON` throws nothing and gives the value with all entries. -/
def ConvertsExactly (o : Object) : Prop := ∃ v, convertToJSON o = some v ∧ v.Same o.json

theorem eq_str_of_isString {k : Object} (h : k.isString = true) : k = .str k.keyText := by
  cases k <;> first | rfl | cases h

theorem keyText_of_asInt {k : Object} {n : Int} (h : k.asInt = some n) : k.keyText = toString n := by
  cases k with
  | positiveInteger m =>
    rw [asInt] at h
    split at h
    · rw [← Option.some.inj h, keyText]
    · cases h
  | negativeInteger m =>
    rw [asInt] at h
    split at h
    · rw [← Option.some.inj h, keyText]
    · cases h
  | _ => cases h

theorem keyText_of_asString {k : Object} {s : List Byte} (h : k.asString = some s) : k.keyText = id s := by
  cases k <;> first | exact Option.some.inj h | cases h

theorem isInteger_of_asInt {k : Object} (h : k.asInt.isSome = true) : k.isString = false := by
  cases k <;> first | rfl | cases h

theorem asString_of_isInteger {k : Object} (h : k.isInteger = true) : k.asString = none := by
  cases k <;> first | rfl | cases h

end Object

variable {α : Type}

theorem exists_convertKeys {κ : Type} {key : Object → Option κ} {entries : List (Object × α)}
    (h : ∀ e ∈ entries, (key e.1).isSome = true) : ∃ l, convertKeys key entries = some l := by
  induction entries with
  | nil => exact ⟨[], rfl⟩
  | cons e entries ih =>
    obtain ⟨x, hx⟩ := Option.isSome_iff_exists.mp (h e List.mem_cons_self)
    obtain ⟨l, hl⟩ := ih fun e he => h e (List.mem_cons_of_mem _ he)
    exact ⟨(x, e.2) :: l, by rw [convertKeys, hx, hl]; rfl⟩

/-- Converted keys have the texts of the keys. -/
theorem texts_of_convertKeys {κ : Type} {key : Object → Option κ} {text : κ → List Byte}
    (htext : ∀ k x, key k = some x → k.keyText = text x) {entries : List (Object × α)} {l : List (κ × α)}
    (h : convertKeys key entries = some l) :
    (∀ e ∈ entries, (key e.1).isSome = true) ∧
      entries.map (fun e => (e.1.keyText, e.2)) = l.map fun e => (text e.1, e.2) := by
  induction entries generalizing l with
  | nil =>
    cases h
    exact ⟨fun e he => (nomatch he), rfl⟩
  | cons e entries ih =>
    obtain ⟨x, hx, h⟩ := Option.bind_eq_some_iff.mp h
    obtain ⟨rest, hrest, h⟩ := Option.bind_eq_some_iff.mp h
    cases h
    obtain ⟨hsome, hmap⟩ := ih hrest
    refine ⟨fun e' he => ?_, by rw [List.map_cons, List.map_cons, hmap, htext e.1 x hx]⟩
    rcases List.mem_cons.mp he with rfl | he
    · simp [hx]
    · exact hsome e' he

theorem stringMap_cons_of_not_string {k : Object} (h : k.isString = false) (v : α) (entries : List (Object × α)) :
    stringMap ((k, v) :: entries) = (convertKeys Object.asInt ((k, v) :: entries)).map fun l =>
      ((l.foldl (assign compare) []).map fun e => (toString e.1, e.2)).foldl (assign compareName) [] := by
  have hmap : ∀ o : Option (List (Int × α)), (do
      let intList ← o.map (List.foldl (assign compare) [])
      some ((intList.map fun e => (toString e.1, e.2)).foldl (assign compareName) [])) = o.map fun l =>
        ((l.foldl (assign compare) []).map fun e => (toString e.1, e.2)).foldl (assign compareName) [] := by
    intro o
    cases o <;> rfl
  rw [← hmap]
  cases k <;> first | rfl | cases h

/-- Of integers with distinct texts, the second map has all entries too. -/
theorem intMap_eq_sort {l : List (Int × α)} (hnodup : ((l.map fun e => (toString e.1, e.2)).map Prod.fst).Nodup) :
    ((l.foldl (assign compare) []).map fun e => (toString e.1, e.2)).foldl (assign compareName) [] =
      sort compareName (l.map fun e => (toString e.1, e.2)) := by
  have hints : (l.map Prod.fst).Nodup := by
    rw [List.map_map] at hnodup
    exact List.Nodup.of_map toString (by rwa [List.map_map])
  have hperm := (@sort_perm _ _ compare l).map fun e => (toString e.1, e.2)
  have hsorted : (((sort compare l).map fun e => (toString e.1, e.2)).map Prod.fst).Nodup :=
    (hperm.map Prod.fst).nodup_iff.mpr hnodup
  rw [foldl_eq_sort assign_new hints, foldl_eq_sort assign_new hsorted]
  exact sort_eq_of_perm hperm hsorted

/-- The map of a uniform map has all its entries, in the order of the texts of their keys. -/
theorem stringMap_of_uniform {entries : List (Object × α)} (h : Object.KeysUniform (entries.map Prod.fst)) :
    stringMap entries = some (sort compareName (entries.map fun e => (e.1.keyText, e.2))) := by
  obtain ⟨hkind, hnodup⟩ := h
  have htexts : ((entries.map fun e => (e.1.keyText, e.2)).map Prod.fst).Nodup := by
    rw [List.map_map] at hnodup ⊢
    exact hnodup
  rcases hkind with hstrings | hints
  · have hentries : entries = (entries.map fun e => (e.1.keyText, e.2)).map fun e => (Object.str e.1, e.2) := by
      rw [List.map_map]
      refine (List.map_id' entries).symm.trans (List.map_congr_left fun e he => ?_)
      exact Prod.ext (Object.eq_str_of_isString (hstrings e.1 (List.mem_map_of_mem he))) rfl
    rw [hentries, stringMap_of_strings, foldl_eq_sort assign_new htexts, ← hentries]
  · cases entries with
    | nil => rfl
    | cons e entries =>
      obtain ⟨l, hl⟩ := exists_convertKeys fun e he => hints e.1 (List.mem_map_of_mem he)
      obtain ⟨-, hmap⟩ := texts_of_convertKeys (fun _ _ => Object.keyText_of_asInt) hl
      rw [stringMap_cons_of_not_string (Object.isInteger_of_asInt (hints e.1 List.mem_cons_self)), hl,
        Option.map_some, hmap, intMap_eq_sort (hmap ▸ htexts)]

/-- If the map has as many entries as its object, the keys are uniform. -/
theorem length_stringMap {entries : List (Object × α)} {list : List (List Byte × α)}
    (hnamed : ∀ k ∈ entries.map Prod.fst, k.isString = true ∨ k.isInteger = true) (h : stringMap entries = some list) :
    list.length = entries.length → Object.KeysUniform (entries.map Prod.fst) := by
  intro hlength
  cases entries with
  | nil => exact ⟨.inl fun k hk => (nomatch hk), List.nodup_nil⟩
  | cons e entries =>
    obtain ⟨k, v⟩ := e
    by_cases hstring : k.isString = true
    · obtain ⟨s, rfl⟩ : ∃ s, k = .str s := ⟨_, Object.eq_str_of_isString hstring⟩
      obtain ⟨l, hl, rfl⟩ := Option.map_eq_some_iff.mp h
      obtain ⟨hsome, hmap⟩ := @texts_of_convertKeys α _ _ id (fun _ _ => Object.keyText_of_asString) _ _ hl
      have hlen := congrArg List.length hmap
      rw [List.length_map, List.length_map] at hlen
      have hnodup := nodup_of_length_foldl_assign (hlength.trans hlen)
      refine ⟨.inl fun k hk => ?_, ?_⟩
      · obtain ⟨e, he, rfl⟩ := List.mem_map.mp hk
        rcases hnamed e.1 hk with hk | hk
        · exact hk
        · have hnone := hsome e he
          rw [Object.asString_of_isInteger hk] at hnone
          cases hnone
      · have hkeys := congrArg (List.map Prod.fst) hmap
        rw [List.map_map, List.map_map] at hkeys
        rw [List.map_map]
        exact hkeys ▸ hnodup
    · rw [stringMap_cons_of_not_string (by simpa using hstring)] at h
      obtain ⟨l, hl, rfl⟩ := Option.map_eq_some_iff.mp h
      obtain ⟨hsome, hmap⟩ := texts_of_convertKeys (fun _ _ => Object.keyText_of_asInt) hl
      have hlen := congrArg List.length hmap
      rw [List.length_map, List.length_map] at hlen
      have hlength' : (((l.foldl (assign compare) []).map fun e => (toString e.1, e.2)).foldl (assign compareName)
          []).length = ((k, v) :: entries).length := hlength
      have hfirst := @length_foldl_assign _ _ compare _ l
      have hsecond := @length_foldl_assign _ _ compareName _
        ((l.foldl (assign compare) []).map fun e => (toString e.1, e.2))
      rw [List.length_map] at hsecond
      have hints := @nodup_of_length_foldl_assign _ _ compare _ l (by omega)
      have htexts := @nodup_of_length_foldl_assign _ _ compareName _
        ((l.foldl (assign compare) []).map fun e => (toString e.1, e.2)) (by rw [List.length_map]; omega)
      rw [foldl_eq_sort assign_new hints] at htexts
      have hperm := ((@sort_perm _ _ compare l).map fun e => (toString e.1, e.2)).map Prod.fst
      refine ⟨.inr fun k hk => ?_, ?_⟩
      · obtain ⟨e, he, rfl⟩ := List.mem_map.mp hk
        exact hsome e he
      · rw [← hmap] at hperm
        have hnodup := hperm.nodup_iff.mp htexts
        rw [List.map_map] at hnodup ⊢
        exact hnodup

/-- A uniform value is converted to its JSON value, with the members in order. -/
theorem convertToJSON_of_uniform (o : Object) (huniform : o.Uniform) : convertToJSON o = some o.json.ordered := by
  induction o using Object.induct with
  | leaf o hleaf =>
    cases huniform with
    | leaf _ hfloat =>
      cases o with
      | float32 d => cases hfloat
      | array items => cases hleaf
      | map entries => cases hleaf
      | _ => rfl
    | array _ => cases hleaf
    | map _ _ => cases hleaf
  | array items ih =>
    cases huniform with
    | leaf hleaf _ => cases hleaf
    | array hitems =>
      have hlist : convertList items = some ((items.map Object.json).map Value.ordered) := by
        rw [convertList_eq_some_iff, List.map_map, List.map_map]
        exact List.map_congr_left fun item hitem => ih item hitem (hitems item hitem)
      rw [convertToJSON_array, hlist, Object.json_array, Value.ordered_array]
      rfl
  | map entries ih =>
    cases huniform with
    | leaf hleaf _ => cases hleaf
    | map hkeys hvalues =>
      have hkeys' : Object.KeysUniform ((entries.map fun e => (e.1, convertToJSON e.2)).map Prod.fst) := by
        rw [List.map_map]
        exact hkeys
      have hmembers : ((entries.map fun e => (e.1, convertToJSON e.2)).map fun e => (e.1.keyText, e.2)) =
          (entries.map fun e => (e.1.keyText, e.2.json.ordered)).map fun m => (m.1, some m.2) := by
        rw [List.map_map, List.map_map]
        exact List.map_congr_left fun e he => Prod.ext rfl (ih e he (hvalues e he))
      rw [convertToJSON_map, stringMap_of_uniform hkeys']
      simp only [Option.bind_some, convertValues_sort hmembers]
      rw [Object.json_map, Value.ordered_object, List.map_map]
      rfl

/-- Two lists of values under the same distinct keys, in any order, have the same values. -/
theorem eq_of_perm {ι β : Type} {l : List ι} {key : ι → List Byte} {f g : ι → β} (hnodup : (l.map key).Nodup)
    (hperm : (l.map fun i => (key i, f i)).Perm (l.map fun i => (key i, g i))) : ∀ i ∈ l, f i = g i := by
  intro i hi
  have hmem := hperm.mem_iff.mp (List.mem_map_of_mem hi)
  obtain ⟨j, hj, heq⟩ := List.mem_map.mp hmem
  obtain ⟨hkey, hvalue⟩ := Prod.mk.inj heq
  rw [List.inj_on_of_nodup_map hnodup hj hi hkey] at hvalue
  exact hvalue.symm

theorem uniform_of_same (o : Object) (hnamed : o.KeysNamed) {v : Value} (hconvert : convertToJSON o = some v)
    (hsame : v.ordered = o.json.ordered) : o.Uniform := by
  induction o using Object.induct generalizing v with
  | leaf o hleaf =>
    refine .leaf hleaf ?_
    cases o with
    | float32 d =>
      obtain rfl := Option.some.inj hconvert
      cases hsame
    | _ => rfl
  | array items ih =>
    cases hnamed with
    | leaf hleaf _ => cases hleaf
    | array hnamed =>
      rw [convertToJSON_array] at hconvert
      obtain ⟨values, hlist, rfl⟩ := Option.map_eq_some_iff.mp hconvert
      rw [Object.json_array, Value.ordered_array, Value.ordered_array] at hsame
      have hordered := Value.array.inj hsame
      have hvalues := congrArg (List.map (Option.map Value.ordered)) (convertList_eq_some_iff.mp hlist)
      have hall : items.map (fun o => (convertToJSON o).map Value.ordered) = items.map fun o =>
        some o.json.ordered := by
        have hsome := congrArg (List.map some) hordered
        rw [List.map_map, List.map_map, List.map_map] at hsome
        rw [List.map_map, List.map_map] at hvalues
        exact hvalues.trans hsome
      refine .array fun item hitem => ?_
      obtain ⟨v, hv, hv'⟩ := Option.map_eq_some_iff.mp (List.map_inj_left.mp hall item hitem)
      exact ih item hitem (hnamed item hitem) hv hv'
  | map entries ih =>
    cases hnamed with
    | leaf hleaf _ => cases hleaf
    | map hkeys hnamed =>
      rw [convertToJSON_map] at hconvert
      obtain ⟨list, hlist, hconvert⟩ := Option.bind_eq_some_iff.mp hconvert
      obtain ⟨members, hmembers, hconvert⟩ := Option.bind_eq_some_iff.mp hconvert
      obtain rfl := Option.some.inj hconvert
      have hvalues := convertValues_eq_some_iff.mp hmembers
      rw [Object.json_map, Value.ordered_object, Value.ordered_object, List.map_map] at hsame
      have hmembersPerm : (members.map fun m => (m.1, m.2.ordered)).Perm (entries.map _) :=
        (sort_perm _).symm.trans ((Value.object.inj hsame).symm ▸ sort_perm _)
      have hlength : list.length = (entries.map fun e => (e.1, convertToJSON e.2)).length := by
        have hlen := hmembersPerm.length_eq
        rw [List.length_map, List.length_map] at hlen
        rw [hvalues, List.length_map, List.length_map, hlen]
      have huniform : Object.KeysUniform ((entries.map fun e => (e.1, convertToJSON e.2)).map Prod.fst) := by
        refine length_stringMap ?_ hlist hlength
        rw [List.map_map]
        exact hkeys
      have hlist' := Option.some.inj (hlist.symm.trans (stringMap_of_uniform huniform))
      rw [List.map_map] at huniform hlist'
      have hentriesPerm : (members.map fun m => (m.1, some m.2)).Perm (entries.map _) :=
        (hlist'.symm.trans hvalues) ▸ sort_perm _
      have hall : (entries.map fun e => (e.1.keyText, (convertToJSON e.2).map Value.ordered)).Perm
          (entries.map fun e => (e.1.keyText, some e.2.json.ordered)) := by
        have hleft := hentriesPerm.symm.map fun m => (m.1, m.2.map Value.ordered)
        have hright := hmembersPerm.map fun m => (m.1, some m.2)
        rw [List.map_map, List.map_map] at hleft hright
        exact hleft.trans hright
      have hkeysNodup := huniform.2
      rw [List.map_map] at hkeysNodup
      refine .map huniform fun e he => ?_
      obtain ⟨v, hv, hv'⟩ := Option.map_eq_some_iff.mp (eq_of_perm hkeysNodup hall e he)
      exact ih e he (hnamed e he) hv hv'

/-- A value is converted exactly if the keys of each of its maps are of one kind and have distinct texts, and it has
no floats of 32 bits. -/
theorem convertsExactly_iff {o : Object} (hnamed : o.KeysNamed) : o.ConvertsExactly ↔ o.Uniform := by
  constructor
  · rintro ⟨v, hconvert, hsame⟩
    exact uniform_of_same o hnamed hconvert hsame
  · intro huniform
    exact ⟨o.json.ordered, convertToJSON_of_uniform o huniform, o.json.ordered_ordered⟩

/-- What is lost: names behind their first NUL, and maps whose keys are not of one kind. A value has no member name
twice, and an object only strings and integers for keys. -/
theorem lossless_iff {v : Value} {o : Object} (hdistinct : v.NoDuplicates) (hnamed : o.KeysNamed) :
    (v.RoundTrips ↔ v.NoNul) ∧ (o.ConvertsExactly ↔ o.Uniform) :=
  ⟨roundTrips_iff hdistinct, convertsExactly_iff hnamed⟩

theorem lossless_small : Value.RoundTrips (.object [([0x62], .integer ⟨-7, by decide⟩), ([0x61], .string [0])]) ∧
    Object.ConvertsExactly (.map [(.positiveInteger 10, .nil), (.positiveInteger 2, .float 0)]) := by
  have hexact := @lossless_iff (.object [([0x62], .integer ⟨-7, by decide⟩), ([0x61], .string [0])])
    (.map [(.positiveInteger 10, .nil), (.positiveInteger 2, .float 0)]) (.object (by decide) ?_) (.map (by decide) ?_)
  · refine ⟨hexact.1.mpr (.object (by decide) ?_), hexact.2.mpr (.map ⟨.inr (by decide), by decide⟩ ?_)⟩
    · exact List.forall_mem_cons.mpr ⟨.integer _, List.forall_mem_cons.mpr ⟨.string _, nofun⟩⟩
    · exact List.forall_mem_cons.mpr ⟨.leaf rfl rfl, List.forall_mem_cons.mpr ⟨.leaf rfl rfl, nofun⟩⟩
  · exact List.forall_mem_cons.mpr ⟨.integer _, List.forall_mem_cons.mpr ⟨.string _, nofun⟩⟩
  · exact List.forall_mem_cons.mpr ⟨.leaf rfl trivial, List.forall_mem_cons.mpr ⟨.leaf rfl trivial, nofun⟩⟩

/-- A name with a NUL is cut, and a map with an integer and a string for keys throws. -/
theorem not_lossless : (Value.NoDuplicates (.object [([0x61, 0, 0x62], .null)]) ∧
    ¬ Value.RoundTrips (.object [([0x61, 0, 0x62], .null)])) ∧
      Object.KeysNamed (.map [(.positiveInteger 1, .nil), (.str [0x61], .nil)]) ∧
        ¬ Object.ConvertsExactly (.map [(.positiveInteger 1, .nil), (.str [0x61], .nil)]) := by
  refine ⟨⟨.object (by decide) (List.forall_mem_cons.mpr ⟨.null, nofun⟩), ?_⟩, .map (by decide) ?_, ?_⟩
  · rintro ⟨v, hback, hsame⟩
    have hcut : convertToJSON (convertToMsgPack (.object [([0x61, 0, 0x62], .null)])) =
      some (.object [([0x61], .null)]) := rfl
    obtain rfl := Option.some.inj (hcut.symm.trans hback)
    change Value.object [([0x61], .null)] = .object [([0x61, 0, 0x62], .null)] at hsame
    simp at hsame
  · exact List.forall_mem_cons.mpr ⟨.leaf rfl trivial, List.forall_mem_cons.mpr ⟨.leaf rfl trivial, nofun⟩⟩
  · rintro ⟨v, hconvert, -⟩
    have hthrows : convertToJSON (.map [(.positiveInteger 1, .nil), (.str [0x61], .nil)]) = none := rfl
    rw [hthrows] at hconvert
    cases hconvert

end MsgpackJson
