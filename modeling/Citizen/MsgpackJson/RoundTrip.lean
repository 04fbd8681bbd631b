import Citizen.MsgpackJson.Basic

open Bits AssocMap Std

namespace MsgpackJson

/-- `p` holds of the member names of every object. -/
inductive Value.EveryObject (p : List (List Byte) → Prop) : Value → Prop
  | null : EveryObject p .null
  | bool (b : Bool) : EveryObject p (.bool b)
  | integer (n : Integer) : EveryObject p (.integer n)
  | double (d : BitVec 64) : EveryObject p (.double d)
  | string (s : List Byte) : EveryObject p (.string s)
  | array {items : List Value} (hitems : ∀ item ∈ items, EveryObject p item) : EveryObject p (.array items)
  | object {members : List (List Byte × Value)} (hnames : p (members.map Prod.fst))
      (hmembers : ∀ member ∈ members, EveryObject p member.2) : EveryObject p (.object members)

namespace Value

/-- No object has a member name twice. -/
def NoDuplicates : Value → Prop := EveryObject List.Nodup

/-- No member name has a NUL. -/
def NoNul : Value → Prop := EveryObject fun names => ∀ name ∈ names, (0 : Byte) ∉ name

/-- The value comes back, up to the order of members. -/
def RoundTrips (v : Value) : Prop := ∃ v', convertToJSON (convertToMsgPack v) = some v' ∧ v'.Same v

end Value

theorem convertToJSON_ofInteger (n : Integer) : convertToJSON (ofInteger n) = some (.integer n) := by
  obtain ⟨n, hlo, hhi⟩ := n
  unfold ofInteger
  split
  next => rfl
  next hneg =>
    dsimp only at hneg ⊢
    have hvalue : ((BitVec.ofInt 64 n).toNat : Int) = n := by
      rw [BitVec.toNat_ofInt]
      omega
    change some (Value.integer ⟨((BitVec.ofInt 64 n).toNat : Int), _⟩) = _
    simp only [hvalue]

theorem cString_of_noNul {s : List Byte} (h : (0 : Byte) ∉ s) : cString s = s := by
  refine List.takeWhile_eq_self_iff.mpr fun b hb => ?_
  have hne : b ≠ 0 := fun hzero => h (hzero ▸ hb)
  simpa using hne

theorem cString_noNul (s : List Byte) : (0 : Byte) ∉ cString s := by
  intro hmem
  have hpass := List.mem_takeWhile_imp hmem
  simp at hpass

/-- Where all keys are strings, they are taken as they are. -/
theorem stringMap_of_strings {α : Type} (l : List (List Byte × α)) :
    stringMap (l.map fun e => (Object.str e.1, e.2)) = some (l.foldl (assign compareName) []) := by
  have hkeys : convertKeys Object.asString (l.map fun e => (Object.str e.1, e.2)) = some l := by
    rw [convertKeys_eq_some_iff, List.map_map]
    rfl
  cases l with
  | nil => rfl
  | cons e l =>
    rw [List.map_cons] at hkeys ⊢
    rw [stringMap, hkeys, Option.map_some]

/-- A map of values that can be converted is an object with its members in order. -/
theorem convertValues_sort {entries : List (List Byte × Option Value)} {members : List (List Byte × Value)}
    (h : entries = members.map fun m => (m.1, some m.2)) :
    convertValues (sort compareName entries) = some (sort compareName members) := by
  rw [convertValues_eq_some_iff, h, ← map_sort]

theorem convertToJSON_strings (l : List (List Byte × Object)) :
    convertToJSON (.map (l.map fun e => (Object.str e.1, e.2))) =
      (convertValues ((l.map fun e => (e.1, convertToJSON e.2)).foldl (assign compareName) [])).map Value.object := by
  have hmap := stringMap_of_strings (l.map fun e => (e.1, convertToJSON e.2))
  rw [List.map_map] at hmap
  rw [convertToJSON_map, List.map_map]
  rw [show ((fun e : Object × Object => (e.1, convertToJSON e.2)) ∘ fun e : List Byte × Object =>
    (Object.str e.1, e.2)) =
    (fun e => (Object.str e.1, e.2)) ∘ fun e => (e.1, convertToJSON e.2) from rfl, hmap, Option.bind_some,
      Option.map_eq_bind]
  rfl

/-- A value that can come back does so with its members in order. -/
theorem convertToJSON_convertToMsgPack (v : Value) (hdistinct : v.NoDuplicates) (hnul : v.NoNul) :
    convertToJSON (convertToMsgPack v) = some v.ordered := by
  induction v using Value.induct with
  | null => rfl
  | bool b => rfl
  | integer n => exact convertToJSON_ofInteger n
  | double d => rfl
  | string s => rfl
  | array items ih =>
    cases hdistinct with
    | array hdistinct =>
      cases hnul with
      | array hnul =>
        have hlist : convertList (items.map convertToMsgPack) = some (items.map Value.ordered) := by
          rw [convertList_eq_some_iff, List.map_map, List.map_map]
          exact List.map_congr_left fun item hitem => ih item hitem (hdistinct item hitem) (hnul item hitem)
        rw [convertToMsgPack_array, convertToJSON_array, hlist, Value.ordered_array]
        rfl
  | object members ih =>
    cases hdistinct with
    | object hnames hdistinct =>
      cases hnul with
      | object hclean hnul =>
        have hcut : (members.map fun m => (cString m.1, convertToMsgPack m.2)) =
            members.map fun m => (m.1, convertToMsgPack m.2) := by
          refine List.map_congr_left fun m hm => ?_
          rw [cString_of_noNul (hclean m.1 (List.mem_map_of_mem hm))]
        have hkeys : ((members.map fun m => (m.1, convertToMsgPack m.2)).map Prod.fst).Nodup := by
          rwa [List.map_map]
        have hvalues : ((members.map fun m => (m.1, convertToMsgPack m.2)).map fun e => (e.1, convertToJSON e.2)) =
            (members.map fun m => (m.1, m.2.ordered)).map fun m => (m.1, some m.2) := by
          rw [List.map_map, List.map_map]
          refine List.map_congr_left fun m hm => ?_
          exact Prod.ext rfl (ih m hm (hdistinct m hm) (hnul m hm))
        have hkeys' : ((sort compareName ((members.map fun m => (m.1, convertToMsgPack m.2)).map
            fun e => (e.1, convertToJSON e.2))).map Prod.fst).Nodup := by
          rw [((sort_perm _).map Prod.fst).nodup_iff, List.map_map]
          exact hkeys
        rw [convertToMsgPack_object, hcut, foldl_eq_sort emplace_new hkeys,
          convertToJSON_strings, map_sort, foldl_eq_sort assign_new hkeys', sort_sort, convertValues_sort hvalues,
            Value.ordered_object]
        rfl

theorem Value.ordered_ordered (v : Value) : v.ordered.ordered = v.ordered := by
  induction v using Value.induct with
  | null => rfl
  | bool b => rfl
  | integer n => rfl
  | double d => rfl
  | string s => rfl
  | array items ih =>
    rw [Value.ordered_array, Value.ordered_array, List.map_map]
    exact congrArg Value.array (List.map_congr_left ih)
  | object members ih =>
    have hmembers : (members.map fun m => (m.1, m.2.ordered)).map (fun m => (m.1, m.2.ordered)) =
        members.map fun m => (m.1, m.2.ordered) := by
      rw [List.map_map]
      exact List.map_congr_left fun m hm => Prod.ext rfl (ih m hm)
    rw [Value.ordered_object, Value.ordered_object, map_sort, sort_sort, hmembers]

/-- A property of names that does not depend on their order does not depend on the order of members. -/
theorem Value.everyObject_ordered_iff {p : List (List Byte) → Prop}
    (hperm : ∀ {l l' : List (List Byte)}, l.Perm l' → p l → p l') (v : Value) : EveryObject p v.ordered ↔
      EveryObject p v := by
  induction v using Value.induct with
  | null => exact Iff.rfl
  | bool b => exact Iff.rfl
  | integer n => exact Iff.rfl
  | double d => exact Iff.rfl
  | string s => exact Iff.rfl
  | array items ih =>
    rw [Value.ordered_array]
    constructor
    · rintro ⟨⟩
      next hitems =>
        exact .array fun item hitem => (ih item hitem).mp (hitems _ (List.mem_map_of_mem hitem))
    · rintro ⟨⟩
      next hitems =>
        refine .array fun item' hmem => ?_
        obtain ⟨item, hitem, rfl⟩ := List.mem_map.mp hmem
        exact (ih item hitem).mpr (hitems item hitem)
  | object members ih =>
    have hsorted := @sort_perm _ _ compareName (members.map fun m => (m.1, m.2.ordered))
    have hnames : ((sort compareName
      (members.map fun m => (m.1, m.2.ordered))).map Prod.fst).Perm (members.map Prod.fst) := by
      have hmap := hsorted.map Prod.fst
      rwa [List.map_map] at hmap
    rw [Value.ordered_object]
    constructor
    · rintro ⟨⟩
      next hp hmembers =>
        refine .object (hperm hnames hp) fun m hm => (ih m hm).mp ?_
        exact hmembers _ (hsorted.mem_iff.mpr (List.mem_map_of_mem hm))
    · rintro ⟨⟩
      next hp hmembers =>
        refine .object (hperm hnames.symm hp) fun m' hmem => ?_
        obtain ⟨m, hm, rfl⟩ := List.mem_map.mp (hsorted.mem_iff.mp hmem)
        exact (ih m hm).mpr (hmembers m hm)

/-- What comes back has no NUL in its names: they were cut there. -/
theorem noNul_of_convertToMsgPack (v : Value) : ∃ v', convertToJSON (convertToMsgPack v) = some v' ∧ v'.NoNul := by
  induction v using Value.induct with
  | null => exact ⟨.null, rfl, .null⟩
  | bool b => exact ⟨.bool b, rfl, .bool b⟩
  | integer n => exact ⟨.integer n, convertToJSON_ofInteger n, .integer n⟩
  | double d => exact ⟨.double d, rfl, .double d⟩
  | string s => exact ⟨.string s, rfl, .string s⟩
  | array items ih =>
    have hlist : convertList (items.map convertToMsgPack) =
        some (items.map fun item => (convertToJSON (convertToMsgPack item)).getD .null) := by
      rw [convertList_eq_some_iff, List.map_map, List.map_map]
      refine List.map_congr_left fun item hitem => ?_
      obtain ⟨v', hv', -⟩ := ih item hitem
      simp only [Function.comp_apply, hv', Option.getD_some]
    refine ⟨_, by rw [convertToMsgPack_array, convertToJSON_array, hlist, Option.map_some], .array fun v hv => ?_⟩
    obtain ⟨item, hitem, rfl⟩ := List.mem_map.mp hv
    obtain ⟨v', hv', hclean⟩ := ih item hitem
    rw [hv', Option.getD_some]
    exact hclean
  | object members ih =>
    generalize hlist : (((members.map fun m => (cString m.1, convertToMsgPack m.2)).foldl (emplace compareName) []).map
      fun e => (e.1, convertToJSON e.2)).foldl (assign compareName) [] = list
    have hfrom : ∀ e ∈ list, ∃ m ∈ members, e = (cString m.1, convertToJSON (convertToMsgPack m.2)) := by
      intro e he
      rw [← hlist] at he
      obtain ⟨e', he', rfl⟩ := List.mem_map.mp (mem_foldl (fun _ _ _ => mem_assign) he)
      obtain ⟨m, hm, rfl⟩ := List.mem_map.mp (mem_foldl (fun _ _ _ => mem_emplace) he')
      exact ⟨m, hm, rfl⟩
    have hvalues : convertValues list = some (list.map fun e => (e.1, e.2.getD .null)) := by
      rw [convertValues_eq_some_iff, List.map_map]
      refine (List.map_id' list).symm.trans (List.map_congr_left fun e he => ?_)
      obtain ⟨m, hm, rfl⟩ := hfrom e he
      obtain ⟨v', hv', -⟩ := ih m hm
      simp only [Function.comp_apply, hv', Option.getD_some]
    refine ⟨_, by rw [convertToMsgPack_object, convertToJSON_strings, hlist, hvalues, Option.map_some],
      .object (fun name hname => ?_) fun m' hm' => ?_⟩
    · rw [List.map_map] at hname
      obtain ⟨e, he, rfl⟩ := List.mem_map.mp hname
      obtain ⟨m, -, rfl⟩ := hfrom e he
      exact cString_noNul m.1
    · obtain ⟨e, he, rfl⟩ := List.mem_map.mp hm'
      obtain ⟨m, hm, rfl⟩ := hfrom e he
      obtain ⟨v', hv', hclean⟩ := ih m hm
      simp only [hv', Option.getD_some]
      exact hclean

/-- A value comes back exactly if no member name has a NUL. -/
theorem roundTrips_iff {v : Value} (hdistinct : v.NoDuplicates) : v.RoundTrips ↔ v.NoNul := by
  have hnames := @Value.everyObject_ordered_iff (fun names => ∀ name ∈ names, (0 : Byte) ∉ name)
    fun hperm hnul name hname => hnul name (hperm.mem_iff.mpr hname)
  constructor
  · rintro ⟨v', hback, hsame⟩
    obtain ⟨v'', hback', hclean⟩ := noNul_of_convertToMsgPack v
    obtain rfl := Option.some.inj (hback.symm.trans hback')
    unfold Value.Same at hsame
    rw [Value.NoNul, ← hnames, ← hsame, hnames]
    exact hclean
  · intro hnul
    exact ⟨v.ordered, convertToJSON_convertToMsgPack v hdistinct hnul, v.ordered_ordered⟩

end MsgpackJson
