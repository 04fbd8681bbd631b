import Citizen.ResourceKvp.Basic

open Std

namespace kvp

/-- A store that keeps the resources apart: the values of each, and for each open handle its resource and the keys
that it has still to find. -/
structure Isolated where
  stored : Text → TreeMap Text Text := fun _ => ∅
  finds : Fin 64 → Option (Text × List Text) := fun _ => none

/-- The keys that begin with a text, in order. -/
def keysFrom (entries : TreeMap Text Text) (begin : Text) : List Text := entries.keys.filter begin.isPrefixOf

namespace Isolated

def find (t : Isolated) (resName : Text) (handleIdx : Int) : Isolated × Result :=
  match handleAt handleIdx with
  | none => (t, .unset)
  | some i =>
    match t.finds i with
    | none => (t, .unset)
    | some (owner, keys) =>
      if owner = resName then
        match keys with
        | [] => (t, .null)
        | key :: keys => ({ t with finds := Function.update t.finds i (some (owner, keys)) }, .key key)
      else (t, .unset)

def invoke (t : Isolated) (resName : Text) : Native → Isolated × Result
  | .putResourceKvp key value =>
    ({ t with stored := Function.update t.stored resName ((t.stored resName).insert key value) }, .unset)
  | .getResourceKvp key =>
    (t, match (t.stored resName)[key]? with
      | none => .null
      | some value => .value value)
  | .deleteResourceKvp key =>
    ({ t with stored := Function.update t.stored resName ((t.stored resName).erase key) }, .unset)
  | .startFindKvp key =>
    match (List.finRange 64).find? fun i => (t.finds i).isNone with
    | none => (t, .handle (-1))
    | some i =>
      ({ t with finds := Function.update t.finds i (some (resName, keysFrom (t.stored resName) key)) }, .handle i.val)
  | .findKvp handleIdx => t.find resName handleIdx
  | .endFindKvp handleIdx =>
    match handleAt handleIdx with
    | none => (t, .unset)
    | some i => ({ t with finds := Function.update t.finds i none }, .unset)

def run (t : Isolated) : List (Text × Native) → List Result
  | [] => []
  | (resName, native) :: calls => (t.invoke resName native).2 :: (t.invoke resName native).1.run calls

/-- A handle in range is open, and was opened by the resource. -/
def FindsOwn (t : Isolated) (resName : Text) (handleIdx : Int) : Prop :=
  ∀ i ∈ handleAt handleIdx, (t.finds i).map Prod.fst = some resName

instance (t : Isolated) (resName : Text) (handleIdx : Int) : Decidable (t.FindsOwn resName handleIdx) :=
  inferInstanceAs (Decidable (∀ i ∈ handleAt handleIdx, _))

/-- A call that the code keeps apart from the other resources: none of them has a value whose formatted key is that
of the call, or begins with it, and a handle that is read is one of the caller that is open. -/
def Allows (t : Isolated) (resName : Text) : Native → Prop
  | .putResourceKvp key _ | .getResourceKvp key | .deleteResourceKvp key =>
    ∀ other ≠ resName, ∀ key' ∈ t.stored other, formatKey other key' ≠ formatKey resName key
  | .startFindKvp key => ∀ other ≠ resName, ∀ key' ∈ t.stored other, ¬ formatKey resName key <+: formatKey other key'
  | .findKvp handleIdx => t.FindsOwn resName handleIdx
  | .endFindKvp _ => True

/-- All calls are kept apart. -/
def AllowsAll (t : Isolated) : List (Text × Native) → Prop
  | [] => True
  | (resName, native) :: calls => t.Allows resName native ∧ (t.invoke resName native).1.AllowsAll calls

end Isolated

/-- An iterator has before it the keys that a handle has still to find. -/
def FindHandle.Finds (handle : FindHandle) (find : Option (Text × List Text)) : Prop :=
  match handle.dbIter, find with
  | none, none => True
  | some entries, some (owner, keys) =>
    (entries.map Prod.fst).takeWhile handle.key.isPrefixOf = keys.map (formatKey owner)
  | _, _ => False

/-- The database holds the values of all resources, and the handles find their keys. -/
structure Represents (s : Store) (t : Isolated) : Prop where
  entries : ∀ text value, s.db[text]? = some value ↔
    ∃ resName key, formatKey resName key = text ∧ (t.stored resName)[key]? = some value
  handles : ∀ i, (s.handles i).Finds (t.finds i)

theorem FindHandle.Finds.isNone {handle : FindHandle} {find : Option (Text × List Text)} (h : handle.Finds find) :
    handle.dbIter.isNone = find.isNone := by
  unfold FindHandle.Finds at h
  cases hiter : handle.dbIter with
  | none =>
    cases find with
    | none => rfl
    | some find => simp [hiter] at h
  | some entries =>
    cases find with
    | none => simp [hiter] at h
    | some find => rfl

namespace Represents

variable {s : Store} {t : Isolated} {resName : Text}

theorem update (h : Represents s t) {i : Fin 64} {handle : FindHandle} {find : Option (Text × List Text)}
    (hfinds : handle.Finds find) : Represents { s with handles := Function.update s.handles i handle }
      { t with finds := Function.update t.finds i find } := by
  refine ⟨h.entries, fun j => ?_⟩
  by_cases hj : j = i
  · rw [hj]
    simpa using hfinds
  · simpa [Function.update_of_ne hj] using h.handles j

/-- A value that only one resource has a key for can change in the database and in the store of the resource. -/
theorem alter (h : Represents s t) {key : Text} {db entries : TreeMap Text Text} (changed : Option Text)
    (hallows : ∀ other ≠ resName, ∀ key' ∈ t.stored other, formatKey other key' ≠ formatKey resName key)
    (hdb : ∀ text, db[text]? = if text = formatKey resName key then changed else s.db[text]?)
    (hentries : ∀ key', entries[key']? = if key' = key then changed else (t.stored resName)[key']?) :
    Represents { s with db } { t with stored := Function.update t.stored resName entries } := by
  refine ⟨fun text value => ?_, h.handles⟩
  rw [hdb]
  constructor
  · intro hvalue
    split at hvalue
    · rename_i htext
      exact ⟨resName, key, htext.symm, by simpa [hentries] using hvalue⟩
    · rename_i htext
      obtain ⟨owner, key', rfl, hkey'⟩ := (h.entries text value).mp hvalue
      refine ⟨owner, key', rfl, ?_⟩
      by_cases howner : owner = resName
      · subst howner
        have hne : key' ≠ key := fun heq => htext (by rw [heq])
        simpa [hentries, hne] using hkey'
      · simpa [Function.update_of_ne howner] using hkey'
  · rintro ⟨owner, key', rfl, hkey'⟩
    dsimp only at hkey'
    by_cases howner : owner = resName
    · subst howner
      rw [Function.update_self, hentries] at hkey'
      simp only [formatKey_inj]
      split
      · rename_i heq
        rwa [if_pos heq] at hkey'
      · rename_i hne
        rw [if_neg hne] at hkey'
        exact (h.entries _ _).mpr ⟨owner, key', rfl, hkey'⟩
    · rw [Function.update_of_ne howner] at hkey'
      rw [if_neg (hallows owner howner key' (TreeMap.mem_iff_isSome_getElem?.mpr (by rw [hkey']; rfl)))]
      exact (h.entries _ _).mpr ⟨owner, key', rfl, hkey'⟩

theorem get (h : Represents s t) {key : Text} (hallows : t.Allows resName (.getResourceKvp key)) :
    s.db[formatKey resName key]? = (t.stored resName)[key]? := by
  apply Option.ext
  intro value
  rw [h.entries]
  constructor
  · rintro ⟨owner, key', htext, hkey'⟩
    by_cases howner : owner = resName
    · subst howner
      rwa [← formatKey_inj.mp htext]
    · exact absurd htext (hallows owner howner key' (TreeMap.mem_iff_isSome_getElem?.mpr (by rw [hkey']; rfl)))
  · intro hvalue
    exact ⟨resName, key, rfl, hvalue⟩

/-- The entries that an iterator finds are the keys of its resource. -/
theorem seek (h : Represents s t) {key : Text} (hallows : t.Allows resName (.startFindKvp key)) :
    FindHandle.Finds {
      dbIter := some (Iterator.seek s.db.toList (formatKey resName key))
      key := formatKey resName key }
      (some (resName, keysFrom (t.stored resName) key)) := by
  have hblock : ((Iterator.seek s.db.toList (formatKey resName key)).map Prod.fst).takeWhile
      (formatKey resName key).isPrefixOf = s.db.keys.filter (formatKey resName key).isPrefixOf := by
    rw [← PrefixOrder.block_eq_filter TreeMap.ordered_keys, ← TreeMap.map_fst_toList_eq_keys, List.dropWhile_map]
    rfl
  refine hblock.trans (PrefixOrder.eq_of_mem_iff ?_ ?_ fun text => ?_)
  · exact TreeMap.ordered_keys.filter _
  · rw [List.pairwise_map]
    refine (TreeMap.ordered_keys.filter _).imp fun hlt => ?_
    rwa [compare_formatKey]
  · simp only [List.mem_filter, List.mem_map, keysFrom, TreeMap.mem_keys, List.isPrefixOf_iff_prefix]
    constructor
    · rintro ⟨htext, hbegins⟩
      obtain ⟨value, hvalue⟩ := Option.isSome_iff_exists.mp (TreeMap.mem_iff_isSome_getElem?.mp htext)
      obtain ⟨owner, key', rfl, hkey'⟩ := (h.entries text value).mp hvalue
      have hmem : key' ∈ t.stored owner := TreeMap.mem_iff_isSome_getElem?.mpr (by rw [hkey']; rfl)
      by_cases howner : owner = resName
      · subst howner
        exact ⟨key', ⟨hmem, formatKey_prefix.mp hbegins⟩, rfl⟩
      · exact absurd hbegins (hallows owner howner key' hmem)
    · rintro ⟨key', ⟨hmem, hbegins⟩, rfl⟩
      obtain ⟨value, hvalue⟩ := Option.isSome_iff_exists.mp (TreeMap.mem_iff_isSome_getElem?.mp hmem)
      refine ⟨TreeMap.mem_iff_isSome_getElem?.mpr ?_, formatKey_prefix.mpr hbegins⟩
      rw [(h.entries _ value).mpr ⟨resName, key', rfl, hvalue⟩]
      rfl

theorem find (h : Represents s t) {handleIdx : Int} (hallows : t.Allows resName (.findKvp handleIdx)) :
    ∃ s', s.findKvp resName handleIdx = some (s', (t.find resName handleIdx).2) ∧
      Represents s' (t.find resName handleIdx).1 := by
  unfold Store.findKvp Isolated.find
  cases hidx : handleAt handleIdx with
  | none => exact ⟨s, rfl, h⟩
  | some i =>
    obtain ⟨⟨owner, keys⟩, hkeys, howner⟩ := Option.map_eq_some_iff.mp (hallows i hidx)
    obtain rfl : owner = resName := howner
    have hfinds := h.handles i
    rw [hkeys] at hfinds
    unfold FindHandle.Finds at hfinds
    simp only [hkeys, if_true]
    cases hiter : (s.handles i).dbIter with
    | none => simp [hiter] at hfinds
    | some entries =>
      simp only [hiter] at hfinds
      cases entries with
      | nil =>
        cases keys with
        | nil => exact ⟨s, rfl, h⟩
        | cons key keys => simp at hfinds
      | cons entry next =>
        obtain ⟨text, value⟩ := entry
        rw [List.map_cons, List.takeWhile_cons] at hfinds
        split at hfinds
        · rename_i hbegins
          cases keys with
          | nil => simp at hfinds
          | cons key keys =>
            obtain ⟨rfl, hnext⟩ := List.cons.inj hfinds
            have hlength : ¬ (formatKey owner key).length < (formatKey owner []).length := by
              rw [formatKey_append]
              simp
            have hdrop : (formatKey owner key).drop (formatKey owner []).length = key := by
              rw [formatKey_append owner key, List.drop_left]
            dsimp only at hbegins ⊢
            rw [if_pos hbegins, if_neg hlength, hdrop]
            exact ⟨_, rfl, h.update hnext⟩
        · rename_i hbegins
          cases keys with
          | nil => exact ⟨s, if_neg hbegins, h⟩
          | cons key keys => simp at hfinds

/-- A call that is allowed gets the answer of the store that keeps the resources apart. -/
theorem invoke (h : Represents s t) {native : Native} (hallows : t.Allows resName native) :
    ∃ s', s.invoke resName native = some (s', (t.invoke resName native).2) ∧
      Represents s' (t.invoke resName native).1 := by
  cases native with
  | putResourceKvp key value =>
    refine ⟨_, rfl, h.alter (some value) hallows (fun text => ?_) fun key' => ?_⟩
    · rw [TreeMap.getElem?_insert]
      exact if_congr (LawfulEqCmp.compare_eq_iff_eq.trans eq_comm) rfl rfl
    · rw [TreeMap.getElem?_insert]
      exact if_congr (LawfulEqCmp.compare_eq_iff_eq.trans eq_comm) rfl rfl
  | getResourceKvp key =>
    refine ⟨s, ?_, h⟩
    simp only [Store.invoke, Store.getResourceKvp, h.get hallows]
    rfl
  | deleteResourceKvp key =>
    refine ⟨_, rfl, h.alter none hallows (fun text => ?_) fun key' => ?_⟩
    · rw [TreeMap.getElem?_erase]
      exact if_congr (LawfulEqCmp.compare_eq_iff_eq.trans eq_comm) rfl rfl
    · rw [TreeMap.getElem?_erase]
      exact if_congr (LawfulEqCmp.compare_eq_iff_eq.trans eq_comm) rfl rfl
  | startFindKvp key =>
    have hfree : s.getFindHandle = (List.finRange 64).find? fun i => (t.finds i).isNone := by
      unfold Store.getFindHandle
      congr 1
      funext i
      exact (h.handles i).isNone
    simp only [Store.invoke, Store.startFindKvp, Isolated.invoke, hfree]
    cases (List.finRange 64).find? fun i => (t.finds i).isNone with
    | none => exact ⟨s, rfl, h⟩
    | some i => exact ⟨_, rfl, h.update (h.seek hallows)⟩
  | findKvp handleIdx => exact h.find hallows
  | endFindKvp handleIdx =>
    simp only [Store.invoke, Store.endFindKvp, Isolated.invoke]
    cases handleAt handleIdx with
    | none => exact ⟨s, rfl, h⟩
    | some i => exact ⟨_, rfl, h.update trivial⟩

end Represents

theorem represents_init : Represents {} {} where
  entries text value := by simp
  handles _ := trivial

/-- Calls that are allowed get the answers of a store that keeps the resources apart. -/
theorem run_isolated {calls : List (Text × Native)} (hallows : Isolated.AllowsAll {} calls) :
    Store.run {} calls = some (Isolated.run {} calls) := by
  suffices ∀ {s : Store} {t : Isolated}, Represents s t → t.AllowsAll calls → s.run calls = some (t.run calls) from
    this represents_init hallows
  clear hallows
  intro s t h hallows
  induction calls generalizing s t with
  | nil => rfl
  | cons call calls ih =>
    obtain ⟨resName, native⟩ := call
    obtain ⟨hfirst, hrest⟩ := hallows
    obtain ⟨s', hinvoke, hnext⟩ := h.invoke hfirst
    rw [Store.run, hinvoke, Option.bind_some]
    dsimp only
    rw [ih hnext hrest]
    rfl

/-- No name with a colon after it begins another. -/
def NamesApart (names : List Text) : Prop := ∀ left ∈ names, ∀ right ∈ names, left ≠ right → ¬ left ++ [58] <+: right

instance (names : List Text) : Decidable (NamesApart names) := inferInstanceAs (Decidable (∀ left ∈ names, _))

namespace Isolated

/-- The handle that a native reads. -/
def readsHandle : Native → Option Int
  | .findKvp handleIdx => some handleIdx
  | _ => none

/-- Every handle that is read is one of the caller that is open. -/
def FindsOwnAll (t : Isolated) : List (Text × Native) → Prop
  | [] => True
  | (resName, native) :: calls =>
    (∀ handleIdx ∈ readsHandle native, t.FindsOwn resName handleIdx) ∧ (t.invoke resName native).1.FindsOwnAll calls

instance decidableFindsOwnAll (t : Isolated) : (calls : List (Text × Native)) → Decidable (t.FindsOwnAll calls)
  | [] => isTrue trivial
  | (resName, native) :: calls =>
    have := decidableFindsOwnAll (t.invoke resName native).1 calls
    inferInstanceAs (Decidable (_ ∧ _))

/-- A native changes only the values of the resource that calls it. -/
theorem stored_invoke (t : Isolated) {resName other : Text} (native : Native) (hother : other ≠ resName) :
    (t.invoke resName native).1.stored other = t.stored other := by
  cases native with
  | putResourceKvp key value => exact Function.update_of_ne hother _ _
  | getResourceKvp key => rfl
  | deleteResourceKvp key => exact Function.update_of_ne hother _ _
  | startFindKvp key =>
    unfold invoke
    dsimp only
    split <;> rfl
  | findKvp handleIdx =>
    unfold invoke find
    dsimp only
    split
    · rfl
    · split
      · rfl
      · split
        · split <;> rfl
        · rfl
  | endFindKvp handleIdx =>
    unfold invoke
    dsimp only
    split <;> rfl

theorem formatKey_ne_of_names {names : List Text} (hapart : NamesApart names) {left right : Text}
    (hleft : left ∈ names) (hright : right ∈ names) (hne : left ≠ right) (key key' : Text) :
    formatKey left key ≠ formatKey right key' := by
  intro heq
  rcases names_of_formatKey_eq hne heq with hbegins | hbegins
  · exact hapart left hleft right hright hne hbegins
  · exact hapart right hright left hleft hne.symm hbegins

/-- The natives of resources whose names are apart are kept apart. -/
theorem allowsAll_of_names (names : List Text) (hapart : NamesApart names) {calls : List (Text × Native)}
    (hnames : ∀ call ∈ calls, call.1 ∈ names) {t : Isolated} (hstored : ∀ other, ∀ key ∈ t.stored other, other ∈ names)
    (hfinds : t.FindsOwnAll calls) : t.AllowsAll calls := by
  induction calls generalizing t with
  | nil => trivial
  | cons call calls ih =>
    obtain ⟨resName, native⟩ := call
    obtain ⟨hname, hnames⟩ := List.forall_mem_cons.mp hnames
    obtain ⟨hown, hfinds⟩ := hfinds
    refine ⟨?_, ih hnames (fun other key hkey => ?_) hfinds⟩
    · have hkeys : ∀ key, ∀ other ≠ resName, ∀ key' ∈ t.stored other, formatKey other key' ≠ formatKey resName key :=
        fun key other hother key' hkey' =>
          formatKey_ne_of_names hapart (hstored other key' hkey') hname hother key' key
      cases native with
      | putResourceKvp key value => exact hkeys key
      | getResourceKvp key => exact hkeys key
      | deleteResourceKvp key => exact hkeys key
      | startFindKvp key =>
        rintro other hother key' hkey' ⟨more, hmore⟩
        refine hkeys (key ++ more) other hother key' hkey' ?_
        rw [← hmore, formatKey_append, formatKey_append resName (key ++ more), List.append_assoc]
      | findKvp handleIdx => exact hown handleIdx rfl
      | endFindKvp handleIdx => trivial
    · by_cases hother : other = resName
      · rw [hother]
        exact hname
      · rw [stored_invoke t native hother] at hkey
        exact hstored other key hkey

/-- What the calls of a resource for a handle find, among the results of all calls. -/
def found (resName : Text) (handleIdx : Int) (calls : List (Text × Native)) (results : List Result) : List Result :=
  ((calls.zip results).filter fun call => call.1 = (resName, .findKvp handleIdx)).map Prod.snd

theorem handleAt_val (i : Fin 64) : handleAt i.val = some i := by
  simp [handleAt]

theorem handleAt_eq_some {handleIdx : Int} {i : Fin 64} (h : handleAt handleIdx = some i) : handleIdx = i.val := by
  unfold handleAt at h
  split at h
  · cases h
  · cases h
    dsimp only
    omega

/-- A handle stays as it is until its resource reads it or a resource closes it. -/
theorem finds_invoke {t : Isolated} {owner resName : Text} {i : Fin 64} {keys : List Text} {native : Native}
    (hopen : t.finds i = some (owner, keys)) (hread : (resName, native) ≠ (owner, .findKvp i.val))
    (hclose : native ≠ .endFindKvp i.val) : (t.invoke resName native).1.finds i = some (owner, keys) := by
  cases native with
  | putResourceKvp key value => exact hopen
  | getResourceKvp key => exact hopen
  | deleteResourceKvp key => exact hopen
  | startFindKvp key =>
    unfold invoke
    dsimp only
    split
    · exact hopen
    · rename_i j hfree
      have hnone := List.find?_some hfree
      have hne : i ≠ j := by
        rintro rfl
        rw [hopen] at hnone
        cases hnone
      dsimp only
      rwa [Function.update_of_ne hne]
  | findKvp handleIdx =>
    unfold invoke find
    dsimp only
    split
    · exact hopen
    · rename_i j hidx
      split
      · exact hopen
      · rename_i owner' keys' hfinds
        split
        · rename_i hown
          have hne : i ≠ j := by
            rintro rfl
            rw [hopen] at hfinds
            cases hfinds
            exact hread (by rw [hown, handleAt_eq_some hidx])
          split
          · exact hopen
          · dsimp only
            rwa [Function.update_of_ne hne]
        · exact hopen
  | endFindKvp handleIdx =>
    unfold invoke
    dsimp only
    split
    · exact hopen
    · rename_i j hidx
      have hne : i ≠ j := fun heq => hclose (by rw [handleAt_eq_some hidx, heq])
      dsimp only
      rwa [Function.update_of_ne hne]

theorem find_nil {t : Isolated} {resName : Text} {i : Fin 64} (hopen : t.finds i = some (resName, [])) :
    t.find resName i.val = (t, .null) := by
  unfold find
  rw [handleAt_val]
  dsimp only
  rw [hopen]
  exact if_pos rfl

theorem find_cons {t : Isolated} {resName key : Text} {i : Fin 64} {keys : List Text}
    (hopen : t.finds i = some (resName, key :: keys)) : t.find resName i.val =
      ({ t with finds := Function.update t.finds i (some (resName, keys)) }, .key key) := by
  unfold find
  rw [handleAt_val]
  dsimp only
  rw [hopen]
  exact if_pos rfl

/-- Whatever else is called in between, the calls for an open handle find its keys in order, and then nothing. -/
theorem found_run {t : Isolated} {resName : Text} {i : Fin 64} {keys : List Text} {calls : List (Text × Native)}
    (hopen : t.finds i = some (resName, keys)) (hkeep : ∀ call ∈ calls, call.2 ≠ .endFindKvp i.val) :
    found resName i.val calls (t.run calls) <+: keys.map Result.key ++
      List.replicate (found resName i.val calls (t.run calls)).length .null := by
  induction calls generalizing t keys with
  | nil => exact List.nil_prefix
  | cons call calls ih =>
    obtain ⟨caller, native⟩ := call
    obtain ⟨hclose, hrest⟩ := List.forall_mem_cons.mp hkeep
    by_cases hread : (caller, native) = (resName, .findKvp i.val)
    · obtain ⟨rfl, rfl⟩ := Prod.mk.inj hread
      rw [run, found, List.zip_cons_cons, List.filter_cons_of_pos (by simp), List.map_cons]
      cases keys with
      | nil =>
        rw [invoke, find_nil hopen]
        exact List.cons_prefix_cons.mpr ⟨rfl, ih hopen hrest⟩
      | cons key keys =>
        have hopen' : ({ t with finds := Function.update t.finds i (some (caller, keys)) } : Isolated).finds i =
            some (caller, keys) := Function.update_self _ _ _
        rw [invoke, find_cons hopen]
        refine List.cons_prefix_cons.mpr ⟨rfl, (ih hopen' hrest).trans ?_⟩
        exact (List.prefix_append_right_inj _).mpr ⟨[.null], List.replicate_succ'.symm⟩
    · have hnext := ih (finds_invoke hopen hread hclose) hrest
      rw [run, found, List.zip_cons_cons, List.filter_cons_of_neg (by simpa using hread)]
      exact hnext

end Isolated

/-- Two resources, one of which finds its keys while the other one puts and finds its own. -/
theorem run_isolated_sample : Store.run {} [([97], .putResourceKvp [2] [7]), ([98], .putResourceKvp [1] [8]),
      ([97], .putResourceKvp [1] [9]), ([97], .startFindKvp []), ([97], .findKvp 0), ([98], .startFindKvp [1]),
      ([98], .findKvp 1), ([97], .findKvp 0), ([97], .findKvp 0), ([98], .getResourceKvp [2])] =
    some [.unset, .unset, .unset, .handle 0, .key [1], .handle 1, .key [1], .key [2], .null, .null] :=
  (run_isolated (Isolated.allowsAll_of_names [[97], [98]] (by decide) (by decide) (by simp)
    (by decide))).trans (by decide +kernel)

/-- The resource `a:b` gets what `a` put, and a handle that is not open is read through. -/
theorem run_collision :
    Store.run {} [([97], .putResourceKvp [98, 58, 99] [7]), ([97, 58, 98], .getResourceKvp [99])] =
        some [.unset, .value [7]] ∧
      Isolated.run {} [([97], .putResourceKvp [98, 58, 99] [7]), ([97, 58, 98], .getResourceKvp [99])] =
        [.unset, .null] ∧
      Store.run {} [([97], .findKvp 0)] = none := by
  refine ⟨by decide, by decide +kernel, by decide +kernel⟩

end kvp
