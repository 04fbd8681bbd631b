import Citizen.HttpServer.Basic

open Bits

namespace fx.ParsePOSTString

def ampersand : Byte := 38

def equalsSign : Byte := 61

theorem equalsSign_ne_ampersand : equalsSign ≠ ampersand := by decide

/-- A number as an `int`. -/
def int (n : Int) : Int := (n + 2 ^ 31) % 2 ^ 32 - 2 ^ 31

/-- `find_first_of` into an `int`. As a `size_t`, a negative position is after the end of any string. -/
def findFirstOf (data : List Byte) (ch : Byte) (pos : Int) : Int :=
  if pos < 0 then -1
  else
    let rest := data.drop pos.toNat
    if ch ∈ rest then int (pos.toNat + rest.idxOf ch) else -1

/-- `substr`, which throws when the position is after the end. A negative count takes all. -/
def substr (data : List Byte) (pos count : Int) : Option (List Byte) :=
  if pos < 0 ∨ (data.length : Int) < pos then none
  else
    let rest := data.drop pos.toNat
    some (if count < 0 then rest else rest.take count.toNat)

abbrev PostMap := List Byte → Option (List Byte)

def PostMap.set (postMap : PostMap) (key value : List Byte) : PostMap :=
  fun other => if other = key then some value else postMap other

/-- The two slices of an iteration. -/
def slices (data : List Byte) (curPos : Int) : Option (List Byte × List Byte) :=
  let endPos := findFirstOf data ampersand curPos
  let equalsPos := findFirstOf data equalsSign curPos
  do
    let key ← substr data curPos (int (equalsPos - curPos))
    let value ← substr data (int (equalsPos + 1)) (int (int (endPos - equalsPos) - 1))
    some (key, value)

/-- `UrlDecode` writes what it has decoded also where it fails. -/
def PostMap.write (urlDecode : List Byte → List Byte) (postMap : PostMap) (pair : List Byte × List Byte) : PostMap :=
  postMap.set (urlDecode pair.1) (urlDecode pair.2)

/-- The loop, which has no result when it throws and when the fuel is used up. -/
def loop (urlDecode : List Byte → List Byte) (data : List Byte) : Nat → Int → PostMap → Option PostMap
  | 0, _, _ => none
  | fuel + 1, curPos, postMap => do
    let pair ← slices data curPos
    let postMap := postMap.write urlDecode pair
    let curPos := findFirstOf data ampersand curPos
    if curPos = -1 then some postMap else loop urlDecode data fuel (int (curPos + 1)) postMap

/-- `ParsePOSTString` ends with a map. -/
def Returns (urlDecode : List Byte → List Byte) (data : List Byte) (postMap : PostMap) : Prop :=
  ∃ fuel, loop urlDecode data fuel 0 (fun _ => none) = some postMap

/-- A piece, cut at its first `=`. -/
def cut (piece : List Byte) : List Byte × List Byte :=
  (piece.takeWhile (· ≠ equalsSign), (piece.dropWhile (· ≠ equalsSign)).tail)

/-- The map that a form stands for. -/
def formMap (urlDecode : List Byte → List Byte) (data : List Byte) : PostMap :=
  (((data.splitOn ampersand).filter (· ≠ [])).map cut).foldl (PostMap.write urlDecode) fun _ => none

/-- Every piece has an `=`, and an `int` counts up to the last value. -/
def EachHasEquals (data : List Byte) : Prop :=
  (∀ piece ∈ data.splitOn ampersand, equalsSign ∈ piece) ∧
    data.length - (cut ((data.splitOn ampersand).getLastD [])).2.length < 2 ^ 31

/-- Pieces, each with the `&` that ends it. -/
def joined (pieces : List (List Byte)) : List Byte := pieces.flatMap (· ++ [ampersand])

section Positions

variable {front l rest data : List Byte} {ch : Byte} {n pos count : Int}

theorem int_of_small (hlow : -2 ^ 31 ≤ n) (hhigh : n < 2 ^ 31) : int n = n := by
  unfold int
  omega

theorem int_lt : int n < 2 ^ 31 := by
  unfold int
  omega

theorem le_int : -2 ^ 31 ≤ int n := by
  unfold int
  omega

theorem findFirstOf_hit (hl : ch ∉ l) : findFirstOf (front ++ (l ++ ch :: rest)) ch front.length =
    int (front.length + l.length) := by
  rw [findFirstOf, if_neg (by omega)]
  simp [List.idxOf_append, hl]

theorem findFirstOf_miss (hl : ch ∉ l) : findFirstOf (front ++ l) ch front.length = -1 := by
  rw [findFirstOf, if_neg (by omega)]
  simp [hl]

theorem substr_all (hcount : count < 0) : substr (front ++ l) front.length count = some l := by
  rw [substr, if_neg (by simp)]
  simp [hcount]

theorem substr_take (hcount : count = l.length) : substr (front ++ (l ++ rest)) front.length count = some l := by
  rw [substr, if_neg (by simp; omega)]
  simp [hcount]

/-- A slice that is taken begins in the string, and is all of the rest or not longer than asked for. -/
theorem substr_eq_some (h : substr data pos count = some l) :
    0 ≤ pos ∧ (l = data.drop pos.toNat ∧ count < 0 ∨ l = (data.drop pos.toNat).take count.toNat ∧ 0 ≤ count) := by
  rw [substr] at h
  split at h
  · cases h
  · obtain rfl := Option.some.inj h
    refine ⟨by omega, ?_⟩
    split
    · exact Or.inl ⟨rfl, by assumption⟩
    · exact Or.inr ⟨rfl, by omega⟩

end Positions

section Maps

variable {urlDecode : List Byte → List Byte} {pairs : List (List Byte × List Byte)} {pair : List Byte × List Byte}
  {postMap : PostMap} {key value : List Byte}

/-- What is in a map was there or was written. -/
theorem write_eq_some (h : pairs.foldl (PostMap.write urlDecode) postMap key = some value) :
    postMap key = some value ∨ ∃ pair ∈ pairs, urlDecode pair.1 = key ∧ urlDecode pair.2 = value := by
  induction pairs generalizing postMap with
  | nil => exact Or.inl h
  | cons pair pairs ih =>
    rcases ih h with hset | ⟨other, hother, hdecoded⟩
    · rw [PostMap.write, PostMap.set] at hset
      split at hset
      · rename_i heq
        exact Or.inr ⟨pair, List.mem_cons_self, heq.symm, Option.some.inj hset⟩
      · exact Or.inl hset
    · exact Or.inr ⟨other, List.mem_cons_of_mem _ hother, hdecoded⟩

theorem write_ne_none_of_ne_none (h : postMap key ≠ none) :
    pairs.foldl (PostMap.write urlDecode) postMap key ≠ none := by
  induction pairs generalizing postMap with
  | nil => exact h
  | cons pair pairs ih =>
    apply ih
    rw [PostMap.write, PostMap.set]
    split
    · exact Option.some_ne_none _
    · exact h

theorem write_ne_none (hpair : pair ∈ pairs) :
    pairs.foldl (PostMap.write urlDecode) postMap (urlDecode pair.1) ≠ none := by
  induction pairs generalizing postMap with
  | nil => cases hpair
  | cons first pairs ih =>
    rcases List.mem_cons.mp hpair with rfl | hpair
    · have hwritten : postMap.write urlDecode pair (urlDecode pair.1) ≠ none := by simp [PostMap.write, PostMap.set]
      rw [List.foldl_cons]
      exact write_ne_none_of_ne_none hwritten
    · exact ih hpair

theorem write_last (h : pairs.getLast? = some pair) :
    pairs.foldl (PostMap.write urlDecode) postMap (urlDecode pair.1) = some (urlDecode pair.2) := by
  obtain ⟨before, rfl⟩ := List.getLast?_eq_some_iff.mp h
  simp [PostMap.write, PostMap.set]

end Maps

section Pieces

variable {pieces todo done : List (List Byte)} {piece last key value rest front data : List Byte}

@[simp] theorem joined_nil : joined [] = [] := rfl

@[simp] theorem joined_cons : joined (piece :: pieces) = piece ++ ampersand :: joined pieces := by
  simp [joined]

@[simp] theorem joined_append : joined (done ++ todo) = joined done ++ joined todo := List.flatMap_append

theorem splitOn_joined (hpieces : ∀ piece ∈ pieces, ampersand ∉ piece) (hlast : ampersand ∉ last) :
    (joined pieces ++ last).splitOn ampersand = pieces ++ [last] := by
  induction pieces with
  | nil => exact List.splitOn_eq_singleton hlast
  | cons piece pieces ih =>
    obtain ⟨hpiece, hrest⟩ := List.forall_mem_cons.mp hpieces
    rw [joined_cons, List.append_assoc, List.cons_append, List.splitOn_append_cons_self_of_not_mem hpiece, ih hrest]
    rfl

theorem exists_joined (data : List Byte) :
    ∃ pieces last, data = joined pieces ++ last ∧ (∀ piece ∈ pieces, ampersand ∉ piece) ∧ ampersand ∉ last := by
  induction data with
  | nil => exact ⟨[], [], rfl, by simp, by simp⟩
  | cons ch data ih =>
    obtain ⟨pieces, last, rfl, hpieces, hlast⟩ := ih
    by_cases hch : ch = ampersand
    · exact ⟨[] :: pieces, last, by simp [hch], by simpa using hpieces, hlast⟩
    · cases pieces with
      | nil => exact ⟨[], ch :: last, rfl, by simp, by simp [hlast, Ne.symm hch]⟩
      | cons piece pieces =>
        obtain ⟨hpiece, hrest⟩ := List.forall_mem_cons.mp hpieces
        exact ⟨(ch :: piece) :: pieces, last, by simp, by simpa [hpiece, Ne.symm hch] using hrest, hlast⟩

theorem cut_append (hkey : equalsSign ∉ key) : cut (key ++ equalsSign :: value) = (key, value) := by
  have htake : ∀ ch ∈ key, decide (ch ≠ equalsSign) = true := by
    intro ch hch
    exact decide_eq_true fun heq => hkey (heq ▸ hch)
  rw [cut, List.takeWhile_append_of_pos htake, List.dropWhile_append_of_pos htake]
  simp

theorem exists_key (h : equalsSign ∈ piece) : ∃ key value, piece = key ++ equalsSign :: value ∧ equalsSign ∉ key := by
  obtain ⟨key, value, hpiece, hkey⟩ := List.eq_append_cons_of_mem h
  exact ⟨key, value, hpiece, hkey⟩

/-- A pair that an `int` can count is sliced at its own `=`, when another pair follows. -/
theorem slices_pair (hkey : equalsSign ∉ key) (hpair : ampersand ∉ key ++ equalsSign :: value)
    (hsmall : front.length + (key ++ equalsSign :: value).length + 1 < 2 ^ 31) :
    slices (front ++ ((key ++ equalsSign :: value) ++ ampersand :: rest)) front.length = some (key, value) := by
  have hend : findFirstOf (front ++ ((key ++ equalsSign :: value) ++ ampersand :: rest)) ampersand front.length =
      front.length + key.length + 1 + value.length := by
    rw [findFirstOf_hit hpair, int_of_small (by omega) (by push_cast at hsmall ⊢; omega)]
    simp
    omega
  have hequals : findFirstOf (front ++ ((key ++ equalsSign :: value) ++ ampersand :: rest)) equalsSign front.length =
      front.length + key.length := by
    rw [List.append_assoc, List.cons_append, findFirstOf_hit hkey]
    simp at hsmall
    exact int_of_small (by omega) (by omega)
  simp at hsmall
  have hvalue : (front.length : Int) + key.length + 1 = ((front ++ (key ++ [equalsSign])).length : Nat) := by
    simp
    omega
  have hpos : int ((front.length : Int) + key.length + 1) = ((front ++ (key ++ [equalsSign])).length : Nat) := by
    rw [← hvalue, int_of_small (by omega) (by omega)]
  have hcount : int (int ((front.length : Int) + key.length + 1 + value.length - (front.length + key.length)) - 1) =
    value.length := by
    rw [int_of_small (n := _ - (_ + _)) (by omega) (by omega), int_of_small (by omega) (by omega)]
    omega
  have hdata : front ++ (key ++ (equalsSign :: value ++ ampersand :: rest)) =
      (front ++ (key ++ [equalsSign])) ++ (value ++ ampersand :: rest) := by simp
  rw [slices]
  simp only [hend, hequals, hpos, hcount]
  rw [int_of_small (by omega) (by omega), List.append_assoc, substr_take (by omega), hdata, substr_take rfl]
  rfl

theorem slices_last_pair (hkey : equalsSign ∉ key) (hpair : ampersand ∉ key ++ equalsSign :: value)
    (hsmall : front.length + key.length + 1 < 2 ^ 31) :
    slices (front ++ (key ++ equalsSign :: value)) front.length = some (key, value) := by
  have hequals : findFirstOf (front ++ (key ++ equalsSign :: value)) equalsSign front.length = front.length +
    key.length := by
    rw [findFirstOf_hit hkey]
    exact int_of_small (by omega) (by omega)
  have hvalue : (front.length : Int) + key.length + 1 = ((front ++ (key ++ [equalsSign])).length : Nat) := by
    simp
    omega
  have hpos : int ((front.length : Int) + key.length + 1) = ((front ++ (key ++ [equalsSign])).length : Nat) := by
    rw [← hvalue, int_of_small (by omega) (by omega)]
  have hcount : int (int (-1 - ((front.length : Int) + key.length)) - 1) < 0 := by
    rw [int_of_small (n := -1 - _) (by omega) (by omega), int_of_small (by omega) (by omega)]
    omega
  have hdata : front ++ (key ++ equalsSign :: value) = (front ++ (key ++ [equalsSign])) ++ value := by simp
  rw [slices]
  simp only [findFirstOf_miss hpair, hequals, hpos]
  rw [int_of_small (n := _ + _ - _) (by omega) (by omega), substr_take (by omega), hdata, substr_all hcount]
  rfl

end Pieces

section Runs

variable {urlDecode : List Byte → List Byte} {done todo : List (List Byte)} {piece last tail data : List Byte}
  {postMap out : PostMap} {fuel : Nat}

theorem loop_last (hend : findFirstOf data ampersand (joined done).length = -1) :
    loop urlDecode data (fuel + 1) (joined done).length postMap =
      (slices data (joined done).length).map fun pair => postMap.write urlDecode pair := by
  rw [loop, hend]
  cases slices data (joined done).length <;> rfl

/-- An `&` that an `int` can count past leads to the piece after it. -/
theorem loop_piece (hpiece : ampersand ∉ piece) (hsmall : (joined (done ++ [piece])).length < 2 ^ 31)
    (hdata : data = joined done ++ (piece ++ ampersand :: tail)) :
    loop urlDecode data (fuel + 1) (joined done).length postMap =
      (slices data (joined done).length).bind fun pair =>
        loop urlDecode data fuel (joined (done ++ [piece])).length (postMap.write urlDecode pair) := by
  have hlength : (joined (done ++ [piece])).length = (joined done).length + piece.length + 1 := by
    simp
    omega
  have hend : findFirstOf data ampersand (joined done).length = (joined done).length + piece.length := by
    rw [hdata, findFirstOf_hit hpiece, int_of_small (by omega) (by omega)]
  have hnext : int ((joined done).length + piece.length + 1) = (joined (done ++ [piece])).length := by
    rw [int_of_small (by omega) (by omega), hlength]
    push_cast
    rfl
  have hfound : ((joined done).length : Int) + piece.length ≠ -1 := by omega
  rw [loop, hend]
  simp only [hnext, if_neg hfound]
  rfl

/-- A run up to the piece in which no `&` is found writes the slices of one piece after the other. -/
theorem loop_entries (hdata : data = joined (done ++ todo) ++ tail) (htodo : ∀ piece ∈ todo, ampersand ∉ piece)
    (hend : findFirstOf data ampersand (joined (done ++ todo)).length = -1)
    (hsmall : (joined (done ++ todo)).length < 2 ^ 31)
    (h : loop urlDecode data fuel (joined done).length postMap = some out) :
    ∃ pairs : List (List Byte × List Byte),
      todo.inits.map (fun before => slices data (joined (done ++ before)).length) = pairs.map some ∧
        out = pairs.foldl (PostMap.write urlDecode) postMap := by
  induction todo generalizing done fuel postMap with
  | nil =>
    rw [List.append_nil] at hend
    cases fuel with
    | zero => cases h
    | succ fuel =>
      rw [loop_last hend] at h
      obtain ⟨pair, hpair, rfl⟩ := Option.map_eq_some_iff.mp h
      exact ⟨[pair], by simp [hpair], rfl⟩
  | cons piece todo ih =>
    obtain ⟨hpiece, htodo⟩ := List.forall_mem_cons.mp htodo
    cases fuel with
    | zero => cases h
    | succ fuel =>
      have hsplit : done ++ piece :: todo = (done ++ [piece]) ++ todo := by simp
      have hfirst : (joined (done ++ [piece])).length < 2 ^ 31 := by
        rw [hsplit, joined_append, List.length_append] at hsmall
        omega
      rw [@loop_piece _ done piece (joined todo ++ tail) data _ _ hpiece hfirst (by simp [hdata])] at h
      obtain ⟨pair, hpair, hrest⟩ := Option.bind_eq_some_iff.mp h
      rw [hsplit] at hdata hend hsmall
      obtain ⟨pairs, hpairs, rfl⟩ := ih hdata htodo hend hsmall hrest
      refine ⟨pair :: pairs, ?_, rfl⟩
      rw [List.inits_cons, List.map_cons, List.append_nil, hpair, List.map_map, List.map_cons, ← hpairs]
      simp

/-- Pieces that all have an `=` are written as they are cut. -/
theorem loop_cut (hdata : data = joined (done ++ todo) ++ last) (htodo : ∀ piece ∈ todo, ampersand ∉ piece)
    (hequals : ∀ piece ∈ todo, equalsSign ∈ piece) (hlast : ampersand ∉ last) (hlastEquals : equalsSign ∈ last)
    (hsmall : (joined (done ++ todo)).length + (cut last).1.length + 1 < 2 ^ 31) :
    loop urlDecode data (todo.length + 1) (joined done).length postMap =
      some (((todo ++ [last]).map cut).foldl (PostMap.write urlDecode) postMap) := by
  induction todo generalizing done postMap with
  | nil =>
    obtain ⟨key, value, rfl, hkey⟩ := exists_key hlastEquals
    rw [List.append_nil] at hdata hsmall
    subst hdata
    rw [List.length_nil, loop_last (findFirstOf_miss hlast),
      slices_last_pair hkey hlast (by simpa [cut_append hkey] using hsmall)]
    simp [cut_append hkey]
  | cons piece todo ih =>
    obtain ⟨hpiece, hrest⟩ := List.forall_mem_cons.mp htodo
    obtain ⟨hpieceEquals, hrestEquals⟩ := List.forall_mem_cons.mp hequals
    have hsplit : done ++ piece :: todo = (done ++ [piece]) ++ todo := by simp
    rw [hsplit] at hdata hsmall
    have hfirst : (joined (done ++ [piece])).length < 2 ^ 31 := by
      rw [joined_append, List.length_append] at hsmall
      omega
    obtain ⟨key, value, rfl, hkey⟩ := exists_key hpieceEquals
    have hpair : slices data (joined done).length = some (key, value) := by
      have hjoined : data = joined done ++ ((key ++ equalsSign :: value) ++ ampersand :: (joined todo ++ last)) := by
        simp [hdata]
      rw [hjoined]
      refine slices_pair hkey hpiece ?_
      simp at hfirst ⊢
      omega
    rw [List.length_cons, @loop_piece _ done _ (joined todo ++ last) data _ _ hpiece hfirst (by simp [hdata]), hpair,
      Option.bind_some, ih hdata hrest hrestEquals hsmall]
    simp [cut_append hkey]

end Runs

section Necessary

variable {urlDecode : List Byte → List Byte} {pieces : List (List Byte)} {front last rest key value data : List Byte}
  {postMap out : PostMap} {curPos : Int} {n : Nat}

/-- Where the first `&` from a position on is one that an `int` cannot count, unless an `int` can count it. -/
theorem findFirstOf_ne_none (hfront : front.length < 2 ^ 31) (hlast : ampersand ∉ last)
    (hfar : int (front.length + last.length) ≠ -1) (hn : n ≤ front.length + last.length) :
    findFirstOf (front ++ (last ++ ampersand :: rest)) ampersand n ≠ -1 := by
  rw [findFirstOf, if_neg (by omega), Int.toNat_natCast]
  by_cases hbefore : n ≤ front.length
  · rw [List.drop_append_of_le_length hbefore]
    simp only [List.mem_append, List.mem_cons, true_or, or_true, if_true, List.idxOf_append, if_neg hlast]
    split
    · rename_i hmem
      have hindex := List.idxOf_lt_length_of_mem hmem
      rw [List.length_drop] at hindex
      rw [int_of_small (by omega) (by omega)]
      omega
    · rw [List.idxOf_cons_self, List.length_drop]
      have hposition : (n : Int) + ((0 + last.length + (front.length - n) : Nat) : Int) = front.length + last.length :=
        by omega
      rwa [hposition]
  · have hdrop : (front ++ (last ++ ampersand :: rest)).drop n = last.drop (n - front.length) ++
      ampersand :: rest := by
      rw [List.drop_append, List.drop_eq_nil_of_le (by omega), List.nil_append,
        List.drop_append_of_le_length (by omega)]
    rw [hdrop]
    have hnone : ampersand ∉ last.drop (n - front.length) := fun hmem => hlast (List.mem_of_mem_drop hmem)
    simp only [List.mem_append, List.mem_cons, true_or, or_true, if_true, List.idxOf_append, if_neg hnone,
      List.idxOf_cons_self, List.length_drop]
    have hposition : (n : Int) + ((0 + (last.length - (n - front.length)) : Nat) : Int) = front.length + last.length :=
      by omega
    rwa [hposition]

/-- An `&` that an `int` cannot count past stops the loop only where it is taken for none. -/
theorem loop_far (hfront : front.length < 2 ^ 31) (hlast : ampersand ∉ last)
    (hfar : 2 ^ 31 ≤ front.length + last.length + 1) (hint : int (front.length + last.length) ≠ -1)
    (hcur : curPos < 2 ^ 31) (fuel : Nat) :
    loop urlDecode (front ++ (last ++ ampersand :: rest)) fuel curPos postMap = none := by
  induction fuel generalizing curPos postMap with
  | zero => rfl
  | succ fuel ih =>
    rw [loop]
    cases hslices : slices (front ++ (last ++ ampersand :: rest)) curPos with
    | none => rfl
    | some pair =>
      have hpos : 0 ≤ curPos := by
        obtain ⟨key, hkey, _⟩ := Option.bind_eq_some_iff.mp hslices
        exact (substr_eq_some hkey).1
      obtain ⟨n, rfl⟩ := Int.eq_ofNat_of_zero_le hpos
      have hend : findFirstOf (front ++ (last ++ ampersand :: rest)) ampersand n ≠ -1 :=
        findFirstOf_ne_none hfront hlast hint (by omega)
      show (if _ then _ else _) = none
      rw [if_neg hend]
      exact ih int_lt

/-- Pieces up to the last one that an `int` can count to. -/
theorem exists_counted (data : List Byte) :
    ∃ pieces last tail, data = joined pieces ++ (last ++ tail) ∧ (∀ piece ∈ pieces, ampersand ∉ piece) ∧
      ampersand ∉ last ∧ (joined pieces).length < 2 ^ 31 ∧
      (tail = [] ∨ ∃ rest, tail = ampersand :: rest ∧ 2 ^ 31 ≤ (joined pieces).length + last.length + 1) := by
  obtain ⟨pieces, last, hdata, hpieces, hlast⟩ := exists_joined data
  have hcounted : ∀ todo done, (∀ piece ∈ todo, ampersand ∉ piece) → (∀ piece ∈ done, ampersand ∉ piece) →
      data = joined done ++ (joined todo ++ last) → (joined done).length < 2 ^ 31 →
      ∃ pieces last tail, data = joined pieces ++ (last ++ tail) ∧ (∀ piece ∈ pieces, ampersand ∉ piece) ∧
        ampersand ∉ last ∧ (joined pieces).length < 2 ^ 31 ∧
        (tail = [] ∨ ∃ rest, tail = ampersand :: rest ∧ 2 ^ 31 ≤ (joined pieces).length + last.length + 1) := by
    intro todo
    induction todo with
    | nil =>
      intro done _ hdone hsplit hsmall
      exact ⟨done, last, [], by simpa using hsplit, hdone, hlast, hsmall, Or.inl rfl⟩
    | cons piece todo ih =>
      intro done htodo hdone hsplit hsmall
      obtain ⟨hpiece, htodo⟩ := List.forall_mem_cons.mp htodo
      by_cases hnext : (joined done).length + piece.length + 1 < 2 ^ 31
      · refine ih (done ++ [piece]) htodo ?_ (by simp [hsplit]) (by simp; omega)
        intro other hother
        rcases List.mem_append.mp hother with hold | hnew
        · exact hdone other hold
        · exact List.mem_singleton.mp hnew ▸ hpiece
      · exact ⟨done, piece, ampersand :: (joined todo ++ last), by simp [hsplit], hdone, hpiece, hsmall,
          Or.inr ⟨_, rfl, by omega⟩⟩
  exact hcounted pieces [] hpieces (by simp) (by simpa using hdata) (by simp)

/-- Decoding that tells only whether the bytes pass a test. -/
def flag (test : List Byte → Bool) (bytes : List Byte) : List Byte := if test bytes then [0] else []

theorem flag_eq_flag {test : List Byte → Bool} (h : flag test key = [0]) : test key = true := by
  unfold flag at h
  split at h
  · assumption
  · cases h

/-- The slices of a piece in which no `&` is found. -/
theorem slices_end (hend : findFirstOf data ampersand n = -1) (h : slices data n = some (key, value)) :
    let equalsPos := findFirstOf data equalsSign n
    0 ≤ equalsPos + 1 ∧ equalsPos + 1 < 2 ^ 31 ∧ value = data.drop (equalsPos + 1).toNat ∧
      (n < 2 ^ 31 → equalsPos < n → key = data.drop n) ∧
      (n ≤ equalsPos → key = (data.drop n).take (equalsPos - n).toNat) := by
  have hrange : -2 ^ 31 ≤ findFirstOf data equalsSign n ∧ findFirstOf data equalsSign n < 2 ^ 31 := by
    rw [findFirstOf, if_neg (by omega)]
    dsimp only
    split
    · exact ⟨le_int, int_lt⟩
    · omega
  rw [slices] at h
  simp only [hend] at h
  generalize findFirstOf data equalsSign n = equalsPos at h hrange ⊢
  obtain ⟨hlow, hhigh⟩ := hrange
  obtain ⟨slice, hkey, hrest⟩ := Option.bind_eq_some_iff.mp h
  obtain ⟨slice', hvalue, hpair⟩ := Option.bind_eq_some_iff.mp hrest
  obtain ⟨rfl, rfl⟩ := Prod.mk.inj (Option.some.inj hpair)
  obtain ⟨hpos, hslice⟩ := substr_eq_some hvalue
  have hnext : int (equalsPos + 1) = equalsPos + 1 := by
    unfold int at hpos ⊢
    omega
  have hend' : equalsPos + 1 < 2 ^ 31 := hnext ▸ int_lt
  rw [hnext] at hpos hslice
  have hcount : int (int (-1 - equalsPos) - 1) < 0 := by
    rw [int_of_small (n := -1 - _) (by omega) (by omega), int_of_small (by omega) (by omega)]
    omega
  obtain ⟨_, hkeySlice⟩ := substr_eq_some hkey
  refine ⟨hpos, hend', ?_, fun hn hbefore => ?_, fun hafter => ?_⟩
  · exact (hslice.resolve_right fun hall => absurd hall.2 (by omega)).1
  · rw [int_of_small (by omega) (by omega)] at hkeySlice
    have hall := (hkeySlice.resolve_right fun htaken => absurd htaken.2 (by omega)).1
    rwa [Int.toNat_natCast] at hall
  · rw [int_of_small (by omega) (by omega)] at hkeySlice
    have htaken := (hkeySlice.resolve_left fun hall => absurd hall.2 (by omega)).1
    rwa [Int.toNat_natCast] at htaken

theorem slices_key {pair : List Byte × List Byte} (h : slices data n = some pair) :
    pair.1 = data.drop n ∨ pair.1.length < 2 ^ 31 := by
  obtain ⟨slice, hkey, hrest⟩ := Option.bind_eq_some_iff.mp h
  obtain ⟨slice', hvalue, hpair⟩ := Option.bind_eq_some_iff.mp hrest
  obtain rfl := Option.some.inj hpair
  rcases (substr_eq_some hkey).2 with ⟨rfl, _⟩ | ⟨rfl, _⟩
  · exact Or.inl rfl
  · refine Or.inr ((List.length_take_le _ _).trans_lt ?_)
    have hcount := @int_lt (findFirstOf data equalsSign n - n)
    omega

/-- A key reaches up to the next `=`, also where that is in a later piece. -/
theorem slices_key_append {pair : List Byte × List Byte} (hkey : equalsSign ∉ key)
    (hsmall : front.length + key.length < 2 ^ 31)
    (h : slices (front ++ (key ++ equalsSign :: rest)) front.length = some pair) : pair.1 = key := by
  obtain ⟨slice, hslice, hrest⟩ := Option.bind_eq_some_iff.mp h
  obtain ⟨slice', hvalue, hpair⟩ := Option.bind_eq_some_iff.mp hrest
  obtain rfl := Option.some.inj hpair
  rw [findFirstOf_hit hkey, int_of_small (n := _ + _) (by omega) (by omega), int_of_small (by omega) (by omega),
    substr_take (by omega)] at hslice
  exact (Option.some.inj hslice).symm

theorem not_mem_piece {piece : List Byte} (h : piece ∈ data.splitOn ampersand) : ampersand ∉ piece := by
  obtain ⟨pieces, last, rfl, hpieces, hlast⟩ := exists_joined data
  rw [splitOn_joined hpieces hlast] at h
  rcases List.mem_append.mp h with hmem | hmem
  · exact hpieces piece hmem
  · exact List.mem_singleton.mp hmem ▸ hlast

theorem not_mem_cut {piece : List Byte} {ch : Byte} (h : ch ∉ piece) : ch ∉ (cut piece).1 ∧ ch ∉ (cut piece).2 := by
  constructor
  · exact fun hmem => h ((List.takeWhile_prefix _).subset hmem)
  · exact fun hmem => h ((List.dropWhile_suffix _).subset (List.mem_of_mem_tail hmem))

theorem cut_of_not_mem {piece : List Byte} (h : equalsSign ∉ piece) : cut piece = (piece, []) := by
  have hall : ∀ ch ∈ piece, decide (ch ≠ equalsSign) = true := by
    intro ch hch
    exact decide_eq_true fun heq => h (heq ▸ hch)
  rw [cut, List.takeWhile_eq_self_iff.mpr hall, List.dropWhile_eq_nil_iff.mpr hall]
  rfl

section Written

variable {pairs : List (List Byte × List Byte)} (test : List Byte → Bool)

/-- A test that no key of the form passes is passed by no slice that is taken for a key. -/
theorem test_key (hform : ∀ urlDecode, formMap urlDecode data = pairs.foldl (PostMap.write urlDecode) fun _ => none)
    (hspec : ∀ piece ∈ data.splitOn ampersand, test (cut piece).1 = false) {pair : List Byte × List Byte}
    (hpair : pair ∈ pairs) : test pair.1 = false := by
  by_contra htest
  have hflag : flag test pair.1 = [0] := if_pos (by simpa using htest)
  have hwritten := @write_ne_none (flag test) pairs pair (fun _ => none) hpair
  rw [← hform, hflag] at hwritten
  obtain ⟨value, hvalue⟩ := Option.ne_none_iff_exists'.mp hwritten
  obtain hnone | ⟨other, hother, hkey, _⟩ := write_eq_some hvalue
  · cases hnone
  · obtain ⟨piece, hpiece, rfl⟩ := List.mem_map.mp hother
    have hfalse := hspec piece (List.mem_of_mem_filter hpiece)
    rw [flag_eq_flag hkey] at hfalse
    cases hfalse

/-- A test that no value of the form passes is not passed by the last slice that is taken for a value. -/
theorem test_value (hform : ∀ urlDecode, formMap urlDecode data = pairs.foldl (PostMap.write urlDecode) fun _ => none)
    (hspec : ∀ piece ∈ data.splitOn ampersand, test (cut piece).2 = false) {pair : List Byte × List Byte}
    (hpair : pairs.getLast? = some pair) : test pair.2 = false := by
  by_contra htest
  have hwritten := @write_last (flag test) pairs pair (fun _ => none) hpair
  rw [← hform, show flag test pair.2 = [0] from if_pos (by simpa using htest)] at hwritten
  obtain hnone | ⟨other, hother, _, hvalue⟩ := write_eq_some hwritten
  · cases hnone
  · obtain ⟨piece, hpiece, rfl⟩ := List.mem_map.mp hother
    have hfalse := hspec piece (List.mem_of_mem_filter hpiece)
    rw [flag_eq_flag hvalue] at hfalse
    cases hfalse

/-- A key of the form is one of the slices that are taken for keys. -/
theorem exists_pair (hform : ∀ urlDecode, formMap urlDecode data = pairs.foldl (PostMap.write urlDecode) fun _ => none)
    {piece : List Byte} (hpiece : piece ∈ data.splitOn ampersand) (hne : piece ≠ []) :
    ∃ pair ∈ pairs, pair.1 = (cut piece).1 := by
  have hmem : cut piece ∈ ((data.splitOn ampersand).filter (· ≠ [])).map cut :=
    List.mem_map_of_mem (List.mem_filter.mpr ⟨hpiece, by simpa using hne⟩)
  have hwritten := @write_ne_none id _ _ (fun _ => none) hmem
  rw [← formMap, hform] at hwritten
  obtain ⟨value, hvalue⟩ := Option.ne_none_iff_exists'.mp hwritten
  obtain hnone | ⟨pair, hpair, hkey, _⟩ := write_eq_some hvalue
  · cases hnone
  · exact ⟨pair, hpair, hkey⟩

end Written

/-- The slices of a map that is right for each way of decoding. -/
theorem exists_pairs (hreturns : ∀ urlDecode, Returns urlDecode data (formMap urlDecode data))
    (hdata : data = joined pieces ++ rest) (hpieces : ∀ piece ∈ pieces, ampersand ∉ piece)
    (hend : findFirstOf data ampersand (joined pieces).length = -1) (hsmall : (joined pieces).length < 2 ^ 31) :
    ∃ pairs : List (List Byte × List Byte), pieces.inits.map (fun before => slices data (joined before).length) =
      pairs.map some ∧ ∀ urlDecode, formMap urlDecode data = pairs.foldl (PostMap.write urlDecode) fun _ => none := by
  have hentries : ∀ urlDecode, ∃ pairs : List (List Byte × List Byte),
      pieces.inits.map (fun before => slices data (joined before).length) = pairs.map some ∧
        formMap urlDecode data = pairs.foldl (PostMap.write urlDecode) fun _ => none := by
    intro urlDecode
    obtain ⟨fuel, hloop⟩ := hreturns urlDecode
    exact @loop_entries urlDecode [] pieces rest data _ _ fuel hdata hpieces hend hsmall hloop
  obtain ⟨pairs, hpairs, _⟩ := hentries id
  refine ⟨pairs, hpairs, fun urlDecode => ?_⟩
  obtain ⟨pairs', hpairs', hform⟩ := hentries urlDecode
  rwa [List.map_injective_iff.mpr (Option.some_injective _) (hpairs.symm.trans hpairs')]

section Pairs

variable {pairs : List (List Byte × List Byte)}

theorem exists_slices {before : List (List Byte)}
    (hpairs : pieces.inits.map (fun before => slices data (joined before).length) = pairs.map some)
    (hbefore : before <+: pieces) : ∃ pair ∈ pairs, slices data (joined before).length = some pair := by
  have hmem : slices data (joined before).length ∈ pairs.map some :=
    hpairs ▸ List.mem_map_of_mem ((List.mem_inits _ _).mpr hbefore)
  obtain ⟨pair, hpair, heq⟩ := List.mem_map.mp hmem
  exact ⟨pair, hpair, heq.symm⟩

theorem exists_before {pair : List Byte × List Byte}
    (hpairs : pieces.inits.map (fun before => slices data (joined before).length) = pairs.map some)
    (hpair : pair ∈ pairs) :
    ∃ before, before <+: pieces ∧ slices data (joined before).length = some pair := by
  have hmem : some pair ∈ pieces.inits.map fun before => slices data (joined before).length :=
    hpairs ▸ List.mem_map_of_mem hpair
  obtain ⟨before, hbefore, heq⟩ := List.mem_map.mp hmem
  exact ⟨before, (List.mem_inits _ _).mp hbefore, heq⟩

theorem exists_last (hpairs : pieces.inits.map (fun before => slices data (joined before).length) = pairs.map some) :
    ∃ pair, pairs.getLast? = some pair ∧ slices data (joined pieces).length = some pair := by
  have hlast : (pairs.map some).getLast? = some (slices data (joined pieces).length) := by
    rw [← hpairs, List.getLast?_map]
    obtain rfl | ⟨before, piece, rfl⟩ := List.eq_nil_or_concat pieces
    · rfl
    · simp [List.concat_eq_append, List.inits_append]
  rw [List.getLast?_map] at hlast
  obtain ⟨pair, hpair, heq⟩ := Option.map_eq_some_iff.mp hlast
  exact ⟨pair, hpair, heq.symm⟩

/-- The last `=` that ends a key is one that an `int` can count past. -/
theorem last_of_pairs (hpairs : pieces.inits.map (fun before => slices data (joined before).length) = pairs.map some)
    (hform : ∀ urlDecode, formMap urlDecode data = pairs.foldl (PostMap.write urlDecode) fun _ => none)
    (hdata : data = joined pieces ++ last) (hpieces : ∀ piece ∈ pieces, ampersand ∉ piece) (hlast : ampersand ∉ last)
    (hsmall : (joined pieces).length < 2 ^ 31) (hequals : equalsSign ∈ last)
    (hpos : 0 ≤ findFirstOf data equalsSign (joined pieces).length + 1)
    (hpos' : findFirstOf data equalsSign (joined pieces).length + 1 < 2 ^ 31) :
    (joined pieces).length + (cut last).1.length + 1 < 2 ^ 31 := by
  obtain ⟨key, value, hlastPair, hkey⟩ := exists_key hequals
  have hcut : (cut last).1 = key := by rw [hlastPair, cut_append hkey]
  rw [hcut]
  by_contra hfar
  rw [hdata, hlastPair, findFirstOf_hit hkey] at hpos hpos'
  have hlong : 2 ^ 31 ≤ key.length := by
    unfold int at hpos hpos'
    omega
  have hmem : last ∈ data.splitOn ampersand := by simp [hdata, splitOn_joined hpieces hlast]
  obtain ⟨pair, hpair, hpairKey⟩ := exists_pair hform hmem (by simp [hlastPair])
  rw [hcut] at hpairKey
  obtain ⟨before, ⟨after, rfl⟩, hslices⟩ := exists_before hpairs hpair
  rcases slices_key hslices with hall | hshort
  · rw [hpairKey, hdata, joined_append, List.append_assoc, List.drop_left] at hall
    exact hkey (hall ▸ List.mem_append_right _ hequals)
  · rw [hpairKey] at hshort
    omega

/-- When the last piece has an `=`, each one has. -/
theorem equals_of_pairs (hpairs : pieces.inits.map (fun before => slices data (joined before).length) = pairs.map some)
    (hform : ∀ urlDecode, formMap urlDecode data = pairs.foldl (PostMap.write urlDecode) fun _ => none)
    (hdata : data = joined pieces ++ last) (hequals : equalsSign ∈ last)
    (hsmall : (joined pieces).length + (cut last).1.length + 1 < 2 ^ 31) {piece : List Byte}
    (hpiece : piece ∈ pieces) :
    equalsSign ∈ piece := by
  by_contra hnone
  obtain ⟨before, after, rfl⟩ := List.append_of_mem hpiece
  obtain ⟨lastKey, lastValue, hlastPair, hlastKey⟩ := exists_key hequals
  rw [hlastPair, cut_append hlastKey] at hsmall
  obtain ⟨skipped, value, hskipped, hkey⟩ := exists_key (List.mem_append_right (joined after) hequals)
  have hbound : skipped.length ≤ (joined after ++ lastKey).length := by
    by_contra hlong
    have hat : skipped[(joined after ++ lastKey).length]? = some equalsSign := by
      rw [← List.getElem?_append_left (by omega), ← hskipped, hlastPair, ← List.append_assoc]
      simp
    exact hkey (List.mem_of_getElem? hat)
  obtain ⟨pair, hpair, hslices⟩ := exists_slices hpairs (List.prefix_append before (piece :: after))
  have hsplit : data = joined before ++ ((piece ++ ampersand :: skipped) ++ equalsSign :: value) := by
    rw [hdata, joined_append, joined_cons]
    simp [← hskipped]
  have hkeyPair : pair.1 = piece ++ ampersand :: skipped := by
    rw [hsplit] at hslices
    refine slices_key_append ?_ ?_ hslices
    · simp [hnone, hkey, equalsSign_ne_ampersand]
    · simp at hsmall hbound ⊢
      omega
  have htest := test_key (fun bytes => decide (ampersand ∈ bytes)) hform ?_ hpair
  · simp [hkeyPair] at htest
  · intro piece hpiece
    simpa using (not_mem_cut (not_mem_piece hpiece)).1

/-- The last piece has an `=`. -/
theorem exists_equals (hpairs : pieces.inits.map (fun before => slices data (joined before).length) = pairs.map some)
    (hform : ∀ urlDecode, formMap urlDecode data = pairs.foldl (PostMap.write urlDecode) fun _ => none)
    (hdata : data = joined pieces ++ last) (hpieces : ∀ piece ∈ pieces, ampersand ∉ piece) (hlast : ampersand ∉ last)
    (hsmall : (joined pieces).length < 2 ^ 31) : equalsSign ∈ last := by
  by_contra hnone
  have hend : findFirstOf data ampersand (joined pieces).length = -1 := by
    rw [hdata]
    exact findFirstOf_miss hlast
  have hequals : findFirstOf data equalsSign (joined pieces).length = -1 := by
    rw [hdata]
    exact findFirstOf_miss hnone
  obtain ⟨pair, hpair, hslices⟩ := exists_last hpairs
  obtain ⟨_, _, hvalue, _, _⟩ := slices_end hend hslices
  rw [hequals, show ((-1 : Int) + 1).toNat = 0 from rfl, List.drop_zero] at hvalue
  -- All of the string is taken for the value.
  have hsingle : pieces = [] := by
    have htest := test_value (fun bytes => decide (ampersand ∈ bytes)) hform ?_ hpair
    · cases pieces with
      | nil => rfl
      | cons piece pieces => simp [hvalue, hdata] at htest
    · intro piece hpiece
      simpa using (not_mem_cut (not_mem_piece hpiece)).2
  subst hsingle
  have hempty : data = [] := by
    have htest := test_value (fun bytes => decide (bytes ≠ [])) hform ?_ hpair
    · simpa [hvalue] using htest
    · intro piece hpiece
      rw [hdata, splitOn_joined hpieces hlast, List.nil_append, List.mem_singleton] at hpiece
      simp [hpiece, cut_of_not_mem hnone]
  have hwritten := @write_ne_none id pairs pair (fun _ => none) (List.mem_of_mem_getLast? hpair)
  rw [← hform, hempty] at hwritten
  exact hwritten rfl

end Pairs

theorem eachHasEquals_of_returns (hreturns : ∀ urlDecode, Returns urlDecode data (formMap urlDecode data)) :
    EachHasEquals data := by
  obtain ⟨pieces, last, tail, hdata, hpieces, hlast, hsmall, htail⟩ := exists_counted data
  have hend : findFirstOf data ampersand (joined pieces).length = -1 := by
    rcases htail with rfl | ⟨rest, rfl, hfar⟩
    · rw [hdata, List.append_nil]
      exact findFirstOf_miss hlast
    · by_contra hne
      rw [hdata, findFirstOf_hit hlast] at hne
      obtain ⟨fuel, hloop⟩ := hreturns id
      rw [hdata, loop_far hsmall hlast hfar hne (by norm_num)] at hloop
      cases hloop
  obtain ⟨pairs, hpairs, hform⟩ := exists_pairs hreturns hdata hpieces hend hsmall
  obtain ⟨pair, hpair, hslices⟩ := exists_last hpairs
  obtain ⟨hpos, hpos', hvalue, hbefore, hafter⟩ := slices_end hend hslices
  have hfree : ampersand ∉ pair.2 := by
    have htest := test_value (fun bytes => decide (ampersand ∈ bytes)) hform ?_ hpair
    · simpa using htest
    · intro piece hpiece
      simpa using (not_mem_cut (not_mem_piece hpiece)).2
  rcases htail with rfl | ⟨rest, rfl, hfar⟩
  · rw [List.append_nil] at hdata
    have hequals := exists_equals hpairs hform hdata hpieces hlast hsmall
    have hcount := last_of_pairs hpairs hform hdata hpieces hlast hsmall hequals hpos hpos'
    have hsplit : data.splitOn ampersand = pieces ++ [last] := by rw [hdata, splitOn_joined hpieces hlast]
    refine ⟨?_, ?_⟩
    · intro piece hpiece
      rw [hsplit] at hpiece
      rcases List.mem_append.mp hpiece with hmem | hmem
      · exact equals_of_pairs hpairs hform hdata hequals hcount hmem
      · exact List.mem_singleton.mp hmem ▸ hequals
    · obtain ⟨key, value, rfl, hkey⟩ := exists_key hequals
      rw [cut_append hkey] at hcount
      rw [hsplit]
      simp [cut_append hkey, hdata] at hcount ⊢
      omega
  · refine absurd ?_ hfree
    have hcount : (findFirstOf data equalsSign (joined pieces).length + 1).toNat ≤ (joined pieces ++ last).length := by
      rw [List.length_append]
      omega
    rw [hvalue]
    generalize (findFirstOf data equalsSign (joined pieces).length + 1).toNat = k at hcount
    rw [hdata, ← List.append_assoc, List.drop_append_of_le_length hcount]
    simp

end Necessary

theorem returns_of_eachHasEquals {data : List Byte} (h : EachHasEquals data) (urlDecode : List Byte → List Byte) :
    Returns urlDecode data (formMap urlDecode data) := by
  obtain ⟨pieces, last, rfl, hpieces, hlast⟩ := exists_joined data
  obtain ⟨hequals, hsmall⟩ := h
  rw [splitOn_joined hpieces hlast] at hequals hsmall
  obtain ⟨hbefore, hlastEquals⟩ := List.forall_mem_append.mp hequals
  have hlastEquals := hlastEquals last (List.mem_singleton_self last)
  have hcount : (joined pieces).length + (cut last).1.length + 1 < 2 ^ 31 := by
    obtain ⟨key, value, rfl, hkey⟩ := exists_key hlastEquals
    simp [cut_append hkey] at hsmall ⊢
    omega
  have hloop := @loop_cut urlDecode [] pieces last _ (fun _ => none) rfl hpieces hbefore hlast hlastEquals hcount
  have hfilter : (pieces ++ [last]).filter (· ≠ []) = pieces ++ [last] := by
    refine List.filter_eq_self.mpr fun piece hpiece => ?_
    simpa using List.ne_nil_of_mem (hequals piece hpiece)
  refine ⟨pieces.length + 1, ?_⟩
  rw [formMap, splitOn_joined hpieces hlast, hfilter]
  exact hloop

/-- `ParsePOSTString` makes the map of a form, whatever decodes it, for those forms whose pieces all have an `=`. -/
theorem returns_formMap_iff (data : List Byte) :
    (∀ urlDecode, Returns urlDecode data (formMap urlDecode data)) ↔ EachHasEquals data :=
  ⟨eachHasEquals_of_returns, returns_of_eachHasEquals⟩

/-- Of `a&b=c`, the first key is `a&b`. -/
theorem not_returns_formMap :
    ¬ ∀ (urlDecode : List Byte → List Byte) (data : List Byte), Returns urlDecode data (formMap urlDecode data) := by
  intro hall
  obtain ⟨fuel, hloop⟩ := hall id [97, 38, 98, 61, 99]
  have hkey : formMap id [97, 38, 98, 61, 99] [97, 38, 98] = none := by decide
  cases fuel with
  | zero => cases hloop
  | succ fuel =>
    cases fuel with
    | zero => cases hloop
    | succ fuel =>
      have hvalue := congrFun (Option.some.inj hloop) [97, 38, 98]
      rw [hkey] at hvalue
      cases hvalue

end fx.ParsePOSTString
