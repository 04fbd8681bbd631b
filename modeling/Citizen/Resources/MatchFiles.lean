import Citizen.Resources.NormalizePath

open fx.NormalizePath

namespace fx.MatchFiles

/-- What a device gives for an entry of a folder. -/
structure FindData where
  name : Text
  directory : Bool
  deriving DecidableEq

/-- `find`. -/
def find (c : Char) (text : Text) : Option Nat := if c ∈ text then some (text.idxOf c) else none

/-- `find_last_of`. -/
def findLastOf (c : Char) (text : Text) : Option Nat := (find c text.reverse).map fun i => text.length - 1 - i

/-- `boost::replace_all`, after `skip` characters of an occurrence. -/
def replaceAll (search replacement : Text) : Nat → Text → Text
  | _, [] => []
  | skip + 1, _ :: rest => replaceAll search replacement skip rest
  | 0, c :: rest =>
    if search.isPrefixOf (c :: rest) then replacement ++ replaceAll search replacement (search.length - 1) rest
    else c :: replaceAll search replacement 0 rest

/-- The replacements of `Match`, in their order. -/
def replacements : List (Text × Text) :=
  [(['\\'], ['\\', '\\']), (['^'], ['\\', '^']), (['.'], ['\\', '.']), (['$'], ['\\', '$']), (['|'], ['\\', '|']),
    (['('], ['\\', '(']), ([')'], ['\\', ')']), (['['], ['\\', '[']), ([']'], ['\\', ']']), (['*'], ['\\', '*']),
    (['+'], ['\\', '+']), (['?'], ['\\', '?']), (['/'], ['\\', '/']), (['\\', '?'], ['.']), (['\\', '*'], ['.', '*'])]

def applyReplacement (text : Text) (replacement : Text × Text) : Text := replaceAll replacement.1 replacement.2 0 text

/-- The regular expression of a pattern. -/
def regexText (pattern : Text) : Text := ['^'] ++ replacements.foldl applyReplacement pattern ++ ['$']

/-- A part of a regular expression. -/
inductive Item
  | char (c : Char)
  | any
  | anyRun
  | begin
  | finish
  deriving DecidableEq

/-- Characters that an expression of single characters and `.*` has no use for. -/
def isSyntax (c : Char) : Bool := c ∈ ['\\', '|', '(', ')', '[', ']', '*', '+', '?', Char.ofNat 123, Char.ofNat 125]

/-- ECMAScript, as far as a pattern needs it. -/
def parseRegex : Text → Option (List Item)
  | [] => some []
  | '\\' :: c :: rest => if c.isAlphanum then none else (parseRegex rest).map (.char c :: ·)
  | '.' :: '*' :: rest => (parseRegex rest).map (.anyRun :: ·)
  | '.' :: rest => (parseRegex rest).map (.any :: ·)
  | '^' :: rest => (parseRegex rest).map (.begin :: ·)
  | '$' :: rest => (parseRegex rest).map (.finish :: ·)
  | c :: rest => if isSyntax c then none else (parseRegex rest).map (.char c :: ·)

/-- What `.` does not stand for. -/
def isLineTerminator (c : Char) : Bool := c = '\n' || c = '\r'

/-- `std::regex_match`. -/
def matchItems : Bool → List Item → Text → Bool
  | _, [], text => text.isEmpty
  | atStart, .begin :: items, text => atStart && matchItems atStart items text
  | atStart, .finish :: items, text => text.isEmpty && matchItems atStart items text
  | _, .char _ :: _, [] => false
  | _, .char c :: items, d :: text => c = d && matchItems false items text
  | _, .any :: _, [] => false
  | _, .any :: items, d :: text => !isLineTerminator d && matchItems false items text
  | atStart, .anyRun :: items, [] => matchItems atStart items []
  | atStart, .anyRun :: items, d :: text =>
    matchItems atStart items (d :: text) || !isLineTerminator d && matchItems false (.anyRun :: items) text
termination_by _ items text => items.length + text.length

/-- The order of a `std::set` of strings. -/
def inOrder (left right : Text) : Bool := !right.lex left fun c d => decide (c.toNat < d.toNat)

section Source

variable (list : Text → List FindData) (engine : Text → Option (Text → Bool))

/-- `std::regex` with `regex_match`. What else it makes of an expression, if it does not throw, is for `engine` to
say. -/
def regex (text : Text) : Option (Text → Bool) :=
  match parseRegex text with
  | some items => some (matchItems true items)
  | none => engine text

/-- The entries that a `Match` stops at. Its constructor and `Next` pass over the others that the device lists. -/
def matchEntries (pattern : Text) : Option (List FindData) := do
  let slashPos := findLastOf '/' pattern
  let root := (match slashPos with | some pos => pattern.take pos | none => pattern) ++ ['/']
  let after := match slashPos with | some pos => pattern.drop (pos + 1) | none => pattern
  let re ← regex engine (regexText after)
  some ((list root).filter fun findData => findData.name ≠ ['.'] && findData.name ≠ ['.', '.'] && re findData.name)

def getDirectory (text : Text) : Text :=
  match findLastOf '/' text with
  | some pos => text.take pos
  | none => ['.']

/-- `std::set::insert`, of each one. -/
def insertAll (results new : List Text) : List Text := new.foldl (fun results path => results.insert path) results

/-- `MatchFiles`, which calls `self` for the patterns that it makes. -/
def round (self : Text → Option (List Text)) (pattern : Text) : Option (List Text) := do
  let patternNorm ← path_normalize pattern
  let starPos := find '*' patternNorm
  let before := getDirectory (match starPos with | some pos => patternNorm.take pos | none => patternNorm)
  let slashPos := starPos.bind fun pos => (find '/' (patternNorm.drop pos)).map (pos + ·)
  let after := match slashPos with | some pos => patternNorm.drop (pos + 1) | none => []
  let recurse := starPos.filter fun pos =>
    (patternNorm.drop (pos + 1)).take 1 = ['*'] ∧ (pos = 0 ∨ (patternNorm.drop (pos - 1)).take 1 = ['/'])
  let results ←
    match recurse with
    | some pos => do
      let correct ← self (patternNorm.take pos ++ patternNorm.drop (pos + 1))
      let legacy ← self (patternNorm.take pos ++ patternNorm.drop (pos + 2))
      let found ← matchEntries list engine (patternNorm.take (pos + 1))
      found.foldlM (fun results findData =>
        if findData.directory then
          (self (before ++ ['/'] ++ findData.name ++ ['/'] ++ patternNorm.drop pos)).map (insertAll results)
        else some results) (insertAll (insertAll [] correct) legacy)
    | none => do
      let found ← matchEntries list engine
        (match slashPos with | some pos => patternNorm.take (pos - 1) | none => patternNorm)
      found.foldlM (fun results findData =>
        let isfile := !findData.directory
        if slashPos.isSome && isfile then some results
        else
          let matchPath := before ++ ['/'] ++ findData.name
          if after ≠ [] then (self (matchPath ++ ['/'] ++ after)).map (insertAll results)
          else if isfile then some (results.insert matchPath)
          else some results) []
  some (results.mergeSort inOrder)

/-- `MatchFiles`, with fuel for the depth of its calls. -/
def matchFiles : Nat → Text → Option (List Text)
  | 0, _ => none
  | fuel + 1, pattern => round list engine (matchFiles fuel) pattern

end Source

section Positions

variable {c : Char} {pre post text : Text}

theorem find_append (hpre : c ∉ pre) : find c (pre ++ c :: post) = some pre.length := by
  rw [find, if_pos (by simp), List.idxOf_append_of_notMem hpre, List.idxOf_cons_self]
  rfl

theorem find_eq_none (htext : c ∉ text) : find c text = none := if_neg htext

theorem findLastOf_append (hpost : c ∉ post) : findLastOf c (pre ++ c :: post) = some pre.length := by
  have hreverse : (pre ++ c :: post).reverse = post.reverse ++ c :: pre.reverse := by simp
  rw [findLastOf, hreverse, find_append (by simpa using hpost)]
  simp

theorem findLastOf_eq_none (htext : c ∉ text) : findLastOf c text = none := by
  rw [findLastOf, find_eq_none (by simpa using htext)]
  rfl

theorem getDirectory_append (hpost : '/' ∉ post) : getDirectory (pre ++ '/' :: post) = pre := by
  rw [getDirectory, findLastOf_append hpost]
  exact List.take_left

theorem getDirectory_eq_dot (htext : '/' ∉ text) : getDirectory text = ['.'] := by
  rw [getDirectory, findLastOf_eq_none htext]

end Positions

section Replacements

theorem replaceAll_single (x : Char) (replacement text : Text) :
    replaceAll [x] replacement 0 text = text.flatMap fun c => if c = x then replacement else [c] := by
  induction text with
  | nil => rfl
  | cons c rest ih =>
    rw [replaceAll, List.flatMap_cons]
    by_cases hc : c = x
    · subst hc
      simp [ih]
    · have hprefix : ¬ [x].isPrefixOf (c :: rest) = true := by simpa using Ne.symm hc
      rw [if_neg hprefix, if_neg hc, ih]
      rfl

theorem replaceAll_eq_self {search text : Text} {x : Char} (replacement : Text) (hx : x ∈ search) (htext : x ∉ text) :
    replaceAll search replacement 0 text = text := by
  induction text with
  | nil => rfl
  | cons c rest ih =>
    have hprefix : ¬ search.isPrefixOf (c :: rest) = true :=
      fun h => htext ((List.isPrefixOf_iff_prefix.mp h).subset hx)
    rw [replaceAll, if_neg hprefix, ih fun h => htext (List.mem_cons_of_mem _ h)]

/-- A character after the replacements that put a backslash before `specials`. -/
def escaped (specials : List Char) (c : Char) : Text := if c ∈ specials then ['\\', c] else [c]

theorem replaceAll_escaped {specials : List Char} {x : Char} (hx : x ∉ specials) (hback : x ≠ '\\') (text : Text) :
    replaceAll [x] ['\\', x] 0 (text.flatMap (escaped specials)) = text.flatMap (escaped (specials ++ [x])) := by
  rw [replaceAll_single, List.flatMap_assoc]
  congr 1
  funext c
  unfold escaped
  by_cases hc : c ∈ specials
  · have hne : c ≠ x := fun h => hx (h ▸ hc)
    simp [hc, hne, hback.symm]
  · by_cases hcx : c = x <;> simp [hc, hcx, hx]

/-- The characters that `Match` puts a backslash before. -/
def specials : List Char := ['\\', '^', '.', '$', '|', '(', ')', '[', ']', '*', '+', '?', '/']

/-- A character of a pattern in its regular expression. -/
def regexChar (c : Char) : Text := if c = '*' then ['.', '*'] else escaped specials c

theorem replaceAll_star_cons {c : Char} {text : Text} (htext : c ≠ '\\' ∨ text.head? ≠ some '*') :
    replaceAll ['\\', '*'] ['.', '*'] 0 (c :: text) = c :: replaceAll ['\\', '*'] ['.', '*'] 0 text := by
  have hprefix : ¬ ['\\', '*'].isPrefixOf (c :: text) = true := by
    intro h
    obtain ⟨rest, hrest⟩ := List.isPrefixOf_iff_prefix.mp h
    obtain ⟨rfl, rfl⟩ := List.cons.inj hrest
    simp at htext
  rw [replaceAll, if_neg hprefix]

theorem head?_escaped (text : Text) : (text.flatMap (escaped specials)).head? ≠ some '*' := by
  cases text with
  | nil => simp
  | cons c rest =>
    by_cases hc : c ∈ specials
    · simp [escaped, hc]
    · have hne : c ≠ '*' := fun h => hc (h ▸ by decide)
      simpa [escaped, hc] using hne

/-- The backslash of a star is its own, also after the backslashes of a backslash. -/
theorem replaceAll_stars (text : Text) :
    replaceAll ['\\', '*'] ['.', '*'] 0 (text.flatMap (escaped specials)) = text.flatMap regexChar := by
  induction text with
  | nil => rfl
  | cons c rest ih =>
    rw [List.flatMap_cons, List.flatMap_cons, ← ih]
    by_cases hstar : c = '*'
    · subst hstar
      rfl
    · rw [regexChar, if_neg hstar]
      by_cases hc : c ∈ specials
      · rw [escaped, if_pos hc]
        rw [List.cons_append, replaceAll_star_cons (Or.inr (by simpa using hstar))]
        exact congrArg _ (replaceAll_star_cons (Or.inr (head?_escaped rest)))
      · have hback : c ≠ '\\' := fun h => hc (h ▸ by decide)
        rw [escaped, if_neg hc]
        exact replaceAll_star_cons (Or.inl hback)

theorem foldl_escaped (text : Text) (specials rest : List Char) (hnodup : (specials ++ rest).Nodup)
    (hback : '\\' ∉ rest) :
    (rest.map fun x => ([x], ['\\', x])).foldl applyReplacement (text.flatMap (escaped specials)) =
      text.flatMap (escaped (specials ++ rest)) := by
  induction rest generalizing specials with
  | nil => simp
  | cons x rest ih =>
    have hx : x ∉ specials := fun h => (List.nodup_append.mp hnodup).2.2 x h x (by simp) rfl
    have hne : x ≠ '\\' := fun h => hback (h ▸ by simp)
    have hrest := ih (specials ++ [x]) (by simpa using hnodup) fun h => hback (List.mem_cons_of_mem _ h)
    rw [List.map_cons, List.foldl_cons, applyReplacement, replaceAll_escaped hx hne, hrest, List.append_assoc]
    rfl

/-- The expression of a pattern without question marks. -/
theorem regexText_eq {pattern : Text} (hquestion : '?' ∉ pattern) :
    regexText pattern = '^' :: (pattern.flatMap regexChar ++ ['$']) := by
  have hreplacements : replacements = (['\\'], ['\\', '\\']) ::
      (specials.tail.map fun x => ([x], ['\\', x])) ++ [(['\\', '?'], ['.']), (['\\', '*'], ['.', '*'])] := rfl
  have hback : applyReplacement pattern (['\\'], ['\\', '\\']) = pattern.flatMap (escaped ['\\']) := by
    rw [applyReplacement, replaceAll_single]
    congr 1
    funext c
    by_cases hc : c = '\\' <;> simp [escaped, hc]
  have hnone : '?' ∉ pattern.flatMap (escaped specials) := by
    intro h
    obtain ⟨c, hc, hescaped⟩ := List.mem_flatMap.mp h
    have hne : '?' ≠ c := fun h => hquestion (h ▸ hc)
    unfold escaped at hescaped
    split at hescaped <;> simp [hne] at hescaped
  have hspecials : pattern.flatMap (escaped (['\\'] ++ specials.tail)) = pattern.flatMap (escaped specials) := rfl
  rw [regexText, hreplacements]
  simp only [List.foldl_append, List.foldl_cons, List.foldl_nil]
  rw [hback, foldl_escaped pattern ['\\'] specials.tail (by decide) (by decide), hspecials]
  rw [applyReplacement, applyReplacement, replaceAll_eq_self ['.']
    (List.mem_cons_of_mem _ (List.mem_singleton_self '?')) hnone, replaceAll_stars]
  rfl

end Replacements

/-- A name that a pattern stands for, where a star stands for any number of characters that `run` allows. -/
inductive Glob (run : Char → Prop) : Text → Text → Prop
  | nil : Glob run [] []
  | char {c : Char} {pattern name : Text} (hstar : c ≠ '*') (h : Glob run pattern name) :
      Glob run (c :: pattern) (c :: name)
  | stop {pattern name : Text} (h : Glob run pattern name) : Glob run ('*' :: pattern) name
  | more {c : Char} {pattern name : Text} (hrun : run c) (h : Glob run ('*' :: pattern) name) :
      Glob run ('*' :: pattern) (c :: name)

/-- What a star of an expression can run over. -/
def Runs (c : Char) : Prop := isLineTerminator c = false

section Expressions

def item (c : Char) : Item := if c = '*' then .anyRun else .char c

/-- The characters that make more of an expression than `Match` means. -/
def Plain (pattern : Text) : Prop := '?' ∉ pattern ∧ Char.ofNat 123 ∉ pattern ∧ Char.ofNat 125 ∉ pattern

theorem Plain.of_cons {c : Char} {pattern : Text} (hplain : Plain (c :: pattern)) : Plain pattern := by
  simp only [Plain, List.mem_cons, not_or] at hplain ⊢
  exact ⟨hplain.1.2, hplain.2.1.2, hplain.2.2.2⟩

theorem isSyntax_eq_false {c : Char} (hc : c ∉ specials) (hplain : Plain [c]) : isSyntax c = false := by
  simp only [Plain, List.mem_singleton] at hplain
  simp only [specials, List.mem_cons, List.not_mem_nil, or_false, not_or] at hc
  simp [isSyntax, hc, Ne.symm hplain.2.1, Ne.symm hplain.2.2]

theorem parseRegex_regexChar {c : Char} (hplain : Plain [c]) (text : Text) :
    parseRegex (regexChar c ++ text) = (parseRegex text).map (item c :: ·) := by
  by_cases hstar : c = '*'
  · subst hstar
    rfl
  rw [regexChar, if_neg hstar, item, if_neg hstar]
  by_cases hc : c ∈ specials
  · have hspecials : specials.all (fun c => !c.isAlphanum) = true := by decide
    have hletter : c.isAlphanum = false := by simpa using List.all_eq_true.mp hspecials c hc
    rw [escaped, if_pos hc, List.cons_append, List.cons_append, List.nil_append, parseRegex, hletter]
    rfl
  · have hsyntax := isSyntax_eq_false hc hplain
    simp only [specials, List.mem_cons, List.not_mem_nil, or_false, not_or] at hc
    rw [escaped, if_neg (by simpa [specials] using hc), List.cons_append, List.nil_append, parseRegex.eq_def]
    split <;> simp_all

theorem parseRegex_flatMap {pattern : Text} (hplain : Plain pattern) (text : Text) :
    parseRegex (pattern.flatMap regexChar ++ text) = (parseRegex text).map (pattern.map item ++ ·) := by
  induction pattern with
  | nil => simp
  | cons c rest ih =>
    have hc : Plain [c] := by
      simp only [Plain, List.mem_cons, not_or, List.not_mem_nil, not_false_iff, and_true] at hplain ⊢
      exact ⟨hplain.1.1, hplain.2.1.1, hplain.2.2.1⟩
    rw [List.flatMap_cons, List.append_assoc, parseRegex_regexChar hc, ih hplain.of_cons, Option.map_map]
    rfl

theorem Glob.star_iff {run : Char → Prop} {pattern name : Text} :
    Glob run ('*' :: pattern) name ↔
      Glob run pattern name ∨ ∃ c rest, name = c :: rest ∧ run c ∧ Glob run ('*' :: pattern) rest := by
  constructor
  · intro h
    cases h with
    | char hstar h => exact absurd rfl hstar
    | stop h => exact Or.inl h
    | more hrun h => exact Or.inr ⟨_, _, rfl, hrun, h⟩
  · rintro (h | ⟨c, rest, rfl, hrun, h⟩)
    · exact Glob.stop h
    · exact Glob.more hrun h

theorem Glob.char_iff {run : Char → Prop} {c : Char} {pattern name : Text} (hc : c ≠ '*') :
    Glob run (c :: pattern) name ↔ ∃ rest, name = c :: rest ∧ Glob run pattern rest := by
  constructor
  · intro h
    cases h with
    | char hstar h => exact ⟨_, rfl, h⟩
    | stop h => exact absurd rfl hc
    | more hrun h => exact absurd rfl hc
  · rintro ⟨rest, rfl, h⟩
    exact Glob.char hc h

theorem matchItems_iff (atStart : Bool) (pattern name : Text) :
    matchItems atStart (pattern.map item ++ [.finish]) name = true ↔ Glob Runs pattern name := by
  induction pattern generalizing atStart name with
  | nil =>
    constructor
    · intro h
      cases name with
      | nil => exact Glob.nil
      | cons => simp [matchItems] at h
    · intro h
      cases h
      simp [matchItems]
  | cons c rest ih =>
    by_cases hstar : c = '*'
    · subst hstar
      have hitem : (('*' :: rest).map item ++ [Item.finish]) = .anyRun :: (rest.map item ++ [.finish]) := rfl
      rw [hitem]
      induction name generalizing atStart with
      | nil =>
        rw [Glob.star_iff, matchItems, ih]
        simp
      | cons d name ihname =>
        rw [Glob.star_iff, ← ih atStart (d :: name)]
        rw [matchItems, Bool.or_eq_true, Bool.and_eq_true]
        have hmore := ihname false
        simp [Runs, hmore]
    · rw [Glob.char_iff hstar, List.map_cons, List.cons_append, item, if_neg hstar]
      cases name with
      | nil =>
        rw [matchItems]
        simp
      | cons d name =>
        rw [matchItems, Bool.and_eq_true, ih]
        simp [eq_comm]

variable (engine : Text → Option (Text → Bool))

/-- The expression of a pattern stands for what the pattern does, but for line terminators. -/
theorem regex_regexText {pattern : Text} (hplain : Plain pattern) :
    ∃ re, regex engine (regexText pattern) = some re ∧ ∀ name, re name = true ↔ Glob Runs pattern name := by
  have hparse : parseRegex (regexText pattern) = some (.begin :: (pattern.map item ++ [.finish])) := by
    rw [regexText_eq hplain.1, parseRegex, parseRegex_flatMap hplain]
    rfl
  refine ⟨matchItems true (.begin :: (pattern.map item ++ [.finish])), by rw [regex, hparse], fun name => ?_⟩
  rw [matchItems, Bool.true_and, matchItems_iff]

end Expressions

end fx.MatchFiles
