import Citizen.Resources.MatchFiles

open fx.NormalizePath Relation

namespace fx.MatchFiles

/-- A name of a file or folder. -/
def IsName (name : Text) : Prop := name ≠ [] ∧ '/' ∉ name ∧ name ≠ ['.'] ∧ name ≠ ['.', '.']

/-- The files and folders below a mount. The names of a path are those below the mount. -/
structure Tree where
  mount : Text
  entries : List Text → List FindData
  height : Nat
  star_notMem_mount : '*' ∉ mount
  isName : ∀ folder, ∀ findData ∈ entries folder, IsName findData.name
  shallow : ∀ folder, height ≤ folder.length → entries folder = []
  folders : ∀ folder name, entries (folder ++ [name]) ≠ [] → ⟨name, true⟩ ∈ entries folder

def under (names : List Text) : Text := names.flatMap ('/' :: ·)

namespace Tree

variable (tree : Tree)

/-- The text of a path. -/
def path (names : List Text) : Text := tree.mount ++ under names

/-- A file of the tree. -/
def IsFile (names : List Text) : Prop := ∃ folder name, names = folder ++ [name] ∧ ⟨name, false⟩ ∈ tree.entries folder

/-- The device lists the folders of the tree, apart from the entries for a folder itself and its parent. -/
def Serves (list : Text → List FindData) : Prop :=
  ∀ folder, (∀ name ∈ folder, IsName name) →
    (list (tree.path folder ++ ['/'])).filter (fun findData => findData.name ≠ ['.'] && findData.name ≠ ['.', '.']) =
      tree.entries folder

end Tree

/-- The segment for any number of folders. -/
def double : Text := ['*', '*']

/-- A segment of a pattern whose wildcards are stars: `**`, or one without two stars in a row. -/
def IsSegment (segment : Text) : Prop :=
  IsName segment ∧ '?' ∉ segment ∧ (segment = double ∨ ¬ double <:+: segment)

/-- The paths that a pattern stands for. A `**` at its end stands for the files at any depth. -/
inductive Matches : List Text → List Text → Prop
  | nil : Matches [] []
  | cons {segment name : Text} {pattern path : List Text} (hsegment : segment ≠ double)
      (hname : Glob (fun _ => True) segment name) (h : Matches pattern path) : Matches (segment :: pattern)
        (name :: path)
  | skip {pattern path : List Text} (hpattern : pattern ≠ []) (h : Matches pattern path) :
    Matches (double :: pattern) path
  | down {name : Text} {pattern path : List Text} (h : Matches (double :: pattern) path) :
      Matches (double :: pattern) (name :: path)
  | leaf {name : Text} : Matches [double] [name]

/-- A folder that the search has come to, and what is left of the pattern there. -/
structure Position where
  folder : List Text
  pattern : List Text
  deriving DecidableEq

/-- How the search goes on. A starred segment before the last one has lost its last character. -/
inductive Step (tree : Tree) : Position → Position → Prop
  | plain {folder pattern : List Text} {segment : Text} (hsegment : '*' ∉ segment) :
      Step tree ⟨folder, segment :: pattern⟩ ⟨folder ++ [segment], pattern⟩
  | star {folder pattern : List Text} {segment name : Text} (hstar : '*' ∈ segment) (hsegment : segment ≠ double)
      (hpattern : pattern ≠ []) (hname : Glob Runs segment.dropLast name)
        (hentry : ⟨name, true⟩ ∈ tree.entries folder) :
      Step tree ⟨folder, segment :: pattern⟩ ⟨folder ++ [name], pattern⟩
  | skip {folder pattern : List Text} : Step tree ⟨folder, double :: pattern⟩ ⟨folder, pattern⟩
  | down {folder pattern : List Text} {name : Text} (hname : Glob Runs ['*'] name)
      (hentry : ⟨name, true⟩ ∈ tree.entries folder) :
      Step tree ⟨folder, double :: pattern⟩ ⟨folder ++ [name], double :: pattern⟩

/-- The files that the search adds where it is. -/
inductive Accepts : Position → List Text → Prop
  | here {folder : List Text} : Accepts ⟨folder, []⟩ folder
  | last {folder : List Text} {segment name : Text} (hstar : '*' ∈ segment)
      (hname : Glob Runs (if segment = double then ['*'] else segment) name) :
      Accepts ⟨folder, [segment]⟩ (folder ++ [name])

/-- The paths that the code reads a pattern as. -/
def Reads (tree : Tree) (position : Position) (path : List Text) : Prop :=
  ∃ last, ReflTransGen (Step tree) position last ∧ Accepts last path

theorem Reads.iff_step {tree : Tree} {position : Position} {path : List Text} :
    Reads tree position path ↔ Accepts position path ∨ ∃ next, Step tree position next ∧ Reads tree next path := by
  constructor
  · rintro ⟨last, hwalk, haccepts⟩
    rcases hwalk.cases_head with rfl | ⟨next, hstep, hrest⟩
    · exact Or.inl haccepts
    · exact Or.inr ⟨next, hstep, last, hrest, haccepts⟩
  · rintro (haccepts | ⟨next, hstep, last, hrest, haccepts⟩)
    · exact ⟨position, .refl, haccepts⟩
    · exact ⟨last, hrest.head hstep, haccepts⟩

/-- What follows the last slash. -/
def lastName (text : Text) : Text :=
  match findLastOf '/' text with
  | some pos => text.drop (pos + 1)
  | none => text

/-- Where the text of a position means the position: `path_normalize` leaves it alone, and takes a doubled slash
away; the names that the search has put into it have no stars; and what becomes a regular expression has nothing
else special. -/
structure Steady (tree : Tree) (position : Position) : Prop where
  normalized : path_normalize (tree.path (position.folder ++ position.pattern)) =
    some (tree.path (position.folder ++ position.pattern))
  noStars : ∀ name ∈ position.folder, '*' ∉ name
  last : position.pattern = [] → Plain (lastName (tree.path position.folder))
  star : ∀ segment rest, position.pattern = segment :: rest → '*' ∈ segment → segment ≠ double →
    Plain (if rest = [] then segment else segment.dropLast)
  single : ∀ rest, position.pattern = double :: rest →
    path_normalize (tree.path (position.folder ++ ['*'] :: rest)) = some (tree.path (position.folder ++ ['*'] :: rest))
  skipped : ∀ rest, position.pattern = double :: rest →
    path_normalize (tree.path (position.folder ++ [] :: rest)) = some (tree.path (position.folder ++ rest))

section Rounds

variable {list : Text → List FindData} {engine : Text → Option (Text → Bool)} {self : Text → Option (List Text)}
  {pattern folder before after rest : Text}

theorem mem_insertAll {results new : List Text} {text : Text} :
    text ∈ insertAll results new ↔ text ∈ results ∨ text ∈ new := by
  induction new generalizing results with
  | nil => simp [insertAll]
  | cons path new ih =>
    rw [insertAll, List.foldl_cons, ← insertAll, ih, List.mem_insert_iff, List.mem_cons]
    tauto

/-- The results that a loop over entries gathers and sorts, when each entry brings some of its own. -/
theorem foldlM_insertAll {step : List Text → FindData → Option (List Text)} {part : FindData → List Text}
    (found : List FindData) (results : List Text)
    (hstep : ∀ findData ∈ found, ∀ results, step results findData = some (insertAll results (part findData))) :
    ∃ result, ((found.foldlM step results).bind fun results => some (results.mergeSort inOrder)) =
      some result ∧ ∀ text, text ∈ result ↔ text ∈ results ∨ ∃ findData ∈ found, text ∈ part findData := by
  induction found generalizing results with
  | nil => exact ⟨_, rfl, by simp⟩
  | cons findData found ih =>
    obtain ⟨result, hresult, hmem⟩ := ih (insertAll results (part findData)) fun next hnext =>
      hstep next (List.mem_cons_of_mem _ hnext)
    refine ⟨result, ?_, fun text => ?_⟩
    · rw [List.foldlM_cons, hstep findData (by simp), Option.bind_eq_bind, Option.bind_some, hresult]
    · rw [hmem, mem_insertAll]
      simp [or_assoc]

/-- What `Match` stops at, when the last segment of the pattern is an expression. -/
theorem matchEntries_append (hslash : '/' ∉ after) (hplain : Plain after) :
    ∃ found, matchEntries list engine (before ++ '/' :: after) = some found ∧ ∀ findData, findData ∈ found ↔
      findData ∈ (list (before ++ ['/'])).filter
        (fun findData => findData.name ≠ ['.'] && findData.name ≠ ['.', '.']) ∧ Glob Runs after findData.name := by
  obtain ⟨re, hre, hmatch⟩ := regex_regexText engine hplain
  have hdrop : (before ++ '/' :: after).drop (before.length + 1) = after := by
    rw [List.append_cons]
    exact List.drop_left' (by simp)
  have hentries : matchEntries list engine (before ++ '/' :: after) =
      some ((list (before ++ ['/'])).filter fun findData =>
        findData.name ≠ ['.'] && findData.name ≠ ['.', '.'] && re findData.name) := by
    rw [matchEntries, findLastOf_append hslash]
    simp only [List.take_left, hdrop, hre, Option.bind_eq_bind, Option.bind_some]
  refine ⟨_, hentries, fun findData => ?_⟩
  rw [List.mem_filter, List.mem_filter, Bool.and_eq_true _ (re _), hmatch, and_assoc]

/-- What a search without a star adds for an entry. -/
def filePart (before : Text) (findData : FindData) : List Text :=
  if findData.directory then [] else [before ++ ['/'] ++ findData.name]

theorem mem_filePart {before text : Text} {findData : FindData} :
    text ∈ filePart before findData ↔ findData.directory = false ∧ text = before ++ '/' :: findData.name := by
  unfold filePart
  split <;> simp_all

theorem insert_filePart (before : Text) (findData : FindData) (results : List Text) :
    (if (!findData.directory) = true then some (List.insert (before ++ ['/'] ++ findData.name) results)
      else some results) = some (insertAll results (filePart before findData)) := by
  unfold filePart
  cases findData.directory <;> rfl

section Files

variable {t : Text} {found : List FindData}

theorem round_noStar (hnorm : path_normalize pattern = some t) (hstar : '*' ∉ t)
    (hfound : matchEntries list engine t = some found) :
    ∃ result, round list engine self pattern = some result ∧ ∀ text, text ∈ result ↔
      ∃ findData ∈ found, findData.directory = false ∧ text = getDirectory t ++ '/' :: findData.name := by
  obtain ⟨result, hresult, hmem⟩ := foldlM_insertAll found [] fun findData _ results =>
    insert_filePart (getDirectory t) findData results
  refine ⟨result, ?_, fun text => ?_⟩
  · simpa only [round, hnorm, find_eq_none hstar, hfound, Option.bind_eq_bind, Option.bind_some, Option.filter_none,
      Option.bind_none, Option.isSome_none, Bool.false_and, ne_eq, not_true, if_false, Bool.false_eq_true]
        using hresult
  · simp [hmem, mem_filePart]

theorem round_lastStar (hnorm : path_normalize pattern = some (before ++ '*' :: after)) (hstar : '*' ∉ before)
    (hslash : '/' ∉ after) (hdouble : after.head? ≠ some '*')
    (hfound : matchEntries list engine (before ++ '*' :: after) = some found) :
    ∃ result, round list engine self pattern = some result ∧ ∀ text, text ∈ result ↔
      ∃ findData ∈ found, findData.directory = false ∧ text = getDirectory before ++ '/' :: findData.name := by
  obtain ⟨result, hresult, hmem⟩ := foldlM_insertAll found [] fun findData _ results =>
    insert_filePart (getDirectory before) findData results
  have hfind : find '/' ('*' :: after) = none := find_eq_none (by simpa using hslash)
  have hdrop : (before ++ '*' :: after).drop (before.length + 1) = after := by
    rw [List.append_cons]
    exact List.drop_left' (by simp)
  have htake : after.take 1 ≠ ['*'] := fun h => hdouble (by cases after <;> simp_all)
  refine ⟨result, ?_, fun text => ?_⟩
  · simpa only [round, hnorm, find_append hstar, hfound, hfind, hdrop, htake, List.drop_left, List.take_left,
      Option.bind_eq_bind, Option.bind_some, Option.map_none, false_and, Option.filter, decide_false,
      Option.isSome_none, Bool.false_and, ne_eq, not_true, if_false, Bool.false_eq_true] using hresult
  · simp [hmem, mem_filePart]

end Files

/-- The pattern that the search goes on with in a folder. -/
def folderText (before rest : Text) (findData : FindData) : Text := before ++ ['/'] ++ findData.name ++ ['/'] ++ rest

/-- What a search adds for an entry that it calls itself for. -/
def folderPart (self : Text → Option (List Text)) (before rest : Text) (findData : FindData) : List Text :=
  if findData.directory then (self (folderText before rest findData)).getD [] else []

theorem mem_folderPart {findData : FindData} {text : Text} :
    text ∈ folderPart self before rest findData ↔
      findData.directory = true ∧ ∃ results, self (folderText before rest findData) = some results ∧
        text ∈ results := by
  unfold folderPart
  cases findData.directory <;> cases self (folderText before rest findData) <;> simp

theorem insert_folderPart {findData : FindData}
    (hself : findData.directory = true → ∃ results, self (folderText before rest findData) = some results)
    (results : List Text) :
    (if findData.directory = true then
      (self (before ++ ['/'] ++ findData.name ++ ['/'] ++ rest)).map (insertAll results) else some results) =
      some (insertAll results (folderPart self before rest findData)) := by
  unfold folderPart
  cases hdirectory : findData.directory with
  | false => rfl
  | true =>
    obtain ⟨part, hpart⟩ := hself hdirectory
    rw [folderText] at hpart
    simp only [folderText, hpart, if_true, Option.map_some, Option.getD_some]

theorem insert_folderPart_of_files {findData : FindData} (hrest : rest ≠ [])
    (hself : findData.directory = true → ∃ results, self (folderText before rest findData) = some results)
    (results : List Text) :
    (if (!findData.directory) = true then some results
      else if ¬ rest = [] then (self (before ++ ['/'] ++ findData.name ++ ['/'] ++ rest)).map (insertAll results)
      else if (!findData.directory) = true then some (results.insert (before ++ ['/'] ++ findData.name))
      else some results) = some (insertAll results (folderPart self before rest findData)) := by
  rw [← insert_folderPart hself, if_pos hrest]
  cases findData.directory <;> rfl

theorem take_append_cons_dropLast (c : Char) (before after rest : Text) :
    (before ++ c :: (after ++ rest)).take (before.length + (after.length + 1) - 1) =
      (before ++ c :: after).dropLast := by
  have hsplit : before ++ c :: (after ++ rest) = (before ++ c :: after) ++ rest := by simp
  rw [hsplit, List.dropLast_eq_take, List.take_append_of_le_length (by simp)]
  simp

theorem round_folderStar {found : List FindData} (hrest : rest ≠ [])
    (hnorm : path_normalize pattern = some (before ++ '*' :: (after ++ '/' :: rest))) (hstar : '*' ∉ before)
    (hslash : '/' ∉ after) (hdouble : after.head? ≠ some '*')
    (hfound : matchEntries list engine (before ++ '*' :: after).dropLast = some found)
    (hself : ∀ findData ∈ found, findData.directory = true →
      ∃ results, self (folderText (getDirectory before) rest findData) = some results) :
    ∃ result, round list engine self pattern = some result ∧ ∀ text, text ∈ result ↔
      ∃ findData ∈ found, findData.directory = true ∧
        ∃ results, self (folderText (getDirectory before) rest findData) = some results ∧ text ∈ results := by
  obtain ⟨result, hresult, hmem⟩ := foldlM_insertAll found [] fun findData hfindData results =>
    insert_folderPart_of_files hrest (hself findData hfindData) results
  have hnone : '/' ∉ '*' :: after := by simpa using hslash
  have hfind : find '/' ('*' :: (after ++ '/' :: rest)) = some (after.length + 1) := find_append hnone
  have hdrop : (before ++ '*' :: (after ++ '/' :: rest)).drop (before.length + 1) = after ++ '/' :: rest := by
    rw [List.append_cons]
    exact List.drop_left' (by simp)
  have hafter : (before ++ '*' :: (after ++ '/' :: rest)).drop (before.length + (after.length + 1) + 1) = rest := by
    have hsplit : before ++ '*' :: (after ++ '/' :: rest) = (before ++ '*' :: after ++ ['/']) ++ rest := by simp
    rw [hsplit]
    exact List.drop_left' (by simp; omega)
  have htake : (after ++ '/' :: rest).take 1 ≠ ['*'] := fun h => hdouble (by cases after <;> simp_all)
  refine ⟨result, ?_, fun text => ?_⟩
  · simpa only [round, hnorm, find_append hstar, hfind, hdrop, htake, hafter, List.drop_left, List.take_left,
      Option.bind_eq_bind, Option.bind_some, Option.map_some, false_and, Option.filter, decide_false,
      Option.isSome_some, Bool.true_and, ne_eq, if_false, Bool.false_eq_true, take_append_cons_dropLast, hfound]
      using hresult
  · simp [hmem, mem_folderPart]

theorem round_double {found : List FindData} {correct legacy : List Text}
    (hnorm : path_normalize pattern = some (folder ++ '/' :: '*' :: '*' :: rest)) (hstar : '*' ∉ folder)
    (hcorrect : self (folder ++ '/' :: '*' :: rest) = some correct)
    (hlegacy : self (folder ++ '/' :: rest) = some legacy)
    (hfound : matchEntries list engine (folder ++ ['/', '*']) = some found)
    (hself : ∀ findData ∈ found, findData.directory = true →
      ∃ results, self (folderText folder ('*' :: '*' :: rest) findData) = some results) :
    ∃ result, round list engine self pattern = some result ∧ ∀ text, text ∈ result ↔
      text ∈ correct ∨ text ∈ legacy ∨ ∃ findData ∈ found, findData.directory = true ∧
        ∃ results, self (folderText folder ('*' :: '*' :: rest) findData) = some results ∧ text ∈ results := by
  obtain ⟨result, hresult, hmem⟩ := foldlM_insertAll found (insertAll (insertAll [] correct) legacy)
    fun findData hfindData results => insert_folderPart (hself findData hfindData) results
  have hfind : find '*' (folder ++ '/' :: '*' :: '*' :: rest) = some (folder.length + 1) := by
    have hbefore : '*' ∉ folder ++ ['/'] := by simpa using hstar
    rw [List.append_cons, find_append hbefore, List.length_append]
    rfl
  have htake (k : Nat) : (folder ++ '/' :: '*' :: '*' :: rest).take (folder.length + k) =
      folder ++ ('/' :: '*' :: '*' :: rest).take k := List.take_length_add_append k
  have hdrop (k : Nat) : (folder ++ '/' :: '*' :: '*' :: rest).drop (folder.length + k) =
      ('/' :: '*' :: '*' :: rest).drop k := List.drop_length_add_append k
  have hrecurse : (((folder ++ '/' :: '*' :: '*' :: rest).drop (folder.length + 1 + 1)).take 1 = ['*'] ∧
      (folder.length + 1 = 0 ∨ ((folder ++ '/' :: '*' :: '*' :: rest).drop (folder.length + 1 - 1)).take 1 = ['/'])) :=
    ⟨by rw [add_assoc, hdrop]; rfl, Or.inr (by rw [Nat.add_sub_cancel, List.drop_left]; rfl)⟩
  have hbefore : getDirectory ((folder ++ '/' :: '*' :: '*' :: rest).take (folder.length + 1)) = folder := by
    rw [htake]
    exact getDirectory_append (by simp)
  have hfirst : (folder ++ '/' :: '*' :: '*' :: rest).take (folder.length + 1) ++
      (folder ++ '/' :: '*' :: '*' :: rest).drop (folder.length + 1 + 1) = folder ++ '/' :: '*' :: rest := by
    rw [add_assoc, htake, hdrop]
    simp
  have hsecond : (folder ++ '/' :: '*' :: '*' :: rest).take (folder.length + 1) ++
      (folder ++ '/' :: '*' :: '*' :: rest).drop (folder.length + 1 + 2) = folder ++ '/' :: rest := by
    rw [add_assoc, htake, hdrop]
    simp
  have hmatch : (folder ++ '/' :: '*' :: '*' :: rest).take (folder.length + 1 + 1) = folder ++ ['/', '*'] := by
    rw [add_assoc, htake]
    rfl
  refine ⟨result, ?_, fun text => ?_⟩
  · simpa only [round, hnorm, hfind, hbefore, hrecurse, hfirst, hsecond, hmatch, hcorrect, hlegacy, hfound, hdrop,
      Option.bind_eq_bind, Option.bind_some, Option.filter, and_self, decide_true, if_true, List.drop_succ_cons,
      List.drop_zero] using hresult
  · simp [hmem, mem_folderPart, mem_insertAll, or_assoc]

end Rounds

section Paths

variable {tree : Tree} {folder names : List Text} {segment name : Text}

theorem under_cons (name : Text) (names : List Text) : under (name :: names) = '/' :: (name ++ under names) := rfl

theorem under_append (names rest : List Text) : under (names ++ rest) = under names ++ under rest :=
    List.flatMap_append

theorem Tree.path_append (names rest : List Text) : tree.path (names ++ rest) = tree.path names ++ under rest := by
  rw [Tree.path, Tree.path, under_append, List.append_assoc]

theorem Tree.path_snoc (names : List Text) (name : Text) :
    tree.path (names ++ [name]) = tree.path names ++ '/' :: name := by
  rw [Tree.path_append, under_cons]
  simp [under]

/-- The first name of a path is what stands before the next slash. -/
theorem takeWhile_under (hname : '/' ∉ name) (names : List Text) :
    (name ++ under names).takeWhile (· ≠ '/') = name ∧ (name ++ under names).dropWhile (· ≠ '/') = under names := by
  have hall : ∀ c ∈ name, decide (c ≠ '/') = true := fun c hc => decide_eq_true fun h => hname (h ▸ hc)
  cases names with
  | nil => simpa [under] using hall
  | cons next names =>
    rw [under_cons, List.takeWhile_append_of_pos hall, List.dropWhile_append_of_pos hall]
    simp

theorem under_injective {names rest : List Text} (hnames : ∀ name ∈ names, '/' ∉ name)
    (hrest : ∀ name ∈ rest, '/' ∉ name) (heq : under names = under rest) : names = rest := by
  induction names generalizing rest with
  | nil =>
    cases rest with
    | nil => rfl
    | cons => simp [under] at heq
  | cons name names ih =>
    cases rest with
    | nil => simp [under] at heq
    | cons next rest =>
      rw [under_cons, under_cons, List.cons.injEq] at heq
      obtain ⟨hleft, hdrop⟩ := takeWhile_under (hnames name (by simp)) names
      obtain ⟨hright, hdrop'⟩ := takeWhile_under (hrest next (by simp)) rest
      have hhead : name = next := by rw [← hleft, heq.2, hright]
      have htail : under names = under rest := by rw [← hdrop, heq.2, hdrop']
      rw [hhead, ih (fun n hn => hnames n (List.mem_cons_of_mem _ hn))
        (fun n hn => hrest n (List.mem_cons_of_mem _ hn)) htail]

theorem Tree.path_injective {rest : List Text} (hnames : ∀ name ∈ names, IsName name)
    (hrest : ∀ name ∈ rest, IsName name) (heq : tree.path names = tree.path rest) : names = rest :=
  under_injective (fun name hname => (hnames name hname).2.1) (fun name hname => (hrest name hname).2.1)
    (List.append_cancel_left heq)

theorem Tree.isName_of_entries (hentries : tree.entries folder ≠ []) : ∀ name ∈ folder, IsName name := by
  induction folder using List.reverseRecOn with
  | nil => simp
  | append_singleton folder name ih =>
    have hentry := tree.folders folder name hentries
    intro next hnext
    rcases List.mem_append.mp hnext with hnext | hnext
    · exact ih (List.ne_nil_of_mem hentry) next hnext
    · rw [List.mem_singleton] at hnext
      exact hnext ▸ tree.isName folder _ hentry

theorem Tree.IsFile.isName (hfile : tree.IsFile names) : ∀ name ∈ names, IsName name := by
  obtain ⟨folder, name, rfl, hentry⟩ := hfile
  intro next hnext
  rcases List.mem_append.mp hnext with hnext | hnext
  · exact Tree.isName_of_entries (List.ne_nil_of_mem hentry) next hnext
  · rw [List.mem_singleton] at hnext
    exact hnext ▸ tree.isName folder _ hentry

theorem Tree.isFile_snoc : tree.IsFile (folder ++ [name]) ↔ ⟨name, false⟩ ∈ tree.entries folder := by
  constructor
  · rintro ⟨folder', name', heq, hentry⟩
    obtain ⟨rfl, hlast⟩ := List.append_inj' heq rfl
    rw [List.cons.injEq] at hlast
    exact hlast.1 ▸ hentry
  · exact fun hentry => ⟨folder, name, rfl, hentry⟩

theorem Tree.star_notMem_path (hfolder : ∀ name ∈ folder, '*' ∉ name) : '*' ∉ tree.path folder := by
  rw [Tree.path, List.mem_append, not_or]
  refine ⟨tree.star_notMem_mount, fun h => ?_⟩
  obtain ⟨name, hname, hstar⟩ := List.mem_flatMap.mp h
  rw [List.mem_cons] at hstar
  exact hstar.elim (by decide) (hfolder name hname)

/-- A pattern without stars stands for itself. -/
theorem glob_iff_eq {run : Char → Prop} (hstar : '*' ∉ segment) : Glob run segment name ↔ name = segment := by
  induction segment generalizing name with
  | nil =>
    constructor
    · intro h
      cases h
      rfl
    · rintro rfl
      exact Glob.nil
  | cons c segment ih =>
    rw [List.mem_cons, not_or] at hstar
    rw [Glob.char_iff (Ne.symm hstar.1)]
    constructor
    · rintro ⟨rest, rfl, h⟩
      rw [(ih hstar.2).mp h]
    · rintro rfl
      exact ⟨segment, rfl, (ih hstar.2).mpr rfl⟩

end Paths

section Searches

variable {tree : Tree} {list : Text → List FindData} (engine : Text → Option (Text → Bool)) {folder rest : List Text}
  {segment after : Text} (fuel : Nat)

theorem matchFiles_congr {pattern other : Text} (heq : path_normalize pattern = path_normalize other) :
    matchFiles list engine fuel pattern = matchFiles list engine fuel other := by
  cases fuel with
  | zero => rfl
  | succ fuel => rw [matchFiles, matchFiles, round, round, heq]

theorem matchEntries_path (hlist : tree.Serves list) (hfolder : ∀ name ∈ folder, IsName name) (hslash : '/' ∉ after)
    (hplain : Plain after) :
    ∃ found, matchEntries list engine (tree.path folder ++ '/' :: after) = some found ∧
      ∀ findData, findData ∈ found ↔ findData ∈ tree.entries folder ∧ Glob Runs after findData.name := by
  obtain ⟨found, hfound, hmem⟩ := @matchEntries_append list engine (tree.path folder) after hslash hplain
  exact ⟨found, hfound, by simpa only [hlist folder hfolder] using hmem⟩

theorem exists_findData {found : List FindData} {directory : Bool} {stands : Text → Prop} (holds : Text → Prop)
    (hmem : ∀ findData, findData ∈ found ↔ findData ∈ tree.entries folder ∧ stands findData.name) :
    (∃ findData ∈ found, findData.directory = directory ∧ holds findData.name) ↔
      ∃ name, ⟨name, directory⟩ ∈ tree.entries folder ∧ stands name ∧ holds name := by
  constructor
  · rintro ⟨⟨name, _⟩, hfound, rfl, hholds⟩
    obtain ⟨hentry, hstands⟩ := (hmem _).mp hfound
    exact ⟨name, hentry, hstands, hholds⟩
  · rintro ⟨name, hentry, hstands, hholds⟩
    exact ⟨⟨name, directory⟩, (hmem _).mpr ⟨hentry, hstands⟩, rfl, hholds⟩

/-- A segment with its first star marked. -/
theorem split_star (hstar : '*' ∈ segment) (hsegment : segment ≠ double) (hsegments : IsSegment segment) :
    ∃ before after, segment = before ++ '*' :: after ∧ '*' ∉ before ∧ '/' ∉ before ∧ '/' ∉ after ∧
      after.head? ≠ some '*' := by
  obtain ⟨before, after, hsplit, hbefore⟩ := List.eq_append_cons_of_mem hstar
  have hslash := hsegments.1.2.1
  rw [hsplit, List.mem_append, List.mem_cons, not_or, not_or] at hslash
  refine ⟨before, after, hsplit, hbefore, hslash.1, hslash.2.2, fun hhead => ?_⟩
  obtain ⟨rest, rfl⟩ := List.head?_eq_some_iff.mp hhead
  exact (hsegments.2.2.resolve_left hsegment) ⟨before, rest, by simp [hsplit, double]⟩

theorem matchFiles_last (hlist : tree.Serves list) (hfolder : ∀ name ∈ folder, IsName name)
    (hstars : ∀ name ∈ folder, '*' ∉ name) {before : Text} (hsegment : segment = before ++ '*' :: after)
    (hbefore : '*' ∉ before) (hslash : '/' ∉ segment)
    (hdouble : after.head? ≠ some '*') (hplain : Plain segment)
    (hnorm : path_normalize (tree.path (folder ++ [segment])) = some (tree.path (folder ++ [segment]))) :
    ∃ result, matchFiles list engine (fuel + 1) (tree.path (folder ++ [segment])) = some result ∧ ∀ text,
      text ∈ result ↔ ∃ name, ⟨name, false⟩ ∈ tree.entries folder ∧ Glob Runs segment name ∧
        text = tree.path (folder ++ [name]) := by
  obtain ⟨found, hfound, hmem⟩ := matchEntries_path engine hlist hfolder hslash hplain
  have hslashes := hslash
  rw [hsegment, List.mem_append, List.mem_cons, not_or, not_or] at hslashes
  have htext : tree.path (folder ++ [segment]) = (tree.path folder ++ '/' :: before) ++ '*' :: after := by
    rw [Tree.path_snoc, hsegment]
    simp
  have hstar : '*' ∉ tree.path folder ++ '/' :: before := by
    rw [List.mem_append, List.mem_cons, not_or, not_or]
    exact ⟨Tree.star_notMem_path hstars, by decide, hbefore⟩
  rw [htext] at hnorm
  have hround : ∃ result, round list engine (matchFiles list engine fuel) _ = some result ∧ _ :=
    round_lastStar hnorm hstar hslashes.2.2 hdouble (by rw [← htext, Tree.path_snoc, hfound])
  obtain ⟨result, hresult, hfiles⟩ := hround
  refine ⟨result, by rw [matchFiles, htext, hresult], fun text => ?_⟩
  rw [hfiles, getDirectory_append hslashes.1]
  simp only [Tree.path_snoc]
  exact exists_findData (fun name => text = tree.path folder ++ '/' :: name) hmem

/-- Before the last segment, the search goes on in the folders that the segment stands for without its last
character. -/
theorem matchFiles_folder (hlist : tree.Serves list) (hfolder : ∀ name ∈ folder, IsName name)
    (hstars : ∀ name ∈ folder, '*' ∉ name) {before next : Text} (hsegment : segment = before ++ '*' :: after)
    (hbefore : '*' ∉ before) (hslash : '/' ∉ segment)
    (hdouble : after.head? ≠ some '*') (hplain : Plain segment.dropLast) (hnext : next ≠ [])
    (hnorm : path_normalize (tree.path (folder ++ segment :: next :: rest)) =
      some (tree.path (folder ++ segment :: next :: rest)))
    (hself : ∀ name, ⟨name, true⟩ ∈ tree.entries folder → Glob Runs segment.dropLast name →
      ∃ results, matchFiles list engine fuel (tree.path (folder ++ [name] ++ next :: rest)) = some results) :
    ∃ result, matchFiles list engine (fuel + 1) (tree.path (folder ++ segment :: next :: rest)) = some result ∧
      ∀ text, text ∈ result ↔ ∃ name, ⟨name, true⟩ ∈ tree.entries folder ∧ Glob Runs segment.dropLast name ∧
        ∃ results, matchFiles list engine fuel (tree.path (folder ++ [name] ++ next :: rest)) = some results ∧
          text ∈ results := by
  have hslashes := hslash
  rw [hsegment, List.mem_append, List.mem_cons, not_or, not_or] at hslashes
  have hdrop : '/' ∉ segment.dropLast := fun h => hslash (List.mem_of_mem_dropLast h)
  obtain ⟨found, hfound, hmem⟩ := matchEntries_path engine hlist hfolder hdrop hplain
  have htext : tree.path (folder ++ segment :: next :: rest) =
      (tree.path folder ++ '/' :: before) ++ '*' :: (after ++ '/' :: (next ++ under rest)) := by
    rw [Tree.path_append, under_cons, under_cons, hsegment]
    simp
  have hstar : '*' ∉ tree.path folder ++ '/' :: before := by
    rw [List.mem_append, List.mem_cons, not_or, not_or]
    exact ⟨Tree.star_notMem_path hstars, by decide, hbefore⟩
  have hdropLast : ((tree.path folder ++ '/' :: before) ++ '*' :: after).dropLast = tree.path folder ++
    '/' :: segment.dropLast := by
    have hne : segment ≠ [] := by simp [hsegment]
    rw [List.append_assoc, List.cons_append, ← hsegment, List.dropLast_append_of_ne_nil (by simp),
      List.dropLast_cons_of_ne_nil hne]
  have hdirectory : getDirectory (tree.path folder ++ '/' :: before) = tree.path folder :=
    getDirectory_append hslashes.1
  have hgoes (findData : FindData) : folderText (tree.path folder) (next ++ under rest) findData =
      tree.path (folder ++ [findData.name] ++ next :: rest) := by
    rw [folderText, Tree.path_append, Tree.path_snoc, under_cons]
    simp
  rw [htext] at hnorm
  have hround : ∃ result, round list engine (matchFiles list engine fuel) _ = some result ∧ _ :=
    round_folderStar (by simp [hnext]) hnorm hstar hslashes.2.2 hdouble (by rw [hdropLast, hfound]) (by
      intro findData hfindData hdir
      obtain ⟨hentry, hglob⟩ := (hmem findData).mp hfindData
      rw [hdirectory, hgoes]
      exact hself findData.name (hdir ▸ hentry) hglob)
  obtain ⟨result, hresult, hfiles⟩ := hround
  refine ⟨result, by rw [matchFiles, htext, hresult], fun text => ?_⟩
  simp only [hfiles, hdirectory, hgoes]
  exact exists_findData (fun name => ∃ results,
    matchFiles list engine fuel (tree.path (folder ++ [name] ++ next :: rest)) = some results ∧ text ∈ results) hmem

/-- What a search finds for a `**` that has become a star. -/
theorem matchFiles_single (hlist : tree.Serves list) (hfolder : ∀ name ∈ folder, IsName name)
    (hstars : ∀ name ∈ folder, '*' ∉ name) (hrest : ∀ name ∈ rest, name ≠ [])
    (hnorm : path_normalize (tree.path (folder ++ ['*'] :: rest)) = some (tree.path (folder ++ ['*'] :: rest))) :
    ∃ result, matchFiles list engine (fuel + 1) (tree.path (folder ++ ['*'] :: rest)) = some result ∧ ∀ text,
      text ∈ result ↔ rest = [] ∧ ∃ name, ⟨name, false⟩ ∈ tree.entries folder ∧ Glob Runs ['*'] name ∧
        text = tree.path (folder ++ [name]) := by
  have hempty : Plain [] := ⟨by simp, by simp, by simp⟩
  cases rest with
  | nil =>
    obtain ⟨result, hresult, hmem⟩ := matchFiles_last engine fuel hlist hfolder hstars
      (List.nil_append ['*']).symm (by simp) (by simp) (by simp)
      ⟨by decide, by decide, by decide⟩ hnorm
    exact ⟨result, hresult, by simpa using hmem⟩
  | cons next rest =>
    have hnone (name : Text) (hentry : ⟨name, true⟩ ∈ tree.entries folder) (hglob : Glob Runs [] name) : False :=
      (tree.isName folder _ hentry).1 ((glob_iff_eq (by simp)).mp hglob)
    obtain ⟨result, hresult, hmem⟩ := matchFiles_folder engine fuel hlist hfolder hstars
      (List.nil_append ['*']).symm (by simp) (by simp) (by simp) hempty (hrest next (by simp)) hnorm
      fun name hentry hglob => (hnone name hentry hglob).elim
    refine ⟨result, hresult, fun text => ?_⟩
    rw [hmem]
    constructor
    · rintro ⟨name, hentry, hglob, -⟩
      exact (hnone name hentry hglob).elim
    · rintro ⟨hnil, -⟩
      exact (List.cons_ne_nil _ _ hnil).elim

/-- A pattern without stars finds the one file. -/
theorem matchFiles_file {name : Text} (hlist : tree.Serves list) (hfolder : ∀ next ∈ folder ++ [name], IsName next)
    (hstars : ∀ next ∈ folder ++ [name], '*' ∉ next) (hplain : Plain name)
    (hnorm : path_normalize (tree.path (folder ++ [name])) = some (tree.path (folder ++ [name]))) :
    ∃ result, matchFiles list engine (fuel + 1) (tree.path (folder ++ [name])) = some result ∧
      ∀ text, text ∈ result ↔ tree.IsFile (folder ++ [name]) ∧ text = tree.path (folder ++ [name]) := by
  have hname := hfolder name (by simp)
  have hnames : ∀ next ∈ folder, IsName next := fun next hnext => hfolder next (List.mem_append_left _ hnext)
  obtain ⟨found, hfound, hmem⟩ := matchEntries_path engine hlist hnames hname.2.1 hplain
  have hround : ∃ result, round list engine (matchFiles list engine fuel) _ = some result ∧ _ :=
    round_noStar hnorm (Tree.star_notMem_path hstars) (by rw [Tree.path_snoc, hfound])
  obtain ⟨result, hresult, hfiles⟩ := hround
  refine ⟨result, by rw [matchFiles, hresult], fun text => ?_⟩
  rw [hfiles, Tree.path_snoc, getDirectory_append hname.2.1,
    exists_findData (fun next => text = tree.path folder ++ '/' :: next) hmem, Tree.isFile_snoc]
  simp only [glob_iff_eq (hstars name (by simp))]
  constructor
  · rintro ⟨_, hentry, rfl, rfl⟩
    exact ⟨hentry, rfl⟩
  · rintro ⟨hentry, rfl⟩
    exact ⟨name, hentry, rfl, rfl⟩

theorem matchEntries_lastName {text : Text} (hstar : '*' ∉ text) (hplain : Plain (lastName text)) :
    ∃ found, matchEntries list engine text = some found ∧ ∀ findData ∈ found, findData.name = lastName text := by
  have hlast : '*' ∉ lastName text := by
    unfold lastName
    split
    · exact fun h => hstar (List.mem_of_mem_drop h)
    · exact hstar
  obtain ⟨re, hre, hmatch⟩ := regex_regexText engine hplain
  have hentries : ∃ root, matchEntries list engine text = some ((list root).filter fun findData =>
      findData.name ≠ ['.'] && findData.name ≠ ['.', '.'] && re findData.name) := by
    unfold lastName at hre
    rw [matchEntries]
    cases hslash : findLastOf '/' text with
    | none =>
      rw [hslash] at hre
      exact ⟨text ++ ['/'], by simp only [hre, Option.bind_eq_bind, Option.bind_some]⟩
    | some pos =>
      rw [hslash] at hre
      exact ⟨text.take pos ++ ['/'], by simp only [hre, Option.bind_eq_bind, Option.bind_some]⟩
  obtain ⟨root, hentries⟩ := hentries
  refine ⟨_, hentries, fun findData hfindData => ?_⟩
  have hname := (List.mem_filter.mp hfindData).2
  rw [Bool.and_eq_true, hmatch, glob_iff_eq hlast] at hname
  exact hname.2

/-- A search for the mount itself finds the mount, as a file, or a text that begins with a dot: no file of the tree. -/
theorem mount_ne_path {path : List Text} (hfile : tree.IsFile path) :
    getDirectory tree.mount ++ '/' :: lastName tree.mount ≠ tree.path path := by
  obtain ⟨name, names, rfl⟩ : ∃ name names, path = name :: names := by
    obtain ⟨folder, name, rfl, -⟩ := hfile
    cases folder <;> simp
  have hname := hfile.isName name (by simp)
  rw [Tree.path, under_cons]
  by_cases hmem : '/' ∈ tree.mount
  · obtain ⟨after, before, hsplit, hafter⟩ := List.eq_append_cons_of_mem (List.mem_reverse.mpr hmem)
    have hslash : '/' ∉ after.reverse := by simpa using hafter
    have hmount : tree.mount = before.reverse ++ '/' :: after.reverse := by
      rw [← List.reverse_reverse tree.mount, hsplit]
      simp
    have hlast : lastName tree.mount = after.reverse := by
      rw [lastName, hmount, findLastOf_append hslash, List.append_cons]
      exact List.drop_left' (by simp)
    rw [hlast, hmount, getDirectory_append hslash]
    simp
  · have hlast : lastName tree.mount = tree.mount := by rw [lastName, findLastOf_eq_none hmem]
    rw [getDirectory_eq_dot hmem, hlast]
    generalize tree.mount = mount at hmem
    intro heq
    rcases mount with _ | ⟨c, _ | ⟨d, rest⟩⟩
    · simp at heq
    · obtain ⟨rfl, htail⟩ : '.' = c ∧ [c] = name ++ under names := by simpa using heq
      rcases name with _ | ⟨e, rest⟩
      · exact hname.1 rfl
      · obtain ⟨rfl, hnil⟩ : '.' = e ∧ [] = rest ++ under names := by simpa using htail
        exact hname.2.2.1 (by rw [(List.append_eq_nil_iff.mp hnil.symm).1])
    · obtain ⟨-, rfl, -⟩ : '.' = c ∧ '/' = d ∧ c :: d :: rest = rest ++ '/' :: (name ++ under names) := by
        simpa using heq
      exact hmem (by simp)

theorem matchFiles_mount (hplain : Plain (lastName tree.mount)) (hnorm : path_normalize tree.mount = some tree.mount) :
    ∃ result, matchFiles list engine (fuel + 1) tree.mount = some result ∧ ∀ path, tree.IsFile path →
      tree.path path ∉ result := by
  obtain ⟨found, hfound, hmem⟩ := matchEntries_lastName engine tree.star_notMem_mount hplain
  have hround : ∃ result, round list engine (matchFiles list engine fuel) _ = some result ∧ _ :=
    round_noStar hnorm tree.star_notMem_mount hfound
  obtain ⟨result, hresult, hfiles⟩ := hround
  refine ⟨result, by rw [matchFiles, hresult], fun path hfile hpath => ?_⟩
  obtain ⟨findData, hfindData, -, htext⟩ := (hfiles _).mp hpath
  rw [hmem findData hfindData] at htext
  exact mount_ne_path hfile htext.symm

end Searches

section Readings

variable {tree : Tree} {folder pattern path : List Text} {segment : Text}

theorem reads_nil : Reads tree ⟨folder, []⟩ path ↔ path = folder := by
  rw [Reads.iff_step]
  constructor
  · rintro (haccepts | ⟨next, hstep, -⟩)
    · cases haccepts
      rfl
    · cases hstep
  · rintro rfl
    exact Or.inl Accepts.here

theorem reads_plain (hsegment : '*' ∉ segment) :
    Reads tree ⟨folder, segment :: pattern⟩ path ↔ Reads tree ⟨folder ++ [segment], pattern⟩ path := by
  rw [Reads.iff_step]
  constructor
  · rintro (haccepts | ⟨next, hstep, hreads⟩)
    · cases haccepts with
      | last hstar => exact absurd hstar hsegment
    · cases hstep with
      | plain => exact hreads
      | star hstar => exact absurd hstar hsegment
      | skip => exact absurd (by decide) hsegment
      | down => exact absurd (by decide) hsegment
  · exact fun hreads => Or.inr ⟨_, Step.plain hsegment, hreads⟩

theorem reads_last (hstar : '*' ∈ segment) (hsegment : segment ≠ double) :
    Reads tree ⟨folder, [segment]⟩ path ↔ ∃ name, Glob Runs segment name ∧ path = folder ++ [name] := by
  rw [Reads.iff_step]
  constructor
  · rintro (haccepts | ⟨next, hstep, -⟩)
    · cases haccepts with
      | last _ hname => exact ⟨_, by rwa [if_neg hsegment] at hname, rfl⟩
    · cases hstep with
      | plain hplain => exact absurd hstar hplain
      | star _ _ hpattern => exact absurd rfl hpattern
      | skip => exact absurd rfl hsegment
      | down => exact absurd rfl hsegment
  · rintro ⟨name, hname, rfl⟩
    exact Or.inl (Accepts.last hstar (by rwa [if_neg hsegment]))

theorem reads_folder (hstar : '*' ∈ segment) (hsegment : segment ≠ double) (hpattern : pattern ≠ []) :
    Reads tree ⟨folder, segment :: pattern⟩ path ↔ ∃ name, ⟨name, true⟩ ∈ tree.entries folder ∧
      Glob Runs segment.dropLast name ∧ Reads tree ⟨folder ++ [name], pattern⟩ path := by
  rw [Reads.iff_step]
  constructor
  · rintro (haccepts | ⟨next, hstep, hreads⟩)
    · cases haccepts with
      | last => exact absurd rfl hpattern
    · cases hstep with
      | plain hplain => exact absurd hstar hplain
      | star _ _ _ hname hentry => exact ⟨_, hentry, hname, hreads⟩
      | skip => exact absurd rfl hsegment
      | down => exact absurd rfl hsegment
  · rintro ⟨name, hentry, hname, hreads⟩
    exact Or.inr ⟨_, Step.star hstar hsegment hpattern hname hentry, hreads⟩

theorem reads_double :
    Reads tree ⟨folder, double :: pattern⟩ path ↔
      (pattern = [] ∧ ∃ name, Glob Runs ['*'] name ∧ path = folder ++ [name]) ∨ Reads tree ⟨folder, pattern⟩ path ∨
        ∃ name, ⟨name, true⟩ ∈ tree.entries folder ∧ Glob Runs ['*'] name ∧
          Reads tree ⟨folder ++ [name], double :: pattern⟩ path := by
  rw [Reads.iff_step]
  constructor
  · rintro (haccepts | ⟨next, hstep, hreads⟩)
    · cases haccepts with
      | last _ hname => exact Or.inl ⟨rfl, _, by simpa using hname, rfl⟩
    · cases hstep with
      | plain hplain => exact absurd (by decide) hplain
      | star _ hsegment => exact absurd rfl hsegment
      | skip => exact Or.inr (Or.inl hreads)
      | down hname hentry => exact Or.inr (Or.inr ⟨_, hentry, hname, hreads⟩)
  · rintro (⟨rfl, name, hname, rfl⟩ | hreads | ⟨name, hentry, hname, hreads⟩)
    · exact Or.inl (Accepts.last (by decide) (by simpa using hname))
    · exact Or.inr ⟨_, Step.skip, hreads⟩
    · exact Or.inr ⟨_, Step.down hname hentry, hreads⟩

end Readings

section Answers

/-- The names of the folder and the segments of the pattern are such. -/
def Valid (position : Position) : Prop :=
  (∀ name ∈ position.folder, IsName name) ∧ ∀ segment ∈ position.pattern, IsSegment segment

/-- The steps that a search can still take. -/
def weight (tree : Tree) (position : Position) : Nat :=
    position.pattern.length + (tree.height - position.folder.length)

variable {tree : Tree} {position next : Position}

theorem Valid.of_folder {folder pattern rest : List Text} {name : Text} (hvalid : Valid ⟨folder, pattern⟩)
    (hname : IsName name) (hrest : ∀ segment ∈ rest, segment ∈ pattern) : Valid ⟨folder ++ [name], rest⟩ := by
  refine ⟨fun next hnext => ?_, fun segment hsegment => hvalid.2 segment (hrest segment hsegment)⟩
  rcases List.mem_append.mp hnext with hnext | hnext
  · exact hvalid.1 next hnext
  · exact List.mem_singleton.mp hnext ▸ hname

theorem Valid.step (hvalid : Valid position) (hstep : Step tree position next) : Valid next := by
  cases hstep with
  | plain => exact hvalid.of_folder (hvalid.2 _ (by simp)).1 fun _ => List.mem_cons_of_mem _
  | star _ _ _ _ hentry => exact hvalid.of_folder (tree.isName _ _ hentry) fun _ => List.mem_cons_of_mem _
  | skip => exact ⟨hvalid.1, fun segment hsegment => hvalid.2 segment (List.mem_cons_of_mem _ hsegment)⟩
  | down _ hentry => exact hvalid.of_folder (tree.isName _ _ hentry) fun _ => id

theorem Tree.length_lt_height {folder : List Text} {findData : FindData} (hentry : findData ∈ tree.entries folder) :
    folder.length < tree.height := by
  by_contra hheight
  rw [tree.shallow folder (Nat.le_of_not_lt hheight)] at hentry
  exact List.not_mem_nil hentry

theorem weight_lt (hstep : Step tree position next) : weight tree next < weight tree position := by
  cases hstep with
  | plain => simp only [weight, List.length_cons, List.length_append, List.length_nil]; omega
  | star => simp only [weight, List.length_cons, List.length_append, List.length_nil]; omega
  | skip => simp only [weight, List.length_cons]; omega
  | down _ hentry =>
    have hheight := Tree.length_lt_height hentry
    simp only [weight, List.length_cons, List.length_append, List.length_nil]
    omega

variable (list : Text → List FindData) (engine : Text → Option (Text → Bool))

/-- With that fuel the search ends, and finds the files that the code reads the pattern as. Without `**` it finds
nothing else. -/
def Answers (tree : Tree) (fuel : Nat) (position : Position) : Prop :=
  ∃ result, matchFiles list engine fuel (tree.path (position.folder ++ position.pattern)) = some result ∧
    (∀ path, tree.IsFile path → (tree.path path ∈ result ↔ Reads tree position path)) ∧
    (double ∉ position.pattern → position.folder ++ position.pattern ≠ [] →
      ∀ text ∈ result, ∃ path, tree.IsFile path ∧ text = tree.path path)

variable {list engine} {fuel : Nat} {folder pattern : List Text} {segment : Text}

theorem answers_nil (hlist : tree.Serves list) (hvalid : Valid ⟨folder, []⟩) (hsteady : Steady tree ⟨folder, []⟩) :
    Answers list engine tree (fuel + 1) ⟨folder, []⟩ := by
  have hnorm := hsteady.normalized
  have hplain := hsteady.last rfl
  simp only [List.append_nil] at hnorm hplain
  rcases List.eq_nil_or_concat folder with rfl | ⟨folder, name, rfl⟩
  · have hmount : tree.path [] = tree.mount := List.append_nil _
    rw [hmount] at hnorm hplain
    have hmatch : ∃ result, matchFiles list engine (fuel + 1) tree.mount = some result ∧ _ :=
      matchFiles_mount engine fuel hplain hnorm
    obtain ⟨result, hresult, hfiles⟩ := hmatch
    refine ⟨result, by simpa [hmount] using hresult, fun path hfile => ?_, fun _ hne => (hne rfl).elim⟩
    rw [reads_nil]
    refine iff_of_false (hfiles path hfile) ?_
    rintro rfl
    obtain ⟨folder, name, heq, -⟩ := hfile
    simp at heq
  · rw [List.concat_eq_append] at *
    have hname := hvalid.1 name (by simp)
    have hlast : lastName (tree.path (folder ++ [name])) = name := by
      rw [lastName, Tree.path_snoc, findLastOf_append hname.2.1, List.append_cons]
      exact List.drop_left' (by simp)
    obtain ⟨result, hresult, hmem⟩ := matchFiles_file engine fuel hlist hvalid.1 hsteady.noStars (hlast ▸ hplain) hnorm
    refine ⟨result, by simpa using hresult, fun path hfile => ?_, fun _ _ text htext => ?_⟩
    · rw [hmem, reads_nil]
      constructor
      · exact fun h => Tree.path_injective hfile.isName hvalid.1 h.2
      · rintro rfl
        exact ⟨hfile, rfl⟩
    · exact ⟨_, (hmem text).mp htext⟩

theorem answers_plain (hstar : '*' ∉ segment) (hnext : Answers list engine tree fuel ⟨folder ++ [segment], pattern⟩) :
    Answers list engine tree fuel ⟨folder, segment :: pattern⟩ := by
  obtain ⟨result, hresult, hreads, hfiles⟩ := hnext
  have happend : folder ++ [segment] ++ pattern = folder ++ segment :: pattern := by simp
  refine ⟨result, by rwa [happend] at hresult, fun path hfile => ?_, fun hdouble hne => ?_⟩
  · rw [hreads path hfile, reads_plain hstar]
  · exact hfiles (fun h => hdouble (List.mem_cons_of_mem _ h)) (by simp)

theorem answers_last (hlist : tree.Serves list) (hstar : '*' ∈ segment) (hsegment : segment ≠ double)
    (hvalid : Valid ⟨folder, [segment]⟩) (hsteady : Steady tree ⟨folder, [segment]⟩) :
    Answers list engine tree (fuel + 1) ⟨folder, [segment]⟩ := by
  have hsegments := hvalid.2 segment (by simp)
  obtain ⟨before, after, hsplit, hbefore, -, -, hdouble⟩ := split_star hstar hsegment hsegments
  obtain ⟨result, hresult, hmem⟩ := matchFiles_last engine fuel hlist hvalid.1 hsteady.noStars hsplit hbefore
    hsegments.1.2.1 hdouble (hsteady.star segment [] rfl hstar hsegment) hsteady.normalized
  refine ⟨result, hresult, fun path hfile => ?_, fun _ _ text htext => ?_⟩
  · rw [hmem, reads_last hstar hsegment]
    constructor
    · rintro ⟨name, hentry, hname, heq⟩
      refine ⟨name, hname, Tree.path_injective hfile.isName ?_ heq⟩
      exact (Tree.isFile_snoc.mpr hentry).isName
    · rintro ⟨name, hname, rfl⟩
      exact ⟨name, Tree.isFile_snoc.mp hfile, hname, rfl⟩
  · obtain ⟨name, hentry, -, rfl⟩ := (hmem text).mp htext
    exact ⟨_, Tree.isFile_snoc.mpr hentry, rfl⟩

theorem mem_results_iff {path : List Text} (hanswers : Answers list engine tree fuel position)
    (hfile : tree.IsFile path) :
    (∃ results, matchFiles list engine fuel (tree.path (position.folder ++ position.pattern)) = some results ∧
      tree.path path ∈ results) ↔ Reads tree position path := by
  obtain ⟨results, hresults, hreads, -⟩ := hanswers
  rw [← hreads path hfile]
  constructor
  · rintro ⟨results', hresults', hpath⟩
    rw [hresults, Option.some.injEq] at hresults'
    exact hresults' ▸ hpath
  · exact fun hpath => ⟨results, hresults, hpath⟩

theorem answers_folder (hlist : tree.Serves list) (hstar : '*' ∈ segment) (hsegment : segment ≠ double)
    (hpattern : pattern ≠ []) (hvalid : Valid ⟨folder, segment :: pattern⟩)
    (hsteady : Steady tree ⟨folder, segment :: pattern⟩)
    (hnext : ∀ name, ⟨name, true⟩ ∈ tree.entries folder → Glob Runs segment.dropLast name →
      Answers list engine tree fuel ⟨folder ++ [name], pattern⟩) :
    Answers list engine tree (fuel + 1) ⟨folder, segment :: pattern⟩ := by
  obtain ⟨following, rest, rfl⟩ := List.exists_cons_of_ne_nil hpattern
  have hsegments := hvalid.2 segment (by simp)
  obtain ⟨before, after, hsplit, hbefore, -, -, hdouble⟩ := split_star hstar hsegment hsegments
  have hplain := hsteady.star segment (following :: rest) rfl hstar hsegment
  rw [if_neg hpattern] at hplain
  obtain ⟨result, hresult, hmem⟩ := matchFiles_folder engine fuel hlist hvalid.1 hsteady.noStars hsplit hbefore
    hsegments.1.2.1 hdouble hplain (hvalid.2 following (by simp)).1.1 hsteady.normalized
    fun name hentry hname => (hnext name hentry hname).imp fun _ h => h.1
  refine ⟨result, hresult, fun path hfile => ?_, fun hdoubles _ text htext => ?_⟩
  · rw [hmem, reads_folder hstar hsegment hpattern]
    refine exists_congr fun name => and_congr_right fun hentry => and_congr_right fun hname => ?_
    exact mem_results_iff (hnext name hentry hname) hfile
  · obtain ⟨name, hentry, hname, results', hresults', htext⟩ := (hmem text).mp htext
    obtain ⟨results, hresults, -, hfiles⟩ := hnext name hentry hname
    rw [hresults, Option.some.injEq] at hresults'
    exact hfiles (fun h => hdoubles (List.mem_cons_of_mem _ h)) (by simp) text (hresults' ▸ htext)

/-- A search for a `**` makes three: for a star in its place, for the pattern without it, and for all of the pattern
in each folder. -/
theorem answers_double (hlist : tree.Serves list) (hvalid : Valid ⟨folder, double :: pattern⟩)
    (hsteady : Steady tree ⟨folder, double :: pattern⟩) (hsteady' : Steady tree ⟨folder, pattern⟩)
    (hskip : Answers list engine tree (fuel + 1) ⟨folder, pattern⟩)
    (hdown : ∀ name, ⟨name, true⟩ ∈ tree.entries folder → Glob Runs ['*'] name →
      Answers list engine tree (fuel + 1) ⟨folder ++ [name], double :: pattern⟩) :
    Answers list engine tree (fuel + 2) ⟨folder, double :: pattern⟩ := by
  obtain ⟨correct, hcorrect, hcorrects⟩ := matchFiles_single engine fuel hlist hvalid.1 hsteady.noStars
    (fun segment hsegment => (hvalid.2 segment (List.mem_cons_of_mem _ hsegment)).1.1) (hsteady.single pattern rfl)
  obtain ⟨legacy, hlegacy, hlegacies, -⟩ := hskip
  have hskipped := hsteady.skipped pattern rfl
  rw [← hsteady'.normalized] at hskipped
  rw [← matchFiles_congr engine (fuel + 1) hskipped] at hlegacy
  have hentries : ∃ found, matchEntries list engine (tree.path folder ++ ['/', '*']) = some found ∧ _ :=
    matchEntries_path engine hlist hvalid.1 (by simp) ⟨by decide, by decide, by decide⟩
  obtain ⟨found, hfound, hmem⟩ := hentries
  have hgoes (findData : FindData) : folderText (tree.path folder) ('*' :: '*' :: under pattern) findData =
      tree.path (folder ++ [findData.name] ++ double :: pattern) := by
    rw [folderText, Tree.path_append, Tree.path_snoc, under_cons]
    simp [double]
  have hnorm : path_normalize (tree.path (folder ++ double :: pattern)) =
      some (tree.path folder ++ '/' :: '*' :: '*' :: under pattern) := by
    rw [hsteady.normalized, Tree.path_append, under_cons]
    rfl
  rw [Tree.path_append, under_cons] at hcorrect hlegacy
  have hround : ∃ result, round list engine (matchFiles list engine (fuel + 1)) _ = some result ∧ _ :=
    round_double hnorm (Tree.star_notMem_path hsteady.noStars) hcorrect hlegacy hfound (by
      intro findData hfindData hdir
      obtain ⟨hentry, hname⟩ := (hmem findData).mp hfindData
      rw [hgoes]
      exact (hdown findData.name (hdir ▸ hentry) hname).imp fun _ h => h.1)
  obtain ⟨result, hresult, hresults⟩ := hround
  refine ⟨result, hresult, fun path hfile => ?_, fun hdoubles => (hdoubles (by simp)).elim⟩
  rw [hresults, hcorrects, hlegacies path hfile, reads_double]
  simp only [hgoes]
  refine or_congr (and_congr_right fun _ => ?_) (or_congr_right ?_)
  · constructor
    · rintro ⟨name, hentry, hname, heq⟩
      exact ⟨name, hname, Tree.path_injective hfile.isName (Tree.isFile_snoc.mpr hentry).isName heq⟩
    · rintro ⟨name, hname, rfl⟩
      exact ⟨name, Tree.isFile_snoc.mp hfile, hname, rfl⟩
  · rw [exists_findData (fun name => ∃ results, matchFiles list engine (fuel + 1)
      (tree.path (folder ++ [name] ++ double :: pattern)) = some results ∧ tree.path path ∈ results) hmem]
    refine exists_congr fun name => and_congr_right fun hentry => and_congr_right fun hname => ?_
    exact mem_results_iff (hdown name hentry hname) hfile

theorem answers_of_steady (hlist : tree.Serves list) (hweight : weight tree position < fuel) (hvalid : Valid position)
    (hsteady : ∀ next, Relation.ReflTransGen (Step tree) position next → Steady tree next) :
    Answers list engine tree fuel position := by
  induction hn : weight tree position using Nat.strong_induction_on generalizing position fuel with
  | _ n ih =>
    subst hn
    have hgo {next : Position} (hstep : Step tree position next) {fuel : Nat} (hfuel : weight tree position ≤ fuel) :
        Answers list engine tree fuel next :=
      ih _ (weight_lt hstep) (Nat.lt_of_lt_of_le (weight_lt hstep) hfuel) (hvalid.step hstep)
        (fun last hlast => hsteady last (hlast.head hstep)) rfl
    have hhere := hsteady position .refl
    obtain ⟨fuel, rfl⟩ := Nat.exists_eq_succ_of_ne_zero (Nat.ne_zero_of_lt hweight)
    obtain ⟨folder, pattern⟩ := position
    cases pattern with
    | nil => exact answers_nil hlist hvalid hhere
    | cons segment pattern =>
      by_cases hstar : '*' ∈ segment
      · by_cases hsegment : segment = double
        · subst hsegment
          obtain ⟨fuel, rfl⟩ : ∃ fuel', fuel = fuel' + 1 := by
            refine ⟨fuel - 1, ?_⟩
            simp only [weight, List.length_cons] at hweight
            omega
          exact answers_double hlist hvalid hhere (hsteady _ (.single Step.skip)) (hgo Step.skip (by omega))
            fun name hentry hname => hgo (Step.down hname hentry) (by omega)
        · by_cases hpattern : pattern = []
          · subst hpattern
            exact answers_last hlist hstar hsegment hvalid hhere
          · exact answers_folder hlist hstar hsegment hpattern hvalid hhere fun name hentry hname =>
              hgo (Step.star hstar hsegment hpattern hname hentry) (by omega)
      · exact answers_plain hstar (hgo (Step.plain hstar) (by omega))

end Answers

section Meaning

variable (list : Text → List FindData) (engine : Text → Option (Text → Bool)) (tree : Tree) (pattern : List Text)

/-- The search ends. It finds the files that the pattern stands for, and without `**` nothing else. -/
def Exact : Prop :=
  ∃ enough, ∀ fuel, enough ≤ fuel → ∃ result, matchFiles list engine fuel (tree.path pattern) = some result ∧
    (double ∉ pattern → ∀ text, text ∈ result ↔ ∃ path, tree.IsFile path ∧ Matches pattern path ∧
      text = tree.path path) ∧
    (double ∈ pattern → ∀ path, tree.IsFile path → Matches pattern path → tree.path path ∈ result)

/-- No file of the tree tells the pattern from what the code reads it as; with `**`, none that the pattern stands
for. -/
def ReadsAsMeant : Prop :=
  ∀ path, tree.IsFile path → (Matches pattern path → Reads tree ⟨[], pattern⟩ path) ∧
    (double ∉ pattern → Reads tree ⟨[], pattern⟩ path → Matches pattern path)

variable {list engine tree pattern}

/-- `MatchFiles` finds what the pattern stands for exactly when no file tells the pattern from what its walk reads
it as. `hsteady` asks that the text of each position of the walk means that position. -/
theorem exact_iff_readsAsMeant (hlist : tree.Serves list) (hpattern : pattern ≠ [])
    (hsegments : ∀ segment ∈ pattern, IsSegment segment)
    (hsteady : ∀ position, Relation.ReflTransGen (Step tree) ⟨[], pattern⟩ position → Steady tree position) :
    Exact list engine tree pattern ↔ ReadsAsMeant tree pattern := by
  have hanswers (fuel : Nat) (hfuel : weight tree ⟨[], pattern⟩ < fuel) :
    Answers list engine tree fuel ⟨[], pattern⟩ :=
    answers_of_steady hlist hfuel ⟨by simp, hsegments⟩ hsteady
  constructor
  · rintro ⟨enough, hexact⟩ path hfile
    obtain ⟨result, hresult, honly, hall⟩ := hexact (max enough (weight tree ⟨[], pattern⟩ + 1)) (by omega)
    obtain ⟨result', hresult', hreads, -⟩ := hanswers (max enough (weight tree ⟨[], pattern⟩ + 1)) (by omega)
    obtain rfl : result = result' := Option.some.inj (hresult.symm.trans hresult')
    refine ⟨fun hmatches => (hreads path hfile).mp ?_, fun hdouble h => ?_⟩
    · by_cases hdouble : double ∈ pattern
      · exact hall hdouble path hfile hmatches
      · exact (honly hdouble _).mpr ⟨path, hfile, hmatches, rfl⟩
    · obtain ⟨path', hfile', hmatches, heq⟩ := (honly hdouble _).mp ((hreads path hfile).mpr h)
      exact Tree.path_injective hfile.isName hfile'.isName heq ▸ hmatches
  · intro hmeant
    refine ⟨weight tree ⟨[], pattern⟩ + 1, fun fuel hfuel => ?_⟩
    obtain ⟨result, hresult, hreads, hfiles⟩ := hanswers fuel hfuel
    refine ⟨result, hresult, fun hdouble text => ?_, fun hdouble path hfile hmatches => ?_⟩
    · constructor
      · intro htext
        obtain ⟨path, hfile, rfl⟩ := hfiles hdouble hpattern text htext
        exact ⟨path, hfile, (hmeant path hfile).2 hdouble ((hreads path hfile).mp htext), rfl⟩
      · rintro ⟨path, hfile, hmatches, rfl⟩
        exact (hreads path hfile).mpr ((hmeant path hfile).1 hmatches)
    · exact (hreads path hfile).mpr ((hmeant path hfile).1 hmatches)

theorem Glob.mono {run run' : Char → Prop} {segment name : Text} (hrun : ∀ c ∈ name, run c → run' c)
    (hglob : Glob run segment name) : Glob run' segment name := by
  induction hglob with
  | nil => exact Glob.nil
  | char hstar _ ih => exact Glob.char hstar (ih fun c hc => hrun c (List.mem_cons_of_mem _ hc))
  | stop _ ih => exact Glob.stop (ih hrun)
  | more hc _ ih => exact Glob.more (hrun _ (by simp) hc) (ih fun c hc => hrun c (List.mem_cons_of_mem _ hc))

theorem glob_star {run : Char → Prop} {name : Text} (hrun : ∀ c ∈ name, run c) : Glob run ['*'] name := by
  induction name with
  | nil => exact Glob.stop Glob.nil
  | cons c name ih => exact Glob.more (hrun c (by simp)) (ih fun c hc => hrun c (List.mem_cons_of_mem _ hc))

theorem Matches.ne_nil {path : List Text} (hmatches : Matches pattern path) (hpattern : pattern ≠ []) : path ≠ [] := by
  induction hmatches with
  | nil => exact absurd rfl hpattern
  | cons => simp
  | skip hrest _ ih => exact ih hrest
  | down => simp
  | leaf => simp

theorem Tree.directory_of_entries {folder rest : List Text} {name : Text}
    (hentries : tree.entries (folder ++ name :: rest) ≠ []) : ⟨name, true⟩ ∈ tree.entries folder := by
  induction rest using List.reverseRecOn with
  | nil => exact tree.folders folder name hentries
  | append_singleton rest last ih =>
    have hentry := tree.folders (folder ++ name :: rest) last (by simpa using hentries)
    exact ih (List.ne_nil_of_mem hentry)

theorem Tree.IsFile.directory {folder path : List Text} {name : Text} (hfile : tree.IsFile (folder ++ name :: path))
    (hpath : path ≠ []) : ⟨name, true⟩ ∈ tree.entries folder := by
  rcases List.eq_nil_or_concat path with rfl | ⟨rest, last, rfl⟩
  · exact absurd rfl hpath
  · rw [List.concat_eq_append, ← List.cons_append, ← List.append_assoc, Tree.isFile_snoc] at hfile
    exact Tree.directory_of_entries (List.ne_nil_of_mem hfile)

/-- The pattern has stars in its last segment only, apart from `**`. -/
def LastStars (pattern : List Text) : Prop := ∀ segment ∈ pattern.dropLast, '*' ∈ segment → segment = double

theorem LastStars.tail {segment : Text} (hlast : LastStars (segment :: pattern)) : LastStars pattern := by
  intro next hnext
  cases pattern with
  | nil => simp at hnext
  | cons => exact hlast next (List.mem_cons_of_mem _ hnext)

theorem LastStars.eq_nil {segment : Text} (hlast : LastStars (segment :: pattern)) (hstar : '*' ∈ segment)
    (hsegment : segment ≠ double) : pattern = [] := by
  cases pattern with
  | nil => rfl
  | cons next rest => exact absurd (hlast segment (by simp) hstar) hsegment

theorem reads_of_matches {path : List Text} (hmatches : Matches pattern path) (hlast : LastStars pattern) :
    ∀ folder, tree.IsFile (folder ++ path) → (∀ name ∈ path, ∀ c ∈ name, Runs c) →
      Reads tree ⟨folder, pattern⟩ (folder ++ path) := by
  induction hmatches with
  | nil => exact fun folder _ _ => reads_nil.mpr (List.append_nil folder)
  | @cons segment name pattern path hsegment hname hrest ih =>
    intro folder hfile hruns
    by_cases hstar : '*' ∈ segment
    · obtain rfl := hlast.eq_nil hstar hsegment
      cases hrest
      exact (reads_last hstar hsegment).mpr ⟨name, hname.mono fun c hc _ => hruns name (by simp) c hc, rfl⟩
    · obtain rfl := (glob_iff_eq hstar).mp hname
      rw [reads_plain hstar, List.append_cons folder name path]
      exact ih hlast.tail _ (List.append_cons folder name path ▸ hfile) fun next hnext =>
        hruns next (List.mem_cons_of_mem _ hnext)
  | skip _ _ ih =>
    intro folder hfile hruns
    exact reads_double.mpr (Or.inr (Or.inl (ih hlast.tail folder hfile hruns)))
  | @down name pattern path hrest ih =>
    intro folder hfile hruns
    have hentry := hfile.directory (hrest.ne_nil (by simp))
    refine reads_double.mpr (Or.inr (Or.inr ⟨name, hentry, glob_star (hruns name (by simp)), ?_⟩))
    rw [List.append_cons folder name path]
    exact ih hlast _ (List.append_cons folder name path ▸ hfile) fun next hnext =>
      hruns next (List.mem_cons_of_mem _ hnext)
  | @leaf name =>
    intro folder _ hruns
    exact reads_double.mpr (Or.inl ⟨rfl, name, glob_star (hruns name (by simp)), rfl⟩)

theorem matches_of_reads (hlast : LastStars pattern) (hdouble : double ∉ pattern) {folder path : List Text}
    (hreads : Reads tree ⟨folder, pattern⟩ path) : ∃ rest, path = folder ++ rest ∧ Matches pattern rest := by
  induction pattern generalizing folder with
  | nil => exact ⟨[], by rw [reads_nil.mp hreads, List.append_nil], Matches.nil⟩
  | cons segment pattern ih =>
    rw [List.mem_cons, not_or] at hdouble
    by_cases hstar : '*' ∈ segment
    · obtain rfl := hlast.eq_nil hstar (Ne.symm hdouble.1)
      obtain ⟨name, hname, rfl⟩ := (reads_last hstar (Ne.symm hdouble.1)).mp hreads
      exact ⟨[name], rfl, Matches.cons (Ne.symm hdouble.1) (hname.mono fun _ _ _ => trivial) Matches.nil⟩
    · obtain ⟨rest, rfl, hmatches⟩ := ih hlast.tail hdouble.2 ((reads_plain hstar).mp hreads)
      exact ⟨segment :: rest, by simp, Matches.cons (Ne.symm hdouble.1) ((glob_iff_eq hstar).mpr rfl) hmatches⟩

/-- Stars in the last segment and names of one line: what the patterns of most manifests come to. -/
theorem readsAsMeant_of_lastStars (hlast : LastStars pattern)
    (hruns : ∀ path, tree.IsFile path → ∀ name ∈ path, ∀ c ∈ name, Runs c) : ReadsAsMeant tree pattern := by
  refine fun path hfile => ⟨fun hmatches => ?_, fun hdouble hreads => ?_⟩
  · exact reads_of_matches hmatches hlast [] hfile (hruns path hfile)
  · obtain ⟨rest, rfl, hmatches⟩ := matches_of_reads hlast hdouble hreads
    exact hmatches

end Meaning

section Sample

def sampleEntries (folder : List Text) : List FindData :=
  if folder = [] then [⟨['a'], true⟩] else if folder = [['a']] then [⟨['b'], false⟩] else []

theorem sampleEntries_of_mem {folder : List Text} {findData : FindData} (hentry : findData ∈ sampleEntries folder) :
    (folder = [] ∧ findData = ⟨['a'], true⟩) ∨ (folder = [['a']] ∧ findData = ⟨['b'], false⟩) := by
  unfold sampleEntries at hentry
  split at hentry <;> simp_all

/-- The file `b` in the folder `a` of the mount `m`. -/
def sampleTree : Tree where
  mount := ['m']
  entries := sampleEntries
  height := 2
  star_notMem_mount := by decide
  isName folder findData hentry := by
    rcases sampleEntries_of_mem hentry with ⟨-, rfl⟩ | ⟨-, rfl⟩ <;> simp [IsName]
  shallow folder hheight := by
    refine List.eq_nil_iff_forall_not_mem.mpr fun findData hentry => ?_
    rcases sampleEntries_of_mem hentry with ⟨rfl, -⟩ | ⟨rfl, -⟩ <;> simp at hheight
  folders folder name hentries := by
    obtain ⟨findData, hentry⟩ := List.exists_mem_of_ne_nil _ hentries
    rcases sampleEntries_of_mem hentry with ⟨h, -⟩ | ⟨h, -⟩
    · simp at h
    · obtain ⟨rfl, rfl⟩ : folder = [] ∧ name = ['a'] := by
        rcases folder with _ | ⟨first, rest⟩ <;> simp_all
      decide

/-- A device for the tree. -/
def sampleList (root : Text) : List FindData :=
  if root = ['m', '/'] then sampleEntries [] else if root = ['m', '/', 'a', '/'] then sampleEntries [['a']] else []

theorem serves_sampleList : sampleTree.Serves sampleList := by
  intro folder hfolder
  have hname : ∀ name ∈ [['a']], IsName name := by simp [IsName]
  have hroot (names : List Text) (hnames : ∀ name ∈ names, IsName name)
      (heq : sampleTree.path folder ++ ['/'] = sampleTree.path names ++ ['/']) : folder = names :=
    Tree.path_injective hfolder hnames (List.append_cancel_right heq)
  by_cases hnil : folder = []
  · subst hnil
    decide
  · by_cases ha : folder = [['a']]
    · subst ha
      decide
    · have hmount : sampleTree.path folder ++ ['/'] ≠ ['m', '/'] := fun h => hnil (hroot [] (by simp) h)
      have hfolder : sampleTree.path folder ++ ['/'] ≠ ['m', '/', 'a', '/'] := fun h => ha (hroot [['a']] hname h)
      have hlist : sampleList (sampleTree.path folder ++ ['/']) = [] := by
        rw [sampleList, if_neg hmount, if_neg hfolder]
      have hentries : sampleTree.entries folder = [] := (if_neg hnil).trans (if_neg ha)
      rw [hlist, hentries]
      rfl

theorem isFile_sample : sampleTree.IsFile [['a'], ['b']] := ⟨[['a']], ['b'], rfl, by decide⟩

/-- The pattern `m/*/b` finds nothing, with `m/` for what it looks through. -/
theorem not_exact_starFolder : ¬ Exact sampleList (fun _ => none) sampleTree [['*'], ['b']] := by
  rintro ⟨enough, hexact⟩
  obtain ⟨result, hresult, honly, -⟩ := hexact (enough + 1) (by omega)
  have hmatches : Matches [['*'], ['b']] [['a'], ['b']] :=
    Matches.cons (by decide) (glob_star fun _ _ => trivial)
      (Matches.cons (by decide) ((glob_iff_eq (by decide)).mpr rfl) Matches.nil)
  have hmem := (honly (by decide) _).mpr ⟨_, isFile_sample, hmatches, rfl⟩
  have hsearch : ∃ result, matchFiles sampleList (fun _ => none) (enough + 1)
      (sampleTree.path ([] ++ [['*'], ['b']])) = some result ∧ _ :=
    matchFiles_single (fun _ => none) enough serves_sampleList (by simp) (by simp) (by simp) (by decide)
  obtain ⟨result', hresult', hnone⟩ := hsearch
  obtain rfl : result = result' := Option.some.inj (hresult.symm.trans hresult')
  exact absurd ((hnone _).mp hmem).1 (by simp)

theorem step_sample {folder pattern : List Text} {next : Position}
    (hstep : Step sampleTree ⟨folder, ['a'] :: pattern⟩ next) : next = ⟨folder ++ [['a']], pattern⟩ := by
  cases hstep with
  | plain => rfl
  | star hstar => exact absurd hstar (by decide)

theorem walk_sample {position : Position}
    (hwalk : Relation.ReflTransGen (Step sampleTree) ⟨[], [['a'], ['*']]⟩ position) :
    position = ⟨[], [['a'], ['*']]⟩ ∨ position = ⟨[['a']], [['*']]⟩ := by
  induction hwalk with
  | refl => exact Or.inl rfl
  | tail _ hstep ih =>
    rcases ih with rfl | rfl
    · exact Or.inr (step_sample hstep)
    · cases hstep with
      | plain hstar => exact absurd (by decide) hstar
      | star _ _ hpattern => exact absurd rfl hpattern

theorem steady_sample {position : Position}
    (hposition : position = ⟨[], [['a'], ['*']]⟩ ∨ position = ⟨[['a']], [['*']]⟩) :
    Steady sampleTree position := by
  have hplain : Plain ['*'] := ⟨by decide, by decide, by decide⟩
  rcases hposition with rfl | rfl
  · refine ⟨by decide, by decide, by simp, fun segment rest heq hstar => ?_, by simp [double], by simp [double]⟩
    exact absurd ((List.cons.inj heq).1 ▸ hstar) (by decide)
  · refine ⟨by decide, by decide, by simp, fun segment rest heq _ _ => ?_, by simp [double], by simp [double]⟩
    obtain ⟨rfl, rfl⟩ := List.cons.inj heq
    exact hplain

theorem exact_folder : Exact sampleList (fun _ => none) sampleTree [['a'], ['*']] := by
  have hsegments : ∀ segment ∈ [['a'], ['*']], IsSegment segment := by
    intro segment hsegment
    have hname : IsName segment := by
      rcases List.mem_pair.mp hsegment with rfl | rfl <;> simp [IsName]
    refine ⟨hname, ?_, Or.inr fun hinfix => ?_⟩
    · rcases List.mem_pair.mp hsegment with rfl | rfl <;> decide
    · have hlength := hinfix.length_le
      rcases List.mem_pair.mp hsegment with rfl | rfl <;> simp [double] at hlength
  refine (exact_iff_readsAsMeant serves_sampleList (by simp) hsegments fun position hwalk =>
    steady_sample (walk_sample hwalk)).mpr (readsAsMeant_of_lastStars ?_ ?_)
  · intro segment hsegment hstar
    rw [List.mem_singleton.mp hsegment] at hstar
    exact absurd hstar (by decide)
  · rintro path ⟨folder, name, rfl, hentry⟩
    rcases sampleEntries_of_mem hentry with ⟨-, hname⟩ | ⟨rfl, hname⟩
    · simp at hname
    · obtain rfl : name = ['b'] := by simpa using hname
      have hplain : [['a'], ['b']].all (fun name => name.all fun c => !isLineTerminator c) = true := by decide
      intro name hname c hc
      have hline : isLineTerminator c = false := by
        simpa using List.all_eq_true.mp (List.all_eq_true.mp hplain name hname) c hc
      exact hline

end Sample

end fx.MatchFiles
