import Citizen.Console.ExecuteBuffer

open Bits Pieces

namespace console

/-- `tolower` in the C locale. -/
def lowerCase (c : Byte) : Byte := if 65 ≤ c.toNat ∧ c.toNat ≤ 90 then c + 32 else c

/-- `_stricmp` finds no difference. Both names end at their first zero. -/
def sameName (left right : Text) : Prop :=
  (left.takeWhile (· ≠ 0)).map lowerCase = (right.takeWhile (· ≠ 0)).map lowerCase

instance (left right : Text) : Decidable (sameName left right) := inferInstanceAs (Decidable (_ = _))

/-- An archived string variable. -/
structure ConVar where
  name : Text
  value : Text
  offlineValue : Text
  /-- `ConVar_Replicated` is among its flags. -/
  replicated : Bool
  deriving DecidableEq

namespace ConVar

/-- The value that is saved. -/
def saved (convar : ConVar) : Text := if convar.replicated then convar.offlineValue else convar.value

/-- The line of a variable. -/
def line (convar : ConVar) : Text :=
  literal "seta \"" ++ (convar.name ++ quote :: 32 :: quote :: (convar.saved ++ [quote]))

end ConVar

/-- The archived variables of a context. `m_entries` holds one for each name. -/
structure Archive where
  convars : List ConVar
  distinct : convars.Pairwise fun left right => ¬ sameName left.name right.name

/-- `writeLine`. -/
def writeLine (line : Text) : Text := line ++ [13, 10]

/-- The lines of the variables. -/
def variableLines (convars : List ConVar) : Text := convars.flatMap fun convar => writeLine convar.line

/-- `Context::SaveConfiguration`, without the lines that other components write. -/
def Archive.saveConfiguration (archive : Archive) : Text :=
  writeLine (literal "// generated by CitizenFX") ++ variableLines archive.convars

/-- A variable of the fresh context. -/
structure Entry where
  name : Text
  value : Text
  archived : Bool
  deriving DecidableEq

/-- The command `seta`. -/
def setArchived (entries : List Entry) (name value : Text) : List Entry :=
  if entries.any fun entry => sameName entry.name name then
    entries.map fun entry => if sameName entry.name name then { entry with value, archived := true } else entry
  else entries ++ [{ name, value, archived := true }]

/-- The arguments of a command, the name of the command first. -/
def arguments (lib : Libraries) (command : Text) : List Text := (tokenize lib command).map Argument.text

/-- The commands that `Invoke` does not return from at once. -/
def invocations (lib : Libraries) (commands : List Text) : List (List Text) :=
  (commands.map (arguments lib)).filter fun args => !args.isEmpty

/-- `InvokeDirect` of `seta` with its two arguments, or of another command, which may do anything. -/
def invoke (other : List Entry → List Text → List Entry) (entries : List Entry) (args : List Text) : List Entry :=
  match args with
  | [command, name, value] =>
    if sameName command (literal "seta") then setArchived entries name value else other entries args
  | _ => other entries args

/-- What the lines do in a fresh context, once the calls of `ExecuteBuffer` have emptied the buffer: they recreate
the variables and invoke nothing else. -/
def Archive.Reloads (lib : Libraries) (other : List Entry → List Text → List Entry) (archive : Archive) : Prop :=
  ∀ calls : List Bool, archive.saveConfiguration.length ≤ calls.count false →
    let commands := (Context.run lib { commandBuffer := archive.saveConfiguration } calls).executed
    invocations lib commands = archive.convars.map (fun convar => [literal "seta", convar.name, convar.saved]) ∧
      (invocations lib commands).foldl (invoke other) [] =
        archive.convars.map fun convar => { name := convar.name, value := convar.saved, archived := true }

/-- A text that a quoted argument of one line can hold as it is. -/
def Clean (text : Text) : Prop :=
  quote ∉ text ∧ (∀ c ∈ text, isNewline c = false) ∧ text.getLast? ≠ some backslash

instance (text : Text) : Decidable (Clean text) := inferInstanceAs (Decidable (_ ∧ _ ∧ _))

/-- What the code relies on: the check of UTF-8 takes a text apart at ASCII characters, and the texts that
`Tokenize` goes on from are UTF-8. -/
structure Libraries.Lawful (lib : Libraries) : Prop where
  empty : lib.validUtf8 [] = true
  ascii : ∀ (text rest : Text) (c : Byte), c.toNat < 128 →
    (lib.validUtf8 (text ++ c :: rest) = true ↔ lib.validUtf8 text = true ∧ lib.validUtf8 rest = true)
  character : ∀ text, lib.validUtf8 text = true → lib.validUtf8 (afterCharacter text) = true
  value : ∀ text n, lib.validUtf8 text = true → lib.jsonArgument text = some n →
    lib.validUtf8 (text.take n) = true ∧ lib.validUtf8 (text.drop n) = true

/-- The loop stops before an ASCII character, or where the buffer ends. -/
theorem commandLength_end (lib : Libraries) (skip : Nat) (inQuote : Bool) (text : Text) :
    ∀ c, text[commandLength lib skip inQuote text]? = some c → c = semicolon ∨ isNewline c = true := by
  induction text generalizing skip inQuote with
  | nil => simp
  | cons c text ih =>
    cases skip with
    | succ skip => exact ih skip inQuote
    | zero =>
      unfold commandLength
      generalize (if inQuote = false ∧ opensJson c then lib.json (c :: text) else none) = value
      cases value with
      | some n => exact ih (n - 1) inQuote
      | none =>
        dsimp only
        generalize (if c = quote then !inQuote else inQuote) = inQuote'
        split
        · rename_i hend
          intro c' hc'
          cases hc'
          exact .inl hend.2
        · split
          · rename_i hend
            intro c' hc'
            cases hc'
            exact .inr hend
          · exact ih 0 inQuote'

theorem commandLength_quote (lib : Libraries) (inQuote : Bool) (rest : Text) :
    commandLength lib 0 inQuote (quote :: rest) = commandLength lib 0 (!inQuote) rest + 1 := by
  have hjson : ¬ opensJson quote := by decide
  have hsemicolon : ¬ (quote = semicolon) := by decide
  have hline : isNewline quote = false := by decide
  rw [commandLength, if_neg (fun h => hjson h.2)]
  simp [hsemicolon, hline]

/-- In quotes, only a quote or a newline matters to the loop. -/
theorem commandLength_inQuote (lib : Libraries) {c : Byte} (rest : Text) (hquote : c ≠ quote) :
    commandLength lib 0 true (c :: rest) = if isNewline c then 0 else commandLength lib 0 true rest + 1 := by
  rw [commandLength, if_neg (by simp)]
  simp [hquote]

theorem commandLength_quoted (lib : Libraries) {text : Text} (rest : Text) (h : Clean text) :
    commandLength lib 0 true (text ++ quote :: rest) = text.length + 1 + commandLength lib 0 false rest := by
  obtain ⟨hquote, hline, -⟩ := h
  induction text with
  | nil =>
    rw [List.nil_append, commandLength_quote, List.length_nil, Bool.not_true]
    omega
  | cons c text ih =>
    obtain ⟨hc, htext⟩ := List.forall_mem_cons.mp hline
    rw [List.mem_cons, not_or] at hquote
    rw [List.cons_append, commandLength_inQuote lib _ (Ne.symm hquote.1), if_neg (by simp [hc]), ih hquote.2 htext,
      List.length_cons]
    omega

/-- The loop takes a clean text as it is, up to the quote after it. -/
theorem quotedString_clean {text : Text} (rest : Text) (h : Clean text) :
    quotedString false (text ++ quote :: rest) = (text, text.length + 1, rest) := by
  obtain ⟨hquote, -, hlast⟩ := h
  induction text with
  | nil => simp [quotedString]
  | cons c text ih =>
    rw [List.mem_cons, not_or] at hquote
    have hnext : ¬ (c = backslash ∧ (text ++ quote :: rest).headD 0 = quote) := by
      rintro ⟨rfl, hhead⟩
      cases text with
      | nil => exact hlast rfl
      | cons c text => exact hquote.2 (hhead ▸ List.mem_cons_self)
    have htail : text.getLast? ≠ some backslash := by
      intro hback
      rw [List.getLast?_cons, hback] at hlast
      exact hlast rfl
    rw [List.cons_append, quotedString, if_neg (fun h => hquote.1 h.1.symm), if_neg hnext, ih hquote.2 htail]
    rfl

/-- If the loop finds the text that it was given in quotes, then the text is clean. -/
theorem clean_of_quotedString {text rest s : Text} (hs : s <+: text ++ quote :: rest)
    (hlength : s.length ≠ text.length) (h : (quotedString false s).1 = text) :
    quote ∉ text ∧ text.getLast? ≠ some backslash ∧ text.length < s.length := by
  induction text generalizing s with
  | nil => exact ⟨List.not_mem_nil, by simp, by rw [List.length_nil] at hlength ⊢; omega⟩
  | cons c text ih =>
    cases s with
    | nil => cases h
    | cons c' s =>
      rw [List.cons_append, List.cons_prefix_cons] at hs
      obtain ⟨rfl, hs⟩ := hs
      unfold quotedString at h
      split_ifs at h with hclose hescape
      · cases s with
        | nil => exact absurd hescape.2 (by decide)
        | cons c'' s =>
          have hquote : c'' = quote := hescape.2
          rw [quotedString, if_neg (by simp), if_neg (by rw [hquote]; exact fun h => absurd h.1 (by decide))] at h
          have hsame : c'' = c' := (List.cons.inj h).1
          rw [hquote, hescape.1] at hsame
          exact absurd hsame (by decide)
      · have htext : (quotedString false s).1 = text := (List.cons.inj h).2
        have hne : s.length ≠ text.length := fun heq => hlength (by rw [List.length_cons, List.length_cons, heq])
        obtain ⟨hquote, hlast, hlt⟩ := ih hs hne htext
        have hc : c' ≠ quote := fun heq => hclose ⟨heq, rfl⟩
        refine ⟨?_, ?_, by simpa using hlt⟩
        · rw [List.mem_cons, not_or]
          exact ⟨Ne.symm hc, hquote⟩
        · cases text with
          | nil =>
            intro hback
            cases s with
            | nil => exact hne rfl
            | cons c'' s =>
              obtain ⟨rfl, -⟩ := List.cons_prefix_cons.mp hs
              exact hescape ⟨by simpa using hback, rfl⟩
          | cons c'' text => simpa [List.getLast?_cons_cons] using hlast

/-- A text that a command holds in quotes, and that its argument is, is clean. -/
theorem clean_of_argument (lib : Libraries) {text : Text} (rest : Text)
    (h : (quotedString false ((text ++ quote :: rest).take (commandLength lib 0 true (text ++ quote :: rest)))).1 =
      text) :
    Clean text := by
  have hne : commandLength lib 0 true (text ++ quote :: rest) ≠ text.length := by
    intro heq
    have hend := commandLength_end lib 0 true (text ++ quote :: rest) quote (by rw [heq]; simp)
    exact absurd hend (by decide)
  have hle := commandLength_le lib 0 true (text ++ quote :: rest)
  have hlength : ((text ++ quote :: rest).take (commandLength lib 0 true (text ++ quote :: rest))).length =
      commandLength lib 0 true (text ++ quote :: rest) := by rw [List.length_take, Nat.min_eq_left hle]
  obtain ⟨hquote, hlast, hlt⟩ := clean_of_quotedString (List.take_prefix _ _) (by rwa [hlength]) h
  rw [hlength] at hlt
  refine ⟨hquote, ?_, hlast⟩
  clear h hne hle hlength hlast
  induction text with
  | nil => simp
  | cons c text ih =>
    rw [List.mem_cons, not_or] at hquote
    rw [List.cons_append, commandLength_inQuote lib _ (Ne.symm hquote.1)] at hlt
    split at hlt
    · cases hlt
    · rename_i hc
      refine List.forall_mem_cons.mpr ⟨by simpa using hc, ih hquote.2 (by rw [List.length_cons] at hlt; omega)⟩

/-- The line of a variable, up to the end of its name. -/
theorem line_append (convar : ConVar) (rest : Text) : writeLine convar.line ++ rest =
    literal "seta " ++ quote ::
      (convar.name ++ quote :: 32 :: quote :: (convar.saved ++ quote :: 13 :: 10 :: rest)) := by
  simp [writeLine, ConVar.line, literal, quote]

section Utf8

variable {lib : Libraries}

theorem Libraries.Lawful.cons (h : lib.Lawful) {c : Byte} (hc : c.toNat < 128) (rest : Text) :
    lib.validUtf8 (c :: rest) = true ↔ lib.validUtf8 rest = true := by
  rw [← List.nil_append (c :: rest), h.ascii [] rest c hc]
  simp [h.empty]

theorem isBlank_lt {c : Byte} (h : isBlank c = true) : c.toNat < 128 := by
  simp only [isBlank, decide_eq_true_eq] at h
  omega

theorem Libraries.Lawful.dropBlanks (h : lib.Lawful) {rest : Text} (hvalid : lib.validUtf8 rest = true) :
    lib.validUtf8 (rest.dropWhile isBlank) = true := by
  induction rest with
  | nil => exact hvalid
  | cons c rest ih =>
    rw [List.dropWhile_cons]
    split
    · rename_i hc
      exact ih ((h.cons (isBlank_lt hc) rest).mp hvalid)
    · exact hvalid

theorem Libraries.Lawful.quotedString (h : lib.Lawful) (inEscape : Bool) (before : Text) {rest : Text}
    (hvalid : lib.validUtf8 (before ++ rest) = true) :
    lib.validUtf8 (before ++ (quotedString inEscape rest).1) = true ∧
      lib.validUtf8 (console.quotedString inEscape rest).2.2 = true := by
  induction rest generalizing inEscape before with
  | nil => exact ⟨hvalid, h.empty⟩
  | cons c rest ih =>
    unfold console.quotedString
    split_ifs with hclose hescape
    · rw [hclose.1] at hvalid
      obtain ⟨hbefore, hrest⟩ := (h.ascii before rest quote (by decide)).mp hvalid
      exact ⟨by rwa [List.append_nil], hrest⟩
    · obtain ⟨hc, hhead⟩ := hescape
      rw [hc] at hvalid
      obtain ⟨hbefore, hrest⟩ := (h.ascii before rest backslash (by decide)).mp hvalid
      apply ih
      cases rest with
      | nil => exact absurd hhead (by decide)
      | cons c' rest =>
        have hquote : c' = quote := hhead
        rw [hquote] at hrest ⊢
        exact (h.ascii before rest quote (by decide)).mpr ⟨hbefore, (h.cons (by decide) rest).mp hrest⟩
    · have hnext := ih false (before ++ [c]) (by rwa [List.append_assoc])
      rw [List.append_assoc] at hnext
      exact hnext

theorem unquotedString_split {prev : Option Byte} {line text rest : Text}
    (h : unquotedString prev line = some (text, rest)) :
    line = text ++ rest ∧ (rest = [] ∨ ∃ c rest', rest = c :: rest' ∧ c.toNat < 128) := by
  induction line generalizing prev text with
  | nil =>
    cases h
    exact ⟨rfl, .inl rfl⟩
  | cons c line ih =>
    unfold unquotedString at h
    split_ifs at h with hend
    · cases h
      refine ⟨rfl, .inr ⟨c, line, rfl, ?_⟩⟩
      rcases hend with hblank | hquote
      · exact isBlank_lt hblank
      · rw [hquote]
        decide
    · obtain ⟨⟨text', rest'⟩, hrest, heq⟩ := Option.map_eq_some_iff.mp h
      cases heq
      obtain ⟨hline, hhead⟩ := ih hrest
      exact ⟨by rw [hline, List.cons_append], hhead⟩

theorem Libraries.Lawful.unquotedString (h : lib.Lawful) {prev : Option Byte} {line text rest : Text}
    (hvalid : lib.validUtf8 line = true) (hline : unquotedString prev line = some (text, rest)) :
    lib.validUtf8 text = true ∧ lib.validUtf8 rest = true := by
  obtain ⟨rfl, rfl | ⟨c, rest', rfl, hc⟩⟩ := unquotedString_split hline
  · rw [List.append_nil] at hvalid
    exact ⟨hvalid, h.empty⟩
  · obtain ⟨htext, hrest⟩ := (h.ascii text rest' c hc).mp hvalid
    exact ⟨htext, (h.cons hc rest').mpr hrest⟩

/-- The arguments of a line that is UTF-8 are UTF-8. -/
theorem Libraries.Lawful.argumentsFrom (h : lib.Lawful) (fuel i : Nat) (prev : Option Byte) {rest : Text}
    (hvalid : lib.validUtf8 rest = true) :
    ∀ arg ∈ argumentsFrom lib fuel i prev rest, lib.validUtf8 arg.text = true := by
  induction fuel generalizing i prev rest with
  | zero => simp [console.argumentsFrom]
  | succ fuel ih =>
    unfold console.argumentsFrom
    have hblanks := h.dropBlanks hvalid
    dsimp only
    generalize i + (rest.takeWhile isBlank).length = j
    generalize (rest.takeWhile isBlank).getLast?.or prev = prev'
    cases hline : rest.dropWhile isBlank with
    | nil => simp
    | cons c rest =>
      rw [hline] at hblanks
      dsimp only
      have hjson : ∀ n, (if opensJson c then lib.jsonArgument (c :: rest) else none) = some n →
          lib.jsonArgument (c :: rest) = some n := fun n heq => (Option.ite_none_right_eq_some.mp heq).2
      generalize (if opensJson c then lib.jsonArgument (c :: rest) else none) = value at hjson ⊢
      split
      · simp
      · split
        · rename_i hblock
          obtain ⟨-, rfl, hstar⟩ := hblock
          cases rest with
          | nil => exact absurd hstar (by decide)
          | cons c' rest =>
            have hc' : c' = star := hstar
            subst hc'
            have hcomment : blockComment (slash :: star :: rest) = star :: rest := by
              simp [blockComment, show ¬ star = slash by decide, show ¬ slash = star by decide]
            rw [hcomment]
            have hrest := (h.cons (by decide) rest).mp ((h.cons (by decide) (star :: rest)).mp hblanks)
            exact ih _ _ (h.character rest hrest)
        · cases value with
          | some n =>
            obtain ⟨hvalue, hrest⟩ := h.value _ n hblanks (hjson n rfl)
            exact List.forall_mem_cons.mpr ⟨hvalue, ih _ _ hrest⟩
          | none =>
            dsimp only
            split
            · rename_i hquote
              rw [hquote] at hblanks
              have hrest := (h.cons (by decide) rest).mp hblanks
              obtain ⟨htext, hrest⟩ := h.quotedString false [] hrest
              exact List.forall_mem_cons.mpr ⟨htext, ih _ _ hrest⟩
            · cases hunquoted : console.unquotedString prev' (c :: rest) with
              | none => simp
              | some result =>
                obtain ⟨text, rest'⟩ := result
                obtain ⟨htext, hrest⟩ := h.unquotedString hblanks hunquoted
                dsimp only
                split
                · exact ih _ _ hrest
                · exact List.forall_mem_cons.mpr ⟨htext, ih _ _ hrest⟩

theorem Libraries.Lawful.arguments (h : lib.Lawful) (command : Text) :
    ∀ text ∈ arguments lib command, lib.validUtf8 text = true := by
  intro text hmem
  obtain ⟨arg, harg, rfl⟩ := List.mem_map.mp hmem
  unfold tokenize at harg
  split at harg
  · rename_i hvalid
    exact h.argumentsFrom _ _ _ hvalid arg harg
  · cases harg

theorem Libraries.Lawful.literal (h : lib.Lawful) {text : Text} (hascii : ∀ c ∈ text, c.toNat < 128) :
    lib.validUtf8 text = true := by
  induction text with
  | nil => exact h.empty
  | cons c text ih =>
    obtain ⟨hc, htext⟩ := List.forall_mem_cons.mp hascii
    exact (h.cons hc text).mpr (ih htext)

/-- Lines of UTF-8 names and values are UTF-8. -/
theorem Libraries.Lawful.line_append (h : lib.Lawful) {convar : ConVar} (hname : lib.validUtf8 convar.name = true)
    (hsaved : lib.validUtf8 convar.saved = true) {rest : Text} (hrest : lib.validUtf8 rest = true) :
    lib.validUtf8 (writeLine convar.line ++ rest) = true := by
  rw [console.line_append, h.ascii _ _ quote (by decide), h.ascii _ _ quote (by decide), h.cons (by decide),
    h.cons (by decide), h.ascii _ _ quote (by decide), h.cons (by decide), h.cons (by decide)]
  exact ⟨h.literal (by decide), hname, hsaved, hrest⟩

theorem Libraries.Lawful.variableLines (h : lib.Lawful) {convars : List ConVar}
    (hvalid : ∀ convar ∈ convars, lib.validUtf8 convar.name = true ∧ lib.validUtf8 convar.saved = true) :
    lib.validUtf8 (variableLines convars) = true := by
  induction convars with
  | nil => exact h.empty
  | cons convar convars ih =>
    obtain ⟨⟨hname, hsaved⟩, hothers⟩ := List.forall_mem_cons.mp hvalid
    exact h.line_append hname hsaved (ih hothers)

/-- A command is UTF-8 if the buffer that it is taken from is. -/
theorem Libraries.Lawful.command (h : lib.Lawful) {text : Text} (hvalid : lib.validUtf8 text = true) :
    lib.validUtf8 (text.take (commandLength lib 0 false text)) = true := by
  have hend := commandLength_end lib 0 false text
  generalize commandLength lib 0 false text = i at hend ⊢
  rcases Nat.lt_or_ge i text.length with hlt | hge
  · have hascii : text[i].toNat < 128 := by
      rcases hend _ (List.getElem?_eq_getElem hlt) with hc | hc
      · rw [hc]
        decide
      · simp only [isNewline, decide_eq_true_eq] at hc
        rcases hc with hc | hc <;> rw [hc] <;> decide
    rw [← List.take_append_drop i text, List.drop_eq_getElem_cons hlt, h.ascii _ _ _ hascii] at hvalid
    exact hvalid.1
  · rwa [List.take_of_length_le hge]

end Utf8

/-- Characters that are neither quotes, braces nor ends of commands. -/
theorem commandLength_plain (lib : Libraries) {text : Text}
    (hplain : ∀ c ∈ text, c ≠ quote ∧ ¬ opensJson c ∧ c ≠ semicolon ∧ isNewline c = false) (rest : Text) :
    commandLength lib 0 false (text ++ rest) = text.length + commandLength lib 0 false rest := by
  induction text with
  | nil => rw [List.nil_append, List.length_nil, Nat.zero_add]
  | cons c text ih =>
    obtain ⟨⟨hquote, hjson, hsemicolon, hline⟩, htext⟩ := List.forall_mem_cons.mp hplain
    rw [List.cons_append, commandLength, if_neg (fun h => hjson h.2)]
    simp [hquote, hsemicolon, hline, ih htext]
    omega

/-- The arguments of a line of `seta` begin with its name and with the text in the first quotes. -/
theorem arguments_seta {lib : Libraries} {text : Text}
    (hvalid : lib.validUtf8 (literal "seta" ++ 32 :: quote :: text) = true) :
    ∃ i, arguments lib (literal "seta" ++ 32 :: quote :: text) = literal "seta" :: (quotedString false text).1 ::
      (argumentsFrom lib (text.length + 5) i (some quote) (quotedString false text).2.2).map Argument.text := by
  refine ⟨6 + (quotedString false text).2.1, ?_⟩
  rw [arguments, tokenize, if_pos hvalid]
  rfl

theorem argumentsFrom_quoted (lib : Libraries) (fuel i : Nat) (prev : Option Byte) (text : Text) :
    (argumentsFrom lib (fuel + 1) i prev (32 :: quote :: text)).map Argument.text = (quotedString false text).1 ::
      (argumentsFrom lib fuel (i + 2 + (quotedString false text).2.1) (some quote) (quotedString false text).2.2).map
        Argument.text := rfl

theorem argumentsFrom_nil (lib : Libraries) (fuel i : Nat) (prev : Option Byte) :
    argumentsFrom lib fuel i prev [] = [] := by
  cases fuel <;> rfl

theorem commandLength_name (lib : Libraries) (text : Text) :
    commandLength lib 0 false (literal "seta " ++ quote :: text) = 6 + commandLength lib 0 true text := by
  rw [commandLength_plain lib (by decide), commandLength_quote, Bool.not_false]
  change 5 + _ = _
  omega

theorem commandLength_value (lib : Libraries) {name : Text} (h : Clean name) (text : Text) :
    commandLength lib 0 true (name ++ quote :: 32 :: quote :: text) = name.length + 3 +
      commandLength lib 0 true text := by
  have hblank : commandLength lib 0 false ([32] ++ quote :: text) = 1 + commandLength lib 0 false (quote :: text) :=
    commandLength_plain lib (by decide) _
  rw [commandLength_quoted lib _ h, ← List.singleton_append, hblank, commandLength_quote, Bool.not_false]
  omega

theorem commandLength_line (lib : Libraries) {value : Text} (h : Clean value) (rest : Text) :
    commandLength lib 0 true (value ++ quote :: 13 :: rest) = value.length + 1 := by
  rw [commandLength_quoted lib _ h, commandLength, if_neg (by decide)]
  rfl

theorem take_name (name : Text) (n : Nat) :
    (literal "seta " ++ quote :: name).take (6 + n) = literal "seta" ++ 32 :: quote :: name.take n := by
  have hlength : (literal "seta " ++ [quote]).length = 6 := by decide
  rw [List.append_cons, ← hlength, List.take_length_add_append]
  rfl

theorem invocations_cons (lib : Libraries) {command text : Text} {args : List Text}
    (h : arguments lib command = text :: args) (commands : List Text) :
    invocations lib (command :: commands) = (text :: args) :: invocations lib commands := by
  rw [invocations, List.map_cons, h]
  exact List.filter_cons_of_pos rfl

/-- The first command of a line of a variable. -/
theorem invocations_line {lib : Libraries} (hlib : lib.Lawful) {convar : ConVar}
    (hname : lib.validUtf8 convar.name = true) (hsaved : lib.validUtf8 convar.saved = true) {rest : Text}
    (hrest : lib.validUtf8 rest = true) :
    let text := convar.name ++ quote :: 32 :: quote :: (convar.saved ++ quote :: 13 :: 10 :: rest)
    let length := commandLength lib 0 true text
    let argument := quotedString false (text.take length)
    ∃ i, invocations lib (pieces (commandLength lib 0 false) (writeLine convar.line ++ rest)) =
      (literal "seta" :: argument.1 ::
        (argumentsFrom lib ((text.take length).length + 5) i (some quote) argument.2.2).map Argument.text) ::
          invocations lib (pieces (commandLength lib 0 false) (text.drop (length + 1))) := by
  intro text length argument
  have hvalid := hlib.command (hlib.line_append hname hsaved hrest)
  have hpieces := @pieces_cons _ (commandLength lib 0 false) (writeLine convar.line ++ rest) (by simp [writeLine])
  rw [line_append, commandLength_name] at hvalid hpieces
  rw [take_name] at hvalid hpieces
  obtain ⟨i, hargs⟩ := arguments_seta hvalid
  have hdrop : (literal "seta " ++ quote :: text).drop (6 + length + 1) = text.drop (length + 1) := by
    have hlength : (literal "seta " ++ [quote]).length = 6 := by decide
    rw [List.append_cons, Nat.add_assoc, ← hlength, List.drop_length_add_append]
  refine ⟨i, ?_⟩
  rw [line_append, hpieces, invocations_cons lib hargs, hdrop]

theorem take_value (lib : Libraries) {name : Text} (h : Clean name) (value : Text) :
    (name ++ quote :: 32 :: quote :: value).take (commandLength lib 0 true (name ++ quote :: 32 :: quote :: value)) =
      name ++ quote :: 32 :: quote :: value.take (commandLength lib 0 true value) := by
  rw [commandLength_value lib h, Nat.add_assoc, List.take_length_add_append, Nat.add_comm 3]
  rfl

theorem take_line (lib : Libraries) {value : Text} (h : Clean value) (rest : Text) :
    (value ++ quote :: 13 :: rest).take (commandLength lib 0 true (value ++ quote :: 13 :: rest)) = value ++
      [quote] := by
  rw [commandLength_line lib h, List.take_length_add_append]
  rfl

theorem commandLength_newline (lib : Libraries) {c : Byte} (hc : isNewline c = true) (rest : Text) :
    commandLength lib 0 false (c :: rest) = 0 := by
  have hcases : c = 13 ∨ c = 10 := by simpa [isNewline] using hc
  rcases hcases with rfl | rfl
  · rw [commandLength, if_neg (by decide)]
    rfl
  · rw [commandLength, if_neg (by decide)]
    rfl

/-- Between the two characters at the end of a line stands an empty command. -/
theorem invocations_lineFeed {lib : Libraries} (hlib : lib.Lawful) (rest : Text) :
    invocations lib (pieces (commandLength lib 0 false) (10 :: rest)) =
      invocations lib (pieces (commandLength lib 0 false) rest) := by
  have hempty : arguments lib [] = [] := by
    rw [arguments, tokenize, if_pos hlib.empty, argumentsFrom_nil, List.map_nil]
  rw [pieces_cons (List.cons_ne_nil _ _), commandLength_newline lib (by decide), List.take_zero, List.drop_succ_cons,
    List.drop_zero, invocations, List.map_cons, hempty]
  rfl

/-- If the first command of a line sets the variable, then its name and value are clean. -/
theorem clean_of_invocations {lib : Libraries} (hlib : lib.Lawful) {convar : ConVar}
    (hname : lib.validUtf8 convar.name = true) (hsaved : lib.validUtf8 convar.saved = true) {rest : Text}
    (hrest : lib.validUtf8 rest = true) {others : List (List Text)}
    (h : invocations lib (pieces (commandLength lib 0 false) (writeLine convar.line ++ rest)) =
      [literal "seta", convar.name, convar.saved] :: others) : Clean convar.name ∧ Clean convar.saved := by
  obtain ⟨i, hline⟩ := invocations_line hlib hname hsaved hrest
  rw [h, List.cons.injEq, List.cons.injEq, List.cons.injEq] at hline
  obtain ⟨⟨-, hfirst, hsecond⟩, -⟩ := hline
  have hclean := clean_of_argument lib _ hfirst.symm
  refine ⟨hclean, clean_of_argument lib (13 :: 10 :: rest) ?_⟩
  rw [take_value lib hclean, quotedString_clean _ hclean] at hsecond
  exact (List.cons.inj (hsecond.trans (argumentsFrom_quoted lib _ i (some quote) _))).1.symm

/-- A line of a clean name and value sets the variable. -/
theorem invocations_clean {lib : Libraries} (hlib : lib.Lawful) {convar : ConVar}
    (hname : lib.validUtf8 convar.name = true) (hsaved : lib.validUtf8 convar.saved = true) {rest : Text}
    (hrest : lib.validUtf8 rest = true) (hcleanName : Clean convar.name) (hcleanSaved : Clean convar.saved) :
    invocations lib (pieces (commandLength lib 0 false) (writeLine convar.line ++ rest)) =
      [literal "seta", convar.name, convar.saved] :: invocations lib (pieces (commandLength lib 0 false) rest) := by
  obtain ⟨i, hline⟩ := invocations_line hlib hname hsaved hrest
  rw [hline, take_value lib hcleanName, take_line lib hcleanSaved, quotedString_clean _ hcleanName,
    argumentsFrom_quoted, quotedString_clean [] hcleanSaved, argumentsFrom_nil, commandLength_value lib hcleanName,
    commandLength_line lib hcleanSaved]
  have hdrop : (convar.name ++ quote :: 32 :: quote :: (convar.saved ++ quote :: 13 :: 10 :: rest)).drop
      (convar.name.length + 3 + (convar.saved.length + 1) + 1) = 10 :: rest := by
    rw [show convar.name.length + 3 + (convar.saved.length + 1) + 1 =
      convar.name.length + ((convar.saved.length + 2) + 1 + 1 + 1) by omega, List.drop_length_add_append,
      List.drop_succ_cons, List.drop_succ_cons, List.drop_succ_cons, List.drop_length_add_append]
    rfl
  rw [hdrop, invocations_lineFeed hlib]
  rfl

/-- The lines set the variables exactly when all the names and values are clean. -/
theorem invocations_variableLines {lib : Libraries} (hlib : lib.Lawful) {convars : List ConVar}
    (hvalid : ∀ convar ∈ convars, lib.validUtf8 convar.name = true ∧ lib.validUtf8 convar.saved = true) :
    invocations lib (pieces (commandLength lib 0 false) (variableLines convars)) =
        convars.map (fun convar => [literal "seta", convar.name, convar.saved]) ↔
      ∀ convar ∈ convars, Clean convar.name ∧ Clean convar.saved := by
  induction convars with
  | nil => simp [variableLines, invocations]
  | cons convar convars ih =>
    obtain ⟨⟨hname, hsaved⟩, hothers⟩ := List.forall_mem_cons.mp hvalid
    have hrest := hlib.variableLines hothers
    rw [List.forall_mem_cons, ← ih hothers, variableLines, List.flatMap_cons, List.map_cons]
    constructor
    · intro h
      have hclean := clean_of_invocations hlib hname hsaved hrest h
      refine ⟨hclean, ?_⟩
      exact (List.cons.inj ((invocations_clean hlib hname hsaved hrest hclean.1 hclean.2).symm.trans h)).2
    · rintro ⟨⟨hcleanName, hcleanSaved⟩, heq⟩
      rw [← heq]
      exact invocations_clean hlib hname hsaved hrest hcleanName hcleanSaved

/-- The first line is a comment. -/
theorem invocations_saveConfiguration {lib : Libraries} (hlib : lib.Lawful) (archive : Archive) :
    invocations lib (pieces (commandLength lib 0 false) archive.saveConfiguration) =
      invocations lib (pieces (commandLength lib 0 false) (variableLines archive.convars)) := by
  have htext : archive.saveConfiguration =
      literal "// generated by CitizenFX" ++ 13 :: 10 :: variableLines archive.convars := by
    simp [Archive.saveConfiguration, writeLine]
  have hcomment : arguments lib (literal "// generated by CitizenFX") = [] := by
    rw [arguments, tokenize, if_pos (hlib.literal (by decide +kernel))]
    rfl
  rw [htext, pieces_cons (by simp), commandLength_plain lib (by decide +kernel), commandLength_newline lib (by decide),
    Nat.add_zero, List.take_left, List.drop_length_add_append, List.drop_succ_cons, List.drop_zero, invocations,
    List.map_cons, hcomment, List.filter_cons_of_neg (by simp)]
  exact invocations_lineFeed hlib _

theorem foldl_invoke (other : List Entry → List Text → List Entry) {convars : List ConVar} {entries : List Entry}
    (hdistinct : convars.Pairwise fun left right => ¬ sameName left.name right.name)
    (hnew : ∀ entry ∈ entries, ∀ convar ∈ convars, ¬ sameName entry.name convar.name) :
    (convars.map fun convar => [literal "seta", convar.name, convar.saved]).foldl (invoke other) entries =
      entries ++ convars.map fun convar => { name := convar.name, value := convar.saved, archived := true } := by
  induction convars generalizing entries with
  | nil => simp
  | cons convar convars ih =>
    obtain ⟨hfirst, hdistinct⟩ := List.pairwise_cons.mp hdistinct
    have hset : invoke other entries [literal "seta", convar.name, convar.saved] =
        entries ++ [{ name := convar.name, value := convar.saved, archived := true }] := by
      have hnone : ¬ entries.any (fun entry => decide (sameName entry.name convar.name)) = true := by
        simp only [List.any_eq_true, decide_eq_true_eq, not_exists, not_and]
        exact fun entry hentry => hnew entry hentry convar List.mem_cons_self
      rw [invoke, if_pos (show sameName (literal "seta") (literal "seta") from rfl), setArchived, if_neg hnone]
    rw [List.map_cons, List.foldl_cons, hset, ih hdistinct]
    · rw [List.append_assoc, List.singleton_append, List.map_cons]
    · intro entry hentry convar' hmem
      rcases List.mem_append.mp hentry with hold | hnew'
      · exact hnew entry hold convar' (List.mem_cons_of_mem _ hmem)
      · rw [List.mem_singleton.mp hnew']
        exact hfirst convar' hmem

/-- The saved lines recreate the variables exactly when no name or value holds a quote or a newline or ends in a
backslash, and all are UTF-8. -/
theorem reload_iff {lib : Libraries} (hlib : lib.Lawful) (other : List Entry → List Text → List Entry)
    (archive : Archive) :
    archive.Reloads lib other ↔ ∀ convar ∈ archive.convars, ∀ text ∈ [convar.name, convar.saved],
      Clean text ∧ lib.validUtf8 text = true := by
  have hcommands : ∀ calls : List Bool, archive.saveConfiguration.length ≤ calls.count false →
      invocations lib (Context.run lib { commandBuffer := archive.saveConfiguration } calls).executed =
        invocations lib (pieces (commandLength lib 0 false) (variableLines archive.convars)) := by
    intro calls hcalls
    rw [Context.run_executed lib hcalls, invocations_saveConfiguration hlib]
  simp only [List.forall_mem_cons, List.not_mem_nil, false_implies, forall_const, and_true]
  constructor
  · intro h
    have hcalls : archive.saveConfiguration.length ≤
      (List.replicate archive.saveConfiguration.length false).count false := by
      rw [List.count_replicate_self]
    obtain ⟨hset, -⟩ := h _ hcalls
    have hvalid : ∀ convar ∈ archive.convars, lib.validUtf8 convar.name = true ∧
      lib.validUtf8 convar.saved = true := by
      intro convar hmem
      have hargs := List.mem_map_of_mem (f := fun convar : ConVar => [literal "seta", convar.name, convar.saved]) hmem
      rw [← hset] at hargs
      obtain ⟨command, -, hcommand⟩ := List.mem_map.mp (List.mem_filter.mp hargs).1
      constructor
      · exact hlib.arguments command _ (hcommand ▸ by simp)
      · exact hlib.arguments command _ (hcommand ▸ by simp)
    rw [hcommands _ hcalls, invocations_variableLines hlib hvalid] at hset
    exact fun convar hmem =>
      ⟨⟨(hset convar hmem).1, (hvalid convar hmem).1⟩, (hset convar hmem).2, (hvalid convar hmem).2⟩
  · intro h calls hcalls
    have hset := (invocations_variableLines hlib fun convar hmem => ⟨(h convar hmem).1.2, (h convar hmem).2.2⟩).mpr
      fun convar hmem => ⟨(h convar hmem).1.1, (h convar hmem).2.1⟩
    dsimp only
    rw [hcommands calls hcalls, hset]
    exact ⟨rfl, foldl_invoke other archive.distinct (by simp)⟩

theorem asciiLibraries_lawful : asciiLibraries.Lawful where
  empty := rfl
  ascii text rest c hc := by simp [asciiLibraries, hc]
  character text hvalid := by
    simp only [asciiLibraries, List.all_eq_true, decide_eq_true_eq] at hvalid ⊢
    exact fun c hmem => hvalid c ((afterCharacter_suffix text).subset hmem)
  value _ _ _ h := by cases h

/-- Two variables, one of them replicated. Semicolons in a value are kept. -/
theorem reload_sample : Archive.Reloads asciiLibraries (fun entries _ => entries)
    { convars := [{ name := literal "sv_motd", value := literal "hi; all", offlineValue := [], replicated := false },
        { name := literal "game", value := [], offlineValue := literal "gta5", replicated := true }],
      distinct := by decide } :=
  (reload_iff asciiLibraries_lawful _ _).mpr (by decide +kernel)

/-- A single command sets the variable, and its saved line invokes `quit`. -/
theorem reload_escaped : ∃ archive : Archive,
    archive.convars = [{
      name := literal "x", value := literal "1\";quit;\""
      offlineValue := [], replicated := false }] ∧
      arguments asciiLibraries (literal "seta x \"1\\\";quit;\\\"\"") =
        [literal "seta", literal "x", literal "1\";quit;\""] ∧
      [literal "quit"] ∈ invocations asciiLibraries
        (Context.run asciiLibraries { commandBuffer := archive.saveConfiguration }
          (List.replicate archive.saveConfiguration.length false)).executed ∧
      ¬ archive.Reloads asciiLibraries (fun entries _ => entries) := by
  refine ⟨⟨_, List.pairwise_singleton _ _⟩, rfl, by decide +kernel, ?_⟩
  generalize hinvoked : invocations asciiLibraries _ = invoked
  have hthree : invoked = [[literal "seta", literal "x", literal "1"], [literal "quit"], [[]]] := by
    rw [← hinvoked]
    decide +kernel
  refine ⟨?_, fun h => ?_⟩
  · rw [hthree]
    simp
  · have hset := hinvoked.symm.trans (h (List.replicate _ false) (by rw [List.count_replicate_self])).1
    rw [hthree] at hset
    exact absurd hset (by decide)

end console
