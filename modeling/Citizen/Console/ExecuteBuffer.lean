import Citizen.Console.Tokenize
import Citizen.Lib.FirstIndex

open Bits Pieces

namespace console

/-- The characters of a string literal. -/
def literal (s : String) : Text := s.toList.map fun c => BitVec.ofNat 8 c.toNat

def semicolon : Byte := 59

def isNewline (c : Byte) : Bool := c = 13 ∨ c = 10

/-- `isspace` in the C locale, for `trim_left`. -/
def isSpace (c : Byte) : Bool := c.toNat = 32 ∨ (9 ≤ c.toNat ∧ c.toNat ≤ 13)

/-- The loop of `ExecuteBuffer` to the end of a command: how many characters the command has. `skip` counts those of
a JSON value that are left. -/
def commandLength (lib : Libraries) : Nat → Bool → Text → Nat
  | _, _, [] => 0
  | skip + 1, inQuote, _ :: rest => commandLength lib skip inQuote rest + 1
  | 0, inQuote, c :: rest =>
    match if inQuote = false ∧ opensJson c then lib.json (c :: rest) else none with
    | some n => commandLength lib (n - 1) inQuote rest + 1
    | none =>
      let inQuote := if c = quote then !inQuote else inQuote
      if inQuote = false ∧ c = semicolon then 0
      else if isNewline c then 0
      else commandLength lib 0 inQuote rest + 1

def isWait (command : Text) : Bool := (literal "wait").isPrefixOf (command.dropWhile isSpace)

/-- The loop of `ExecuteBuffer` over the buffer: the commands to execute, and what is left in the buffer after a
`wait`. Each turn takes a character, so that `fuel` is the length of the buffer. -/
def parseBuffer (lib : Libraries) : Nat → Text → List Text × Text
  | 0, buffer => ([], buffer)
  | fuel + 1, buffer =>
    if buffer = [] then ([], [])
    else
      let i := commandLength lib 0 false buffer
      let command := buffer.take i
      let buffer := buffer.drop (i + 1)
      if isWait command then ([command], buffer)
      else
        let (commands, buffer) := parseBuffer lib fuel buffer
        (command :: commands, buffer)

/-- The buffer, and the commands that have been executed. -/
structure Context where
  commandBuffer : Text
  executed : List Text := []

/-- `ExecuteBuffer`. A call does nothing while a `wait` lasts. -/
def Context.executeBuffer (lib : Libraries) (c : Context) (waiting : Bool) : Context :=
  if waiting then c
  else
    let (commands, commandBuffer) := parseBuffer lib c.commandBuffer.length c.commandBuffer
    { commandBuffer, executed := c.executed ++ commands }

/-- Calls of `ExecuteBuffer`, some of them while a `wait` lasts. -/
def Context.run (lib : Libraries) (c : Context) (calls : List Bool) : Context := calls.foldl (executeBuffer lib) c

/-- The line that a command stands in. -/
def lineOf (text : Text) : Text := text.takeWhile fun c => !isNewline c

/-- A command should end here: at a newline, or at a semicolon that is not part of a quoted argument. -/
def endsCommand (lib : Libraries) (text : Text) (i : Nat) : Bool :=
  (text[i]?).any fun c => isNewline c || (c == semicolon && !decide (Quoted lib (lineOf text) i))

/-- How many characters a command should have. -/
def cutLength (lib : Libraries) (text : Text) : Nat := firstIndex (endsCommand lib text) text.length

/-- The calls execute the commands between the cuts, in order and once each. -/
def ExecutesPieces (lib : Libraries) (text : Text) : Prop :=
  ∀ calls : List Bool,
    (Context.run lib { commandBuffer := text } calls).executed <+: pieces (cutLength lib) text ∧
      (text.length ≤ calls.count false →
        (Context.run lib { commandBuffer := text } calls).executed = pieces (cutLength lib) text)

/-- Before each semicolon of a command, an even number of quotes do not stand around an argument. -/
def StrayQuotesPaired (lib : Libraries) (text : Text) : Prop :=
  ∀ rest ∈ starts (cutLength lib) text.length text, ∀ i ≤ cutLength lib rest, rest[i]? = some semicolon →
    strayQuotes lib (lineOf rest) i % 2 = 0

/-- The code ends a command here: at a newline, or at a semicolon after an even number of quotes. -/
def endsQuotes (inQuote : Bool) (text : Text) (i : Nat) : Bool :=
  (text[i]?).any fun c =>
    isNewline c || (c == semicolon && decide ((text.take i).count quote % 2 = if inQuote then 1 else 0))

theorem endsQuotes_cons (inQuote : Bool) (c : Byte) (text : Text) (i : Nat) :
    endsQuotes inQuote (c :: text) (i + 1) = endsQuotes (if c = quote then !inQuote else inQuote) text i := by
  unfold endsQuotes
  rw [List.getElem?_cons_succ, List.take_succ_cons, List.count_cons]
  congr 1
  funext c'
  by_cases hquote : c = quote
  · cases inQuote
    · have hodd : ((text.take i).count quote + 1) % 2 = 0 ↔ (text.take i).count quote % 2 = 1 := by omega
      simp [hquote, hodd]
    · have hodd : ((text.take i).count quote + 1) % 2 = 1 ↔ (text.take i).count quote % 2 = 0 := by omega
      simp [hquote, hodd]
  · simp [hquote]

theorem endsQuotes_zero (inQuote : Bool) (c : Byte) (text : Text) :
    endsQuotes inQuote (c :: text) 0 = (isNewline c || (c == semicolon && !inQuote)) := by
  cases inQuote <;> simp [endsQuotes]

/-- Without JSON values, the loop stops at the first end of a command. -/
theorem commandLength_eq (lib : Libraries) (inQuote : Bool) {text : Text} (hplain : ∀ c ∈ text, ¬ opensJson c) :
    commandLength lib 0 inQuote text = firstIndex (endsQuotes inQuote text) text.length := by
  induction text generalizing inQuote with
  | nil => rfl
  | cons c text ih =>
    have hhere := hplain c List.mem_cons_self
    have hnext := fun inQuote => ih inQuote fun c' hc' => hplain c' (List.mem_cons_of_mem c hc')
    rw [List.length_cons, FirstIndex.succ, endsQuotes_zero, commandLength, if_neg (fun h => hhere h.2)]
    simp only [endsQuotes_cons]
    by_cases hquote : c = quote
    · subst hquote
      have hnot : ¬ (quote = semicolon) := by decide
      have hline : isNewline quote = false := by decide
      simp [hnot, hline, hnext]
    · rw [if_neg hquote]
      by_cases hsemicolon : c = semicolon
      · subst hsemicolon
        have hline : isNewline semicolon = false := by decide
        cases inQuote
        · simp
        · simp [hline, hnext]
      · cases hline : isNewline c
        · simp [hsemicolon, hnext]
        · simp [hsemicolon]

theorem cutLength_le (lib : Libraries) (text : Text) : cutLength lib text ≤ text.length := FirstIndex.le _ _

theorem commandLength_le (lib : Libraries) (skip : Nat) (inQuote : Bool) (text : Text) :
    commandLength lib skip inQuote text ≤ text.length := by
  induction text generalizing skip inQuote with
  | nil => simp [commandLength]
  | cons c text ih =>
    cases skip with
    | succ skip => exact Nat.succ_le_succ (ih _ _)
    | zero =>
      unfold commandLength
      split
      · exact Nat.succ_le_succ (ih _ _)
      · dsimp only
        split_ifs
        · exact Nat.zero_le _
        · exact Nat.zero_le _
        · exact Nat.succ_le_succ (ih _ _)
        · exact Nat.zero_le _
        · exact Nat.zero_le _
        · exact Nat.succ_le_succ (ih _ _)

theorem mem_of_mem_starts {cut : Text → Nat} {text rest : Text} {fuel : Nat} (h : rest ∈ starts cut fuel text) :
    rest <:+ text := by
  induction fuel generalizing text with
  | zero => cases h
  | succ fuel ih =>
    unfold starts at h
    split at h
    · cases h
    · rcases List.mem_cons.mp h with rfl | hmem
      · exact List.suffix_rfl
      · exact (ih hmem).trans (List.drop_suffix _ _)

/-- Up to the end of a command, no newline stands in it. -/
theorem lineOf_before {lib : Libraries} {text : Text} {i : Nat} (hle : i ≤ cutLength lib text) (hi : i < text.length)
    (hline : isNewline text[i] = false) : i < (lineOf text).length := by
  have hbefore : ∀ j ≤ i, (hj : j < text.length) → isNewline text[j] = false := by
    intro j hj hlt
    rcases Nat.lt_or_eq_of_le hj with hless | rfl
    · have hend : endsCommand lib text j = false := FirstIndex.test_eq_false (hless.trans_le hle)
      simp only [endsCommand, List.getElem?_eq_getElem hlt, Option.any_some, Bool.or_eq_false_iff] at hend
      exact hend.1
    · exact hline
  have htake : text.take (i + 1) <+: lineOf text := by
    unfold lineOf
    rw [← List.take_append_drop (i + 1) text, List.takeWhile_append_of_pos]
    · simp
    · intro c hc
      obtain ⟨j, hj, rfl⟩ := List.getElem_of_mem hc
      rw [List.length_take] at hj
      rw [List.getElem_take, hbefore j (by omega)]
      rfl
  have hlength := htake.length_le
  rw [List.length_take] at hlength
  omega

theorem lineOf_begins (text : Text) : lineOf text <+: text := List.takeWhile_prefix _

theorem prefix_agrees {l l' : Text} (h : l <+: l') {i : Nat} (hi : i < l.length) :
    l[i]? = l'[i]? ∧ l.take i = l'.take i := by
  obtain ⟨more, rfl⟩ := h
  exact ⟨(List.getElem?_append_left hi).symm, (List.take_append_of_le_length hi.le).symm⟩

/-- At a semicolon, the code and the tokenizer agree when the stray quotes before it are paired. -/
theorem endsQuotes_eq_iff {lib : Libraries} {text : Text} {i : Nat} (hle : i ≤ cutLength lib text)
    (hi : i < text.length) :
    endsQuotes false text i = endsCommand lib text i ↔
      (text[i]? = some semicolon → strayQuotes lib (lineOf text) i % 2 = 0) := by
  rw [List.getElem?_eq_getElem hi]
  by_cases hsemicolon : text[i] = semicolon
  · have hline : isNewline text[i] = false := by
      rw [hsemicolon]
      decide
    have hlt := lineOf_before hle hi hline
    obtain ⟨hsame, htake⟩ := prefix_agrees (lineOf_begins text) hlt
    have hget : (lineOf text)[i]? = some semicolon := by rw [hsame, List.getElem?_eq_getElem hi, hsemicolon]
    have hquoted : _ ↔ Quoted lib (lineOf text) i :=
      (spans_tokenize lib (lineOf text)).odd_iff hlt (by rw [hget]; decide)
    have hcount := count_quote lib (lineOf text) hlt.le
    have hnot : isNewline semicolon = false := by decide
    simp only [endsQuotes, endsCommand, List.getElem?_eq_getElem hi, Option.any_some, hsemicolon, hnot, Bool.false_or,
      beq_self_eq_true, Bool.true_and, ← htake, forall_const, hcount]
    generalize (delimiters (tokenize lib (lineOf text))).countP (· < i) = k at hquoted ⊢
    by_cases hq : Quoted lib (lineOf text) i
    · have hodd := hquoted.mpr hq
      simp [hq]
      omega
    · have heven : k % 2 ≠ 1 := fun h => hq (hquoted.mp h)
      simp [hq]
      omega
  · simp only [endsQuotes, endsCommand, List.getElem?_eq_getElem hi, Option.any_some, Option.some.injEq, hsemicolon,
      IsEmpty.forall_iff, beq_eq_false_iff_ne.mpr hsemicolon, Bool.false_and]

/-- The code cuts at the right places exactly when the stray quotes are paired. -/
theorem pieces_iff {lib : Libraries} {text : Text} (hplain : ∀ c ∈ text, ¬ opensJson c) :
    pieces (commandLength lib 0 false) text = pieces (cutLength lib) text ↔ StrayQuotesPaired lib text := by
  rw [pieces_eq_iff (commandLength_le lib 0 false) (cutLength_le lib)]
  refine forall₂_congr fun rest hrest => ?_
  rw [commandLength_eq lib false fun c hc => hplain c ((mem_of_mem_starts hrest).subset hc), cutLength,
    FirstIndex.eq_iff]
  refine forall₂_congr fun i hle => ?_
  constructor
  · intro h hget
    obtain ⟨hi, -⟩ := List.getElem?_eq_some_iff.mp hget
    exact (endsQuotes_eq_iff hle hi).mp (h hi) hget
  · intro h hi
    exact (endsQuotes_eq_iff hle hi).mpr h

/-- A call executes the first pieces of the buffer and leaves the others in it. -/
theorem parseBuffer_spec (lib : Libraries) {fuel : Nat} {buffer : Text} (hfuel : buffer.length ≤ fuel) :
    (parseBuffer lib fuel buffer).1 ++ pieces (commandLength lib 0 false) (parseBuffer lib fuel buffer).2 =
        pieces (commandLength lib 0 false) buffer ∧
      (parseBuffer lib fuel buffer).2.length ≤ buffer.length - 1 := by
  induction fuel generalizing buffer with
  | zero =>
    rw [List.length_eq_zero_iff.mp (Nat.le_zero.mp hfuel)]
    exact ⟨rfl, le_rfl⟩
  | succ fuel ih =>
    unfold parseBuffer
    by_cases hempty : buffer = []
    · rw [if_pos hempty, hempty]
      exact ⟨rfl, le_rfl⟩
    · rw [if_neg hempty, pieces_cons hempty]
      dsimp only
      have hdrop : (buffer.drop (commandLength lib 0 false buffer + 1)).length ≤ buffer.length - 1 := by
        rw [List.length_drop]
        omega
      obtain ⟨hpieces, hlength⟩ := @ih (buffer.drop (commandLength lib 0 false buffer + 1)) (by omega)
      split
      · exact ⟨rfl, hdrop⟩
      · refine ⟨?_, hlength.trans (by omega)⟩
        rw [List.cons_append, hpieces]

namespace Context

theorem executeBuffer_spec (lib : Libraries) (c : Context) (waiting : Bool) :
    (c.executeBuffer lib waiting).executed ++ pieces (commandLength lib 0 false)
        (c.executeBuffer lib waiting).commandBuffer = c.executed ++ pieces (commandLength lib 0 false)
          c.commandBuffer ∧
      (c.executeBuffer lib waiting).commandBuffer.length ≤ c.commandBuffer.length - if waiting then 0 else 1 := by
  unfold executeBuffer
  cases waiting with
  | true => exact ⟨rfl, le_rfl⟩
  | false =>
    obtain ⟨hpieces, hlength⟩ := parseBuffer_spec lib (le_refl c.commandBuffer.length)
    refine ⟨?_, hlength⟩
    dsimp only
    rw [if_neg (by simp), List.append_assoc, hpieces]

/-- The commands that have been executed, with those of the buffer, are the pieces of the text. -/
theorem run_spec (lib : Libraries) (c : Context) (calls : List Bool) :
    (c.run lib calls).executed ++ pieces (commandLength lib 0 false) (c.run lib calls).commandBuffer =
        c.executed ++ pieces (commandLength lib 0 false) c.commandBuffer ∧
      (c.run lib calls).commandBuffer.length ≤ c.commandBuffer.length - calls.count false := by
  induction calls generalizing c with
  | nil => exact ⟨rfl, le_rfl⟩
  | cons waiting calls ih =>
    obtain ⟨hpieces, hlength⟩ := executeBuffer_spec lib c waiting
    obtain ⟨hpieces', hlength'⟩ := ih (c.executeBuffer lib waiting)
    refine ⟨hpieces'.trans hpieces, hlength'.trans ?_⟩
    rw [List.count_cons]
    cases waiting
    · simp only [Bool.false_eq_true, if_false] at hlength
      simp
      omega
    · simp only [if_true] at hlength
      simp
      omega

/-- Enough calls execute all of the text. -/
theorem run_executed (lib : Libraries) {text : Text} {calls : List Bool} (hcalls : text.length ≤ calls.count false) :
    (run lib { commandBuffer := text } calls).executed = pieces (commandLength lib 0 false) text := by
  obtain ⟨hpieces, hlength⟩ := run_spec lib { commandBuffer := text } calls
  have hempty : (run lib { commandBuffer := text } calls).commandBuffer = [] := by
    apply List.length_eq_zero_iff.mp
    dsimp only at hlength
    omega
  rwa [hempty, pieces_nil, List.append_nil] at hpieces

end Context

/-- For text without braces and brackets, the calls execute the commands as the tokenizer sees them exactly when the
stray quotes before each semicolon are paired. -/
theorem executeBuffer_iff (lib : Libraries) {text : Text} (hplain : ∀ c ∈ text, ¬ opensJson c) :
    ExecutesPieces lib text ↔ StrayQuotesPaired lib text := by
  rw [← pieces_iff hplain]
  constructor
  · intro h
    have hcalls : text.length ≤ (List.replicate text.length false).count false := by rw [List.count_replicate_self]
    rw [← Context.run_executed lib hcalls]
    exact (h _).2 hcalls
  · intro heq calls
    obtain ⟨hpieces, -⟩ := Context.run_spec lib { commandBuffer := text } calls
    rw [← heq]
    exact ⟨⟨_, hpieces⟩, Context.run_executed lib⟩

/-- Libraries for ASCII text without JSON values. -/
def asciiLibraries : Libraries where
  validUtf8 text := text.all fun c => c.toNat < 128
  json _ := none
  jsonArgument _ := none

/-- A semicolon between two commands, after a quoted argument that has one too. -/
theorem executeBuffer_quoted : ExecutesPieces asciiLibraries (literal "say \"a;b\";quit") :=
  (executeBuffer_iff asciiLibraries (by decide +kernel)).mpr (by unfold StrayQuotesPaired; decide +kernel)

/-- After an escaped quote, the rest of a quoted argument is executed. -/
theorem executeBuffer_escaped :
    (Context.run asciiLibraries { commandBuffer := literal "say \"a\\\";quit\"" } [false]).executed =
        [literal "say \"a\\\"", literal "quit\""] ∧
      ¬ ExecutesPieces asciiLibraries (literal "say \"a\\\";quit\"") := by
  have hrun : (Context.run asciiLibraries { commandBuffer := literal "say \"a\\\";quit\"" } [false]).executed =
      [literal "say \"a\\\"", literal "quit\""] := by decide +kernel
  refine ⟨hrun, fun h => ?_⟩
  have hbegins := (h [false]).1
  rw [hrun] at hbegins
  exact absurd hbegins (by decide +kernel)

end console
