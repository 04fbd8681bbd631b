import Citizen.Lib.Bits

namespace console.Line

abbrev Text := List Char

def quote : Char := Char.ofNat 34

def backslash : Char := Char.ofNat 92

/-- Spaces and control characters. -/
def isBlank (c : Char) : Bool := c ≤ ' '

section Source

variable (json : Text → Option Nat) (line : Text)

/-- `line[i]`, which is NUL at the end of the line and is not there after it. -/
def charAt (i : Nat) : Option Char := if i = line.length then some (Char.ofNat 0) else (line)[i]?

/-- A value of `int i`, which must not overflow. -/
def index (i : Nat) : Option Nat := if i < 2 ^ 31 then some i else none

def skipBlanks : Nat → Nat → Option Nat
  | 0, _ => none
  | fuel + 1, i =>
    if i < line.length then do
      let c ← charAt line i
      if isBlank c then do
        let i ← index (i + 1)
        skipBlanks fuel i
      else some i
    else some i

/-- The loop that looks for the end of a comment. -/
def blockComment : Nat → Nat → Option Nat
  | 0, _ => none
  | fuel + 1, i =>
    if i < line.length + 1 then do
      let c ← charAt line i
      if c = '*' then some i
      else do
        let next ← charAt line (i + 1)
        if next = '/' then some i
        else do
          let i ← index (i + 1)
          blockComment fuel i
    else some i

/-- The inner loop: the index of the next argument, if the line has one. -/
def nextArgument : Nat → Nat → Option (Option Nat)
  | 0, _ => none
  | fuel + 1, i => do
    let i ← skipBlanks line (line.length + 2) i
    if i ≥ line.length then some none
    else if i = 0 then some (some i)
    else do
      let c ← charAt line i
      let next ← charAt line (i + 1)
      if c = '/' ∧ next = '/' ∨ c = '#' then some none
      else if c = '/' ∧ next = '*' then do
        let i ← blockComment line (line.length + 2) i
        if i ≥ line.length then some none
        else do
          let i ← index (i + 2)
          nextArgument fuel i
      else some (some i)

/-- The loop in a quoted string, from the index before its next character. -/
def quotedString : Nat → Nat → Bool → Text → Option (Nat × Text)
  | 0, _, _, _ => none
  | fuel + 1, i, inEscape, arg => do
    let i ← index (i + 1)
    if i ≥ line.length then some (i, arg)
    else do
      let c ← charAt line i
      if c = quote ∧ inEscape = false then some (i, arg)
      else do
        let escape ← if c = backslash then (charAt line (i + 1)).map (· == quote) else some false
        if escape then quotedString fuel i true arg else quotedString fuel i false (arg ++ [c])

/-- A comment can start at an index in a string without quotes. -/
def startsWord (i : Nat) : Option Bool :=
  if i = 0 then some true else (charAt line (i - 1)).map fun c => c == ' ' || c == '\t'

/-- The loop in a string without quotes, which has no result if a comment ends the line. -/
def unquotedString : Nat → Nat → Text → Option (Option (Nat × Text))
  | 0, _, _ => none
  | fuel + 1, i, arg =>
    if i < line.length then do
      let c ← charAt line i
      if isBlank c ∨ c = quote then some (some (i, arg))
      else do
        let start ← startsWord line i
        let comment ← if start ∧ i < line.length - 1 ∧ c = '/' then (charAt line (i + 1)).map fun next =>
          next == '/' || next == '*'
          else some false
        if start ∧ c = '#' ∨ comment then some none
        else do
          let i ← index (i + 1)
          unquotedString fuel i (arg ++ [c])
    else some (some (i, arg))

/-- The outer loop. A JSON value can start with a brace or a bracket. -/
def argumentsFrom : Nat → Nat → List Text → Option (List Text)
  | 0, _, _ => none
  | fuel + 1, i, args => do
    match ← nextArgument line (line.length + 2) i with
    | none => some args
    | some i =>
      let c ← charAt line i
      match if c = Char.ofNat 123 ∨ c = Char.ofNat 91 then json (line.drop i) else none with
      | some n => do
        let stop ← index (i + n)
        argumentsFrom fuel stop (args ++ [(line.drop i).take n])
      | none =>
        if c = quote then do
          let (i, arg) ← quotedString line (line.length + 2) i false []
          let i ← index (i + 1)
          if i ≥ line.length then some (args ++ [arg]) else argumentsFrom fuel i (args ++ [arg])
        else
          match ← unquotedString line (line.length + 2) i [] with
          | none => some args
          | some (i, arg) =>
            let args := if arg = [] then args else args ++ [arg]
            if i ≥ line.length then some args else argumentsFrom fuel i args

/-- `Tokenize` of a decoded line. There is no result where the code reads past the end of the line, where an index
overflows, and where it does not end. -/
def tokenize : Option (List Text) := argumentsFrom json line (line.length + 2) 0 []

end Source

/-- The contents of a quoted string without their escapes, and what comes after its quote. -/
def unquote : Text → Text × Text
  | [] => ([], [])
  | [c] => if c = quote then ([], []) else ([c], [])
  | c :: d :: rest =>
    if c = quote then ([], d :: rest)
    else if c = backslash ∧ d = quote then ((quote :: (unquote rest).1), (unquote rest).2)
    else (c :: (unquote (d :: rest)).1, (unquote (d :: rest)).2)

/-- What comes after a comment, which may be without its end. -/
def afterComment : Text → Text
  | [] => []
  | c :: rest => if c = '*' ∧ rest.head? = some '/' then rest.tail else afterComment rest

/-- A character of a run. -/
def isPlain (c : Char) : Bool := !isBlank c && c ≠ quote

theorem length_unquote_le (text : Text) : (unquote text).2.length ≤ text.length := by
  fun_induction unquote text <;> simp_all <;> omega

theorem length_afterComment_le (text : Text) : (afterComment text).length ≤ text.length := by
  fun_induction afterComment text <;> simp_all <;> omega

/-- The arguments of a line, in which comments can start after white space and at its start. -/
def grammar (start : Bool) : Text → List Text
  | [] => []
  | c :: rest =>
    if isBlank c then grammar true rest
    else if start ∧ (c = '#' ∨ c = '/' ∧ rest.head? = some '/') then []
    else if start ∧ c = '/' ∧ rest.head? = some '*' then grammar true (afterComment rest.tail)
    else if c = quote then (unquote rest).1 :: grammar false (unquote rest).2
    else (c :: rest.takeWhile isPlain) :: grammar false (rest.dropWhile isPlain)
termination_by text => text.length
decreasing_by
  · simp
  · have hle := length_afterComment_le rest.tail
    simp at hle ⊢
    omega
  · have hle := length_unquote_le rest
    simp
    omega
  · have hle := (List.dropWhile_suffix isPlain (l := rest)).length_le
    simp
    omega

/-- Where an argument can start there is no `/*`, and `#` and `//` come after white space or at the start of the
line. -/
def regular (start : Bool) : Text → Bool
  | [] => true
  | c :: rest =>
    if isBlank c then regular true rest
    else if c = '#' ∨ c = '/' ∧ rest.head? = some '/' then start
    else if c = '/' ∧ rest.head? = some '*' then false
    else if c = quote then regular false (unquote rest).2
    else regular false (rest.dropWhile isPlain)
termination_by text => text.length
decreasing_by
  · simp
  · have hle := length_unquote_le rest
    simp
    omega
  · have hle := (List.dropWhile_suffix isPlain (l := rest)).length_le
    simp
    omega

section Reads

variable {front rest line arg : Text} {c : Char} {i fuel : Nat} {inEscape : Bool}

theorem charAt_append : charAt (front ++ c :: rest) front.length = some c := by
  simp [charAt]

theorem charAt_next : charAt (front ++ c :: rest) (front.length + 1) = some (rest.head?.getD (Char.ofNat 0)) := by
  cases rest with
  | nil => simp [charAt]
  | cons next rest => simp [charAt]

theorem index_eq (h : i < 2 ^ 31) : index i = some i := if_pos h

theorem skipBlanks_eq (hline : line = front ++ rest) (hshort : line.length + 1 < 2 ^ 31) (hfuel : rest.length < fuel) :
    skipBlanks line fuel front.length = some (front ++ rest.takeWhile isBlank).length := by
  induction rest generalizing front fuel with
  | nil =>
    obtain ⟨fuel, rfl⟩ := Nat.exists_eq_add_of_lt hfuel
    simp [skipBlanks, hline]
  | cons c rest ih =>
    cases fuel with
    | zero => simp at hfuel
    | succ fuel =>
      have hin : front.length < line.length := by simp [hline]
      have hchar : charAt line front.length = some c := hline ▸ charAt_append
      rw [skipBlanks, if_pos hin, hchar]
      by_cases hc : isBlank c = true
      · have hstep := @ih (front ++ [c]) fuel (by simp [hline]) (by simpa using hfuel)
        rw [List.length_append, List.length_singleton] at hstep
        simp only [Option.bind_eq_bind, Option.bind_some, hc, if_true,
          index_eq (show front.length + 1 < 2 ^ 31 by omega), hstep]
        simp [hc]
      · simp [hc]

/-- A comment that is looked for from its start ends right there. -/
theorem blockComment_eq (hline : line = front ++ '/' :: '*' :: rest) (hshort : line.length + 1 < 2 ^ 31) :
    blockComment line (fuel + 2) front.length = some (front.length + 1) := by
  have hlength : line.length = front.length + rest.length + 2 := by
    simp [hline]
    omega
  have hslash : charAt line front.length = some '/' := hline ▸ charAt_append
  have hstar : charAt line (front.length + 1) = some '*' := by
    rw [hline, charAt_next]
    rfl
  rw [blockComment, if_pos (by omega), hslash]
  simp only [Option.bind_eq_bind, Option.bind_some, hstar, index_eq (show front.length + 1 < 2 ^ 31 by omega)]
  rw [if_neg (by decide), if_neg (by decide), blockComment, if_pos (by omega), hstar]
  rfl

theorem quotedString_end (hline : line = front ++ [c]) (hshort : line.length + 1 < 2 ^ 31) :
    quotedString line (fuel + 1) front.length inEscape arg = some (line.length, arg) := by
  have hlength : line.length = front.length + 1 := by simp [hline]
  rw [quotedString, index_eq (by omega), hlength]
  simp

theorem quotedString_cons {d : Char} (hline : line = front ++ c :: d :: rest) (hshort : line.length + 1 < 2 ^ 31) :
    quotedString line (fuel + 1) front.length inEscape arg =
      if d = quote ∧ inEscape = false then some (front.length + 1, arg)
      else if d = backslash ∧ rest.head? = some quote then quotedString line fuel (front ++ [c]).length true arg
      else quotedString line fuel (front ++ [c]).length false (arg ++ [d]) := by
  have hlength : line.length = front.length + rest.length + 2 := by
    simp [hline]
    omega
  have hsplit : line = (front ++ [c]) ++ d :: rest := by simp [hline]
  have hnext : front.length + 1 = (front ++ [c]).length := by simp
  have hchar : charAt line (front ++ [c]).length = some d := by rw [hsplit, charAt_append]
  have hafter : charAt line ((front ++ [c]).length + 1) = some (rest.head?.getD (Char.ofNat 0)) := by
    rw [hsplit, charAt_next]
  have hquote : (rest.head?.getD (Char.ofNat 0) == quote) = decide (rest.head? = some quote) := by
    cases rest with
    | nil => rfl
    | cons next rest => simp [Bool.beq_eq_decide_eq]
  rw [quotedString, index_eq (by omega), hnext]
  simp only [Option.bind_eq_bind, Option.bind_some, hchar, hafter, Option.map_some, hquote]
  rw [if_neg (by rw [← hnext]; omega)]
  by_cases hend : d = quote ∧ inEscape = false
  · simp [hend]
  · rw [if_neg hend, if_neg hend]
    by_cases hback : d = backslash <;> simp [hback]

/-- A quoted string ends at its quote, or at the end of the line. -/
theorem quotedString_eq (hline : line = front ++ c :: rest) (hshort : line.length + 1 < 2 ^ 31)
    (hfuel : rest.length < fuel) :
    ∃ i, quotedString line fuel front.length false arg = some (i, arg ++ (unquote rest).1) ∧
      (i = line.length ∧ (unquote rest).2 = [] ∨ ∃ before, line = before ++ quote :: (unquote rest).2 ∧
        i = before.length) := by
  fun_induction unquote rest generalizing front c fuel arg with
  | case1 =>
    obtain ⟨fuel, rfl⟩ := Nat.exists_eq_add_of_lt hfuel
    exact ⟨line.length, by simp [quotedString_end hline hshort], Or.inl ⟨rfl, rfl⟩⟩
  | case2 =>
    cases fuel with
    | zero => cases hfuel
    | succ fuel =>
      rw [quotedString_cons hline hshort, if_pos ⟨rfl, rfl⟩]
      exact ⟨front.length + 1, by simp, Or.inr ⟨front ++ [c], by simp [hline], by simp⟩⟩
  | case3 d hd =>
    cases fuel with
    | zero => cases hfuel
    | succ fuel =>
      cases fuel with
      | zero => simp at hfuel
      | succ fuel =>
        have hrest := @quotedString_end (front ++ [c]) line (arg ++ [d]) d fuel false (by simp [hline]) hshort
        rw [quotedString_cons hline hshort, if_neg (by simp [hd]), if_neg (by simp), hrest]
        exact ⟨line.length, rfl, Or.inl ⟨rfl, rfl⟩⟩
  | case4 e rest =>
    cases fuel with
    | zero => cases hfuel
    | succ fuel =>
      rw [quotedString_cons hline hshort, if_pos ⟨rfl, rfl⟩]
      exact ⟨front.length + 1, by simp, Or.inr ⟨front ++ [c], by simp [hline], by simp⟩⟩
  | case5 d e rest hd hescape ih =>
    obtain ⟨rfl, rfl⟩ := hescape
    cases fuel with
    | zero => cases hfuel
    | succ fuel =>
      cases fuel with
      | zero => simp at hfuel
      | succ fuel =>
        have hsecond : line = (front ++ [c]) ++ backslash :: quote :: rest := by simp [hline]
        obtain ⟨i, hrun, hend⟩ := @ih (front ++ [c, backslash]) (arg ++ [quote]) quote fuel (by simp [hline])
          (by simp at hfuel; omega)
        refine ⟨i, ?_, hend⟩
        rw [quotedString_cons hline hshort, if_neg (by simp [hd]), if_pos (by simp), quotedString_cons hsecond hshort,
          if_neg (by simp), if_neg (by simp [quote, backslash])]
        simpa using hrun
  | case6 d e rest hd hescape ih =>
    cases fuel with
    | zero => cases hfuel
    | succ fuel =>
      obtain ⟨i, hrun, hend⟩ := @ih (front ++ [c]) (arg ++ [d]) d fuel (by simp [hline]) (by simpa using hfuel)
      refine ⟨i, ?_, hend⟩
      rw [quotedString_cons hline hshort, if_neg (by simp [hd]), if_neg (by simpa using hescape)]
      simpa using hrun

/-- A comment starts here. -/
def opensComment (c : Char) (rest : Text) : Prop := c = '#' ∨ c = '/' ∧ (rest.head? = some '/' ∨ rest.head? = some '*')

instance : Decidable (opensComment c rest) := inferInstanceAs (Decidable (_ ∨ _))

theorem unquotedString_stop (hline : line = front ++ rest) (hstop : ∀ c ∈ rest.head?, isPlain c = false) :
    unquotedString line (fuel + 1) front.length arg = some (some (front.length, arg)) := by
  cases rest with
  | nil => simp [unquotedString, hline]
  | cons c rest =>
    have hchar : charAt line front.length = some c := hline ▸ charAt_append
    have hc : isBlank c = true ∨ c = quote := by
      have hplain := hstop c rfl
      simp only [isPlain] at hplain
      by_cases hblank : isBlank c = true
      · exact Or.inl hblank
      · exact Or.inr (by simpa [hblank] using hplain)
    rw [unquotedString, if_pos (by simp [hline]), hchar]
    simp [hc]

theorem unquotedString_cons {start : Bool} (hline : line = front ++ c :: rest) (hshort : line.length + 1 < 2 ^ 31)
    (hc : isPlain c = true) (hstart : startsWord line front.length = some start) :
    unquotedString line (fuel + 1) front.length arg =
      if start = true ∧ opensComment c rest then some none
      else unquotedString line fuel (front ++ [c]).length (arg ++ [c]) := by
  have hlength : line.length = front.length + rest.length + 1 := by
    simp [hline]
    omega
  have hchar : charAt line front.length = some c := hline ▸ charAt_append
  have hnext : charAt line (front.length + 1) = some (rest.head?.getD (Char.ofNat 0)) := hline ▸ charAt_next
  have hplain : ¬ (isBlank c = true ∨ c = quote) := by
    rw [isPlain, Bool.and_eq_true] at hc
    simpa [not_or] using hc
  rw [unquotedString, if_pos (by omega), hchar]
  simp only [Option.bind_eq_bind, Option.bind_some, if_neg hplain, hstart, hnext, Option.map_some,
    index_eq (show front.length + 1 < 2 ^ 31 by omega), List.length_append, List.length_singleton]
  cases start with
  | false => simp
  | true =>
    cases rest with
    | nil => simp [opensComment, hlength]
    | cons next rest =>
      by_cases hslash : c = '/'
      · simp [opensComment, hlength, hslash, Bool.or_eq_true]
      · simp [opensComment, hslash]

/-- Within a run no comment starts. -/
theorem unquotedString_run (hline : line = front ++ rest) (hshort : line.length + 1 < 2 ^ 31)
    (hfuel : rest.length < fuel) (hfront : ∃ before p, front = before ++ [p] ∧ isBlank p = false) :
    unquotedString line fuel front.length arg =
      some (some ((front ++ rest.takeWhile isPlain).length, arg ++ rest.takeWhile isPlain)) := by
  induction rest generalizing front fuel arg with
  | nil =>
    obtain ⟨fuel, rfl⟩ := Nat.exists_eq_add_of_lt hfuel
    rw [unquotedString_stop hline (by simp)]
    simp
  | cons c rest ih =>
    cases fuel with
    | zero => cases hfuel
    | succ fuel =>
      by_cases hc : isPlain c = true
      · have hstart : startsWord line front.length = some false := by
          obtain ⟨before, p, rfl, hp⟩ := hfront
          have hchar : charAt line before.length = some p := by
            rw [hline, List.append_assoc]
            exact charAt_append
          have hspace : p ≠ ' ' := by
            rintro rfl
            cases hp
          have htab : p ≠ '\t' := by
            rintro rfl
            cases hp
          rw [startsWord, if_neg (by simp), List.length_append, List.length_singleton, Nat.add_sub_cancel, hchar]
          simp [hspace, htab]
        have hblank : isBlank c = false := by
          rw [isPlain, Bool.and_eq_true] at hc
          simpa using hc.1
        rw [unquotedString_cons hline hshort hc hstart, if_neg (by simp),
          ih (by simp [hline]) (by simpa using hfuel) ⟨front, c, rfl, hblank⟩, List.takeWhile_cons_of_pos hc]
        simp
      · rw [unquotedString_stop hline (by simpa using hc), List.takeWhile_cons_of_neg hc]
        simp

end Reads

section Grammar

variable {front rest line : Text} {c : Char} {fuel : Nat} {json : Text → Option Nat} {args : List Text}

/-- The text before an argument is nothing or ends with white space. -/
def blankBefore (front : Text) : Bool := front.getLast?.all isBlank

theorem blankBefore_snoc : blankBefore (front ++ [c]) = isBlank c := by
  simp [blankBefore]

theorem grammar_blanks :
    grammar (blankBefore front) rest = grammar (blankBefore (front ++ rest.takeWhile isBlank))
      (rest.dropWhile isBlank) ∧
        regular (blankBefore front) rest = regular (blankBefore (front ++ rest.takeWhile isBlank))
          (rest.dropWhile isBlank) := by
  induction rest generalizing front with
  | nil => simp
  | cons c rest ih =>
    by_cases hc : isBlank c = true
    · rw [List.takeWhile_cons_of_pos hc, List.dropWhile_cons_of_pos hc, grammar, regular, if_pos hc, if_pos hc]
      have hrest := @ih (front ++ [c])
      rw [blankBefore_snoc, hc, List.append_assoc] at hrest
      exact hrest
    · rw [List.takeWhile_cons_of_neg hc, List.dropWhile_cons_of_neg hc, List.append_nil]
      exact ⟨rfl, rfl⟩

theorem regular_comment (hc : isBlank c = false) (hopens : opensComment c rest) (start : Bool)
    (h : regular start (c :: rest) = true) : start = true ∧ grammar start (c :: rest) = [] := by
  rw [regular, if_neg (by simp [hc])] at h
  rw [grammar, if_neg (by simp [hc])]
  by_cases hline : c = '#' ∨ c = '/' ∧ rest.head? = some '/'
  · rw [if_pos hline] at h
    exact ⟨h, by simp [h, hline]⟩
  · rw [if_neg hline] at h
    rcases hopens with hhash | ⟨hslash, hnext | hnext⟩
    · exact absurd (Or.inl hhash) hline
    · exact absurd (Or.inr ⟨hslash, hnext⟩) hline
    · rw [if_pos ⟨hslash, hnext⟩] at h
      cases h

/-- What `nextArgument` finds in the rest of a line. -/
inductive Next (line front rest : Text) : Option Nat → Prop
  | none (hgrammar : regular (blankBefore front) rest = true → grammar (blankBefore front) rest = []) :
    Next line front rest none
  | some (before : Text) (c : Char) (after : Text) (hline : line = before ++ c :: after)
      (hlength : after.length < rest.length) (hc : isBlank c = false) (hcomment : before ≠ [] → ¬ opensComment c after)
      (hregular : regular (blankBefore front) rest = true → regular (blankBefore before) (c :: after) = true ∧
        grammar (blankBefore front) rest = grammar (blankBefore before) (c :: after)) :
      Next line front rest (some before.length)

theorem head?_of_getD {text : Text} {d : Char} (h : text.head?.getD (Char.ofNat 0) = d) (hd : d ≠ Char.ofNat 0) :
    text.head? = some d := by
  cases text with
  | nil => exact absurd h.symm hd
  | cons next text => exact congrArg some h

theorem skipBlanks_end (h : line.length ≤ fuel) : skipBlanks line (line.length + 2) fuel = some fuel := by
  rw [skipBlanks, if_neg (by omega)]

theorem nextArgument_next (hline : line = front ++ rest) (hshort : line.length + 1 < 2 ^ 31)
    (hfuel : rest.length < fuel) :
    ∃ result, nextArgument line fuel front.length = some result ∧ Next line front rest result := by
  induction fuel generalizing front rest with
  | zero => cases hfuel
  | succ fuel ih =>
    obtain ⟨hgrammar, hregular⟩ := @grammar_blanks front rest
    have hblanks : skipBlanks line (line.length + 2) front.length = some (front ++ rest.takeWhile isBlank).length :=
      skipBlanks_eq hline hshort (by simp [hline]; omega)
    have hsplit : line = (front ++ rest.takeWhile isBlank) ++ rest.dropWhile isBlank := by
      rw [List.append_assoc, List.takeWhile_append_dropWhile, hline]
    have hshorter := (List.dropWhile_suffix isBlank (l := rest)).length_le
    have hhead := List.head?_dropWhile_not isBlank rest
    generalize front ++ rest.takeWhile isBlank = before at hgrammar hregular hblanks hsplit
    generalize rest.dropWhile isBlank = after at hgrammar hregular hsplit hshorter hhead
    rw [nextArgument, hblanks]
    simp only [Option.bind_eq_bind, Option.bind_some]
    cases after with
    | nil =>
      refine ⟨none, if_pos (by simp [hsplit]), .none fun _ => ?_⟩
      rw [hgrammar, grammar]
    | cons c after =>
      have hc : isBlank c = false := by simpa using hhead
      have hin : before.length < line.length := by simp [hsplit]
      have hchar : charAt line before.length = some c := hsplit ▸ charAt_append
      have hnext : charAt line (before.length + 1) = some (after.head?.getD (Char.ofNat 0)) := hsplit ▸ charAt_next
      rw [if_neg (by omega)]
      by_cases hbefore : before = []
      · subst hbefore
        exact ⟨some 0, rfl, .some [] c after hsplit hshorter hc (fun hne => absurd rfl hne)
          fun h => ⟨hregular ▸ h, hgrammar⟩⟩
      · rw [if_neg (by simpa using hbefore)]
        simp only [hchar, hnext, Option.bind_some]
        by_cases hlineComment : c = '/' ∧ after.head?.getD (Char.ofNat 0) = '/' ∨ c = '#'
        · have hopens : opensComment c after := by
            rcases hlineComment with ⟨hslash, hsecond⟩ | hhash
            · exact Or.inr ⟨hslash, Or.inl (head?_of_getD hsecond (by decide))⟩
            · exact Or.inl hhash
          refine ⟨none, if_pos hlineComment, .none fun h => ?_⟩
          rw [hregular] at h
          rw [hgrammar, (regular_comment hc hopens _ h).2]
        · rw [if_neg hlineComment]
          by_cases hblock : c = '/' ∧ after.head?.getD (Char.ofNat 0) = '*'
          · obtain ⟨rfl, hstar⟩ := hblock
            have hopens : opensComment '/' after := Or.inr ⟨rfl, Or.inr (head?_of_getD hstar (by decide))⟩
            have hirregular : ¬ regular (blankBefore front) rest = true := by
              intro h
              rw [hregular, regular, if_neg (by simp [hc]), if_neg, if_pos ⟨rfl, head?_of_getD hstar (by decide)⟩] at h
              · cases h
              · rintro (hhash | ⟨_, hslash⟩)
                · exact absurd hhash (by decide)
                · rw [hslash] at hstar
                  exact absurd hstar (by decide)
            obtain ⟨following, rfl⟩ : ∃ following, after = '*' :: following := by
              cases after with
              | nil => exact absurd hstar (by decide)
              | cons next following => exact ⟨following, by simpa using hstar⟩
            have hlength : line.length = before.length + following.length + 2 := by
              simp [hsplit]
              omega
            have hskipped := @blockComment_eq before following line line.length hsplit hshort
            rw [if_pos ⟨rfl, hstar⟩]
            simp only [hskipped, Option.bind_some, index_eq (show before.length + 1 + 2 < 2 ^ 31 by omega)]
            rw [if_neg (by omega)]
            cases following with
            | nil =>
              obtain ⟨fuel, rfl⟩ : ∃ n, fuel = n + 1 := ⟨fuel - 1, by simp at hshorter; omega⟩
              have hend : line.length ≤ before.length + 1 + 2 := by simp at hlength; omega
              refine ⟨none, ?_, .none fun h => absurd h hirregular⟩
              rw [nextArgument, skipBlanks_end hend]
              exact if_pos hend
            | cons skipped following =>
              have hrest : line = (before ++ ['/', '*', skipped]) ++ following := by simp [hsplit]
              obtain ⟨result, hresult, hnextArgument⟩ := ih hrest (by simp at hshorter; omega)
              refine ⟨result, by simpa using hresult, ?_⟩
              cases hnextArgument with
              | none => exact .none fun h => absurd h hirregular
              | some before c after hline hlength hc hcomment =>
                simp at hshorter
                exact .some before c after hline (by omega) hc hcomment fun h => absurd h hirregular
          · rw [if_neg hblock]
            refine ⟨some before.length, rfl, .some before c after hsplit hshorter hc (fun _ hopens => ?_)
              fun h => ⟨hregular ▸ h, hgrammar⟩⟩
            rcases hopens with hhash | ⟨hslash, hsecond | hsecond⟩
            · exact hlineComment (Or.inr hhash)
            · exact hlineComment (Or.inl ⟨hslash, by rw [hsecond]; rfl⟩)
            · exact hblock ⟨hslash, by rw [hsecond]; rfl⟩

theorem isPlain_of (hc : isBlank c = false) (hquote : c ≠ quote) : isPlain c = true := by
  simp [isPlain, hc, hquote]

theorem grammar_quote (start : Bool) :
    grammar start (quote :: rest) = (unquote rest).1 :: grammar false (unquote rest).2 ∧
      regular start (quote :: rest) = regular false (unquote rest).2 := by
  rw [grammar, regular]
  simp [show isBlank quote = false by decide, show quote ≠ '#' by decide, show quote ≠ '/' by decide]

theorem grammar_run (start : Bool) (hc : isBlank c = false) (hquote : c ≠ quote) (hcomment : ¬ opensComment c rest) :
    grammar start (c :: rest) = (c :: rest.takeWhile isPlain) :: grammar false (rest.dropWhile isPlain) ∧
      regular start (c :: rest) = regular false (rest.dropWhile isPlain) := by
  have hnone : ¬ (c = '#' ∨ c = '/' ∧ rest.head? = some '/') := by
    rintro (hhash | ⟨hslash, hnext⟩)
    · exact hcomment (Or.inl hhash)
    · exact hcomment (Or.inr ⟨hslash, Or.inl hnext⟩)
  have hblock : ¬ (c = '/' ∧ rest.head? = some '*') := fun h => hcomment (Or.inr ⟨h.1, Or.inr h.2⟩)
  rw [grammar, regular]
  simp only [hc, Bool.false_eq_true, if_false, hnone, and_false, hblock, hquote]
  exact ⟨trivial, trivial⟩

/-- A run ends with a character that is not blank. -/
theorem blankBefore_run (hc : isBlank c = false) : blankBefore (front ++ c :: rest.takeWhile isPlain) = false := by
  rw [blankBefore, List.getLast?_append_of_ne_nil _ (by simp)]
  obtain ⟨p, hp⟩ := Option.ne_none_iff_exists'.mp (show (c :: rest.takeWhile isPlain).getLast? ≠ none by simp)
  rw [hp]
  rcases List.mem_cons.mp (List.mem_of_mem_getLast? hp) with rfl | hmem
  · exact hc
  · have hplain := List.mem_takeWhile_imp hmem
    rw [isPlain, Bool.and_eq_true] at hplain
    simpa using hplain.1

/-- The arguments from an index on, whatever comments the line has. -/
theorem argumentsFrom_grammar (hbrace : Char.ofNat 123 ∉ line) (hbracket : Char.ofNat 91 ∉ line)
    (hline : line = front ++ rest) (hshort : line.length + 1 < 2 ^ 31) (hfuel : rest.length < fuel) :
    ∃ out, argumentsFrom json line fuel front.length args = some (args ++ out) ∧
      (regular (blankBefore front) rest = true → out = grammar (blankBefore front) rest) := by
  induction fuel generalizing front rest args with
  | zero => cases hfuel
  | succ fuel ih =>
    obtain ⟨result, hresult, hnext⟩ :=
      @nextArgument_next front rest line (line.length + 2) hline hshort (by simp [hline]; omega)
    rw [argumentsFrom, hresult]
    simp only [Option.bind_eq_bind, Option.bind_some]
    cases hnext with
    | none hgrammar => exact ⟨[], by simp, fun h => (hgrammar h).symm⟩
    | some before c after hsplit hlength hc hcomment hregular =>
      have hchar : charAt line before.length = some c := hsplit ▸ charAt_append
      have hmem : c ∈ line := by simp [hsplit]
      have hjson : ¬ (c = Char.ofNat 123 ∨ c = Char.ofNat 91) := by
        rintro (rfl | rfl)
        · exact hbrace hmem
        · exact hbracket hmem
      simp only [hchar, Option.bind_some, if_neg hjson]
      by_cases hquote : c = quote
      · subst hquote
        obtain ⟨hgrammar, hregularQuote⟩ := @grammar_quote after (blankBefore before)
        obtain ⟨i, hrun, hend⟩ :=
          @quotedString_eq before after line [] quote (line.length + 2) hsplit hshort (by simp [hsplit]; omega)
        have hstop : i ≤ line.length := by
          rcases hend with ⟨rfl, _⟩ | ⟨_, hclosed, rfl⟩
          · exact le_rfl
          · simp [hclosed]
        simp only [if_true, hrun, Option.bind_some, index_eq (show i + 1 < 2 ^ 31 by omega), List.nil_append]
        by_cases hlast : i + 1 ≥ line.length
        · have hnil : (unquote after).2 = [] := by
            rcases hend with ⟨_, hnil⟩ | ⟨_, hclosed, rfl⟩
            · exact hnil
            · have hlength := congrArg List.length hclosed
              rw [List.length_append, List.length_cons] at hlength
              exact List.length_eq_zero_iff.mp (by omega)
          refine ⟨[(unquote after).1], if_pos hlast, fun h => ?_⟩
          rw [(hregular h).2, hgrammar, hnil, grammar]
        · obtain ⟨closed, hclosed, rfl⟩ := hend.resolve_left fun h => hlast (by omega)
          have hnext : closed.length + 1 = (closed ++ [quote]).length := by simp
          have hshorter := length_unquote_le after
          obtain ⟨out, hout, hequal⟩ := @ih (closed ++ [quote]) (unquote after).2 (args ++ [(unquote after).1])
            (by simp [← hclosed]) (by omega)
          refine ⟨(unquote after).1 :: out, ?_, fun h => ?_⟩
          · rw [if_neg hlast, hnext, hout]
            simp
          · rw [blankBefore_snoc, show isBlank quote = false by decide] at hequal
            rw [(hregular h).2, hgrammar, hequal (hregularQuote ▸ (hregular h).1)]
      · have hplain := isPlain_of hc hquote
        obtain ⟨start, hstart⟩ : ∃ start, startsWord line before.length = some start := by
          rw [startsWord]
          split
          · exact ⟨true, rfl⟩
          · rw [charAt, if_neg (by simp [hsplit]; omega), List.getElem?_eq_getElem (by simp [hsplit]; omega)]
            exact ⟨_, rfl⟩
        simp only [if_neg hquote]
        rw [@unquotedString_cons before after line [] c (line.length + 1) start hsplit hshort hplain hstart]
        by_cases hopens : start = true ∧ opensComment c after
        · rw [if_pos hopens]
          refine ⟨[], by simp, fun h => ?_⟩
          rw [(hregular h).2, (regular_comment hc hopens.2 _ (hregular h).1).2]
        · have hnone : ¬ opensComment c after := by
            by_cases hbefore : before = []
            · subst hbefore
              exact fun h => hopens ⟨(Option.some.inj hstart).symm, h⟩
            · exact hcomment hbefore
          obtain ⟨hgrammar, hregularRun⟩ := grammar_run (blankBefore before) hc hquote hnone
          have hrest : line = (before ++ [c]) ++ after := by simp [hsplit]
          rw [if_neg hopens, unquotedString_run hrest hshort (by simp [hsplit]; omega) ⟨before, c, rfl, hc⟩]
          have hrun : before ++ [c] ++ after.takeWhile isPlain = before ++ c :: after.takeWhile isPlain := by simp
          simp only [Option.bind_some, hrun, List.nil_append, List.singleton_append, reduceCtorEq, if_false]
          have hshorter := (List.dropWhile_suffix isPlain (l := after)).length_le
          have hstop : line = (before ++ c :: after.takeWhile isPlain) ++ after.dropWhile isPlain := by
            rw [List.append_assoc, List.cons_append, List.takeWhile_append_dropWhile, hsplit]
          by_cases hlast : (before ++ c :: after.takeWhile isPlain).length ≥ line.length
          · have hnil : after.dropWhile isPlain = [] := by
              have hlength := congrArg List.length hstop
              rw [List.length_append] at hlength
              exact List.length_eq_zero_iff.mp (by omega)
            refine ⟨[c :: after.takeWhile isPlain], if_pos hlast, fun h => ?_⟩
            rw [(hregular h).2, hgrammar, hnil, grammar]
          · obtain ⟨out, hout, hequal⟩ := @ih (before ++ c :: after.takeWhile isPlain) (after.dropWhile isPlain)
              (args ++ [c :: after.takeWhile isPlain]) hstop (by omega)
            refine ⟨(c :: after.takeWhile isPlain) :: out, ?_, fun h => ?_⟩
            · rw [if_neg hlast, hout]
              simp
            · rw [blankBefore_run hc] at hequal
              rw [(hregular h).2, hgrammar, hequal (hregularRun ▸ (hregular h).1)]

/-- `Tokenize` ends without a read past the end of its line, and follows the grammar where it looks for no `/*` and
ends no line at a comment right after a quote. -/
theorem tokenize_regular (json : Text → Option Nat) (line : Text) (hbrace : Char.ofNat 123 ∉ line)
    (hbracket : Char.ofNat 91 ∉ line) (hshort : line.length + 1 < 2 ^ 31) :
    ∃ args, tokenize json line = some args ∧ (regular true line = true → args = grammar true line) :=
  @argumentsFrom_grammar [] line line (line.length + 2) json [] hbrace hbracket rfl hshort (by omega)

theorem tokenize_regular_sample :
    tokenize (fun _ => none) ['a', ' ', quote, 'b', backslash, quote, quote, 'c', ' ', '/', '/', 'd'] =
      some [['a'], ['b', quote], ['c']] := by
  obtain ⟨args, hargs, hgrammar⟩ := tokenize_regular (fun _ => none)
    ['a', ' ', quote, 'b', backslash, quote, quote, 'c', ' ', '/', '/', 'd'] (by decide) (by decide) (by decide)
  rw [hargs, hgrammar]
  · simp [grammar, isBlank, isPlain, unquote, quote, backslash]
  · simp [regular, isBlank, isPlain, unquote, quote, backslash]

/-- Of a comment without text, the last character becomes an argument. -/
theorem not_tokenize_grammar :
    ¬ ∀ (json : Text → Option Nat) (line : Text), Char.ofNat 123 ∉ line → Char.ofNat 91 ∉ line →
      tokenize json line = some (grammar true line) := by
  intro hall
  have hcomment := hall (fun _ => none) [' ', '/', '*', '*', '/'] (by decide) (by decide)
  rw [show tokenize (fun _ => none) [' ', '/', '*', '*', '/'] = some [['/']] by decide] at hcomment
  simp [grammar, isBlank, afterComment] at hcomment

end Grammar

end console.Line
