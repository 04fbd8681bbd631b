import Citizen.Lib.Bits

open Bits

namespace console

abbrev Text := List Byte

def quote : Byte := 34

def backslash : Byte := 92

def hash : Byte := 35

def slash : Byte := 47

def star : Byte := 42

/-- What the code takes from its libraries: the check of `from_bytes`, and the number of characters that the JSON
value at the start of a text takes, for `ExecuteBuffer` and for `Tokenize`. -/
structure Libraries where
  validUtf8 : Text → Bool
  json : Text → Option Nat
  jsonArgument : Text → Option Nat

/-- A brace or a bracket, where the code tries to read a JSON value. -/
def opensJson (c : Byte) : Prop := c = 123 ∨ c = 91

instance (c : Byte) : Decidable (opensJson c) := inferInstanceAs (Decidable (_ ∨ _))

/-- An argument, with the index it starts at and the one that the loop goes on from. -/
structure Argument where
  text : Text
  quoted : Bool
  start : Nat
  stop : Nat
  deriving DecidableEq

/-- Spaces and control characters. -/
def isBlank (c : Byte) : Bool := c.toNat ≤ 32

/-- The loop in a quoted string: its text, how far the index moves, and the rest of the line. -/
def quotedString : Bool → Text → Text × Nat × Text
  | _, [] => ([], 1, [])
  | inEscape, c :: rest =>
    if c = quote ∧ inEscape = false then ([], 1, rest)
    else if c = backslash ∧ rest.headD 0 = quote then
      let (text, n, rest) := quotedString true rest
      (text, n + 1, rest)
    else
      let (text, n, rest) := quotedString false rest
      (c :: text, n + 1, rest)

/-- A comment can start after this character, or where the line does. -/
def startsWord (prev : Option Byte) : Prop := prev = none ∨ prev = some 32 ∨ prev = some 9

instance (prev : Option Byte) : Decidable (startsWord prev) := inferInstanceAs (Decidable (_ ∨ _))

/-- The loop in a string without quotes: its text and the rest of the line, or none if a comment ends the line. -/
def unquotedString : Option Byte → Text → Option (Text × Text)
  | _, [] => some ([], [])
  | prev, c :: rest =>
    if isBlank c ∨ c = quote then some ([], c :: rest)
    else if startsWord prev ∧
        (c = hash ∨ rest ≠ [] ∧ c = slash ∧ (rest.headD 0 = slash ∨ rest.headD 0 = star)) then none
    else (unquotedString (some c) rest).map fun (text, rest) => (c :: text, rest)

/-- The loop that looks for the end of a comment in the line. -/
def blockComment : Text → Text
  | [] => []
  | c :: rest => if c ≠ star ∧ rest.headD 0 ≠ slash then blockComment rest else c :: rest

/-- A text after its first character. Bytes from 128 to 191 continue a character of UTF-8. -/
def afterCharacter (text : Text) : Text := (text.drop 1).dropWhile fun c => 128 ≤ c.toNat ∧ c.toNat < 192

/-- The outer loop, from index `i` after the character `prev`. Each turn takes a character, so that `fuel` is the
length of the line. -/
def argumentsFrom (lib : Libraries) : Nat → Nat → Option Byte → Text → List Argument
  | 0, _, _, _ => []
  | fuel + 1, i, prev, rest =>
    let blanks := rest.takeWhile isBlank
    let i := i + blanks.length
    let prev := blanks.getLast?.or prev
    match rest.dropWhile isBlank with
    | [] => []
    | c :: rest =>
      if prev ≠ none ∧ (c = slash ∧ rest.headD 0 = slash ∨ c = hash) then []
      else if prev ≠ none ∧ c = slash ∧ rest.headD 0 = star then
        let comment := blockComment (c :: rest)
        let following := afterCharacter (comment.drop 1)
        argumentsFrom lib fuel (i + ((c :: rest).length - following.length))
          ((comment.take 2).getLast?.or prev) following
      else
        match if opensJson c then lib.jsonArgument (c :: rest) else none with
        | some n =>
          let value := (c :: rest).take n
          ⟨value, false, i, i + n⟩ :: argumentsFrom lib fuel (i + n) (value.getLast?.or prev) ((c :: rest).drop n)
        | none =>
          if c = quote then
            let (text, n, rest) := quotedString false rest
            ⟨text, true, i, i + 1 + n⟩ :: argumentsFrom lib fuel (i + 1 + n) (some quote) rest
          else
            match unquotedString prev (c :: rest) with
            | none => []
            | some (text, rest) =>
              let following := argumentsFrom lib fuel (i + text.length) (text.getLast?.or prev) rest
              if text = [] then following else ⟨text, false, i, i + text.length⟩ :: following

/-- `Tokenize`, on the bytes of the line. The characters that the loops compare are ASCII, and are the same in
UTF-32. -/
def tokenize (lib : Libraries) (input : Text) : List Argument :=
  if lib.validUtf8 input then argumentsFrom lib (input.length + 1) 0 none input else []

/-- Index `i` of a line is part of a quoted argument. -/
def Quoted (lib : Libraries) (input : Text) (i : Nat) : Prop :=
  ∃ arg ∈ tokenize lib input, arg.quoted = true ∧ arg.start ≤ i ∧ i < arg.stop

instance (lib : Libraries) (input : Text) (i : Nat) : Decidable (Quoted lib input i) :=
  inferInstanceAs (Decidable (∃ arg ∈ tokenize lib input, _))

/-- The indices of the quotes around the arguments. -/
def delimiters (args : List Argument) : List Nat :=
  args.flatMap fun arg => if arg.quoted then [arg.start, arg.stop - 1] else []

/-- The arguments follow one another, and those in quotes start and end with one. -/
def Spans (input : Text) : Nat → List Argument → Prop
  | _, [] => True
  | i, arg :: args =>
    i ≤ arg.start ∧ arg.start ≤ arg.stop ∧
      (arg.quoted = true → arg.start + 2 ≤ arg.stop ∧ input[arg.start]? = some quote ∧
        (arg.stop ≤ input.length → input[arg.stop - 1]? = some quote)) ∧
      Spans input arg.stop args

theorem Spans.mono {input : Text} {i j : Nat} {args : List Argument} (h : Spans input j args) (hij : i ≤ j) :
    Spans input i args := by
  cases args with
  | nil => trivial
  | cons arg args => exact ⟨hij.trans h.1, h.2⟩

/-- A quoted string ends after its quote, or after the line. -/
theorem quotedString_spec (inEscape : Bool) (rest : Text) :
    1 ≤ (quotedString inEscape rest).2.1 ∧
      ((quotedString inEscape rest).2.1 ≤ rest.length → rest[(quotedString inEscape rest).2.1 - 1]? = some quote) ∧
      (quotedString inEscape rest).2.2 = rest.drop (quotedString inEscape rest).2.1 := by
  induction rest generalizing inEscape with
  | nil => simp [quotedString]
  | cons c rest ih =>
    unfold quotedString
    split_ifs with hclose hescape
    · simp [hclose.1]
    · obtain ⟨hpos, hend, hrest⟩ := ih true
      refine ⟨Nat.le_add_left _ _, fun hle => ?_, hrest⟩
      obtain ⟨n, hn⟩ := Nat.exists_eq_add_of_le' hpos
      have hquote := hend (by simpa using hle)
      simp only [hn] at hquote ⊢
      simpa using hquote
    · obtain ⟨hpos, hend, hrest⟩ := ih false
      refine ⟨Nat.le_add_left _ _, fun hle => ?_, hrest⟩
      obtain ⟨n, hn⟩ := Nat.exists_eq_add_of_le' hpos
      have hquote := hend (by simpa using hle)
      simp only [hn] at hquote ⊢
      simpa using hquote

theorem unquotedString_rest {prev : Option Byte} {input text rest : Text}
    (h : unquotedString prev input = some (text, rest)) : rest = input.drop text.length := by
  induction input generalizing prev text with
  | nil =>
    cases h
    rfl
  | cons c input ih =>
    unfold unquotedString at h
    split_ifs at h
    · cases h
      rfl
    · obtain ⟨⟨text', rest'⟩, hrest, heq⟩ := Option.map_eq_some_iff.mp h
      cases heq
      exact ih hrest

theorem blockComment_suffix (input : Text) : blockComment input <:+ input := by
  induction input with
  | nil => exact List.suffix_rfl
  | cons c input ih =>
    unfold blockComment
    split
    · exact ih.trans (List.suffix_cons _ _)
    · exact List.suffix_rfl

theorem afterCharacter_suffix (text : Text) : afterCharacter text <:+ text :=
  (List.dropWhile_suffix _).trans (List.drop_suffix 1 _)

theorem drop_blanks {input rest : Text} {i : Nat} (h : input.drop i = rest) :
    input.drop (i + (rest.takeWhile isBlank).length) = rest.dropWhile isBlank := by
  rw [← List.drop_drop, h]
  calc rest.drop (rest.takeWhile isBlank).length
      = (rest.takeWhile isBlank ++ rest.dropWhile isBlank).drop (rest.takeWhile isBlank).length := by
        rw [List.takeWhile_append_dropWhile]
    _ = rest.dropWhile isBlank := List.drop_left

/-- The loop leaves the arguments in their order. -/
theorem spans_argumentsFrom (lib : Libraries) {input : Text} (fuel i : Nat) (prev : Option Byte) (rest : Text)
    (hrest : input.drop i = rest) : Spans input i (argumentsFrom lib fuel i prev rest) := by
  induction fuel generalizing i prev rest with
  | zero => trivial
  | succ fuel ih =>
    unfold argumentsFrom
    have hblanks := drop_blanks hrest
    have hij := Nat.le_add_right i (rest.takeWhile isBlank).length
    dsimp only
    generalize i + (rest.takeWhile isBlank).length = j at hblanks hij ⊢
    generalize (rest.takeWhile isBlank).getLast?.or prev = prev'
    cases hline : rest.dropWhile isBlank with
    | nil => trivial
    | cons c rest =>
      rw [hline] at hblanks
      dsimp only
      generalize (if opensJson c then lib.jsonArgument (c :: rest) else none) = value
      split
      · trivial
      · split
        · have hsuffix := ((afterCharacter_suffix _).trans (List.drop_suffix 1 _)).trans
            (blockComment_suffix (c :: rest))
          refine (ih _ _ _ ?_).mono (by omega)
          rw [← List.drop_drop, hblanks, ← List.suffix_iff_eq_drop.mp hsuffix]
        · cases value with
          | some n => exact ⟨hij, Nat.le_add_right _ _, by simp, ih _ _ _ (by rw [← List.drop_drop, hblanks])⟩
          | none =>
            dsimp only
            split
            · rename_i hquote
              obtain ⟨hpos, hend, hdrop⟩ := quotedString_spec false rest
              have hafter : input.drop (j + 1) = rest := by
                rw [← List.drop_drop, hblanks, List.drop_one, List.tail_cons]
              have hlength : input.length - (j + 1) = rest.length := by rw [← hafter, List.length_drop]
              generalize quotedString false rest = result at hpos hend hdrop ⊢
              obtain ⟨text, n, rest'⟩ := result
              dsimp only at hpos hend hdrop ⊢
              refine ⟨hij, by dsimp only; omega, fun _ => ⟨by dsimp only; omega, ?_, fun hstop => ?_⟩, ih _ _ _ ?_⟩
              · rw [← hquote, ← List.head?_drop, hblanks, List.head?_cons]
              · dsimp only at hstop ⊢
                rw [← hend (by omega), ← hafter, List.getElem?_drop]
                congr 1
                omega
              · rw [hdrop, ← hafter, List.drop_drop]
            · cases hunquoted : unquotedString prev' (c :: rest) with
              | none => trivial
              | some result =>
                obtain ⟨text, rest'⟩ := result
                have hnext : input.drop (j + text.length) = rest' := by
                  rw [← List.drop_drop, hblanks, unquotedString_rest hunquoted]
                dsimp only
                split
                · exact (ih _ _ _ hnext).mono (by omega)
                · exact ⟨hij, Nat.le_add_right _ _, by simp, ih _ _ _ hnext⟩

theorem spans_tokenize (lib : Libraries) (input : Text) : Spans input 0 (tokenize lib input) := by
  unfold tokenize
  split
  · exact spans_argumentsFrom lib _ _ _ _ rfl
  · trivial

theorem Spans.le_start {input : Text} {k : Nat} {args : List Argument} (h : Spans input k args) :
    ∀ arg ∈ args, k ≤ arg.start := by
  induction args generalizing k with
  | nil => simp
  | cons arg args ih =>
    obtain ⟨hk, hstop, -, hrest⟩ := h
    rintro arg' (_ | ⟨_, hmem⟩)
    · exact hk
    · exact hk.trans (hstop.trans (ih hrest arg' hmem))

theorem Spans.le_delimiter {input : Text} {k : Nat} {args : List Argument} (h : Spans input k args) {d : Nat}
    (hd : d ∈ delimiters args) : k ≤ d := by
  induction args generalizing k with
  | nil => simp [delimiters] at hd
  | cons arg args ih =>
    obtain ⟨hk, hstop, hquoted, hrest⟩ := h
    rw [delimiters, List.flatMap_cons, List.mem_append] at hd
    rcases hd with hd | hd
    · split_ifs at hd with hq
      · have hlong := (hquoted hq).1
        simp only [List.mem_cons, List.not_mem_nil, or_false] at hd
        omega
      · cases hd
    · exact hk.trans (hstop.trans (ih hrest hd))

theorem Spans.nodup {input : Text} {k : Nat} {args : List Argument} (h : Spans input k args) :
    (delimiters args).Nodup := by
  induction args generalizing k with
  | nil => exact List.nodup_nil
  | cons arg args ih =>
    obtain ⟨hk, hstop, hquoted, hrest⟩ := h
    rw [delimiters, List.flatMap_cons]
    split_ifs with hq
    · have hlong := (hquoted hq).1
      refine List.nodup_append.mpr ⟨?_, ih hrest, ?_⟩
      · simp
        omega
      · intro d hd d' hd'
        have hle := hrest.le_delimiter hd'
        simp only [List.mem_cons, List.not_mem_nil, or_false] at hd
        omega
    · exact ih hrest

/-- A delimiter in the line is a quote. -/
theorem Spans.quote_of_delimiter {input : Text} {k : Nat} {args : List Argument} (h : Spans input k args) {d : Nat}
    (hd : d ∈ delimiters args) (hlt : d < input.length) : input[d]? = some quote := by
  induction args generalizing k with
  | nil => simp [delimiters] at hd
  | cons arg args ih =>
    obtain ⟨-, -, hquoted, hrest⟩ := h
    rw [delimiters, List.flatMap_cons, List.mem_append] at hd
    rcases hd with hd | hd
    · split_ifs at hd with hq
      · obtain ⟨hlong, hstart, hstop⟩ := hquoted hq
        simp only [List.mem_cons, List.not_mem_nil, or_false] at hd
        rcases hd with rfl | rfl
        · exact hstart
        · exact hstop (by omega)
      · cases hd
    · exact ih hrest hd

theorem countP_lt_succ (l : List Nat) (i : Nat) : l.countP (· < i + 1) = l.countP (· < i) + l.count i := by
  induction l with
  | nil => rfl
  | cons a l ih =>
    rw [List.countP_cons, List.countP_cons, List.count_cons, ih]
    rcases Nat.lt_trichotomy a i with h | h | h
    · simp [h, show a < i + 1 by omega, show a ≠ i by omega]
      omega
    · simp [h]
      omega
    · simp [show ¬ a < i + 1 by omega, show ¬ a < i by omega, show a ≠ i by omega]

/-- The quotes before an index that do not stand around an argument. -/
def strayQuotes (lib : Libraries) (input : Text) (i : Nat) : Nat :=
  (List.range i).countP fun j => decide (input[j]? = some quote ∧ j ∉ delimiters (tokenize lib input))

/-- A quote before an index is a delimiter or a stray one. -/
theorem count_quote (lib : Libraries) (input : Text) {i : Nat} (hi : i ≤ input.length) :
    (input.take i).count quote = (delimiters (tokenize lib input)).countP (· < i) + strayQuotes lib input i := by
  have hspans := spans_tokenize lib input
  unfold strayQuotes
  induction i with
  | zero => simp
  | succ i ih =>
    rw [countP_lt_succ, List.range_succ, List.countP_append, List.countP_singleton, List.take_add_one,
      List.count_append, ih (by omega), hspans.nodup.count, List.getElem?_eq_getElem (show i < input.length by omega)]
    by_cases hmem : i ∈ delimiters (tokenize lib input)
    · have hquote := hspans.quote_of_delimiter hmem (by omega)
      rw [List.getElem?_eq_getElem (show i < input.length by omega)] at hquote
      simp [hmem, Option.some.inj hquote]
      omega
    · by_cases hquote : input[i] = quote
      · simp [hmem, hquote]
        omega
      · simp [hmem, hquote]

/-- An index is inside an argument in quotes when an odd number of delimiters stands before it. -/
theorem Spans.odd_iff {input : Text} {k : Nat} {args : List Argument} (h : Spans input k args) {i : Nat}
    (hi : i < input.length) (hne : input[i]? ≠ some quote) :
    (delimiters args).countP (· < i) % 2 = 1 ↔ ∃ arg ∈ args, arg.quoted = true ∧ arg.start ≤ i ∧ i < arg.stop := by
  induction args generalizing k with
  | nil => simp [delimiters]
  | cons arg args ih =>
    obtain ⟨-, hstop, hquoted, hrest⟩ := h
    rw [delimiters, List.flatMap_cons, List.countP_append]
    by_cases hbefore : i < arg.stop
    · have hnone : (delimiters args).countP (· < i) = 0 := by
        rw [List.countP_eq_zero]
        intro d hd
        have hle := hrest.le_delimiter hd
        simp
        omega
      have hlater : ∀ arg' ∈ args, ¬ (arg'.start ≤ i) := by
        intro arg' hmem
        have hle := hrest.le_start arg' hmem
        omega
      rw [delimiters] at hnone
      rw [hnone, Nat.add_zero]
      have hothers : ¬ ∃ arg' ∈ args, arg'.quoted = true ∧ arg'.start ≤ i ∧ i < arg'.stop := by
        rintro ⟨arg', hmem, -, hstart, -⟩
        exact hlater arg' hmem hstart
      rw [List.exists_mem_cons_iff, or_iff_left hothers]
      split_ifs with hq
      · obtain ⟨hlong, hstartquote, hendquote⟩ := hquoted hq
        have hstart : i ≠ arg.start := fun heq => hne (heq ▸ hstartquote)
        have hend : i ≠ arg.stop - 1 := fun heq => hne (heq ▸ hendquote (by omega))
        simp only [List.countP_cons, List.countP_nil, hq, true_and, hbefore, and_true]
        rcases Nat.lt_or_ge i arg.start with hlt | hge
        · simp [show ¬ arg.start < i by omega, show ¬ arg.stop - 1 < i by omega, show ¬ arg.start ≤ i by omega]
        · simp [show arg.start < i by omega, show ¬ arg.stop - 1 < i by omega, show arg.start ≤ i by omega]
      · simp [hq]
    · have hthis : ¬ (arg.quoted = true ∧ arg.start ≤ i ∧ i < arg.stop) := fun h => hbefore h.2.2
      rw [List.exists_mem_cons_iff, or_iff_right hthis, ← ih hrest]
      split_ifs with hq
      · have hlong := (hquoted hq).1
        simp only [List.countP_cons, List.countP_nil, show arg.start < i by omega, show arg.stop - 1 < i by omega,
          decide_true, if_true, delimiters]
        omega
      · rw [List.countP_nil, Nat.zero_add, delimiters]

end console
