import Citizen.Lib.Transition

namespace fx.NormalizePath

/-- The characters of a string. -/
abbrev Text := List Char

def isSep (c : Char) : Bool := c = '/' || c = Char.ofNat 92

def isQuote (c : Char) : Bool := c = Char.ofNat 34 || c = Char.ofNat 39

def isAlpha (c : Char) : Bool := 'A' ≤ c && c ≤ 'Z' || 'a' ≤ c && c ≤ 'z'

def isSpace (c : Char) : Bool := '\t' ≤ c && c ≤ '\r' || c = ' '

def isSepOrEnd (text : Text) : Bool := text.head?.all isSep

def isPremakeTokenStart (text : Text) : Bool := text.take 2 = ['%', Char.ofNat 123]

def isWinEnvvarStart (text : Text) : Bool := text.take 1 = ['%']

def isVsVarStart (text : Text) : Bool := text.take 2 = ['$', '(']

def isUnixEnvvarStart (text : Text) : Bool := text.take 2 = ['$', Char.ofNat 123]

/-- The condition of the loop of `skip_tokens`. -/
def isTokenStart (text : Text) : Bool :=
  isWinEnvvarStart text || isVsVarStart text || isUnixEnvvarStart text || isPremakeTokenStart text

/-- A write to the buffer. What is there is kept backwards, and there is no room for more than `0x4000` characters. -/
def push (buffer : Text) (c : Char) : Option Text := if buffer.length < 0x4000 then some (c :: buffer) else none

def pushAll (buffer text : Text) : Option Text := text.foldlM push buffer

/-- The skip over several separators and over `./`. -/
def skipSeps : Text → Text
  | c :: rest => if isSep c || c = '.' && isSepOrEnd rest then skipSeps rest else c :: rest
  | [] => []

/-- The walk back over a folder in the buffer, to another separator or to `dstRoot`. -/
def dropFolder (root : Nat) : Text → Text
  | _ :: buffer =>
    if buffer.length = root || buffer.head?.any isSep then buffer else dropFolder root buffer
  | [] => []

/-- The loop of `normalize_substring`. -/
def normalizeFolders (root : Nat) : Nat → Nat → Text → Text → Option Text
  | 0, _, _, buffer => some buffer
  | fuel + 1, folderDepth, src, buffer => do
    let src := skipSeps src
    if src = [] then some buffer
    else if src.take 2 = ['.', '.'] ∧ isSepOrEnd (src.drop 2) then
      if 0 < folderDepth then normalizeFolders root fuel (folderDepth - 1) (src.drop 3) (dropFolder root buffer)
      else normalizeFolders root fuel folderDepth (src.drop 3) (← pushAll buffer ['.', '.', '/'])
    else
      let buffer ← pushAll buffer (src.takeWhile fun c => !isSep c)
      match src.dropWhile fun c => !isSep c with
      | _ :: src => normalizeFolders root fuel (folderDepth + 1) src (← push buffer '/')
      | [] => some buffer

/-- The removal of a trailing slash, except for the root. -/
def dropTrailing (root : Nat) : Text → Text
  | c :: buffer => if root ≤ buffer.length && isSep c then dropTrailing root buffer else c :: buffer
  | [] => []

def normalizeSubstring (src buffer : Text) : Option Text := do
  let absolute := src.head?.any isAlpha && src[1]? = some ':'
  let (src, buffer) ← if absolute then (pushAll buffer (src.take 2)).map (src.drop 2, ·) else some (src, buffer)
  let (src, buffer) ← if src.head?.any isSep then (push buffer '/').map (src.drop 1, ·) else some (src, buffer)
  let (src, buffer) ← if src.head?.any isSep then (push buffer '/').map (src.drop 1, ·) else some (src, buffer)
  (normalizeFolders buffer.length (src.length + 1) 0 src buffer).map (dropTrailing buffer.length)

/-- What a token has skipped when `finish` ends it, and what follows. Past a token without an end, the read leaves
the text. -/
def skipFor (start : Text → Bool) (finish : Char) (skipped text : Text) : Option (Text × Text) :=
  if start text then
    match text.dropWhile (· ≠ finish) with
    | c :: rest => some (skipped ++ text.takeWhile (· ≠ finish) ++ [c], rest)
    | [] => none
  else some (skipped, text)

/-- `skip_tokens`: what it has skipped, and what follows. -/
def skipTokens : Nat → Text → Text → Option (Text × Text)
  | 0, skipped, text => some (skipped, text)
  | fuel + 1, skipped, text => do
    let (skipped, text) ← skipFor isPremakeTokenStart (Char.ofNat 125) skipped text
    let (skipped, text) ← skipFor isWinEnvvarStart '%' skipped text
    let (skipped, text) ← skipFor isVsVarStart ')' skipped text
    let (skipped, text) ← skipFor isUnixEnvvarStart (Char.ofNat 125) skipped text
    if isTokenStart text then skipTokens fuel skipped text else some (skipped, text)

/-- The sub path at the head of the text, and what follows. -/
def subPath : Text → Text × Text
  | c :: rest =>
    if isSpace c || isTokenStart (c :: rest) then ([], c :: rest) else ((subPath rest).map (c :: ·) id)
  | [] => ([], [])

/-- The loop of `path_normalize`, where `last` is the character before the text. -/
def normalizePaths : Nat → Option Char → Text → Text → Option Text
  | 0, _, _, buffer => some buffer
  | fuel + 1, last, text, buffer =>
    if text = [] then some buffer
    else do
      let (skipped, rest) ← skipTokens text.length [] text
      let separator := if skipped ≠ [] ∧ buffer.head?.any (!isSep ·) then (last.filter isSep).toList else []
      let buffer ← pushAll buffer (separator ++ skipped)
      let (src, rest) := subPath rest
      let quoted := src.head?.any isQuote && src.head? = src.getLast?
      let buffer ← pushAll buffer (if quoted then src.take 1 else [])
      let buffer ← normalizeSubstring (if quoted then src.drop 1 else src) buffer
      let spaces := rest.takeWhile isSpace
      let buffer ← pushAll buffer spaces
      let last := (spaces.getLast?.or src.getLast?).or (skipped.getLast?.or last)
      normalizePaths fuel last (rest.dropWhile isSpace) buffer

/-- `path_normalize`, where nothing is read outside the text nor written outside the buffer. -/
def path_normalize (pathRef : Text) : Option Text := do
  let path := pathRef.takeWhile (· ≠ Char.ofNat 0)
  let spaces := path.takeWhile isSpace
  let text := path.dropWhile isSpace
  let buffer := (← normalizePaths text.length spaces.getLast? text []).dropWhile isSpace
  if buffer.length < 0x4000 then some buffer.reverse else none

end fx.NormalizePath
