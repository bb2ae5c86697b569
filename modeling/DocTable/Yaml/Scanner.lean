import DocTable.Yaml.Label
import DocTable.Yaml.Scalar

/-!
# From a text to tokens

The scanner keeps the columns of the open block collections and, for every open flow collection, the
place where a key without a mark may have started.  When a value indicator shows that it was a key,
the key mark is put before it after all.  A key of this kind must stay on its line and within 1024
characters, and at the column of a block mapping nothing else may start.

Tokens are scanned when they are asked for.  Three of them are always at hand, and more as long as
the next one may still turn out to be a key: its token is *awaited* then.  So a fault counts only if
it stands close enough behind what is read.
-/

namespace DocTable.Yaml

set_option autoImplicit false

/-- A place where a key without a mark may have started. -/
structure KeyCandidate where
  /-- Whether it can still be a key. -/
  possible : Bool
  /-- Whether it has to be one. -/
  required : Bool
  /-- The number of the token that starts it. -/
  number : Nat
  mark : Mark
  deriving Repr, Inhabited

/-- The scanner. -/
structure Scanner where
  cursor : Cursor
  /-- The tokens that have not been used yet. -/
  queue : List Token
  /-- The number of tokens that have been used. -/
  used : Nat
  /-- The columns of open block collections, innermost first. -/
  columns : List Nat
  /-- The candidates for a key: of the block level first, then of every open flow collection. -/
  candidates : Array KeyCandidate
  /-- The numbers of tokens that may start a key, each with the place of its candidate, the latest
  first. -/
  awaited : List (Nat × Nat)
  /-- Whether a key without a mark may start at the next token. -/
  keyAllowed : Bool
  deriving Inhabited

namespace Scanner

/-! ## The queue -/

/-- Whether a flow collection is open. -/
def inFlow (s : Scanner) : Bool := 1 < s.candidates.size

/-- The number of the next token. -/
def nextNumber (s : Scanner) : Nat := s.used + s.queue.length

/-- Adds a token that starts at a mark. -/
def emit (s : Scanner) (kind : TokenKind) (mark : Mark) : Scanner :=
  { s with queue := s.queue ++ [⟨kind, mark, s.cursor.mark.line⟩] }

/-- Adds a token before the one with a number; if that one has been used, at the end. -/
def emitAt (s : Scanner) (number : Nat) (kind : TokenKind) (mark : Mark) : Scanner :=
  let token : Token := ⟨kind, mark, mark.line⟩
  if number < s.used then { s with queue := s.queue ++ [token] }
  else
    let position := number - s.used
    { s with queue := s.queue.take position ++ token :: s.queue.drop position }

/-- Moves past the next token. -/
def useToken (s : Scanner) : Scanner :=
  { s with
    queue := s.queue.tail
    used := s.used + 1
    awaited := s.awaited.takeWhile fun entry => s.used < entry.1 }

/-! ## Candidates for a key -/

/-- No longer waits for the token with a number. -/
def forget (s : Scanner) (number : Nat) : Scanner :=
  { s with awaited := s.awaited.filter fun entry => entry.1 != number }

/-- Replaces the innermost candidate. -/
def setCandidate (s : Scanner) (k : KeyCandidate) : Scanner :=
  { s with candidates := s.candidates.pop.push k }

/-- The innermost candidate. -/
def candidate (s : Scanner) : KeyCandidate := s.candidates.back?.getD default

/-- Gives the innermost candidate up; one that had to be a key is a fault. -/
def dropCandidate (s : Scanner) : Except Fault Scanner :=
  let k := s.candidate
  if !k.possible then .ok s
  else if k.required then .error .keyWithoutColon
  else .ok ((s.setCandidate { k with possible := false }).forget k.number)

/-- Notes that a key may start here. -/
def noteCandidate (s : Scanner) : Except Fault Scanner :=
  if s.keyAllowed then do
    let required := !s.inFlow && s.columns.head? == some s.cursor.mark.column
    let s ← s.dropCandidate
    let number := s.nextNumber
    let s := (s.setCandidate ⟨true, required, number, s.cursor.mark⟩).forget number
    return { s with awaited := (number, s.candidates.size - 1) :: s.awaited }
  else .ok s

/-- Whether a candidate can still be a key. -/
def isValid (s : Scanner) (k : KeyCandidate) : Except Fault Bool :=
  if !k.possible then .ok false
  else
    let here := s.cursor.mark
    if k.mark.line < here.line || k.mark.index + 1024 < here.index then
      if k.required then .error .keyWithoutColon else .ok false
    else .ok true

/-- Whether the next token may still turn out to start a key. -/
def awaitsNext (s : Scanner) : Except Fault (Bool × Scanner) :=
  match s.awaited.find? fun entry => entry.1 = s.used with
  | none => .ok (false, s)
  | some (_, place) => do
    let k := s.candidates[place]?.getD default
    let valid ← s.isValid k
    return (valid,
      if valid then s
      else { s with candidates := s.candidates.setIfInBounds place { k with possible := false } })

/-! ## Block collections -/

/-- Opens a block collection at a column unless one is open there; its token goes before the one with
a number. -/
def openBlock (s : Scanner) (column number : Nat) (kind : TokenKind) (mark : Mark) :
    Except Fault Scanner :=
  if s.inFlow then .ok s
  else
    let deeper := match s.columns.head? with
      | some current => decide (current < column)
      | none => true
    if !deeper then .ok s
    else if 10000 ≤ s.columns.length then .error .nestedTooDeeply
    else .ok { s.emitAt number kind mark with columns := column :: s.columns }

/-- Closes the block collections that do not stay. -/
def closeBlocks (s : Scanner) (stays : Nat → Bool) : Scanner :=
  if s.inFlow then s
  else
    let closed := s.columns.takeWhile fun column => !stays column
    let mark := s.cursor.mark
    { s with
      columns := s.columns.drop closed.length
      queue := s.queue ++ closed.map fun _ => ⟨.blockEnd, mark, mark.line⟩ }

/-- Closes the block collections that the current column leaves. -/
def closeBlocksAt (s : Scanner) (column : Nat) : Scanner :=
  s.closeBlocks fun current => decide (current ≤ column)

/-- Closes every block collection. -/
def closeAllBlocks (s : Scanner) : Scanner := s.closeBlocks fun _ => false

/-! ## Tokens -/

/-- Moves over blanks, comments and line breaks to the next token.  A tab is no indentation. -/
def skipToToken : Nat → Scanner → Scanner
  | 0, s => s
  | fuel + 1, s =>
    let tabs := s.inFlow || !s.keyAllowed
    let c := s.cursor.ensure 1
    let c := if c.mark.column == 0 && c.marked then c.advance else c
    let c := c.skipAll fun ch => ch == ' ' || (tabs && ch == '\t')
    let c := if c.startsWith '#' then c.skipComments c.bound else c
    if c.breakAt 0 then
      skipToToken fuel
        { s with cursor := (c.ensure 2).skipBreak, keyAllowed := s.keyAllowed || !s.inFlow }
    else { s with cursor := c }

/-- Adds the token of an indicator. -/
def indicator (s : Scanner) (length : Nat) (kind : TokenKind) : Scanner :=
  let mark := s.cursor.mark
  { s with cursor := s.cursor.advanceBy length }.emit kind mark

/-- Opens a flow collection. -/
def openFlow (s : Scanner) (kind : TokenKind) : Except Fault Scanner := do
  let s ← s.noteCandidate
  let inner : KeyCandidate := ⟨false, false, s.nextNumber, s.cursor.mark⟩
  let s := { s with candidates := s.candidates.push inner, keyAllowed := true }
  if 10001 < s.candidates.size then throw .nestedTooDeeply else return s.indicator 1 kind

/-- Leaves the innermost flow collection, if one is open. -/
def leaveFlow (s : Scanner) : Scanner :=
  if s.inFlow then { s.forget s.candidate.number with candidates := s.candidates.pop } else s

/-- Closes a flow collection. -/
def closeFlow (s : Scanner) (kind : TokenKind) : Except Fault Scanner := do
  let s ← s.dropCandidate
  return { s.leaveFlow with keyAllowed := false }.indicator 1 kind

/-- An entry of a flow collection ends. -/
def flowEntry (s : Scanner) : Except Fault Scanner := do
  let s ← s.dropCandidate
  return { s with keyAllowed := true }.indicator 1 .flowEntry

/-- An entry of a block sequence starts. -/
def blockEntry (s : Scanner) : Except Fault Scanner := do
  if !s.inFlow && !s.keyAllowed then throw .misplacedEntry
  else
    let mark := s.cursor.mark
    let s ← s.openBlock mark.column s.nextNumber .blockSequenceStart mark
    let s ← s.dropCandidate
    return { s with keyAllowed := true }.indicator 1 .blockEntry

/-- A marked key starts. -/
def markedKey (s : Scanner) : Except Fault Scanner := do
  if !s.inFlow && !s.keyAllowed then throw .misplacedKey
  else
    let mark := s.cursor.mark
    let s ← s.openBlock mark.column s.nextNumber .blockMappingStart mark
    let s ← s.dropCandidate
    return { s with keyAllowed := !s.inFlow }.indicator 1 .key

/-- A value starts: the innermost candidate was its key, or the key was marked. -/
def value (s : Scanner) : Except Fault Scanner := do
  let k := s.candidate
  let valid ← s.isValid k
  let s := s.setCandidate { k with possible := false }
  if valid then
    let s := s.emitAt k.number .key k.mark
    let s ← s.openBlock k.mark.column k.number .blockMappingStart k.mark
    return { s.forget k.number with keyAllowed := false }.indicator 1 .value
  else if !s.inFlow && !s.keyAllowed then throw .misplacedValue
  else
    let mark := s.cursor.mark
    let s ← s.openBlock mark.column s.nextNumber .blockMappingStart mark
    return { s with keyAllowed := !s.inFlow }.indicator 1 .value

/-- Adds a token that ends at a cursor. -/
def emitUpTo (s : Scanner) (kind : TokenKind) (next : Cursor) : Scanner :=
  let mark := s.cursor.mark
  { s with cursor := next }.emit kind mark

/-- Reads an anchor or an alias. -/
def anchorToken (s : Scanner) (kind : String → TokenKind) : Except Fault Scanner := do
  let s ← s.noteCandidate
  let (name, next) ← readAnchor s.cursor
  return { s with keyAllowed := false }.emitUpTo (kind name) next

/-- Reads a tag. -/
def tagToken (s : Scanner) : Except Fault Scanner := do
  let s ← s.noteCandidate
  let (handle, suffix, next) ← readTag s.cursor
  return { s with keyAllowed := false }.emitUpTo (.tag handle suffix) next

/-- Reads a block scalar. -/
def blockToken (s : Scanner) (literal : Bool) : Except Fault Scanner := do
  let s ← s.dropCandidate
  let (text, next) ← readBlock literal s.columns.head? s.cursor
  return { s with keyAllowed := true }.emitUpTo (.scalar text false) next

/-- Reads a quoted scalar. -/
def quotedToken (s : Scanner) (single : Bool) : Except Fault Scanner := do
  let s ← s.noteCandidate
  let (text, next) ← readQuoted single s.cursor
  return { s with keyAllowed := false }.emitUpTo (.scalar text false) next

/-- Reads a plain scalar; after a line break another key may start. -/
def plainToken (s : Scanner) : Except Fault Scanner := do
  let s ← s.noteCandidate
  let indent := match s.columns.head? with
    | some column => column + 1
    | none => 0
  let (text, broken, next) ← readPlain s.inFlow indent s.cursor
  return { s with keyAllowed := broken }.emitUpTo (.scalar text true) next

/-- Whether a plain scalar may start with the next character. -/
def startsPlain (s : Scanner) (ch : Char) : Bool :=
  let indicators := "-?:,[]\x7b\x7d#&*!|>'\"%@`".toList
  !(s.cursor.gapAt 0 || indicators.contains ch) ||
    (ch == '-' && !s.cursor.blankAt 1) ||
    (!s.inFlow && (ch == '?' || ch == ':') && !s.cursor.gapAt 1)

/-- Reads the token that starts with the next character. -/
def contentToken (s : Scanner) (ch : Char) : Except Fault Scanner :=
  let gap := s.cursor.gapAt 1
  if ch == '[' then s.openFlow .flowSequenceStart
  else if ch == '\x7b' then s.openFlow .flowMappingStart
  else if ch == ']' then s.closeFlow .flowSequenceEnd
  else if ch == '\x7d' then s.closeFlow .flowMappingEnd
  else if ch == ',' then s.flowEntry
  else if ch == '-' && gap then s.blockEntry
  else if ch == '?' && (s.inFlow || gap) then s.markedKey
  else if ch == ':' && (s.inFlow || gap) then s.value
  else if ch == '*' then s.anchorToken .alias
  else if ch == '&' then s.anchorToken .anchor
  else if ch == '!' then s.tagToken
  else if ch == '|' && !s.inFlow then s.blockToken true
  else if ch == '>' && !s.inFlow then s.blockToken false
  else if ch == '\x27' then s.quotedToken true
  else if ch == '\x22' then s.quotedToken false
  else if s.startsPlain ch then s.plainToken
  else .error .strayCharacter

/-- Ends the stream: every block collection is closed, and no key may be left open. -/
def finish (s : Scanner) : Except Fault Scanner := do
  let mark := s.cursor.mark
  let mark : Mark := if mark.column = 0 then mark else ⟨mark.line + 1, 0, mark.index⟩
  let s := { s with cursor := { s.cursor with mark := mark } }.closeAllBlocks
  let s ← s.dropCandidate
  return { s with keyAllowed := false }.emit .streamEnd mark

/-- Starts or ends a document, or reads a directive. -/
def betweenDocuments (s : Scanner) : Except Fault Scanner := do
  let s ← s.closeAllBlocks.dropCandidate
  let s := { s with keyAllowed := false }
  if s.cursor.startsWith '-' then return s.indicator 3 .documentStart
  else if s.cursor.startsWith '.' then return s.indicator 3 .documentEnd
  else
    let (kind, next) ← readDirective s.cursor
    return s.emitUpTo kind next

/-- Reads the next token and the comment on its line; at the end of the text there is always another
end of the stream. -/
def scanToken (s : Scanner) : Except Fault Scanner := do
  let s := skipToToken (s.cursor.bound + 1) s
  let s := s.closeBlocksAt s.cursor.mark.column
  let s := { s with cursor := s.cursor.ensure 4 }
  match s.cursor.rest.head? with
  | none => s.finish
  | some ch =>
    let directive := s.cursor.mark.column == 0 && ch == '%'
    if directive || s.cursor.atDocumentIndicator then s.betweenDocuments
    else
      let s ← s.contentToken ch
      let entry := (s.queue.getLast?.map Token.kind) == some .blockEntry
      return if entry then s else { s with cursor := s.cursor.skipLineComment }

/-- Reads the next token; every character that was taken in for it must be allowed. -/
def step (s : Scanner) : Except Fault Scanner := do
  let s ← s.scanToken
  if s.cursor.clean then return s else throw .controlCharacter

/-- Reads tokens until three are at hand and the next one is not awaited. -/
def fill : Nat → Scanner → Except Fault Scanner
  | 0, _ => .error .nestedTooDeeply
  | fuel + 1, s =>
    if s.queue.length < 3 then do
      let s ← s.step
      fill fuel s
    else do
      let (awaits, s) ← s.awaitsNext
      if awaits then
        let s ← s.step
        fill fuel s
      else return s

/-- The scanner at the start of a text. -/
def start (text : String) : Except Fault Scanner :=
  let cursor := Cursor.start text.toList
  let first : Token := ⟨.streamStart, cursor.mark, 0⟩
  let outermost : KeyCandidate := ⟨false, false, 0, cursor.mark⟩
  if cursor.clean then .ok ⟨cursor, [first], 0, [], #[outermost], [], true⟩
  else .error .controlCharacter

end Scanner

end DocTable.Yaml
