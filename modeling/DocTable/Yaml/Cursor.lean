import DocTable.Yaml.Fault

/-!
# A place in a text

Scanning moves a cursor over the characters that are left.  The cursor knows the line and column it
is at, how many characters it has passed, and how many line breaks it has passed since the last
character that is not blank.  A line ends at a line feed, a carriage return, the two together, or one
of the three other break characters.

A text is taken in piece by piece, as far as the scanner asks for it, and a piece has at most 512
octets.  So a character that no text may hold is a fault only once its piece has been taken in.  Each
time more is taken in, the view on the text starts anew at the cursor; if it starts with a byte order
mark, every line that starts within this view loses its first character.
-/

namespace DocTable.Yaml

set_option autoImplicit false

/-- Where something stands: line and column from zero, and the number of characters before it. -/
structure Mark where
  line : Nat
  column : Nat
  index : Nat
  deriving DecidableEq, Repr, Inhabited

/-- The characters that are left, and where they start. -/
structure Cursor where
  rest : List Char
  /-- A bound on the number of characters that are left. -/
  bound : Nat
  mark : Mark
  /-- The line breaks since the last character that is not blank. -/
  breaks : Nat
  /-- The number of characters in view; the end of the text counts each time it is looked at. -/
  inView : Nat
  /-- Whether the view started with a byte order mark. -/
  marked : Bool
  /-- Whether every character taken in so far is allowed. -/
  clean : Bool
  deriving Repr, Inhabited

/-- Whether a character ends a line. -/
def isBreak (c : Char) : Bool :=
  c == '\n' || c == '\r' || c == '\u0085' || c == '\u2028' || c == '\u2029'

/-- Whether a character is a space or a tab. -/
def isBlank (c : Char) : Bool := c == ' ' || c == '\t'

/-- Whether a character may stand in the name of an anchor or a handle. -/
def isWordChar (c : Char) : Bool := c.isAlphanum || c == '_' || c == '-'

/-- Whether a text may hold a character at all. -/
def isAllowed (c : Char) : Bool :=
  let n := c.toNat
  n == 0x09 || n == 0x0A || n == 0x0D || (0x20 ≤ n && n ≤ 0x7E) || n == 0x85 ||
    (0xA0 ≤ n && n ≤ 0xD7FF) || (0xE000 ≤ n && n ≤ 0xFFFD) || 0x10000 ≤ n

namespace Cursor

/-- The number of characters at the front that have at most `room` octets together. -/
def pieceLength : Nat → List Char → Nat
  | _, [] => 0
  | room, ch :: rest => if ch.utf8Size ≤ room then pieceLength (room - ch.utf8Size) rest + 1 else 0

/-- The number of octets that are taken in at once. -/
def pieceSize : Nat := 512

/-- Takes in pieces until `count` characters are in view; at the end of the text the view grows by
one only. -/
def takeIn (count : Nat) : Nat → Cursor → Cursor
  | 0, c => c
  | fuel + 1, c =>
    if count ≤ c.inView then c
    else
      let unseen := c.rest.drop c.inView
      let length := pieceLength pieceSize unseen
      if length = 0 then { c with inView := c.inView + 1 }
      else takeIn count fuel
        { c with inView := c.inView + length, clean := c.clean && (unseen.take length).all isAllowed }

/-- Whether the next character is a byte order mark. -/
def atOrderMark (c : Cursor) : Bool := c.rest.head? == some '\uFEFF'

/-- Brings the next `count` characters into view, which moves the view if they are not there yet. -/
def ensure (count : Nat) (c : Cursor) : Cursor :=
  if count ≤ c.inView then c else takeIn count count { c with marked := c.atOrderMark }

/-- Brings the next characters into view one by one. -/
def lookAhead : Nat → Cursor → Cursor
  | 0, c => c
  | count + 1, c => (lookAhead count c).ensure (count + 1)

/-- A cursor at the start of a text.  A byte order mark there is no part of the text, though it fills
the first piece with it. -/
def start : List Char → Cursor
  | '\uFEFF' :: rest =>
    let length := pieceLength (pieceSize - 3) rest
    let c : Cursor :=
      ⟨rest, rest.length, ⟨0, 0, 0⟩, 0, length, false, (rest.take length).all isAllowed⟩
    { c with marked := c.atOrderMark }.ensure 1
  | cs => ensure 1 ⟨cs, cs.length, ⟨0, 0, 0⟩, 0, 0, false, true⟩

/-- The character some places ahead. -/
def peek? (c : Cursor) (ahead : Nat) : Option Char := c.rest[ahead]?

/-- Whether the next character is the given one. -/
def startsWith (c : Cursor) (ch : Char) : Bool := c.rest.head? == some ch

/-- Whether the text has ended. -/
def atEnd (c : Cursor) : Bool := c.rest.isEmpty

/-- Whether a blank is some places ahead. -/
def blankAt (c : Cursor) (ahead : Nat) : Bool := (c.peek? ahead).any isBlank

/-- Whether a line break is some places ahead. -/
def breakAt (c : Cursor) (ahead : Nat) : Bool := (c.peek? ahead).any isBreak

/-- Whether a line break or the end of the text is some places ahead. -/
def breakOrEndAt (c : Cursor) (ahead : Nat) : Bool := (c.peek? ahead).all isBreak

/-- Whether a blank, a line break or the end of the text is some places ahead. -/
def gapAt (c : Cursor) (ahead : Nat) : Bool :=
  (c.peek? ahead).all fun ch => isBlank ch || isBreak ch

/-- The cursor after one character of a line, or after the end of the text has been taken for one. -/
def advance (c : Cursor) : Cursor :=
  { c with
    rest := c.rest.tail
    mark := { c.mark with column := c.mark.column + 1, index := c.mark.index + 1 }
    breaks := if c.rest.head?.any isBlank then c.breaks else 0
    inView := c.inView - 1 }

/-- The cursor after some characters of a line. -/
def advanceBy : Nat → Cursor → Cursor
  | 0, c => c
  | n + 1, c => advanceBy n c.advance

/-- The text of the line break at the cursor and the cursor after it.  The common breaks are all
written as a line feed. -/
def readBreak (c : Cursor) : List Char × Cursor :=
  let next (used : Nat) (rest : List Char) : Cursor :=
    { c with
      rest := rest
      mark := ⟨c.mark.line + 1, 0, c.mark.index + used⟩
      breaks := c.breaks + 1
      inView := c.inView - used }
  match c.rest with
  | '\r' :: '\n' :: rest => (['\n'], next 2 rest)
  | ch :: rest =>
    if ch == '\u2028' || ch == '\u2029' then ([ch], next 1 rest)
    else if isBreak ch then (['\n'], next 1 rest)
    else ([], c)
  | [] => ([], c)

/-- The cursor after the line break it is at. -/
def skipBreak (c : Cursor) : Cursor := c.readBreak.2

/-- The cursor after the characters of a line that satisfy a predicate. -/
def skipWhile (p : Char → Bool) : Nat → Cursor → Cursor
  | 0, c => c
  | fuel + 1, c =>
    let c := c.ensure 1
    if c.rest.head?.any p then skipWhile p fuel c.advance else c

/-- The cursor after all the characters of a line that satisfy a predicate. -/
def skipAll (c : Cursor) (p : Char → Bool) : Cursor := c.skipWhile p (c.bound + 1)

/-- The cursor after spaces and tabs. -/
def skipBlanks (c : Cursor) : Cursor := c.skipAll isBlank

/-- The cursor at the end of its line. -/
def skipLineRest (c : Cursor) : Cursor := c.skipAll fun ch => !isBreak ch

/-- The characters of a line that satisfy a predicate, and the cursor after them. -/
def takeWhile (c : Cursor) (p : Char → Bool) : List Char × Cursor :=
  (c.rest.takeWhile p, c.skipAll p)

/-- Whether a document indicator made of three equal characters starts at the cursor. -/
def atIndicator (c : Cursor) (ch : Char) : Bool :=
  c.mark.column == 0 && c.peek? 0 == some ch && c.peek? 1 == some ch && c.peek? 2 == some ch &&
    c.gapAt 3

/-- Whether a document starts or ends at the cursor. -/
def atDocumentIndicator (c : Cursor) : Bool := c.atIndicator '-' || c.atIndicator '.'

/-- The cursor moved over characters and line breaks until it has passed `index` characters. -/
def moveTo (index : Nat) : Nat → Cursor → Cursor
  | 0, c => c
  | fuel + 1, c =>
    if index ≤ c.mark.index then c
    else
      let c := c.ensure 1
      moveTo index fuel (if c.breakAt 0 then (c.ensure 2).skipBreak else c.advance)

/-- The number of blanks and plain line ends at the front, up to 511 after the first character. -/
def gapLength (cs : List Char) : Nat :=
  ((cs.take 512).takeWhile fun ch => isBlank ch || ch == '\n' || ch == '\r').length

/-- The number of characters that are looked at to find the end of a gap; of a line break that has
more than one octet also the second octet is looked at. -/
def gapView (cs : List Char) (gap : Nat) : Nat :=
  if 511 < gap then 512
  else if (cs[gap]?).any isBreak then min 512 (gap + 2)
  else gap + 1

/-- The cursor after a run of comments, from the mark of the first one on: as long as only blanks
and line ends stand before another comment mark, that comment belongs to the run. -/
def skipComments : Nat → Cursor → Cursor
  | 0, c => c
  | fuel + 1, c =>
    let c := c.skipLineRest
    let gap := gapLength c.rest
    let c := c.lookAhead (max 2 (gapView c.rest gap))
    if 0 < gap && gap < 512 && c.peek? gap == some '#' then
      skipComments fuel (c.moveTo (c.mark.index + gap) gap)
    else c

/-- The cursor after a comment on the line of the token before it, if there is one. -/
def skipLineComment (c : Cursor) : Cursor :=
  if 0 < c.breaks then c
  else
    let gap := ((c.rest.take 512).takeWhile isBlank).length
    let c := c.lookAhead (min 512 (gap + 1))
    if gap < 512 && c.peek? gap == some '#' then (c.skipBlanks).skipLineRest else c

end Cursor

end DocTable.Yaml
