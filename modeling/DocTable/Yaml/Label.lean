import DocTable.Text.Bytes
import DocTable.Yaml.Token

/-!
# Anchors, tags and directives

The parts of a text that name nodes and their types.  A tag is written in full between angle
brackets, or as a handle and a suffix; a handle stands for what a directive says it does.
-/

namespace DocTable.Yaml

set_option autoImplicit false

/-! ## Anchors -/

/-- Whether a character may follow the name of an anchor or an alias. -/
def endsAnchor (c : Cursor) : Bool :=
  c.gapAt 0 || c.rest.head?.any fun ch =>
    ch == '?' || ch == ':' || ch == ',' || ch == ']' || ch == '\x7d' || ch == '%' || ch == '@' ||
      ch == '\x60'

/-- Reads the name after the mark of an anchor or an alias. -/
def readAnchor (c : Cursor) : Except Fault (String × Cursor) :=
  let (name, c) := c.advance.takeWhile isWordChar
  if name.isEmpty || !endsAnchor c then .error .anchor else .ok (String.ofList name, c)

/-! ## Tags -/

/-- Whether a character may stand in the expansion of a tag. -/
def isTagChar (c : Char) : Bool :=
  isWordChar c || ";/?:@&=+$,.!~*'()[]%".toList.contains c

/-- The octet that a percent sign and two digits stand for, and the cursor after them. -/
def readOctet (c : Cursor) : Except Fault (Nat × Cursor) :=
  let c := c.ensure 3
  match c.rest with
  | '%' :: a :: b :: _ => match Text.hexValue? a, Text.hexValue? b with
    | some high, some low => .ok (16 * high + low, c.advanceBy 3)
    | _, _ => .error .tag
  | _ => .error .tag

/-- The number of octets of a character with a given first octet; some octets start none. -/
def octetCount (lead : Nat) : Nat :=
  if lead < 0x80 then 1
  else if lead < 0xC0 then 0
  else if lead < 0xE0 then 2
  else if lead < 0xF0 then 3
  else if lead < 0xF8 then 4
  else 0

/-- Reads the octets that follow the first one of a character. -/
def readTrailingOctets : Nat → Cursor → Except Fault (List UInt8 × Cursor)
  | 0, c => .ok ([], c)
  | count + 1, c => do
    let (octet, c) ← readOctet c
    if octet / 64 ≠ 2 then throw .tag
    else
      let (octets, c) ← readTrailingOctets count c
      return (UInt8.ofNat octet :: octets, c)

/-- Reads a character written as octets.  Octets that are well-formed but stand for no character
count as one character. -/
def readEscapedCharacter (c : Cursor) : Except Fault (Char × Cursor) := do
  let (lead, c) ← readOctet c
  match octetCount lead with
  | 0 => throw .tag
  | count + 1 =>
    let (octets, c) ← readTrailingOctets count c
    return ((Text.charsFrom 0 (UInt8.ofNat lead :: octets)).headD Text.replacement, c)

/-- Reads characters of a tag with their escapes undone, last one first. -/
def readTagCharacters : Nat → List Char → Cursor → Except Fault (List Char × Cursor)
  | 0, text, c => .ok (text, c)
  | fuel + 1, text, c =>
    let c := c.ensure 1
    match c.rest.head? with
    | some ch =>
      if ch = '%' then do
        let (escaped, c) ← readEscapedCharacter c
        readTagCharacters fuel (escaped :: text) c
      else if isTagChar ch then readTagCharacters fuel (ch :: text) c.advance
      else .ok (text, c)
    | none => .ok (text, c)

/-- Reads the characters of a tag; there must be one unless something was read before. -/
def readTagText (before : List Char) (started : Bool) (c : Cursor) : Except Fault (String × Cursor) := do
  let (text, c) ← readTagCharacters (c.bound + 1) [] c
  if text.isEmpty && !started then throw .tag
  else return (String.ofList (before ++ text.reverse), c)

/-- Reads a handle: an exclamation mark, and a word with another one after it if there is one. -/
def readHandle (c : Cursor) : Except Fault (List Char × Cursor) :=
  let c := c.ensure 1
  if !c.startsWith '!' then .error .tag
  else
    let (word, c) := c.advance.takeWhile isWordChar
    if c.startsWith '!' then .ok ('!' :: word ++ ['!'], c.advance) else .ok ('!' :: word, c)

/-- Whether a handle has a mark at both ends. -/
def isFullHandle (handle : List Char) : Bool :=
  1 < handle.length && handle.getLast? == some '!'

/-- Reads a tag: its handle, empty for one written in full, and its suffix. -/
def readTag (c : Cursor) : Except Fault (String × String × Cursor) := do
  let c := c.ensure 2
  let (handle, suffix, c) ←
    if c.peek? 1 == some '<' then do
      let (suffix, c) ← readTagText [] false (c.advanceBy 2)
      if c.startsWith '>' then pure ("", suffix, c.advance) else throw .tag
    else do
      let (handle, c) ← readHandle c
      if isFullHandle handle then
        let (suffix, c) ← readTagText [] false c
        pure (String.ofList handle, suffix, c)
      else
        let (suffix, c) ← readTagText (handle.drop 1) true c
        if suffix = "" then pure ("", "!", c) else pure ("!", suffix, c)
  let c := c.ensure 1
  if c.gapAt 0 then return (handle, suffix, c) else throw .tag

/-! ## Directives -/

/-- Reads a number of at most two digits. -/
def readVersionNumber (c : Cursor) : Except Fault (Nat × Cursor) :=
  let (digits, c) := c.takeWhile Char.isDigit
  if digits.isEmpty || 2 < digits.length then .error .directive
  else .ok (digits.foldl (fun n d => 10 * n + (d.toNat - 48)) 0, c)

/-- Reads the two numbers of a version. -/
def readVersion (c : Cursor) : Except Fault (TokenKind × Cursor) := do
  let (major, c) ← readVersionNumber c.skipBlanks
  if c.startsWith '.' then
    let (minor, c) ← readVersionNumber c.advance
    return (.versionDirective major minor, c)
  else throw .directive

/-- Reads a handle and what it stands for. -/
def readTagDirective (c : Cursor) : Except Fault (TokenKind × Cursor) := do
  let (handle, c) ← readHandle c.skipBlanks
  let c := c.ensure 1
  if !(isFullHandle handle || handle.length = 1) || !c.blankAt 0 then throw .directive
  else
    let (expansion, c) ← readTagText [] false c.skipBlanks
    if c.gapAt 0 then return (.tagDirective (String.ofList handle) expansion, c)
    else throw .directive

/-- Reads a directive and the rest of its line. -/
def readDirective (c : Cursor) : Except Fault (TokenKind × Cursor) := do
  let (name, c) := c.advance.takeWhile isWordChar
  if name.isEmpty || !c.gapAt 0 then throw .directive
  else
    let (kind, c) ←
      if String.ofList name = "YAML" then readVersion c
      else if String.ofList name = "TAG" then readTagDirective c
      else throw .directive
    let c := c.skipBlanks
    let c := if c.startsWith '#' then c.skipLineRest else c
    if !c.breakOrEndAt 0 then throw .directive
    else return (kind, if c.breakAt 0 then (c.ensure 2).skipBreak else c)

end DocTable.Yaml
