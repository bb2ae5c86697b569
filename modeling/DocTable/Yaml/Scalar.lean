import DocTable.Text.Bytes
import DocTable.Yaml.Cursor

/-!
# Scalars

The three written forms of a scalar: plain, quoted, and the block forms that keep or fold their
lines.  In plain and quoted scalars a line break between two characters becomes a space, and further
breaks after it are kept; in quoted scalars a backslash joins lines or starts an escape.
-/

namespace DocTable.Yaml

set_option autoImplicit false

/-- A scalar being read: its characters so far, last one first, and the blanks and breaks since. -/
structure Folding where
  text : List Char
  blanks : List Char
  firstBreak : List Char
  furtherBreaks : List Char
  broken : Bool

namespace Folding

/-- Nothing read yet. -/
def empty : Folding := ⟨[], [], [], [], false⟩

/-- What pending breaks become between two characters. -/
def folded (f : Folding) : List Char :=
  match f.firstBreak with
  | '\n' :: _ => if f.furtherBreaks.isEmpty then [' '] else f.furtherBreaks
  | _ => f.firstBreak ++ f.furtherBreaks

/-- Settles the pending blanks and breaks before the next character. -/
def settle (f : Folding) : Folding :=
  if f.broken then ⟨f.folded.reverse ++ f.text, [], [], [], false⟩
  else ⟨f.blanks.reverse ++ f.text, [], [], [], false⟩

/-- Adds a character. -/
def push (f : Folding) (c : Char) : Folding := { f with text := c :: f.text }

/-- Adds a blank, which counts only before a line break. -/
def pushBlank (f : Folding) (c : Char) : Folding :=
  if f.broken then f else { f with blanks := f.blanks ++ [c] }

/-- Adds a line break. -/
def pushBreak (f : Folding) (text : List Char) : Folding :=
  if f.broken then { f with furtherBreaks := f.furtherBreaks ++ text }
  else { f with blanks := [], firstBreak := text, broken := true }

/-- The text that has been settled. -/
def result (f : Folding) : String := String.ofList f.text.reverse

end Folding

/-! ## Plain scalars -/

/-- Whether a plain scalar ends before the next character. -/
def plainEnds (flow : Bool) (c : Cursor) : Bool :=
  match c.rest.head? with
  | none => true
  | some ch =>
    isBlank ch || isBreak ch || (ch == ':' && c.gapAt 1) ||
      (flow && (ch == ',' || ch == '?' || ch == '[' || ch == ']' || ch == '\x7b' || ch == '\x7d'))

/-- Reads characters of a plain scalar up to a gap or an indicator. -/
def plainRun (flow : Bool) : Nat → Folding → Cursor → Folding × Cursor
  | 0, f, c => (f, c)
  | fuel + 1, f, c =>
    if plainEnds flow c then (f, c)
    else match c.rest with
      | ch :: _ => plainRun flow fuel (f.settle.push ch) (c.advance.ensure 2)
      | [] => (f, c)

/-- Reads the blanks and breaks inside a plain scalar; a tab must not stand in the indentation. -/
def plainGap (indent : Nat) : Nat → Folding → Cursor → Except Fault (Folding × Cursor)
  | 0, f, c => .ok (f, c)
  | fuel + 1, f, c => match c.rest with
    | ch :: _ =>
      if isBlank ch then
        if f.broken && c.mark.column < indent && ch == '\t' then .error .tabIndentation
        else plainGap indent fuel (f.pushBlank ch) (c.advance.ensure 1)
      else if isBreak ch then
        let (text, next) := (c.ensure 2).readBreak
        plainGap indent fuel (f.pushBreak text) (next.ensure 1)
      else .ok (f, c)
    | [] => .ok (f, c)

/-- Reads runs and gaps of a plain scalar. -/
def plainLoop (flow : Bool) (indent : Nat) : Nat → Folding → Cursor → Except Fault (Folding × Cursor)
  | 0, f, c => .ok (f, c)
  | fuel + 1, f, c =>
    let c := c.ensure 4
    if c.atDocumentIndicator || c.startsWith '#' then .ok (f, c)
    else do
      let (f, c) := plainRun flow c.bound f c
      if c.blankAt 0 || c.breakAt 0 then
        let (f, c) ← plainGap indent c.bound f (c.ensure 1)
        if !flow && c.mark.column < indent then return (f, c)
        else plainLoop flow indent fuel f c
      else return (f, c)

/-- Reads a plain scalar: its text, whether a line break follows it, and the cursor after it. -/
def readPlain (flow : Bool) (indent : Nat) (c : Cursor) : Except Fault (String × Bool × Cursor) := do
  let (f, c) ← plainLoop flow indent (c.bound + 1) .empty c
  return (f.result, f.broken, c)

/-! ## Quoted scalars -/

/-- The character of a one-letter escape. -/
def escapedChar? (c : Char) : Option Char :=
  match c with
  | '0' => some '\x00'
  | 'a' => some '\x07'
  | 'b' => some '\x08'
  | 't' => some '\t'
  | '\t' => some '\t'
  | 'n' => some '\n'
  | 'v' => some '\x0b'
  | 'f' => some '\x0c'
  | 'r' => some '\r'
  | 'e' => some '\x1b'
  | ' ' => some ' '
  | '\x22' => some '\x22'
  | '\x27' => some '\x27'
  | '\\' => some '\\'
  | 'N' => some '\u0085'
  | '_' => some '\u00a0'
  | 'L' => some '\u2028'
  | 'P' => some '\u2029'
  | _ => none

/-- The number of digits that follow the letter of a numeric escape. -/
def escapeDigits? (c : Char) : Option Nat :=
  if c = 'x' then some 2 else if c = 'u' then some 4 else if c = 'U' then some 8 else none

/-- The number of hexadecimal digits. -/
def hexNumber? (cs : List Char) : Option Nat :=
  cs.foldl (fun n c => do return (← n) * 16 + (← Text.hexValue? c)) (some 0)

/-- Reads an escape after the backslash: its character and the cursor after it. -/
def readEscape (c : Cursor) : Except Fault (Char × Cursor) :=
  match c.rest with
  | [] => .error .escape
  | letter :: rest => match escapedChar? letter with
    | some ch => .ok (ch, c.advance)
    | none => match escapeDigits? letter with
      | none => .error .escape
      | some count =>
        let digits := rest.take count
        match hexNumber? digits with
        | none => .error .escape
        | some n =>
          if digits.length < count || (0xD800 ≤ n && n ≤ 0xDFFF) || 0x10FFFF < n then .error .escape
          else .ok (Char.ofNat n, (c.advance.ensure count).advanceBy count)

/-- Reads characters of a quoted scalar up to a gap or the closing quote. -/
def quotedRun (single : Bool) : Nat → Folding → Cursor → Except Fault (Folding × Cursor)
  | 0, f, c => .ok (f, c)
  | fuel + 1, f, c => match c.rest with
    | [] => .ok (f, c)
    | ch :: _ =>
      if isBlank ch || isBreak ch then .ok (f, c)
      else if single then
        if ch == '\x27' then
          if c.peek? 1 == some '\x27' then
            quotedRun single fuel (f.push '\x27') ((c.advanceBy 2).ensure 2)
          else .ok (f, c)
        else quotedRun single fuel (f.push ch) (c.advance.ensure 2)
      else if ch == '\x22' then .ok (f, c)
      else if ch == '\\' then
        if c.breakAt 1 then .ok ({ f with broken := true }, (c.ensure 3).advance.skipBreak)
        else match readEscape c.advance with
          | .error e => .error e
          | .ok (escaped, next) => quotedRun single fuel (f.push escaped) (next.ensure 2)
      else quotedRun single fuel (f.push ch) (c.advance.ensure 2)

/-- Reads the blanks and breaks inside a quoted scalar. -/
def quotedGap : Nat → Folding → Cursor → Folding × Cursor
  | 0, f, c => (f, c)
  | fuel + 1, f, c => match c.rest with
    | ch :: _ =>
      if isBlank ch then quotedGap fuel (f.pushBlank ch) (c.advance.ensure 1)
      else if isBreak ch then
        let (text, next) := (c.ensure 2).readBreak
        quotedGap fuel (f.pushBreak text) (next.ensure 1)
      else (f, c)
    | [] => (f, c)

/-- Reads runs and gaps of a quoted scalar up to the closing quote. -/
def quotedLoop (single : Bool) : Nat → Folding → Cursor → Except Fault (Folding × Cursor)
  | 0, _, _ => .error .unterminatedQuote
  | fuel + 1, f, c =>
    let c := c.ensure 4
    if c.atDocumentIndicator then .error .indicatorInQuote
    else if c.atEnd then .error .unterminatedQuote
    else do
      let (f, c) ← quotedRun single c.bound f c
      let c := c.ensure 1
      if c.startsWith (if single then '\x27' else '\x22') then return (f, c)
      else
        let (f, c) := quotedGap c.bound f c
        quotedLoop single fuel f.settle c

/-- Reads a quoted scalar from its opening quote on: its text and the cursor after it. -/
def readQuoted (single : Bool) (c : Cursor) : Except Fault (String × Cursor) := do
  let (f, c) ← quotedLoop single (c.bound + 1) .empty c.advance
  return (f.result, c.advance)

/-! ## Block scalars -/

/-- What happens to the line breaks at the end of a block scalar. -/
inductive Chomping where
  | clip | strip | keep
  deriving DecidableEq

/-- Reads a chomping mark. -/
def readChomping? (c : Cursor) : Option (Chomping × Cursor) :=
  let c := c.ensure 1
  if c.startsWith '+' then some (.keep, c.advance)
  else if c.startsWith '-' then some (.strip, c.advance)
  else none

/-- Reads an indentation mark; there is none below one. -/
def readIncrement (c : Cursor) : Except Fault (Nat × Cursor) :=
  let c := c.ensure 1
  match c.rest.head? with
  | some ch =>
    if ch == '0' then .error .blockHeader
    else if ch.isDigit then .ok (ch.toNat - 48, c.advance)
    else .ok (0, c)
  | none => .ok (0, c)

/-- Reads the marks after the indicator of a block scalar, in either order. -/
def readBlockMarks (c : Cursor) : Except Fault (Chomping × Nat × Cursor) :=
  match readChomping? c with
  | some (chomping, c) => do
    let (increment, c) ← readIncrement c
    return (chomping, increment, c)
  | none => do
    let (increment, c) ← readIncrement c
    if increment = 0 then return (.clip, 0, c)
    else match readChomping? c with
      | some (chomping, c) => return (chomping, increment, c)
      | none => return (.clip, increment, c)

/-- Skips the indentation of a line: at most `indent` columns, or any number if it is not known. -/
def skipIndent (indent : Nat) : Nat → Cursor → Cursor
  | 0, c => c
  | fuel + 1, c =>
    let c := c.ensure 1
    if (indent = 0 || c.mark.column < indent) && c.startsWith ' ' then skipIndent indent fuel c.advance
    else c

/-- Reads empty lines before a line with content: their breaks and the deepest column reached. -/
def blockBreaks (indent : Nat) :
    Nat → Nat → List Char → Cursor → Except Fault (Nat × List Char × Cursor)
  | 0, deepest, breaks, c => .ok (deepest, breaks, c)
  | fuel + 1, deepest, breaks, c =>
    let c := skipIndent indent (c.bound + 1) c
    let deepest := max deepest c.mark.column
    if (indent = 0 || c.mark.column < indent) && c.startsWith '\t' then .error .tabIndentation
    else if c.breakAt 0 then
      let (text, next) := (c.ensure 2).readBreak
      blockBreaks indent fuel deepest (breaks ++ text) next
    else .ok (deepest, breaks, c)

/-- The lines of a block scalar read so far, last character first. -/
structure BlockLines where
  text : List Char
  firstBreak : List Char
  furtherBreaks : List Char
  afterBlank : Bool

/-- Settles the breaks before a line; in a folded scalar a single break between two lines that do not
start with a blank becomes a space. -/
def BlockLines.settle (b : BlockLines) (literal startsBlank : Bool) : List Char :=
  let joins := !literal && !b.afterBlank && !startsBlank && b.firstBreak.head? == some '\n'
  let joint :=
    if joins then if b.furtherBreaks.isEmpty then [' '] else [] else b.firstBreak
  (joint ++ b.furtherBreaks).reverse ++ b.text

/-- Reads the lines of a block scalar at a known indentation. -/
def blockLines (literal : Bool) (indent : Nat) :
    Nat → BlockLines → Cursor → Except Fault (BlockLines × Cursor)
  | 0, b, c => .ok (b, c)
  | fuel + 1, b, c =>
    if c.mark.column == indent && !c.atEnd then do
      let startsBlank := c.blankAt 0
      let text := b.settle literal startsBlank
      let (line, c) := c.takeWhile fun ch => !isBreak ch
      let (firstBreak, c) := (c.ensure 2).readBreak
      let (_, furtherBreaks, c) ← blockBreaks indent (c.bound + 1) 0 [] c
      blockLines literal indent fuel ⟨line.reverse ++ text, firstBreak, furtherBreaks, startsBlank⟩ c
    else .ok (b, c)

/-- Reads a block scalar from its indicator on, below a parent at a column (or at none). -/
def readBlock (literal : Bool) (parent : Option Nat) (c : Cursor) : Except Fault (String × Cursor) := do
  let (chomping, increment, c) ← readBlockMarks c.advance
  let c := c.skipBlanks
  let c := if c.startsWith '#' then c.skipLineRest else c
  if !c.breakOrEndAt 0 then .error .blockHeader
  else
    let c := if c.breakAt 0 then (c.ensure 2).skipBreak else c
    let known := if increment = 0 then 0 else (parent.getD 0) + increment
    let (deepest, breaks, c) ← blockBreaks known (c.bound + 1) 0 [] c
    let least := match parent with
      | some column => column + 1
      | none => 1
    let indent := if known = 0 then max deepest least else known
    let (b, c) ← blockLines literal indent (c.bound + 1) ⟨[], [], breaks, false⟩ c
    let tail := match chomping with
      | .strip => []
      | .clip => b.firstBreak
      | .keep => b.firstBreak ++ b.furtherBreaks
    return (String.ofList (b.text.reverse ++ tail), c)

end DocTable.Yaml
