import DocTable.Text.Bytes

/-!
# JSON texts

The values of the interchange format as they are written: a number is kept as its text, and an
object lists its members in the order in which they are printed.  Two layouts are offered, one
without any blanks and one with a line for every member, indented by two.  Both escape the
characters that are special inside markup, so that a text can stand in a page.

A string may have octets that are no text.  Each of those that belong to no character is written as
the escaped replacement character, so the layouts do not tell them apart.
-/

namespace DocTable

set_option autoImplicit false

/-- A value of the interchange format. -/
inductive Json where
  | null
  | bool (value : Bool)
  | number (text : String)
  | string (text : String)
  /-- A string of octets that are no text. -/
  | raw (octets : Text.Raw)
  | array (items : List Json)
  | object (members : List (String × Json))
  deriving Repr, BEq, Inhabited

namespace Json

/-- The integer as a number. -/
def int (n : Int) : Json := .number (toString n)

/-- The natural number as a number. -/
def nat (n : Nat) : Json := .number (toString n)

/-- A list of texts. -/
def strings (texts : List String) : Json := .array (texts.map .string)

/-- A value, or null. -/
def ofOption {α : Type} (f : α → Json) : Option α → Json
  | none => .null
  | some a => f a

/-! ## Layout -/

/-- The form of a character inside a string. -/
def escapeChar (c : Char) : String :=
  let n := c.toNat
  if c = '\x22' then "\\\""
  else if c = '\\' then "\\\\"
  else if n = 8 then "\\b"
  else if n = 12 then "\\f"
  else if n = 10 then "\\n"
  else if n = 13 then "\\r"
  else if n = 9 then "\\t"
  else if n < 32 ∨ c = '<' ∨ c = '>' ∨ c = '&' ∨ n = 0x2028 ∨ n = 0x2029 then
    "\\u" ++ Text.hexNat 4 n
  else String.singleton c

/-- A text as a string of the format. -/
def quote (text : String) : String :=
  "\"" ++ String.join (text.toList.map escapeChar) ++ "\""

/-- The form of a character inside a string, or of an octet that belongs to none. -/
def escapeMark : Option Char → String
  | some c => escapeChar c
  | none => "\\ufffd"

/-- Octets that are no text as a string of the format. -/
def quoteRaw (raw : Text.Raw) : String :=
  "\"" ++ String.join (raw.marks.map escapeMark) ++ "\""

mutual
/-- A value without blanks. -/
def compact : Json → String
  | .null => "null"
  | .bool b => if b then "true" else "false"
  | .number t => t
  | .string t => quote t
  | .raw octets => quoteRaw octets
  | .array items => "[" ++ ",".intercalate (compactItems items) ++ "]"
  | .object members => "\x7b" ++ ",".intercalate (compactMembers members) ++ "\x7d"

/-- The items of an array without blanks. -/
def compactItems : List Json → List String
  | [] => []
  | v :: rest => v.compact :: compactItems rest

/-- The members of an object without blanks. -/
def compactMembers : List (String × Json) → List String
  | [] => []
  | (k, v) :: rest => (quote k ++ ":" ++ v.compact) :: compactMembers rest
end

/-- A new line at a depth. -/
def newline (depth : Nat) : String := "\n" ++ String.ofList (List.replicate (2 * depth) ' ')

mutual
/-- A value with a line for every member and item; empty arrays and objects stay on theirs. -/
def indented (depth : Nat) : Json → String
  | .null => "null"
  | .bool b => if b then "true" else "false"
  | .number t => t
  | .string t => quote t
  | .raw octets => quoteRaw octets
  | .array [] => "[]"
  | .array (v :: rest) =>
    "[" ++ ",".intercalate (indentedItems (depth + 1) (v :: rest)) ++ newline depth ++ "]"
  | .object [] => "\x7b\x7d"
  | .object (m :: rest) =>
    "\x7b" ++ ",".intercalate (indentedMembers (depth + 1) (m :: rest)) ++ newline depth ++ "\x7d"

/-- The items of an array, each on a line of its own. -/
def indentedItems (depth : Nat) : List Json → List String
  | [] => []
  | v :: rest => (newline depth ++ v.indented depth) :: indentedItems depth rest

/-- The members of an object, each on a line of its own. -/
def indentedMembers (depth : Nat) : List (String × Json) → List String
  | [] => []
  | (k, v) :: rest =>
    (newline depth ++ quote k ++ ": " ++ v.indented depth) :: indentedMembers depth rest
end

end Json

end DocTable
