import DocTable.Store.Stored
import DocTable.Text.Blank

/-!
# Archives

The entries of a store as a text, for keeping them in a file: a line for every entry, on it words
with blanks between them.  Octets are written as hexadecimal digits after a dot, a collection ends
with a word of its own.  Reading takes back what writing gives; anything else is refused.
-/

namespace DocTable.Archive

set_option autoImplicit false

/-! ## Writing -/

/-- Octets as a word. -/
def octets (bytes : Bytes) : String := "." ++ Text.hex bytes

/-- A text as a word. -/
def word (text : String) : String := octets (Text.utf8 text)

/-- The word that ends a collection. -/
def ending : String := "end"

mutual
/-- The words of a stored value. -/
def valueWords : Stored → List String
  | .text tag value => ["text", word tag, word value]
  | .raw tag value => ["text", word tag, octets value.octets]
  | .flag tag value => ["flag", word tag, if value then "yes" else "no"]
  | .bytes tag value => ["bytes", word tag, octets value]
  | .texts tag members => ["texts", word tag] ++ members.map word ++ [ending]
  | .byteStrings tag members => ["octets", word tag] ++ members.map octets ++ [ending]
  | .fields tag named => ["fields", word tag] ++ fieldWords named ++ [ending]
  | .items tag listed => ["items", word tag] ++ itemWords listed ++ [ending]

/-- The words of stored fields. -/
def fieldWords : List (String × Stored) → List String
  | [] => []
  | (name, value) :: rest => word name :: valueWords value ++ fieldWords rest

/-- The words of stored items of a list. -/
def itemWords : List Stored → List String
  | [] => []
  | value :: rest => valueWords value ++ itemWords rest
end

/-- The line of an entry. -/
def line (entry : Bytes × StoredItem) : String :=
  " ".intercalate (octets entry.1 :: fieldWords entry.2 ++ [ending]) ++ "\n"

/-- The text of entries. -/
def write (entries : List (Bytes × StoredItem)) : String := String.join (entries.map line)

/-! ## Reading -/

/-- The octets of a word. -/
def octets? (word : String) : Option Bytes := match word.toList with
  | '.' :: digits => Text.unhex? digits
  | _ => none

/-- The text of a word. -/
def text? (word : String) : Option String := (octets? word).map Text.ofBytes

/-- The words before the end of a collection, each read, and the words after it. -/
def members? {α : Type} (read? : String → Option α) : List String → Option (List α × List String)
  | [] => none
  | word :: rest =>
    if word = ending then some ([], rest)
    else do
      let first ← read? word
      let (others, rest) ← members? read? rest
      return (first :: others, rest)

mutual
/-- The first stored value of words, and the words after it.  The number bounds the depth and the
length of collections. -/
def value? : Nat → List String → Option (Stored × List String)
  | fuel + 1, kind :: tag :: rest => do
    let tag ← text? tag
    match kind, rest with
    | "text", word :: rest => match Text.read (← octets? word) with
      | .ok value => return (.text tag value, rest)
      | .error raw => return (.raw tag raw, rest)
    | "flag", word :: rest => return (.flag tag (word = "yes"), rest)
    | "bytes", word :: rest => return (.bytes tag (← octets? word), rest)
    | "texts", rest =>
      let (members, rest) ← members? text? rest
      return (.texts tag members, rest)
    | "octets", rest =>
      let (members, rest) ← members? octets? rest
      return (.byteStrings tag members, rest)
    | "fields", rest =>
      let (named, rest) ← fields? fuel rest
      return (.fields tag named, rest)
    | "items", rest =>
      let (listed, rest) ← items? fuel rest
      return (.items tag listed, rest)
    | _, _ => none
  | _, _ => none

/-- The stored fields before the end of a collection, and the words after it. -/
def fields? : Nat → List String → Option (List (String × Stored) × List String)
  | fuel + 1, word :: rest =>
    if word = ending then some ([], rest)
    else do
      let name ← text? word
      let (first, rest) ← value? fuel rest
      let (others, rest) ← fields? fuel rest
      return ((name, first) :: others, rest)
  | _, _ => none

/-- The stored items before the end of a collection, and the words after it. -/
def items? : Nat → List String → Option (List Stored × List String)
  | fuel + 1, word :: rest =>
    if word = ending then some ([], rest)
    else do
      let (first, rest) ← value? fuel (word :: rest)
      let (others, rest) ← items? fuel rest
      return (first :: others, rest)
  | _, _ => none
end

/-- The entry of a line. -/
def entry? (line : String) : Option (Bytes × StoredItem) := match Text.split ' ' line with
  | key :: words => do
    let key ← octets? key
    match ← fields? (words.length + 1) words with
    | (item, []) => return (key, item)
    | _ => none
  | [] => none

/-- The entries of lines. -/
def entries? : List String → Option (List (Bytes × StoredItem))
  | [] => some []
  | line :: rest =>
    if line = "" then entries? rest
    else do
      let first ← entry? line
      let others ← entries? rest
      return first :: others

/-- The entries of a text. -/
def read? (text : String) : Option (List (Bytes × StoredItem)) := entries? (Text.split '\n' text)

end DocTable.Archive
