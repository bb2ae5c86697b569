import DocTable.Document.Basic
import DocTable.Text.Quoted
import DocTable.Value.Basic
import DocTable.Yaml.Document

/-!
# Documents from text

A document is written in YAML, of which JSON is a part.  Objects keep the order of their fields and
repeated ones; an integer that does not fit 64 bits is kept as its text.  Only the first document of
a text counts, and an empty text is an empty document.
-/

namespace DocTable

set_option autoImplicit false

open Number

/-- Why a text is no document. -/
inductive DocumentError where
  | malformed (fault : Yaml.Fault)
  | notAnObject (line : Nat)
  | scalar (fault : Yaml.Fault)
  | field (name : String) (cause : DocumentError)
  deriving DecidableEq, Repr

/-- The wording of a document error. -/
def DocumentError.message : DocumentError → String
  | .malformed fault => "parse document: " ++ fault.message
  | .notAnObject line => "parse document: expected an object at line " ++ toString line
  | .scalar fault => fault.message
  | .field name cause => "field " ++ Text.quoted name ++ ": " ++ cause.message

namespace Document

/-- Whether a text is an integer in decimal digits. -/
def isIntegerText (text : String) : Bool :=
  let digits := (takeSign text.toList).2
  !digits.isEmpty && digits.all isDigit

/-- The value of a scalar with a given short tag. -/
def ofScalar (shortTag tag : String) (plain : Bool) (text : String) : Except Yaml.Fault Value :=
  let meaning := Yaml.Node.meaning tag plain text
  if shortTag = Yaml.StandardTag.null.short then .ok .null
  else if shortTag = Yaml.StandardTag.bool.short then
    match meaning with
    | .ok (.bool value) => .ok (.bool value)
    | .ok _ => .error .mismatch
    | .error fault => .error fault
  else if shortTag = Yaml.StandardTag.int.short then
    match meaning with
    | .ok (.int n) => if n < 0x8000000000000000 then .ok (.int64 n) else .ok (.numeral text)
    | _ => .ok (.numeral text)
  else if shortTag = Yaml.StandardTag.float.short then
    if isIntegerText text then .ok (.numeral text)
    else match meaning with
      | .ok (.float x) => .ok (.double x)
      | .ok _ => .error .mismatch
      | .error fault => .error fault
  else .ok (.text text)

mutual
/-- The value of a node. -/
def ofNode : Yaml.Node → Except DocumentError Value
  | .scalar line tag plain text =>
    match ofScalar (Yaml.Node.scalar line tag plain text).shortTag tag plain text with
    | .ok value => .ok value
    | .error fault => .error (.scalar fault)
  | .sequence _ _ items => do
    let values ← ofNodes items
    return .list values
  | .mapping _ _ pairs => do
    let fields ← ofPairs pairs
    return .document fields
  | .alias _ _ target => ofNode target
  | .enclosing _ name _ => .error (.scalar (.containsItself name))

/-- The values of listed nodes. -/
def ofNodes : List Yaml.Node → Except DocumentError (List Value)
  | [] => .ok []
  | node :: rest => do
    let first ← ofNode node
    let tail ← ofNodes rest
    return first :: tail

/-- The fields of a mapping. -/
def ofPairs : List (Yaml.Node × Yaml.Node) → Except DocumentError Document
  | [] => .ok []
  | (key, node) :: rest => match ofNode node with
    | .error cause => .error (.field key.text cause)
    | .ok value => do
      let tail ← ofPairs rest
      return (key.text, value) :: tail
end

/-- Reads a document. -/
def parse (text : String) : Except DocumentError Document :=
  match Yaml.read text with
  | .error fault => .error (.malformed fault)
  | .ok none => .ok []
  | .ok (some ⟨.mapping _ _ pairs, _⟩) => ofPairs pairs
  | .ok (some tree) => .error (.notAnObject tree.root.line)

end Document

end DocTable
