import DocTable.Document.Parse
import DocTable.Json.Reader
import DocTable.Text.Case
import DocTable.Yaml.Content

/-!
# Documents inside other texts

A document can be a field of a larger record.  In YAML a missing or null field leaves no document;
in JSON the name of the field is matched whatever its case, every field of that name is read, the
last one stays, and null is no document.
-/

namespace DocTable

set_option autoImplicit false

/-- Why a field of a record is no document. -/
inductive EmbeddedError where
  | yaml (fault : Yaml.Fault)
  | json (fault : JsonFault)
  | notAnObject (line : Nat)
  | document (cause : DocumentError)
  deriving DecidableEq, Repr

/-- The wording of an error in a field. -/
def EmbeddedError.message : EmbeddedError → String
  | .yaml fault => fault.message
  | .json fault => fault.message
  | .notAnObject line => "line " ++ toString line ++ ": expected an object"
  | .document cause => cause.message

namespace Document

/-- The document of a node. -/
def ofYamlNode : Yaml.Node → Except EmbeddedError Value
  | .mapping _ _ pairs => match ofPairs pairs with
    | .ok d => .ok (.document d)
    | .error cause => .error (.document cause)
  | node => .error (.notAnObject node.line)

/-- The document in a field of a YAML record. -/
def ofYamlField (name text : String) : Except EmbeddedError (Option Document) := do
  let content ← Yaml.loadText ⟨.yaml, ofYamlNode⟩ (.record [(name, .document)]) text
  return match Yaml.field? name content with
    | some (.document d) => some d
    | _ => none

/-- The last document among members of a name, each of which must be one. -/
def lastOf (name : String) (found : Option Document) :
    List (String × String) → Except DocumentError (Option Document)
  | [] => .ok found
  | (key, written) :: rest =>
    if Text.equalFold key name then do
      let d ← parse written
      lastOf name (some d) rest
    else lastOf name found rest

/-- The document in a field of a JSON record. -/
def ofJsonField (name text : String) : Except EmbeddedError (Option Document) :=
  match Json.members text with
  | .error fault => .error (.json fault)
  | .ok none => .ok none
  | .ok (some members) => match lastOf name none members with
    | .ok d => .ok d
    | .error cause => .error (.document cause)

end Document

end DocTable
