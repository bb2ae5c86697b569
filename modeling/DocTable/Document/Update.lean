import DocTable.Document.Basic
import DocTable.Text.Quoted

/-!
# Update directives

An update document holds directives: `$set` gives fields values, `$inc` adds to them, `$unset`
removes them.  Reading it collects the fields of each kind, in the order in which the kinds first
occur; a repeated directive continues the first one.
-/

namespace DocTable

set_option autoImplicit false

/-- What a directive does to its fields. -/
inductive DirectiveKind where
  | set | inc | unset
  deriving DecidableEq, Repr, Inhabited

namespace DirectiveKind

/-- The key of a directive. -/
def key : DirectiveKind → String
  | .set => "$set"
  | .inc => "$inc"
  | .unset => "$unset"

/-- The directive of a key. -/
def ofKey? (key : String) : Option DirectiveKind :=
  [DirectiveKind.set, .inc, .unset].find? fun kind => kind.key = key

end DirectiveKind

/-- A directive with its fields. -/
structure Directive where
  kind : DirectiveKind
  fields : Document
  deriving Repr, Inhabited

/-- Why a document is no update. -/
inductive UpdateError where
  | unknownDirective (name : String)
  | notAnObject (directive typeName : String)
  deriving DecidableEq, Repr

/-- The wording of an update error. -/
def UpdateError.message : UpdateError → String
  | .unknownDirective name => "unknown update directive " ++ Text.quoted name
  | .notAnObject directive typeName =>
    "directive " ++ directive ++ ": expected an object, got " ++ typeName

namespace Directive

/-- The fields that a directive's value lists. -/
def fieldsOf? : Value → Option Document
  | .document fields => some fields
  | .map fields => some (Document.ofMap fields)
  | .null => some []
  | _ => none

/-- Reads one field of an update document. -/
def ofField (key : String) (value : Value) : Except UpdateError Directive :=
  match DirectiveKind.ofKey? key with
  | none => .error (.unknownDirective key)
  | some kind => match fieldsOf? value with
    | none => .error (.notAnObject key value.typeName)
    | some fields => .ok ⟨kind, fields⟩

/-- Adds a directive to those before it: a kind that is there already gets the new fields at its
end. -/
def merge (directive : Directive) : List Directive → List Directive
  | [] => [directive]
  | first :: rest =>
    if first.kind = directive.kind then
      { first with fields := first.fields ++ directive.fields } :: rest
    else first :: merge directive rest

/-- Reads the fields of an update document after the directives found so far. -/
def collect (found : List Directive) : Document → Except UpdateError (List Directive)
  | [] => .ok found
  | (key, value) :: rest => match ofField key value with
    | .error e => .error e
    | .ok directive => collect (merge directive found) rest

/-- The directives of an update document. -/
def ofDocument (d : Document) : Except UpdateError (List Directive) := collect [] d

end Directive

end DocTable
