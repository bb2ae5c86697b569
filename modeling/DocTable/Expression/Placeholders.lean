import DocTable.Attribute.Encode
import DocTable.Document.Update

/-!
# Writing expressions

An expression does not hold names and values but placeholders for them, which are numbered in the
order in which they are given out.  A field of a document takes one number for its name `#k<n>` and
its value `:v<n>`; a field whose value cannot be encoded has used up its number all the same.

A `Clause` collects the fragments of one expression.  Several clauses of a request share their
placeholders, so no number is given out twice.
-/

namespace DocTable

set_option autoImplicit false

/-- The placeholders given out so far, and the number of the next one. -/
structure Placeholders where
  counter : Nat
  names : Fields String
  values : Fields AttributeValue
  deriving Repr, Inhabited

/-- Why a field has no fragment. -/
structure FieldError where
  name : String
  cause : EncodeError
  deriving Repr

/-- The wording of a field error. -/
def FieldError.message (e : FieldError) : String :=
  "field " ++ Text.quoted e.name ++ ": " ++ e.cause.message

namespace Placeholders

/-- No placeholders yet. -/
def empty : Placeholders := ⟨0, [], []⟩

/-- The placeholder of a name. -/
def nameToken (n : Nat) : String := "#k" ++ toString n

/-- The placeholder of a value. -/
def valueToken (n : Nat) : String := ":v" ++ toString n

/-- Gives the next number to a name. -/
def bindName (p : Placeholders) (name : String) : Placeholders :=
  { p with counter := p.counter + 1, names := Keyed.insert (nameToken p.counter) name p.names }

/-- Binds the value placeholder of a number. -/
def bindValue (p : Placeholders) (n : Nat) (value : AttributeValue) : Placeholders :=
  { p with values := Keyed.insert (valueToken n) value p.values }

/-- The names, if there are any. -/
def names? (p : Placeholders) : Option (Fields String) :=
  if p.names.isEmpty then none else some p.names

/-- The values, if there are any. -/
def values? (p : Placeholders) : Option (Fields AttributeValue) :=
  if p.values.isEmpty then none else some p.values

end Placeholders

/-- An expression in the making. -/
structure Clause where
  placeholders : Placeholders
  fragments : List String
  deriving Repr, Inhabited

namespace Clause

/-- A clause without fragments. -/
def start (p : Placeholders) : Clause := ⟨p, []⟩

/-- Adds a bare name. -/
def name (c : Clause) (field : String) : Clause :=
  ⟨c.placeholders.bindName field,
    c.fragments ++ [Placeholders.nameToken c.placeholders.counter]⟩

/-- Adds a name and its value with the given text between them. -/
def joined (c : Clause) (field : String) (operand : Value) (glue : String) :
    Clause × Option FieldError :=
  let n := c.placeholders.counter
  let p := c.placeholders.bindName field
  match operand.encode with
  | .error cause => (⟨p, c.fragments⟩, some ⟨field, cause⟩)
  | .ok value =>
    (⟨p.bindValue n value,
      c.fragments ++ [Placeholders.nameToken n ++ glue ++ Placeholders.valueToken n]⟩, none)

/-- Adds a term of a filter. -/
def term (c : Clause) (field : String) (r : Resolved) : Clause × Option FieldError :=
  c.joined field r.operand (" " ++ r.symbol ++ " ")

/-- Adds a name and its value with the given text between them; without such a text it is a term. -/
def glued (c : Clause) (field : String) (r : Resolved) (glue : String) :
    Clause × Option FieldError :=
  if glue = "" then c.term field r else c.joined field r.operand glue

/-- Adds terms in order, up to the first that has no fragment. -/
def terms (c : Clause) : List (String × Resolved) → Clause × Option FieldError
  | [] => (c, none)
  | (field, r) :: rest => match c.term field r with
    | (c, some e) => (c, some e)
    | (c, none) => c.terms rest

/-- Adds the fields of a document with the given text between name and value. -/
def fields (c : Clause) (glue : String) : Document → Clause × Option FieldError
  | [] => (c, none)
  | (field, value) :: rest => match c.joined field (Resolved.ofValue value).operand glue with
    | (c, some e) => (c, some e)
    | (c, none) => c.fields glue rest

/-- The condition that all fragments hold. -/
def condition (c : Clause) : String := " AND ".intercalate c.fragments

end Clause

/-! ## Updates -/

namespace Directive

/-- The clause of a directive. -/
def clause (p : Placeholders) (d : Directive) : Clause × Option FieldError :=
  match d.kind with
  | .set => (Clause.start p).fields " = " d.fields
  | .inc => (Clause.start p).fields " " d.fields
  | .unset => ((d.fields.map Prod.fst).foldl Clause.name (Clause.start p), none)

/-- The word that opens a directive's clause. -/
def action : DirectiveKind → String
  | .set => "SET "
  | .inc => "ADD "
  | .unset => "REMOVE "

/-- The texts of the directives that have fields. -/
def clauses (p : Placeholders) : List Directive → Placeholders × Except FieldError (List String)
  | [] => (p, .ok [])
  | d :: rest => match d.clause p with
    | (c, some e) => (c.placeholders, .error e)
    | (c, none) => match clauses c.placeholders rest with
      | (p, .error e) => (p, .error e)
      | (p, .ok texts) =>
        if c.fragments.isEmpty then (p, .ok texts)
        else (p, .ok ((action d.kind ++ ", ".intercalate c.fragments) :: texts))

/-- The update expression of directives. -/
def expression (p : Placeholders) (directives : List Directive) :
    Placeholders × Except FieldError String :=
  match clauses p directives with
  | (p, .error e) => (p, .error e)
  | (p, .ok texts) => (p, .ok (" ".intercalate texts))

/-- Why named directives have no update expression. -/
inductive Failure where
  | field (e : FieldError)
  | update (e : UpdateError)
  deriving Repr

/-- The update expression of directives that are given by their keys; those before an unknown key
have used up their numbers. -/
def expressionOfKeys (p : Placeholders) (named : List (String × Document)) :
    Placeholders × Except Failure String :=
  let known := named.filterMap fun (key, fields) =>
    (DirectiveKind.ofKey? key).map fun kind => Directive.mk kind fields
  match named.findIdx? fun (key, _) => (DirectiveKind.ofKey? key).isNone with
  | none => match expression p known with
    | (p, .ok text) => (p, .ok text)
    | (p, .error e) => (p, .error (.field e))
  | some position => match expression p (known.take position) with
    | (p, .ok _) =>
      (p, .error (.update (.unknownDirective ((named.map Prod.fst).getD position ""))))
    | (p, .error e) => (p, .error (.field e))

end Directive

end DocTable
