import DocTable.Attribute.Compare
import DocTable.Path
import DocTable.Text.Blank
import DocTable.Text.Case

/-!
# Names and values of an expression

The texts of conditions, updates and projections refer to attributes by paths whose steps may be
placeholders, and to values by placeholders only.  A `Context` says what they stand for.
-/

namespace DocTable

set_option autoImplicit false

/-- What the placeholders of a request stand for. -/
structure Context where
  names : Fields String
  values : Fields AttributeValue
  deriving Repr, Inhabited

/-- What an action of an update does. -/
inductive ActionKind where
  | set | add | remove | delete
  deriving DecidableEq, Repr, Inhabited

namespace ActionKind

/-- The word that opens a clause of such actions. -/
def keyword : ActionKind → String
  | .set => "SET"
  | .add => "ADD"
  | .remove => "REMOVE"
  | .delete => "DELETE"

/-- The kind of a word, whatever its case. -/
def ofWord? (word : String) : Option ActionKind :=
  [ActionKind.set, .add, .remove, .delete].find? fun kind => kind.keyword = Text.upper word

end ActionKind

/-- Why an expression cannot be read or carried out. -/
inductive ExpressionError where
  | unresolvedName (token : String)
  | unresolvedValue (token : String)
  | unsupportedCondition (text : String)
  | unsupportedComparator (symbol text : String)
  | missingAction
  | emptyClause (kind : ActionKind)
  | invalidAction (kind : ActionKind) (text : String)
  | emptyUpdate
  | notAMap (step : String)
  | combine (kind : ActionKind) (path : Path) (cause : CombineError)
  deriving DecidableEq, Repr

namespace ExpressionError

/-- The wording of an expression error. -/
def message : ExpressionError → String
  | .unresolvedName token => "unresolved expression attribute name " ++ Text.quoted token
  | .unresolvedValue token => "unresolved expression attribute value " ++ Text.quoted token
  | .unsupportedCondition text => "unsupported condition " ++ Text.quoted text
  | .unsupportedComparator symbol text =>
    "unsupported comparator " ++ Text.quoted symbol ++ " in " ++ Text.quoted text
  | .missingAction => "update expression must start with SET, ADD, REMOVE or DELETE"
  | .emptyClause kind => "empty " ++ kind.keyword ++ " clause"
  | .invalidAction kind text => "invalid " ++ kind.keyword ++ " action " ++ Text.quoted text
  | .emptyUpdate => "update expression is empty"
  | .notAMap step => "attribute " ++ Text.quoted step ++ " is not a map"
  | .combine _ _ .oppositeInfinities => CombineError.oppositeInfinities.message
  | .combine kind path cause => kind.keyword ++ " " ++ path.dotted ++ ": " ++ cause.message

/-- Whether an error is one that no caller can provide for: numbers that have no sum. -/
def isUndefined : ExpressionError → Bool
  | .combine _ _ .oppositeInfinities => true
  | _ => false

end ExpressionError

namespace Context

/-- The name that a step of a path stands for. -/
def step (c : Context) (token : String) : Except ExpressionError String :=
  if token.toList.head? = some '#' then
    match Keyed.lookup token c.names with
    | some name => .ok name
    | none => .error (.unresolvedName token)
  else .ok token

/-- The names that steps stand for. -/
def steps (c : Context) : List String → Except ExpressionError Path
  | [] => .ok []
  | token :: rest => do
    let name ← c.step token
    let names ← c.steps rest
    return name :: names

/-- The path that a text of steps between points stands for. -/
def path (c : Context) (text : String) : Except ExpressionError Path :=
  c.steps (Text.split '.' text)

/-- The value that a placeholder stands for. -/
def value (c : Context) (token : String) : Except ExpressionError AttributeValue :=
  match Keyed.lookup token c.values with
  | some value => .ok value
  | none => .error (.unresolvedValue token)

end Context

end DocTable
