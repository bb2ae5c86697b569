import DocTable.Expression.Context

/-!
# Updates

An update is a list of actions in clauses, each opened by a word for what its actions do:
`SET path = value`, `ADD path value`, `REMOVE path` and `DELETE path value`, with commas between the
actions of a clause.
-/

namespace DocTable

set_option autoImplicit false

/-- A value of an action with the placeholder it was given by. -/
structure Operand where
  token : String
  value : AttributeValue
  deriving Repr

/-- One action of an update. -/
structure UpdateAction where
  kind : ActionKind
  path : Path
  operand? : Option Operand
  deriving Repr

/-- The value of an action; an action without one leaves its place without a value. -/
def UpdateAction.value (a : UpdateAction) : AttributeValue :=
  match a.operand? with
  | some operand => operand.value
  | none => .unset

namespace UpdateText

/-- The words before the first keyword, and the words after each keyword. -/
def sections : List String → List String × List (ActionKind × List String)
  | [] => ([], [])
  | word :: rest =>
    let (leading, found) := sections rest
    match ActionKind.ofWord? word with
    | some kind => ([], (kind, leading) :: found)
    | none => (word :: leading, found)

/-- The texts of the path and the value of an action. -/
def parts? (kind : ActionKind) (text : String) : Option (String × String) :=
  match kind with
  | .set => (Text.cut? '=' text).map fun (left, right) => (Text.trim left, Text.trim right)
  | .add | .delete => match Text.words text with
    | [left, right] => some (left, right)
    | _ => none
  | .remove => some (text, "")

/-- Whether a text can be a path: it is one word. -/
def isPathText (text : String) : Bool :=
  text != "" && !text.toList.any fun c => c == ' ' || c == '\t'

/-- The value of an action, if its text has one. -/
def operand (c : Context) (token : String) : Except ExpressionError (Option Operand) :=
  if token = "" then .ok none
  else do
    let value ← c.value token
    return some ⟨token, value⟩

/-- Reads one action. -/
def action (c : Context) (kind : ActionKind) (text : String) :
    Except ExpressionError UpdateAction :=
  match parts? kind text with
  | none => .error (.invalidAction kind text)
  | some (left, right) =>
    if isPathText left then do
      let path ← c.path left
      let operand? ← operand c right
      return ⟨kind, path, operand?⟩
    else .error (.invalidAction kind text)

/-- Reads actions of one kind in order. -/
def actions (c : Context) (kind : ActionKind) :
    List String → Except ExpressionError (List UpdateAction)
  | [] => .ok []
  | text :: rest => do
    let first ← action c kind text
    let tail ← actions c kind rest
    return first :: tail

/-- The texts of the actions of a clause. -/
def actionTexts (words : List String) : List String :=
  (Text.split ',' (" ".intercalate words)).map Text.trim

/-- Reads clauses in order. -/
def clauses (c : Context) :
    List (ActionKind × List String) → Except ExpressionError (List UpdateAction)
  | [] => .ok []
  | (kind, words) :: rest =>
    if words.isEmpty then .error (.emptyClause kind)
    else do
      let first ← actions c kind (actionTexts words)
      let tail ← clauses c rest
      return first ++ tail

end UpdateText

/-- Reads an update, which must have an action. -/
def UpdateAction.parse (text : String) (c : Context) :
    Except ExpressionError (List UpdateAction) :=
  match UpdateText.sections (Text.words text) with
  | (_ :: _, _) => .error .missingAction
  | ([], []) => .error .emptyUpdate
  | ([], found) => UpdateText.clauses c found

end DocTable
