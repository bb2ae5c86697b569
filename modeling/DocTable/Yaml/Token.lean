import DocTable.Yaml.Cursor

/-!
# Tokens

What the scanner makes of a text: scalars, indicators of flow collections, anchors and tags, and
the marks that the indentation of block collections stands for.
-/

namespace DocTable.Yaml

set_option autoImplicit false

/-- What a token is. -/
inductive TokenKind where
  | streamStart
  | streamEnd
  | versionDirective (major minor : Nat)
  | tagDirective (handle expansion : String)
  | documentStart
  | documentEnd
  | blockSequenceStart
  | blockMappingStart
  | blockEnd
  | flowSequenceStart
  | flowSequenceEnd
  | flowMappingStart
  | flowMappingEnd
  | blockEntry
  | flowEntry
  | key
  | value
  | alias (name : String)
  | anchor (name : String)
  | tag (handle suffix : String)
  | scalar (text : String) (plain : Bool)
  deriving DecidableEq, Repr, Inhabited

/-- A token, the place where it starts and the line where it ends. -/
structure Token where
  kind : TokenKind
  mark : Mark
  endLine : Nat
  deriving DecidableEq, Repr, Inhabited

end DocTable.Yaml
