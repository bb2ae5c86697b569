/-!
# Faults of YAML texts

Why a text is no YAML, or does not have the shape that is asked for.
-/

namespace DocTable.Yaml

set_option autoImplicit false

/-- Why a YAML text is refused. -/
inductive Fault where
  | controlCharacter
  | strayCharacter
  | keyWithoutColon
  | misplacedValue
  | misplacedKey
  | misplacedEntry
  | directive
  | incompatibleVersion
  | repeatedDirective
  | anchor
  | tag
  | undefinedTagHandle
  | blockHeader
  | tabIndentation
  | unterminatedQuote
  | indicatorInQuote
  | escape
  | nestedTooDeeply
  | documentStart
  | nodeContent
  | blockEntry
  | blockKey
  | flowSequenceEntry
  | flowMappingEntry
  | unknownAnchor (name : String)
  | containsItself (name : String)
  | excessiveAliases
  | unreadable (text kind : String)
  | mismatch
  | mergeWithoutMap
  | malformedBinary
  | malformedKey
  /-- A key that is a collection, in a mapping with a merge or in one that is merged.  Such keys
  cannot be compared, and reading breaks down. -/
  | collectionBesideMerge
  deriving DecidableEq, Repr

/-- The wording of a fault. -/
def Fault.reason : Fault → String
  | .controlCharacter => "control characters are not allowed"
  | .strayCharacter => "found character that cannot start any token"
  | .keyWithoutColon => "could not find expected ':'"
  | .misplacedValue => "mapping values are not allowed in this context"
  | .misplacedKey => "mapping keys are not allowed in this context"
  | .misplacedEntry => "block sequence entries are not allowed in this context"
  | .directive => "found an invalid directive"
  | .incompatibleVersion => "found incompatible YAML document"
  | .repeatedDirective => "found duplicate directive"
  | .anchor => "did not find expected alphabetic or numeric character"
  | .tag => "found an invalid tag"
  | .undefinedTagHandle => "found undefined tag handle"
  | .blockHeader => "did not find expected comment or line break"
  | .tabIndentation => "found a tab character where an indentation space is expected"
  | .unterminatedQuote => "found unexpected end of stream"
  | .indicatorInQuote => "found unexpected document indicator"
  | .escape => "found unknown escape character"
  | .nestedTooDeeply => "exceeded max depth"
  | .documentStart => "did not find expected <document start>"
  | .nodeContent => "did not find expected node content"
  | .blockEntry => "did not find expected '-' indicator"
  | .blockKey => "did not find expected key"
  | .flowSequenceEntry => "did not find expected ',' or ']'"
  | .flowMappingEntry => "did not find expected ',' or '\x7d'"
  | .unknownAnchor name => "unknown anchor '" ++ name ++ "' referenced"
  | .containsItself name => "anchor '" ++ name ++ "' value contains itself"
  | .excessiveAliases => "document contains excessive aliasing"
  | .unreadable text kind => "cannot decode " ++ text ++ " as a " ++ kind
  | .mismatch => "unmarshal errors"
  | .mergeWithoutMap => "map merge requires map or sequence of maps as the value"
  | .malformedBinary => "!!binary value contains invalid base64 data"
  | .malformedKey => "invalid map key"
  | .collectionBesideMerge => "hash of unhashable type"

/-- The message of a fault. -/
def Fault.message (f : Fault) : String := "yaml: " ++ f.reason

end DocTable.Yaml
