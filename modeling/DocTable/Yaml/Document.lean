import DocTable.Yaml.Node
import DocTable.Yaml.Scanner

/-!
# From tokens to the first document

A recursive descent over the tokens.  Only the first document of a stream is read; to see where it
ends the next token is asked for, so a fault right behind a document still counts.

An anchor names the node it stands before from that node's start on.  So an alias may stand inside
the node that it is an alias of; it then goes by the number of the anchor, because the node is not
complete yet.
-/

namespace DocTable.Yaml

set_option autoImplicit false

/-- A named node; one that is still being read has none yet. -/
structure Anchor where
  name : String
  number : Nat
  node? : Option Node

/-- The scanner, the anchors read so far with the newest first, and what tag handles stand for. -/
structure Reader where
  scanner : Scanner
  anchors : List Anchor
  handles : List (String × String)

/-- Reading steps can fail and move on. -/
abbrev Read := StateT Reader (Except Fault)

namespace Read

/-- The next token. -/
def peek : Read Token := fun ⟨scanner, anchors, handles⟩ => do
  let scanner ← scanner.fill (scanner.cursor.bound + 8)
  match scanner.queue.head? with
  | some token => return (token, ⟨scanner, anchors, handles⟩)
  | none => throw .nodeContent

/-- Moves past the next token. -/
def skip : Read Unit := modify fun r => { r with scanner := r.scanner.useToken }

/-- Notes an anchor whose node starts here, and gives it a number. -/
def openAnchor (name : String) : Read Nat := do
  let r ← get
  let number := r.anchors.length
  set { r with anchors := ⟨name, number, none⟩ :: r.anchors }
  return number

/-- Gives an anchor its node. -/
def closeAnchor (number : Nat) (node : Node) : Read Unit :=
  modify fun r =>
    { r with
      anchors := r.anchors.map fun a =>
        if a.number = number then { a with node? := some node } else a }

/-- An alias on a line. -/
def aliasOf (line : Nat) (name : String) : Read Node := do
  let r ← get
  match r.anchors.find? fun a => a.name = name with
  | some ⟨_, _, some node⟩ => return .alias line name node
  | some ⟨_, number, none⟩ => return .enclosing line name number
  | none => throw (.unknownAnchor name)

/-- The short form of a tag. -/
def shorten (tag : String) : String :=
  if tag.startsWith "tag:yaml.org,2002:" then "!!" ++ (tag.drop 18).toString else tag

/-- The tag that a handle and a suffix stand for; the non-specific tag counts as none. -/
def expand (handle suffix : String) : Read String := do
  let r ← get
  let full ←
    if handle = "" then pure suffix
    else match r.handles.find? fun h => h.1 = handle with
      | some (_, expansion) =>
        if expansion ++ suffix = "" then throw .undefinedTagHandle else pure (expansion ++ suffix)
      | none => throw .undefinedTagHandle
  return if full = "!" then "" else shorten full

/-- The anchor and the tag before a node, with the line of the first of them. -/
structure Properties where
  line? : Option Nat
  anchor? : Option String
  tag? : Option (String × String)

/-- Reads an anchor and a tag, in either order. -/
def properties : Read Properties := do
  let token ← peek
  match token.kind with
  | .anchor name => do
    skip
    let next ← peek
    match next.kind with
    | .tag handle suffix => do
      skip
      return ⟨some token.mark.line, some name, some (handle, suffix)⟩
    | _ => return ⟨some token.mark.line, some name, none⟩
  | .tag handle suffix => do
    skip
    let next ← peek
    match next.kind with
    | .anchor name => do
      skip
      return ⟨some token.mark.line, some name, some (handle, suffix)⟩
    | _ => return ⟨some token.mark.line, none, some (handle, suffix)⟩
  | _ => return ⟨none, none, none⟩

/-- An empty plain scalar on a line. -/
def emptyScalar (line : Nat) : Node := .scalar (line + 1) "" true ""

/-- Reads a node under an anchor, if there is one. -/
def anchored (name? : Option String) (read : Read Node) : Read Node :=
  match name? with
  | none => read
  | some name => do
    let number ← openAnchor name
    let node ← read
    closeAnchor number node
    return node

/-- The tag of a scalar: a plain merge mark has one of its own. -/
def scalarTag (tag text : String) (plain : Bool) : String :=
  if tag = "" ∧ plain ∧ text = "<<" then StandardTag.merge.short
  else if tag = "" ∧ !plain then StandardTag.str.short
  else tag

mutual
/-- Reads a node; a block collection only where one may stand. -/
def node : Nat → Bool → Bool → Read Node
  | 0, _, _ => throw .nestedTooDeeply
  | fuel + 1, block, indentless => do
    let first ← peek
    match first.kind with
    | .alias name => do
      skip
      aliasOf (first.mark.line + 1) name
    | _ => do
      let p ← properties
      let token ← peek
      let line := p.line?.getD token.mark.line + 1
      let tag ← match p.tag? with
        | some (handle, suffix) => expand handle suffix
        | none => pure ""
      anchored p.anchor? do
        match token.kind with
        | .blockEntry =>
          if indentless then do
            let items ← indentlessEntries fuel
            return .sequence line tag items
          else if p.anchor?.isSome || p.tag?.isSome then return .scalar line tag true ""
          else throw .nodeContent
        | .scalar text plain => do
          skip
          return .scalar line (scalarTag tag text plain) plain text
        | .flowSequenceStart => do
          skip
          let items ← flowEntries fuel true
          return .sequence line tag items
        | .flowMappingStart => do
          skip
          let pairs ← flowPairs fuel true
          return .mapping line tag pairs
        | .blockSequenceStart =>
          if block then do
            skip
            let items ← blockEntries fuel
            return .sequence line tag items
          else if p.anchor?.isSome || p.tag?.isSome then return .scalar line tag true ""
          else throw .nodeContent
        | .blockMappingStart =>
          if block then do
            skip
            let pairs ← blockPairs fuel
            return .mapping line tag pairs
          else if p.anchor?.isSome || p.tag?.isSome then return .scalar line tag true ""
          else throw .nodeContent
        | _ =>
          if p.anchor?.isSome || p.tag?.isSome then return .scalar line tag true ""
          else throw .nodeContent

/-- Reads the entries of a block sequence up to its end. -/
def blockEntries : Nat → Read (List Node)
  | 0 => throw .nestedTooDeeply
  | fuel + 1 => do
    let token ← peek
    match token.kind with
    | .blockEntry => do
      skip
      let next ← peek
      let item ← match next.kind with
        | .blockEntry => pure (emptyScalar token.endLine)
        | .blockEnd => pure (emptyScalar token.endLine)
        | _ => node fuel true false
      let rest ← blockEntries fuel
      return item :: rest
    | .blockEnd => do
      skip
      return []
    | _ => throw .blockEntry

/-- Reads the entries of a block sequence at the column of its parent mapping. -/
def indentlessEntries : Nat → Read (List Node)
  | 0 => throw .nestedTooDeeply
  | fuel + 1 => do
    let token ← peek
    match token.kind with
    | .blockEntry => do
      skip
      let next ← peek
      let item ← match next.kind with
        | .blockEntry => pure (emptyScalar token.endLine)
        | .key => pure (emptyScalar token.endLine)
        | .value => pure (emptyScalar token.endLine)
        | .blockEnd => pure (emptyScalar token.endLine)
        | _ => node fuel true false
      let rest ← indentlessEntries fuel
      return item :: rest
    | _ => return []

/-- Reads the pairs of a block mapping up to its end. -/
def blockPairs : Nat → Read (List (Node × Node))
  | 0 => throw .nestedTooDeeply
  | fuel + 1 => do
    let token ← peek
    match token.kind with
    | .key => do
      skip
      let next ← peek
      let key ← match next.kind with
        | .key => pure (emptyScalar token.endLine)
        | .value => pure (emptyScalar token.endLine)
        | .blockEnd => pure (emptyScalar token.endLine)
        | _ => node fuel true true
      let value ← blockValue fuel
      let rest ← blockPairs fuel
      return (key, value) :: rest
    | .blockEnd => do
      skip
      return []
    | _ => throw .blockKey

/-- Reads the value of a pair of a block mapping. -/
def blockValue : Nat → Read Node
  | 0 => throw .nestedTooDeeply
  | fuel + 1 => do
    let token ← peek
    match token.kind with
    | .value => do
      skip
      let next ← peek
      match next.kind with
      | .key => return emptyScalar token.endLine
      | .value => return emptyScalar token.endLine
      | .blockEnd => return emptyScalar token.endLine
      | _ => node fuel true true
    | _ => return emptyScalar token.mark.line

/-- Reads the entries of a flow sequence up to its end. -/
def flowEntries : Nat → Bool → Read (List Node)
  | 0, _ => throw .nestedTooDeeply
  | fuel + 1, first => do
    let token ← peek
    if token.kind == .flowSequenceEnd then do
      skip
      return []
    else
      if !first then
        if token.kind == .flowEntry then skip else throw .flowSequenceEntry
      let token ← peek
      match token.kind with
      | .flowSequenceEnd => do
        skip
        return []
      | .key => do
        skip
        let pair ← flowPairInSequence fuel
        let rest ← flowEntries fuel false
        return .mapping (token.mark.line + 1) "" [pair] :: rest
      | _ => do
        let item ← node fuel false false
        let rest ← flowEntries fuel false
        return item :: rest

/-- Reads a pair that stands for a mapping inside a flow sequence. -/
def flowPairInSequence : Nat → Read (Node × Node)
  | 0 => throw .nestedTooDeeply
  | fuel + 1 => do
    let token ← peek
    let key ← match token.kind with
      | .value => do
        skip
        pure (emptyScalar token.endLine)
      | .flowEntry => do
        skip
        pure (emptyScalar token.endLine)
      | .flowSequenceEnd => do
        skip
        pure (emptyScalar token.endLine)
      | _ => node fuel false false
    let token ← peek
    match token.kind with
    | .value => do
      skip
      let next ← peek
      match next.kind with
      | .flowEntry => return (key, emptyScalar next.mark.line)
      | .flowSequenceEnd => return (key, emptyScalar next.mark.line)
      | _ => do
        let value ← node fuel false false
        return (key, value)
    | _ => return (key, emptyScalar token.mark.line)

/-- Reads the pairs of a flow mapping up to its end. -/
def flowPairs : Nat → Bool → Read (List (Node × Node))
  | 0, _ => throw .nestedTooDeeply
  | fuel + 1, first => do
    let token ← peek
    if token.kind == .flowMappingEnd then do
      skip
      return []
    else
      if !first then
        if token.kind == .flowEntry then skip else throw .flowMappingEntry
      let token ← peek
      match token.kind with
      | .flowMappingEnd => do
        skip
        return []
      | .key => do
        skip
        let next ← peek
        let key ← match next.kind with
          | .value => pure (emptyScalar next.mark.line)
          | .flowEntry => pure (emptyScalar next.mark.line)
          | .flowMappingEnd => pure (emptyScalar next.mark.line)
          | _ => node fuel false false
        let value ← flowValue fuel
        let rest ← flowPairs fuel false
        return (key, value) :: rest
      | _ => do
        let key ← node fuel false false
        let next ← peek
        let rest ← flowPairs fuel false
        return (key, emptyScalar next.mark.line) :: rest

/-- Reads the value of a pair of a flow mapping. -/
def flowValue : Nat → Read Node
  | 0 => throw .nestedTooDeeply
  | fuel + 1 => do
    let token ← peek
    match token.kind with
    | .value => do
      skip
      let next ← peek
      match next.kind with
      | .flowEntry => return emptyScalar next.mark.line
      | .flowMappingEnd => return emptyScalar next.mark.line
      | _ => node fuel false false
    | _ => return emptyScalar token.mark.line
end

/-! ## Documents -/

/-- Reads the directives of a document. -/
def directives : Nat → Bool → List (String × String) → Read (List (String × String))
  | 0, _, handles => return handles
  | fuel + 1, versioned, handles => do
    let token ← peek
    match token.kind with
    | .versionDirective major minor =>
      if versioned then throw .repeatedDirective
      else if major ≠ 1 ∨ minor ≠ 1 then throw .incompatibleVersion
      else do
        skip
        directives fuel true handles
    | .tagDirective handle expansion =>
      if handles.any fun h => h.1 = handle then throw .repeatedDirective
      else do
        skip
        directives fuel versioned (handles ++ [(handle, expansion)])
    | _ => return handles

/-- What the common handles stand for. -/
def commonHandles : List (String × String) := [("!", "!"), ("!!", "tag:yaml.org,2002:")]

/-- Whether a document that starts here has no content. -/
def hasNoContent : TokenKind → Bool
  | .versionDirective _ _ => true
  | .tagDirective _ _ => true
  | .documentStart => true
  | .documentEnd => true
  | .streamEnd => true
  | _ => false

/-- Reads the first document of a stream, if there is one. -/
def firstDocument (fuel : Nat) : Read (Option Node) := do
  let _ ← peek
  skip
  let token ← peek
  match token.kind with
  | .streamEnd => return none
  | kind =>
    let isExplicit := hasNoContent kind && kind != .documentEnd
    if isExplicit then
      let handles ← directives fuel false []
      modify fun r => { r with handles := handles ++ commonHandles }
      let start ← peek
      if start.kind != .documentStart then throw .documentStart
      else
        skip
        let next ← peek
        let root ←
          if hasNoContent next.kind then pure (emptyScalar next.mark.line)
          else node fuel true false
        let _ ← peek
        return some root
    else
      modify fun r => { r with handles := commonHandles }
      let root ← node fuel true false
      let _ ← peek
      return some root

end Read

/-- The first document of a text: its root and the nodes that have a name. -/
structure Tree where
  root : Node
  anchors : List Anchor

/-- The first document of a text, if the text has one. -/
def read (text : String) : Except Fault (Option Tree) := do
  let scanner ← Scanner.start text
  let fuel := 16 * text.length + 64
  let (root?, reader) ← (Read.firstDocument fuel).run ⟨scanner, [], []⟩
  return root?.map fun root => ⟨root, reader.anchors⟩

end DocTable.Yaml
