import TypedClient.Table
import TypedClient.Yaml.Node
import TypedClient.Yaml.Tokens

/-! # Trees of tokens

    How nodes are made of tokens. A text holds one document at most.

    * **Missing nodes**: where a key, a value or an item is called for and none
      is written, the empty scalar stands.
    * **Numbers of anchors**: a name gets the number of names known before it,
      also when it is given again.
-/

namespace TypedClient.Yaml

/-- What is left to be read, and what is known so far. -/
structure Reading where
  /-- The tokens to be read. -/
  tokens : List Token
  /-- The handles for tags, and what they stand for. -/
  handles : List (List Char × List Char) := []
  /-- The numbers of the anchors. -/
  anchors : Table Nat := []

namespace Reading

/-- The next token; behind the last one there are no others. -/
def peek (r : Reading) : Token :=
  r.tokens.headD ⟨.done, .start, .start⟩

/-- Passes over the next token. -/
def skip (r : Reading) : Reading :=
  { r with tokens := r.tokens.drop 1 }

/-- Gives an anchor its number. -/
def register (r : Reading) : Option (List Char) → Option Nat × Reading
  | none => (none, r)
  | some name =>
    let number := r.anchors.length
    (some number, { r with anchors := r.anchors.insert (String.ofList name) number })

/-- The tag that a written tag stands for, if its handle is known. -/
def expandTag (r : Reading) (t : WrittenTag) : Option String :=
  if t.handle.isEmpty then some (String.ofList t.suffix)
  else (r.handles.lookup t.handle).map (fun target => String.ofList (target ++ t.suffix))

end Reading

/-- The anchor and the tag in front of a node. -/
structure Properties where
  /-- Where the node starts. -/
  mark : Mark
  /-- The name of the anchor. -/
  anchor : Option (List Char) := none
  /-- The tag. -/
  tag : Option WrittenTag := none

/-- Reads the anchor and the tag in front of a node, in either order. -/
def Reading.properties (r : Reading) : Properties × Reading :=
  let first := r.peek
  match first.kind with
  | .anchor name =>
    match r.skip.peek.kind with
    | .tag tag => (⟨first.start, some name, some tag⟩, r.skip.skip)
    | _ => (⟨first.start, some name, none⟩, r.skip)
  | .tag tag =>
    match r.skip.peek.kind with
    | .anchor name => (⟨first.start, some name, some tag⟩, r.skip.skip)
    | _ => (⟨first.start, none, some tag⟩, r.skip)
  | _ => (⟨first.start, none, none⟩, r)

/-- Whether nothing is written for a part of a block map or list, by the token
    that follows. -/
def TokenKind.endsBlockPart (keys : Bool) : TokenKind → Bool
  | .blockEntry => !keys
  | .key => keys
  | .value => keys
  | .blockEnd => true
  | _ => false

/-- Whether nothing is written for an item of a list without a block of its own. -/
def TokenKind.endsLooseItem : TokenKind → Bool
  | .blockEntry => true
  | .key => true
  | .value => true
  | .blockEnd => true
  | _ => false

/-- Whether nothing is written for a part of a map in braces. -/
def TokenKind.endsFlowPart : TokenKind → Bool
  | .value => true
  | .flowEntry => true
  | .flowMappingEnd => true
  | _ => false

/-- The scalar of a token. A lone exclamation mark is no tag. -/
def scalarOf (tag : Option String) (style : ScalarStyle) (text : List Char) : Scalar :=
  ⟨if tag = some "!" then none else tag, style, String.ofList text⟩

mutual

/-- Reads a node. Blocks may not start inside brackets, and lists without a
    block of their own only where the entries of a map are. -/
def readNode (block loose : Bool) : Nat → Reading → Option (Node × Reading)
  | 0, _ => none
  | fuel + 1, r =>
    match r.peek.kind with
    | .alias name =>
      (r.anchors.find? (String.ofList name)).map (fun number => (.alias number, r.skip))
    | _ => do
      let (p, r) := r.properties
      let tag ← match p.tag with
        | none => some none
        | some tag => (r.expandTag tag).map some
      -- The name is known from here on, so the node may hold its own alias.
      let (anchor, r) := r.register p.anchor
      match r.peek.kind with
      | .blockEntry =>
        if loose then
          let (items, r) ← readLooseItems fuel r
          return (.sequence p.mark anchor tag items, r)
        -- Properties with nothing behind them belong to an empty scalar.
        else if p.anchor.isSome || tag.isSome then
          return (.scalar p.mark anchor { tag }, r)
        else none
      | .scalar style text => return (.scalar p.mark anchor (scalarOf tag style text), r.skip)
      | .flowSequence =>
        let (items, r) ← readFlowItems true fuel r.skip
        return (.sequence p.mark anchor tag items, r)
      | .flowMapping =>
        let (entries, r) ← readFlowEntries true fuel r.skip
        return (.mapping p.mark anchor tag entries, r)
      | .blockSequence =>
        if block then
          let (items, r) ← readBlockItems fuel r.skip
          return (.sequence p.mark anchor tag items, r)
        else if p.anchor.isSome || tag.isSome then
          return (.scalar p.mark anchor { tag }, r)
        else none
      | .blockMapping =>
        if block then
          let (entries, r) ← readBlockEntries fuel r.skip
          return (.mapping p.mark anchor tag entries, r)
        else if p.anchor.isSome || tag.isSome then
          return (.scalar p.mark anchor { tag }, r)
        else none
      | _ =>
        if p.anchor.isSome || tag.isSome then return (.scalar p.mark anchor { tag }, r)
        else none

/-- Reads the items of a list in a block. -/
def readBlockItems : Nat → Reading → Option (List Node × Reading)
  | 0, _ => none
  | fuel + 1, r =>
    match r.peek.kind with
    | .blockEntry => do
      let stop := r.peek.stop
      let r := r.skip
      let (item, r) ←
        if r.peek.kind.endsBlockPart false then some (Node.empty stop, r)
        else readNode true false fuel r
      let (items, r) ← readBlockItems fuel r
      return (item :: items, r)
    | .blockEnd => some ([], r.skip)
    | _ => none

/-- Reads the items of a list without a block of its own. -/
def readLooseItems : Nat → Reading → Option (List Node × Reading)
  | 0, _ => none
  | fuel + 1, r =>
    match r.peek.kind with
    | .blockEntry => do
      let stop := r.peek.stop
      let r := r.skip
      let (item, r) ←
        if r.peek.kind.endsLooseItem then some (Node.empty stop, r)
        else readNode true false fuel r
      let (items, r) ← readLooseItems fuel r
      return (item :: items, r)
    | _ => some ([], r)

/-- Reads the entries of a map in a block. -/
def readBlockEntries : Nat → Reading → Option (List (Node × Node) × Reading)
  | 0, _ => none
  | fuel + 1, r =>
    match r.peek.kind with
    | .key => do
      let stop := r.peek.stop
      let r := r.skip
      let (key, r) ←
        if r.peek.kind.endsBlockPart true then some (Node.empty stop, r)
        else readNode true true fuel r
      let (value, r) ← readBlockValue fuel r
      let (entries, r) ← readBlockEntries fuel r
      return ((key, value) :: entries, r)
    | .blockEnd => some ([], r.skip)
    | _ => none

/-- Reads the value of an entry of a map in a block. -/
def readBlockValue : Nat → Reading → Option (Node × Reading)
  | 0, _ => none
  | fuel + 1, r =>
    match r.peek.kind with
    | .value =>
      let stop := r.peek.stop
      let r := r.skip
      if r.peek.kind.endsBlockPart true then some (Node.empty stop, r)
      else readNode true true fuel r
    | _ => some (Node.empty r.peek.start, r)

/-- Reads the items of a list in brackets. Behind the first one a comma has to
    stand before each. -/
def readFlowItems (first : Bool) : Nat → Reading → Option (List Node × Reading)
  | 0, _ => none
  | fuel + 1, r =>
    match r.peek.kind with
    | .flowSequenceEnd => some ([], r.skip)
    | kind => do
      let r ←
        if first then some r
        else
          match kind with
          | .flowEntry => some r.skip
          | _ => none
      match r.peek.kind with
      | .flowSequenceEnd => some ([], r.skip)
      | .key =>
        let mark := r.peek.start
        let (entry, r) ← readFlowPair fuel r.skip
        let (items, r) ← readFlowItems false fuel r
        return (.mapping mark none none [entry] :: items, r)
      | _ =>
        let (item, r) ← readNode false false fuel r
        let (items, r) ← readFlowItems false fuel r
        return (item :: items, r)

/-- Reads the one entry of a map that stands as an item of a list. Where its
    key is missing, the token that shows it is passed over. -/
def readFlowPair : Nat → Reading → Option ((Node × Node) × Reading)
  | 0, _ => none
  | fuel + 1, r => do
    let (key, r) ←
      match r.peek.kind with
      | .value | .flowEntry | .flowSequenceEnd => some (Node.empty r.peek.stop, r.skip)
      | _ => readNode false false fuel r
    let (value, r) ←
      match r.peek.kind with
      | .value =>
        match r.skip.peek.kind with
        | .flowEntry | .flowSequenceEnd => some (Node.empty r.skip.peek.start, r.skip)
        | _ => readNode false false fuel r.skip
      | _ => some (Node.empty r.peek.start, r)
    return ((key, value), r)

/-- Reads the entries of a map in braces. Behind the first one a comma has to
    stand before each. -/
def readFlowEntries (first : Bool) : Nat → Reading → Option (List (Node × Node) × Reading)
  | 0, _ => none
  | fuel + 1, r =>
    match r.peek.kind with
    | .flowMappingEnd => some ([], r.skip)
    | kind => do
      let r ←
        if first then some r
        else
          match kind with
          | .flowEntry => some r.skip
          | _ => none
      match r.peek.kind with
      | .flowMappingEnd => some ([], r.skip)
      | .key =>
        let r := r.skip
        let (key, r) ←
          if r.peek.kind.endsFlowPart then some (Node.empty r.peek.start, r)
          else readNode false false fuel r
        let (value, r) ← readFlowValue fuel r
        let (entries, r) ← readFlowEntries false fuel r
        return ((key, value) :: entries, r)
      | _ =>
        let (key, r) ← readNode false false fuel r
        let value := Node.empty r.peek.start
        let (entries, r) ← readFlowEntries false fuel r
        return ((key, value) :: entries, r)

/-- Reads the value of an entry of a map in braces. -/
def readFlowValue : Nat → Reading → Option (Node × Reading)
  | 0, _ => none
  | fuel + 1, r =>
    match r.peek.kind with
    | .value =>
      match r.skip.peek.kind with
      | .flowEntry | .flowMappingEnd => some (Node.empty r.skip.peek.start, r.skip)
      | _ => readNode false false fuel r.skip
    | _ => some (Node.empty r.peek.start, r)

end

/-- The handles that are known without a directive. -/
def commonHandles : List (List Char × List Char) :=
  [(['!'], ['!']), (['!', '!'], "tag:yaml.org,2002:".toList)]

/-- Reads the directives before a document: at most one version, which has to
    be known, and no handle twice. -/
def readDirectives (versioned : Bool) (handles : List (List Char × List Char)) :
    List Token → Option (List (List Char × List Char) × List Token)
  | [] => some (handles, [])
  | t :: rest =>
    match t.kind with
    | .version major minor =>
      if versioned || major != 1 || !(minor == 1 || minor == 2) then none
      else readDirectives true handles rest
    | .handle name target =>
      if (handles.lookup name).isSome then none
      else readDirectives versioned (handles ++ [(name, target)]) rest
    | _ => some (handles, t :: rest)

/-- Whether a token stands between documents. -/
def TokenKind.isBetween : TokenKind → Bool
  | .version _ _ => true
  | .handle _ _ => true
  | .documentStart => true
  | .documentEnd => true
  | .done => true
  | _ => false

/-- Reads what stands between three dashes and the end of a document. -/
def readContent (r : Reading) : Option (Node × Reading) :=
  if r.peek.kind.isBetween then some (Node.empty r.peek.start, r)
  else readNode true false (2 * r.tokens.length + 4) r

/-- Whether nothing is left behind a document but the marks of its end. -/
def isFinished : List Token → Bool
  | [] => true
  | t :: rest =>
    match t.kind with
    | .documentEnd => isFinished rest
    | .done => true
    | _ => false

/-- The node of tokens: `some none` if there is no document, `none` if they are
    not those of one document at most. -/
def Node.ofTokens? (tokens : List Token) : Option (Option Node) := do
  let first : Reading := { tokens, handles := commonHandles }
  match first.peek.kind with
  | .done => return none
  | .version _ _ | .handle _ _ | .documentStart =>
    -- A directive may give a common handle another meaning.
    let (handles, rest) ← readDirectives false [] tokens
    let r : Reading := { tokens := rest, handles := handles ++ commonHandles }
    match r.peek.kind with
    | .documentStart =>
      let (node, r) ← readContent r.skip
      if isFinished r.tokens then return some node else none
    | _ => none
  | _ =>
    let (node, r) ← readNode true false (2 * tokens.length + 4) first
    if isFinished r.tokens then return some node else none

/-- What a text holds. -/
structure Tree where
  /-- The node of its document; a text may hold none. -/
  root : Option Node

/-- The tree of a text; `none` if it is no YAML. -/
def Tree.load? (text : String) : Option Tree := do
  let tokens ← tokens? text.toList
  let root ← Node.ofTokens? tokens
  return ⟨root⟩

end TypedClient.Yaml
