import Lox.Yaml.Lexeme

/-!
# Nodes of a settings file

The tree that the lexemes of the first document spell.  A missing node is the empty plain scalar,
and a reference carries the node that its anchor stands at.  A reference to a collection that it
stands in carries that collection without its entries.
-/

namespace Lox.Yaml

/-- A node, with its line counted from one and the tag written in front of it, if any. -/
inductive Node where
  | scalar (line : Nat) (tag : Option String) (style : Style) (value : String)
  | sequence (line : Nat) (tag : Option String) (items : List Node)
  | mapping (line : Nat) (tag : Option String) (entries : List (Node × Node))
  | reference (line : Nat) (name : String) (isInside : Bool) (target : Node)
  deriving Inhabited

/-- A node with a name.  It is open as long as its entries are being read. -/
structure Anchor where
  name : String
  isOpen : Bool
  node : Node

/-- What is left of the lexemes, why there are no more of them if the text is malformed, the numbers
of lexemes left at which one stands that may be a key, the nodes with an anchor, the latest one
first, and the short forms for the first parts of tags. -/
structure Builder where
  rest : List Placed
  flaw? : Option Malformed
  undecided : List Nat
  anchors : List Anchor
  handles : List (String × String)

/-- Building nodes from lexemes. -/
abbrev Build := StateT Builder (Except Malformed)

namespace Build

/-- The number of lexemes that have to be known where one is looked at. -/
def lookahead : Nat := 3

/-- A flaw of the text shows already here: there are too few lexemes in front of it, or it has to be
known first whether the next lexeme is a key. -/
def meetsFlaw (b : Builder) : Bool :=
  b.rest.length < lookahead || b.undecided.contains b.rest.length

/-- The next lexeme. -/
def peek : Build Placed := do
  let b ← get
  if let some flaw := b.flaw? then
    if meetsFlaw b then throw flaw
  match b.rest with
  | p :: _ => return p
  | [] => throw ⟨"attempted to go past the end of stream; corrupted value?", 0, 0⟩

/-- Passes over the next lexeme. -/
def skip : Build Unit := modify fun b => { b with rest := b.rest.drop 1 }

/-- The lexemes cannot be understood. -/
def fail (p : Placed) (problem : String) : Build Node := throw ⟨problem, 0, p.line⟩

/-- The node that is missing at a lexeme: behind the mark in front of it in a block, and in front of
the lexeme itself in a flow collection. -/
def missing (p : Placed) : Node := .scalar (p.line + 1) none .plain ""

/-- The first part of the tags of the standard types. -/
def standardTag : String := "tag:yaml.org,2002:"

/-- The short forms that are there from the start. -/
def standardHandles : List (String × String) := [("!", "!"), ("!!", standardTag)]

/-- A tag with the short form for the standard types. -/
def shortTag (tag : String) : String :=
  if standardTag.toList.isPrefixOf tag.toList then
    "!!" ++ String.ofList (tag.toList.drop standardTag.length)
  else tag

/-- The tag that a handle and a suffix spell. -/
def spellTag (p : Placed) (handle suffix : String) : Build String := do
  if handle.isEmpty then return shortTag suffix
  else
    match ((← get).handles ++ standardHandles).lookup handle with
    | some start => return shortTag (start ++ suffix)
    | none => throw ⟨"found undefined tag handle", 0, p.line⟩

/-- The anchor and the tag in front of a node, and the line of the first of them. -/
def properties : Build (Option String × Option String × Option Nat) := do
  let p ← peek
  match p.lexeme with
  | .anchor name =>
    skip
    match (← peek).lexeme with
    | .tag handle suffix =>
      skip
      return (some name, some (← spellTag p handle suffix), some p.line)
    | _ => return (some name, none, some p.line)
  | .tag handle suffix =>
    skip
    let tag ← spellTag p handle suffix
    match (← peek).lexeme with
    | .anchor name =>
      skip
      return (some name, some tag, some p.line)
    | _ => return (none, some tag, some p.line)
  | _ => return (none, none, none)

/-- Gives a node that is about to be read its name, if it has one. -/
def openAnchor (name? : Option String) (outline : Node) : Build Unit :=
  match name? with
  | some name => modify fun b => { b with anchors := ⟨name, true, outline⟩ :: b.anchors }
  | none => pure ()

/-- Puts a node that has been read in its place among the nodes with a name, if it has one; `before`
is the number of those that were there before it. -/
def closeAnchor (name? : Option String) (before : Nat) (n : Node) : Build Unit :=
  match name? with
  | some name => modify fun b =>
    { b with anchors := b.anchors.set (b.anchors.length - 1 - before) ⟨name, false, n⟩ }
  | none => pure ()

/-- What the name of a collection stands for inside of it: the collection without its entries. -/
def outlineOf (line : Nat) (tag : Option String) (x : Lexeme) : Node :=
  match x with
  | .blockEntry | .blockSequenceStart | .flowSequenceStart => .sequence line tag []
  | _ => .mapping line tag []

/-- The lexeme ends an entry of a block mapping. -/
def endsBlockEntry : Lexeme → Bool
  | .key | .value | .blockEnd => true
  | _ => false

mutual

/-- A node.  Block collections are possible if `block` is set, and entries of a sequence as deep as
the key in front of them if `indentless` is. -/
def node (fuel : Nat) (block indentless : Bool) : Build Node :=
  match fuel with
  | 0 => do fail (← peek) "exceeded max depth"
  | fuel + 1 => do
    let p ← peek
    match p.lexeme with
    | .reference name =>
      skip
      match (← get).anchors.find? (·.name == name) with
      | some a => return .reference (p.line + 1) name a.isOpen a.node
      | none => fail p ("unknown anchor '" ++ name ++ "' referenced")
    | _ =>
      let (anchor, tag, first) ← properties
      let p ← peek
      let line := first.getD p.line + 1
      let before := (← get).anchors.length
      openAnchor anchor (outlineOf line tag p.lexeme)
      let built ← match p.lexeme with
        | .scalar text style => do
          skip
          pure (Node.scalar line tag style text)
        | .flowSequenceStart => do
          skip
          pure (Node.sequence line tag (← flowSequence fuel true))
        | .flowMappingStart => do
          skip
          pure (Node.mapping line tag (← flowMapping fuel true))
        | x => do
          if x = .blockEntry && indentless then
            pure (Node.sequence line tag (← sequence fuel true))
          else if x = .blockSequenceStart && block then
            skip
            pure (Node.sequence line tag (← sequence fuel false))
          else if x = .blockMappingStart && block then
            skip
            pure (Node.mapping line tag (← mapping fuel))
          else if anchor.isSome || tag.isSome then pure (Node.scalar line tag .plain "")
          else fail p "did not find expected node content"
      closeAnchor anchor before built
      return built

/-- The entries of a block sequence.  One without an indentation of its own ends where no further
entry follows, another one at the end of its block. -/
def sequence (fuel : Nat) (indentless : Bool) : Build (List Node) :=
  match fuel with
  | 0 => do return [← fail (← peek) "exceeded max depth"]
  | fuel + 1 => do
    let p ← peek
    match p.lexeme with
    | .blockEntry =>
      skip
      let q ← peek
      let isMissing := q.lexeme = .blockEntry || q.lexeme = .blockEnd ||
        (indentless && endsBlockEntry q.lexeme)
      let item ← if isMissing then pure (missing p) else node fuel true false
      return item :: (← sequence fuel indentless)
    | x =>
      if indentless then return []
      else if x = .blockEnd then
        skip
        return []
      else return [← fail p "did not find expected '-' indicator"]

/-- The entries of a block mapping. -/
def mapping (fuel : Nat) : Build (List (Node × Node)) :=
  match fuel with
  | 0 => do
    let n ← fail (← peek) "exceeded max depth"
    return [(n, n)]
  | fuel + 1 => do
    let p ← peek
    match p.lexeme with
    | .key =>
      skip
      let q ← peek
      let key ← if endsBlockEntry q.lexeme then pure (missing p) else node fuel true true
      let q ← peek
      let value ← if q.lexeme = .value then do
          skip
          if endsBlockEntry (← peek).lexeme then pure (missing q) else node fuel true true
        else pure (missing q)
      return (key, value) :: (← mapping fuel)
    | .blockEnd =>
      skip
      return []
    | _ =>
      let n ← fail p "did not find expected key"
      return [(n, n)]

/-- The entries of a flow sequence.  An entry can be a mapping with one key; where that key is
missing, the lexeme in its place is passed over. -/
def flowSequence (fuel : Nat) (first : Bool) : Build (List Node) :=
  match fuel with
  | 0 => do return [← fail (← peek) "exceeded max depth"]
  | fuel + 1 => do
    let p ← peek
    if p.lexeme = .flowSequenceEnd then
      skip
      return []
    else
      if !first then
        if p.lexeme = .flowEntry then skip
        else let _ ← fail p "did not find expected ',' or ']'"
      let p ← peek
      match p.lexeme with
      | .flowSequenceEnd =>
        skip
        return []
      | .key =>
        skip
        let q ← peek
        let key ← match q.lexeme with
          | .value | .flowEntry | .flowSequenceEnd => do
            skip
            pure (missing q)
          | _ => node fuel false false
        let value ← flowValue fuel .flowSequenceEnd
        return .mapping (p.line + 1) none [(key, value)] :: (← flowSequence fuel false)
      | _ =>
        let item ← node fuel false false
        return item :: (← flowSequence fuel false)

/-- The entries of a flow mapping. -/
def flowMapping (fuel : Nat) (first : Bool) : Build (List (Node × Node)) :=
  match fuel with
  | 0 => do
    let n ← fail (← peek) "exceeded max depth"
    return [(n, n)]
  | fuel + 1 => do
    let p ← peek
    if p.lexeme = .flowMappingEnd then
      skip
      return []
    else
      if !first then
        if p.lexeme = .flowEntry then skip
        else let _ ← fail p "did not find expected ',' or '\x7d'"
      let p ← peek
      match p.lexeme with
      | .flowMappingEnd =>
        skip
        return []
      | .key =>
        skip
        let q ← peek
        let key ← match q.lexeme with
          | .value | .flowEntry | .flowMappingEnd => pure (missing q)
          | _ => node fuel false false
        let value ← flowValue fuel .flowMappingEnd
        return (key, value) :: (← flowMapping fuel false)
      | _ =>
        let key ← node fuel false false
        return (key, missing (← peek)) :: (← flowMapping fuel false)

/-- The value behind a key in a flow collection that ends with `stop`. -/
def flowValue (fuel : Nat) (stop : Lexeme) : Build Node :=
  match fuel with
  | 0 => do fail (← peek) "exceeded max depth"
  | fuel + 1 => do
    let p ← peek
    if p.lexeme = .value then
      skip
      let q ← peek
      if q.lexeme = .flowEntry || q.lexeme = stop then return missing q
      else node fuel false false
    else return missing p

end

/-- The directions in front of a document.  A version is given once and has to be 1.1, and a handle
is given once. -/
def directions : (fuel : Nat) → (versioned : Bool) → Build Unit
  | 0, _ => pure ()
  | fuel + 1, versioned => do
    let p ← peek
    match p.lexeme with
    | .version major minor =>
      if versioned then throw ⟨"found duplicate %YAML directive", 0, p.line⟩
      if (major, minor) ≠ (1, 1) then throw ⟨"found incompatible YAML document", 0, p.line⟩
      skip
      directions fuel true
    | .tagHandle handle start =>
      if ((← get).handles.lookup handle).isSome then
        throw ⟨"found duplicate %TAG directive", 0, p.line⟩
      skip
      modify fun b => { b with handles := (handle, start) :: b.handles }
      directions fuel versioned
    | _ => pure ()

/-- The root of the first document, none if the text holds no document. -/
def document (fuel : Nat) : Build (Option Node) := do
  let p ← peek
  match p.lexeme with
  | .streamEnd => return none
  | .documentStart | .version _ _ | .tagHandle _ _ =>
    directions fuel false
    if (← peek).lexeme ≠ .documentStart then
      let _ ← fail (← peek) "did not find expected <document start>"
    skip
    let q ← peek
    match q.lexeme with
    | .version _ _ | .tagHandle _ _ | .documentStart | .documentEnd | .streamEnd =>
      return some (missing q)
    | _ => return some (← node fuel true false)
  | _ => return some (← node fuel true false)

end Build

/-- The root of the first document of a text, none if the text holds no document.  What follows the
document has to begin with a lexeme. -/
def Node.ofText (text : String) : Except Malformed (Option Node) := do
  let found := cut text
  let count := found.lexemes.length
  let builder : Builder :=
    ⟨found.lexemes, found.flaw?, found.undecided.map (count - ·), [], []⟩
  let build : Build (Option Node) := do
    let root ← Build.document (4 * count + 8)
    if root.isSome then
      let _ ← Build.peek
    return root
  return (← build.run builder).1

end Lox.Yaml
