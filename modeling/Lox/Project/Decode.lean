import Lox.Project.Settings
import Lox.Yaml.Resolve

/-!
# Settings from YAML

A settings file holds a mapping from the names of settings to their values.  What does not fit is
noted, line by line, and decoding goes on; only a text that is no YAML, or natives that are neither
a list nor a scalar, end it at once.

Under the key `<<` a mapping takes over the entries of another mapping, or of a list of mappings.
What it says itself goes first, and of what it takes over the earlier goes before the later.
-/

namespace Lox.Settings

open Yaml (Node Malformed)

/-- Why a settings file cannot be decoded. -/
inductive DecodeError where
  /-- The file holds no document. -/
  | empty
  | malformed (m : Malformed)
  /-- Nodes that do not fit, as they are reported. -/
  | mismatches (lines : List String)
  /-- The natives are given as something else than a list or a scalar. -/
  | wrongNatives (tag : String)

namespace DecodeError

/-- The wording of a decoding error. -/
def text : DecodeError → String
  | empty => "is empty"
  | malformed m => m.text
  | mismatches lines =>
    "yaml: unmarshal errors:" ++ String.join (lines.map fun l => "\n  " ++ l)
  | wrongNatives tag => "config: expected string or sequence for list but found " ++ tag

end DecodeError

/-- Decoding, with the mismatches noted so far. -/
abbrev Decode := StateT (List String) (Except DecodeError)

namespace Decode

/-- The name of the whole set of settings in messages. -/
def typeName : String := "driver.configFile"

/-- The name of lists of texts in messages. -/
def listName : String := "driver.stringList"

/-- The name of the type of a setting that can be left out; it has a star in front as long as what
is given is tagged as null. -/
def optionalName (name : String) (n : Node) : String :=
  if n.isNullTagged then "*" ++ name else name

/-- Notes a mismatch. -/
def note (line : String) : Decode Unit := modify (· ++ [line])

/-- The form and the value of a key, by which keys are compared. -/
def identity : Node → Nat × String
  | .scalar _ _ _ value => (0, value)
  | .sequence _ _ _ => (1, "")
  | .mapping _ _ _ => (2, "")
  | .reference _ name _ _ => (3, name)

/-- The keys of a mapping that occur a second time, as they are reported. -/
def repeatedKeys : List (Node × Node) → List String
  | [] => []
  | (key, _) :: rest =>
    let again := rest.filter fun entry => identity entry.1 == identity key
    again.map (fun entry =>
      "line " ++ toString entry.1.line ++ ": mapping key " ++
        Text.Quoted.text (identity key).2 ++ " already defined at line " ++ toString key.line) ++
      repeatedKeys rest

/-- Notes the keys that are repeated in a mapping; yields whether there are any. -/
def noteRepeated (entries : List (Node × Node)) : Decode Bool := do
  let repeated := repeatedKeys entries
  repeated.forM note
  return !repeated.isEmpty

/-- Notes that a collection stands where something else is wanted; repeated keys come first. -/
def noteCollection (n : Node) (wanted : String) : Decode Unit := do
  let repeats ← match n with
    | .mapping _ _ entries => noteRepeated entries
    | _ => pure false
  if !repeats then note (n.mismatch wanted)

/-- What a scalar means: its type and its text. -/
def content (tag : Option String) (style : Yaml.Style) (value : String) :
    Decode (Yaml.ScalarType × String) :=
  match Node.content tag style value with
  | .ok c => return c
  | .error m => throw (.malformed m)

/-- The text of a node where the type `wanted` is expected; none for null and for what is no
scalar. -/
def textAs (wanted : String) : Node → Decode (Option String)
  | .reference _ _ _ target => textAs wanted target
  | .scalar _ tag style value => do
    let (type, text) ← content tag style value
    if type = .null then return none else return some text
  | n => do
    noteCollection n wanted
    return none

/-- The text of a node. -/
def text (n : Node) : Decode (Option String) := textAs "string" n

/-- The strings that count as true. -/
def trueWords : List String := ["y", "Y", "yes", "Yes", "YES", "on", "On", "ON"]

/-- The strings that count as false. -/
def falseWords : List String := ["n", "N", "no", "No", "NO", "off", "Off", "OFF"]

/-- The truth value of a node; none for null and for what is no truth value. -/
def truth : Node → Decode (Option Bool)
  | .reference _ _ _ target => truth target
  | .scalar line tag style value => do
    match ← content tag style value with
    | (.null, _) => return none
    | (.bool b, _) => return some b
    | (.string, word) =>
      if trueWords.contains word then return some true
      else if falseWords.contains word then return some false
      else
        note ((Node.scalar line tag style value).mismatch "bool")
        return none
    | _ =>
      note ((Node.scalar line tag style value).mismatch "bool")
      return none
  | n => do
    noteCollection n "bool"
    return none

/-- The items of a list of texts, up to one that does not fit. -/
def items : List Node → Decode (Option (List String))
  | [] => return some []
  | n :: rest => do
    let before ← get
    let item ← text n
    let after ← get
    if before.length < after.length then return none
    else
      match ← items rest with
      | some more => return some (item.getD "" :: more)
      | none => return none

/-- A list of texts, which can be given as a single one; none for null and for what does not
fit. -/
def texts : Node → Decode (Option (List String))
  | .reference _ _ _ target => texts target
  | .scalar line tag style value => do
    if (Node.scalar line tag style value).isNullTagged then
      let _ ← content tag style value
      return none
    else if Text.isBlankText value then return some []
    else return some [Text.trim value]
  | n => do
    if n.isNullTagged then
      noteCollection n (optionalName listName n)
      return none
    else match n with
      | .sequence _ _ nodes => items nodes
      | _ => throw (.wrongNatives n.tagText)

/-- The names of the settings. -/
def names : List String := ["name", "entry", "natives", "echo", "color", "history"]

/-- One setting, added to a draft; a name that is no setting is noted. -/
def setting (d : Draft) (key : Node) (name : String) (value : Node) : Decode Draft := do
  match name with
  | "name" => return { d with name := (← text value).getD d.name }
  | "entry" => return { d with entry := ← textAs (optionalName "string" value) value }
  | "natives" => return { d with natives := ← texts value }
  | "echo" => return { d with echo := (← truth value).getD d.echo }
  | "color" => return { d with color := (← text value).getD d.color }
  | "history" => return { d with history := (← text value).getD d.history }
  | _ =>
    note ("line " ++ toString key.line ++ ": field " ++ name ++ " not found in type " ++ typeName)
    return d

/-- The settings of the entries of a mapping, added to a draft; `done` are the settings met so
far. -/
def settings (d : Draft) : List (Node × Node) → (done : List String) → Decode Draft
  | [], _ => return d
  | (key, value) :: rest, done => do
    if key.isMerge then settings d rest done
    else match ← text key with
      | none => settings d rest done
      | some name =>
        if done.contains name then
          note ("line " ++ toString key.line ++ ": field " ++ name ++ " already set in type " ++
            typeName)
          settings d rest done
        else
          let d ← setting d key name value
          settings d rest (if names.contains name then name :: done else done)

/-! ## Entries of other mappings -/

/-- The keys of a mapping that are strings. -/
def stringKeys : List (Node × Node) → Decode (List String)
  | [] => return []
  | (key, _) :: rest => do
    let more ← stringKeys rest
    match key.target with
    | .scalar _ tag style value =>
      let (type, text) ← content tag style value
      if type = .string then return text :: more else return more
    | _ => return more

/-- The settings that a mapping takes over from the entries of another one, and the keys that it has
then; one that it has already stays as it is. -/
def takeOver (d : Draft) : List (Node × Node) → (taken : List String) →
    Decode (Draft × List String)
  | [], taken => return (d, taken)
  | (key, value) :: rest, taken => do
    if key.isMerge then takeOver d rest taken
    else match ← text key with
      | none => takeOver d rest taken
      | some name =>
        if taken.contains name then takeOver d rest taken
        else takeOver (← setting d key name value) rest (name :: taken)

mutual

/-- Takes over a mapping, and then what that one takes over in turn; no mapping can take over one
that it stands in. -/
def merge (d : Draft) (taken : List String) : Node → Decode (Draft × List String)
  | .reference _ name isInside target =>
    if isInside then
      throw (.malformed ⟨"anchor '" ++ name ++ "' value contains itself", 0, 0⟩)
    else merge d taken target
  | .mapping _ _ entries => do
    if ← noteRepeated entries then return (d, taken)
    else
      let (d, taken) ← takeOver d entries taken
      mergeUnder d taken entries
  | _ => throw (.malformed ⟨"map merge requires map or sequence of maps as the value", 0, 0⟩)

/-- Takes over what stands under the key `<<`. -/
def mergeUnder (d : Draft) (taken : List String) :
    List (Node × Node) → Decode (Draft × List String)
  | [] => return (d, taken)
  | (key, value) :: rest =>
    if key.isMerge then
      match value with
      | .sequence _ _ nodes => mergeAll d taken nodes
      | n => merge d taken n
    else mergeUnder d taken rest

/-- Takes over mappings one after the other. -/
def mergeAll (d : Draft) (taken : List String) : List Node → Decode (Draft × List String)
  | [] => return (d, taken)
  | n :: rest => do
    let (d, taken) ← merge d taken n
    mergeAll d taken rest

end

/-! ## The whole document -/

/-- The draft that a document holds. -/
def draft : Node → Decode Draft
  | .reference _ _ _ target => draft target
  | .scalar line tag style value => do
    if (← content tag style value).1 ≠ .null then
      note ((Node.scalar line tag style value).mismatch typeName)
    return {}
  | .sequence line tag nodes => do
    note ((Node.sequence line tag nodes).mismatch typeName)
    return {}
  | .mapping _ _ entries => do
    if ← noteRepeated entries then return {}
    else
      let d ← settings {} entries []
      return (← mergeUnder d (← stringKeys entries) entries).1

end Decode

/-- The draft that the text of a settings file holds. -/
def Draft.ofText (text : String) : Except DecodeError Draft :=
  match Node.ofText text with
  | .error m => .error (.malformed m)
  | .ok none => .error .empty
  | .ok (some root) =>
    match (Decode.draft root).run [] with
    | .error e => .error e
    | .ok (d, []) => .ok d
    | .ok (_, lines) => .error (.mismatches lines)

end Lox.Settings
