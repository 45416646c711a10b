import Lox.Files.Path

/-!
# File trees

A finite tree of files and directories, and what happens when a path is opened in it.  A path is
followed segment by segment, and everything on the way has to be a directory.
-/

namespace Lox

/-- What is found under a path. -/
inductive EntryKind where
  | file
  | directory
  deriving DecidableEq, Repr

/-- Why a file cannot be read. -/
inductive FileError where
  | notFound
  | notADirectory
  | isADirectory
  | other (message : String)
  deriving DecidableEq, Repr

/-- A file error as it is reported; opening a directory works, only reading it fails. -/
def FileError.text (path : String) : FileError → String
  | notFound => "open " ++ path ++ ": no such file or directory"
  | notADirectory => "open " ++ path ++ ": not a directory"
  | isADirectory => "read " ++ path ++ ": is a directory"
  | other message => message

/-- A finite tree: the files with their contents and the directories that were made for their own
sake, all by their segments from the root.  The directories around them are there too. -/
structure FileTree where
  files : List (List String × String)
  directories : List (List String)

namespace FileTree

/-- The contents of a file. -/
def contents? (t : FileTree) (place : List String) : Option String :=
  t.files.lookup place

/-- What is found at a place. -/
def kind? (t : FileTree) (place : List String) : Option EntryKind :=
  if (t.contents? place).isSome then some .file
  else if place.isEmpty || t.directories.any place.isPrefixOf ||
      t.files.any fun f => place.isPrefixOf f.1 then
    some .directory
  else none

/-- Follows segments from a place. -/
def follow (t : FileTree) (place : List String) : List String → Except FileError (List String)
  | [] => .ok place
  | segment :: rest =>
    if t.kind? place ≠ some .directory then .error .notADirectory
    else if segment = "" ∨ segment = "." then t.follow place rest
    else if segment = ".." then t.follow place.dropLast rest
    else
      let next := place ++ [segment]
      if t.kind? next = none then .error .notFound else t.follow next rest

/-- The place from which a path starts. -/
def startOf (here path : String) : List String :=
  if Path.isAbsolute path then [] else Path.cleanSegments here

/-- The place that a path leads to. -/
def resolve (t : FileTree) (here path : String) : Except FileError (List String) :=
  if path.isEmpty then .error .notFound else t.follow (startOf here path) (Path.segments path)

/-- What a path leads to. -/
def kindAt? (t : FileTree) (here path : String) : Option EntryKind :=
  match t.resolve here path with
  | .ok place => t.kind? place
  | .error _ => none

/-- The contents of the file that a path leads to. -/
def read (t : FileTree) (here path : String) : Except FileError String := do
  let place ← t.resolve here path
  match t.contents? place with
  | some text => return text
  | none => throw .isADirectory

/-- Writes a file under the place of a path, in a directory that is there; where that is not
possible the tree stays as it is. -/
def write (t : FileTree) (here path text : String) : FileTree :=
  let parts := Path.segments path
  let name := parts.getLast?.getD ""
  match t.follow (startOf here path) parts.dropLast with
  | .error _ => t
  | .ok parent =>
    let place := parent ++ [name]
    if name = "" ∨ name = "." ∨ name = ".." then t
    else if t.kind? parent ≠ some .directory ∨ t.kind? place = some .directory then t
    else { t with files := (t.files.filter fun f => f.1 != place) ++ [(place, text)] }

/-- The files of a tree that are not in an earlier one with the same contents, by their paths from
the root. -/
def changesSince (t earlier : FileTree) : List (String × String) :=
  (t.files.filter fun f => earlier.contents? f.1 != some f.2).map fun f =>
    (Path.ofSegments true f.1, f.2)

end FileTree

/-- Ways to look at files in a context `m`: what a path leads to, and the text of a file.  Paths
that do not start at the root start at `here`. -/
structure FileView (m : Type → Type) where
  here : String
  kind? : String → m (Option EntryKind)
  read : String → m (Except FileError String)

/-- The view of a fixed tree. -/
def FileTree.view (t : FileTree) (here : String) : FileView Id where
  here := here
  kind? := t.kindAt? here
  read := t.read here

end Lox
