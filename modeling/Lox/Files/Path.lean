/-!
# Paths

Paths with slashes, as text.  A path is cleaned by rules on its text alone: empty segments and `.`
are left out and `..` takes away the segment before it, or is left out at the root.
-/

namespace Lox.Path

/-- The segments of a text between its slashes; there is always at least one. -/
def segmentsOf : List Char → List (List Char)
  | [] => [[]]
  | c :: rest =>
    if c = '/' then [] :: segmentsOf rest
    else match segmentsOf rest with
      | [] => [[c]]
      | segment :: more => (c :: segment) :: more

/-- The segments of a path between its slashes. -/
def segments (path : String) : List String :=
  (segmentsOf path.toList).map String.ofList

/-- The path starts at the root. -/
def isAbsolute (path : String) : Bool :=
  path.toList.head? = some '/'

/-- One segment more, onto the segments so far, the last of them first. -/
def push (rooted : Bool) (before : List String) (segment : String) : List String :=
  if segment = "" ∨ segment = "." then before
  else if segment = ".." then
    match before with
    | [] => if rooted then [] else [".."]
    | last :: rest => if last = ".." then ".." :: before else rest
  else segment :: before

/-- The segments that are left of a path when it is cleaned. -/
def cleanSegments (path : String) : List String :=
  ((segments path).foldl (push (isAbsolute path)) []).reverse

/-- The path made of segments, from the root or not; the path without segments is `/` or `.`. -/
def ofSegments (rooted : Bool) (parts : List String) : String :=
  let body := "/".intercalate parts
  if rooted then "/" ++ body else if parts.isEmpty then "." else body

/-- The shortest path that is the same by its text. -/
def clean (path : String) : String :=
  ofSegments (isAbsolute path) (cleanSegments path)

/-- Two paths one after the other, cleaned; an empty one is left out. -/
def join (a b : String) : String :=
  if a.isEmpty && b.isEmpty then ""
  else if a.isEmpty then clean b
  else if b.isEmpty then clean a
  else clean (a ++ "/" ++ b)

/-- The directory part of a path, cleaned. -/
def directory (path : String) : String :=
  clean (String.ofList (path.toList.reverse.dropWhile (· != '/')).reverse)

/-- A path from the root, cleaned; `here` is the directory that other paths start from. -/
def absolute (here path : String) : String :=
  if isAbsolute path then clean path else join here path

/-- The paths made of ever fewer of the segments, the last segment first to go. -/
def shorter (parts : List String) : List (List String) :=
  (List.range (parts.length + 1)).reverse.map fun n => parts.take n

/-- A clean absolute path and the directories around it, up to the root. -/
def ancestors (path : String) : List String :=
  (shorter (cleanSegments path)).map (ofSegments true)

end Lox.Path
