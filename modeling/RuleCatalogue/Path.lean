import RuleCatalogue.Text.Substring

/-!
# Paths

A path is a sequence of segments, which starts at the root or at the working directory.  Empty
segments and single points are dropped when a path is read, so two spellings of one path are equal;
double points stay, because only the file system or an explicit resolution may remove them.

## Main definitions

* `Path.ofText` and `Path.text` read and write a path.
* `Path.resolved` and `Path.absolute` remove the double points, without a look at the files.
-/

namespace RuleCatalogue

/-- **Where a path starts.**  Two slashes are kept apart from one. -/
inductive Anchor
  | here
  | root
  | doubleRoot
deriving DecidableEq, Repr

/-- The text of an anchor in front of the segments. -/
def Anchor.text : Anchor → String
  | here => ""
  | root => "/"
  | doubleRoot => "//"

/-- The anchor of a text: three slashes or more count as one. -/
def Anchor.ofChars (s : List Char) : Anchor :=
  match s.takeWhile (· == '/') with
  | [] => here
  | [_, _] => doubleRoot
  | _ => root

/-- **A path.** -/
structure Path where
  anchor : Anchor := .here
  segments : List String := []
deriving DecidableEq, Repr, Inhabited

namespace Path

/-- The segments of a text, without the empty ones and the single points. -/
def segmentsOf (s : List Char) : List String :=
  ((Text.splitWhere (· == '/') s).filter fun piece => !piece.isEmpty && piece != ['.']).map
    String.ofList

/-- The path that a text writes. -/
def ofText (s : String) : Path :=
  ⟨Anchor.ofChars s.toList, segmentsOf s.toList⟩

/-- **The text of a path**; the working directory itself is a point. -/
def text (p : Path) : String :=
  match p.anchor, p.segments with
  | .here, [] => "."
  | anchor, segments => anchor.text ++ Text.join "/" segments

/-- The last segment; a path without segments has an empty name. -/
def name (p : Path) : String :=
  p.segments.getLast?.getD ""

/-- The path without its last segment. -/
def parent (p : Path) : Path :=
  { p with segments := p.segments.dropLast }

/-- Whether a path starts at the root. -/
def isAbsolute (p : Path) : Bool :=
  p.anchor != .here

/-- A path seen from a directory; an absolute path stays as it is. -/
def within (p directory : Path) : Path :=
  if p.isAbsolute then p else { directory with segments := directory.segments ++ p.segments }

/-- The path of a file in a directory. -/
def child (directory : Path) (name : String) : Path :=
  (ofText name).within directory

/-- Takes one more segment: a double point removes the segment before it, which at the root is
nothing; without a root, double points in front are kept. -/
def push (isRooted : Bool) (before : List String) (segment : String) : List String :=
  if segment = ".." then
    match before.getLast? with
    | none => if isRooted then [] else [segment]
    | some ".." => before ++ [segment]
    | some _ => before.dropLast
  else before ++ [segment]

/-- **The path without double points**, as far as it can be known from its text. -/
def resolved (p : Path) : Path :=
  { p with segments := p.segments.foldl (push p.isAbsolute) [] }

/-- **The path from the root**, seen from a working directory, without double points. -/
def absolute (p directory : Path) : Path :=
  { (p.within directory).resolved with anchor := .root }

/-- Whether a NUL stands in a path. -/
def hasNull (p : Path) : Bool :=
  p.segments.any fun segment => segment.toList.contains '\x00'

end Path

end RuleCatalogue
