import RuleCatalogue.Encoding.Basic
import RuleCatalogue.Path

/-!
# File trees

A tree of directories and regular files, and what can be done with it.  A place in the tree is the
list of segments from the root; a path leads to a place by following its segments through
directories, where a double point leads back.

## Main definitions

* `FileTree.follow` finds the place of a path, `FileTree.get?` what is there.
* `Workspace.read`, `makeDirectory`, `create`, `write`, `append`, `rename` and `remove` are the
  operations; each either fails and leaves the tree alone, or gives the tree that it makes.

## Design notes

A tree is a list of places with what they hold, and the root is always a directory.  That what
holds a place is a directory need not be known of the list: every path is checked as it is followed.
-/

namespace RuleCatalogue

/-- **Why an operation on files is refused.** -/
inductive FileFault
  | noSuchFile
  | busy
  | alreadyExists
  | notDirectory
  | isDirectory
  /-- A fault that a tree of files does not have, such as a lack of rights. -/
  | other (number : Nat) (wording : String)
deriving DecidableEq, Repr

namespace FileFault

/-- The number of a fault. -/
def number : FileFault → Nat
  | noSuchFile => 2
  | busy => 16
  | alreadyExists => 17
  | notDirectory => 20
  | isDirectory => 21
  | other number _ => number

/-- The wording of a fault. -/
def message : FileFault → String
  | noSuchFile => "No such file or directory"
  | busy => "Device or resource busy"
  | alreadyExists => "File exists"
  | notDirectory => "Not a directory"
  | isDirectory => "Is a directory"
  | other _ wording => wording

end FileFault

/-- **Why an operation on a path fails.** -/
inductive FileError
  /-- The operation is refused; a path that was to be replaced is named as well. -/
  | refused (fault : FileFault) (path : Path) (target : Option Path)
  /-- A path has a NUL in it; some operations are named. -/
  | nullInPath (operation : Option String)
deriving DecidableEq, Repr

/-- The wording of an error. -/
def FileError.message : FileError → String
  | refused fault path target =>
      let goal := target.elim "" fun target => " -> " ++ Text.quoted target.text
      "[Errno " ++ toString fault.number ++ "] " ++ fault.message ++ ": "
        ++ Text.quoted path.text ++ goal
  | nullInPath none => "embedded null byte"
  | nullInPath (some operation) => operation ++ ": embedded null character in path"

/-- A place in a tree: the segments from the root. -/
abbrev Place := List String

/-- **What a place holds.** -/
inductive FileEntry
  | file (contents : Octets)
  | directory
deriving DecidableEq, Repr

/-- **A file tree**: what its places hold, apart from the root. -/
structure FileTree where
  entries : List (Place × FileEntry) := []
deriving DecidableEq, Repr, Inhabited

namespace FileTree

/-- What a place holds, if anything. -/
def get? (tree : FileTree) (place : Place) : Option FileEntry :=
  if place = [] then some .directory else tree.entries.lookup place

/-- The tree without what a place holds. -/
def erase (tree : FileTree) (place : Place) : FileTree :=
  ⟨tree.entries.filter fun entry => entry.1 ≠ place⟩

/-- The tree in which a place holds something else. -/
def put (tree : FileTree) (place : Place) (entry : FileEntry) : FileTree :=
  ⟨(place, entry) :: (tree.erase place).entries⟩

/-- **Follows segments** from a place on.  What they pass through must be a directory; the last one
need not be there. -/
def follow (tree : FileTree) (start : Place) : List String → Except FileFault Place
  | [] => .ok start
  | segment :: rest =>
      match tree.get? start with
      | none => .error .noSuchFile
      | some (.file _) => .error .notDirectory
      | some .directory =>
          follow tree (if segment = ".." then start.dropLast else start ++ [segment]) rest

/-- The names of the regular files in a directory. -/
def fileNamesAt (tree : FileTree) (place : Place) : List String :=
  tree.entries.filterMap fun (inner, entry) =>
    match entry, inner.getLast? with
    | .file _, some name => if inner.dropLast = place then some name else none
    | _, _ => none

end FileTree

/-- **A file tree seen from a working directory.** -/
structure Workspace where
  tree : FileTree := {}
  directory : Place := []
deriving DecidableEq, Repr, Inhabited

namespace Workspace

/-- The place of a path. -/
def locate (w : Workspace) (p : Path) : Except FileFault Place :=
  w.tree.follow (if p.isAbsolute then [] else w.directory) p.segments

/-- The place of a path and what it holds. -/
def find (w : Workspace) (p : Path) : Except FileFault (Place × FileEntry) :=
  match w.locate p with
  | .error fault => .error fault
  | .ok place =>
      match w.tree.get? place with
      | some entry => .ok (place, entry)
      | none => .error .noSuchFile

/-- Whether a path leads to a directory. -/
def isDirectory (w : Workspace) (p : Path) : Bool :=
  match w.find p with
  | .ok (_, .directory) => true
  | _ => false

/-- Whether a path leads to anything. -/
def check (w : Workspace) (p : Path) : Except FileFault Unit :=
  (w.find p).map fun _ => ()

/-- The contents of a regular file. -/
def read (w : Workspace) (p : Path) : Except FileFault Octets :=
  match w.find p with
  | .ok (_, .file contents) => .ok contents
  | .ok (_, .directory) => .error .isDirectory
  | .error fault => .error fault

/-- The names of the regular files in a directory. -/
def fileNames (w : Workspace) (p : Path) : List String :=
  match w.find p with
  | .ok (place, .directory) => w.tree.fileNamesAt place
  | _ => []

/-- Puts something at a place where nothing is yet. -/
def addNew (w : Workspace) (p : Path) (entry : FileEntry) : Except FileFault Workspace :=
  match w.locate p with
  | .error fault => .error fault
  | .ok place =>
      match w.tree.get? place with
      | some _ => .error .alreadyExists
      | none => .ok { w with tree := w.tree.put place entry }

/-- Makes a directory. -/
def makeDirectory (w : Workspace) (p : Path) : Except FileFault Workspace :=
  w.addNew p .directory

/-- Makes an empty file where nothing is yet. -/
def create (w : Workspace) (p : Path) : Except FileFault Workspace :=
  w.addNew p (.file [])

/-- Replaces the contents of a regular file. -/
def write (w : Workspace) (p : Path) (contents : Octets) : Except FileFault Workspace :=
  match w.find p with
  | .ok (place, .file _) => .ok { w with tree := w.tree.put place (.file contents) }
  | .ok (_, .directory) => .error .isDirectory
  | .error fault => .error fault

/-- Adds to the end of a regular file, which is made if nothing is there. -/
def append (w : Workspace) (p : Path) (more : Octets) : Except FileFault Workspace :=
  match w.locate p with
  | .error fault => .error fault
  | .ok place =>
      match w.tree.get? place with
      | none => .ok { w with tree := w.tree.put place (.file more) }
      | some (.file contents) => .ok { w with tree := w.tree.put place (.file (contents ++ more)) }
      | some .directory => .error .isDirectory

/-- Whether a path ends in a name, rather than in a step back or nowhere. -/
def endsInName (p : Path) : Bool :=
  p.segments.getLast?.any (· ≠ "..")

/-- **Moves a regular file** in one step to where another regular file or nothing is. -/
def rename (w : Workspace) (source target : Path) : Except FileFault Workspace :=
  match w.locate source, w.locate target with
  | .error fault, _ => .error fault
  | _, .error fault => .error fault
  | .ok start, .ok goal =>
      if !endsInName source || !endsInName target then .error .busy
      else
        match w.tree.get? start, w.tree.get? goal with
        | none, _ => .error .noSuchFile
        | some .directory, _ => .error .isDirectory
        | some (.file _), some .directory => .error .isDirectory
        | some (.file contents), _ =>
            .ok { w with tree := (w.tree.erase start).put goal (.file contents) }

/-- Removes a regular file. -/
def remove (w : Workspace) (p : Path) : Except FileFault Workspace :=
  match w.find p with
  | .ok (place, .file _) => .ok { w with tree := w.tree.erase place }
  | .ok (_, .directory) => .error .isDirectory
  | .error fault => .error fault

end Workspace

end RuleCatalogue
