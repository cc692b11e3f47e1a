import RuleCatalogue.Encoding.Codec
import RuleCatalogue.Host

/-!
# Working with files

Operations on the files of a host that name the path when they fail, and the two operations made of
several steps: making a directory together with those above it, and replacing a file by a text.

The source files of a directory are its regular files whose names begin in a given way, in the
order of their names.  What is no directory has none.

## Main definitions

* `Files.makeDirectories` makes a directory and all that lead to it.
* `Files.replaceContents` fills a spare file beside its target and then moves it there, so the
  target holds either what it held before or the new contents as a whole.
* `Files.replaceText` does so with the octets of a text.
-/

namespace RuleCatalogue.Files

variable {m : Type → Type} [Monad m] [Host m]

/-- Does an operation on a path that has no NUL in it, and names the path if it is refused. -/
def onPath {α : Type} (operation : Option String) (p : Path)
    (action : Path → m (Except FileFault α)) : m (Except FileError α) :=
  if p.hasNull then return .error (.nullInPath operation)
  else do
    match ← action p with
    | .ok a => return .ok a
    | .error fault => return .error (.refused fault p none)

/-- The contents of a regular file. -/
def read (p : Path) : m (Except FileError Octets) :=
  onPath none p Host.read

/-- Adds to the end of a regular file, which is made if nothing is there. -/
def append (p : Path) (more : Octets) : m (Except FileError Unit) :=
  onPath none p (Host.append · more)

/-- Whether a path leads to a directory. -/
def isDirectory (p : Path) : m Bool :=
  if p.hasNull then return false else Host.isDirectory p

/-- **Makes a directory** and all directories that lead to it.  A directory that is there already
is left alone. -/
def makeDirectories (p : Path) : m (Except FileError Unit) := do
  match ← onPath (some "mkdir") p Host.makeDirectory with
  | .ok () => return .ok ()
  | .error (.refused .noSuchFile path target) =>
      if _h : p.segments = [] then return .error (.refused .noSuchFile path target)
      else
        match ← makeDirectories p.parent with
        | .error e => return .error e
        | .ok () =>
            match ← onPath (some "mkdir") p Host.makeDirectory with
            | .error (.refused fault path target) =>
                if fault ≠ .noSuchFile && (← isDirectory p) then return .ok ()
                else return .error (.refused fault path target)
            | other => return other
  | .error (.refused fault path target) =>
      if ← isDirectory p then return .ok () else return .error (.refused fault path target)
  | .error e => return .error e
termination_by p.segments.length
decreasing_by
  have : p.segments.length ≠ 0 := fun e => _h (List.length_eq_zero_iff.mp e)
  simp only [Path.parent, List.length_dropLast]; omega

/-- Checks that every step of a path is there; double points have been removed from the steps
before them. -/
def checkSteps (anchor : Anchor) (before : List String) : List String → m (Except FileError Unit)
  | [] => return .ok ()
  | segment :: rest => do
      let reached := Path.push (anchor != .here) before segment
      if segment = ".." then checkSteps anchor reached rest
      else
        match ← onPath (some "lstat") ⟨anchor, reached⟩ Host.check with
        | .error e => return .error e
        | .ok () => checkSteps anchor reached rest

/-- **Why a text is not written.** -/
inductive WriteError
  | file (e : FileError)
  | encodingName (e : EncodingNameError)
  | text (e : EncodeFailure)
deriving DecidableEq, Repr

/-- The wording of an error. -/
def WriteError.message : WriteError → String
  | file e => e.message
  | encodingName e => e.message
  | text e => e.message

/-- **What the encoder of a name gives for a text.** -/
def encodedIn [Codecs] (encoding text : String) : Except WriteError Encoded :=
  match TextCodec.ofName encoding with
  | .error e => .error (.encodingName e)
  | .ok codec => (codec.encode text.toList).mapError .text

/-- The octets that are put out for a text in an encoding that is given by its name.  The stream is
never told that the text is at its end, so what the encoder holds back is not among them. -/
def octetsIn [Codecs] (encoding text : String) : Except WriteError Octets :=
  (encodedIn encoding text).map Encoded.octets

/-- Moves a spare file that has been filled to its target. -/
def moveInto (staged target : Path) : m (Except WriteError Unit) := do
  match ← (Host.rename staged target : m (Except FileFault Unit)) with
  | .ok () => return .ok ()
  | .error fault => return .error (.file (.refused fault staged (some target)))

/-- Fills a spare file with octets, if there are any, and moves it to its target. -/
def fillAndMove (staged target : Path) (contents : Except WriteError Octets) :
    m (Except WriteError Unit) := do
  match contents with
  | .error e => return .error e
  | .ok octets =>
      match ← onPath none staged (Host.write · octets) with
      | .error e => return .error (.file e)
      | .ok () => moveInto staged target

/-- **Replaces a file** by one with these contents, if there are any to be had.  If anything fails,
the spare file is removed. -/
def replaceContents (target : Path) (contents : Except WriteError Octets) (createParents : Bool) :
    m (Except WriteError Unit) := do
  let prepared : Except FileError Unit ←
    if createParents then makeDirectories target.parent else pure (.ok ())
  match prepared with
  | .error e => return .error (.file e)
  | .ok () =>
      match ← checkSteps target.parent.anchor [] target.parent.segments with
      | .error e => return .error (.file e)
      | .ok () =>
          let directory := target.parent.absolute (← Host.workingDirectory)
          let staged := directory.child ("." ++ target.name ++ "." ++ (← Host.spareName) ++ ".tmp")
          match ← onPath (some "open") staged Host.create with
          | .error e => return .error (.file e)
          | .ok () =>
              match ← fillAndMove staged target contents with
              | .ok () => return .ok ()
              | .error e =>
                  let _ ← (Host.remove staged : m (Except FileFault Unit))
                  return .error e

/-- **Replaces a file by a text** in an encoding that is given by its name. -/
def replaceText [Codecs] (target : Path) (text encoding : String) (createParents : Bool) :
    m (Except WriteError Unit) :=
  replaceContents target (octetsIn encoding text) createParents

end RuleCatalogue.Files

/-! ## Finding source files -/

namespace RuleCatalogue.Discovery

/-- The names that begin in a given way, in increasing order. -/
def select (start : String) (names : List String) : List String :=
  (names.filter (Text.startsWith start)).mergeSort fun a b => decide (a ≤ b)

/-- **The source files of a directory.** -/
def sourceFiles {m : Type → Type} [Monad m] [Host m] (directory : Path) (start : String) :
    m (List Path) := do
  if ← Files.isDirectory directory then
    let names ← Host.fileNames directory
    return (select start names).map fun name =>
      { directory with segments := directory.segments ++ [name] }
  else return []

end RuleCatalogue.Discovery
