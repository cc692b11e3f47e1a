import RuleCatalogue.Environment
import RuleCatalogue.FileTree

/-!
# Hosts

What a run asks of its surroundings: files, the environment, the time, names that are not yet
taken, and two streams to print to.  A run is written for every monad that is a host, so the same
definitions work on the files of the system and on a file tree.

## Main definitions

* `Host m` lists the questions and actions.
* `Machine` is a host as a value: a file tree, an environment and what has been printed.

## Design notes

Results are printed to a stream that may refuse a text, because characters in it have no octets in
the encoding of the stream or because the stream is at fault.  What is printed as an error is always
taken: its stream writes such characters by their code points.
-/

namespace RuleCatalogue

/-- **Why a text is not printed.**  Nothing of it is. -/
inductive PrintFault
  /-- Some characters have no octets in the encoding of the stream. -/
  | unencodable (e : EncodeError)
  /-- The stream does not take it. -/
  | refused (fault : FileFault)
deriving DecidableEq, Repr

/-- The wording of a fault. -/
def PrintFault.message : PrintFault → String
  | unencodable e => e.message
  | refused fault => "[Errno " ++ toString fault.number ++ "] " ++ fault.message

/-- **A host.**  Operations on files answer with the fault that kept them from being done. -/
class Host (m : Type → Type) where
  workingDirectory : m Path
  environment : m Environment
  /-- The point in time of a record, as a text. -/
  timestamp : m String
  /-- The name of a run that no other run has. -/
  newRunId : m String
  /-- A part of a file name that no other file has. -/
  spareName : m String
  read : Path → m (Except FileFault Octets)
  isDirectory : Path → m Bool
  check : Path → m (Except FileFault Unit)
  fileNames : Path → m (List String)
  makeDirectory : Path → m (Except FileFault Unit)
  create : Path → m (Except FileFault Unit)
  write : Path → Octets → m (Except FileFault Unit)
  append : Path → Octets → m (Except FileFault Unit)
  rename : Path → Path → m (Except FileFault Unit)
  remove : Path → m (Except FileFault Unit)
  print : String → m (Except PrintFault Unit)
  printError : String → m Unit
  /-- Whether what is printed as an error is seen by somebody at a terminal. -/
  errorsAtTerminal : m Bool
  /-- The number of columns of the terminal, or the usual one where there is no terminal. -/
  terminalColumns : m Nat

/-- **A machine**: a host as a value.  It stands still in time and has one name to spare. -/
structure Machine extends Workspace where
  environment : Environment := {}
  timestamp : String := ""
  runId : String := ""
  spareName : String := ""
  errorsAtTerminal : Bool := false
  terminalColumns : Nat := 80
  printed : String := ""
  /-- Whether the stream of results, after what has been printed, refuses a text. -/
  refuses : String → String → Option PrintFault := fun _ _ => none
  printedErrors : String := ""
deriving Inhabited

namespace Machine

/-- Looks at the files of a machine. -/
def look {α : Type} (f : Workspace → α) : StateM Machine α := do
  return f (← get).toWorkspace

/-- Does an operation on the files of a machine, which stay as they are if it is refused. -/
def attempt (f : Workspace → Except FileFault Workspace) :
    StateM Machine (Except FileFault Unit) := do
  let machine ← get
  match f machine.toWorkspace with
  | .error fault => return .error fault
  | .ok w =>
      set { machine with toWorkspace := w }
      return .ok ()

/-- Prints a text on a machine, unless its stream refuses it. -/
def print (text : String) : StateM Machine (Except PrintFault Unit) := do
  let machine ← get
  match machine.refuses machine.printed text with
  | some fault => return .error fault
  | none =>
      set { machine with printed := machine.printed ++ text }
      return .ok ()

instance : Host (StateM Machine) where
  workingDirectory := do return ⟨.root, (← get).directory⟩
  environment := do return (← get).environment
  timestamp := do return (← get).timestamp
  newRunId := do return (← get).runId
  spareName := do return (← get).spareName
  read p := look (·.read p)
  isDirectory p := look (·.isDirectory p)
  check p := look (·.check p)
  fileNames p := look (·.fileNames p)
  makeDirectory p := attempt (·.makeDirectory p)
  create p := attempt (·.create p)
  write p contents := attempt (·.write p contents)
  append p more := attempt (·.append p more)
  rename source target := attempt (·.rename source target)
  remove p := attempt (·.remove p)
  print text := print text
  printError text :=
    modify fun machine => { machine with printedErrors := machine.printedErrors ++ text }
  errorsAtTerminal := do return (← get).errorsAtTerminal
  terminalColumns := do return (← get).terminalColumns

end Machine

end RuleCatalogue
