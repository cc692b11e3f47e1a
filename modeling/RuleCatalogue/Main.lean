import Std.Time.DateTime.Timestamp
import RuleCatalogue.Calendar
import RuleCatalogue.CommandLine.Run

/-!
# The program

A run on the files, the environment and the streams of the system.
-/

namespace RuleCatalogue

/-- The fault with a number, which some operations give as a negative one. -/
def FileFault.ofNumber (number : UInt32) (wording : String) : FileFault :=
  match (if number < 2147483648 then number else -number).toNat with
  | 2 => .noSuchFile
  | 16 => .busy
  | 17 => .alreadyExists
  | 20 => .notDirectory
  | 21 => .isDirectory
  | n => .other n wording

/-- The fault that an error of the system stands for. -/
def FileFault.ofError (e : IO.Error) : FileFault :=
  match e with
  | .noFileOrDirectory _ n s => ofNumber n s
  | .alreadyExists _ n s => ofNumber n s
  | .inappropriateType _ n s => ofNumber n s
  | .permissionDenied _ n s => ofNumber n s
  | .invalidArgument _ n s => ofNumber n s
  | .resourceExhausted _ n s => ofNumber n s
  | .noSuchThing _ n s => ofNumber n s
  | .resourceBusy n s => ofNumber n s
  | .unsatisfiedConstraints n s => ofNumber n s
  | .otherError n s => ofNumber n s
  | e => .other 5 (toString e)

namespace LocalHost

/-- Does an operation, and answers with the fault that kept it from being done. -/
def attempt {α : Type} (action : IO α) : IO (Except FileFault α) := do
  match ← action.toBaseIO with
  | .ok a => return .ok a
  | .error e => return .error (.ofError e)

/-- The octets of a file of the system, none if it cannot be read. -/
def octetsOf (path : String) : IO ByteArray := do
  match ← (IO.FS.readBinFile path).toBaseIO with
  | .ok octets => return octets
  | .error _ => return .empty

/-- The text of a file of the system, empty if it cannot be read. -/
def textOf (path : String) : IO String := do
  return (String.fromUTF8? (← octetsOf path)).getD ""

/-- The parts of a text between occurrences of a character. -/
def parts (mark : Char) (s : String) : List String :=
  (Text.splitWhere (· == mark) s.toList).map String.ofList

/-- The variables of the environment. -/
def bindings : IO (Fields String) := do
  return (parts '\x00' (← textOf "/proc/self/environ")).filterMap fun entry =>
    (Text.splitAtFirst? ['='] entry.toList).map fun (name, value) =>
      (String.ofList name, String.ofList value)

/-- The number of the user, as a text. -/
def userNumber : IO String := do
  let lines := parts '\n' (← textOf "/proc/self/status")
  return (lines.findSome? fun line =>
    match parts '\t' line with
    | "Uid:" :: number :: _ => some number
    | _ => none).getD ""

/-- The home directories of users; that of the present user stands under the empty name as well. -/
def homes : IO (Fields String) := do
  let present ← userNumber
  return (parts '\n' (← textOf "/etc/passwd")).flatMap fun line =>
    match parts ':' line with
    | [user, _, number, _, _, home, _] =>
        (if number = present then [("", home)] else []) ++ [(user, home)]
    | _ => []

/-- The present point in time. -/
def now : IO Moment := do
  let nanoseconds := (← Std.Time.Timestamp.now).toNanosecondsSinceUnixEpoch.toInt
  return ⟨nanoseconds.toNat / 1000000⟩

/-- Eight digits in base sixteen, taken at random. -/
def randomName : IO String := do
  let octets ← IO.getRandomBytes 4
  return String.ofList (octets.toList.flatMap fun b => Text.hexDigits 2 b.toNat)

/-- Whether a regular file is at a path. -/
def isRegular (path : String) : IO Bool := do
  match ← (do return (← (← IO.FS.realPath path).metadata).type : IO IO.FS.FileType).toBaseIO with
  | .ok .file => return true
  | _ => return false

/-- Whether a directory is at a path. -/
def isDirectory (path : String) : IO Bool := do
  match ← (IO.FS.realPath path).toBaseIO with
  | .ok place => place.isDir
  | .error _ => return false

/-- The names of the regular files in a directory. -/
def fileNames (path : String) : IO (List String) := do
  match ← (do (← IO.FS.realPath path).readDir : IO (Array IO.FS.DirEntry)).toBaseIO with
  | .ok entries =>
      let names := entries.toList.map IO.FS.DirEntry.fileName
      names.filterM fun name => isRegular (path ++ "/" ++ name)
  | .error _ => return []

instance : Host IO where
  workingDirectory := do return Path.ofText (← IO.currentDir).toString
  environment := do return { bindings := ← bindings, homes := ← homes }
  timestamp := do return (← now).text
  newRunId := do return (← now).stamp ++ "-" ++ (← randomName)
  spareName := randomName
  read p := attempt (do return (← IO.FS.readBinFile p.text).toList)
  isDirectory p := isDirectory p.text
  check p := attempt (do let _ ← IO.FS.realPath p.text)
  fileNames p := fileNames p.text
  makeDirectory p := attempt (IO.FS.createDir p.text)
  create p := attempt (do let _ ← IO.FS.Handle.mk p.text .writeNew)
  write p contents := attempt (IO.FS.writeBinFile p.text ⟨contents.toArray⟩)
  append p more := attempt (do
    let file ← IO.FS.Handle.mk p.text .append
    file.write ⟨more.toArray⟩)
  rename source target := attempt (IO.FS.rename source.text target.text)
  remove p := attempt (IO.FS.removeFile p.text)
  print text := do
    match ← attempt (IO.print text) with
    | .ok () => return .ok ()
    | .error fault => return .error (.refused fault)
  printError text := IO.eprint text
  errorsAtTerminal := do (← IO.getStderr).isTty
  terminalColumns := return 80

/-- The program brings no further codecs: they read nothing and write nothing. -/
instance : Codecs where
  codec name :=
    { decode _ := .error (.unplaced ("no codec for " ++ name))
      encode _ := .error (.unplaced ("no codec for " ++ name)) }
  hostLabel label := .error (.unplaced ("no codec for the label " ++ String.ofList label))

end LocalHost

end RuleCatalogue

/-- Does what the command line asks for. -/
def main (arguments : List String) : IO UInt32 := do
  let ending ← RuleCatalogue.CommandLine.run arguments
  IO.eprint ending.errorText
  return UInt32.ofNat ending.exitCode.number
