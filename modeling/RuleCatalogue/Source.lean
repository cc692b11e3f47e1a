import RuleCatalogue.Encoding.Codec
import RuleCatalogue.FileTree
import RuleCatalogue.Session

/-!
# Source files

A source file is decoded, split into lines and read.  Lines end at a line feed, at a carriage
return, or at both together, and nowhere else.

## Design notes

Two kinds of failure are kept apart.  A file that cannot be opened, or in which some octets are no
text, is unreadable, and the others go on without it.  An encoding that cannot be used for any file,
a file with which its codec finds another fault, such as a byte order mark that is missing, and a
path with a NUL in it break off the whole reading.
-/

namespace RuleCatalogue

/-- **Why one file is left out.** -/
inductive ReadFailure
  | unopenable (e : FileError)
  | undecodable (e : DecodeError)
deriving DecidableEq, Repr

/-- The wording of a failure. -/
def ReadFailure.message : ReadFailure → String
  | unopenable e => e.message
  | undecodable e => e.message

/-- The report on a file that is left out. -/
def ReadFailure.report (failure : ReadFailure) (path : Path) : String :=
  path.text ++ ": failed to read documentation source (" ++ failure.message ++ ")"

/-- **Why the whole reading breaks off.** -/
inductive Breakdown
  | encodingName (e : EncodingNameError)
  /-- The codec finds a fault that is not one of some octets. -/
  | unplaced (reason : String)
  | path (e : FileError)
deriving DecidableEq, Repr

/-- The wording of a breakdown. -/
def Breakdown.message : Breakdown → String
  | encodingName e => e.message
  | unplaced reason => reason
  | path e => e.message

namespace Source

/-- The text up to the first line end, and what follows that line end, if there is one. -/
def takeLine : List Char → List Char × Option (List Char)
  | [] => ([], none)
  | '\n' :: rest => ([], some rest)
  | '\r' :: '\n' :: rest => ([], some rest)
  | '\r' :: rest => ([], some rest)
  | c :: rest =>
      let (line, more) := takeLine rest
      (c :: line, more)

theorem length_takeLine : {s rest : List Char} → (takeLine s).2 = some rest →
    rest.length < s.length
  | [], _, h => by simp [takeLine] at h
  | c :: s, rest, h => by
      unfold takeLine at h
      split at h
      · simp at h
      · rename_i heq; cases heq; simp at h; subst h; simp
      · rename_i heq; cases heq; simp at h; subst h; simp only [List.length_cons]; omega
      · rename_i heq; cases heq; simp at h; subst h; simp
      · rename_i heq; cases heq
        have shorter : rest.length < s.length := length_takeLine h
        simp; omega

/-- **The lines of a text**, without their line ends.  Behind the last line end no line begins. -/
def lines (s : List Char) : List String :=
  match _h : takeLine s with
  | (line, none) => if line.isEmpty then [] else [String.ofList line]
  | (line, some rest) => String.ofList line :: lines rest
termination_by s.length
decreasing_by exact length_takeLine (by rw [_h])

/-- **The lines of a file**, from what opening it gave. -/
def decodeLines [Codecs] (encoding : String) (contents : Except FileError Octets) :
    Except Breakdown (Except ReadFailure (List String)) :=
  if hasNull encoding then .error (.encodingName .nullInName)
  else
    match contents with
    | .error (.nullInPath operation) => .error (.path (.nullInPath operation))
    | .error e => .ok (.error (.unopenable e))
    | .ok octets =>
        match TextCodec.ofName encoding with
        | .error e => .error (.encodingName e)
        | .ok codec =>
            match codec.decode octets with
            | .ok text => .ok (.ok (lines text))
            | .error (.undecodable e) => .ok (.error (.undecodable e))
            | .error (.unplaced reason) => .error (.unplaced reason)

end Source

end RuleCatalogue
