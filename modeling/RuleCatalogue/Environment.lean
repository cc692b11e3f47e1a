import RuleCatalogue.Path
import RuleCatalogue.Table
import RuleCatalogue.Text.Character

/-!
# The environment of a run

Variables and home directories, and the two ways in which a path may refer to them: `$NAME` and
`$\x7bNAME\x7d` stand for variables, and a tilde in front for a home directory.
-/

namespace RuleCatalogue

/-- **The environment**: variables by name, and the home directories of users. -/
structure Environment where
  bindings : Fields String := []
  homes : Fields String := []
deriving Inhabited

/-- **Why a path has no home directory to start from.** -/
inductive HomeError
  /-- The user is not known. -/
  | unknown
  /-- The name of the user has a NUL in it. -/
  | nullInName
deriving DecidableEq, Repr

/-- The wording of an error. -/
def HomeError.message : HomeError → String
  | unknown => "Could not determine home directory."
  | nullInName => "embedded null byte"

namespace Environment

/-- The value of a variable. -/
def get? (environment : Environment) (name : String) : Option String :=
  environment.bindings.get? name

/-- A character of a name that stands without braces. -/
def isNameChar (c : Char) : Bool :=
  c.isAlphanum || c == '_'

/-- Behind a dollar sign: the name of a variable, and how many characters the reference to it takes.
A name in braces may hold everything but the brace that ends it. -/
def reference? (s : List Char) : Option (String × Nat) :=
  match s with
  | '{' :: rest =>
      let name := rest.takeWhile (· != '}')
      if name.length < rest.length then some (String.ofList name, name.length + 2) else none
  | _ =>
      let name := s.takeWhile isNameChar
      if name.isEmpty then none else some (String.ofList name, name.length)

/-- Replaces references to variables by their values.  A reference to a variable that is not set
stays as it is, and values are not looked at again. -/
def expandChars (environment : Environment) : List Char → List Char
  | [] => []
  | '$' :: rest =>
      match reference? rest with
      | some (name, length) =>
          let value :=
            match environment.get? name with
            | some value => value.toList
            | none => '$' :: rest.take length
          value ++ expandChars environment (rest.drop length)
      | none => '$' :: expandChars environment rest
  | c :: rest => c :: expandChars environment rest
termination_by s => s.length
decreasing_by
  all_goals simp only [List.length_drop, List.length_cons]; omega

/-- **Replaces references to variables in a text.** -/
def expand (environment : Environment) (s : String) : String :=
  String.ofList (environment.expandChars s.toList)

/-- The home directory of the user whose name follows a tilde; without a name, that of the
environment. -/
def home? (environment : Environment) (user : String) : Option String :=
  if user.isEmpty then (environment.get? "HOME").or (environment.homes.get? "")
  else environment.homes.get? user

/-- **Replaces a tilde in front of a path by a home directory.** -/
def expandHome (environment : Environment) (p : Path) : Except HomeError Path :=
  match p.anchor, p.segments with
  | .here, first :: rest =>
      match first.toList with
      | '~' :: user =>
          if user.contains '\x00' then .error .nullInName
          else
            match environment.home? (String.ofList user) with
            | none => .error .unknown
            | some home =>
                let place := Text.dropEndWhile (· == '/') home.toList
                if place.head? == some '~' then .error .unknown
                else
                  let base :=
                    if place.isEmpty then ⟨.root, []⟩ else Path.ofText (String.ofList place)
                  .ok { base with segments := base.segments ++ rest }
      | _ => .ok p
  | _, _ => .ok p

end Environment

end RuleCatalogue
