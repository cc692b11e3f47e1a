import RuleCatalogue.ReadError
import RuleCatalogue.Text.Character
import RuleCatalogue.Text.Substring

/-!
# Command lines and requests

A command line is made of words.  Options begin with a hyphen; what follows two hyphens alone is no
option.  The name of an option may be cut short as long as it is clear which one is meant, and an
option of a single letter may have its value, or further such options, attached to it.

The words of a command line are taken one after another.  The first values that stand together and
belong to no option are the files; values behind them are not understood.

A request is what the user asks for: to parse source files and serialize their rules, to show rules
for readers, or to show the settings in effect.

## Main definitions

* `Grammar` lists the options of a command.
* `Grammar.words` says what each word of a command line is.
* `Arguments.take` takes the next word.
* `Arguments.ofWords` takes all words.
* `Request.ofArguments` reads a command line.
* `UsageError.message` says what is wrong with one.
-/

/-! ## The grammar of a command line -/

namespace RuleCatalogue.CommandLine

/-- **An option.** -/
structure OptionRule where
  names : List String
  takesValue : Bool
  /-- The values that it may have; any value if there are none. -/
  choices : List String := []
  /-- What stands for its value where no choices do. -/
  valueName : String := ""
  /-- What it does. -/
  help : String
deriving DecidableEq, Repr

/-- An option in messages. -/
def OptionRule.shown (o : OptionRule) : String :=
  Text.join "/" o.names

/-- The option that asks for help. -/
def helpOption : OptionRule :=
  { names := ["-h", "--help"], takesValue := false, help := "show this help message and exit" }

/-- **The options of a command**, and whether files may be named. -/
structure Grammar where
  options : List OptionRule
  takesFiles : Bool
  /-- Options of which only one may be given. -/
  exclusive : List OptionRule := []
deriving DecidableEq, Repr

/-- **What is wrong with a command line.** -/
inductive UsageFault
  | commandMissing
  | unknownCommand (given : String)
  /-- A name is cut so short that it may stand for each of these. -/
  | ambiguous (given : String) (names : List String)
  | valueMissing (o : OptionRule)
  | valueUnwanted (o : OptionRule) (given : String)
  | unknownChoice (o : OptionRule) (given : String)
  | excluded (o other : OptionRule)
  | unrecognized (given : List String)
deriving DecidableEq, Repr

/-- A value is attached to the word of an option, with or without an equals sign between. -/
structure Attached where
  afterEquals : Bool
  text : List Char
deriving DecidableEq, Repr

/-- **What a word is.** -/
inductive Word
  | value (s : String)
  /-- Two hyphens alone. -/
  | separator
  /-- An option by one of its names. -/
  | option (o : OptionRule) (name : String) (attached : Option Attached)
  /-- It looks like an option. -/
  | unknown (s : String)
deriving DecidableEq, Repr

namespace Grammar

/-- The options by their names. -/
def named (g : Grammar) : List (String × OptionRule) :=
  g.options.flatMap fun o => o.names.map fun name => (name, o)

/-- The option with a name. -/
def find? (g : Grammar) (name : String) : Option OptionRule :=
  g.named.lookup name

/-- What stands before the first equals sign, and what is attached behind it. -/
def splitEquals (s : List Char) : String × Option Attached :=
  match Text.splitAtFirst? ['='] s with
  | some (name, text) => (String.ofList name, some ⟨true, text⟩)
  | none => (String.ofList s, none)

/-- **The options that a word may mean** which is not the whole name of one. -/
def candidates (g : Grammar) (s : List Char) : List Word :=
  if s[1]? == some '-' then
    let (start, attached) := splitEquals s
    (g.named.filter fun (name, _) => Text.startsWith start name).map fun (name, o) =>
      .option o name attached
  else
    g.named.filterMap fun (name, o) =>
      if name = String.ofList (s.take 2) then some (.option o name (some ⟨false, s.drop 2⟩))
      else if Text.startsWith (String.ofList s) name then some (.option o name none)
      else none

/-- Whether digits of any script stand here, at least one. -/
def areDigits (s : List Char) : Bool :=
  !s.isEmpty && s.all fun c => (Text.decimalDigit? c).isSome

/-- **Whether a word is a negative number**, which is no option; a line feed at its end does not
count. -/
def isNegativeNumber (s : List Char) : Bool :=
  match s with
  | '-' :: number =>
      let number := if number.getLast? == some '\n' then number.dropLast else number
      areDigits number ||
        match Text.splitAtFirst? ['.'] number with
        | some (whole, fraction) => (whole.isEmpty || areDigits whole) && areDigits fraction
        | none => false
  | _ => false

/-- The name that a word means. -/
def nameOf : Word → List String
  | .option _ name _ => [name]
  | _ => []

/-- **What a word is**, where it may be an option. -/
def word (g : Grammar) (s : String) : Except UsageFault Word :=
  match s.toList with
  | '-' :: c :: rest =>
      let chars := '-' :: c :: rest
      let (name, attached) := splitEquals chars
      match g.find? s, if attached.isSome then g.find? name else none with
      | some o, _ => .ok (.option o s none)
      | none, some o => .ok (.option o name attached)
      | none, none =>
          match g.candidates chars with
          | [] =>
              if isNegativeNumber chars || chars.contains ' ' then .ok (.value s)
              else .ok (.unknown s)
          | [w] => .ok w
          | several => .error (.ambiguous s (several.flatMap nameOf))
  | _ => .ok (.value s)

/-- **What the words of a command line are.** -/
def words (g : Grammar) : List String → Except UsageFault (List Word)
  | [] => .ok []
  | s :: rest =>
      if s = "--" then .ok (.separator :: rest.map .value)
      else
        match g.word s with
        | .error e => .error e
        | .ok w => (g.words rest).map (w :: ·)

end Grammar

end RuleCatalogue.CommandLine

/-! ## The arguments of a command -/

namespace RuleCatalogue.CommandLine

/-- **Why a command is not carried out**: it is written wrongly, or help is asked for. -/
inductive Stop
  | fault (f : UsageFault)
  | help
deriving DecidableEq, Repr

/-- Where the files of a command line are. -/
inductive FilePlace
  | ahead
  | here
  | behind
deriving DecidableEq, Repr

/-- **The arguments that have been taken.** -/
structure Arguments where
  /-- The options in the order in which they were given, with their values. -/
  options : List (OptionRule × Option String) := []
  files : List String := []
  place : FilePlace := .behind
  /-- The option that waits for its value. -/
  waiting : Option OptionRule := none
  unrecognized : List String := []
deriving DecidableEq, Repr

namespace Arguments

/-- Whether an option was given. -/
def has (a : Arguments) (o : OptionRule) : Bool :=
  a.options.any fun (given, _) => given = o

/-- **The value of an option**; the last one counts. -/
def value? (a : Arguments) (o : OptionRule) : Option String :=
  ((a.options.filter fun (given, _) => given = o).getLast?).bind Prod.snd

/-- **Takes an option** with its value, if it may have this value beside the others. -/
def takeOption (g : Grammar) (a : Arguments) (o : OptionRule) (value : Option String) :
    Except Stop Arguments :=
  if o = helpOption then .error .help
  else
    match value.filter fun s => !o.choices.isEmpty && !o.choices.contains s with
    | some s => .error (.fault (.unknownChoice o s))
    | none =>
        let others := if g.exclusive.contains o then g.exclusive.filter (· ≠ o) else []
        match others.find? a.has with
        | some other => .error (.fault (.excluded o other))
        | none => .ok { a with options := a.options ++ [(o, value)] }

/-- What the word of an option holds: options with their values, an option that waits for its
value, and what is not understood. -/
structure Bundle where
  options : List (OptionRule × Option String) := []
  waiting : Option OptionRule := none
  unrecognized : List String := []
deriving DecidableEq, Repr

/-- A bundle with one more option in front, which has no value. -/
def Bundle.cons (o : OptionRule) (b : Bundle) : Bundle :=
  { b with options := (o, none) :: b.options }

/-- **What is attached to an option**: its value, or, behind an option of a single letter, the
letters of more options. -/
def unbundle (g : Grammar) (o : OptionRule) (isLetter : Bool) (afterEquals : Bool)
    (text : List Char) : Except UsageFault Bundle :=
  if o.takesValue then .ok { options := [(o, some (String.ofList text))] }
  else
    match text with
    | [] => .error (.valueUnwanted o "")
    | c :: rest =>
        if !isLetter || afterEquals || c = '-' then
          .error (.valueUnwanted o (String.ofList (c :: rest)))
        else
          match g.find? (String.ofList ['-', c]) with
          | none =>
              .ok { options := [(o, none)], unrecognized := [String.ofList ('-' :: c :: rest)] }
          | some next =>
              match rest with
              | [] =>
                  .ok (Bundle.cons o (if next.takesValue then { waiting := some next }
                    else { options := [(next, none)] }))
              | d :: more =>
                  if d = '=' then (unbundle g next true true more).map (Bundle.cons o)
                  else (unbundle g next true false (d :: more)).map (Bundle.cons o)
termination_by text.length

/-- Takes the word of an option. -/
def takeBundle (g : Grammar) (a : Arguments) (b : Bundle) : Except Stop Arguments :=
  match b.options.foldlM (fun a (o, value) => takeOption g a o value) a with
  | .error stop => .error stop
  | .ok a => .ok { a with waiting := b.waiting, unrecognized := a.unrecognized ++ b.unrecognized }

/-- Notes that no file may follow directly. -/
def endFiles (a : Arguments) : Arguments :=
  { a with place := if a.place = .ahead then .ahead else .behind }

/-- **Takes the next word.** -/
def take (g : Grammar) (a : Arguments) (w : Word) : Except Stop Arguments :=
  match a.waiting, w with
  | some o, .value s => takeOption g { a with waiting := none } o (some s)
  | some o, _ => .error (.fault (.valueMissing o))
  | none, .value s =>
      if a.place = .behind then .ok { a with unrecognized := a.unrecognized ++ [s] }
      else .ok { a with files := a.files ++ [s], place := .here }
  | none, .separator =>
      if a.place = .behind then .ok { a with unrecognized := a.unrecognized ++ ["--"] }
      else .ok { a with place := .here }
  | none, .unknown s => .ok { a.endFiles with unrecognized := a.unrecognized ++ [s] }
  | none, .option o _ none =>
      if o.takesValue then .ok { a.endFiles with waiting := some o }
      else takeOption g a.endFiles o none
  | none, .option o name (some attached) =>
      match unbundle g o (name.length == 2) attached.afterEquals attached.text with
      | .error f => .error (.fault f)
      | .ok b => takeBundle g a.endFiles b

/-- **The arguments of a command.** -/
def ofWords (g : Grammar) (words : List Word) : Except Stop Arguments :=
  let start : Arguments := { place := if g.takesFiles then .ahead else .behind }
  match words.foldlM (take g) start with
  | .error stop => .error stop
  | .ok a =>
      match a.waiting with
      | some o => .error (.fault (.valueMissing o))
      | none => .ok a

end Arguments

end RuleCatalogue.CommandLine

/-! ## Requests -/

namespace RuleCatalogue.CommandLine

/-- **Options of every command.** -/
structure CommonOptions where
  settingsFile : Option String
  verbose : Bool
  noColours : Bool
deriving DecidableEq, Repr

/-- **Which source files are read**: the named ones, or those of a directory. -/
structure SourceOptions where
  files : List String
  directory : Option String
deriving DecidableEq, Repr

/-- **Where serialized rules go.** -/
inductive Destination
  /-- To the file of the settings. -/
  | configured
  | file (path : String)
  | printed
deriving DecidableEq, Repr

/-- **A request.** -/
inductive Request
  | parse (common : CommonOptions) (sources : SourceOptions) (format : Option String)
      (destination : Destination)
  | show (common : CommonOptions) (sources : SourceOptions) (rule : Option String)
  | config (common : CommonOptions)
deriving DecidableEq, Repr

/-- **What a command line asks for.** -/
inductive Order
  /-- Help, about one command or about all. -/
  | help (command : Option String)
  | perform (request : Request)
deriving DecidableEq, Repr

/-- **A command line that is no request**, with the command that it names. -/
structure UsageError where
  command : Option String
  fault : UsageFault
deriving DecidableEq, Repr

/-- The names of the commands. -/
def commandNames : List String :=
  ["parse", "show", "config"]

/-- Quoted texts with commas between. -/
def quotedList (l : List String) : String :=
  Text.join ", " (l.map Text.quoted)

/-- The wording about a choice that there is not. -/
def invalidChoice (subject given : String) (choices : List String) : String :=
  "argument " ++ subject ++ ": invalid choice: " ++ Text.quoted given
    ++ " (choose from " ++ quotedList choices ++ ")"

/-- The wording of a fault. -/
def UsageFault.message : UsageFault → String
  | commandMissing => "the following arguments are required: command"
  | unknownCommand given => invalidChoice "command" given commandNames
  | ambiguous given names =>
      "ambiguous option: " ++ given ++ " could match " ++ Text.join ", " names
  | valueMissing o => "argument " ++ o.shown ++ ": expected one argument"
  | valueUnwanted o given =>
      "argument " ++ o.shown ++ ": ignored explicit argument " ++ Text.quoted given
  | unknownChoice o given => invalidChoice o.shown given o.choices
  | excluded o other => "argument " ++ o.shown ++ ": not allowed with argument " ++ other.shown
  | unrecognized given => "unrecognized arguments: " ++ Text.join " " given

/-- The name of the program. -/
def programName : String := "codenarc-converter"

/-- The wording of an error. -/
def UsageError.message (e : UsageError) : String :=
  programName ++ (e.command.elim "" (" " ++ ·)) ++ ": error: " ++ e.fault.message

/-! ## The options of the commands -/

/-- The option for the path of the settings file. -/
def settingsOption : OptionRule where
  names := ["--config"]
  takesValue := true
  valueName := "CONFIG_PATH"
  help := "Path to TOML config (default: ./codenarc-converter.toml if present)."

/-- The option to tell more. -/
def verboseOption : OptionRule where
  names := ["--verbose", "-v"]
  takesValue := false
  help := "Log debug events."

/-- The option against colours. -/
def noColourOption : OptionRule where
  names := ["--no-color"]
  takesValue := false
  help := "Disable colored output (also respects NO_COLOR env var)."

/-- The option for the directory with the source files. -/
def directoryOption : OptionRule where
  names := ["--apt-dir"]
  takesValue := true
  valueName := "APT_DIR"
  help := "Directory scanned for rule catalogue files (overrides sources.apt_dir)."

/-- The option for the format of serialized rules. -/
def formatOption : OptionRule where
  names := ["--format"]
  takesValue := true
  choices := Format.named.map Prod.fst
  help := "Output format (overrides output.format)."

/-- The option for the file of serialized rules. -/
def outputOption : OptionRule where
  names := ["--output", "-o"]
  takesValue := true
  valueName := "OUTPUT"
  help := "Output file path (overrides output.path)."

/-- The option to print serialized rules. -/
def printOption : OptionRule where
  names := ["--stdout"]
  takesValue := false
  help := "Print the serialized rules instead of writing a file."

/-- The option for the only rule to show. -/
def ruleOption : OptionRule where
  names := ["--rule"]
  takesValue := true
  valueName := "RULE"
  help := "Only display this rule."

/-- The options of every command. -/
def commonRules : List OptionRule :=
  [helpOption, settingsOption, verboseOption, noColourOption]

/-- **The grammar of a command.** -/
def grammar? (command : String) : Option Grammar :=
  match command with
  | "parse" =>
      some
        { options := commonRules ++ [directoryOption, formatOption, outputOption, printOption]
          takesFiles := true
          exclusive := [outputOption, printOption] }
  | "show" => some { options := commonRules ++ [directoryOption, ruleOption], takesFiles := true }
  | "config" => some { options := commonRules, takesFiles := false }
  | _ => none

/-- The grammar of what stands before the command. -/
def outerGrammar : Grammar :=
  { options := [helpOption], takesFiles := false }

/-! ## Reading a command line -/

/-- **The command and its words**, with the arguments that stand before it. -/
def findCommand (before : Arguments) :
    List String → Except Stop (Arguments × Option (String × List String))
  | [] => .ok (before, none)
  | s :: rest =>
      if s = "--" then
        if rest.isEmpty then
          .ok ({ before with unrecognized := before.unrecognized ++ [s] }, none)
        else .ok (before, some (s, rest))
      else
        match outerGrammar.word s with
        | .error f => .error (.fault f)
        | .ok (.value _) => .ok (before, some (s, rest))
        | .ok w =>
            match before.take outerGrammar w with
            | .error stop => .error stop
            | .ok before => findCommand before rest

/-- The arguments among the words of a command. -/
def readWords (g : Grammar) (words : List String) : Except Stop Arguments :=
  match g.words words with
  | .error f => .error (.fault f)
  | .ok words => Arguments.ofWords g words

namespace Request

/-- The options of every command among arguments. -/
def common (a : Arguments) : CommonOptions where
  settingsFile := a.value? settingsOption
  verbose := a.has verboseOption
  noColours := a.has noColourOption

/-- The options for source files among arguments. -/
def sources (a : Arguments) : SourceOptions where
  files := a.files
  directory := a.value? directoryOption

/-- The destination among arguments. -/
def destination (a : Arguments) : Destination :=
  if a.has printOption then .printed
  else
    match a.value? outputOption with
    | some path => .file path
    | none => .configured

/-- **The request of a command** with its arguments. -/
def ofCommand (command : String) (a : Arguments) : Request :=
  if command = "parse" then .parse (common a) (sources a) (a.value? formatOption) (destination a)
  else if command = "show" then .show (common a) (sources a) (a.value? ruleOption)
  else .config (common a)

/-- A stop as an error; help is no error. -/
def stopped (command : Option String) : Stop → Except UsageError Order
  | .fault f => .error ⟨command, f⟩
  | .help => .ok (.help command)

/-- **Reads a command line.** -/
def ofArguments (arguments : List String) : Except UsageError Order :=
  match findCommand {} arguments with
  | .error stop => stopped none stop
  | .ok (_, none) => .error ⟨none, .commandMissing⟩
  | .ok (before, some (command, words)) =>
      match grammar? command with
      | none => .error ⟨none, .unknownCommand command⟩
      | some g =>
          match readWords g words with
          | .error stop => stopped (some command) stop
          | .ok a =>
              let unrecognized := before.unrecognized ++ a.unrecognized
              if unrecognized.isEmpty then .ok (.perform (ofCommand command a))
              else .error ⟨none, .unrecognized unrecognized⟩

end Request

end RuleCatalogue.CommandLine
