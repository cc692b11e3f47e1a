import RuleCatalogue.CommandLine.Request
import RuleCatalogue.Decimal
import RuleCatalogue.Environment

/-!
# Usage and help

How the commands are used is told in short where a command line is no request, and at length where
help is asked for.  Both are laid out for a number of columns: the parts of the usage stand in as
many lines as they need, and the help on an option stands behind it or below it.

## Main definitions

* `Manual` is what there is to tell about a command, or about all commands.
* `Manual.usage` and `Manual.help` are the texts.
* `columns` is the number of columns that counts.
-/

namespace RuleCatalogue.CommandLine

/-! ## Texts in columns -/

/-- Blanks, none where their number is negative. -/
def blanks (n : Int) : String :=
  String.ofList (List.replicate n.toNat ' ')

/-- A text filled up with blanks to a width. -/
def filledUp (width : Int) (s : String) : String :=
  s ++ blanks (width - s.length)

/-- Whether a word may be broken here: behind a hyphen between two letters and two letters. -/
def breaksAt (before : List Char) (behind : List Char) : Bool :=
  match before, behind with
  | '-' :: a :: b :: _, c :: d :: _ => a.isAlpha && b.isAlpha && c.isAlpha && d.isAlpha
  | _, _ => false

/-- The pieces of a word between the places where it may be broken; `piece` is the beginning of the
first one, its last character first. -/
def piecesOf (piece : List Char) : List Char → List (List Char)
  | [] => [piece.reverse]
  | c :: rest =>
      if breaksAt (c :: piece) rest then (c :: piece).reverse :: piecesOf [] rest
      else piecesOf (c :: piece) rest

/-- The pieces of a text of words; a blank stands between words. -/
def pieces (s : String) : List (List Char) :=
  ((((Text.splitWhere (· == ' ') s.toList).map (piecesOf [])).intersperse [[' ']])).flatten

/-- The part of a piece that is put into a line in which so many characters have room: up to its
last hyphen there, or as it comes. -/
def cutPiece (room : Nat) (piece : List Char) : List Char × List Char :=
  let head := piece.take room
  let tail := head.reverse.takeWhile (· != '-')
  let kept := head.take (head.length - tail.length)
  if kept.any (· != '-') && kept.length > 1 then (kept, piece.drop kept.length)
  else piece.splitAt room

/-- The line without its last piece, if that is a blank or empty. -/
def closedLine (line : List (List Char)) : List String :=
  let parts := if (line.headD []).all (· == ' ') then line.drop 1 else line
  if parts.isEmpty then [] else [String.ofList parts.reverse.flatten]

/-- Lays pieces out in lines of a width, which is not zero.  `line` holds the pieces of the present
line, the last one first.  The number bounds the steps. -/
def layOut (width : Nat) : Nat → List (List Char) → List (List Char) → List String
  | 0, line, _ => closedLine line
  | _ + 1, line, [] => closedLine line
  | steps + 1, line, piece :: rest =>
      let used := line.flatten.length
      if line.isEmpty && piece == [' '] then layOut width steps [] rest
      else if used + piece.length ≤ width then layOut width steps (piece :: line) rest
      else if width < piece.length then
        let (kept, other) := cutPiece (width - used) piece
        closedLine (kept :: line) ++ layOut width steps [] (other :: rest)
      else closedLine line ++ layOut width steps [] (piece :: rest)

/-- **A text in lines of a width.** -/
def wrapped (width : Nat) (s : String) : List String :=
  layOut width (3 * s.length + 3) [] (pieces s)

/-! ## Options and their places -/

/-- What stands for the value of an option. -/
def OptionRule.valueText (o : OptionRule) : String :=
  if o.choices.isEmpty then o.valueName else "\x7b" ++ Text.join "," o.choices ++ "\x7d"

/-- A name of an option with its value. -/
def OptionRule.named (o : OptionRule) (name : String) : String :=
  if o.takesValue then name ++ " " ++ o.valueText else name

/-- An option in the usage. -/
def OptionRule.usage (o : OptionRule) : String :=
  o.named (o.names.headD "")

/-- An option in the help. -/
def OptionRule.heading (o : OptionRule) : String :=
  Text.join ", " (o.names.map o.named)

/-- **What there is to tell** about a command, or about all commands. -/
structure Manual where
  program : String
  description : String
  grammar : Grammar
  /-- The commands, where none is chosen, with what they do. -/
  commands : List (String × String) := []

namespace Manual

variable (manual : Manual)

/-- The options as they stand in the usage, those that exclude each other together. -/
def optionParts : List String :=
  let exclusive := manual.grammar.exclusive
  manual.grammar.options.flatMap fun o =>
    if exclusive.head? = some o then
      ["[" ++ Text.join " | " (exclusive.map OptionRule.usage) ++ "]"]
    else if exclusive.contains o then [] else ["[" ++ o.usage ++ "]"]

/-- The names of the commands as they stand in texts. -/
def commandsText : String :=
  "\x7b" ++ Text.join "," (manual.commands.map Prod.fst) ++ "\x7d"

/-- What follows the options in the usage. -/
def placeParts : List String :=
  (if manual.grammar.takesFiles then ["[files ...]"] else [])
    ++ (if manual.commands.isEmpty then [] else [manual.commandsText, "..."])

/-- Parts in lines, of which the first has so many characters before it and the others begin with
blanks. -/
def partLines (width indent : Int) (start : Int) (parts : List String) : List String :=
  let (lines, line, _) := parts.foldl
    (fun (lines, line, used) part =>
      let length : Int := part.length
      if width < used + 1 + length && !line.isEmpty then
        (lines ++ [line], [part], indent + length)
      else (lines, line ++ [part], used + 1 + length))
    (([] : List (List String)), ([] : List String), start - 1)
  (lines ++ (if line.isEmpty then [] else [line])).map (Text.join " ")

/-- What the usage begins with. -/
def usageStart : String := "usage: "

/-- **The usage** in lines of a width. -/
def usage (width : Int) : String :=
  let start : Int := usageStart.length
  let parts := manual.optionParts ++ manual.placeParts
  let whole := Text.join " " (manual.program :: parts)
  let lines (indent : Int) (begun : Int) (parts : List String) : List String :=
    partLines width indent begun parts
  let text :=
    if start + whole.length ≤ width then whole
    else
      let length : Int := manual.program.length
      if 4 * (start + length) ≤ 3 * width then
        let indent := start + length + 1
        let later (l : List String) : List String := l.map (blanks indent ++ ·)
        match lines indent start (manual.program :: manual.optionParts) with
        | [] => ""
        | first :: others =>
            Text.join "\n" (first :: later others ++ later (lines indent indent manual.placeParts))
      else
        let later (l : List String) : List String := l.map (blanks start ++ ·)
        let together := lines start start parts
        Text.join "\n" (manual.program ::
          (if together.length ≤ 1 then later together
          else
            later (lines start start manual.optionParts)
              ++ later (lines start start manual.placeParts)))
  usageStart ++ text ++ "\n"

/-- Something in the help: how far it is indented, its heading, and what it does. -/
structure Item where
  indent : Nat
  heading : String
  help : String

/-- The items about files and commands. -/
def placeItems : List Item :=
  (if manual.grammar.takesFiles then
    [⟨2, "files", "APT files to parse in order (default: discover them in the APT directory)."⟩]
  else [])
    ++ (if manual.commands.isEmpty then []
      else ⟨2, manual.commandsText, ""⟩ :: manual.commands.map fun (name, help) => ⟨4, name, help⟩)

/-- The items about options. -/
def optionItems : List Item :=
  manual.grammar.options.map fun o => ⟨2, o.heading, o.help⟩

/-- The greatest column in which the help on an item begins. -/
def helpColumn (width : Int) (items : List Item) : Int :=
  let longest := (items.map fun item => item.heading.length).foldl max 0
  min (longest + 4 : Int) (min 24 (max (width - 20) 4))

/-- **An item in the help**: what it does stands behind its heading, if there is room. -/
def itemText (width column : Int) (item : Item) : String :=
  let head := blanks item.indent ++ item.heading
  if item.help.isEmpty then head ++ "\n"
  else
    let room := column - item.indent - 2
    let lines := wrapped (max (width - column) 11).toNat item.help
    let below (l : List String) : String := String.join (l.map fun s => blanks column ++ s ++ "\n")
    if (item.heading.length : Int) ≤ room then
      match lines with
      | [] => head ++ "\n"
      | first :: others =>
          blanks item.indent ++ filledUp room item.heading ++ "  " ++ first ++ "\n" ++ below others
    else head ++ "\n" ++ below lines

/-- A group of items with a title; nothing without items. -/
def groupText (width column : Int) (title : String) (items : List Item) : String :=
  if items.isEmpty then ""
  else "\n" ++ title ++ ":\n" ++ String.join (items.map (itemText width column))

/-- **The help** in lines of a width. -/
def help (width : Int) : String :=
  let column := helpColumn width (manual.placeItems ++ manual.optionItems)
  manual.usage width ++ "\n" ++ manual.description ++ "\n"
    ++ groupText width column "positional arguments" manual.placeItems
    ++ groupText width column "options" manual.optionItems

end Manual

/-! ## The commands -/

/-- The commands with what they do. -/
def commandHelp : List (String × String) :=
  [("parse", "Parse APT sources and write the merged rule documentation"),
   ("show", "Display parsed rules in human-readable form"),
   ("config", "Show effective configuration")]

/-- What is told about a command. -/
def commandDescription (command : String) : String :=
  match command with
  | "parse" =>
      "Parse rule catalogue files, merge them in order, and serialize the result.\n\n"
        ++ "Examples:\n"
        ++ "  codenarc-converter parse\n"
        ++ "  codenarc-converter parse --format yaml --output rules.yaml\n"
        ++ "  codenarc-converter parse --stdout docs/codenarc-rules-basic.apt"
  | "show" =>
      "Parse rule catalogue files and print each rule's description and parameters.\n\n"
        ++ "Examples:\n"
        ++ "  codenarc-converter show\n"
        ++ "  codenarc-converter show --rule EmptyCatchBlock"
  | _ =>
      "Display the effective config after merging defaults, file, and env.\n\n"
        ++ "Examples:\n"
        ++ "  codenarc-converter config\n"
        ++ "  CODENARC_OUTPUT_FORMAT=toml codenarc-converter config"

/-- What is told about all commands. -/
def programDescription : String :=
  "codenarc-converter — extract CodeNarc rule documentation from APT sources.\n\n"
    ++ "Common workflows:\n"
    ++ "  codenarc-converter parse                 Parse the configured APT directory\n"
    ++ "  codenarc-converter parse --stdout a.apt  Print the merged rules of one file\n"
    ++ "  codenarc-converter show --rule Foo       Display one rule in human form\n"
    ++ "  codenarc-converter config                Show the effective config"

/-- **The manual of a command**, or of all commands where none is known. -/
def Manual.of (command : Option String) : Manual :=
  match command.bind fun name => (grammar? name).map (name, ·) with
  | some (name, g) =>
      { program := programName ++ " " ++ name, description := commandDescription name
        grammar := g }
  | none =>
      { program := programName, description := programDescription, grammar := outerGrammar
        commands := commandHelp }

/-- **The columns that texts are laid out for**: those of a variable, if it is a number above zero,
or those of the terminal; two are left free. -/
def columns (environment : Environment) (terminal : Nat) : Int :=
  let stated := (environment.bindings.get? "COLUMNS").bind fun s =>
    (Decimal.parseInteger 10 s).toOption.filter fun n => decide (0 < n)
  stated.getD terminal - 2

end RuleCatalogue.CommandLine
