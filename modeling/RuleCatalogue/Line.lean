import RuleCatalogue.Text.Character
import RuleCatalogue.Text.Substring

/-!
# Lines and the columns of their tables

The ruler that opens a table fixes where its three columns begin; every later row is cut at these
offsets and never measured again, so that cells may hold bars, dashes and plus signs.

The lines of a rule catalogue are recognised one by one: the rulers that draw parameter tables, the
delimiters of example code, table rows, the lines a description skips, and the titles that name
a rule.  All tests but `ruleName?` see the line trimmed.
-/

/-! ## Columns of a parameter table -/

namespace RuleCatalogue

/-- **Where the columns begin**: behind the star and behind the next two plus signs of the opening
ruler.  Offsets count characters. -/
structure Columns where
  keyStart : Nat
  descriptionStart : Nat
  defaultStart : Nat
deriving DecidableEq, Repr, Inhabited

namespace Columns

/-- The columns of a ruler, or nothing where a star or one of two plus signs behind it is
missing. -/
def ofRuler? (ruler : List Char) : Option Columns := do
  let (lead, cells) ← Text.splitAtFirst? ['*'] ruler
  let (key, afterKey) ← Text.splitAtFirst? ['+'] cells
  let (description, _) ← Text.splitAtFirst? ['+'] afterKey
  let keyStart := lead.length + 1
  let descriptionStart := keyStart + key.length + 1
  return ⟨keyStart, descriptionStart, descriptionStart + description.length + 1⟩

/-- The characters of `row` from offset `start` up to, but without, offset `stop`. -/
def slice (row : List Char) (start stop : Nat) : List Char :=
  (row.take stop).drop start

/-- The key cell: it ends before the bar in front of the description. -/
def keyCell (columns : Columns) (row : List Char) : List Char :=
  slice row columns.keyStart (columns.descriptionStart - 1)

/-- The description cell: it ends before the bar in front of the default value. -/
def descriptionCell (columns : Columns) (row : List Char) : List Char :=
  slice row columns.descriptionStart (columns.defaultStart - 1)

/-- The default-value cell: it reaches to the last character of the row, which closes it. -/
def defaultCell (columns : Columns) (row : List Char) : List Char :=
  slice row columns.defaultStart (row.length - 1)

end Columns

end RuleCatalogue

/-! ## Kinds of lines -/

namespace RuleCatalogue.Line

open Text

/-- Cells of dashes, each closed by a plus sign, up to the end of the line.  `dashed` says whether
the cell at hand has a dash yet. -/
def isDashedCells (dashed : Bool) : List Char → Bool
  | '-' :: rest => isDashedCells true rest
  | '+' :: rest => dashed && (rest.isEmpty || isDashedCells false rest)
  | _ => false

/-- The number of cells in a line of dashed cells. -/
def cellCount (s : List Char) : Nat :=
  s.count '+'

/-- **The ruler that opens a parameter table**: a star and three dashed cells. -/
def isTableStart : List Char → Bool
  | '*' :: cells => isDashedCells false cells && cellCount cells == 3
  | _ => false

/-- **A ruler between rows**: a plus sign and dashed cells, or once more the opening ruler. -/
def isTableRuler : List Char → Bool
  | '+' :: cells => isDashedCells false cells
  | s => isTableStart s

/-- **A table row**: a bar, and no line feed behind it. -/
def isTableRow : List Char → Bool
  | '|' :: rest => !rest.contains '\n'
  | _ => false

/-- One dash or more and nothing else. -/
def isDashes (s : List Char) : Bool :=
  !s.isEmpty && s.all (· == '-')

/-- **The delimiter of example code**: a run of dashes, which a plus sign may lead. -/
def isExampleDelimiter : List Char → Bool
  | '+' :: rest => isDashes rest
  | s => isDashes s

/-- How the lines begin that a description skips: version notes, headings, anchors and tables. -/
def noiseStarts : List String :=
  ["<Since", "~~~", "<New", "** ", "[]", "*----", "+----", "|"]

/-- **A line of prose**: neither noise nor a ruler.  A blank line is prose and ends a paragraph. -/
def isProse (s : List Char) : Bool :=
  !noiseStarts.any (fun start => start.toList.isPrefixOf s) && !isTableRuler s

/-- The caption of the key column. -/
def keyCaption : String := "<<Property>>"

/-- **A caption row**, known by its key cell.  No character outside ASCII folds to a letter of the
caption alone, so folding ASCII letters decides. -/
def isCaption (keyCell : List Char) : Bool :=
  (trim keyCell).map Char.toLower == keyCaption.toList.map Char.toLower

/-- How the line of a title begins. -/
def titleStart : List Char := ['*', ' ']

/-- How a list item begins that is no title, although it looks like one. -/
def listItemStart : List Char := ['*', ' ', '{', '{']

/-- How a title begins whose rule name stands in braces. -/
def bracedTitleStart : List Char := ['*', ' ', '{']

/-- What ends a rule name in braces. -/
def bracedTitleEnd : List Char := "\x7d Rule".toList

/-- What a rule name may end in without its being part of the name. -/
def ruleEnding : List Char := "Rule".toList

/-- A heading that looks like a rule name. -/
def referencesHeading : List Char := "References".toList

/-- **Acceptable rule names**: letters and digits, not only lower-case letters, and not the
heading of the references. -/
def isRuleName (name : List Char) : Bool :=
  !name.isEmpty && name.all isAlphanumeric && !name.all isLowercase && name != referencesHeading

/-- The text of a title that should hold the name, before the ending is dropped. -/
def titleText? (s : List Char) : Option (List Char) :=
  if bracedTitleStart.isPrefixOf s then
    (splitAtFirst? bracedTitleEnd (s.drop bracedTitleStart.length)).map fun (name, _) => trim name
  else
    some (trim (s.drop titleStart.length))

/-- **The rule name of a title**, in braces or as the rest of the line, without its ending. -/
def ruleName? (s : List Char) : Option (List Char) :=
  if s.all isBlank then none
  else (titleText? s).bind fun text =>
    let name := dropEnding ruleEnding text
    if isRuleName name then some name else none

end RuleCatalogue.Line
