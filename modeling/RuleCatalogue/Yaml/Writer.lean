import RuleCatalogue.Payload
import RuleCatalogue.Yaml.Plain
import RuleCatalogue.Yaml.Text

/-!
# Writing catalogues as YAML

A catalogue is written in blocks, the names of each table in increasing order.  A text is written
plainly where it reads back as itself, else between apostrophes, and between double quotes where it
holds characters that need escapes or spaces at a line end.  Lines are broken at spaces once they
are longer than eighty characters; a broken line goes on two columns inside the mapping that holds
it.
-/

namespace RuleCatalogue.Yaml

/-! ## Which style a text needs -/

/-- The greatest column that a line may reach before it is broken. -/
def lineWidth : Nat := 80

/-- A character that is written as it is outside of double quotes. -/
def isPlainChar (c : Char) : Bool :=
  let code := c.toNat
  c == '\n' || (0x20 ≤ code && code ≤ 0x7E)
    || ((code == 0x85 || (0xA0 ≤ code && code ≤ 0xD7FF) || (0xE000 ≤ code && code ≤ 0xFFFD)
      || (0x10000 ≤ code && code < 0x10FFFF)) && code != 0xFEFF)

/-- Whether a text has a character at its beginning that has a meaning of its own there. -/
def beginsWithIndicator : List Char → Bool
  | [] => false
  | c :: rest =>
      "#,[]\x7b\x7d&*!|>'\"%@`".toList.contains c
        || ((c == '?' || c == ':' || c == '-') && atGap rest)

/-- Whether a colon before a gap or a number sign behind one stands in a text.  `gap` says whether a
gap is just before. -/
def hasIndicator (gap : Bool) : List Char → Bool
  | [] => false
  | c :: rest =>
      (c == ':' && atGap rest) || (c == '#' && gap) || hasIndicator (isGap c) rest

/-- Whether a text begins like a line that bounds documents. -/
def beginsWithMark (s : List Char) : Bool :=
  "---".toList.isPrefixOf s || "...".toList.isPrefixOf s

/-- Whether a character of the first kind stands directly before one of the second. -/
def hasPair (first second : Char → Bool) : List Char → Bool
  | a :: b :: rest => (first a && second b) || hasPair first second (b :: rest)
  | _ => false

/-- A space. -/
def isSpaceChar (c : Char) : Bool := c == ' '

/-- A space or a line end. -/
def isSpaceOrNewline (c : Char) : Bool := isSpaceChar c || isNewline c

/-- Whether a text may stand between apostrophes: no special character, no space directly before or
behind a line end. -/
def fitsSingleQuotes (s : List Char) : Bool :=
  s.all isPlainChar && !hasPair isSpaceChar isNewline s && !hasPair isNewline isSpaceChar s

/-- Whether a text may stand without quotes in a block. -/
def fitsPlain (s : List Char) : Bool :=
  fitsSingleQuotes s && !s.any isNewline && !(s.head?.any isSpaceOrNewline)
    && !(s.getLast?.any isSpaceOrNewline) && !beginsWithIndicator s && !beginsWithMark s
    && !hasIndicator true s

/-- **How a text is written.** -/
inductive Style
  | plain
  | single
  | double
deriving DecidableEq, Repr

/-- **The style of a text**: the first of the three that it fits. -/
def styleOf (s : List Char) : Style :=
  if fitsPlain s && PlainKind.ofText s == .text then .plain
  else if fitsSingleQuotes s then .single
  else .double

/-! ## The styles -/

/-- The beginning of a line inside a text. -/
def margin (indent : Nat) : List Char :=
  List.replicate indent ' '

/-- **Words and line ends** of a text that is plain or between apostrophes, from a column on.  A
single space between words becomes a line end once the line is long; line ends of the text are
written twice where they would be read as a space.  The flags say what precedes: nothing, a space,
or a line end. -/
def foldedChars (indent : Nat) (apostrophe : List Char) :
    Bool → Bool → Bool → Nat → List Char → List Char
  | _, _, _, _, [] => []
  | first, behindSpace, behindBreak, column, c :: rest =>
      if c == ' ' then
        let breaks := !first && !behindSpace && lineWidth < column
          && (rest.head?.any fun d => d != ' ')
        if breaks then
          '\n' :: margin indent ++ foldedChars indent apostrophe false true false indent rest
        else ' ' :: foldedChars indent apostrophe false true false (column + 1) rest
      else if isNewline c then
        let lead := if c == '\n' && !behindBreak then ['\n'] else []
        let trail := if rest.head?.any isNewline then [] else margin indent
        lead ++ c :: trail ++ foldedChars indent apostrophe false false true indent rest
      else
        let written := if c == '\'' then apostrophe else [c]
        written ++ foldedChars indent apostrophe false false false (column + written.length) rest

/-- The letter behind a backslash for a character, if it has one. -/
def escapeLetter? (c : Char) : Option Char :=
  match c with
  | '\x00' => some '0'
  | '\x07' => some 'a'
  | '\x08' => some 'b'
  | '\t' => some 't'
  | '\n' => some 'n'
  | '\x0b' => some 'v'
  | '\x0c' => some 'f'
  | '\r' => some 'r'
  | '\x1b' => some 'e'
  | '"' => some '"'
  | '\\' => some '\\'
  | '\x85' => some 'N'
  | '\u2028' => some 'L'
  | '\u2029' => some 'P'
  | _ => none

/-- A character that is written as it is between double quotes. -/
def isUnescaped (c : Char) : Bool :=
  let code := c.toNat
  c != '"' && c != '\\' && code != 0x2028 && code != 0x2029 && code != 0xFEFF
    && ((0x20 ≤ code && code ≤ 0x7E) || (0xA0 ≤ code && code ≤ 0xD7FF)
      || (0xE000 ≤ code && code ≤ 0xFFFD))

/-- The code of a character in so many digits. -/
def codeDigits (width : Nat) (c : Char) : List Char :=
  (Text.hexDigits width c.toNat).map Char.toUpper

/-- A character between double quotes that is not written as it is. -/
def escapeChars (c : Char) : List Char :=
  match escapeLetter? c with
  | some letter => ['\\', letter]
  | none =>
      if c.toNat ≤ 0xFF then '\\' :: 'x' :: codeDigits 2 c
      else if c.toNat ≤ 0xFFFF then '\\' :: 'u' :: codeDigits 4 c
      else '\\' :: 'U' :: codeDigits 8 c

/-- A broken line between double quotes, and a backslash where the next line begins with a space. -/
def brokenLine (indent : Nat) (beforeSpace : Bool) : List Char :=
  '\\' :: '\n' :: margin indent ++ (if beforeSpace then ['\\'] else [])

/-- **A text between double quotes**, from a column on.  A long line is broken before a space, and
before and behind an escape, but neither before the first character nor before the last.  The flags
say what precedes: nothing, or an escape. -/
def doubleChars (indent : Nat) : Bool → Bool → Nat → List Char → List Char
  | _, _, _, [] => []
  | first, behindEscape, column, c :: rest =>
      let inside := !first && !rest.isEmpty
      if isUnescaped c then
        if inside && (c == ' ' || behindEscape) && lineWidth < column then
          let line := brokenLine indent (c == ' ')
          line ++ c :: doubleChars indent false false (line.length - 1) rest
        else c :: doubleChars indent false false (column + 1) rest
      else
        let written := escapeChars c
        if inside && lineWidth + 1 < column + written.length then
          let line := brokenLine indent (rest.head? == some ' ')
          written ++ line ++ doubleChars indent false true (line.length - 2) rest
        else written ++ doubleChars indent false true (column + written.length) rest

/-- **A text behind a name** that ends at a column, inside a mapping whose lines begin at
another. -/
def textChars (mapping column : Nat) (s : List Char) : List Char :=
  let indent := mapping + 2
  match styleOf s with
  | .plain => ' ' :: foldedChars indent ['\''] true false false (column + 1) s
  | .single =>
      ' ' :: '\'' :: foldedChars indent ['\'', '\''] true false false (column + 2) s ++ ['\'']
  | .double => ' ' :: '"' :: doubleChars indent true false (column + 2) s ++ ['"']

/-! ## Catalogues -/

/-- A line with a name and a text, in a mapping whose lines begin at a column; `lead` is what stands
before the name. -/
def fieldLine (mapping : Nat) (lead : List Char) (key value : String) : List Char :=
  let column := mapping + key.length + 1
  lead ++ key.toList ++ ':' :: textChars mapping column value.toList ++ ['\n']

/-- What stands before the first name of an item. -/
def itemLead (mapping : Nat) : List Char :=
  margin (mapping - 2) ++ ['-', ' ']

/-- The lines of a parameter. -/
def parameterLines (p : Parameter) : List Char :=
  fieldLine 4 (itemLead 4) "default_value" p.defaultValue
    ++ fieldLine 4 (margin 4) "description" p.description
    ++ fieldLine 4 (margin 4) "key" p.key

/-- The lines of a list with a name; an empty list stands in one line. -/
def listLines (lead : List Char) (key : String) (items : List (List Char)) : List Char :=
  lead ++ key.toList ++ (if items.isEmpty then ": []\n" else ":\n").toList ++ items.flatten

/-- The lines of a rule. -/
def ruleLines (e : RuleEntry) : List Char :=
  fieldLine 2 (itemLead 2) "description" e.description
    ++ fieldLine 2 (margin 2) "name" e.name
    ++ listLines (margin 2) "parameters" (e.parameters.toList.map parameterLines)

/-- **A catalogue as a YAML document.** -/
def ofCatalogue (catalogue : Catalogue) : String :=
  String.ofList
    (listLines [] "rules" (catalogue.sortedEntries.map ruleLines)
      ++ ("version: " ++ toString payloadVersion ++ "\n").toList)

end RuleCatalogue.Yaml
