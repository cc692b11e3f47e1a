import RuleCatalogue.Text.Character
import RuleCatalogue.Text.Substring

/-!
# From catalogue markup to entity-safe text

Rule descriptions are written with runs of angle brackets for emphasis: one pair for italics, two
for bold, three for code.  `prose` turns such runs into tags and escapes the other special
characters; `code` escapes all brackets of a code line; `cell` and `defaultValue` drop the
markup of table cells, where none is rendered.

While a line of prose is converted its brackets are set aside as two private-use characters, so
that the brackets of a tag already written are never taken for emphasis.
-/

namespace RuleCatalogue.Markup

open Text

/-- The character that stands for an opening bracket while prose is converted. -/
def openMark : Char := '\uE000'

/-- The character that stands for a closing bracket while prose is converted. -/
def closeMark : Char := '\uE001'

/-- Operators that are not emphasis when spaces surround them; the longest come first, so that no
operator is taken for a shorter one. -/
def spacedOperators : List (String × String) :=
  [(" <=> ", " &lt;=&gt; "),
   (" <<<= ", " &lt;&lt;&lt;= "),
   (" >>>= ", " &gt;&gt;&gt;= "),
   (" <<= ", " &lt;&lt;= "),
   (" >>= ", " &gt;&gt;= "),
   (" <= ", " &lt;= "),
   (" >= ", " &gt;= "),
   (" < ", " &lt; "),
   (" > ", " &gt; ")]

/-- The arrow and the characters that a backslash protects. -/
def escapedTokens : List (String × String) :=
  [("->", "-&gt;"), ("\\=", "="), ("\\<", "&lt;"), ("\\>", "&gt;")]

/-- Runs of set-aside brackets and the tags they become, the longest runs first. -/
def emphasisRuns : List (List Char × String) :=
  [(List.replicate 3 openMark, "<code>"),
   (List.replicate 2 openMark, "<b>"),
   (List.replicate 1 openMark, "<i>"),
   (List.replicate 3 closeMark, "</code>"),
   (List.replicate 2 closeMark, "</b>"),
   (List.replicate 1 closeMark, "</i>")]

/-- Replaces the first text of each pair by the second, pair by pair. -/
def replaceEach (pairs : List (List Char × List Char)) (s : List Char) : List Char :=
  pairs.foldl (fun text (old, new) => replaceAll old new text) s

/-- Ampersands, spaced operators and protected characters as entities. -/
def escapeProse (s : List Char) : List Char :=
  let padded := ' ' :: s ++ [' ']
  let escaped := replaceAll ['&'] "&amp;".toList padded
  replaceEach ((spacedOperators ++ escapedTokens).map fun (old, new) => (old.toList, new.toList))
    escaped

/-- Sets the brackets of a text aside. -/
def setAside (c : Char) : Char :=
  if c == '<' then openMark else if c == '>' then closeMark else c

/-- Turns each run of set-aside brackets into the tag of its length. -/
def writeTags (s : List Char) : List Char :=
  replaceEach (emphasisRuns.map fun (run, tag) => (run, tag.toList)) s

/-- **Prose**: escaped, with emphasis as tags, and trimmed. -/
def prose (s : List Char) : List Char :=
  trim (writeTags ((escapeProse s).map setAside))

/-- **A table cell** without its emphasis brackets. -/
def cell (s : List Char) : List Char :=
  s.filter fun c => c != '<' && c != '>'

/-- The bracket runs that are dropped from a default value, in this order. -/
def defaultValueMarks : List String :=
  ["<<<", "<<", ">>>", ">>"]

/-- The pairs of characters that may wrap a default value. -/
def defaultValueWrappers : List (Char × Char) :=
  [('\'', '\''), ('<', '>'), ('"', '"'), ('/', '/')]

/-- A text of at least two characters without the pair that wraps it, if one does. -/
def unwrap (s : List Char) : List Char :=
  if 2 ≤ s.length
      && defaultValueWrappers.any (fun (first, last) =>
        s.head? == some first && s.getLast? == some last) then
    (s.drop 1).dropLast
  else s

/-- **A default value** without its bracket runs and without one wrapping pair. -/
def defaultValue (s : List Char) : List Char :=
  unwrap (defaultValueMarks.foldl (fun text mark => replaceAll mark.toList [] text) s)

/-- **A line of example code**: ampersands and brackets become entities, and a backslash directly
before a bracket is dropped. -/
def code : List Char → List Char
  | [] => []
  | '\\' :: '<' :: rest => "&lt;".toList ++ code rest
  | '\\' :: '>' :: rest => "&gt;".toList ++ code rest
  | '&' :: rest => "&amp;".toList ++ code rest
  | '<' :: rest => "&lt;".toList ++ code rest
  | '>' :: rest => "&gt;".toList ++ code rest
  | c :: rest => c :: code rest

end RuleCatalogue.Markup
