import RuleCatalogue.Decimal
import RuleCatalogue.ReadError
import RuleCatalogue.Text.Substring

/-!
# Characters and texts of YAML

Not all characters may stand in a YAML text.  Some of them end a line, and a line end reads as a
line feed or as itself.

A text is written plainly, between quotes of two kinds, or as a block of lines.  In all but the
block kinds a single line end reads as a space, and further ones as line feeds.

Each reader returns the text and what follows it.  The numbers named `steps` bound the parts that a
reader looks at; the length of the input is always enough.
-/

/-! ## Characters of YAML -/

namespace RuleCatalogue.Yaml

/-- The error of every text that is no YAML. -/
def malformed {α : Type} : Except ReadError α :=
  .error (.malformed .yaml)

/-- A character that a text may hold. -/
def isAllowed (c : Char) : Bool :=
  let code := c.toNat
  c == '\t' || c == '\n' || c == '\r' || (0x20 ≤ code && code ≤ 0x7E) || code == 0x85
    || (0xA0 ≤ code && code ≤ 0xD7FF) || (0xE000 ≤ code && code ≤ 0xFFFD) || 0x10000 ≤ code

/-- A character that ends a line without a carriage return. -/
def isNewline (c : Char) : Bool :=
  c == '\n' || c == '\x85' || c == '\u2028' || c == '\u2029'

/-- A character that ends a line. -/
def isBreak (c : Char) : Bool :=
  c == '\r' || isNewline c

/-- A space or a tab. -/
def isSpaceOrTab (c : Char) : Bool :=
  c == ' ' || c == '\t'

/-- A space, a tab, or a line end. -/
def isGap (c : Char) : Bool :=
  isSpaceOrTab c || isBreak c

/-- Whether a text is at its end or goes on with a space, a tab or a line end. -/
def atGap : List Char → Bool
  | [] => true
  | c :: _ => isGap c

/-- Whether a text is at its end or at the end of a line. -/
def atLineEnd : List Char → Bool
  | [] => true
  | c :: _ => isBreak c

/-- Whether a text is at its end, at the end of a line, or at a space. -/
def atLineEndOrSpace : List Char → Bool
  | [] => true
  | c :: _ => isBreak c || c == ' '

/-- **A line end**, as the character it reads as: the separators of lines and paragraphs stand for
themselves, all others for a line feed. -/
def takeBreak? : List Char → Option (Char × List Char)
  | '\r' :: '\n' :: rest => some ('\n', rest)
  | c :: rest =>
      if c == '\r' || c == '\n' || c == '\x85' then some ('\n', rest)
      else if isBreak c then some (c, rest)
      else none
  | [] => none

/-- The text behind a line end, if one is there. -/
def skipBreak (s : List Char) : List Char :=
  match takeBreak? s with
  | some (_, rest) => rest
  | none => s

/-- The text behind the spaces at its beginning. -/
def skipSpaces (s : List Char) : List Char :=
  s.dropWhile (· == ' ')

/-- The text from the end of its first line on. -/
def toLineEnd (s : List Char) : List Char :=
  s.dropWhile fun c => !isBreak c

/-- Whether a text begins, as a line would, with one of the two marks that bound documents. -/
def atDocumentMark : List Char → Bool
  | '-' :: '-' :: '-' :: rest => atGap rest
  | '.' :: '.' :: '.' :: rest => atGap rest
  | _ => false

end RuleCatalogue.Yaml

/-! ## Texts of YAML -/

namespace RuleCatalogue.Yaml

/-- What a line end and the line ends behind it read as. -/
def foldedBreaks (first : Char) (others : List Char) : List Char :=
  if first != '\n' then first :: others
  else if others.isEmpty then [' ']
  else others

/-! ## Plain texts -/

/-- Whether a plain text ends before this character. -/
def endsPlain (flow : Bool) (c : Char) (rest : List Char) : Bool :=
  isGap c
    || (c == ':'
      && (atGap rest || (flow && (rest.head?.any fun d => ",[]\x7b\x7d".toList.contains d))))
    || (flow && ",?[]\x7b\x7d".toList.contains c)

/-- The part of a plain text up to a space or to its end. -/
def plainWord (flow : Bool) : List Char → List Char × List Char
  | [] => ([], [])
  | c :: rest =>
      if endsPlain flow c rest then ([], c :: rest)
      else
        let (word, after) := plainWord flow rest
        (c :: word, after)

/-- **What stands between two words**: the text it reads as, what follows, whether a line ended,
and in which column the next line goes on.  There is no text where the next line bounds a
document. -/
structure WordGap where
  text : List Char
  rest : List Char
  crossed : Bool := false
  column : Nat := 0

/-- Line ends and spaces behind a line end: the line ends, what follows, and the column; and
whether a document mark was met. -/
def moreBreaks : Nat → Nat → List Char → List Char × List Char × Nat × Bool
  | 0, column, s => ([], s, column, false)
  | steps + 1, column, s =>
      match s with
      | ' ' :: rest => moreBreaks steps (column + 1) rest
      | _ =>
          match takeBreak? s with
          | none => ([], s, column, false)
          | some (b, rest) =>
              if atDocumentMark rest then ([b], rest, 0, true)
              else
                let (breaks, after, column, marked) := moreBreaks steps 0 rest
                (b :: breaks, after, column, marked)

/-- The gap behind a word of a plain text. -/
def wordGap (s : List Char) : WordGap :=
  let spaces := s.takeWhile (· == ' ')
  let ahead := s.drop spaces.length
  match takeBreak? ahead with
  | none => { text := spaces, rest := ahead }
  | some (first, rest) =>
      if atDocumentMark rest then { text := [], rest, crossed := true }
      else
        let (breaks, after, column, marked) := moreBreaks (rest.length + 1) 0 rest
        { text := if marked then [] else foldedBreaks first breaks, rest := after, crossed := true,
          column }

/-- The words of a plain text.  `lead` is what stands before the next word; the last component says
whether the text ended on a line of its own. -/
def plainWords (flow : Bool) (indent : Int) :
    Nat → List Char → List Char → Bool → List Char × List Char × Bool
  | 0, _, s, crossed => ([], s, crossed)
  | steps + 1, lead, s, crossed =>
      match s with
      | '#' :: _ => ([], s, crossed)
      | _ =>
          let (word, after) := plainWord flow s
          if word.isEmpty then ([], s, crossed)
          else
            let gap := wordGap after
            let outdented := !flow && gap.crossed && decide (Int.ofNat gap.column < indent)
            if gap.text.isEmpty || gap.rest.head? == some '#' || outdented then
              (lead ++ word, gap.rest, gap.crossed)
            else
              let (more, rest, crossed) :=
                plainWords flow indent steps gap.text gap.rest gap.crossed
              (lead ++ word ++ more, rest, crossed)

/-- **A plain text** inside a block of this indent, or between brackets. -/
def plainText (flow : Bool) (indent : Int) (s : List Char) : List Char × List Char × Bool :=
  plainWords flow (indent + 1) (s.length + 1) [] s false

/-! ## Texts between quotes -/

/-- Line ends between quotes, with the spaces around them; a document mark is not allowed. -/
def quotedBreaks : Nat → List Char → Except ReadError (List Char × List Char)
  | 0, _ => malformed
  | steps + 1, s =>
      if atDocumentMark s then malformed
      else
        let ahead := s.dropWhile isSpaceOrTab
        match takeBreak? ahead with
        | none => .ok ([], ahead)
        | some (b, rest) => do
            let (breaks, after) ← quotedBreaks steps rest
            return (b :: breaks, after)

/-- A gap between quotes: spaces that stay, or line ends that are folded. -/
def quotedGap (s : List Char) : Except ReadError (List Char × List Char) :=
  let spaces := s.takeWhile isSpaceOrTab
  let ahead := s.drop spaces.length
  match takeBreak? ahead with
  | some (first, rest) => do
      let (breaks, after) ← quotedBreaks (rest.length + 1) rest
      return (foldedBreaks first breaks, after)
  | none => if ahead.isEmpty then malformed else .ok (spaces, ahead)

/-- Puts characters in front of a text that is read. -/
def prepend (chars : List Char) (read : Except ReadError (List Char × List Char)) :
    Except ReadError (List Char × List Char) :=
  read.map fun (text, rest) => (chars ++ text, rest)

/-- **A text between apostrophes**, up to the closing one; two of them stand for one. -/
def singleQuoted : Nat → List Char → Except ReadError (List Char × List Char)
  | 0, _ => malformed
  | steps + 1, s =>
      match s with
      | [] => malformed
      | '\'' :: '\'' :: rest => prepend ['\''] (singleQuoted steps rest)
      | '\'' :: rest => .ok ([], rest)
      | c :: rest =>
          if isGap c then do
            let (gap, after) ← quotedGap s
            prepend gap (singleQuoted steps after)
          else prepend [c] (singleQuoted steps rest)

/-- The character that a letter behind a backslash stands for. -/
def escape? : Char → Option Char
  | '0' => some '\x00'
  | 'a' => some '\x07'
  | 'b' => some '\x08'
  | 't' => some '\t'
  | '\t' => some '\t'
  | 'n' => some '\n'
  | 'v' => some '\x0b'
  | 'f' => some '\x0c'
  | 'r' => some '\r'
  | 'e' => some '\x1b'
  | ' ' => some ' '
  | '"' => some '"'
  | '\\' => some '\\'
  | '/' => some '/'
  | 'N' => some '\x85'
  | '_' => some '\xa0'
  | 'L' => some '\u2028'
  | 'P' => some '\u2029'
  | _ => none

/-- How many hexadecimal digits follow a letter behind a backslash. -/
def codeLength? : Char → Option Nat
  | 'x' => some 2
  | 'u' => some 4
  | 'U' => some 8
  | _ => none

/-- The character of a code point.  A surrogate on its own, which is no character, is replaced. -/
def charOfCode (code : Nat) : Except ReadError Char :=
  if 0x7FFFFFFF < code then .error .hugeCodePoint
  else if 0x110000 ≤ code then .error .noSuchCodePoint
  else if Text.Surrogate.isEither code then .ok '\uFFFD'
  else .ok (Char.ofNat code)

/-- The character whose two surrogates are the given code point and the one escaped right behind
it, and what follows that escape. -/
def paired? (high : Nat) : List Char → Option (Char × List Char)
  | '\\' :: letter :: rest => do
      let length ← codeLength? letter
      let low ← Decimal.hexValue? (rest.take length)
      if Text.Surrogate.isHigh high && Text.Surrogate.isLow low then
        some (Text.Surrogate.joined high low, rest.drop length)
      else none
  | _ => none

/-- What follows a backslash: a letter for a character, a code point, or a line end that does not
count. -/
def escape (s : List Char) : Except ReadError (List Char × List Char) :=
  match s with
  | [] => malformed
  | c :: rest =>
      match escape? c with
      | some char => .ok ([char], rest)
      | none =>
          match codeLength? c with
          | some length =>
              match Decimal.hexValue? (rest.take length) with
              | some code => do
                  if rest.length < length then malformed
                  match paired? code (rest.drop length) with
                  | some (char, after) => return ([char], after)
                  | none =>
                      let char ← charOfCode code
                      return ([char], rest.drop length)
              | none => malformed
          | none =>
              match takeBreak? s with
              | some (_, after) => quotedBreaks (after.length + 1) after
              | none => malformed

/-- **A text between double quotes**, up to the closing one, with escapes. -/
def doubleQuoted : Nat → List Char → Except ReadError (List Char × List Char)
  | 0, _ => malformed
  | steps + 1, s =>
      match s with
      | [] => malformed
      | '"' :: rest => .ok ([], rest)
      | '\\' :: rest => do
          let (chars, after) ← escape rest
          prepend chars (doubleQuoted steps after)
      | c :: rest =>
          if isGap c then do
            let (gap, after) ← quotedGap s
            prepend gap (doubleQuoted steps after)
          else prepend [c] (doubleQuoted steps rest)

/-! ## Blocks of lines -/

/-- **What becomes of the line ends at the end of a block.** -/
inductive Chomping
  | strip
  | clip
  | keep
deriving DecidableEq, Repr

/-- The sign for the end of a block, if one is there. -/
def chomping? : List Char → Option (Chomping × List Char)
  | '+' :: rest => some (.keep, rest)
  | '-' :: rest => some (.strip, rest)
  | _ => none

/-- A digit for the indent of a block, if one is there; zero is none. -/
def indentDigit? : List Char → Except ReadError (Option Nat × List Char)
  | c :: rest =>
      if c.isDigit then
        if c == '0' then malformed else .ok (some (Decimal.digitValue c), rest)
      else .ok (none, c :: rest)
  | [] => .ok (none, [])

/-- The signs behind the mark of a block, in either order. -/
def blockHeader (s : List Char) : Except ReadError (Chomping × Option Nat × List Char) := do
  match chomping? s with
  | some (chomping, rest) =>
      let (digit, rest) ← indentDigit? rest
      return (chomping, digit, rest)
  | none =>
      let (digit, rest) ← indentDigit? s
      match digit, chomping? rest with
      | some n, some (chomping, rest) => return (chomping, some n, rest)
      | _, _ => return (.clip, digit, rest)

/-- The rest of a line that may hold spaces and a comment only; the text behind it. -/
def ignoredLine (s : List Char) : Except ReadError (List Char) :=
  let ahead := skipSpaces s
  let final := if ahead.head? == some '#' then toLineEnd ahead else ahead
  if atLineEnd final then .ok (skipBreak final) else malformed

/-- Empty lines at the beginning of a block: their line ends, the greatest column that spaces reach,
what follows, and its column. -/
def leadingLines : Nat → Nat → Nat → List Char → List Char × Nat × List Char × Nat
  | 0, widest, column, s => ([], widest, s, column)
  | steps + 1, widest, column, s =>
      match s with
      | ' ' :: rest => leadingLines steps (max widest (column + 1)) (column + 1) rest
      | _ =>
          match takeBreak? s with
          | none => ([], widest, s, column)
          | some (b, rest) =>
              let (breaks, widest, after, column) := leadingLines steps widest 0 rest
              (b :: breaks, widest, after, column)

/-- The text behind the spaces that reach up to a column, and the column reached. -/
def skipIndent (indent : Nat) : Nat → List Char → List Char × Nat
  | column, ' ' :: rest =>
      if column < indent then skipIndent indent (column + 1) rest else (' ' :: rest, column)
  | column, s => (s, column)

/-- Empty lines inside a block: their line ends, what follows, and its column. -/
def innerLines (indent : Nat) : Nat → Nat → List Char → List Char × List Char × Nat
  | 0, column, s => ([], s, column)
  | steps + 1, column, s =>
      let (ahead, column) := skipIndent indent column s
      match takeBreak? ahead with
      | none => ([], ahead, column)
      | some (b, rest) =>
          let (breaks, after, column) := innerLines indent steps 0 rest
          (b :: breaks, after, column)

/-- The lines of a block.  `breaks` are the line ends of the empty lines before the next one; the
last line end and the line ends behind it come separately, since they may be dropped. -/
def blockLines (folded : Bool) (indent : Nat) :
    Nat → List Char → List Char → List Char × List Char × List Char × List Char
  | 0, breaks, s => ([], [], breaks, s)
  | steps + 1, breaks, s =>
      let line := s.takeWhile fun c => !isBreak c
      let atBreak := s.drop line.length
      let (lineBreak, rest) :=
        match takeBreak? atBreak with
        | some (b, rest) => ([b], rest)
        | none => ([], atBreak)
      let (more, after, column) := innerLines indent (rest.length + 1) 0 rest
      if column == indent && !after.isEmpty then
        let leading := !(s.head?.any isSpaceOrTab)
        let between :=
          if folded && lineBreak == ['\n'] && leading && !(after.head?.any isSpaceOrTab) then
            if more.isEmpty then [' '] else []
          else lineBreak
        let (text, final, tail, rest) := blockLines folded indent steps more after
        (breaks ++ line ++ between ++ text, final, tail, rest)
      else (breaks ++ line, lineBreak, more, after)

/-- **A block of lines** below a parent of this indent, behind its mark. -/
def blockText (folded : Bool) (parent : Int) (s : List Char) :
    Except ReadError (List Char × List Char) := do
  let (chomping, digit, afterHeader) ← blockHeader s
  if !atLineEndOrSpace afterHeader then malformed
  let body ← ignoredLine afterHeader
  let least := (max 1 (parent + 1)).toNat
  let (indent, breaks, ahead, column) :=
    match digit with
    | some n =>
        let indent := least + n - 1
        let (breaks, ahead, column) := innerLines indent (body.length + 1) 0 body
        (indent, breaks, ahead, column)
    | none =>
        let (breaks, widest, ahead, column) := leadingLines (body.length + 1) 0 0 body
        (max least widest, breaks, ahead, column)
  let (text, final, tail, rest) :=
    if column == indent && !ahead.isEmpty then
      blockLines folded indent (ahead.length + 1) breaks ahead
    else ([], [], breaks, ahead)
  let kept :=
    match chomping with
    | .strip => []
    | .clip => final
    | .keep => final ++ tail
  return (text ++ kept, rest)

end RuleCatalogue.Yaml
