import RuleCatalogue.Yaml.Text

/-!
# Tokens of YAML

A text is first cut into tokens.  Where a block begins and ends shows in the columns only, and that
something is the key of a mapping shows only at the colon behind it.  Both become tokens of their
own: `blockEnd` closes what a smaller column closes, and `key` is put in front of a key once its
colon is met.

## Main definitions

* `Cursor` is a place in the text, with its line and column.
* `Scan` is the state between two tokens; `Scan.step` adds the next ones.
* `Token.ofText` is the whole: if the text cannot be cut further, the last token says why.
-/

namespace RuleCatalogue.Yaml

/-- **A line that gives directions about the document after it.** -/
inductive Directive
  | version (major minor : Nat)
  | tagHandle (handle start : String)
  | unknown (name : String)
deriving DecidableEq, Repr

/-- **A token.** -/
inductive Token
  | directive (d : Directive)
  | documentStart
  | documentEnd
  | sequenceStart
  | mappingStart
  | blockEnd
  | flowSequenceStart
  | flowSequenceEnd
  | flowMappingStart
  | flowMappingEnd
  | entry
  | flowEntry
  | key
  | value
  | alias (name : String)
  | anchor (name : String)
  | tag (handle : Option String) (suffix : String)
  | scalar (plain : Bool) (text : String)
  | textEnd
  | failure (e : ReadError)
deriving DecidableEq, Repr

/-! ## Names, tags and directives -/

/-- A character of an anchor's name, of a tag handle and of a directive's name. -/
def isNameChar (c : Char) : Bool :=
  c.isAlphanum || c == '-' || c == '_'

/-- A name at the beginning of a text; it must not be empty. -/
def name (s : List Char) : Except ReadError (List Char × List Char) :=
  let word := s.takeWhile isNameChar
  if word.isEmpty then malformed else .ok (word, s.drop word.length)

/-- The name of an anchor or alias, behind its mark. -/
def anchorName (s : List Char) : Except ReadError (String × List Char) := do
  let (word, rest) ← name s
  if atGap rest || (rest.head?.any fun c => "?:,]\x7d%@`".toList.contains c) then
    return (String.ofList word, rest)
  else malformed

/-- A character of a tag, other than the percent sign. -/
def isTagChar (c : Char) : Bool :=
  c.isAlphanum || "-;/?:@&=+$,_.!~*'()[]".toList.contains c

/-- The octets written as percent signs with two hexadecimal digits each. -/
def percentOctets : Nat → List Char → Except ReadError (List Nat × List Char)
  | 0, _ => malformed
  | steps + 1, s =>
      match s with
      | '%' :: a :: b :: rest =>
          match Decimal.hexValue? [a, b] with
          | some octet => do
              let (octets, after) ← percentOctets steps rest
              return (octet :: octets, after)
          | none => malformed
      | '%' :: _ => malformed
      | _ => .ok ([], s)

/-- The characters that octets encode. -/
def octetsText (octets : List Nat) : Except ReadError (List Char) :=
  match String.fromUTF8? ⟨(octets.map Nat.toUInt8).toArray⟩ with
  | some text => .ok text.toList
  | none => malformed

/-- The characters of a tag; the text may be empty. -/
def tagChars : Nat → List Char → Except ReadError (List Char × List Char)
  | 0, _ => malformed
  | steps + 1, s =>
      match s with
      | '%' :: _ => do
          let (octets, after) ← percentOctets (s.length + 1) s
          let chars ← octetsText octets
          prepend chars (tagChars steps after)
      | c :: rest => if isTagChar c then prepend [c] (tagChars steps rest) else .ok ([], s)
      | [] => .ok ([], [])

/-- The text of a tag, which must not be empty. -/
def tagText (s : List Char) : Except ReadError (String × List Char) := do
  let (chars, rest) ← tagChars (s.length + 1) s
  if rest.length = s.length then malformed else return (String.ofList chars, rest)

/-- A tag handle: an exclamation mark, which a name and another one may follow. -/
def tagHandle (s : List Char) : Except ReadError (String × List Char) :=
  match s with
  | '!' :: rest =>
      if rest.head? == some ' ' then .ok ("!", rest)
      else
        let word := rest.takeWhile isNameChar
        match rest.drop word.length with
        | '!' :: after => .ok (String.ofList ('!' :: word ++ ['!']), after)
        | _ => malformed
  | _ => malformed

/-- Whether a tag has a handle of its own: another exclamation mark stands before the next gap. -/
def hasHandle (s : List Char) : Bool :=
  (s.takeWhile fun c => c != ' ' && !isBreak c).contains '!'

/-- A tag, from its exclamation mark on. -/
def tagToken (s : List Char) : Except ReadError (Token × List Char) := do
  let behind := s.drop 1
  let (token, rest) ←
    match behind with
    | '<' :: verbatim =>
        match ← tagText verbatim with
        | (suffix, '>' :: rest) => .ok (Token.tag none suffix, rest)
        | _ => malformed
    | _ =>
        if atGap behind then .ok (Token.tag none "!", behind)
        else if hasHandle behind then do
          let (handle, rest) ← tagHandle s
          let (suffix, rest) ← tagText rest
          pure (Token.tag (some handle) suffix, rest)
        else do
          let (suffix, rest) ← tagText behind
          pure (Token.tag (some "!") suffix, rest)
  if atLineEndOrSpace rest then return (token, rest) else malformed

/-- A number of a version. -/
def versionNumber (s : List Char) : Except ReadError (Nat × List Char) := do
  let digits := s.takeWhile Char.isDigit
  if digits.isEmpty then malformed
  let _ ← Decimal.integer false digits
  return (Decimal.ofDigits 10 digits, s.drop digits.length)

/-- A directive, behind its percent sign, with the end of its line. -/
def directiveToken (s : List Char) : Except ReadError (Token × List Char) := do
  let (word, rest) ← name s
  if !atLineEndOrSpace rest then malformed
  let (directive, rest) ←
    if word == "YAML".toList then do
      let (major, rest) ← versionNumber (skipSpaces rest)
      match rest with
      | '.' :: rest => do
          let (minor, rest) ← versionNumber rest
          if atLineEndOrSpace rest then pure (Directive.version major minor, rest) else malformed
      | _ => malformed
    else if word == "TAG".toList then do
      let (handle, rest) ← tagHandle (skipSpaces rest)
      if rest.head? != some ' ' then malformed
      let (start, rest) ← tagText (skipSpaces rest)
      if atLineEndOrSpace rest then pure (Directive.tagHandle handle start, rest) else malformed
    else pure (Directive.unknown (String.ofList word), toLineEnd rest)
  return (.directive directive, ← ignoredLine rest)

/-! ## Places and states -/

/-- **A place in the text**: what follows it, how many characters precede it, and its line and
column, counted from zero. -/
structure Cursor where
  rest : List Char
  index : Nat := 0
  line : Nat := 0
  column : Nat := 0

namespace Cursor

/-- The place behind the next character.  A byte order mark takes no column. -/
def next (p : Cursor) : Cursor :=
  match p.rest with
  | [] => p
  | c :: rest =>
      if isNewline c || (c == '\r' && rest.head? != some '\n') then
        { rest, index := p.index + 1, line := p.line + 1, column := 0 }
      else
        { rest, index := p.index + 1, line := p.line
          column := if c == '\uFEFF' then p.column else p.column + 1 }

/-- The place a number of characters ahead. -/
def ahead : Nat → Cursor → Cursor
  | 0, p => p
  | n + 1, p => ahead n p.next

/-- The place at which `rest`, an end of the text at hand, begins. -/
def reach (p : Cursor) (rest : List Char) : Cursor :=
  p.ahead (p.rest.length - rest.length)

end Cursor

/-- **A place that may turn out to be a key**: how many tokens precede it, and whether nothing but a
key may stand there. -/
structure KeyPlace where
  tokenCount : Nat
  required : Bool
  index : Nat
  line : Nat
  column : Nat
deriving DecidableEq, Repr

/-- **The state between two tokens.**  The tokens are kept with the last one first.  `indent` is the
column of the innermost block, `outer` those of the blocks around it, `flow` the number of open
brackets, and `keys` holds the possible key on each level of brackets. -/
structure Scan where
  cursor : Cursor
  tokens : List Token := []
  count : Nat := 0
  indent : Int := -1
  outer : List Int := []
  flow : Nat := 0
  keyAllowed : Bool := true
  keys : List (Nat × KeyPlace) := []

namespace Scan

/-- Adds a token at the end. -/
def push (s : Scan) (t : Token) : Scan :=
  { s with tokens := t :: s.tokens, count := s.count + 1 }

/-- Adds a token behind the first `place` tokens. -/
def insertAt (s : Scan) (place : Nat) (t : Token) : Scan :=
  let later := s.count - place
  { s with tokens := s.tokens.take later ++ t :: s.tokens.drop later, count := s.count + 1 }

/-- Moves to an end of the text. -/
def moveTo (s : Scan) (rest : List Char) : Scan :=
  { s with cursor := s.cursor.reach rest }

/-- Whether the next character is inside brackets. -/
def inFlow (s : Scan) : Bool :=
  s.flow != 0

/-- Forgets the possible keys that can no longer be keys: a key ends on its line and within 1024
characters. -/
def dropStaleKeys (s : Scan) : Except ReadError Scan :=
  let stale (k : KeyPlace) : Bool :=
    k.line != s.cursor.line || 1024 < s.cursor.index - k.index
  if s.keys.any fun (_, k) => stale k && k.required then malformed
  else .ok { s with keys := s.keys.filter fun (_, k) => !stale k }

/-- Forgets the possible key on the current level. -/
def dropKey (s : Scan) : Except ReadError Scan :=
  match s.keys.lookup s.flow with
  | some k => if k.required then malformed else
      .ok { s with keys := s.keys.filter fun (level, _) => level != s.flow }
  | none => .ok s

/-- Remembers the current place as a possible key, where keys are allowed. -/
def noteKey (s : Scan) : Except ReadError Scan :=
  if s.keyAllowed then do
    let required := !s.inFlow && s.indent == Int.ofNat s.cursor.column
    let s ← s.dropKey
    let place : KeyPlace :=
      ⟨s.count, required, s.cursor.index, s.cursor.line, s.cursor.column⟩
    return { s with keys := (s.flow, place) :: s.keys }
  else .ok s

/-- Ends the blocks whose column is greater than the given one. -/
def endBlocks (column : Int) : List Int → Scan → Scan
  | outer, s =>
      if s.indent ≤ column then s
      else
        match outer with
        | [] => s
        | indent :: others =>
            endBlocks column others ({ s with indent, outer := others }.push .blockEnd)

/-- Ends the blocks that a column ends; between brackets there are none. -/
def unwind (s : Scan) (column : Int) : Scan :=
  if s.inFlow then s else endBlocks column s.outer s

/-- Begins a block at a column, if it is greater than that of the innermost block. -/
def beginBlock? (s : Scan) (column : Nat) : Option Scan :=
  if s.indent < Int.ofNat column then
    some { s with indent := column, outer := s.indent :: s.outer }
  else none

/-- Begins a block at the current column, if need be, with this token. -/
def beginHere (s : Scan) (t : Token) : Scan :=
  match s.beginBlock? s.cursor.column with
  | some begun => begun.push t
  | none => s

/-- The text behind spaces, comments and line ends, and whether a line ended. -/
def blankAhead : Nat → List Char → Bool → List Char × Bool
  | 0, s, crossed => (s, crossed)
  | steps + 1, s, crossed =>
      let ahead := skipSpaces s
      let ahead := if ahead.head? == some '#' then toLineEnd ahead else ahead
      match takeBreak? ahead with
      | some (_, rest) => blankAhead steps rest true
      | none => (ahead, crossed)

/-- Moves to the next token.  A new line allows keys, except between brackets. -/
def skipBlank (s : Scan) : Scan :=
  let start :=
    if s.cursor.index == 0 && s.cursor.rest.head? == some '\uFEFF' then s.cursor.rest.drop 1
    else s.cursor.rest
  let (rest, crossed) := blankAhead (start.length + 1) start false
  let moved := s.moveTo rest
  if crossed && !s.inFlow then { moved with keyAllowed := true } else moved

/-! ## One token -/

/-- Ends all blocks, as a directive, a document mark or the end of the text does. -/
def endDocument (s : Scan) : Except ReadError Scan := do
  let s ← (s.unwind (-1)).dropKey
  return { s with keyAllowed := false }

/-- An opening bracket. -/
def openBracket (s : Scan) (t : Token) (rest : List Char) : Except ReadError Scan := do
  let s ← s.noteKey
  return ({ s with flow := s.flow + 1, keyAllowed := true }.push t).moveTo rest

/-- A closing bracket. -/
def closeBracket (s : Scan) (t : Token) (rest : List Char) : Except ReadError Scan := do
  let s ← s.dropKey
  if s.flow = 0 then malformed
  return ({ s with flow := s.flow - 1, keyAllowed := false }.push t).moveTo rest

/-- A comma between brackets. -/
def comma (s : Scan) (rest : List Char) : Except ReadError Scan := do
  let s ← { s with keyAllowed := true }.dropKey
  return (s.push .flowEntry).moveTo rest

/-- The mark in front of an item or of a key; outside of brackets it may begin a block. -/
def blockMark (s : Scan) (first mark : Token) (keyAfter : Bool) (rest : List Char) :
    Except ReadError Scan := do
  if !s.inFlow && !s.keyAllowed then malformed
  let begun := if s.inFlow then s else s.beginHere first
  let s ← { begun with keyAllowed := keyAfter }.dropKey
  return (s.push mark).moveTo rest

/-- The colon in front of a value: what stood at the possible key becomes its key. -/
def colon (s : Scan) (rest : List Char) : Except ReadError Scan :=
  match s.keys.lookup s.flow with
  | some k =>
      let others := { s with keys := s.keys.filter fun (level, _) => level != s.flow }
      let keyed := others.insertAt k.tokenCount .key
      let begun :=
        if s.inFlow then keyed
        else
          match keyed.beginBlock? k.column with
          | some block => block.insertAt k.tokenCount .mappingStart
          | none => keyed
      .ok (({ begun with keyAllowed := false }.push .value).moveTo rest)
  | none => s.blockMark .mappingStart .value (!s.inFlow) rest

/-- A token that may be a key, and after which no key may begin. -/
def keyLike (s : Scan) (read : Except ReadError (Token × List Char)) : Except ReadError Scan := do
  let s ← s.noteKey
  let (t, rest) ← read
  return ({ s with keyAllowed := false }.push t).moveTo rest

/-- A block of lines. -/
def block (s : Scan) (folded : Bool) (rest : List Char) : Except ReadError Scan := do
  let s ← { s with keyAllowed := true }.dropKey
  let (text, after) ← blockText folded s.indent rest
  return (s.push (.scalar false (String.ofList text))).moveTo after

/-- A plain text; one that ends on a line of its own allows a key behind it. -/
def plain (s : Scan) : Except ReadError Scan := do
  let s ← s.noteKey
  let (text, rest, crossed) := plainText s.inFlow s.indent s.cursor.rest
  return ({ s with keyAllowed := crossed }.push (.scalar true (String.ofList text))).moveTo rest

/-- Whether a plain text may begin here. -/
def beginsPlain (flow : Bool) (c : Char) (rest : List Char) : Bool :=
  !(isGap c || "-?:,[]\x7b\x7d#&*!|>'\"%@`".toList.contains c)
    || (!atGap rest && (c == '-' || (!flow && (c == '?' || c == ':'))))

/-- A text between quotes as a token. -/
def quotedToken (read : Except ReadError (List Char × List Char)) :
    Except ReadError (Token × List Char) :=
  read.map fun (text, rest) => (.scalar false (String.ofList text), rest)

/-- An anchor or alias as a token. -/
def anchorToken (make : String → Token) (rest : List Char) : Except ReadError (Token × List Char) :=
  (anchorName rest).map fun (word, after) => (make word, after)

/-- The token at the current place, which is not the end of the text. -/
def token (s : Scan) (c : Char) (rest : List Char) : Except ReadError Scan :=
  let all := c :: rest
  let atStart := s.cursor.column == 0
  let mark := s.inFlow || atGap rest
  if c == '%' && atStart then do
    let s ← s.endDocument
    let (t, after) ← directiveToken rest
    return (s.push t).moveTo after
  else if c == '-' && atStart && atDocumentMark all then do
    return ((← s.endDocument).push .documentStart).moveTo (rest.drop 2)
  else if c == '.' && atStart && atDocumentMark all then do
    return ((← s.endDocument).push .documentEnd).moveTo (rest.drop 2)
  else if c == '[' then s.openBracket .flowSequenceStart rest
  else if c == '{' then s.openBracket .flowMappingStart rest
  else if c == ']' then s.closeBracket .flowSequenceEnd rest
  else if c == '}' then s.closeBracket .flowMappingEnd rest
  else if c == ',' then s.comma rest
  else if c == '-' && atGap rest then s.blockMark .sequenceStart .entry true rest
  else if c == '?' && mark then s.blockMark .mappingStart .key (!s.inFlow) rest
  else if c == ':' && mark then s.colon rest
  else if c == '*' then s.keyLike (anchorToken .alias rest)
  else if c == '&' then s.keyLike (anchorToken .anchor rest)
  else if c == '!' then s.keyLike (tagToken all)
  else if c == '|' && !s.inFlow then s.block false rest
  else if c == '>' && !s.inFlow then s.block true rest
  else if c == '\'' then s.keyLike (quotedToken (singleQuoted (rest.length + 1) rest))
  else if c == '"' then s.keyLike (quotedToken (doubleQuoted (rest.length + 1) rest))
  else if beginsPlain s.inFlow c rest then s.plain
  else malformed

/-- **Adds the next tokens**; says whether they are the last. -/
def step (s : Scan) : Except ReadError (Scan × Bool) := do
  let s ← s.skipBlank.dropStaleKeys
  let s := s.unwind (Int.ofNat s.cursor.column)
  match s.cursor.rest with
  | [] => return ((← s.endDocument).push .textEnd, true)
  | c :: rest => return (← s.token c rest, false)

/-- Adds all tokens. -/
def run : Nat → Scan → Scan
  | 0, s => s.push (.failure (.malformed .yaml))
  | steps + 1, s =>
      match s.step with
      | .error e => s.push (.failure e)
      | .ok (next, true) => next
      | .ok (next, false) => run steps next

end Scan

/-- **The tokens of a text**, in order. -/
def Token.ofText (s : List Char) : List Token :=
  (Scan.run (s.length + 2) { cursor := { rest := s } }).tokens.reverse

end RuleCatalogue.Yaml
