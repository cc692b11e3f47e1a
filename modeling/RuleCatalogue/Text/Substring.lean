import RuleCatalogue.Text.Character

/-!
# Parts of texts, and texts in messages

Texts are lists of characters here.  Searching goes from the left, and replaced occurrences never
overlap: after one is found the search goes on behind it.

A character beyond the basic plane is written in UTF-16, and in the escapes of some texts, as two
surrogates: the high one holds its upper ten bits, the low one its lower ten.  A surrogate on its
own is no character.

A message shows a text between quotes, so that blanks and controls in it can be seen.  The quote
is the apostrophe unless the text has an apostrophe and no double quote; characters that are not
printable are written by their code points.
-/

/-! ## Finding and replacing parts of a text -/

namespace RuleCatalogue.Text

/-- **Replacement.**  Every occurrence of the non-empty text `old`, found from the left without
overlap, becomes `new`. -/
def replaceAll (old new : List Char) : List Char → List Char
  | [] => []
  | c :: rest =>
      if old.isPrefixOf (c :: rest) then
        new ++ replaceAll old new (rest.drop (old.length - 1))
      else
        c :: replaceAll old new rest
termination_by s => s.length
decreasing_by
  all_goals simp only [List.length_drop, List.length_cons]; omega

/-- What stands before the first occurrence of `mark` and what stands behind it. -/
def splitAtFirst? (mark : List Char) : List Char → Option (List Char × List Char)
  | [] => if mark.isEmpty then some ([], []) else none
  | c :: rest =>
      if mark.isPrefixOf (c :: rest) then
        some ([], (c :: rest).drop mark.length)
      else
        (splitAtFirst? mark rest).map fun (before, after) => (c :: before, after)

/-- The text without `ending`, if it ends so, and else the text itself. -/
def dropEnding (ending s : List Char) : List Char :=
  if ending.isSuffixOf s then s.take (s.length - ending.length) else s

/-- The pieces between the characters that satisfy `isMark`; there is one piece more than marks. -/
def splitWhere (isMark : Char → Bool) : List Char → List (List Char)
  | [] => [[]]
  | c :: rest =>
      if isMark c then
        [] :: splitWhere isMark rest
      else
        match splitWhere isMark rest with
        | [] => [[c]]
        | piece :: pieces => (c :: piece) :: pieces

/-- Whether the string `s` begins with `start`. -/
def startsWith (start s : String) : Bool :=
  start.toList.isPrefixOf s.toList

/-- Strings written one after another with `separator` between neighbours. -/
def join (separator : String) : List String → String
  | [] => ""
  | s :: rest => rest.foldl (fun text next => text ++ separator ++ next) s

end RuleCatalogue.Text

/-! ## Surrogates -/

namespace RuleCatalogue.Text.Surrogate

/-- Whether a code point is a high surrogate. -/
def isHigh (code : Nat) : Bool := 0xD800 ≤ code && code < 0xDC00

/-- Whether a code point is a low surrogate. -/
def isLow (code : Nat) : Bool := 0xDC00 ≤ code && code < 0xE000

/-- Whether a code point is a surrogate. -/
def isEither (code : Nat) : Bool := isHigh code || isLow code

/-- The high surrogate of a character beyond the basic plane. -/
def high (c : Char) : Nat := 0xD800 + (c.toNat - 0x10000) / 0x400

/-- The low surrogate of a character beyond the basic plane. -/
def low (c : Char) : Nat := 0xDC00 + (c.toNat - 0x10000) % 0x400

/-- **The character of two surrogates.** -/
def joined (high low : Nat) : Char :=
  Char.ofNat (0x10000 + (high - 0xD800) * 0x400 + (low - 0xDC00))

/-- No character is a surrogate. -/
theorem isEither_toNat (c : Char) : isEither c.toNat = false := by
  have hvalid : c.toNat < 0xD800 ∨ 0xE000 ≤ c.toNat := by
    rcases c.valid with h | h
    · exact Or.inl h
    · exact Or.inr h.1
  simp only [isEither, isHigh, isLow, Bool.or_eq_false_iff, Bool.and_eq_false_iff,
    decide_eq_false_iff_not]
  omega

/-- The code points of characters are bounded. -/
theorem toNat_lt (c : Char) : c.toNat < 0x110000 := by
  rcases c.valid with h | h
  · exact Nat.lt_trans h (by decide)
  · exact h.2

end RuleCatalogue.Text.Surrogate

/-! ## Quoted texts in messages -/

namespace RuleCatalogue.Text

/-- The last `width` digits of `n` in base sixteen, in lower case. -/
def hexDigits (width n : Nat) : List Char :=
  let digits := Nat.toDigits 16 n
  List.replicate (width - digits.length) '0' ++ digits

/-- **The quote of a text**: the one that saves escapes, the apostrophe where neither does. -/
def quoteFor (s : List Char) : Char :=
  if s.contains '\'' && !s.contains '"' then '"' else '\''

/-- One character inside a quoted text. -/
def quotedChar (quote c : Char) : List Char :=
  if c == quote || c == '\\' then ['\\', c]
  else if c == '\n' then ['\\', 'n']
  else if c == '\r' then ['\\', 'r']
  else if c == '\t' then ['\\', 't']
  else if isPrintable c then [c]
  else if c.toNat < 0x100 then '\\' :: 'x' :: hexDigits 2 c.toNat
  else if c.toNat < 0x10000 then '\\' :: 'u' :: hexDigits 4 c.toNat
  else '\\' :: 'U' :: hexDigits 8 c.toNat

/-- A text between its quotes. -/
def quoted (s : String) : String :=
  let quote := quoteFor s.toList
  String.ofList (quote :: s.toList.flatMap (quotedChar quote) ++ [quote])

end RuleCatalogue.Text
