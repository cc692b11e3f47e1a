import RuleCatalogue.Text.Substring

/-!
# Text encodings

Some encodings are worked out here: how one character is read, and what can be wrong with octets or
characters in any encoding.  `Encoding.front` looks at octets, of which there is at least one, and
says whether a character stands in front, whether more octets are needed to tell, or which octets
are wrong.

A file is decoded in pieces of a fixed size, so that the place of an error is counted from the
beginning of its piece.  Octets at the end of a piece that need more join the next one.  Encodings
that are read with a mark are written with one, also where the text is empty.

## Main definitions

* `Encoding` lists the encodings.
* `DecodeError` places octets that are no text; `EncodeError` places characters without octets.
* `Encoding.front` reads the character that stands in front of octets.
* `Encoding.decodeAll` decodes octets that are at hand together.
* `Encoding.decode` decodes the contents of a file.
* `Encoding.encode` gives the octets of a text.
* `Encoded` is what an encoder gives for a text that goes into a stream.

## Design notes

A text is a list of characters, that is, of Unicode scalar values.

A fault covers the octets that cannot belong to a character together, no more: an octet that
breaks off a sequence may itself begin a character.  Where octets are missing, the answer already
holds the fault that the end of the file would make of it.
-/

namespace RuleCatalogue

/-- The contents of a file. -/
abbrev Octets := List UInt8

/-- Which octet of a pair comes first. -/
inductive ByteOrder
  | little
  | big
deriving DecidableEq, Repr

/-- **A text encoding.**  `markedUtf8` has a byte order mark in front, which reading can do
without; `utf16` without a byte order takes it from the mark that it then must have. -/
inductive Encoding
  | utf8
  | markedUtf8
  | utf16 (order : Option ByteOrder)
  | ascii
  | latin1
  | windows1252
deriving DecidableEq, Repr

namespace Encoding

/-- The name of an encoding where octets are faulted; a mark makes no difference. -/
def label : Encoding → String
  | utf8 => "utf-8"
  | markedUtf8 => "utf-8"
  | utf16 (some .big) => "utf-16-be"
  | utf16 _ => "utf-16-le"
  | ascii => "ascii"
  | latin1 => "latin-1"
  | windows1252 => "charmap"

/-- Why a character has no octets in an encoding. -/
def lack : Encoding → String
  | ascii => "ordinal not in range(128)"
  | latin1 => "ordinal not in range(256)"
  | windows1252 => "character maps to <undefined>"
  | _ => "surrogates not allowed"

end Encoding

/-- **What is wrong with octets.** -/
inductive DecodeFault
  /-- No character begins so. -/
  | invalidStart
  /-- A character begins, but does not go on so. -/
  | invalidContinuation
  /-- A character begins, and the file ends. -/
  | unexpectedEnd
  /-- Half of a code unit, and the file ends. -/
  | truncated
  /-- The second half of a surrogate pair without the first. -/
  | loneTrail
  /-- The first half of a surrogate pair without the second. -/
  | loneLead
  /-- An octet above the range of the encoding. -/
  | outOfRange
  /-- An octet that stands for no character. -/
  | unassigned
deriving DecidableEq, Repr

/-- The wording of a fault. -/
def DecodeFault.message : DecodeFault → String
  | invalidStart => "invalid start byte"
  | invalidContinuation => "invalid continuation byte"
  | unexpectedEnd => "unexpected end of data"
  | truncated => "truncated data"
  | loneTrail => "illegal encoding"
  | loneLead => "illegal UTF-16 surrogate"
  | outOfRange => "ordinal not in range(128)"
  | unassigned => "character maps to <undefined>"

/-- The places from `position` on that `length` items take, in messages. -/
def placesText (position length : Nat) : String :=
  if length ≤ 1 then toString position
  else toString position ++ "-" ++ toString (position + length - 1)

/-- **Octets that are no text**, with their place among the octets looked at together. -/
structure DecodeError where
  /-- The name of the encoding. -/
  codec : String
  octets : Octets
  position : Nat
  reason : String
deriving DecidableEq, Repr

/-- The wording of an error; a single octet is shown. -/
def DecodeError.message (e : DecodeError) : String :=
  let what :=
    match e.octets with
    | [octet] => "byte 0x" ++ String.ofList (Text.hexDigits 2 octet.toNat)
    | _ => "bytes"
  "'" ++ e.codec ++ "' codec can't decode " ++ what ++ " in position "
    ++ placesText e.position e.octets.length ++ ": " ++ e.reason

/-- **Characters without octets**, with their place in the text. -/
structure EncodeError where
  /-- The name of the encoding. -/
  codec : String
  characters : List Char
  position : Nat
  reason : String
deriving DecidableEq, Repr

/-- A character by its code point. -/
def codePointText (c : Char) : String :=
  let code := c.toNat
  String.ofList
    (if code < 0x100 then '\\' :: 'x' :: Text.hexDigits 2 code
    else if code < 0x10000 then '\\' :: 'u' :: Text.hexDigits 4 code
    else '\\' :: 'U' :: Text.hexDigits 8 code)

/-- The wording of an error; a single character is shown. -/
def EncodeError.message (e : EncodeError) : String :=
  let what :=
    match e.characters with
    | [c] => "character '" ++ codePointText c ++ "'"
    | _ => "characters"
  "'" ++ e.codec ++ "' codec can't encode " ++ what ++ " in position "
    ++ placesText e.position e.characters.length ++ ": " ++ e.reason

/-! ## The front of octets -/

/-- **What stands in front.** -/
inductive Front
  /-- A character, and how many octets it takes after the first. -/
  | char (c : Char) (more : Nat)
  /-- Too few octets; if no others follow, so many have this fault. -/
  | incomplete (length : Nat) (fault : DecodeFault)
  /-- So many octets that have this fault. -/
  | broken (length : Nat) (fault : DecodeFault)
deriving DecidableEq, Repr

namespace Utf8

/-- An octet that goes on with a character. -/
def isTail (octet : UInt8) : Bool :=
  0x80 ≤ octet && octet ≤ 0xBF

/-- For the first octet of a character that has several: how many follow, and the least and the
greatest octet that may come next.  The bounds shut out overlong forms, surrogates and code points
that are too large. -/
def lead? (octet : UInt8) : Option (Nat × UInt8 × UInt8) :=
  if octet < 0xC2 then none
  else if octet < 0xE0 then some (1, 0x80, 0xBF)
  else if octet == 0xE0 then some (2, 0xA0, 0xBF)
  else if octet == 0xED then some (2, 0x80, 0x9F)
  else if octet < 0xF0 then some (2, 0x80, 0xBF)
  else if octet == 0xF0 then some (3, 0x90, 0xBF)
  else if octet < 0xF4 then some (3, 0x80, 0xBF)
  else if octet == 0xF4 then some (3, 0x80, 0x8F)
  else none

/-- The part of a code point that the first of several octets holds. -/
def leadBits (tails : Nat) (octet : UInt8) : Nat :=
  octet.toNat % Nat.pow 2 (6 - tails)

/-- The part of a code point that a following octet holds. -/
def tailBits (octet : UInt8) : Nat :=
  octet.toNat % 64

/-- Takes the octets that a character still needs: `length` octets have been taken, and `code` is
what they make. -/
def takeTails (length code : Nat) : Nat → Octets → Front
  | 0, _ => .char (Char.ofNat code) (length - 1)
  | _ + 1, [] => .incomplete length .unexpectedEnd
  | needed + 1, octet :: rest =>
      if isTail octet then takeTails (length + 1) (code * 64 + tailBits octet) needed rest
      else .broken length .invalidContinuation

/-- **The front of UTF-8.**  Half of a surrogate that is cut off counts as wrong only at the end of
the file. -/
def front (first : UInt8) (rest : Octets) : Front :=
  if first < 0x80 then .char (Char.ofNat first.toNat) 0
  else
    match lead? first with
    | none => .broken 1 .invalidStart
    | some (tails, least, greatest) =>
        match rest with
        | [] => .incomplete 1 .unexpectedEnd
        | second :: others =>
            if least ≤ second && second ≤ greatest then
              takeTails 2 (leadBits tails first * 64 + tailBits second) (tails - 1) others
            else if first == 0xED && isTail second && others.isEmpty then
              .incomplete 1 .invalidContinuation
            else .broken 1 .invalidContinuation

/-- The byte order mark. -/
def mark : Octets := [0xEF, 0xBB, 0xBF]

end Utf8

namespace Utf16

/-- The code unit of two octets. -/
def unit (order : ByteOrder) (first second : UInt8) : Nat :=
  match order with
  | .little => second.toNat * 256 + first.toNat
  | .big => first.toNat * 256 + second.toNat

/-- The octets of a code unit. -/
def octetsOf (order : ByteOrder) (unit : Nat) : Octets :=
  let high := UInt8.ofNat (unit / 256)
  let low := UInt8.ofNat (unit % 256)
  match order with
  | .little => [low, high]
  | .big => [high, low]

/-- **The front of UTF-16.** -/
def front (order : ByteOrder) (first : UInt8) (rest : Octets) : Front :=
  match rest with
  | [] => .incomplete 1 .truncated
  | second :: others =>
      let lead := unit order first second
      if Text.Surrogate.isLow lead then .broken 2 .loneTrail
      else if !Text.Surrogate.isHigh lead then .char (Char.ofNat lead) 1
      else
        match others with
        | third :: fourth :: _ =>
            let trail := unit order third fourth
            if Text.Surrogate.isLow trail then .char (Text.Surrogate.joined lead trail) 3
            else .broken 2 .loneLead
        | _ => .incomplete (2 + others.length) .unexpectedEnd

end Utf16

namespace Windows1252

/-- The code points of the octets from 80 to 9F; zero where an octet stands for none. -/
def upperControls : List Nat :=
  [0x20AC, 0, 0x201A, 0x0192, 0x201E, 0x2026, 0x2020, 0x2021,
   0x02C6, 0x2030, 0x0160, 0x2039, 0x0152, 0, 0x017D, 0,
   0, 0x2018, 0x2019, 0x201C, 0x201D, 0x2022, 0x2013, 0x2014,
   0x02DC, 0x2122, 0x0161, 0x203A, 0x0153, 0, 0x017E, 0x0178]

/-- The code point of an octet, if it stands for one. -/
def codePoint? (octet : UInt8) : Option Nat :=
  if octet < 0x80 || 0xA0 ≤ octet then some octet.toNat
  else (upperControls[octet.toNat - 0x80]?).filter (· != 0)

/-- The octet of a character, if it has one. -/
def octet? (c : Char) : Option UInt8 :=
  let code := c.toNat
  if code < 0x80 || (0xA0 ≤ code && code < 0x100) then some (UInt8.ofNat code)
  else (upperControls.idxOf? code).map fun i => UInt8.ofNat (0x80 + i)

end Windows1252

/-- **The front of octets in an encoding**; where a mark has not told the byte order, the lower
octet comes first. -/
def Encoding.front (encoding : Encoding) (first : UInt8) (rest : Octets) : Front :=
  match encoding with
  | utf8 => Utf8.front first rest
  | markedUtf8 => Utf8.front first rest
  | utf16 order => Utf16.front (order.getD .little) first rest
  | ascii =>
      if first < 0x80 then .char (Char.ofNat first.toNat) 0 else .broken 1 .outOfRange
  | latin1 => .char (Char.ofNat first.toNat) 0
  | windows1252 =>
      match Windows1252.codePoint? first with
      | some code => .char (Char.ofNat code) 0
      | none => .broken 1 .unassigned

end RuleCatalogue

/-! ## Whole files -/

namespace RuleCatalogue

/-! ## From octets to text -/

/-- **Why the contents of a file are no text.** -/
inductive DecodeFailure
  | undecodable (e : DecodeError)
  /-- No octets are at fault by their place. -/
  | unplaced (reason : String)
deriving DecidableEq, Repr

/-- The wording of a failure. -/
def DecodeFailure.message : DecodeFailure → String
  | undecodable e => e.message
  | unplaced reason => reason

namespace Encoding

/-- The error of so many octets in front. -/
def faultAt (encoding : Encoding) (octets : Octets) (length position : Nat) (fault : DecodeFault) :
    DecodeError :=
  ⟨encoding.label, octets.take length, position, fault.message⟩

/-- Decodes octets of which the first has this position, and gives the octets at the end that need
more; if nothing follows, they are an error. -/
def decodeFrom (encoding : Encoding) (isLast : Bool) (position : Nat) :
    Octets → Except DecodeError (List Char × Octets)
  | [] => .ok ([], [])
  | first :: rest =>
      match encoding.front first rest with
      | .char c more =>
          match decodeFrom encoding isLast (position + more + 1) (rest.drop more) with
          | .ok (cs, left) => .ok (c :: cs, left)
          | .error e => .error e
      | .incomplete length fault =>
          if isLast then .error (encoding.faultAt (first :: rest) length position fault)
          else .ok ([], first :: rest)
      | .broken length fault => .error (encoding.faultAt (first :: rest) length position fault)
termination_by octets => octets.length
decreasing_by
  simp only [List.length_drop, List.length_cons]; omega

/-- **Decodes octets that are at hand together.** -/
def decodeAll (encoding : Encoding) (octets : Octets) : Except DecodeError (List Char) :=
  (encoding.decodeFrom true 0 octets).map Prod.fst

/-- A piece of a file that has been decoded: its characters, the octets at its end that need more,
and the encoding of what follows, in which a mark no longer counts. -/
structure Piece where
  characters : List Char
  left : Octets
  next : Encoding

/-- Decodes a piece in an encoding that needs no mark. -/
def plainPiece (encoding : Encoding) (isLast : Bool) (position : Nat) (octets : Octets) :
    Except DecodeFailure Piece :=
  match encoding.decodeFrom isLast position octets with
  | .ok (cs, left) => .ok ⟨cs, left, encoding⟩
  | .error e => .error (.undecodable e)

/-- The byte order is to be taken from a mark, and there is none. -/
def noByteOrderMark : DecodeFailure :=
  .unplaced "UTF-16 stream does not start with BOM"

/-- **Decodes a piece.**  Nothing is decided while the octets could still become a mark, and a file
that ends before that is empty.  Behind a mark of UTF-8 positions are counted from the mark, behind
one of UTF-16 the mark counts. -/
def decodePiece (encoding : Encoding) (isLast : Bool) (octets : Octets) :
    Except DecodeFailure Piece :=
  match encoding with
  | markedUtf8 =>
      if octets.length < 3 && octets.isPrefixOf Utf8.mark then .ok ⟨[], octets, markedUtf8⟩
      else if Utf8.mark.isPrefixOf octets then plainPiece utf8 isLast 0 (octets.drop 3)
      else plainPiece utf8 isLast 0 octets
  | utf16 none =>
      match octets with
      | 0xFF :: 0xFE :: rest => plainPiece (utf16 (some .little)) isLast 2 rest
      | 0xFE :: 0xFF :: rest => plainPiece (utf16 (some .big)) isLast 2 rest
      | _ =>
          match plainPiece (utf16 none) isLast 0 octets with
          | .ok piece =>
              if piece.left.length = octets.length then .ok piece else .error noByteOrderMark
          | .error e => .error e
  | _ => plainPiece encoding isLast 0 octets

/-- The size of a piece. -/
def pieceSize : Nat := 8192

/-- Decodes piece after piece, the first together with octets that were left before. -/
def decodePieces (encoding : Encoding) (left : Octets) (octets : Octets) :
    Except DecodeFailure (List Char) :=
  if octets = [] then (encoding.decodePiece true left).map Piece.characters
  else
    match encoding.decodePiece false (left ++ octets.take pieceSize) with
    | .error e => .error e
    | .ok piece =>
        match decodePieces piece.next piece.left (octets.drop pieceSize) with
        | .error e => .error e
        | .ok cs => .ok (piece.characters ++ cs)
termination_by octets.length
decreasing_by
  have : octets.length ≠ 0 := fun h => ‹¬octets = []› (List.length_eq_zero_iff.mp h)
  simp only [List.length_drop, pieceSize]; omega

/-- **Decodes the contents of a file.** -/
def decode (encoding : Encoding) (octets : Octets) : Except DecodeFailure (List Char) :=
  encoding.decodePieces [] octets

end Encoding

/-! ## From text to octets -/

/-- **What an encoder gives for a text**: the octets that it puts out, and those that it holds back
until it is told that the text is at its end, if the text may end there. -/
structure Encoded where
  octets : Octets
  heldBack : Option Octets
deriving DecidableEq, Repr

namespace Encoded

/-- What an encoder gives that holds nothing back. -/
def ofWhole (octets : Octets) : Encoded :=
  ⟨octets, some []⟩

/-- The octets of the whole text. -/
def whole (encoded : Encoded) : Option Octets :=
  encoded.heldBack.map (encoded.octets ++ ·)

end Encoded

/-- **Why a text has no octets.** -/
inductive EncodeFailure
  | unencodable (e : EncodeError)
  /-- No characters are at fault by their place. -/
  | unplaced (reason : String)
deriving DecidableEq, Repr

/-- The wording of a failure. -/
def EncodeFailure.message : EncodeFailure → String
  | unencodable e => e.message
  | unplaced reason => reason

namespace Encoding

/-- What an encoding writes in front of a text. -/
def opening : Encoding → Octets
  | markedUtf8 => Utf8.mark
  | utf16 none => [0xFF, 0xFE]
  | _ => []

/-- The octets of a character in UTF-16. -/
def utf16Octets (order : ByteOrder) (c : Char) : Octets :=
  if c.toNat < 0x10000 then Utf16.octetsOf order c.toNat
  else
    Utf16.octetsOf order (Text.Surrogate.high c) ++ Utf16.octetsOf order (Text.Surrogate.low c)

/-- The octets of a character, if it has any. -/
def octets? (encoding : Encoding) (c : Char) : Option Octets :=
  match encoding with
  | utf8 => some (String.utf8EncodeChar c)
  | markedUtf8 => some (String.utf8EncodeChar c)
  | utf16 order => some (utf16Octets (order.getD .little) c)
  | ascii => if c.toNat < 0x80 then some [UInt8.ofNat c.toNat] else none
  | latin1 => if c.toNat < 0x100 then some [UInt8.ofNat c.toNat] else none
  | windows1252 => (Windows1252.octet? c).map ([·])

/-- The octets of characters of which the first has this position. -/
def encodeFrom (encoding : Encoding) (position : Nat) : List Char → Except EncodeError Octets
  | [] => .ok []
  | c :: rest =>
      match encoding.octets? c with
      | some octets =>
          match encodeFrom encoding (position + 1) rest with
          | .ok others => .ok (octets ++ others)
          | .error e => .error e
      | none =>
          .error
            { codec := encoding.label
              characters := c :: rest.takeWhile fun c => (encoding.octets? c).isNone
              position
              reason := encoding.lack }

/-- **The octets of a text.** -/
def encode (encoding : Encoding) (text : List Char) : Except EncodeError Octets :=
  (encoding.encodeFrom 0 text).map (encoding.opening ++ ·)

end Encoding

end RuleCatalogue
