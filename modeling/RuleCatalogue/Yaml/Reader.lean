import RuleCatalogue.Calendar
import RuleCatalogue.Decimal
import RuleCatalogue.Text.Substring
import RuleCatalogue.Yaml.Tree

/-!
# Reading YAML

The value of a tree is given by its tags.  A scalar with a tag must have the form of its kind.

## Design notes

A mapping may have keys that are no texts; it is a table only where all keys are.  When several
parts of a tree have no value, the one that is least deep counts, and among these the first.
-/

namespace RuleCatalogue.Yaml

/-- **A value, or the error that counts and how deep it lies.** -/
abbrev Outcome (α : Type) := Except (Nat × ReadError) α

namespace Outcome

/-- Two results, or the less deep error. -/
def both {α β : Type} (a : Outcome α) (b : Outcome β) : Outcome (α × β) :=
  match a, b with
  | .ok x, .ok y => .ok (x, y)
  | .error (n, e), .error (m, f) => if n ≤ m then .error (n, e) else .error (m, f)
  | .error e, .ok _ => .error e
  | .ok _, .error e => .error e

/-- A result whose error lies at a level. -/
def atLevel {α : Type} (level : Nat) (r : Except ReadError α) : Outcome α :=
  r.mapError fun e => (level, e)

end Outcome

/-! ## Scalars -/

/-- The scalar without underscores, its sign taken off. -/
def signedDigits (text : String) : Bool × List Char :=
  Decimal.takeSign (text.toList.filter (· != '_'))

/-- The number of groups of sixty, the last one first. -/
def ofSixties (groups : List Int) : Int :=
  groups.foldl (fun n group => n * 60 + group) 0

/-- **An integer** in base two, eight, ten or sixteen, or in groups of sixty. -/
def intValue (text : String) : Except ReadError Int := do
  if (text.toList.filter (· != '_')).isEmpty then .error .emptyNumber
  let (negative, digits) := signedDigits text
  let parse (base : Nat) (cs : List Char) := Decimal.parseInteger base (String.ofList cs)
  let n ←
    match digits with
    | [] => .error .emptyNumber
    | ['0'] => .ok 0
    | '0' :: 'b' :: rest => parse 2 rest
    | '0' :: 'x' :: rest => parse 16 rest
    | '0' :: _ => parse 8 digits
    | _ =>
        if digits.contains ':' then
          return ofSigned negative
            (ofSixties (← (Text.splitWhere (· == ':') digits).mapM (parse 10)))
        else parse 10 digits
  return ofSigned negative n
where
  /-- A number with its sign. -/
  ofSigned (negative : Bool) (n : Int) : Int := if negative then -n else n

/-- The number that a numeral without groups is. -/
def plainFloat (cs : List Char) : Except ReadError Float :=
  let text := String.ofList cs
  match Decimal.parseFloat? text with
  | some x => .ok x
  | none => .error (.notNumber text)

/-- What no number reaches. -/
def floatLimit : Nat := Nat.pow 2 1024

/-- The number of groups of sixty, the last one first, and what the groups behind them make; `base`
is what one in the first group counts. -/
def floatOfSixties : List Float → Nat → Float → Except ReadError Float
  | [], _, total => .ok total
  | group :: rest, base, total =>
      if floatLimit ≤ base then .error .hugeNumber
      else floatOfSixties rest (base * 60) (total + group * Decimal.toFloat base 0)

/-- **A number**, with a fraction, or one that is none. -/
def floatValue (text : String) : Except ReadError Float := do
  if (text.toList.filter (· != '_')).isEmpty then .error .emptyNumber
  let (negative, signed) := signedDigits text
  let digits := signed.map Char.toLower
  let x ←
    if digits == ".inf".toList then .ok (1.0 / 0.0)
    else if digits == ".nan".toList then .ok (0.0 / 0.0)
    else if digits.contains ':' then do
      let groups ← (Text.splitWhere (· == ':') digits).mapM plainFloat
      floatOfSixties groups.reverse 1 0.0
    else plainFloat digits
  return if negative then -x else x

/-- **A truth value**: one of six words, in any case. -/
def boolValue (text : String) : Except ReadError Bool :=
  let word := String.ofList (text.toList.map Char.toLower)
  match PlainKind.truthWords.lookup word with
  | some b => .ok b
  | none => .error (.notTruthValue word)

/-- The number of digits. -/
def numberOf (digits : List Char) : Nat :=
  Decimal.ofDigits 10 digits

/-- An offset of a sign, hours and minutes in seconds; it must be shorter than a day. -/
def zoneOffset (sign : Char) (hours minutes : List Char) : Except ReadError Int :=
  let seconds := Int.ofNat (numberOf hours * 3600 + numberOf minutes * 60)
  let signed := if sign == '-' then -seconds else seconds
  if 86400 ≤ seconds then
    .error (.noSuchTime ("offset must be a timedelta strictly between -timedelta(hours=24) and "
      ++ "timedelta(hours=24), not " ++ offsetText signed ++ "."))
  else .ok signed

/-- **A date, or a date with a time.** -/
def timestampValue (text : String) : Except ReadError Value :=
  match PlainKind.stamp? (PlainKind.withoutFinalBreak text.toList) with
  | none => .error .notTimestamp
  | some stamp => do
      let date : Date := ⟨numberOf stamp.year, numberOf stamp.month, numberOf stamp.day⟩
      match stamp.time with
      | none =>
          match date.problem? with
          | some reason => .error (.noSuchTime reason)
          | none => return date.toValue
      | some (hour, minute, second) => do
          let six := (stamp.fraction ++ List.replicate 6 '0').take 6
          let time : TimeOfDay := ⟨numberOf hour, numberOf minute, numberOf second, numberOf six⟩
          let offset ←
            match stamp.zone with
            | none => pure none
            | some none => pure (some 0)
            | some (some (sign, hours, minutes)) => some <$> zoneOffset sign hours minutes
          match date.problem?.or time.problem? with
          | some reason => .error (.noSuchTime reason)
          | none => return momentValue date time offset

/-- The value of a character of base sixty-four. -/
def sextet? (c : Char) : Option Nat :=
  if 'A' ≤ c ∧ c ≤ 'Z' then some (c.toNat - 'A'.toNat)
  else if 'a' ≤ c ∧ c ≤ 'z' then some (c.toNat - 'a'.toNat + 26)
  else if '0' ≤ c ∧ c ≤ '9' then some (c.toNat - '0'.toNat + 52)
  else if c = '+' then some 62
  else if c = '/' then some 63
  else none

/-- The octets of characters of base sixty-four; a group cut short needs its padding. -/
def octets : List Char → Option (List Nat)
  | [] => some []
  | [_] => none
  | a :: b :: rest => do
      let first ← sextet? a
      let second ← sextet? b
      let head := first * 4 + second / 16
      match rest with
      | ['=', '='] => return [head]
      | [c, '='] => return [head, second % 16 * 16 + (← sextet? c) / 4]
      | c :: d :: more => do
          let third ← sextet? c
          let fourth ← sextet? d
          return head :: (second % 16 * 16 + third / 4) :: (third % 4 * 64 + fourth)
            :: (← octets more)
      | _ => none

/-- One octet as messages show it. -/
def octetText (quote : Char) (n : Nat) : List Char :=
  let c := Char.ofNat n
  if c == quote || c == '\\' then ['\\', c]
  else if c == '\n' then ['\\', 'n']
  else if c == '\r' then ['\\', 'r']
  else if c == '\t' then ['\\', 't']
  else if 0x20 ≤ n ∧ n < 0x7F then [c]
  else '\\' :: 'x' :: Text.hexDigits 2 n

/-- **Octets** written in base sixty-four; characters outside of it do not count. -/
def binaryValue (text : String) : Except ReadError Value :=
  if text.toList.any fun c => 0x80 ≤ c.toNat then malformed
  else
    match octets (text.toList.filter fun c => (sextet? c).isSome || c == '=') with
    | none => malformed
    | some bytes =>
        let quote := Text.quoteFor (bytes.map Char.ofNat)
        let shown := 'b' :: quote :: bytes.flatMap (octetText quote) ++ [quote]
        .ok (.other "bytes" (String.ofList shown))

/-- **How the text of a scalar is read**; nothing for a tag that scalars have not. -/
def scalarReader? (kind : String) : Option (String → Except ReadError Value) :=
  match kind with
  | "str" => some fun text => .ok (.text text)
  | "null" => some fun _ => .ok .null
  | "bool" => some fun text => (boolValue text).map .bool
  | "int" => some fun text => (intValue text).map .int
  | "float" => some fun text => (floatValue text).map .float
  | "timestamp" => some timestampValue
  | "binary" => some binaryValue
  | _ => none

/-- Whether a tree is a mapping. -/
def Tree.isMapping (anchors : Anchors) (t : Tree) : Bool :=
  match t.target anchors with
  | .mapping _ _ _ => true
  | _ => false

/-- **The value of a tree that is marked as a scalar.**  A point in time is looked for in the tree
itself, and a mapping is not even a text. -/
def scalarValue (anchors : Anchors) (steps : Nat) (kind : String)
    (read : String → Except ReadError Value) (t : Tree) : Except ReadError Value := do
  let text ← t.scalarText anchors steps
  if kind == "timestamp" && t.isMapping anchors then .error .mappingAsTimestamp else read text

/-! ## Collections -/

/-- The end of a tag of the language; nothing for any other tag. -/
def kindOf? (tag : String) : Option String :=
  if Text.startsWith tagStart tag then some (String.ofList (tag.toList.drop tagStart.length))
  else none

/-- A truth value or an integer as an integer. -/
def wholeNumber? : Value → Option Int
  | .int n => some n
  | .bool b => some (if b then 1 else 0)
  | _ => none

/-- Whether two keys are one. -/
def sameKey (a b : Value) : Bool :=
  match a, b with
  | .null, .null => true
  | .text s, .text t => s == t
  | .float x, .float y => x == y
  | .float x, _ => (wholeNumber? b).any fun n => x == Float.ofInt n
  | _, .float y => (wholeNumber? a).any fun n => y == Float.ofInt n
  | .other k s, .other l t => k == l && s == t
  | _, _ =>
      match wholeNumber? a, wholeNumber? b with
      | some n, some m => n == m
      | _, _ => false

/-- Replaces the value at a key, or adds the key at the end. -/
def insertEntry (key v : Value) : List (Value × Value) → List (Value × Value)
  | [] => [(key, v)]
  | (k, old) :: rest =>
      if sameKey k key then (k, v) :: rest else (k, old) :: insertEntry key v rest

/-- The entries that pairs leave, inserted one after another. -/
def entriesOf (pairs : List (Value × Value)) : List (Value × Value) :=
  pairs.foldl (fun entries (key, v) => insertEntry key v entries) []

/-- A mapping as a table, if all its keys are texts. -/
def ofEntries (entries : List (Value × Value)) : Value :=
  let fields := Value.textFields entries
  if fields.length = entries.length then .table fields else .mapping entries

/-- The text of a set in messages. -/
def setText (keys : List Value) : String :=
  if keys.isEmpty then "set()" else Value.enclose "\x7b" (keys.map Value.shown) "\x7d"

/-- The values of several trees. -/
def allOf {α : Type} (values : List (Outcome α)) : Outcome (List α) :=
  values.foldr (fun v rest => (Outcome.both v rest).map fun (x, xs) => x :: xs) (.ok [])

/-- **What is known around a tree**: the trees of all anchors, those of the mappings around it with
their pairs merged, and the anchors of the collections around it. -/
structure Surroundings where
  anchors : Anchors
  above : List String := []

/-- The surroundings of the parts of a collection. -/
def Surroundings.enter (around : Surroundings) (t : Tree) : Surroundings :=
  match t.anchor? with
  | none => around
  | some anchor =>
      { anchors := (anchor, t) :: around.anchors, above := anchor :: around.above }

/-- The kinds of collections. -/
def collectionKinds : List String :=
  ["seq", "omap", "pairs", "map", "set"]

/-- Whether a tree is marked as a collection, so that it is no key. -/
def isCollection (anchors : Anchors) (t : Tree) : Bool :=
  (kindOf? (t.tag anchors)).any collectionKinds.contains

/-- A pair of which the key must be one that keys can be. -/
def keyed (isKey : Bool) (level : Nat) (key v : Outcome Value) : Outcome (Value × Value) :=
  if isKey then Outcome.both key v else .error (level, .malformed .yaml)

/-- The text of a pair in messages. -/
def pairValue (entry : Value × Value) : Value :=
  .other "tuple" (Value.enclose "(" [entry.1.shown, entry.2.shown] ")")

/-- A collection inside of itself. -/
def cutValue (anchors : Anchors) (t : Tree) : Value :=
  if t.isMapping anchors then .other "dict" "\x7b...\x7d" else .other "list" "[...]"

section Parts

variable (inside : Surroundings → Tree → Outcome Value) (around : Surroundings) (level : Nat)

/-- The entries of a mapping with these pairs, of which the parts are read at a level. -/
def pairEntries (pairs : List (Tree × Tree)) : Outcome (List (Value × Value)) :=
  (allOf (pairs.map fun (key, v) =>
    keyed (!isCollection around.anchors key) level (inside around key) (inside around v))).map
      entriesOf

/-- The entries of a mapping, with those that it merges. -/
def mergedEntries (steps : Nat) (t : Tree) (pairs : List (Tree × Tree)) :
    Outcome (List (Value × Value)) :=
  match Tree.mergedPairs around.anchors steps t.anchor?.toList pairs with
  | .error e => .error (level, e)
  | .ok pairs =>
      let mapping := Tree.mapping t.anchor? (t.tag around.anchors) pairs
      pairEntries inside (around.enter mapping) level pairs

/-- The entry of an item that is a mapping of one pair.  If that is a mapping around the sequence,
then the sequence is in the value of the pair, because it cannot be in the key. -/
def singleEntry (item : Tree) : Outcome (Value × Value) :=
  match item.target around.anchors, item with
  | .mapping _ _ [(key, v)], .loop _ =>
      (inside around key).map fun k => (k, cutValue around.anchors v)
  | .mapping _ _ [(key, v)], _ =>
      Outcome.both (inside (around.enter item) key) (inside (around.enter item) v)
  | _, _ => .error (level, .malformed .yaml)

/-- The value of a collection of a kind. -/
def collectionValue (steps : Nat) (kind : String) (t : Tree) : Outcome Value :=
  match kind, t with
  | "seq", .sequence _ _ items => (allOf (items.map (inside (around.enter t)))).map .list
  | "omap", .sequence _ _ items =>
      (allOf (items.map (singleEntry inside (around.enter t) level))).map fun entries =>
        .list (entries.map pairValue)
  | "pairs", .sequence _ _ items =>
      (allOf (items.map (singleEntry inside (around.enter t) level))).map fun entries =>
        .list (entries.map pairValue)
  | "map", .mapping _ _ pairs =>
      (mergedEntries inside around level steps t pairs).map ofEntries
  | "set", .mapping _ _ pairs =>
      (mergedEntries inside around level steps t pairs).map fun entries =>
        .other "set" (setText (entries.map Prod.fst))
  | _, _ => .error (if collectionKinds.contains kind then level else level - 1, .malformed .yaml)

end Parts

/-- **The value of a tree** at a level.  The number bounds the depth. -/
def valueOf : Nat → Surroundings → Nat → Tree → Outcome Value
  | 0, _, level, _ => .error (level, .malformed .yaml)
  | steps + 1, around, level, t =>
      if t.isAmong around.above then .ok (cutValue around.anchors t)
      else
        match kindOf? (t.tag around.anchors) with
        | none => .error (level, .malformed .yaml)
        | some kind =>
            match scalarReader? kind, t with
            | some read, _ =>
                Outcome.atLevel level (scalarValue around.anchors (steps + 1) kind read t)
            | none, .loop _ => valueOf steps around level (t.target around.anchors)
            | none, _ =>
                collectionValue (fun around t => valueOf steps around (level + 1) t) around
                  (level + 1) steps kind t

/-- **The value of a YAML text**; nothing where the text holds no document. -/
def parse (s : String) : Except ReadError Value := do
  let chars := s.toList
  if !chars.all isAllowed then malformed
  let tokens := Token.ofText chars
  match ← Node.ofTokens? tokens with
  | none => return .null
  | some n => do
      let (t, anchors) ← Tree.ofNode [] n
      match valueOf ((tokens.length + 2) * (tokens.length + 2)) { anchors } 0 t with
      | .ok v => return v
      | .error (_, e) => .error e

end RuleCatalogue.Yaml
