import RuleCatalogue.Decimal
import RuleCatalogue.Value

/-!
# Message templates

A message may have places to be filled with values.  A place begins with a percent sign and ends
with a letter that says how the value is written; between them may stand the name of the value,
flags, a width and a precision.  Two percent signs together stand for one.

## Main definitions

* `Template.parts?` splits a template into characters and places.
* `Template.fill?` fills the places of a template; it fails where a place and its value do not
  suit each other, and where there are too few or too many values.
-/

namespace RuleCatalogue.Template

/-- **A width or a precision**: none, a number, or a value of its own. -/
inductive Amount
  | none
  | given (n : Nat)
  | fromValue
deriving DecidableEq, Repr

/-- **A place in a template.** -/
structure Slot where
  /-- The name of the value, if it has one. -/
  key : Option String
  flags : List Char
  width : Amount
  /-- The precision; `given 0` if there is only a point. -/
  precision : Amount
  /-- The letter that says how the value is written. -/
  conversion : Char
deriving DecidableEq, Repr

/-- **A part of a template.** -/
inductive Part
  | character (c : Char)
  | slot (s : Slot)
deriving DecidableEq, Repr

/-- The largest width and precision. -/
def maxAmount : Nat := 2147483647

/-- The name up to the bracket that closes it, and what follows. -/
def takeKey : Nat → List Char → Option (List Char × List Char)
  | _, [] => none
  | depth, c :: rest =>
      if c = ')' && depth = 0 then some ([], rest)
      else
        let next := if c = ')' then depth - 1 else if c = '(' then depth + 1 else depth
        (takeKey next rest).map fun (key, more) => (c :: key, more)

theorem length_takeKey {depth : Nat} {s key rest : List Char}
    (h : takeKey depth s = some (key, rest)) : rest.length < s.length := by
  induction s generalizing depth key with
  | nil => simp [takeKey] at h
  | cons c s ih =>
      simp only [takeKey] at h
      split at h
      · simp only [Option.some.injEq, Prod.mk.injEq] at h
        simp [← h.2]
      · obtain ⟨⟨k, r⟩, found, e⟩ := Option.map_eq_some_iff.mp h
        simp only [Prod.mk.injEq] at e
        obtain ⟨_, rfl⟩ := e
        have shorter : r.length < s.length := ih found
        simp only [List.length_cons]
        omega

/-- The name in brackets, if there is one, and what follows. -/
def takeName : List Char → Option (Option String × List Char)
  | '(' :: rest => (takeKey 0 rest).map fun (key, more) => (some (String.ofList key), more)
  | s => some (none, s)

theorem length_takeName {s rest : List Char} {name : Option String}
    (h : takeName s = some (name, rest)) : rest.length ≤ s.length := by
  unfold takeName at h
  split at h
  · obtain ⟨⟨k, r⟩, found, e⟩ := Option.map_eq_some_iff.mp h
    simp only [Prod.mk.injEq] at e
    have shorter := length_takeKey found
    simp only [← e.2, List.length_cons]
    omega
  · simp only [Option.some.injEq, Prod.mk.injEq] at h
    simp [← h.2]

/-- Whether a character is a flag. -/
def isFlag (c : Char) : Bool :=
  c = '-' || c = '+' || c = ' ' || c = '#' || c = '0'

/-- A width or a precision, and what follows. -/
def takeAmount : List Char → Amount × List Char
  | '*' :: rest => (.fromValue, rest)
  | s =>
      let digits := s.takeWhile Char.isDigit
      (if digits.isEmpty then .none else .given (Decimal.ofDigits 10 digits),
        s.dropWhile Char.isDigit)

theorem length_takeAmount (s : List Char) : (takeAmount s).2.length ≤ s.length := by
  unfold takeAmount
  split
  · simp
  · exact (List.dropWhile_suffix _).length_le

/-- A precision behind its point, and what follows. -/
def takePrecision : List Char → Amount × List Char
  | '.' :: rest =>
      match takeAmount rest with
      | (.none, more) => (.given 0, more)
      | other => other
  | s => (.none, s)

theorem length_takePrecision (s : List Char) : (takePrecision s).2.length ≤ s.length := by
  unfold takePrecision
  split
  · rename_i rest
    have shorter := length_takeAmount rest
    split
    · rename_i heq
      simp only [heq] at shorter
      simp only [List.length_cons]
      omega
    · simp only [List.length_cons]
      omega
  · simp

/-- Leaves out a letter that says how large a number is, which says nothing. -/
def dropSize : List Char → List Char
  | c :: rest => if c = 'h' || c = 'l' || c = 'L' then rest else c :: rest
  | [] => []

theorem length_dropSize (s : List Char) : (dropSize s).length ≤ s.length := by
  unfold dropSize
  split
  · split <;> simp
  · simp

/-- **A place behind its percent sign**, and what follows. -/
def takeSlot (s : List Char) : Option (Slot × List Char) :=
  match takeName s with
  | none => none
  | some (key, s) =>
      let flags := s.takeWhile isFlag
      let (width, s) := takeAmount (s.dropWhile isFlag)
      let (precision, s) := takePrecision s
      match dropSize s with
      | [] => none
      | conversion :: rest => some (⟨key, flags, width, precision, conversion⟩, rest)

theorem length_takeSlot {s rest : List Char} {slot : Slot}
    (h : takeSlot s = some (slot, rest)) : rest.length < s.length := by
  unfold takeSlot at h
  split at h
  · simp at h
  · rename_i key t found
    have named := length_takeName found
    have flagged := (List.dropWhile_suffix isFlag (l := t)).length_le
    have wide := length_takeAmount (t.dropWhile isFlag)
    have precise := length_takePrecision (takeAmount (t.dropWhile isFlag)).2
    have sized := length_dropSize (takePrecision (takeAmount (t.dropWhile isFlag)).2).2
    simp only at h
    split at h
    · simp at h
    · rename_i heq
      simp only [Option.some.injEq, Prod.mk.injEq] at h
      rw [heq, List.length_cons, h.2] at sized
      omega

/-- **The parts of a template**, unless a place has no end. -/
def parts? : List Char → Option (List Part)
  | [] => some []
  | '%' :: '%' :: rest => (parts? rest).map (.character '%' :: ·)
  | c :: rest =>
      if c = '%' then
        match _h : takeSlot rest with
        | none => none
        | some (slot, more) => (parts? more).map (.slot slot :: ·)
      else (parts? rest).map (.character c :: ·)
termination_by s => s.length
decreasing_by
  · simp only [List.length_cons]
    omega
  · have := length_takeSlot _h
    simp only [List.length_cons]
    omega
  · simp

/-- **The values that are still to be taken**: those of a sequence, or a single one. -/
inductive Supply
  | sequence (values : List Value)
  | single (v : Option Value)

/-- The next value, and those after it. -/
def Supply.next? : Supply → Option (Value × Supply)
  | sequence (v :: rest) => some (v, sequence rest)
  | sequence [] => none
  | single (some v) => some (v, single none)
  | single none => none

/-- Whether all values of a sequence have been taken. -/
def Supply.isSpent : Supply → Bool
  | sequence values => values.isEmpty
  | single _ => true

/-- What a place needs beside its value: its flags, its width and its precision as numbers. -/
structure Layout where
  leftAligned : Bool
  plusSign : Bool
  blankSign : Bool
  alternate : Bool
  zeroFilled : Bool
  width : Nat
  precision : Option Nat
deriving DecidableEq, Repr

/-- **What is written for a value**, in parts between which zeros may be filled in. -/
structure Written where
  isNumber : Bool
  sign : List Char
  mark : List Char
  body : List Char
deriving DecidableEq, Repr

/-- What is written for a text, of which the precision is the length. -/
def Written.ofText (layout : Layout) (s : String) : Written :=
  ⟨false, [], [], match layout.precision with
    | some n => s.toList.take n
    | none => s.toList⟩

/-- The sign of a number. -/
def signOf (layout : Layout) (negative : Bool) : List Char :=
  if negative then ['-'] else if layout.plusSign then ['+']
  else if layout.blankSign then [' '] else []

/-- What is written for a whole number, of which the precision is the least number of digits. -/
def Written.ofInt (layout : Layout) (base : Nat) (mark : List Char) (n : Int) : Written :=
  let digits := Decimal.padded (layout.precision.getD 0) (Nat.toDigits base n.natAbs)
  ⟨true, signOf layout (decide (n < 0)), if layout.alternate then mark else [], digits⟩

/-- What is written for a floating-point number. -/
def Written.ofFloat (layout : Layout) (text : Decimal.Binary → Nat → Bool → List Char) (x : Float) :
    Written :=
  let negative := !x.isNaN && Decimal.isNegative x
  let body :=
    if x.isNaN then "nan".toList else if x.isInf then "inf".toList
    else text (Decimal.Binary.ofFloat x) (layout.precision.getD 6) layout.alternate
  ⟨true, signOf layout negative, [], body⟩

/-- The same in capitals. -/
def Written.capital (w : Written) : Written :=
  { w with mark := w.mark.map Char.toUpper, body := w.body.map Char.toUpper }

/-- **Fills up to the width**: with blanks before or behind, or with zeros behind the sign. -/
def Written.layOut (layout : Layout) (w : Written) : List Char :=
  let missing := layout.width - (w.sign.length + w.mark.length + w.body.length)
  let head := w.sign ++ w.mark
  if layout.leftAligned then head ++ w.body ++ List.replicate missing ' '
  else if layout.zeroFilled && w.isNumber then head ++ List.replicate missing '0' ++ w.body
  else List.replicate missing ' ' ++ head ++ w.body

/-- The whole number of a value, of a floating-point number what stands before its point. -/
def wholeNumber? : Value → Option Int
  | .int n => some n
  | .bool b => some (if b then 1 else 0)
  | .float x =>
      if x.isNaN || x.isInf then none
      else
        let (num, den) := (Decimal.Binary.ofFloat x).toFraction
        let n := Int.ofNat (num / den)
        some (if Decimal.isNegative x then -n else n)
  | _ => none

/-- The whole number of a value that is one. -/
def exactNumber? : Value → Option Int
  | .float _ => none
  | v => wholeNumber? v

/-- The floating-point number of a value, unless it is too large for one. -/
def floatNumber? : Value → Option Float
  | .float x => some x
  | v => (wholeNumber? v).bind fun n =>
      let x := Float.ofInt n
      if x.isInf then none else some x

/-- The character that a value is, or whose code point it is. -/
def character? : Value → Option Char
  | .text s =>
      match s.toList with
      | [c] => some c
      | _ => none
  | v => (exactNumber? v).bind fun n =>
      if 0 ≤ n && n.toNat.isValidChar then some (Char.ofNat n.toNat) else none

/-- A text in ASCII, with the other characters by their code points. -/
def asciiText (s : String) : String :=
  String.ofList (s.toList.flatMap fun c =>
    if c.toNat < 128 then [c]
    else if c.toNat < 0x100 then '\\' :: 'x' :: Text.hexDigits 2 c.toNat
    else if c.toNat < 0x10000 then '\\' :: 'u' :: Text.hexDigits 4 c.toNat
    else '\\' :: 'U' :: Text.hexDigits 8 c.toNat)

/-- The whole number of a value, unless it has too many decimal digits. -/
def decimalNumber? (v : Value) : Option Int :=
  (wholeNumber? v).filter fun n => decide (Decimal.Short n)

/-- What is written for a value by its text, unless an integer in it has too many digits. -/
def ofText? (layout : Layout) (text : Value → String) (v : Value) : Option Written :=
  (v.written text).toOption.map (.ofText layout)

/-- **What a letter writes for a value**, if they suit each other. -/
def convert? (layout : Layout) (conversion : Char) (v : Value) : Option Written :=
  match conversion with
  | 's' => ofText? layout Value.plainText v
  | 'r' => ofText? layout Value.shown v
  | 'a' => ofText? layout (fun v => asciiText v.shown) v
  | 'c' => (character? v).map fun c => ⟨false, [], [], [c]⟩
  | 'd' => (decimalNumber? v).map (.ofInt layout 10 [])
  | 'i' => (decimalNumber? v).map (.ofInt layout 10 [])
  | 'u' => (decimalNumber? v).map (.ofInt layout 10 [])
  | 'o' => (exactNumber? v).map (.ofInt layout 8 ['0', 'o'])
  | 'x' => (exactNumber? v).map (.ofInt layout 16 ['0', 'x'])
  | 'X' => (exactNumber? v).map fun n => (Written.ofInt layout 16 ['0', 'x'] n).capital
  | 'f' => (floatNumber? v).map (.ofFloat layout Decimal.fixedText)
  | 'F' => (floatNumber? v).map fun x => (Written.ofFloat layout Decimal.fixedText x).capital
  | 'e' => (floatNumber? v).map (.ofFloat layout Decimal.exponentialText)
  | 'E' => (floatNumber? v).map fun x => (Written.ofFloat layout Decimal.exponentialText x).capital
  | 'g' => (floatNumber? v).map (.ofFloat layout Decimal.generalText)
  | 'G' => (floatNumber? v).map fun x => (Written.ofFloat layout Decimal.generalText x).capital
  | _ => none

/-- The number of an amount, with the values that are left. -/
def amount? (supply : Supply) : Amount → Option (Option Int × Supply)
  | .none => some (none, supply)
  | .given n => if n ≤ maxAmount then some (some n, supply) else none
  | .fromValue =>
      match supply.next? with
      | none => none
      | some (v, rest) =>
          match exactNumber? v with
          | none => none
          | some n => if n.natAbs ≤ maxAmount then some (some n, rest) else none

/-- The layout of a place; a negative width asks for alignment at the left. -/
def layoutOf (flags : List Char) (width precision : Option Int) : Layout where
  leftAligned := flags.contains '-' || decide (width.getD 0 < 0)
  plusSign := flags.contains '+'
  blankSign := flags.contains ' '
  alternate := flags.contains '#'
  zeroFilled := flags.contains '0'
  width := (width.getD 0).natAbs
  precision := precision.map Int.toNat

/-- The values from which a place takes its own: a named one, if the values have names. -/
def supplyFor? (named : Option (Fields Value)) (supply : Supply) :
    Option String → Option Supply
  | none => some supply
  | some key => (named.bind fun fields => fields.get? key).map fun v => .single (some v)

/-- **Fills a place**: what is written in it, and the values that are left. -/
def fillSlot? (named : Option (Fields Value)) (supply : Supply) (slot : Slot) :
    Option (List Char × Supply) := do
  let supply ← supplyFor? named supply slot.key
  let (width, supply) ← amount? supply slot.width
  let (precision, supply) ← amount? supply slot.precision
  let (v, rest) ← supply.next?
  let layout := layoutOf slot.flags width precision
  return ((← convert? layout slot.conversion v).layOut layout, rest)

/-- Fills the places of a template in their order. -/
def fillParts? (named : Option (Fields Value)) : Supply → List Part → Option (List Char)
  | supply, [] => if supply.isSpent then some [] else none
  | supply, .character c :: rest => (fillParts? named supply rest).map (c :: ·)
  | supply, .slot slot :: rest =>
      match fillSlot? named supply slot with
      | none => none
      | some (text, supply) => (fillParts? named supply rest).map (text ++ ·)

/-- The values by name, if the only value is a table that is not empty. -/
def namedValues : List Value → Option (Fields Value)
  | [v] => v.fields?.filter fun fields => !fields.isEmpty
  | _ => none

/-- **Fills a template with values.**  Without values the text stands as it is. -/
def fill? (template : String) (values : List Value) : Option String :=
  if values.isEmpty then some template
  else do
    let parts ← parts? template.toList
    let named := namedValues values
    let supply : Supply := if named.isSome then .single values.head? else .sequence values
    return String.ofList (← fillParts? named supply parts)

end RuleCatalogue.Template
