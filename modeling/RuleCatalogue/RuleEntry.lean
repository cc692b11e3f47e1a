import RuleCatalogue.Table
import RuleCatalogue.Text.Character
import RuleCatalogue.Text.Substring

/-!
# Documented rules and their parameters

A parameter is a key with a description and a default value.  The parameters of a rule form a
set: they have no order of their own, equal ones are one, and they are always listed by key, then
description, then default value.  A `ParameterSet` is that listing, so two sets with the same
members are equal.

A rule entry collects what the catalogues say about one rule: its name, its parameters, and its
description, which grows as lines are read and is shown without the blanks at its ends.
-/

/-! ## Parameters of a rule -/

namespace RuleCatalogue

/-- **A parameter**: a key, a description and a default value, each possibly empty. -/
@[ext] structure Parameter where
  key : String := ""
  description : String := ""
  defaultValue : String := ""
deriving DecidableEq, Repr, Inhabited

namespace Parameter

/-- All three texts are blank. -/
def isBlank (p : Parameter) : Bool :=
  Text.isBlankText p.key && Text.isBlankText p.description && Text.isBlankText p.defaultValue

/-- The default value is not blank. -/
def hasDefaultValue (p : Parameter) : Bool :=
  !Text.isBlankText p.defaultValue

/-- Adds to the end of the key. -/
def extendKey (p : Parameter) (more : String) : Parameter :=
  { p with key := p.key ++ more }

/-- Adds to the description, behind a space unless it is the beginning. -/
def extendDescription (p : Parameter) (more : String) : Parameter :=
  { p with description := if p.description.isEmpty then more else p.description ++ " " ++ more }

/-- Sets the default value. -/
def withDefaultValue (p : Parameter) (value : String) : Parameter :=
  { p with defaultValue := value }

/-- A short form for readers: at most thirty characters of the description are shown. -/
def summary (p : Parameter) : String :=
  let description :=
    if 30 < p.description.length then
      String.ofList (p.description.toList.take 30) ++ "..."
    else p.description
  "RuleParameter [key=" ++ p.key ++ ", defaultValue=" ++ p.defaultValue ++ ", description="
    ++ description ++ "]"

/-- **The order of parameters**: by key, then description, then default value. -/
protected def lt (p q : Parameter) : Prop :=
  p.key < q.key ∨ (p.key = q.key ∧ (p.description < q.description
    ∨ (p.description = q.description ∧ p.defaultValue < q.defaultValue)))

instance : LT Parameter := ⟨Parameter.lt⟩

theorem lt_def {p q : Parameter} : p < q ↔ p.key < q.key ∨ (p.key = q.key ∧
    (p.description < q.description
      ∨ (p.description = q.description ∧ p.defaultValue < q.defaultValue))) :=
  Iff.rfl

instance decidableLT (p q : Parameter) : Decidable (p < q) :=
  decidable_of_iff' _ lt_def

theorem lt_trans {p q r : Parameter} (hpq : p < q) (hqr : q < r) : p < r := by
  rw [lt_def] at *
  grind [String.lt_trans]

theorem lt_irrefl (p : Parameter) : ¬ p < p := by
  rw [lt_def]
  grind [String.lt_irrefl]

theorem lt_or_eq_or_gt (p q : Parameter) : p < q ∨ p = q ∨ q < p := by
  rw [lt_def, lt_def, Parameter.ext_iff]
  have total (a b : String) : a < b ∨ a = b ∨ b < a := by
    rcases Decidable.em (a < b) with h | h
    · exact Or.inl h
    · rcases Decidable.em (b < a) with h' | h'
      · exact Or.inr (Or.inr h')
      · exact Or.inr (Or.inl (String.le_antisymm (String.not_lt.mp h') (String.not_lt.mp h)))
  rcases total p.key q.key with h | h | h
  · exact Or.inl (Or.inl h)
  · rcases total p.description q.description with h' | h' | h'
    · exact Or.inl (Or.inr ⟨h, Or.inl h'⟩)
    · rcases total p.defaultValue q.defaultValue with h'' | h'' | h''
      · exact Or.inl (Or.inr ⟨h, Or.inr ⟨h', h''⟩⟩)
      · exact Or.inr (Or.inl ⟨h, h', h''⟩)
      · exact Or.inr (Or.inr (Or.inr ⟨h.symm, Or.inr ⟨h'.symm, h''⟩⟩))
    · exact Or.inr (Or.inr (Or.inr ⟨h.symm, Or.inl h'⟩))
  · exact Or.inr (Or.inr (Or.inl h))

end Parameter

/-- **A set of parameters**, kept as the strictly increasing list of its members. -/
@[ext] structure ParameterSet where
  toList : List Parameter
  increasing : toList.Pairwise (· < ·)
deriving DecidableEq

namespace ParameterSet

/-- The set without members. -/
def empty : ParameterSet :=
  ⟨[], List.Pairwise.nil⟩

instance : EmptyCollection ParameterSet := ⟨empty⟩

instance : Inhabited ParameterSet := ⟨empty⟩

instance : Membership Parameter ParameterSet := ⟨fun set p => p ∈ set.toList⟩

instance (p : Parameter) (set : ParameterSet) : Decidable (p ∈ set) :=
  inferInstanceAs (Decidable (p ∈ set.toList))

/-- Puts a parameter at its place in an increasing list, unless it is there. -/
def place (p : Parameter) : List Parameter → List Parameter
  | [] => [p]
  | q :: rest =>
      if p < q then p :: q :: rest
      else if p = q then q :: rest
      else q :: place p rest

theorem mem_place {p r : Parameter} : {list : List Parameter} →
    (r ∈ place p list ↔ r = p ∨ r ∈ list)
  | [] => by simp [place]
  | q :: rest => by
      have ih : r ∈ place p rest ↔ r = p ∨ r ∈ rest := mem_place
      unfold place
      split
      · simp
      · split
        · next h => subst h; simp
        · simp only [List.mem_cons, ih]
          exact ⟨fun h => by rcases h with h | h | h <;> simp [h],
            fun h => by rcases h with h | h | h <;> simp [h]⟩

theorem increasing_place {p : Parameter} : {list : List Parameter} →
    list.Pairwise (· < ·) → (place p list).Pairwise (· < ·)
  | [], _ => by simp [place]
  | q :: rest, h => by
      obtain ⟨hq, hrest⟩ := List.pairwise_cons.mp h
      unfold place
      split
      · next hpq =>
          refine List.pairwise_cons.mpr ⟨fun r hr => ?_, h⟩
          rcases List.mem_cons.mp hr with rfl | hr
          · exact hpq
          · exact Parameter.lt_trans hpq (hq r hr)
      · next hpq =>
          split
          · exact h
          · next hne =>
              refine List.pairwise_cons.mpr ⟨fun r hr => ?_, increasing_place hrest⟩
              rcases mem_place.mp hr with rfl | hr
              · exact ((Parameter.lt_or_eq_or_gt r q).resolve_left hpq).resolve_left hne
              · exact hq r hr

/-- The set with one more member. -/
def insert (set : ParameterSet) (p : Parameter) : ParameterSet :=
  ⟨place p set.toList, increasing_place set.increasing⟩

/-- The number of members. -/
def size (set : ParameterSet) : Nat :=
  set.toList.length

/-- Whether the set has no members. -/
def isEmpty (set : ParameterSet) : Bool :=
  set.toList.isEmpty

@[simp] theorem mem_insert {set : ParameterSet} {p r : Parameter} :
    r ∈ set.insert p ↔ r = p ∨ r ∈ set :=
  mem_place

end ParameterSet

end RuleCatalogue

/-! ## Documented rules -/

namespace RuleCatalogue

/-- **What is known of one rule.** -/
@[ext] structure RuleEntry where
  name : String
  parameters : ParameterSet := ∅
  rawDescription : String := ""
deriving DecidableEq

namespace RuleEntry

/-- The description as it is shown. -/
def description (e : RuleEntry) : String :=
  Text.trimmed e.rawDescription

/-- Whether there is a description to show. -/
def hasDescription (e : RuleEntry) : Bool :=
  !Text.isBlankText e.rawDescription

/-- Adds to the end of the description. -/
def append (e : RuleEntry) (text : String) : RuleEntry :=
  { e with rawDescription := e.rawDescription ++ text }

/-- Takes over the description of another entry. -/
def adoptDescription (e other : RuleEntry) : RuleEntry :=
  { e with rawDescription := other.rawDescription }

/-- Whether a parameter would be new to the entry: it is not blank and not yet there. -/
def accepts (e : RuleEntry) (p : Parameter) : Bool :=
  !p.isBlank && !decide (p ∈ e.parameters)

/-- **Adds a parameter** that the entry accepts, and nothing otherwise. -/
def addParameter (e : RuleEntry) (p : Parameter) : RuleEntry :=
  if e.accepts p then { e with parameters := e.parameters.insert p } else e

/-- Adds parameters one after another. -/
def addParameters (e : RuleEntry) (ps : List Parameter) : RuleEntry :=
  ps.foldl addParameter e

/-- Whether the entry has parameters. -/
def hasParameters (e : RuleEntry) : Bool :=
  !e.parameters.isEmpty

/-- The line above a rule. -/
def separatorLine : String := String.ofList (List.replicate 42 '=')

/-- The line above a part of a rule. -/
def partLine : String := String.ofList (List.replicate 42 '-')

/-- The three lines of a parameter. -/
def parameterLines (p : Parameter) : List String :=
  ["  * \"" ++ p.key ++ "\"",
   "    - defaultValue: " ++ p.defaultValue,
   "    - description: " ++ p.description]

/-- **The listing of a rule**: a heading with its place in the file and in the whole, then its
description and its parameters, as far as it has them. -/
def listing (e : RuleEntry) (ruleIndex totalIndex : Int) (fileName : String) : List String :=
  let heading := ["Rule #" ++ toString totalIndex ++ " : " ++ e.name ++ " (" ++ fileName ++ " #"
    ++ toString ruleIndex ++ ")"]
  let descriptionPart :=
    if e.hasDescription then
      partLine :: (Text.splitWhere (· == '\n') e.description.toList).map String.ofList
    else []
  let parameterPart :=
    if e.hasParameters then
      partLine :: "Parameters: " :: e.parameters.toList.flatMap parameterLines
    else []
  separatorLine :: heading ++ descriptionPart ++ parameterPart

end RuleEntry

/-- **A catalogue**: rule entries by name, in the order in which the names were first filed. -/
abbrev Catalogue := Table RuleEntry

end RuleCatalogue
