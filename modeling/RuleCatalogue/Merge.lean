import RuleCatalogue.Event

/-!
# Merging catalogues

Catalogues are merged in order.  The parameters of a rule are united; of its descriptions the first
that is not blank is kept, and every later one that is not blank is reported as a conflict, even
when it says the same.  A conflict is told to the log as soon as it is found.

## Main definitions

* `Merging.take` merges one entry.
* `Catalogue.merge` merges the entries of a catalogue, `Catalogue.mergeAll` those of several.
-/

namespace RuleCatalogue

namespace RuleEntry

/-- What the entry `target` becomes when `source` is merged into it. -/
def absorb (target source : RuleEntry) : RuleEntry :=
  let united := target.addParameters source.parameters.toList
  if !target.hasDescription && source.hasDescription then united.adoptDescription source else united

/-- The conflict that arises when `source` is merged into `target` under a rule's name. -/
def conflict? (target source : RuleEntry) (rule : String) (file : Option String) :
    Option Conflict :=
  if target.hasDescription && source.hasDescription then
    some ⟨rule, target.description, source.description, file⟩
  else none

end RuleEntry

/-- **A merging under way**: the rules so far, the conflicts found, and what was told to the log. -/
structure Merging where
  catalogue : Catalogue := ∅
  conflicts : List Conflict := []
  events : List Event := []

namespace Catalogue

/-- The entry under a name, or one that knows nothing yet. -/
def entryOrNew (catalogue : Catalogue) (name : String) : RuleEntry :=
  (catalogue.get? name).getD { name }

end Catalogue

namespace Merging

/-- **Merges the entry under a name**; a conflict is listed and told to the log. -/
def take (file : Option String) (m : Merging) (name : String) (entry : RuleEntry) : Merging :=
  let known := m.catalogue.entryOrNew name
  let merged := m.catalogue.insert name (known.absorb entry)
  match known.conflict? entry name file with
  | none => { m with catalogue := merged }
  | some c =>
      { catalogue := merged, conflicts := m.conflicts ++ [c], events := m.events ++ [.conflict c] }

/-- A merging followed by another one, which went on from its rules. -/
def followedBy (m next : Merging) : Merging :=
  { next with conflicts := m.conflicts ++ next.conflicts, events := m.events ++ next.events }

end Merging

namespace Catalogue

/-- **Merges one catalogue into another**, in the order of its rules. -/
def merge (target source : Catalogue) (file : Option String) : Merging :=
  source.toList.foldl (fun m (name, entry) => m.take file name entry) { catalogue := target }

/-- **Merges catalogues in order.** -/
def mergeAll (catalogues : List Catalogue) : Merging :=
  catalogues.foldl (fun m source => m.followedBy (m.catalogue.merge source none)) {}

end Catalogue

end RuleCatalogue
