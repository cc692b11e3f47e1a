import RuleCatalogue.Merge

/-!
# Reports

Files are read one by one and merged in their order; the report tells what came of it.  Files are
told apart by their positions, because a file may be given twice and two files may share a name.

## Main definitions

* `Reading.ofContents` reads one file.
* `Report.ofOutcomes` merges what files gave.
* `Batch.ofReadings` puts both together and collects the events.
-/

namespace RuleCatalogue

/-- What a file gave: its rules, unless it is unreadable. -/
abbrev Outcome := Except ReadFailure Catalogue

/-- **The reading of one file**: the events on the way and what it gave, if it gave anything. -/
structure Reading where
  events : List Event
  result : Except Breakdown Outcome

namespace Reading

/-- The reading of a file with these lines. -/
def ofLines (path : Path) (lines : List String) : Reading :=
  let (catalogue, titles) := Session.readLines lines
  { events := (titles.map fun t => .title t (some path.name)) ++ [.fileRead path catalogue.size]
    result := .ok (.ok catalogue) }

/-- **The reading of a file**, from what opening it gave. -/
def ofContents [Codecs] (encoding : String) (path : Path) (contents : Except FileError Octets) :
    Reading :=
  match Source.decodeLines encoding contents with
  | .ok (.ok lines) => ofLines path lines
  | .ok (.error failure) => { events := [], result := .ok (.error failure) }
  | .error breakdown => { events := [], result := .error breakdown }

end Reading

/-- **What came of reading files in order.**  `positions` lists, for each rule, the positions of the
files that have it. -/
structure Report where
  files : List Path := []
  catalogue : Catalogue := ∅
  failures : List (Path × ReadFailure) := []
  conflicts : List Conflict := []
  positions : Table (List Nat) := ∅

namespace Report

/-- Notes that a file has these rules. -/
def note (position : Nat) (positions : Table (List Nat)) (names : List String) :
    Table (List Nat) :=
  names.foldl
    (fun positions name => positions.insert name ((positions.get? name).getD [] ++ [position]))
    positions

/-- **Takes the next file** and tells what happened. -/
def add (report : Report) (path : Path) (outcome : Outcome) : Report × List Event :=
  let files := report.files ++ [path]
  match outcome with
  | .error failure =>
      ({ report with files, failures := report.failures ++ [(path, failure)] },
        [.fileUnreadable path failure])
  | .ok catalogue =>
      let merging := report.catalogue.merge catalogue (some path.name)
      ({ report with
          files
          catalogue := merging.catalogue
          conflicts := report.conflicts ++ merging.conflicts
          positions := note report.files.length report.positions catalogue.keys },
        merging.events)

/-- **The report on files** that gave these outcomes, and what happened when they were merged. -/
def ofOutcomes (outcomes : List (Path × Outcome)) : Report × List Event :=
  outcomes.foldl
    (fun (report, events) (path, outcome) =>
      let (next, more) := report.add path outcome
      (next, events ++ more))
    ({}, [])

/-- Whether a file could not be read. -/
def hasFailures (report : Report) : Bool :=
  !report.failures.isEmpty

/-- The number of rules. -/
def ruleCount (report : Report) : Nat :=
  report.catalogue.size

/-- The number of parameters of all rules. -/
def parameterCount (report : Report) : Nat :=
  report.catalogue.values.foldl (fun count e => count + e.parameters.toList.length) 0

/-- The number of rules that have parameters. -/
def parameterizedCount (report : Report) : Nat :=
  report.catalogue.values.countP RuleEntry.hasParameters

/-- The position of the first file that has a rule. -/
def firstPosition? (report : Report) (rule : String) : Option Nat :=
  (report.positions.get? rule).bind List.head?

/-- The first file that has a rule. -/
def firstSource? (report : Report) (rule : String) : Option Path :=
  (report.firstPosition? rule).bind fun position => report.files[position]?

/-- **The rules that a file is the first to have**, by name. -/
def introducedBy (report : Report) (position : Nat) : List String :=
  let rules := report.positions.toList.filter fun (_, positions) => positions.head? = some position
  (rules.map Prod.fst).mergeSort fun a b => decide (a ≤ b)

end Report

/-- **The reading of several files.** -/
structure Batch where
  events : List Event
  result : Except Breakdown Report

namespace Batch

/-- The events of readings up to the first breakdown, or of all of them where they go on beside
one another. -/
def readingEvents (together : Bool) : List Reading → List Event
  | [] => []
  | reading :: rest =>
      match reading.result with
      | .ok _ => reading.events ++ readingEvents together rest
      | .error _ => reading.events ++ (if together then readingEvents together rest else [])

/-- What files gave, up to the first breakdown. -/
def outcomes : List (Path × Reading) → Except Breakdown (List (Path × Outcome))
  | [] => .ok []
  | (path, reading) :: rest =>
      match reading.result with
      | .error breakdown => .error breakdown
      | .ok outcome => (outcomes rest).map ((path, outcome) :: ·)

/-- **Merges readings in their order**; the first breakdown is the end of it. -/
def ofReadings (together : Bool) (readings : List (Path × Reading)) : Batch :=
  let before := readingEvents together (readings.map Prod.snd)
  match outcomes readings with
  | .error breakdown => ⟨before, .error breakdown⟩
  | .ok outcomes =>
      let (report, after) := Report.ofOutcomes outcomes
      ⟨before ++ after, .ok report⟩

/-- **Reads files with these contents.**  With several workers, several files are read beside one
another. -/
def ofFiles [Codecs] (encoding : String) (workers : Int)
    (files : List (Path × Except FileError Octets)) : Batch :=
  ofReadings (decide (1 < workers) && decide (1 < files.length))
    (files.map fun (path, contents) => (path, Reading.ofContents encoding path contents))

end Batch

end RuleCatalogue
