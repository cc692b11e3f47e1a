import RuleCatalogue.Host
import RuleCatalogue.Report

/-!
# What a run tells

Of what a run tells its user, results and summaries are printed, and warnings are printed as errors,
in yellow where somebody sees them at a terminal and does not refuse colours.

About a report it tells warnings, a summary at the end, and listings of rules.

## Main definitions

* `Notice.printed` and `Notice.printedErrors` are the texts of a notice on the two streams.
* `Notice.tell` shows a notice line by line, up to a line that is refused.
* `Notice.showColoured` decides on colours once for a run.
-/

/-! ## Notices -/

namespace RuleCatalogue

/-- **Something that the user is told.** -/
inductive Notice
  /-- A value with its label. -/
  | labelled (label value : String)
  | lines (l : List String)
  /-- The title of what follows, set apart by an empty line. -/
  | heading (title : String)
  | warning (text : String)
deriving DecidableEq, Repr

namespace Notice

/-- A text as a line of its own. -/
def line (s : String) : String :=
  s ++ "\n"

/-- The texts that a notice prints one after another. -/
def printed : Notice → List String
  | labelled label value => [line (label ++ ": " ++ value)]
  | lines l => l.map line
  | heading title => [line ("\n" ++ title)]
  | warning _ => []

/-- A text in yellow. -/
def yellow (s : String) : String :=
  "\x1b[33m" ++ s ++ "\x1b[0m"

/-- What a notice prints as an error. -/
def printedErrors (coloured : Bool) : Notice → String
  | warning text =>
      let message := "warning: " ++ text
      line (if coloured then yellow message else message)
  | _ => ""

/-- **Whether warnings are coloured**: at a terminal, unless an option or a variable that is not
empty says otherwise. -/
def areColoured (atTerminal refused : Bool) (environment : Environment) : Bool :=
  atTerminal && !refused && ((environment.bindings.get? "NO_COLOR").getD "").isEmpty

variable {m : Type → Type} [Monad m] [Host m]

/-- Whether the warnings of a run are coloured. -/
def showColoured (refused : Bool) : m Bool := do
  return areColoured (← Host.errorsAtTerminal) refused (← Host.environment)

/-- **Shows a notice**, up to a text that is refused. -/
def tell (coloured : Bool) (notice : Notice) : ExceptT PrintFault m Unit := do
  match notice with
  | warning _ => ExceptT.lift (Host.printError (notice.printedErrors coloured))
  | _ => notice.printed.forM fun text => ExceptT.mk (Host.print text)

end Notice

end RuleCatalogue

/-! ## What a run tells about a report -/

namespace RuleCatalogue.Report

/-- The warnings about a conflict; the descriptions are told if more is asked for. -/
def conflictWarnings (verbose : Bool) (c : Conflict) : List Notice :=
  let place := c.source.elim "" fun file => if file.isEmpty then "" else " in " ++ file
  .warning ("conflicting description for rule " ++ c.rule ++ place ++ "; keeping the first one") ::
    if verbose then [.warning ("  kept: " ++ c.kept), .warning ("  ignored: " ++ c.rejected)]
    else []

/-- **The warnings of a report.** -/
def warnings (verbose : Bool) (report : Report) : List Notice :=
  report.failures.map
      (fun (path, failure) => .warning ("could not read " ++ path.text ++ ": " ++ failure.message))
    ++ report.conflicts.flatMap (conflictWarnings verbose)

/-- **The summary of a report.** -/
def summary (report : Report) : List Notice :=
  .heading "Summary:" ::
    [("Files", report.files.length), ("Rules", report.ruleCount),
     ("Rules with parameters", report.parameterizedCount), ("Parameters", report.parameterCount),
     ("Description conflicts", report.conflicts.length),
     ("Read failures", report.failures.length)].map
      fun (label, count) => .labelled label (toString count)

/-- The rules by name, each with its number in the first file that has it and with that file. -/
def introductions (report : Report) : List (String × Nat × Path) :=
  report.files.zipIdx.flatMap fun (path, position) =>
    (report.introducedBy position).zipIdx.map fun (rule, index) => (rule, index + 1, path)

/-- **The lines that list rules**: all of them, or the one with a name. -/
def listings (report : Report) (selected : Option String) : List String :=
  report.introductions.zipIdx.flatMap fun ((rule, index, path), total) =>
    if selected.all (· == rule) then
      match report.catalogue.get? rule with
      | some entry => entry.listing index (total + 1) path.name
      | none => []
    else []

end RuleCatalogue.Report
