import RuleCatalogue.Proofs.DrawnTable
import RuleCatalogue.Proofs.Session.Step

/-!
# Sessions as independent registers

`Session` is shaped so that senseless states cannot be written down.  Here the same reading is done
by a machine that keeps its phase, its entry, the paragraph flag, the parameter in progress and the
columns in registers of their own.  Most combinations of these mean nothing, and a step that needs a
register which is not set fails with a `Fault`.

The machine never fails, because it only ever reaches the registers of a session
(`Session.run_registers`), and those are consistent: which of them are set is decided by the phase
(`Session.registers_consistent`).

## Design notes

Two of the four clauses of `Registers.Consistent` are about shape alone and hold of the registers of
every session.  The clause on the columns is an invariant of the reading: it rests on the fact that
every line accepted as the beginning of a table is a drawing whose columns can be found.
-/

namespace RuleCatalogue

/-- Where the machine is. -/
inductive Phase
  | outside
  | description
  | code
  | table
deriving DecidableEq, Repr

/-- **Why the machine fails.** -/
inductive Fault
  /-- A line is to be added to an entry, or an entry to be filed, and none is open. -/
  | noEntry
  /-- A row is to be cut, and the columns are not known. -/
  | noColumns
  /-- A ruler lacks its star or one of the two plus signs that end its first cells. -/
  | noRuler
deriving DecidableEq, Repr

/-- **The registers**, each on its own. -/
structure Registers where
  finished : Catalogue := ∅
  phase : Phase := .outside
  current : Option RuleEntry := none
  paragraphOpen : Bool := false
  pending : Parameter := {}
  columns? : Option Columns := none

namespace Registers

/-! ## The machine -/

/-- Adds text to the entry, if one is open. -/
def append (r : Registers) (text : String) : Registers :=
  { r with current := r.current.map (·.append text) }

/-- Ends the paragraph that is open, if one is, and clears the flag. -/
def closeParagraph (r : Registers) : Registers :=
  { (if r.paragraphOpen then r.append "</p>\n" else r) with paragraphOpen := false }

/-- Files the parameter in progress and starts the next one. -/
def flushParameter (r : Registers) : Registers :=
  { r with current := r.current.map (·.addParameter r.pending), pending := {} }

/-- Files the entry and clears every register. -/
def finish (r : Registers) : Except Fault Registers :=
  let closed := r.closeParagraph
  let flushed := if closed.phase = .table then closed.flushParameter else closed
  match flushed.current with
  | none => .error .noEntry
  | some entry =>
      .ok { flushed with
        finished := flushed.finished.insert entry.name entry
        phase := .outside, current := none, pending := {}, columns? := none }

/-- Opens the rule that a title names, resuming the entry filed under the name. -/
def seekTitle (r : Registers) (line : List Char) : Registers :=
  match Session.titleName? line with
  | none => r
  | some name => { r with current := some (r.finished.entryOrNew name), phase := .description }

/-- A line of prose; it needs an entry. -/
def addProse (r : Registers) (line : List Char) : Except Fault Registers :=
  match r.current with
  | none => .error .noEntry
  | some _ =>
      if line.isEmpty then .ok r.closeParagraph
      else
        let lead := if r.paragraphOpen then " " else "<p>"
        .ok { r.append (lead ++ String.ofList (Markup.prose line)) with paragraphOpen := true }

/-- A table row; it needs the columns. -/
def addRow (r : Registers) (row : List Char) : Except Fault Registers :=
  match r.columns? with
  | none => .error .noColumns
  | some columns =>
      if Line.isCaption (columns.keyCell row) then .ok r
      else .ok { r with pending := OpenRule.extendPending columns r.pending row }

/-- The ruler that opens a table; its columns are looked for. -/
def beginTable (r : Registers) (ruler : List Char) : Except Fault Registers :=
  match Columns.ofRuler? ruler with
  | none => .error .noRuler
  | some columns =>
      .ok { r.closeParagraph with columns? := some columns, pending := {}, phase := .table }

/-- **One line of an open rule**, by the first of nine conditions that it meets. -/
def consumeInRule (r : Registers) (full line : List Char) : Except Fault Registers :=
  if r.phase ≠ .code ∧ Line.isExampleDelimiter line then
    let flushed := if r.phase = .table then r.flushParameter else r
    .ok { flushed.closeParagraph.append "<pre>\n" with phase := .code }
  else if r.phase = .description ∧ Line.isProse line then r.addProse line
  else if r.phase = .code ∧ Line.isExampleDelimiter line then
    .ok { r.append "</pre>\n" with phase := .description }
  else if r.phase = .code then .ok (r.append (String.ofList (Markup.code full ++ ['\n'])))
  else if r.phase = .description ∧ Line.isTableStart line then r.beginTable line
  else if r.phase = .table ∧ Line.isTableRow line then r.addRow line
  else if r.phase = .table ∧ Line.isTableRuler line then .ok r.flushParameter
  else if r.phase = .table then
    .ok { r.flushParameter with columns? := none, phase := .description }
  else .ok r

/-- Files the entry that is open, if one is. -/
def finishOpen (r : Registers) : Except Fault Registers :=
  if r.current.isSome then r.finish else .ok r

/-- One line of a rule that goes on, or outside a rule. -/
def consumeReady (r : Registers) (full line : List Char) : Except Fault Registers :=
  match r.current with
  | none => .ok (r.seekTitle line)
  | some _ => r.consumeInRule full line

/-- **One line**, without its line end. -/
def consume (r : Registers) (full : List Char) : Except Fault Registers :=
  let line := Text.trim full
  (if Session.endsRule full line then r.finishOpen else .ok r).bind fun ready =>
    ready.consumeReady full line

/-- A line that does not end the rule goes to the reading of its mode, with its trimmed form beside
it. -/
theorem consume_of_not_endsRule {full : List Char} (h : ¬ Session.endsRule full (Text.trim full))
    (r : Registers) : r.consume full = r.consumeReady full (Text.trim full) := by
  simp [consume, h, Except.bind]

/-- The registers after some lines. -/
def run (r : Registers) (lines : List (List Char)) : Except Fault Registers :=
  lines.foldlM consume r

/-- **The reading of a whole file**: an entry that is open behind the last line is filed. -/
def readLines (lines : List String) : Except Fault Catalogue := do
  let last ← run {} (lines.map Session.dropLineEnd)
  let closed ← last.finishOpen
  return closed.finished

/-- **What the phase says about the other registers.** -/
structure Consistent (r : Registers) : Prop where
  entry : r.current.isSome ↔ r.phase ≠ .outside
  paragraph : r.paragraphOpen → r.phase = .description
  pending : r.pending ≠ {} → r.phase = .table
  columns : r.phase = .table → ∃ columns, r.columns? = some columns ∧ columns.Ruled

end Registers

/-! ## The registers of a session -/

namespace OpenRule

/-- The registers while a rule is open. -/
def registers (rule : OpenRule) (finished : Catalogue) : Registers :=
  let blank : Registers :=
    { finished, current := some rule.entry, columns? := rule.columns? }
  match rule.mode with
  | .description paragraphOpen => { blank with phase := .description, paragraphOpen }
  | .code => { blank with phase := .code }
  | .table _ pending => { blank with phase := .table, pending }

section Shown

variable (rule : OpenRule) (finished : Catalogue)

/-- While a rule is open its entry is among the registers. -/
@[simp] theorem current_registers : (rule.registers finished).current = some rule.entry := by
  obtain ⟨entry, mode, interrupted⟩ := rule
  cases mode <;> rfl

/-- Appending to the description is the same in both forms. -/
theorem append_registers (text : String) :
    (rule.registers finished).append text = (rule.append text).registers finished := by
  obtain ⟨entry, mode, interrupted⟩ := rule
  cases mode <;> rfl

/-- Closing a pending parameter is the same in both forms, and does nothing outside a table. -/
theorem flushParameter_registers :
    (rule.registers finished).flushParameter = rule.flushParameter.registers finished := by
  obtain ⟨entry, mode, interrupted⟩ := rule
  cases mode <;> rfl

/-- Finishing a rule empties the registers and hands the rule over; it cannot fail, since an entry
is open. -/
theorem finish_registers :
    (rule.registers finished).finish
      = .ok { finished := finished.insert rule.entry.name rule.close } := by
  obtain ⟨entry, mode, interrupted⟩ := rule
  rw [← name_close]
  cases mode with
  | description isOpen => cases isOpen <;> rfl
  | code => rfl
  | table columns pending => rfl

/-- A code block begins from prose and from a table alike. Inside a code block the line would not be
read as its beginning, hence the hypothesis. -/
theorem beginCode_registers (h : rule.mode ≠ .code) :
    { ((if (rule.registers finished).phase = .table then (rule.registers finished).flushParameter
        else rule.registers finished).closeParagraph.append "<pre>\n") with phase := .code }
      = rule.beginCode.registers finished := by
  obtain ⟨entry, mode, interrupted⟩ := rule
  cases mode with
  | description isOpen => cases isOpen <;> rfl
  | code => exact absurd rfl h
  | table columns pending => rfl

/-- A line of prose in description mode, with the paragraph open or not. -/
theorem addProse_registers {isOpen : Bool} (h : rule.mode = .description isOpen)
    (line : List Char) :
    (rule.registers finished).addProse line
      = .ok ((rule.addProse isOpen line).registers finished) := by
  obtain ⟨entry, mode, interrupted⟩ := rule
  subst h
  by_cases hempty : line.isEmpty
  · simp only [Registers.addProse, addProse, registers, hempty, if_true]
    cases isOpen <;> rfl
  · simp only [Registers.addProse, addProse, registers, hempty]
    rfl

/-- A row of the table, cut at the columns and added to the pending parameter or closing it. -/
theorem addRow_registers {columns : Columns} {pending : Parameter}
    (h : rule.mode = .table columns pending) (row : List Char) :
    (rule.registers finished).addRow row
      = .ok ((rule.addRow columns pending row).registers finished) := by
  obtain ⟨entry, mode, interrupted⟩ := rule
  subst h
  by_cases hcaption : Line.isCaption (columns.keyCell row)
  · simp [Registers.addRow, addRow, registers, columns?, hcaption]
  · simp [Registers.addRow, addRow, registers, columns?, hcaption]

/-- A ruler that opens a table finds its columns. -/
theorem beginTable_registers {isOpen : Bool} (h : rule.mode = .description isOpen)
    {ruler : List Char} (hruler : Line.isTableStart ruler) :
    (rule.registers finished).beginTable ruler
      = .ok ((rule.beginTable ruler).registers finished) := by
  obtain ⟨columns, hcolumns, -⟩ := Columns.exists_columns_of_isTableStart hruler
  rw [Registers.beginTable, beginTable, hcolumns]
  obtain ⟨entry, mode, interrupted⟩ := rule
  subst h
  cases isOpen <;> rfl

/-- The end of a code block returns to prose with the paragraph closed. -/
theorem endCode_registers (h : rule.mode = .code) :
    { (rule.registers finished).append "</pre>\n" with phase := .description }
      = registers { rule.append "</pre>\n" with mode := .description false } finished := by
  obtain ⟨entry, mode, interrupted⟩ := rule
  subst h
  rfl

/-- The end of a table closes the pending parameter and forgets the columns. -/
theorem endTable_registers {columns : Columns} {pending : Parameter}
    (h : rule.mode = .table columns pending) :
    { (rule.registers finished).flushParameter with columns? := none, phase := .description }
      = registers { rule.flushParameter with mode := .description false, interrupted := none }
        finished := by
  obtain ⟨entry, mode, interrupted⟩ := rule
  subst h
  rfl

/-- **The machine reads a line of an open rule as the session does**, in each of its modes; the
registers that a mode does not use are those that `OpenRule.registers` gives them. -/
theorem consumeInRule_registers (full line : List Char) :
    (rule.registers finished).consumeInRule full line
      = .ok ((rule.consume full line).registers finished) := by
  cases hmode : rule.mode with
  | description isOpen =>
    have hphase : (rule.registers finished).phase = .description := by simp [registers, hmode]
    have hconsume : rule.consume full line =
        if Line.isExampleDelimiter line then rule.beginCode
        else if Line.isProse line then rule.addProse isOpen line
        else if Line.isTableStart line then rule.beginTable line
        else rule := by simp [consume, hmode]
    rw [hconsume, Registers.consumeInRule]
    by_cases hcode : Line.isExampleDelimiter line
    · simp [hcode, hphase, ← beginCode_registers rule finished (by simp [hmode])]
    by_cases hprose : Line.isProse line
    · simp [hcode, hprose, hphase, addProse_registers rule finished hmode]
    by_cases hstart : Line.isTableStart line
    · simp [hcode, hprose, hstart, hphase, beginTable_registers rule finished hmode hstart]
    · simp [hcode, hprose, hstart, hphase]
  | code =>
    have hphase : (rule.registers finished).phase = .code := by simp [registers, hmode]
    have hconsume : rule.consume full line =
        if Line.isExampleDelimiter line then
          { rule.append "</pre>\n" with mode := .description false }
        else rule.append (String.ofList (Markup.code full ++ ['\n'])) := by simp [consume, hmode]
    rw [hconsume, Registers.consumeInRule]
    by_cases hcode : Line.isExampleDelimiter line
    · simp [hcode, hphase, ← endCode_registers rule finished hmode]
    · simp [hcode, hphase, append_registers]
  | table columns pending =>
    have hphase : (rule.registers finished).phase = .table := by simp [registers, hmode]
    have hconsume : rule.consume full line =
        if Line.isExampleDelimiter line then rule.beginCode
        else if Line.isTableRow line then rule.addRow columns pending line
        else if Line.isTableRuler line then rule.flushParameter
        else { rule.flushParameter with mode := .description false, interrupted := none } := by
      simp [consume, hmode]
    rw [hconsume, Registers.consumeInRule]
    by_cases hcode : Line.isExampleDelimiter line
    · simp [hcode, hphase, ← beginCode_registers rule finished (by simp [hmode])]
    by_cases hrow : Line.isTableRow line
    · simp [hcode, hrow, hphase, addRow_registers rule finished hmode]
    by_cases hruler : Line.isTableRuler line
    · simp [hcode, hrow, hruler, hphase, flushParameter_registers]
    · simp [hcode, hrow, hruler, hphase, ← endTable_registers rule finished hmode]

end Shown

end OpenRule

/-- **The registers that show a session.** -/
def Session.registers (session : Session) : Registers :=
  match session.current with
  | none => { finished := session.finished }
  | some rule => rule.registers session.finished

namespace Session

/-- Without an open rule the registers hold the finished ones only. -/
theorem registers_of_closed {session : Session} (h : session.current = none) :
    session.registers = { finished := session.finished } := by
  simp [registers, h]

/-- With an open rule the registers are those of that rule. -/
theorem registers_of_open {session : Session} {rule : OpenRule} (h : session.current = some rule) :
    session.registers = rule.registers session.finished := by
  simp [registers, h]

/-- The registers have an entry exactly while a rule is open. -/
theorem isSome_current_registers (session : Session) :
    session.registers.current.isSome = session.current.isSome := by
  cases h : session.current with
  | none => rw [registers_of_closed h]; rfl
  | some rule =>
    rw [registers_of_open h, OpenRule.current_registers]
    rfl

/-- Finishing what is open, if anything is, never fails. -/
theorem finishOpen_registers (session : Session) :
    session.registers.finishOpen = .ok session.finish.registers := by
  rw [Registers.finishOpen, isSome_current_registers]
  cases h : session.current with
  | none => simp [finish_of_closed h]
  | some rule =>
    rw [finish_of_open h, registers_of_open h, OpenRule.finish_registers]
    rfl

/-- Between rules the registers only look for a title. -/
theorem seekTitle_registers {session : Session} (h : session.current = none) (line : List Char) :
    session.registers.seekTitle line = (session.seekTitle line).1.registers := by
  rw [registers_of_closed h, Registers.seekTitle]
  cases htitle : titleName? line with
  | none =>
    rw [seekTitle_of_noTitle htitle, registers_of_closed h]
  | some name =>
    rw [seekTitle_of_title htitle, openRule_fst]
    rfl

/-- Between rules every line is looked at for a title and nothing else. -/
theorem consumeReady_registers_of_closed {session : Session} (h : session.current = none)
    (full line : List Char) :
    session.registers.consumeReady full line = .ok (session.seekTitle line).1.registers := by
  have hentry : session.registers.current = none := by rw [registers_of_closed h]
  rw [Registers.consumeReady, hentry, ← seekTitle_registers h]

/-- **The machine takes a line as the session does**, and does not fail: what it would fail on, an
entry or columns that are missing, never is. -/
theorem consume_registers (session : Session) (full : List Char) :
    session.registers.consume full = .ok (session.consume full).1.registers := by
  by_cases hends : endsRule full (Text.trim full)
  · rw [consume_of_endsRule hends, consume_of_closed (current_finish session),
      ← consumeReady_registers_of_closed (current_finish session) full]
    simp only [Registers.consume, hends, if_true, finishOpen_registers]
    rfl
  · rw [Registers.consume_of_not_endsRule hends]
    cases h : session.current with
    | none => rw [consume_of_closed h, consumeReady_registers_of_closed h]
    | some rule =>
      have hentry : session.registers.current = some rule.entry := by
        rw [registers_of_open h, OpenRule.current_registers]
      rw [consume_of_open h hends, Registers.consumeReady, hentry, registers_of_open h]
      exact OpenRule.consumeInRule_registers rule session.finished full (Text.trim full)

/-- **A run of the machine shows the run of the session**, by induction on the lines with
`consume_registers`. -/
theorem run_registers (session : Session) (lines : List (List Char)) :
    session.registers.run lines = .ok (session.feed lines).registers := by
  induction lines generalizing session with
  | nil => rfl
  | cons full rest ih =>
    rw [feed_cons, ← ih, Registers.run, List.foldlM_cons, consume_registers]
    rfl

end Session

/-! ## Consistency -/

/-- The columns of a table that is being read are those of a ruler. -/
def Mode.Ruled : Mode → Prop
  | .table columns _ => columns.Ruled
  | _ => True

namespace OpenRule

/-- Closing a paragraph changes no columns. -/
theorem ruled_closeParagraph {rule : OpenRule} (h : rule.mode.Ruled) :
    rule.closeParagraph.mode.Ruled := by
  unfold closeParagraph
  split
  · trivial
  · exact h

/-- Closing a parameter changes no columns. -/
theorem ruled_flushParameter {rule : OpenRule} (h : rule.mode.Ruled) :
    rule.flushParameter.mode.Ruled := by
  unfold flushParameter
  split
  · next columns pending hmode =>
    rw [hmode] at h
    exact h
  · exact h

/-- A table opens with the columns of its ruler, and a line that starts a table has a ruler's cells.
-/
theorem ruled_beginTable (rule : OpenRule) {ruler : List Char} (hruler : Line.isTableStart ruler) :
    (rule.beginTable ruler).mode.Ruled := by
  obtain ⟨columns, hcolumns, hruled⟩ := Columns.exists_columns_of_isTableStart hruler
  rw [beginTable, hcolumns]
  exact hruled

/-- **Every line keeps the columns of an open table those of some ruler.** This is what the mode
alone does not say, and what makes the cells of a row lie one behind another. -/
theorem ruled_consume {rule : OpenRule} (h : rule.mode.Ruled) (full line : List Char) :
    (rule.consume full line).mode.Ruled := by
  unfold consume
  split
  · next hmode =>
    split
    · trivial
    · exact h
  · next isOpen hmode =>
    split
    · trivial
    · split
      · unfold addProse
        split
        · exact ruled_closeParagraph h
        · trivial
      · split
        · next hruler => exact ruled_beginTable rule hruler
        · exact h
  · next columns pending hmode =>
    split
    · trivial
    · split
      · unfold addRow
        split
        · exact h
        · rw [hmode] at h
          exact h
      · split
        · exact ruled_flushParameter h
        · trivial

end OpenRule

namespace Session

/-- The mode of the rule that is open, if one is, has columns of a ruler where it has any. -/
def Ruled (session : Session) : Prop :=
  ∀ rule, session.current = some rule → rule.mode.Ruled

/-- Without an open rule there is no table. -/
theorem ruled_of_closed {session : Session} (h : session.current = none) : session.Ruled := by
  intro rule hrule
  rw [h] at hrule
  cases hrule

/-- A title opens a rule in description mode. -/
theorem ruled_seekTitle {session : Session} (h : session.current = none) (line : List Char) :
    (session.seekTitle line).1.Ruled := by
  cases htitle : titleName? line with
  | none =>
    rw [seekTitle_of_noTitle htitle]
    exact ruled_of_closed h
  | some name =>
    rw [seekTitle_of_title htitle, openRule_fst]
    rintro rule ⟨rfl⟩
    trivial

/-- **Every line keeps the columns of an open table those of some ruler.** -/
theorem ruled_consume {session : Session} (h : session.Ruled) (full : List Char) :
    (session.consume full).1.Ruled := by
  by_cases hends : endsRule full (Text.trim full)
  · rw [consume_of_endsRule hends, consume_of_closed (current_finish session)]
    exact ruled_seekTitle (current_finish session) _
  · cases hcurrent : session.current with
    | none =>
      rw [consume_of_closed hcurrent]
      exact ruled_seekTitle hcurrent _
    | some rule =>
      rw [consume_of_open hcurrent hends]
      rintro next ⟨rfl⟩
      exact OpenRule.ruled_consume (h rule hcurrent) full _

/-- So they are after any lines, by induction on them. -/
theorem ruled_feed (lines : List (List Char)) : (start.feed lines).Ruled :=
  feed_induction (ruled_of_closed rfl) (fun _ full h => ruled_consume h full) lines

/-- **The registers of a session are consistent**: the phase tells which of them are in use. -/
theorem registers_consistent {session : Session} (h : session.Ruled) :
    session.registers.Consistent := by
  cases hcurrent : session.current with
  | none =>
    rw [registers_of_closed hcurrent]
    exact ⟨by simp, by simp, by simp, by simp⟩
  | some rule =>
    rw [registers_of_open hcurrent]
    have hruled := h rule hcurrent
    obtain ⟨entry, mode, interrupted⟩ := rule
    cases mode with
    | description isOpen => exact ⟨by simp [OpenRule.registers], by simp [OpenRule.registers],
        by simp [OpenRule.registers], by simp [OpenRule.registers]⟩
    | code => exact ⟨by simp [OpenRule.registers], by simp [OpenRule.registers],
        by simp [OpenRule.registers], by simp [OpenRule.registers]⟩
    | table columns pending =>
      refine ⟨by simp [OpenRule.registers], by simp [OpenRule.registers],
        by simp [OpenRule.registers], fun _ => ⟨columns, rfl, hruled⟩⟩

end Session

namespace Registers

/-- **The machine reads a file as the session does**, and does not fail, so every theorem on
`Catalogue.ofLines` is one on the machine. -/
theorem readLines_eq (lines : List String) : readLines lines = .ok (Catalogue.ofLines lines) := by
  let last := Session.start.feed (lines.map Session.dropLineEnd)
  have hrun : run {} (lines.map Session.dropLineEnd) = .ok last.registers :=
    Session.run_registers Session.start (lines.map Session.dropLineEnd)
  calc readLines lines
      = last.registers.finishOpen.bind fun closed => .ok closed.finished := by
        rw [readLines, hrun]
        rfl
    _ = .ok last.finish.registers.finished := by
        rw [Session.finishOpen_registers]
        rfl
    _ = .ok (Catalogue.ofLines lines) := by
        rw [Session.registers_of_closed (Session.current_finish last), Session.ofLines_eq]

/-- **The machine never fails.**  After any lines its registers are consistent and show the session
after these lines; the next line does not make it fail, nor does the end of the lines; and the
reading of a whole file gives the catalogue of the file. -/
theorem run_consistent :
    (∀ lines : List (List Char), ∃ r, run {} lines = .ok r ∧ r.Consistent
      ∧ r = (Session.start.feed lines).registers
      ∧ (∀ full, ∃ next, r.consume full = .ok next) ∧ ∃ closed, r.finishOpen = .ok closed)
    ∧ ∀ lines : List String, readLines lines = .ok (Catalogue.ofLines lines) := by
  refine ⟨fun lines => ?_, readLines_eq⟩
  have hconsistent := Session.registers_consistent (Session.ruled_feed lines)
  exact ⟨_, Session.run_registers Session.start lines, hconsistent, rfl,
    fun full => ⟨_, Session.consume_registers _ full⟩, _, Session.finishOpen_registers _⟩

end Registers

end RuleCatalogue
