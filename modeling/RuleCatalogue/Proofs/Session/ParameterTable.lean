import RuleCatalogue.Proofs.DrawnTable
import RuleCatalogue.Proofs.Session.Boundary

/-!
# Reading a parameter table back

Where the lines of a drawn table follow the description of a rule, the rule is given the parameters
that the table was drawn from.  Nothing depends on what the cells hold or on how the table ends: the
end of the lines, the next title, example code and any other line all file the last parameter.

## Main statements

* `OpenRule.feed_lines`: what the rule is after the lines of a table.
* `Session.addedTo_feed_lines`: what its parameters are however the table ends.

## Design notes

While a table is read a rule differs from itself by its mode alone, so its states are written
`rule.inTable columns pending`.  A row changes `pending`, a ruler files it in the entry of `rule`,
and no line changes the columns.
-/

namespace RuleCatalogue

open Text

namespace OpenRule

/-- **The rule in a table**, with these columns and this parameter in progress. -/
def inTable (rule : OpenRule) (columns : Columns) (pending : Parameter) : OpenRule :=
  { rule with mode := .table columns pending }

/-! ## One line of a table -/

variable {w : Widths} (rule : OpenRule) (columns : Columns) (pending : Parameter)

theorem consume_row (row : ParameterRow w) :
    (rule.inTable w.columns pending).consume row.line (trim row.line)
      = rule.inTable w.columns (extendPending w.columns pending row.drawing) := by
  have hdelimiter := row.not_isExampleDelimiter_drawing
  simp [consume, inTable, addRow, row.trim_line, hdelimiter, row.isTableRow_drawing,
    row.notCaption]

theorem consume_captionRow (row : CaptionRow w) :
    (rule.inTable w.columns pending).consume row.line (trim row.line)
      = rule.inTable w.columns pending := by
  have hdelimiter := row.not_isExampleDelimiter_drawing
  simp [consume, inTable, addRow, row.trim_line, hdelimiter, row.isTableRow_drawing,
    row.isCaption]

theorem consume_ruler (ruler : DrawnRuler) :
    (rule.inTable columns pending).consume ruler.line (trim ruler.line)
      = (rule.mapEntry fun e => e.addParameter pending).inTable columns {} := by
  have hdelimiter := Line.not_isExampleDelimiter_of_isTableRuler ruler.isTableRuler
  have hrow := Line.not_isTableRow_of_isTableRuler ruler.isTableRuler
  simp [consume, inTable, mapEntry, flushParameter, ruler.trim_line, hdelimiter, hrow,
    ruler.isTableRuler]

/-- The opening ruler begins a table wherever a description may stand. -/
theorem consume_opening {paragraphOpen : Bool} (hmode : rule.mode = .description paragraphOpen)
    (opening : DrawnRuler) (hdrawing : opening.drawing = w.ruler) :
    rule.consume opening.line (trim opening.line)
      = { rule.closeParagraph with interrupted := none }.inTable w.columns {} := by
  have hdelimiter := Line.not_isExampleDelimiter_of_isTableRuler w.isTableRuler_ruler
  have hprose : Line.isProse w.ruler = false := by
    simp [Line.isProse, w.isTableRuler_ruler]
  simp [consume, hmode, opening.trim_line, hdrawing, hdelimiter, hprose, w.isTableStart_ruler,
    beginTable, w.ofRuler?_ruler, inTable]

/-- A line that is neither a row nor a ruler files the parameter in progress, and no other. -/
theorem parameters_consume_inTable {full line : List Char} (hrow : ¬ Line.isTableRow line)
    (hruler : ¬ Line.isTableRuler line) :
    ((rule.inTable columns pending).consume full line).entry.parameters
      = (rule.entry.addParameter pending).parameters := by
  by_cases hdelimiter : Line.isExampleDelimiter line
  · simp [consume, inTable, hdelimiter, beginCode, closeParagraph, flushParameter, append]
  · simp [consume, inTable, hdelimiter, hrow, hruler, flushParameter]

/-! ## All lines of a table -/

theorem feed_rows (rows : List (ParameterRow w)) :
    (rule.inTable w.columns {}).feed (rows.map (·.line))
      = rule.inTable w.columns (readParameter rows) := by
  have taken (pending : Parameter) : (rule.inTable w.columns pending).feed (rows.map (·.line))
      = rule.inTable w.columns
        (rows.foldl (fun pending row => extendPending w.columns pending row.drawing) pending) := by
    induction rows generalizing pending with
    | nil => rfl
    | cons row rows ih => rw [List.map_cons, feed_cons, consume_row, ih, List.foldl_cons]
  rw [taken, foldl_extendPending]

/-- Captions and rulers before the first parameter add nothing. -/
theorem feed_headings (headings : List (Heading w)) :
    (rule.inTable w.columns {}).feed (headings.map Heading.line) = rule.inTable w.columns {} := by
  have hblank : rule.mapEntry (fun e => e.addParameter {}) = rule := by
    rw [mapEntry, RuleEntry.addParameter_of_isBlank rfl]
  induction headings with
  | nil => rfl
  | cons heading headings ih =>
    rw [List.map_cons, feed_cons]
    cases heading with
    | caption row => rw [Heading.line, consume_captionRow, ih]
    | repeated ruler => rw [Heading.line, consume_ruler, hblank, ih]

theorem feed_ruled (ruled : List (DrawnParameter w)) :
    (rule.inTable w.columns {}).feed (ruled.flatMap DrawnParameter.lines)
      = (rule.mapEntry fun e => e.addParameters (ruled.map DrawnParameter.parameter)).inTable
          w.columns {} := by
  induction ruled generalizing rule with
  | nil => rfl
  | cons drawn ruled ih =>
    rw [List.flatMap_cons, DrawnParameter.lines, feed_append, feed_append, feed_rows, feed_cons,
      consume_ruler]
    exact ih (rule.mapEntry fun e => e.addParameter drawn.parameter)

/-- **After the lines of a table** the rule has the parameters with rulers behind them, and the last
one is in progress.  The induction is on the parameters drawn; each is read by
`foldl_extendPending`. -/
theorem feed_lines {paragraphOpen : Bool} (hmode : rule.mode = .description paragraphOpen)
    (table : DrawnTable) :
    rule.feed table.lines
      = ({ rule.closeParagraph with interrupted := none }.mapEntry fun e =>
          e.addParameters (table.ruled.map DrawnParameter.parameter)).inTable
        table.widths.columns (readParameter table.last) := by
  rw [DrawnTable.lines, feed_append, feed_append, feed_cons,
    consume_opening rule hmode table.opening table.opening_drawing, feed_headings, feed_ruled,
    feed_rows]

/-- Where the last parameter is filed behind the others, the whole table was added. -/
theorem addedTo_of_parameters {table : DrawnTable} {before : OpenRule} {after : RuleEntry}
    (hname : after.name = before.entry.name)
    (hparameters : after.parameters
      = ((before.closeParagraph.entry.addParameters
          (table.ruled.map DrawnParameter.parameter)).addParameter
          (readParameter table.last)).parameters) : table.AddedTo before.entry after := by
  refine ⟨hname, fun p => ?_⟩
  have hbefore : before.closeParagraph.entry.parameters = before.entry.parameters := by
    unfold closeParagraph
    split <;> rfl
  rw [hparameters, RuleEntry.mem_addParameter, RuleEntry.mem_addParameters, hbefore,
    DrawnTable.parameters, List.mem_append, List.mem_singleton, or_assoc]
  refine or_congr_right ?_
  constructor
  · rintro (⟨hruled, hblank⟩ | ⟨rfl, hblank⟩)
    · exact ⟨Or.inl hruled, hblank⟩
    · exact ⟨Or.inr rfl, hblank⟩
  · rintro ⟨hruled | rfl, hblank⟩
    · exact Or.inl ⟨hruled, hblank⟩
    · exact Or.inr ⟨rfl, hblank⟩

end OpenRule

namespace Session

/-! ## The table in a session -/

theorem not_endsRule_of_row {w : Widths} (row : DrawnRow w) :
    ¬ endsRule row.line (trim row.line) := by
  intro h
  rcases trim_of_endsRule h with htrim | ⟨rest, htrim⟩
  · rw [row.trim_line] at htrim
    cases htrim
  · rw [row.trim_line] at htrim
    cases htrim

theorem not_endsRule_of_isTableRuler {full : List Char} (h : Line.isTableRuler (trim full)) :
    ¬ endsRule full (trim full) := by
  obtain ⟨first, between, -, hdrawing⟩ := Line.ends_of_isTableRuler h
  intro hends
  rcases trim_of_endsRule hends with htrim | ⟨rest, htrim⟩
  · rw [hdrawing] at htrim
    cases htrim
  · rw [hdrawing] at htrim
    cases htrim

theorem not_endsRule_of_ruler (ruler : DrawnRuler) :
    ¬ endsRule ruler.line (trim ruler.line) := by
  refine not_endsRule_of_isTableRuler ?_
  rw [ruler.trim_line]
  exact ruler.isTableRuler

/-- No line of a table ends the rule. -/
theorem not_endsRule_of_mem_lines {table : DrawnTable} {full : List Char}
    (h : full ∈ table.lines) : ¬ endsRule full (trim full) := by
  simp only [DrawnTable.lines, List.mem_append, List.mem_cons, List.mem_map, List.mem_flatMap] at h
  rcases h with ((rfl | ⟨heading, -, rfl⟩) | ⟨drawn, -, hdrawn⟩) | ⟨row, -, rfl⟩
  · exact not_endsRule_of_ruler table.opening
  · cases heading with
    | caption row => exact not_endsRule_of_row row.toDrawnRow
    | repeated ruler => exact not_endsRule_of_ruler ruler
  · simp only [DrawnParameter.lines, List.mem_append, List.mem_map, List.mem_singleton] at hdrawn
    rcases hdrawn with ⟨row, -, rfl⟩ | rfl
    · exact not_endsRule_of_row row.toDrawnRow
    · exact not_endsRule_of_ruler drawn.ruler
  · exact not_endsRule_of_row row.toDrawnRow

/-- **A parameter table is read back**, whatever its cells hold and however it ends.  After the
lines of a table the parameters of the rule are the old ones and those of the table that are not
blank: in the entry that the end of the lines or a title files, and in the rule that goes on behind
any other line that is no row and no ruler. -/
theorem addedTo_feed_lines {session : Session} {rule : OpenRule} {paragraphOpen : Bool}
    (hopen : session.current = some rule) (hmode : rule.mode = .description paragraphOpen)
    (table : DrawnTable) :
    let read := session.feed table.lines
    (∃ e, read.finish.finished.get? rule.entry.name = some e ∧ table.AddedTo rule.entry e)
      ∧ (∀ full, endsRule full (trim full) →
        ∃ e, (read.consume full).1.finished.get? rule.entry.name = some e
          ∧ table.AddedTo rule.entry e)
      ∧ ∀ full, ¬ endsRule full (trim full) → ¬ Line.isTableRow (trim full) →
        ¬ Line.isTableRuler (trim full) →
        ∃ next, (read.consume full).1.current = some next
          ∧ table.AddedTo rule.entry next.entry := by
  intro read
  let last := rule.feed table.lines
  have hread : read = { session with current := some last } :=
    feed_of_open hopen fun full hfull => not_endsRule_of_mem_lines hfull
  have hlast := OpenRule.feed_lines rule hmode table
  have hname : last.entry.name = rule.entry.name := OpenRule.name_feed rule table.lines
  have hclosed : ∃ e, read.finish.finished.get? rule.entry.name = some e
      ∧ table.AddedTo rule.entry e := by
    refine ⟨last.close, ?_, OpenRule.addedTo_of_parameters ?_ ?_⟩
    · rw [hread, finish_of_open rfl, hname, Table.get?_insert_self]
    · rw [OpenRule.name_close, hname]
    · rw [show last = _ from hlast]
      rfl
  refine ⟨hclosed, fun full hends => ?_, fun full hends hrow hruler => ?_⟩
  · rwa [finished_consume, if_pos hends]
  · have hcurrent : read.current = some last := by rw [hread]
    rw [consume_of_open hcurrent hends]
    refine ⟨_, rfl, OpenRule.addedTo_of_parameters ?_ ?_⟩
    · rw [OpenRule.name_consume, hname]
    · rw [show last = _ from hlast, OpenRule.parameters_consume_inTable _ _ _ hrow hruler]
      rfl

/-- A table whose cells look like rulers and delimiters, with a caption, a ruler that is repeated, a
parameter on two rows, and a last parameter without a ruler. -/
theorem addedTo_feed_lines_drawn :
    let indent : Indent := ⟨[' ', ' '], by decide⟩
    let w : Widths := ⟨12, 5, 4, by decide, by decide, by decide⟩
    let opening : DrawnRuler := ⟨indent, w.ruler, w.isTableRuler_ruler⟩
    let between : DrawnRuler := ⟨indent, "+--+-+".toList, by decide⟩
    let caption : CaptionRow w :=
      ⟨⟨indent, "<<PROPERTY>>".toList, "<b>  ".toList, "<i> ".toList, rfl, rfl, rfl, by decide⟩,
        by decide⟩
    let upper : ParameterRow w :=
      ⟨⟨indent, "+-----------".toList, "|||||".toList, " '' ".toList, rfl, rfl, rfl, by decide⟩,
        by decide⟩
    let lower : ParameterRow w :=
      ⟨⟨indent, " key -->    ".toList, "*---+".toList, "<12>".toList, rfl, rfl, rfl, by decide⟩,
        by decide⟩
    let blank : ParameterRow w :=
      ⟨⟨indent, "------------".toList, "  <> ".toList, "    ".toList, rfl, rfl, rfl, by decide⟩,
        by decide⟩
    let table : DrawnTable :=
      { widths := w, opening, opening_drawing := rfl,
        headings := [.caption caption, .repeated opening],
        ruled := [⟨[upper, lower], between⟩, ⟨[blank], between⟩],
        last := [lower] }
    let rule : OpenRule := { entry := { name := "Foo" }, mode := .description true }
    let session : Session := { current := some rule }
    session.current = some rule ∧ rule.mode = .description true
      ∧ ¬ endsRule "text".toList (trim "text".toList) ∧ ¬ Line.isTableRow (trim "text".toList)
      ∧ ¬ Line.isTableRuler (trim "text".toList)
      ∧ table.parameters = [⟨"+key >", "||||| *---+", "12"⟩, ⟨"", "", ""⟩, ⟨"key >", "*---+", "12"⟩]
      ∧ ∃ next, ((session.feed table.lines).consume "text".toList).1.current = some next
        ∧ table.AddedTo rule.entry next.entry := by
  intro indent w opening between caption upper lower blank table rule session
  have hends : ¬ endsRule "text".toList (trim "text".toList) := by decide
  have hrow : ¬ Line.isTableRow (trim "text".toList) := by decide
  have hruler : ¬ Line.isTableRuler (trim "text".toList) := by decide
  have hparameters : table.parameters
      = [⟨"+key >", "||||| *---+", "12"⟩, ⟨"", "", ""⟩, ⟨"key >", "*---+", "12"⟩] := by
    decide +kernel
  exact ⟨rfl, rfl, hends, hrow, hruler, hparameters,
    (addedTo_feed_lines rfl rfl table).2.2 "text".toList hends hrow hruler⟩

end Session

namespace Catalogue

/-- **Cells are not simply joined.** Of three cells that are filled, the first and the last hold
brackets alone; the first leaves no space in front of the description, the last leaves one behind
it, as `readDescription` says. -/
theorem description_of_bracket_cells :
    let lines := ["* {Foo} Rule", "*---+---+---+",
      "|k  |<> |   |", "|   | a |   |", "|   |<> |   |", "+---+---+---+"]
    let cells := ["<> ".toList, " a ".toList, "<> ".toList]
    ((ofLines lines).entryOrNew "Foo").parameters.toList = [⟨"k", "a ", ""⟩]
      ∧ Text.join " " ((filled cells).map withoutBrackets) = " a " := by
  decide +kernel

end Catalogue

end RuleCatalogue
