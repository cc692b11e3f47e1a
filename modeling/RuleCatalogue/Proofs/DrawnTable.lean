import Mathlib.Data.List.Induction
import RuleCatalogue.Line
import RuleCatalogue.Proofs.Text.Substring
import RuleCatalogue.Session

/-!
# Parameter tables as they are drawn

The tests on rulers are stated here by the drawings they accept: `dashedCells widths` is a run of
dashes for each width, closed by a plus sign.  A table opens with a star and three such cells
(`isTableStart_iff`), and the columns of that drawing are known (`ofRuler?_dashedCells`), so the
search for its star and its plus signs never fails (`exists_columns_of_isTableStart`).  Rulers
between rows are drawn alike (`isTableRuler_iff`), and none is taken for a row or for a delimiter.

A drawn table has a ruler that opens it, and then for each parameter some rows and a ruler.  The
rows are drawn to the widths of the opening ruler, so the columns of the ruler cut each row into
its cells again, whatever the cells hold (`DrawnRow.keyCell_drawing` and its siblings).

## Main definitions

* `ParameterRow` and `CaptionRow` are rows drawn to given widths.
* `readParameter` is the parameter that some rows describe, said column by column.
* `DrawnTable` is a whole table, with its lines and its parameters.

## Main results

* `foldl_extendPending`: taking rows one after another gives the parameter of all.
-/

/-! ## Rulers and the columns they fix -/

namespace RuleCatalogue

namespace Line

/-- **Drawn cells**: a run of dashes for each width, closed by a plus sign. -/
def dashedCells (widths : List Nat) : List Char :=
  widths.flatMap fun width => List.replicate width '-' ++ ['+']

/-- A ruler's first cell and the rest of it. -/
theorem dashedCells_cons (width : Nat) (widths : List Nat) :
    dashedCells (width :: widths) = List.replicate width '-' ++ '+' :: dashedCells widths := by
  simp [dashedCells]

/-- A ruler has as many cells as widths were drawn, since each is closed by a plus. -/
theorem cellCount_dashedCells (widths : List Nat) :
    cellCount (dashedCells widths) = widths.length := by
  induction widths with
  | nil => rfl
  | cons width rest ih =>
    simp only [cellCount] at ih
    simp [cellCount, dashedCells_cons, List.count_replicate, ih]

/-- The check of a ruler goes through a run of dashes at once, and remembers whether it has seen
one. -/
theorem isDashedCells_replicate (dashed : Bool) (width : Nat) (cells : List Char) :
    isDashedCells dashed (List.replicate width '-' ++ '+' :: cells)
      = ((dashed || decide (0 < width)) && (cells.isEmpty || isDashedCells false cells)) := by
  induction width generalizing dashed with
  | zero => simp [isDashedCells]
  | succ width ih => simp [List.replicate_succ, isDashedCells, ih]

/-- What is drawn passes the check of rulers.  A cell of no width or a ruler of no cells would not,
hence the hypotheses. -/
theorem isDashedCells_dashedCells {widths : List Nat} (hne : widths ≠ [])
    (hpos : ∀ width ∈ widths, 0 < width) : isDashedCells false (dashedCells widths) := by
  induction widths with
  | nil => exact absurd rfl hne
  | cons width rest ih =>
    have hwidth : 0 < width := hpos width (by simp)
    rw [dashedCells_cons, isDashedCells_replicate]
    cases rest with
    | nil => simp [dashedCells, hwidth]
    | cons next more =>
      have hrest : isDashedCells false (dashedCells (next :: more)) :=
        ih (by simp) fun w hw => hpos w (List.mem_cons_of_mem _ hw)
      rw [hrest]
      simp [hwidth]

/-- What is accepted as dashed cells is drawn so; a cell that has dashes before the text may have
none in it. -/
theorem exists_widths_of_isDashedCells {dashed : Bool} {s : List Char}
    (h : isDashedCells dashed s) :
    ∃ width widths, s = dashedCells (width :: widths) ∧ (dashed = false → 0 < width) ∧
      ∀ w ∈ widths, 0 < w := by
  induction s generalizing dashed with
  | nil => simp [isDashedCells] at h
  | cons c rest ih =>
    unfold isDashedCells at h
    split at h
    · next heq =>
      cases heq
      obtain ⟨width, widths, rfl, -, hwidths⟩ := ih h
      exact ⟨width + 1, widths, by simp [dashedCells_cons, List.replicate_succ],
        fun _ => Nat.succ_pos width, hwidths⟩
    · next heq =>
      cases heq
      obtain ⟨hdashed, hrest⟩ := Bool.and_eq_true_iff.mp h
      rcases Bool.or_eq_true_iff.mp hrest with hempty | hcells
      · exact ⟨0, [], by simpa [dashedCells] using hempty, by simp [hdashed], by simp⟩
      · obtain ⟨width, widths, rfl, hwidth, hwidths⟩ := ih hcells
        refine ⟨0, width :: widths, by simp [dashedCells_cons], by simp [hdashed], fun w hw => ?_⟩
        rcases List.mem_cons.mp hw with rfl | hw
        · exact hwidth rfl
        · exact hwidths w hw
    · simp at h

/-- **The ruler that opens a table** is a star and three cells, each with a dash.  Both directions
are used: `ofRuler?_ruler` draws such rulers, and `exists_columns_of_isTableStart` reads any of
them. -/
theorem isTableStart_iff {s : List Char} :
    isTableStart s ↔ ∃ a b c, 0 < a ∧ 0 < b ∧ 0 < c ∧ s = '*' :: dashedCells [a, b, c] := by
  constructor
  · intro h
    unfold isTableStart at h
    split at h
    · next cells =>
      obtain ⟨hcells, hcount⟩ := Bool.and_eq_true_iff.mp h
      obtain ⟨a, widths, rfl, ha, hwidths⟩ := exists_widths_of_isDashedCells hcells
      have hlength : (a :: widths).length = 3 := by
        rw [← cellCount_dashedCells]
        exact eq_of_beq hcount
      match widths, hlength with
      | [b, c], _ => exact ⟨a, b, c, ha rfl, hwidths b (by simp), hwidths c (by simp), rfl⟩
    · simp at h
  · rintro ⟨a, b, c, ha, hb, hc, rfl⟩
    have hcells : isDashedCells false (dashedCells [a, b, c]) :=
      isDashedCells_dashedCells (by simp) (by simp [ha, hb, hc])
    simp only [isTableStart, hcells, cellCount_dashedCells]
    rfl

/-- **A ruler between rows** is a plus sign and dashed cells, or drawn like the opening one.  The
second alternative is why `isTableStart_ruler` and `isTableRuler_ruler` hold of the same drawing. -/
theorem isTableRuler_iff {s : List Char} :
    isTableRuler s ↔
      (∃ widths, widths ≠ [] ∧ (∀ width ∈ widths, 0 < width) ∧ s = '+' :: dashedCells widths)
        ∨ ∃ a b c, 0 < a ∧ 0 < b ∧ 0 < c ∧ s = '*' :: dashedCells [a, b, c] := by
  constructor
  · intro h
    unfold isTableRuler at h
    split at h
    · obtain ⟨width, widths, rfl, hwidth, hwidths⟩ := exists_widths_of_isDashedCells h
      refine Or.inl ⟨width :: widths, List.cons_ne_nil _ _, fun w hw => ?_, rfl⟩
      rcases List.mem_cons.mp hw with rfl | hw
      · exact hwidth rfl
      · exact hwidths w hw
    · exact Or.inr (isTableStart_iff.mp h)
  · rintro (⟨widths, hne, hpos, rfl⟩ | ⟨a, b, c, ha, hb, hc, rfl⟩)
    · exact isDashedCells_dashedCells hne hpos
    · exact isTableStart_iff.mpr ⟨a, b, c, ha, hb, hc, rfl⟩

/-- Drawn cells end in a plus sign. -/
theorem exists_dashedCells_eq_append {widths : List Nat} (h : widths ≠ []) :
    ∃ before, dashedCells widths = before ++ ['+'] := by
  refine ⟨dashedCells widths.dropLast ++ List.replicate (widths.getLast h) '-', ?_⟩
  calc dashedCells widths
      = dashedCells (widths.dropLast ++ [widths.getLast h]) := by
        rw [List.dropLast_concat_getLast h]
    _ = dashedCells widths.dropLast ++ List.replicate (widths.getLast h) '-' ++ ['+'] := by
        simp [dashedCells]

/-- What a ruler looks like at its two ends. -/
theorem ends_of_isTableRuler {s : List Char} (h : isTableRuler s) :
    ∃ first between, (first = '+' ∨ first = '*') ∧ s = first :: '-' :: between ++ ['+'] := by
  have cells {width : Nat} (hwidth : 0 < width) (widths : List Nat) :
      ∃ between, dashedCells (width :: widths) = '-' :: between ++ ['+'] := by
    obtain ⟨n, rfl⟩ : ∃ n, width = n + 1 := ⟨width - 1, by omega⟩
    obtain ⟨between, hbetween⟩ := exists_dashedCells_eq_append (List.cons_ne_nil n widths)
    refine ⟨between, ?_⟩
    rw [List.cons_append, ← hbetween, dashedCells_cons, dashedCells_cons, List.replicate_succ,
      List.cons_append]
  rcases isTableRuler_iff.mp h with ⟨widths, hne, hpos, rfl⟩ | ⟨a, b, c, ha, -, -, rfl⟩
  · cases widths with
    | nil => exact absurd rfl hne
    | cons width widths =>
      obtain ⟨between, hbetween⟩ := cells (hpos width List.mem_cons_self) widths
      exact ⟨'+', between, Or.inl rfl, by rw [hbetween]; rfl⟩
  · obtain ⟨between, hbetween⟩ := cells ha [b, c]
    exact ⟨'*', between, Or.inr rfl, by rw [hbetween]; rfl⟩

/-- No ruler is a delimiter of example code: behind its first character stands a plus sign. -/
theorem not_isExampleDelimiter_of_isTableRuler {s : List Char} (h : isTableRuler s) :
    isExampleDelimiter s = false := by
  obtain ⟨first, between, hfirst, rfl⟩ := ends_of_isTableRuler h
  rcases hfirst with rfl | rfl
  · simp [isExampleDelimiter, isDashes]
  · simp [isExampleDelimiter, isDashes]

/-- A ruler is not a row: no line begins with the marks of both. -/
theorem not_isTableRow_of_isTableRuler {s : List Char} (h : isTableRuler s) :
    isTableRow s = false := by
  obtain ⟨first, between, hfirst, rfl⟩ := ends_of_isTableRuler h
  rcases hfirst with rfl | rfl
  · rfl
  · rfl

end Line

namespace Columns

open Line

/-- **The columns of a drawn ruler** begin behind the star and behind the ends of its first two
cells; further cells do not matter. -/
theorem ofRuler?_dashedCells (a b : Nat) (widths : List Nat) :
    ofRuler? ('*' :: dashedCells (a :: b :: widths)) = some ⟨1, a + 2, a + b + 3⟩ := by
  have hstar : Text.splitAtFirst? ['*'] ('*' :: dashedCells (a :: b :: widths))
      = some ([], dashedCells (a :: b :: widths)) :=
    Text.splitAtFirst?_append List.not_mem_nil _
  have hcell (width : Nat) (rest : List Nat) :
      Text.splitAtFirst? ['+'] (dashedCells (width :: rest))
        = some (List.replicate width '-', dashedCells rest) := by
    rw [dashedCells_cons]
    exact Text.splitAtFirst?_append (by simp) _
  simp only [ofRuler?, hstar, hcell, Option.bind_eq_bind, Option.bind_some,
    List.length_nil, List.length_replicate, Option.pure_def, Option.some.injEq, Columns.mk.injEq]
  exact ⟨trivial, by omega, by omega⟩

/-- **Columns as a ruler draws them**: the first begins behind one character, and between the
beginnings of two there is room for a cell and its end. -/
structure Ruled (columns : Columns) : Prop where
  keyStart : columns.keyStart = 1
  descriptionStart : 3 ≤ columns.descriptionStart
  defaultStart : columns.descriptionStart + 2 ≤ columns.defaultStart

/-- **A ruler that opens a table has columns**, and they are `Ruled`: they begin one behind another.
A reader that has seen the ruler never lacks them. -/
theorem exists_columns_of_isTableStart {ruler : List Char} (h : isTableStart ruler) :
    ∃ columns, ofRuler? ruler = some columns ∧ columns.Ruled := by
  obtain ⟨a, b, c, ha, hb, -, rfl⟩ := isTableStart_iff.mp h
  exact ⟨_, ofRuler?_dashedCells a b [c], rfl, by simp; omega, by simp; omega⟩

end Columns

end RuleCatalogue

/-! ## Parameter tables as they are drawn -/

namespace RuleCatalogue

open Text

/-- What is sliced out of a row are the characters between the offsets. -/
theorem Columns.slice_of_append {row before cell after : List Char} {start stop : Nat}
    (hrow : row = before ++ cell ++ after) (hstart : before.length = start)
    (hstop : (before ++ cell).length = stop) : Columns.slice row start stop = cell := by
  rw [Columns.slice, hrow, List.take_left' hstop, List.drop_left' hstart]

/-- **The widths of the three columns** of a table. -/
structure Widths where
  key : Nat
  description : Nat
  value : Nat
  key_pos : 0 < key
  description_pos : 0 < description
  value_pos : 0 < value

namespace Widths

/-- The ruler that opens a table of these widths. -/
def ruler (w : Widths) : List Char :=
  '*' :: Line.dashedCells [w.key, w.description, w.value]

/-- The columns of a table of these widths. -/
def columns (w : Widths) : Columns where
  keyStart := 1
  descriptionStart := w.key + 2
  defaultStart := w.key + w.description + 3

/-- **The columns read from a ruler are those it was drawn with.** This holds for any `Widths`, so
no bound on the width of a table enters what follows. -/
theorem ofRuler?_ruler (w : Widths) : Columns.ofRuler? w.ruler = some w.columns :=
  Columns.ofRuler?_dashedCells w.key w.description [w.value]

/-- A ruler of three or more cells starts a table. -/
theorem isTableStart_ruler (w : Widths) : Line.isTableStart w.ruler :=
  Line.isTableStart_iff.mpr
    ⟨w.key, w.description, w.value, w.key_pos, w.description_pos, w.value_pos, rfl⟩

/-- A ruler is a ruler inside a table as well. -/
theorem isTableRuler_ruler (w : Widths) : Line.isTableRuler w.ruler :=
  w.isTableStart_ruler

end Widths

/-- **Blank characters** before a drawing. -/
structure Indent where
  text : List Char
  blank : text.all isBlank

/-- Indenting a line does not change its trimmed form. -/
theorem Indent.trim_append (indent : Indent) {s : List Char} (h : Trimmed s) :
    trim (indent.text ++ s) = s := by
  have hpadded := trim_padded (List.all_eq_true.mp indent.blank)
    (List.forall_mem_nil fun c => isBlank c) h
  rwa [List.append_nil] at hpadded

/-! ## Rulers and rows -/

/-- **A ruler as it stands in a table.** -/
structure DrawnRuler where
  indent : Indent
  drawing : List Char
  isTableRuler : Line.isTableRuler drawing

namespace DrawnRuler

/-- The line of the ruler. -/
def line (ruler : DrawnRuler) : List Char :=
  ruler.indent.text ++ ruler.drawing

/-- The trimmed line of a ruler is the ruler as drawn: a ruler begins and ends with marks that are
not blank. -/
theorem trim_line (ruler : DrawnRuler) : trim ruler.line = ruler.drawing := by
  obtain ⟨first, between, hfirst, hdrawing⟩ := Line.ends_of_isTableRuler ruler.isTableRuler
  refine ruler.indent.trim_append ?_
  rw [hdrawing]
  constructor
  · rintro c ⟨rfl⟩
    rcases hfirst with rfl | rfl <;> decide
  · intro c hc
    rw [List.getLast?_concat] at hc
    cases hc
    decide

end DrawnRuler

/-- **A row as it stands in a table**: three cells of the widths of the columns, on one line. -/
structure DrawnRow (w : Widths) where
  indent : Indent
  key : List Char
  description : List Char
  value : List Char
  length_key : key.length = w.key
  length_description : description.length = w.description
  length_value : value.length = w.value
  oneLine : '\n' ∉ key ++ description ++ value

namespace DrawnRow

variable {w : Widths} (row : DrawnRow w)

/-- The cells between bars. -/
def drawing : List Char :=
  '|' :: (row.key ++ '|' :: (row.description ++ '|' :: row.value)) ++ ['|']

/-- The line of the row. -/
def line : List Char :=
  row.indent.text ++ row.drawing

/-- The trimmed line of a row is the row as drawn. -/
theorem trim_line : trim row.line = row.drawing := by
  refine row.indent.trim_append ⟨?_, ?_⟩
  · rintro c ⟨rfl⟩
    decide
  · rw [drawing, List.getLast?_concat]
    rintro c ⟨rfl⟩
    decide

/-- A drawn row is a row. -/
theorem isTableRow_drawing : Line.isTableRow row.drawing := by
  have honeLine := row.oneLine
  simp only [List.mem_append, not_or] at honeLine
  simp [drawing, Line.isTableRow, honeLine]

/-- A drawn row begins with a bar and not with the dashes of a code block. -/
theorem not_isExampleDelimiter_drawing : Line.isExampleDelimiter row.drawing = false := by
  simp [drawing, Line.isExampleDelimiter, Line.isDashes]

/-- Cutting a drawn row at the ruler's columns gives back its first cell, blanks and all. -/
@[simp] theorem keyCell_drawing : w.columns.keyCell row.drawing = row.key := by
  have hparts : row.drawing
      = ['|'] ++ row.key ++ ('|' :: (row.description ++ '|' :: row.value) ++ ['|']) := by
    simp [drawing]
  refine Columns.slice_of_append hparts rfl ?_
  simp [Widths.columns, row.length_key]

/-- The second cell. -/
@[simp] theorem descriptionCell_drawing :
    w.columns.descriptionCell row.drawing = row.description := by
  have hparts : row.drawing
      = ('|' :: row.key ++ ['|']) ++ row.description ++ ('|' :: row.value ++ ['|']) := by
    simp [drawing]
  refine Columns.slice_of_append hparts ?_ ?_
  · simp [Widths.columns, row.length_key]
  · simp [Widths.columns, row.length_key, row.length_description]
    omega

/-- The third cell, with whatever stands behind it on the line. -/
@[simp] theorem defaultCell_drawing : w.columns.defaultCell row.drawing = row.value := by
  have hparts : row.drawing
      = ('|' :: (row.key ++ '|' :: row.description) ++ ['|']) ++ row.value ++ ['|'] := by
    simp [drawing]
  refine Columns.slice_of_append hparts ?_ ?_
  · simp [Widths.columns, row.length_key, row.length_description]
    omega
  · simp [drawing]
    omega

end DrawnRow

/-- **A row that describes a parameter**: its key cell is not the caption of the column. -/
structure ParameterRow (w : Widths) extends DrawnRow w where
  notCaption : Line.isCaption key = false

/-- **A caption row**, known by its key cell. -/
structure CaptionRow (w : Widths) extends DrawnRow w where
  isCaption : Line.isCaption key = true

/-! ## The parameter that rows describe -/

/-- The trimmed cells of a column that are not blank. -/
def filled (cells : List (List Char)) : List (List Char) :=
  (cells.map trim).filter (· ≠ [])

/-- **The key**: the trimmed cells one after another, without their dashes. -/
def readKey (cells : List (List Char)) : String :=
  String.ofList (cells.flatMap fun cell => (trim cell).filter (· != '-'))

/-- A cell without its angle brackets. -/
def withoutBrackets (cell : List Char) : String :=
  String.ofList (cell.filter fun c => c != '<' && c != '>')

/-- **The description**: the filled cells without their brackets, joined by spaces, from the first
that is not empty then. -/
def readDescription (cells : List (List Char)) : String :=
  join " " (((filled cells).map withoutBrackets).dropWhile String.isEmpty)

/-- The first value that is not blank, or else the last one. -/
def firstShown (values : List String) : String :=
  (values.find? fun value => !isBlankText value).getD (values.getLast?.getD "")

/-- **The default value**: of the filled cells without their marks, the first that is not blank. -/
def readDefaultValue (cells : List (List Char)) : String :=
  firstShown ((filled cells).map fun cell => String.ofList (Markup.defaultValue cell))

/-- **The parameter that some rows describe**, column by column. -/
def readParameter {w : Widths} (rows : List (ParameterRow w)) : Parameter where
  key := readKey (rows.map (·.key))
  description := readDescription (rows.map (·.description))
  defaultValue := readDefaultValue (rows.map (·.value))

/-- A row adds its trimmed cell, unless that is empty. -/
theorem filled_snoc (cells : List (List Char)) (cell : List Char) :
    filled (cells ++ [cell])
      = if trim cell = [] then filled cells else filled cells ++ [trim cell] := by
  by_cases hcell : trim cell = [] <;> simp [filled, hcell]

/-- A row adds its part of the key without the dashes that divide it. -/
theorem readKey_snoc (cells : List (List Char)) (cell : List Char) :
    readKey (cells ++ [cell]) = readKey cells ++ String.ofList ((trim cell).filter (· != '-')) := by
  rw [readKey, List.flatMap_append, String.ofList_append]
  simp [readKey]

/-- Joining from the first text that is not empty puts no space before the first text. -/
theorem join_dropWhile_snoc (texts : List String) (last : String) :
    join " " ((texts ++ [last]).dropWhile String.isEmpty) =
      if (join " " (texts.dropWhile String.isEmpty)).isEmpty then last
      else join " " (texts.dropWhile String.isEmpty) ++ " " ++ last := by
  rw [List.dropWhile_append]
  cases htexts : texts.dropWhile String.isEmpty with
  | nil =>
    -- Nothing is joined yet, so `last` begins the text, or leaves it empty if it is empty itself.
    by_cases hlast : last.isEmpty
    · have hempty : last = "" := String.isEmpty_iff.mp hlast
      rw [hempty]
      rfl
    · simp [join, hlast]
  | cons first rest =>
    have hfirst : first.isEmpty = false := by
      have hhead := List.head?_dropWhile_not String.isEmpty texts
      rwa [htexts] at hhead
    have hjoined : (join " " (first :: rest)).isEmpty = false := by
      obtain ⟨more, hmore⟩ := exists_join_cons_eq " " first rest
      rw [hmore]
      simp_all
    rw [hjoined, List.isEmpty_cons, if_neg Bool.false_ne_true, if_neg Bool.false_ne_true,
      join_append_singleton (List.cons_ne_nil first rest)]

/-- A row adds its part of the description behind a space, without one while the description is
empty. -/
theorem readDescription_snoc (cells : List (List Char)) (cell : List Char) :
    readDescription (cells ++ [cell]) =
      if trim cell = [] then readDescription cells
      else
        let text := withoutBrackets (trim cell)
        if (readDescription cells).isEmpty then text else readDescription cells ++ " " ++ text := by
  rw [readDescription, filled_snoc]
  split
  · rfl
  · rw [List.map_append, List.map_singleton]
    exact join_dropWhile_snoc _ _

/-- A later value counts only while none that shows has been found. -/
theorem firstShown_snoc (values : List String) (last : String) :
    firstShown (values ++ [last])
      = if isBlankText (firstShown values) then last else firstShown values := by
  cases hfind : values.find? fun value => !isBlankText value with
  | some value =>
    have hvalue : firstShown values = value := by simp [firstShown, hfind]
    have hshown := List.find?_some hfind
    rw [hvalue, if_neg (by simpa using hshown)]
    simp [firstShown, hfind]
  | none =>
    -- No value is kept for good: what stands there is blank or missing, and `last` replaces it.
    have hblank : isBlankText (firstShown values) := by
      rw [firstShown, hfind, Option.getD_none]
      cases hlast : values.getLast? with
      | none => rfl
      | some value =>
        have hnone := List.find?_eq_none.mp hfind value (List.mem_of_getLast? hlast)
        simpa using hnone
    rw [if_pos hblank, firstShown, List.find?_append, hfind, List.getLast?_concat]
    cases hlast : isBlankText last <;> simp [hlast]

/-- **The first value that shows is the default value**; later rows do not add to it. -/
theorem readDefaultValue_snoc (cells : List (List Char)) (cell : List Char) :
    readDefaultValue (cells ++ [cell]) =
      if trim cell = [] ∨ ¬ isBlankText (readDefaultValue cells) then readDefaultValue cells
      else String.ofList (Markup.defaultValue (trim cell)) := by
  rw [readDefaultValue, filled_snoc]
  by_cases hcell : trim cell = []
  · rw [if_pos hcell, if_pos (Or.inl hcell)]
    rfl
  · have hread :
        firstShown ((filled cells).map fun cell => String.ofList (Markup.defaultValue cell))
          = readDefaultValue cells := rfl
    rw [if_neg hcell, List.map_append, List.map_singleton, firstShown_snoc, hread]
    by_cases hblank : isBlankText (readDefaultValue cells) <;> simp [hcell, hblank]

namespace OpenRule

variable (columns : Columns) (pending : Parameter) (row : List Char)

/-- Each column adds to the parameter in progress by itself. -/
theorem extendPending_eq :
    extendPending columns pending row =
      { key := pending.key ++ String.ofList ((trim (columns.keyCell row)).filter (· != '-'))
        description :=
          if trim (columns.descriptionCell row) = [] then pending.description
          else
            let text := withoutBrackets (trim (columns.descriptionCell row))
            if pending.description.isEmpty then text else pending.description ++ " " ++ text
        defaultValue :=
          if trim (columns.defaultCell row) = [] ∨ ¬ isBlankText pending.defaultValue then
            pending.defaultValue
          else String.ofList (Markup.defaultValue (trim (columns.defaultCell row))) } := by
  unfold extendPending
  cases trim (columns.keyCell row) <;> cases trim (columns.defaultCell row) <;>
    cases trim (columns.descriptionCell row) <;> cases hblank : isBlankText pending.defaultValue <;>
    simp [Parameter.hasDefaultValue, Parameter.extendKey, Parameter.withDefaultValue,
      Parameter.extendDescription, Markup.cell, withoutBrackets, hblank]

/-- **One more row** of a parameter is what the row adds to the rows before it: `extendPending` is
the step of the reader, and `readParameter` what is read in the end. -/
theorem readParameter_snoc {w : Widths} (rows : List (ParameterRow w)) (row : ParameterRow w) :
    readParameter (rows ++ [row]) = extendPending w.columns (readParameter rows) row.drawing := by
  rw [extendPending_eq, row.keyCell_drawing, row.descriptionCell_drawing, row.defaultCell_drawing]
  simp only [readParameter, List.map_append, List.map_singleton, readKey_snoc,
    readDescription_snoc, readDefaultValue_snoc]
  rfl

/-- **Rows taken one after another** build up the parameter that all of them describe, by
`readParameter_snoc` from the left. -/
theorem foldl_extendPending {w : Widths} (rows : List (ParameterRow w)) :
    rows.foldl (fun pending row => extendPending w.columns pending row.drawing) {}
      = readParameter rows := by
  induction rows using List.reverseRecOn with
  | nil => rfl
  | append_singleton rows row ih =>
    rw [List.foldl_append, List.foldl_cons, List.foldl_nil, ih, readParameter_snoc]

end OpenRule

/-! ## Whole tables -/

/-- **What may stand between the opening ruler and the first parameter**: captions, and rulers once
more. -/
inductive Heading (w : Widths)
  | caption (row : CaptionRow w)
  | repeated (ruler : DrawnRuler)

/-- The line of a caption or a ruler. -/
def Heading.line {w : Widths} : Heading w → List Char
  | .caption row => row.line
  | .repeated ruler => ruler.line

/-- **The rows of a parameter** and the ruler behind them. -/
structure DrawnParameter (w : Widths) where
  rows : List (ParameterRow w)
  ruler : DrawnRuler

/-- The lines of a parameter, with its ruler. -/
def DrawnParameter.lines {w : Widths} (drawn : DrawnParameter w) : List (List Char) :=
  drawn.rows.map (·.line) ++ [drawn.ruler.line]

/-- The parameter that the rows describe. -/
def DrawnParameter.parameter {w : Widths} (drawn : DrawnParameter w) : Parameter :=
  readParameter drawn.rows

/-- **A drawn table.**  Behind the last ruler may stand the rows of one more parameter. -/
structure DrawnTable where
  widths : Widths
  opening : DrawnRuler
  opening_drawing : opening.drawing = widths.ruler
  headings : List (Heading widths)
  ruled : List (DrawnParameter widths)
  last : List (ParameterRow widths)

namespace DrawnTable

/-- The lines of the table. -/
def lines (table : DrawnTable) : List (List Char) :=
  table.opening.line :: table.headings.map Heading.line
    ++ table.ruled.flatMap DrawnParameter.lines ++ table.last.map (·.line)

/-- The parameters of the table, among them such as are blank. -/
def parameters (table : DrawnTable) : List Parameter :=
  table.ruled.map DrawnParameter.parameter ++ [readParameter table.last]

/-- **The table was added to an entry**: the entry has the parameters that it had before and those
of the table that are not blank, and no others. -/
def AddedTo (table : DrawnTable) (before after : RuleEntry) : Prop :=
  after.name = before.name ∧ ∀ p, p ∈ after.parameters ↔
    p ∈ before.parameters ∨ (p ∈ table.parameters ∧ p.isBlank = false)

end DrawnTable

end RuleCatalogue
