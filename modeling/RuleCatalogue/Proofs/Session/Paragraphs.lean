import RuleCatalogue.Proofs.Session.Description
import RuleCatalogue.Proofs.Session.ParameterTable

/-!
# Code blocks and paragraphs

The lines between two delimiters are code, whatever they look like: rows, rulers, prose and blank
lines are taken as they stand, each converted and closed by a line feed.  Only a delimiter and a
line that ends the rule are not.

Between two paragraphs the lines of a description are read as a whole: noise is dropped, blank
lines part the rest into groups, and each group is one paragraph of its converted lines.  Noise
inside a group does not part it, and several blank lines part like one.

## Main definitions

* `Line.Delimiter` spells the delimiters out.
* `Description.codeBlock` is the text of a block of code.
* `OpenRule.TookCode` is what a block of code does to a rule.
* `Line.InDescription` says which lines a description goes on with.
* `Description.groups` and `Description.paragraphs` are the groups of some lines and their text.
* `Description.remaining` is the text that is still to be written when some of it is.

## Main results

* `OpenRule.feed_codeBlock`: the rule behind a block of code, as one equation.
* `Session.consumeAll_codeBlock`: the same for sessions and lines as they stand in a file, with the
  lines read back from the converted ones.
* `OpenRule.closeParagraph_feed`: a rule behind the lines of a description, as one equation.
* `Session.consumeAll_paragraphs`: the same for sessions and lines as they stand in a file, in each
  way in which a description may end.

## Design notes

The lines are followed from the end of the text: what `remaining` says of a line and those behind
it has one equation for each kind of line, and one line inside a rule has an equation of the same
shape.
-/

/-! ## Example code inside a rule -/

namespace RuleCatalogue

open Text

namespace Line

/-- **The delimiters of example code**: dashes, at least one, which a plus sign may lead. -/
def Delimiter (s : List Char) : Prop :=
  ∃ n, s = List.replicate (n + 1) '-' ∨ s = '+' :: List.replicate (n + 1) '-'

/-- A line of dashes is one dash or more. -/
theorem isDashes_iff {s : List Char} : isDashes s ↔ ∃ n, s = List.replicate (n + 1) '-' := by
  rw [isDashes, Bool.and_eq_true, Bool.not_eq_true', List.isEmpty_eq_false_iff, List.all_eq_true]
  constructor
  · rintro ⟨hne, hall⟩
    refine ⟨s.length - 1, List.eq_replicate_iff.mpr ⟨?_, fun c hc => ?_⟩⟩
    · have hlength : 0 < s.length := List.length_pos_of_ne_nil hne
      omega
    · exact beq_iff_eq.mp (hall c hc)
  · rintro ⟨n, rfl⟩
    refine ⟨List.cons_ne_nil _ _, fun c hc => ?_⟩
    rw [List.eq_of_mem_replicate hc]
    rfl

/-- The check of the reader is the shape that the grammar names. -/
theorem isExampleDelimiter_iff {s : List Char} : isExampleDelimiter s ↔ Delimiter s := by
  unfold isExampleDelimiter
  split
  · next rest =>
    rw [isDashes_iff]
    constructor
    · rintro ⟨n, rfl⟩
      exact ⟨n, Or.inr rfl⟩
    · rintro ⟨n, hdashes | hplus⟩
      · cases hdashes
      · exact ⟨n, (List.cons.inj hplus).2⟩
  · next hplus =>
    rw [isDashes_iff]
    constructor
    · rintro ⟨n, rfl⟩
      exact ⟨n, Or.inl rfl⟩
    · rintro ⟨n, rfl | rfl⟩
      · exact ⟨n, rfl⟩
      · exact absurd rfl (hplus _)

/-- No delimiter begins like a title. -/
theorem Delimiter.ne_star {s : List Char} (h : Delimiter s) (rest : List Char) :
    s ≠ '*' :: rest := by
  rintro rfl
  obtain ⟨n, hdashes | hplus⟩ := h
  · cases hdashes
  · cases hplus

end Line

namespace Description

/-- The converted text of a line of code. -/
def codeText (full : List Char) : String :=
  String.ofList (Markup.code full)

/-- **The text of a block of code** with these lines. -/
def codeBlock (lines : List (List Char)) : String :=
  "<pre>\n" ++ codeLines (lines.map codeText) ++ "</pre>\n"

theorem codeLines_cons (line : String) (lines : List String) :
    codeLines (line :: lines) = line ++ "\n" ++ codeLines lines := by
  rw [codeLines, List.map_cons, String.join_cons, codeLines]

end Description

namespace OpenRule

open Description

variable {rule : OpenRule}

theorem append_append (rule : OpenRule) (first second : String) :
    (rule.append first).append second = rule.append (first ++ second) := by
  simp [append, RuleEntry.append, String.append_assoc]

/-- A line of code is converted, and the rule stays in code. -/
theorem consume_code (hmode : rule.mode = .code) {full : List Char}
    (h : ¬ Line.isExampleDelimiter (trim full)) :
    rule.consume full (trim full) = rule.append (codeText full ++ "\n") := by
  have htext : String.ofList (Markup.code full ++ ['\n']) = codeText full ++ "\n" := by
    rw [String.ofList_append]
    rfl
  rw [consume, hmode]
  simp only [h, Bool.false_eq_true, if_false, htext]

/-- **Lines of code** are converted one by one.  `h` asks that no line ends the block; all other
lines are code, titles and rulers included, once the rule is in this mode. -/
theorem feed_code (hmode : rule.mode = .code) {lines : List (List Char)}
    (h : ∀ full ∈ lines, ¬ Line.isExampleDelimiter (trim full)) :
    rule.feed lines = rule.append (codeLines (lines.map codeText)) := by
  induction lines generalizing rule with
  | nil => simp [feed, codeLines, append, RuleEntry.append]
  | cons full rest ih =>
    have hrest : ∀ other ∈ rest, ¬ Line.isExampleDelimiter (trim other) :=
      fun other hother => h other (List.mem_cons_of_mem full hother)
    have hmode' : (rule.append (codeText full ++ "\n")).mode = .code := hmode
    rw [feed_cons, consume_code hmode (h full List.mem_cons_self), ih hmode' hrest, append_append,
      List.map_cons, codeLines_cons]

/-- The first delimiter ends a paragraph or a row, and begins code. -/
theorem consume_openingDelimiter (hmode : rule.mode ≠ .code) {full line : List Char}
    (h : Line.isExampleDelimiter line) :
    rule.consume full line
      = ⟨rule.close.append "<pre>\n", .code, rule.columns?⟩ := by
  have hbegin : rule.consume full line = rule.beginCode := by
    obtain ⟨entry, mode, interrupted⟩ := rule
    cases mode with
    | description isOpen => simp [consume, h]
    | code => exact absurd rfl hmode
    | table columns pending => simp [consume, h]
  rw [hbegin]
  rfl

/-- The second one ends it. -/
theorem consume_closingDelimiter (hmode : rule.mode = .code) {full line : List Char}
    (h : Line.isExampleDelimiter line) :
    rule.consume full line = { rule.append "</pre>\n" with mode := .description false } := by
  rw [consume, hmode]
  simp only [h, if_true]

/-- **The rule behind a block of code**: a paragraph or a table before it is closed, and the
description goes on behind the block. -/
theorem feed_codeBlock (hmode : rule.mode ≠ .code) {opening closing : List Char}
    {lines : List (List Char)} (hopening : Line.isExampleDelimiter (trim opening))
    (hclosing : Line.isExampleDelimiter (trim closing))
    (hlines : ∀ full ∈ lines, ¬ Line.isExampleDelimiter (trim full)) :
    rule.feed (opening :: lines ++ [closing])
      = ⟨rule.close.append (codeBlock lines), .description false, rule.columns?⟩ := by
  let begun : OpenRule := ⟨rule.close.append "<pre>\n", .code, rule.columns?⟩
  have hcode : begun.feed lines = begun.append (codeLines (lines.map codeText)) :=
    feed_code rfl hlines
  rw [List.cons_append, feed_cons, consume_openingDelimiter hmode hopening, feed_append, hcode,
    feed_cons, consume_closingDelimiter rfl hclosing, append_append]
  simp [feed, begun, append, RuleEntry.append, codeBlock, String.append_assoc]

/-- Closing a rule ends its paragraph if one is open, and adds nothing else to the description. -/
theorem rawDescription_close (rule : OpenRule) :
    rule.close.rawDescription
      = rule.entry.rawDescription
        ++ if rule.mode = .description true then "</p>\n" else "" := by
  obtain ⟨entry, mode, interrupted⟩ := rule
  cases mode with
  | description isOpen => cases isOpen <;> simp [close, closeParagraph, flushParameter, append,
      RuleEntry.append]
  | code => simp [close, closeParagraph, flushParameter]
  | table columns pending => simp [close, closeParagraph, flushParameter]

/-- Closing a rule keeps its parameters and adds the pending one, unless that is blank. -/
theorem mem_parameters_close {p : Parameter} :
    p ∈ rule.close.parameters
      ↔ p ∈ rule.entry.parameters
        ∨ (∃ columns, rule.mode = .table columns p) ∧ p.isBlank = false := by
  obtain ⟨entry, mode, interrupted⟩ := rule
  cases mode with
  | description isOpen => cases isOpen <;> simp [close, closeParagraph, flushParameter, append,
      RuleEntry.append]
  | code => simp [close, closeParagraph, flushParameter]
  | table columns pending =>
    simp only [close, closeParagraph, flushParameter, RuleEntry.mem_addParameter]
    refine or_congr_right ?_
    constructor
    · rintro ⟨rfl, hblank⟩
      exact ⟨⟨columns, rfl⟩, hblank⟩
    · rintro ⟨⟨other, hmode⟩, hblank⟩
      cases hmode
      exact ⟨rfl, hblank⟩

/-- **A rule has taken a block of code** with these lines: a paragraph that was open is closed, or
the parameter in progress is filed; the block follows; and the rule is between two paragraphs. -/
structure TookCode (before after : OpenRule) (lines : List (List Char)) : Prop where
  name : after.entry.name = before.entry.name
  description : after.entry.rawDescription
    = before.entry.rawDescription
      ++ (if before.mode = .description true then "</p>\n" else "") ++ codeBlock lines
  parameters : ∀ p, p ∈ after.entry.parameters
    ↔ p ∈ before.entry.parameters
      ∨ (∃ columns, before.mode = .table columns p) ∧ p.isBlank = false
  mode : after.mode = .description false

/-- **A code block is taken as it stands.**  Between the delimiters no line is looked at for
anything else, so all that is asked of them is not to be one. -/
theorem tookCode_feed (hmode : rule.mode ≠ .code) {opening closing : List Char}
    {lines : List (List Char)} (hopening : Line.Delimiter (trim opening))
    (hclosing : Line.Delimiter (trim closing))
    (hlines : ∀ full ∈ lines, ¬ Line.Delimiter (trim full)) :
    rule.TookCode (rule.feed (opening :: lines ++ [closing])) lines := by
  rw [feed_codeBlock hmode (Line.isExampleDelimiter_iff.mpr hopening)
    (Line.isExampleDelimiter_iff.mpr hclosing) fun full hfull hdelimiter =>
      hlines full hfull (Line.isExampleDelimiter_iff.mp hdelimiter)]
  refine ⟨?_, ?_, ?_, rfl⟩
  · exact rule.name_close
  · rw [RuleEntry.rawDescription_append, rawDescription_close]
  · intro p
    rw [RuleEntry.parameters_append, mem_parameters_close]

end OpenRule

namespace Session

open Description

variable {session : Session} {rule : OpenRule}

/-- A delimiter is no line that ends a rule. -/
theorem not_endsRule_of_delimiter {full : List Char} (h : Line.Delimiter (trim full)) :
    ¬ endsRule full (trim full) := by
  intro hends
  rcases trim_of_endsRule hends with htrim | ⟨rest, htrim⟩
  · exact h.ne_star [] htrim
  · exact h.ne_star (' ' :: rest) htrim.symm

/-- No line of a block of code ends a rule, if its lines do not begin like titles at the very first
column, list items apart. -/
theorem not_endsRule_of_mem_block {opening closing : List Char} {lines : List (List Char)}
    (hopening : Line.Delimiter (trim opening)) (hclosing : Line.Delimiter (trim closing))
    (htitle : ∀ full ∈ lines, Line.titleStart <+: full → Line.listItemStart <+: trim full) :
    ∀ full ∈ opening :: lines ++ [closing], ¬ endsRule full (trim full) := by
  intro full hfull
  rw [List.cons_append, List.mem_cons, List.mem_append, List.mem_singleton] at hfull
  rcases hfull with rfl | hline | rfl
  · exact not_endsRule_of_delimiter hopening
  · rw [endsRule_iff]
    rintro ⟨hstart, hitem⟩
    exact hitem (htitle full hline hstart)
  · exact not_endsRule_of_delimiter hclosing

/-- Where no line ends the open rule, there is no title. -/
theorem titles_of_open (h : session.current = some rule) {lines : List (List Char)}
    (hends : ∀ full ∈ lines, ¬ endsRule full (trim full)) : session.titles lines = [] := by
  induction lines generalizing session rule with
  | nil => rfl
  | cons full rest ih =>
    rw [titles, consume_of_open h (hends full List.mem_cons_self)]
    exact ih rfl fun line hline => hends line (List.mem_cons_of_mem full hline)

/-- **Example code survives verbatim.**  In an open rule that is not in code already, the lines
between two delimiters become one block of code, whatever they are, if none of them is a delimiter
or ends the rule: the block does nothing else to the session, and decoding one of its lines gives
the line back that it came from, less one backslash directly before each bracket. -/
theorem consumeAll_codeBlock (hopen : session.current = some rule) (hmode : rule.mode ≠ .code)
    {opening closing : String} {lines : List String}
    (hopening : Line.Delimiter (trim (dropLineEnd opening)))
    (hclosing : Line.Delimiter (trim (dropLineEnd closing)))
    (hcode : ∀ line ∈ lines, ¬ Line.Delimiter (trim (dropLineEnd line)))
    (htitle : ∀ line ∈ lines, Line.titleStart <+: dropLineEnd line →
      Line.listItemStart <+: trim (dropLineEnd line)) :
    (∃ after, session.consumeAll (opening :: lines ++ [closing])
        = ({ session with current := some after }, [])
      ∧ rule.TookCode after (lines.map dropLineEnd))
      ∧ ∀ line ∈ lines, Markup.decode (codeText (dropLineEnd line)).toList
          = Markup.dropEscapes (dropLineEnd line) := by
  constructor
  · have hblock : (opening :: lines ++ [closing]).map dropLineEnd
        = dropLineEnd opening :: lines.map dropLineEnd ++ [dropLineEnd closing] := by
      rw [List.cons_append, List.map_cons, List.map_append, List.map_singleton, List.cons_append]
    have hends := not_endsRule_of_mem_block hopening hclosing (List.forall_mem_map.mpr htitle)
    refine ⟨rule.feed ((opening :: lines ++ [closing]).map dropLineEnd), ?_, ?_⟩
    · rw [consumeAll_eq, hblock, feed_of_open hopen hends, titles_of_open hopen hends]
    · rw [hblock]
      exact OpenRule.tookCode_feed hmode hopening hclosing (List.forall_mem_map.mpr hcode)
  · intro line _
    rw [codeText, String.toList_ofList]
    exact Markup.decode_code _

/-- A block inside a table, with lines that look like a row, a ruler, a title with an indent, a list
item and an entity, and backslashes before brackets. -/
theorem consumeAll_codeBlock_escaped :
    let rule : OpenRule :=
      ⟨{ name := "Foo" }, .table ⟨4, 8, 12⟩ { key := "limit" }, none⟩
    let session : Session := { current := some rule }
    let lines := ["| a | b |\r\n", "*---+---+---+", "", "  * {Bar} Rule", "* {{item}}",
      "a \\\\<b\\> &lt; \\\\"]
    session.current = some rule ∧ rule.mode ≠ .code
      ∧ Line.Delimiter (trim (dropLineEnd "  +---\n")) ∧ Line.Delimiter (trim (dropLineEnd "-"))
      ∧ (∀ line ∈ lines, ¬ Line.Delimiter (trim (dropLineEnd line)))
      ∧ (∀ line ∈ lines, Line.titleStart <+: dropLineEnd line →
          Line.listItemStart <+: trim (dropLineEnd line))
      ∧ ∃ after, session.consumeAll ("  +---\n" :: lines ++ ["-"])
          = ({ session with current := some after }, [])
        ∧ rule.TookCode after (lines.map dropLineEnd) := by
  intro rule session lines
  have hopening : Line.Delimiter (trim (dropLineEnd "  +---\n")) := ⟨2, Or.inr (by decide)⟩
  have hclosing : Line.Delimiter (trim (dropLineEnd "-")) := ⟨0, Or.inl (by decide)⟩
  have hcode : ∀ line ∈ lines, ¬ Line.Delimiter (trim (dropLineEnd line)) := by
    have hall : ∀ line ∈ lines, ¬ Line.isExampleDelimiter (trim (dropLineEnd line)) := by decide
    exact fun line hline h => hall line hline (Line.isExampleDelimiter_iff.mpr h)
  have htitle : ∀ line ∈ lines, Line.titleStart <+: dropLineEnd line →
      Line.listItemStart <+: trim (dropLineEnd line) := by decide
  have hmode : rule.mode ≠ .code := nofun
  exact ⟨rfl, hmode, hopening, hclosing, hcode, htitle,
    (consumeAll_codeBlock rfl hmode hopening hclosing hcode htitle).1⟩

end Session

end RuleCatalogue

/-! ## Paragraphs of a description -/

namespace RuleCatalogue

open Text

namespace Line

/-- **The lines that a description goes on with**, trimmed: blank ones, prose that is not drawn like
a delimiter, and noise. -/
def InDescription (s : List Char) : Prop :=
  s = [] ∨ (isProse s ∧ ¬ isExampleDelimiter s)
    ∨ (¬ isProse s ∧ ¬ isExampleDelimiter s ∧ ¬ isTableStart s)

instance (s : List Char) : Decidable (InDescription s) :=
  inferInstanceAs (Decidable (_ ∨ _ ∧ _ ∨ _ ∧ _ ∧ _))

/-- A line that starts a table is a ruler. -/
theorem isTableRuler_of_isTableStart {s : List Char} (h : isTableStart s) : isTableRuler s :=
  isTableRuler_iff.mpr (Or.inr (isTableStart_iff.mp h))

/-- A line that starts a table is no prose. -/
theorem not_isProse_of_isTableStart {s : List Char} (h : isTableStart s) : ¬ isProse s := by
  simp [isProse, isTableRuler_of_isTableStart h]

/-- A description ends at a delimiter and at the ruler of a table. -/
theorem inDescription_iff {s : List Char} :
    InDescription s ↔ ¬ isExampleDelimiter s ∧ ¬ isTableStart s := by
  constructor
  · rintro (rfl | ⟨hprose, hdelimiter⟩ | ⟨-, hdelimiter, htable⟩)
    · decide
    · exact ⟨hdelimiter, fun htable => not_isProse_of_isTableStart htable hprose⟩
    · exact ⟨hdelimiter, htable⟩
  · rintro ⟨hdelimiter, htable⟩
    by_cases hprose : isProse s
    · exact Or.inr (Or.inl ⟨hprose, hdelimiter⟩)
    · exact Or.inr (Or.inr ⟨hprose, hdelimiter, htable⟩)

end Line

namespace Description

/-! ## Groups of lines -/

/-- The converted text of a line of prose. -/
def proseText (line : List Char) : String :=
  String.ofList (Markup.prose line)

/-- **The text of a paragraph** of these lines. -/
def paragraph (group : List (List Char)) : String :=
  "<p>" ++ Text.join " " (group.map proseText) ++ "</p>\n"

/-- The pieces into which blank lines part the others; where two of them follow one another, or one
is the first or the last, a piece is empty. -/
def pieces (lines : List (List Char)) : List (List (List Char)) :=
  ((lines.map trim).filter Line.isProse).splitOnP List.isEmpty

/-- **The groups of lines that are paragraphs**: the lines are trimmed, noise is dropped, and the
rest is parted at blank lines. -/
def groups (lines : List (List Char)) : List (List (List Char)) :=
  (pieces lines).filter (· ≠ [])

/-- **The text of the paragraphs** of some lines. -/
def paragraphs (lines : List (List Char)) : String :=
  String.join ((groups lines).map paragraph)

/-- A line that is no prose leaves the pieces as they are. -/
theorem pieces_noise {full : List Char} (h : ¬ Line.isProse (trim full))
    (rest : List (List Char)) : pieces (full :: rest) = pieces rest := by
  rw [pieces, List.map_cons, List.filter_cons_of_neg h, pieces]

/-- A blank line starts a new piece, empty so far. -/
theorem pieces_blank {full : List Char} (h : trim full = []) (rest : List (List Char)) :
    pieces (full :: rest) = [] :: pieces rest := by
  rw [pieces, List.map_cons, h, List.filter_cons_of_pos (by decide),
    List.splitOnP_cons_eq_if_modifyHead, if_pos List.isEmpty_nil, pieces]

/-- A line of prose goes to the head of the current piece, trimmed. -/
theorem pieces_prose {full : List Char} (hprose : Line.isProse (trim full))
    (hne : trim full ≠ []) (rest : List (List Char)) :
    pieces (full :: rest) = (pieces rest).modifyHead (trim full :: ·) := by
  rw [pieces, List.map_cons, List.filter_cons_of_pos hprose,
    List.splitOnP_cons_eq_if_modifyHead, if_neg (by simpa using hne), pieces]

/-- There is always a piece to add to, since no line leaves one empty piece. -/
theorem pieces_ne_nil (lines : List (List Char)) : pieces lines ≠ [] :=
  List.splitOnP_ne_nil _ _

/-! ## The text that is still to be written -/

/-- The text that these pieces still add.  Where a paragraph is open, the lines of the first go on
with it. -/
def written (isOpen : Bool) (parts : List (List (List Char))) : String :=
  if isOpen then
    String.join ((parts.headD []).map fun line => " " ++ proseText line) ++ "</p>\n"
      ++ String.join ((parts.tail.filter (· ≠ [])).map paragraph)
  else String.join ((parts.filter (· ≠ [])).map paragraph)

/-- **The text that these lines still add** to a description, up to the end of the last
paragraph. -/
def remaining (isOpen : Bool) (lines : List (List Char)) : String :=
  written isOpen (pieces lines)

/-- What ends a paragraph, if one is open. -/
def paragraphEnd (isOpen : Bool) : String :=
  if isOpen then "</p>\n" else ""

/-- What stands before a line of prose. -/
def lead (isOpen : Bool) : String :=
  if isOpen then " " else "<p>"

theorem remaining_false (lines : List (List Char)) : remaining false lines = paragraphs lines := rfl

theorem remaining_nil (isOpen : Bool) : remaining isOpen [] = paragraphEnd isOpen := by
  cases isOpen
  · rfl
  · decide

/-- A line that is no prose adds nothing, whether or not a paragraph is open. -/
theorem remaining_noise {full : List Char} (h : ¬ Line.isProse (trim full)) (isOpen : Bool)
    (rest : List (List Char)) : remaining isOpen (full :: rest) = remaining isOpen rest := by
  rw [remaining, pieces_noise h, remaining]

/-- A blank line ends the paragraph that is open; a second one finds none and adds nothing. -/
theorem remaining_blank {full : List Char} (h : trim full = []) (isOpen : Bool)
    (rest : List (List Char)) :
    remaining isOpen (full :: rest) = paragraphEnd isOpen ++ remaining false rest := by
  rw [remaining, pieces_blank h, remaining]
  cases isOpen
  · simp [written, paragraphEnd]
  · simp [written, paragraphEnd]

/-- A line of prose opens a paragraph, or goes on with the one that is open. -/
theorem remaining_prose {full : List Char} (hprose : Line.isProse (trim full))
    (hne : trim full ≠ []) (isOpen : Bool) (rest : List (List Char)) :
    remaining isOpen (full :: rest)
      = lead isOpen ++ proseText (trim full) ++ remaining true rest := by
  -- The line goes to the first piece of the rest, which is then written with the paragraph open.
  obtain ⟨first, more, hpieces⟩ := List.exists_cons_of_ne_nil (pieces_ne_nil rest)
  rw [remaining, pieces_prose hprose hne, remaining, hpieces, List.modifyHead_cons]
  cases isOpen
  · simp [written, lead, paragraph, join_cons, String.append_assoc, Function.comp_def]
  · simp [written, lead, String.append_assoc]

end Description

namespace OpenRule

open Description

variable {rule : OpenRule} {isOpen : Bool}

/-! ## One line of a description -/

theorem closeParagraph_of_description (hmode : rule.mode = .description isOpen) :
    rule.closeParagraph
      = ⟨rule.entry.append (paragraphEnd isOpen), .description false, rule.interrupted⟩ := by
  obtain ⟨entry, mode, interrupted⟩ := rule
  cases hmode
  cases isOpen
  · simp [closeParagraph, paragraphEnd, RuleEntry.append]
  · rfl

/-- Noise is dropped. -/
theorem consume_noise (hmode : rule.mode = .description isOpen) {full : List Char}
    (h : Line.InDescription (trim full)) (hprose : ¬ Line.isProse (trim full)) :
    rule.consume full (trim full) = rule := by
  obtain ⟨hdelimiter, htable⟩ := Line.inDescription_iff.mp h
  rw [consume, hmode]
  simp only [hdelimiter, hprose, htable, Bool.false_eq_true, if_false]

/-- A blank line ends a paragraph. -/
theorem consume_blank (hmode : rule.mode = .description isOpen) {full : List Char}
    (h : trim full = []) :
    rule.consume full (trim full)
      = ⟨rule.entry.append (paragraphEnd isOpen), .description false, rule.interrupted⟩ := by
  have hclose : rule.consume full (trim full) = rule.closeParagraph := by
    rw [consume, hmode, h]
    rfl
  rw [hclose, closeParagraph_of_description hmode]

/-- Prose begins a paragraph or goes on with one. -/
theorem consume_prose (hmode : rule.mode = .description isOpen) {full : List Char}
    (h : Line.InDescription (trim full)) (hprose : Line.isProse (trim full))
    (hne : trim full ≠ []) :
    rule.consume full (trim full)
      = ⟨rule.entry.append (lead isOpen ++ proseText (trim full)), .description true,
          rule.interrupted⟩ := by
  have hdelimiter := (Line.inDescription_iff.mp h).1
  have hnonempty : ¬ (trim full).isEmpty := by simpa using hne
  rw [consume, hmode]
  simp only [hdelimiter, hprose, Bool.false_eq_true, if_false, if_true, addProse, hnonempty]
  rfl

/-! ## All lines of a description -/

/-- **A rule behind the lines of a description**, once the paragraph is ended that is open.  Closing
it on both sides makes the statement one about `remaining`, whether or not the lines end inside a
paragraph. -/
theorem closeParagraph_feed (hmode : rule.mode = .description isOpen) {lines : List (List Char)}
    (h : ∀ full ∈ lines, Line.InDescription (trim full)) :
    (rule.feed lines).closeParagraph
      = ⟨rule.entry.append (remaining isOpen lines), .description false, rule.interrupted⟩ := by
  -- A line may open a paragraph or end one, so the rest is read from any mode of a description.
  induction lines generalizing rule isOpen with
  | nil =>
    rw [remaining_nil, ← closeParagraph_of_description hmode]
    rfl
  | cons full rest ih =>
    have hfull : Line.InDescription (trim full) := h full List.mem_cons_self
    have hrest : ∀ other ∈ rest, Line.InDescription (trim other) :=
      fun other hother => h other (List.mem_cons_of_mem full hother)
    rw [feed_cons]
    by_cases hprose : Line.isProse (trim full)
    · by_cases hne : trim full = []
      · rw [consume_blank hmode hne, ih rfl hrest, remaining_blank hne]
        simp [RuleEntry.append, String.append_assoc]
      · rw [consume_prose hmode hfull hprose hne, ih rfl hrest, remaining_prose hprose hne]
        simp [RuleEntry.append, String.append_assoc]
    · rw [consume_noise hmode hfull hprose, ih hmode hrest, remaining_noise hprose]

/-! ## Ends of a description -/

section Ends

variable {entry : RuleEntry} {interrupted : Option Columns}
  (h : rule.closeParagraph = ⟨entry, .description false, interrupted⟩)

include h

/-- Only a rule in a description is in one when its paragraph is ended. -/
theorem exists_mode_eq_of_closeParagraph :
    (∃ isOpen, rule.mode = .description isOpen) ∧ rule.interrupted = interrupted := by
  obtain ⟨before, mode, earlier⟩ := rule
  cases mode with
  | description isOpen =>
    rw [closeParagraph_of_description rfl] at h
    cases h
    exact ⟨⟨isOpen, rfl⟩, rfl⟩
  | code => cases h
  | table columns pending => cases h

theorem close_of_closeParagraph : rule.close = entry := by
  rw [close, h]
  rfl

/-- Example code begins behind the last paragraph. -/
theorem consume_delimiter_of_closeParagraph (full : List Char) {line : List Char}
    (hdelimiter : Line.isExampleDelimiter line) :
    rule.consume full line = ⟨entry.append "<pre>\n", .code, interrupted⟩ := by
  obtain ⟨⟨isOpen, hmode⟩, rfl⟩ := exists_mode_eq_of_closeParagraph h
  have hnotCode : rule.mode ≠ .code := by
    rw [hmode]
    exact nofun
  have hcolumns : rule.columns? = rule.interrupted := by rw [columns?, hmode]
  rw [consume_openingDelimiter hnotCode hdelimiter, close_of_closeParagraph h, hcolumns]

/-- A table begins behind the last paragraph. -/
theorem consume_tableStart_of_closeParagraph (full : List Char) {line : List Char}
    {columns : Columns} (htable : Line.isTableStart line)
    (hcolumns : Columns.ofRuler? line = some columns) :
    rule.consume full line = ⟨entry, .table columns {}, none⟩ := by
  obtain ⟨⟨isOpen, hmode⟩, rfl⟩ := exists_mode_eq_of_closeParagraph h
  have hruler : Line.isTableRuler line := Line.isTableRuler_of_isTableStart htable
  have hdelimiter : Line.isExampleDelimiter line = false :=
    Line.not_isExampleDelimiter_of_isTableRuler hruler
  have hprose : ¬ Line.isProse line := Line.not_isProse_of_isTableStart htable
  rw [consume, hmode]
  simp only [hdelimiter, hprose, htable, Bool.false_eq_true, if_false, if_true, beginTable,
    hcolumns, h]

end Ends

end OpenRule

namespace Session

open Description

variable {session : Session} {rule : OpenRule}

/-- **Prose becomes one paragraph for each group of lines.**  In an open rule between two
paragraphs, the lines of a description add the paragraphs of their groups to the description of the
rule, each whole, and nothing else to its entry, in whichever way the description ends: with the end
of the lines, with a line that ends the rule, with a delimiter of example code or with the ruler of
a table. -/
theorem consumeAll_paragraphs (hopen : session.current = some rule)
    (hmode : rule.mode = .description false) {lines : List String}
    (hlines : ∀ line ∈ lines, Line.InDescription (trim (dropLineEnd line)))
    (htitle : ∀ line ∈ lines, Line.titleStart <+: dropLineEnd line →
      Line.listItemStart <+: trim (dropLineEnd line)) :
    let read := (session.consumeAll lines).1
    let entry : RuleEntry :=
      { name := rule.entry.name
        parameters := rule.entry.parameters
        rawDescription := rule.entry.rawDescription ++ paragraphs (lines.map dropLineEnd) }
    read.finish.finished.get? rule.entry.name = some entry
      ∧ (∀ full, endsRule full (trim full) →
        (read.consume full).1.finished.get? rule.entry.name = some entry)
      ∧ (∀ full, Line.isExampleDelimiter (trim full) →
        (read.consume full).1.current
          = some ⟨entry.append "<pre>\n", .code, rule.interrupted⟩)
      ∧ ∀ full, Line.isTableStart (trim full) →
        ∃ columns, Columns.ofRuler? (trim full) = some columns
          ∧ (read.consume full).1.current = some ⟨entry, .table columns {}, none⟩ := by
  intro read entry
  have hends : ∀ full ∈ lines.map dropLineEnd, ¬ endsRule full (trim full) := by
    intro full hfull hend
    obtain ⟨line, hline, rfl⟩ := List.mem_map.mp hfull
    obtain ⟨hstart, hitem⟩ := endsRule_iff.mp hend
    exact hitem (htitle line hline hstart)
  let last := rule.feed (lines.map dropLineEnd)
  have hread : read = { session with current := some last } := by
    rw [show read = (session.consumeAll lines).1 from rfl, consumeAll_eq]
    exact feed_of_open hopen hends
  have hlast : last.closeParagraph = ⟨entry, .description false, rule.interrupted⟩ := by
    have hfeed := OpenRule.closeParagraph_feed hmode (List.forall_mem_map.mpr hlines)
    rwa [remaining_false] at hfeed
  have hname : last.entry.name = rule.entry.name := rule.name_feed _
  have hcurrent : read.current = some last := by rw [hread]
  have hfinish : read.finish.finished.get? rule.entry.name = some entry := by
    rw [finish_of_open hcurrent, hname, OpenRule.close_of_closeParagraph hlast,
      Table.get?_insert_self]
  refine ⟨hfinish, fun full hend => ?_, fun full hdelimiter => ?_, fun full htable => ?_⟩
  · rwa [finished_consume, if_pos hend]
  · have hopenStill : ¬ endsRule full (trim full) :=
      not_endsRule_of_delimiter (Line.isExampleDelimiter_iff.mp hdelimiter)
    rw [consume_of_open hcurrent hopenStill,
      OpenRule.consume_delimiter_of_closeParagraph hlast full hdelimiter]
  · obtain ⟨columns, hcolumns, -⟩ := Columns.exists_columns_of_isTableStart htable
    have hopenStill : ¬ endsRule full (trim full) :=
      not_endsRule_of_isTableRuler (Line.isTableRuler_of_isTableStart htable)
    refine ⟨columns, hcolumns, ?_⟩
    rw [consume_of_open hcurrent hopenStill,
      OpenRule.consume_tableStart_of_closeParagraph hlast full htable hcolumns]

/-- Two paragraphs, with noise inside the first, blank lines one after another, and a list item that
begins like a title; a delimiter follows. -/
theorem consumeAll_paragraphs_parted :
    let rule : OpenRule := { entry := { name := "Foo", rawDescription := "<p>Old.</p>\n" } }
    let session : Session := { current := some rule }
    let lines := ["", "  First <<line>>", "<Since 1>", "| a | b |", "  goes on. ", " ", "\r\n",
      "* {{item}} & more", "~~~~"]
    session.current = some rule ∧ rule.mode = .description false
      ∧ (∀ line ∈ lines, Line.InDescription (trim (dropLineEnd line)))
      ∧ (∀ line ∈ lines, Line.titleStart <+: dropLineEnd line →
          Line.listItemStart <+: trim (dropLineEnd line))
      ∧ Line.isExampleDelimiter (trim "  ----".toList)
      ∧ paragraphs (lines.map dropLineEnd)
        = "<p>First <b>line</b> goes on.</p>\n<p>* {{item}} &amp; more</p>\n"
      ∧ ∃ next, ((session.consumeAll lines).1.consume "  ----".toList).1.current = some next
        ∧ next.entry.rawDescription
          = "<p>Old.</p>\n<p>First <b>line</b> goes on.</p>\n<p>* {{item}} &amp; more</p>\n<pre>\n"
        ∧ next.mode = .code := by
  intro rule session lines
  have hlines : ∀ line ∈ lines, Line.InDescription (trim (dropLineEnd line)) := by decide
  have htitle : ∀ line ∈ lines, Line.titleStart <+: dropLineEnd line →
      Line.listItemStart <+: trim (dropLineEnd line) := by decide
  have hdelimiter : Line.isExampleDelimiter (trim "  ----".toList) := by decide
  have htext : paragraphs (lines.map dropLineEnd)
      = "<p>First <b>line</b> goes on.</p>\n<p>* {{item}} &amp; more</p>\n" := by
    decide +kernel
  have hopen : session.current = some rule := rfl
  obtain ⟨-, -, hcode, -⟩ := consumeAll_paragraphs hopen rfl hlines htitle
  refine ⟨hopen, rfl, hlines, htitle, hdelimiter, htext, _, hcode _ hdelimiter, ?_, rfl⟩
  simp only [RuleEntry.rawDescription_append, htext]
  decide

end Session

end RuleCatalogue
