import Mathlib.Data.List.Forall2
import RuleCatalogue.Event
import RuleCatalogue.Proofs.Markup
import RuleCatalogue.Proofs.Session.Boundary

/-!
# The markup of descriptions

The description of a rule has one segment for each title of the rule that was accepted.  A segment
is a run of paragraphs and pieces of code, each whole; only where the rule was closed in the middle
of example code does one more piece follow, which has no end.

## Main definitions

* `Description.Blocks` and `Description.Segment` are the grammar of segments.
* `Description.Draft` is the grammar of what stands in the description of an open rule so far; the
  mode of the rule decides what may still be open.
* `Session.closings` lists the rules that lines close, as they stand when they are closed.

## Main statements

* `OpenRule.extends_consume`: a line takes a draft to a draft.
* `Session.described_feed`: after any lines every description follows the grammar.
* `Catalogue.rawDescription_ofLines`: so does every description of a file.

## Design notes

A line only adds to the description of the open rule, so what stood there before the rule was
opened is a parameter of `OpenRule.Extends` and plays no part in the step.
-/

namespace RuleCatalogue

namespace Description

/-! ## The grammar of segments -/

/-- Lines of code, each with a line feed behind it. -/
def codeLines (lines : List String) : String :=
  String.join (lines.map fun line => line ++ "\n")

/-- Words of prose: at least one, and each is converted prose. -/
structure Prose (words : List String) : Prop where
  nonempty : words ≠ []
  proseText : ∀ w ∈ words, Markup.ProseText w.toList

/-- Lines of converted code. -/
def Code (lines : List String) : Prop :=
  ∀ line ∈ lines, Markup.CodeText line.toList

/-- **Whole blocks**: paragraphs of prose and pieces of code, one behind the other. -/
inductive Blocks : String → Prop
  | nil : Blocks ""
  | paragraph {text : String} {words : List String} :
      Blocks text → Prose words → Blocks (text ++ "<p>" ++ Text.join " " words ++ "</p>\n")
  | code {text : String} {lines : List String} :
      Blocks text → Code lines → Blocks (text ++ "<pre>\n" ++ codeLines lines ++ "</pre>\n")

/-- **A segment** of a rule that was closed in this mode: whole blocks, and code without an end
where the mode was code. -/
inductive Segment : Mode → String → Prop
  | whole {mode : Mode} {text : String} : mode ≠ .code → Blocks text → Segment mode text
  | unfinished {text : String} {lines : List String} :
      Blocks text → Code lines → Segment .code (text ++ "<pre>\n" ++ codeLines lines)

/-- **A draft**: the segment of an open rule in this mode, as far as it is written. -/
inductive Draft : Mode → String → Prop
  | between {text : String} : Blocks text → Draft (.description false) text
  | paragraph {text : String} {words : List String} :
      Blocks text → Prose words →
      Draft (.description true) (text ++ "<p>" ++ Text.join " " words)
  | code {text : String} {lines : List String} :
      Blocks text → Code lines → Draft .code (text ++ "<pre>\n" ++ codeLines lines)
  | table {text : String} {columns : Columns} {pending : Parameter} :
      Blocks text → Draft (.table columns pending) text

theorem codeLines_append (lines : List String) (line : String) :
    codeLines (lines ++ [line]) = codeLines lines ++ (line ++ "\n") := by
  rw [codeLines, List.map_append, String.join_append]
  simp [codeLines]

theorem Prose.singleton {w : String} (h : Markup.ProseText w.toList) : Prose [w] where
  nonempty := List.cons_ne_nil w []
  proseText v hv := by rwa [List.mem_singleton.mp hv]

theorem Prose.snoc {words : List String} {w : String} (hwords : Prose words)
    (hw : Markup.ProseText w.toList) : Prose (words ++ [w]) where
  nonempty := List.append_ne_nil_of_left_ne_nil hwords.nonempty [w]
  proseText v hv := by
    rcases List.mem_append.mp hv with hv | hv
    · exact hwords.proseText v hv
    · rwa [List.mem_singleton.mp hv]

theorem Code.snoc {lines : List String} {line : String} (hlines : Code lines)
    (hline : Markup.CodeText line.toList) : Code (lines ++ [line]) := by
  intro other hother
  rcases List.mem_append.mp hother with hother | hother
  · exact hlines other hother
  · rwa [List.mem_singleton.mp hother]

theorem Code.nil : Code [] := by
  intro line hline
  cases hline

end Description

/-! ## One line inside a rule -/

namespace OpenRule

open Description

/-- The description of the rule is `earlier` and then a text with the property. -/
def Extends (rule : OpenRule) (earlier : String) (P : String → Prop) : Prop :=
  ∃ text, rule.entry.rawDescription = earlier ++ text ∧ P text

variable {rule : OpenRule} {earlier : String} {P Q : String → Prop}

theorem Extends.append {more : String} (h : rule.Extends earlier P)
    (hPQ : ∀ text, P text → Q (text ++ more)) : (rule.append more).Extends earlier Q := by
  obtain ⟨text, hraw, htext⟩ := h
  refine ⟨text ++ more, ?_, hPQ text htext⟩
  rw [OpenRule.append, RuleEntry.rawDescription_append, hraw, String.append_assoc]

theorem Extends.imp (h : rule.Extends earlier P) (hPQ : ∀ text, P text → Q text) :
    rule.Extends earlier Q := by
  obtain ⟨text, hraw, htext⟩ := h
  exact ⟨text, hraw, hPQ text htext⟩

/-- Outside example code the blocks are whole as soon as no paragraph is open. -/
theorem blocks_closeParagraph (h : rule.Extends earlier (Draft rule.mode))
    (hmode : rule.mode ≠ .code) : rule.closeParagraph.Extends earlier Blocks := by
  obtain ⟨entry, mode, interrupted⟩ := rule
  obtain ⟨text, hraw, hdraft⟩ := h
  cases hdraft with
  | between hblocks => exact ⟨text, hraw, hblocks⟩
  | paragraph hblocks hwords =>
    refine ⟨_, ?_, hblocks.paragraph hwords⟩
    rw [closeParagraph, OpenRule.append, RuleEntry.rawDescription_append, hraw,
      String.append_assoc]
  | code hblocks hlines => exact absurd rfl hmode
  | table hblocks => exact ⟨text, hraw, hblocks⟩

theorem rawDescription_flushParameter (rule : OpenRule) :
    rule.flushParameter.entry.rawDescription = rule.entry.rawDescription := by
  unfold flushParameter
  split
  · exact RuleEntry.rawDescription_addParameter rule.entry _
  · rfl

theorem extends_flushParameter (h : rule.Extends earlier P) :
    rule.flushParameter.Extends earlier P := by
  rwa [Extends, rawDescription_flushParameter]

/-- **A rule that is closed** leaves a segment: what the open rule had drafted is ended by the
paragraph's end, if a paragraph is open. -/
theorem segment_close (h : rule.Extends earlier (Draft rule.mode)) :
    ∃ text, rule.close.rawDescription = earlier ++ text ∧ Segment rule.mode text := by
  by_cases hmode : rule.mode = .code
  · obtain ⟨entry, mode, interrupted⟩ := rule
    obtain ⟨text, hraw, hdraft⟩ := h
    cases hmode
    cases hdraft with
    | code hblocks hlines => exact ⟨_, hraw, .unfinished hblocks hlines⟩
  · exact (extends_flushParameter (blocks_closeParagraph h hmode)).imp
      fun text hblocks => .whole hmode hblocks

theorem extends_beginCode (h : rule.Extends earlier (Draft rule.mode))
    (hmode : rule.mode ≠ .code) :
    rule.beginCode.Extends earlier (Draft rule.beginCode.mode) := by
  have hblocks := extends_flushParameter (blocks_closeParagraph h hmode)
  refine hblocks.append fun text htext => ?_
  have hcode := Draft.code htext Code.nil
  rwa [codeLines, List.map_nil, String.join_nil, String.append_empty] at hcode

theorem extends_closeParagraph (h : rule.Extends earlier (Draft rule.mode)) :
    rule.closeParagraph.Extends earlier (Draft rule.closeParagraph.mode) := by
  cases hmode : rule.mode with
  | description isOpen =>
    have hblocks := blocks_closeParagraph h (by simp [hmode])
    have hclosed : rule.closeParagraph.mode = .description false := by
      cases isOpen <;> simp [closeParagraph, hmode]
    rw [hclosed]
    exact hblocks.imp fun text htext => .between htext
  | code =>
    have hsame : rule.closeParagraph = rule := by simp [closeParagraph, hmode]
    rwa [hsame]
  | table columns pending =>
    have hsame : rule.closeParagraph = rule := by simp [closeParagraph, hmode]
    rwa [hsame]

theorem extends_addProse {paragraphOpen : Bool} {line : List Char}
    (h : rule.Extends earlier (Draft rule.mode)) (hmode : rule.mode = .description paragraphOpen)
    (hline : Text.Trimmed line) :
    (rule.addProse paragraphOpen line).Extends earlier
      (Draft (rule.addProse paragraphOpen line).mode) := by
  unfold addProse
  split
  · exact extends_closeParagraph h
  · next hne =>
    have hword : Markup.ProseText (String.ofList (Markup.prose line)).toList := by
      rw [String.toList_ofList]
      exact Markup.proseText_prose (hline.any_not_blank (by simpa using hne))
    rw [hmode] at h
    refine h.append fun text hdraft => ?_
    cases hdraft with
    | between hblocks =>
      have hparagraph := Draft.paragraph hblocks (.singleton hword)
      rwa [String.append_assoc] at hparagraph
    | paragraph hblocks hwords =>
      have hparagraph := Draft.paragraph hblocks (hwords.snoc hword)
      rw [Text.join_append_singleton hwords.nonempty] at hparagraph
      simpa only [String.append_assoc, if_true] using hparagraph

theorem extends_beginTable (h : rule.Extends earlier (Draft rule.mode))
    (hmode : rule.mode ≠ .code) (ruler : List Char) :
    (rule.beginTable ruler).Extends earlier (Draft (rule.beginTable ruler).mode) := by
  unfold beginTable
  split
  · exact (blocks_closeParagraph h hmode).imp fun text hblocks => .table hblocks
  · exact h

/-- **A line takes a draft to a draft**, whatever the mode and whatever the line.  `earlier` is what
the description held when the rule was opened, and no line touches it. -/
theorem extends_consume (h : rule.Extends earlier (Draft rule.mode)) (full : List Char) :
    (rule.consume full (Text.trim full)).Extends earlier
      (Draft (rule.consume full (Text.trim full)).mode) := by
  unfold consume
  split
  · next hmode =>
    rw [hmode] at h
    split
    · refine h.append fun text hdraft => ?_
      cases hdraft with
      | code hblocks hlines => exact .between (hblocks.code hlines)
    · rw [show (rule.append _).mode = rule.mode from rfl, hmode]
      refine h.append fun text hdraft => ?_
      cases hdraft with
      | @code text lines hblocks hlines =>
        have hline : Markup.CodeText (String.ofList (Markup.code full)).toList := by
          rw [String.toList_ofList]
          exact Markup.codeText_code full
        have hcode := Draft.code hblocks (hlines.snoc hline)
        rw [codeLines_append, ← String.append_assoc] at hcode
        rwa [String.ofList_append]
  · next isOpen hmode =>
    split
    · exact extends_beginCode h (by simp [hmode])
    · split
      · exact extends_addProse h hmode (Text.trimmed_trim full)
      · split
        · exact extends_beginTable h (by simp [hmode]) _
        · exact h
  · next columns pending hmode =>
    -- Behind a table the blocks are whole, so any way out of it may begin something new.
    have hblocks : rule.Extends earlier Blocks := by
      rw [hmode] at h
      refine h.imp fun text hdraft => ?_
      cases hdraft with
      | table hblocks => exact hblocks
    split
    · exact extends_beginCode h (by simp [hmode])
    · split
      · unfold addRow
        split
        · exact h
        · exact hblocks.imp fun text htext => .table htext
      · split
        · have hflushed : rule.flushParameter.mode = .table columns {} := by
            simp [flushParameter, hmode]
          rw [hflushed]
          exact (extends_flushParameter hblocks).imp fun text htext => .table htext
        · exact (extends_flushParameter hblocks).imp fun text htext => .between htext

end OpenRule

/-! ## The rules that lines close -/

namespace Session

/-- The rule that a line closes, as it stands before the line. -/
def closedBy (session : Session) (full : List Char) : List OpenRule :=
  if endsRule full (Text.trim full) then session.current.toList else []

/-- **The rules that lines close**, in order and as they stand when they are closed; the last one
is closed by the end of the lines. -/
def closings (session : Session) : List (List Char) → List OpenRule
  | [] => session.current.toList
  | full :: rest => session.closedBy full ++ (session.consume full).1.closings rest

/-- The rule that is open after a title search is the one of the title accepted. -/
theorem names_seekTitle {session : Session} (hclosed : session.current = none)
    (hfiled : session.Filed) (line : List Char) :
    (session.seekTitle line).1.current.toList.map (fun rule => rule.entry.name)
      = (session.seekTitle line).2.toList.map Event.titleRule := by
  cases htitle : titleName? line with
  | none => simp [seekTitle_of_noTitle htitle, hclosed]
  | some name =>
    have hname : (session.finished.entryOrNew name).name = name :=
      Catalogue.name_entryOrNew hfiled name
    have htitled : Event.titleRule (session.openRule name).2 = name := by
      unfold openRule
      split <;> rfl
    rw [seekTitle_of_title htitle, openRule_fst]
    simp [hname, htitled]

/-- A line closes a rule, or keeps its name, or opens the rule of a title. -/
theorem names_consume {session : Session} (hfiled : session.Filed) (full : List Char) :
    (session.closedBy full ++ (session.consume full).1.current.toList).map
        (fun rule => rule.entry.name)
      = session.current.toList.map (fun rule => rule.entry.name)
        ++ (session.consume full).2.toList.map Event.titleRule := by
  rw [List.map_append, closedBy]
  by_cases hends : endsRule full (Text.trim full)
  · rw [if_pos hends, consume_of_endsRule hends, consume_of_closed (current_finish session),
      names_seekTitle (current_finish session) (filed_finish hfiled)]
  · rw [if_neg hends, List.map_nil, List.nil_append]
    cases hcurrent : session.current with
    | none =>
      rw [consume_of_closed hcurrent, names_seekTitle hcurrent hfiled]
      rfl
    | some rule =>
      rw [consume_of_open hcurrent hends]
      simp

/-- **A rule is closed for each title that was accepted**, under the name of the title.  The last
rule is closed by the end of the lines; `hfiled` makes the name of the entry that of the title. -/
theorem names_closings {session : Session} (hfiled : session.Filed) (lines : List (List Char)) :
    (session.closings lines).map (fun rule => rule.entry.name)
      = session.current.toList.map (fun rule => rule.entry.name)
        ++ (session.titles lines).map Event.titleRule := by
  induction lines generalizing session with
  | nil => simp [closings, titles]
  | cons full rest ih =>
    rw [closings, titles, List.map_append, List.map_append, ih (filed_consume hfiled full),
      ← List.append_assoc, ← List.append_assoc, ← List.map_append, names_consume hfiled full]

end Session

/-! ## Whole runs -/

namespace Description

/-- **A description of segments**: one for each of the rules, in their order. -/
def Segmented (rules : List OpenRule) (text : String) : Prop :=
  ∃ segments : List String, text = String.join segments
    ∧ List.Forall₂ (fun rule segment => Segment rule.mode segment) rules segments

theorem Segmented.nil : Segmented [] "" :=
  ⟨[], rfl, .nil⟩

theorem Segmented.snoc {rules : List OpenRule} {text segment : String} {rule : OpenRule}
    (h : Segmented rules text) (hsegment : Segment rule.mode segment) :
    Segmented (rules ++ [rule]) (text ++ segment) := by
  obtain ⟨segments, rfl, hsegments⟩ := h
  refine ⟨segments ++ [segment], ?_, List.rel_append hsegments (.cons hsegment .nil)⟩
  rw [String.join_append, String.join_cons, String.join_nil, String.append_empty]

end Description

namespace Session

open Description

/-- The rules of a name among some rules. -/
def named (rules : List OpenRule) (name : String) : List OpenRule :=
  rules.filter fun rule => rule.entry.name = name

theorem named_snoc (past : List OpenRule) (rule : OpenRule) (name : String) :
    named (past ++ [rule]) name
      = if rule.entry.name = name then named past name ++ [rule] else named past name := by
  by_cases hname : rule.entry.name = name <;> simp [named, hname]

/-- **The descriptions of a session** follow the grammar, where `past` are the rules that were
closed: those of filed entries are segmented, and that of the open rule ends in a draft. -/
structure Described (session : Session) (past : List OpenRule) : Prop where
  finished : ∀ name,
    Segmented (named past name) (session.finished.entryOrNew name).rawDescription
  current : ∀ rule, session.current = some rule → ∃ earlier,
    Segmented (named past rule.entry.name) earlier ∧ rule.Extends earlier (Draft rule.mode)

variable {session : Session} {past : List OpenRule}

theorem described_start : start.Described [] where
  finished _ := .nil
  current := by
    intro rule hrule
    cases hrule

theorem described_finish (h : session.Described past) :
    session.finish.Described (past ++ session.current.toList) := by
  cases hcurrent : session.current with
  | none => rwa [finish_of_closed hcurrent, Option.toList_none, List.append_nil]
  | some rule =>
    obtain ⟨earlier, hearlier, hdraft⟩ := h.current rule hcurrent
    obtain ⟨segment, hraw, hsegment⟩ := OpenRule.segment_close hdraft
    rw [finish_of_open hcurrent]
    refine ⟨fun name => ?_, fun other hother => nomatch hother⟩
    rw [Option.toList_some, named_snoc, Catalogue.entryOrNew_insert]
    by_cases hname : rule.entry.name = name
    · rw [if_pos hname, if_pos hname, hraw, ← hname]
      exact hearlier.snoc hsegment
    · rw [if_neg hname, if_neg hname]
      exact h.finished name

/-- A rule is opened with the description that is filed, and an empty draft. -/
theorem described_seekTitle (h : session.Described past) (hfiled : session.Filed)
    (line : List Char) :
    (session.seekTitle line).1.Described past := by
  cases htitle : titleName? line with
  | none => rwa [seekTitle_of_noTitle htitle]
  | some name =>
    rw [seekTitle_of_title htitle, openRule_fst]
    refine ⟨h.finished, ?_⟩
    rintro rule ⟨rfl⟩
    have hname : (session.finished.entryOrNew name).name = name :=
      Catalogue.name_entryOrNew hfiled name
    -- What is filed under the name becomes `earlier`, and the new segment is still empty.
    refine ⟨_, ?_, "", String.append_empty.symm, .between .nil⟩
    rw [hname]
    exact h.finished name

/-- **A line keeps descriptions in the grammar**: those of the rules closed so far are whole, and
that of the open rule is a draft. -/
theorem described_consume (h : session.Described past) (hfiled : session.Filed)
    (full : List Char) :
    (session.consume full).1.Described (past ++ session.closedBy full) := by
  rw [closedBy]
  by_cases hends : endsRule full (Text.trim full)
  · rw [if_pos hends, consume_of_endsRule hends, consume_of_closed (current_finish session)]
    exact described_seekTitle (described_finish h) (filed_finish hfiled) _
  · rw [if_neg hends, List.append_nil]
    cases hcurrent : session.current with
    | none =>
      rw [consume_of_closed hcurrent]
      exact described_seekTitle h hfiled _
    | some rule =>
      rw [consume_of_open hcurrent hends]
      refine ⟨h.finished, ?_⟩
      rintro next ⟨rfl⟩
      obtain ⟨earlier, hearlier, hdraft⟩ := h.current rule hcurrent
      refine ⟨earlier, ?_, OpenRule.extends_consume hdraft full⟩
      rwa [OpenRule.name_consume]

/-- **After all lines every description is segmented** by the rules that were closed, by induction
with `described_consume`. -/
theorem described_feed (h : session.Described past) (hfiled : session.Filed)
    (lines : List (List Char)) :
    (session.feed lines).finish.Described (past ++ session.closings lines) := by
  induction lines generalizing session past with
  | nil => exact described_finish h
  | cons full rest ih =>
    rw [feed_cons, closings, ← List.append_assoc]
    exact ih (described_consume h hfiled full) (filed_consume hfiled full)

end Session

namespace Catalogue

open Description

/-- **Descriptions are well-formed markup**, whatever the lines are.  The rules that were closed
are those of the titles accepted, one for each; and the description of a rule is one segment for
each time the rule was closed, whole unless it was closed inside example code. -/
theorem rawDescription_ofLines (lines : List String) {name : String} {e : RuleEntry}
    (h : (ofLines lines).get? name = some e) :
    let closed := Session.start.closings (lines.map Session.dropLineEnd)
    closed.map (fun rule => rule.entry.name)
        = (Session.readLines lines).2.map Event.titleRule
      ∧ ∃ segments : List String, e.rawDescription = String.join segments
        ∧ List.Forall₂ (fun rule segment => Segment rule.mode segment)
            (Session.named closed name) segments := by
  intro closed
  constructor
  · rw [Session.readLines_eq]
    exact Session.names_closings Session.filed_start _
  · have hdescribed :
        (Session.start.feed (lines.map Session.dropLineEnd)).finish.Described closed :=
      Session.described_feed Session.described_start Session.filed_start _
    have hentry : (ofLines lines).entryOrNew name = e := by simp [entryOrNew, h]
    have hname := hdescribed.finished name
    rwa [← Session.ofLines_eq, hentry] at hname

/-- A rule that is resumed after example code without an end has one segment of each kind. -/
theorem rawDescription_ofLines_resumed :
    let lines := ["* FooRule", "a <b> & c", "", "----", "if (a < b)", "* FooRule", "d -> e"]
    let e : RuleEntry :=
      { name := "Foo"
        rawDescription := "<p>a <i>b</i> &amp; c</p>\n<pre>\nif (a &lt; b)\n<p>d -&gt; e</p>\n" }
    (ofLines lines).get? "Foo" = some e
      ∧ ∃ segments : List String, e.rawDescription = String.join segments
        ∧ List.Forall₂ (fun rule segment => Segment rule.mode segment)
            (Session.named (Session.start.closings (lines.map Session.dropLineEnd)) "Foo")
            segments := by
  intro lines e
  have hfiled : (ofLines lines).get? "Foo" = some e := by decide +kernel
  exact ⟨hfiled, (rawDescription_ofLines lines hfiled).2⟩

end Catalogue

end RuleCatalogue
