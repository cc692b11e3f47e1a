import Mathlib.Data.List.Chain
import RuleCatalogue.Proofs.Markup
import RuleCatalogue.Text.Character

/-!
# Emphasis that is not nested

A line of plain stretches and emphasised ones is converted stretch by stretch: the brackets of an
emphasised stretch become its pair of tags, and of the texts the ampersands alone are escaped.  Any
stretches may stand beside each other.

## Main definitions

* `Emphasis` is a kind of emphasis, with its number of brackets and its tags.
* `Span` is a stretch of a line, as it is written and as it is shown.

## Main statements

* `prose_flatMap_written`: what a line of such stretches converts to.

## Design notes

No operator, arrow or backslash is found in such a line, and that is a fact about neighbouring
characters (`Calm`): behind an opening bracket stands another one or a letter, and before a closing
one likewise.  So nothing but the ampersands is escaped.  Each run of marks is then bounded by
characters that are not its mark, so the tags are written run by run.
-/

namespace RuleCatalogue.Markup

open Text

/-- **The kinds of emphasis.** -/
inductive Emphasis
  | italics
  | bold
  | code

namespace Emphasis

/-- The number of brackets on each side. -/
def width : Emphasis → Nat
  | italics => 1
  | bold => 2
  | code => 3

/-- The tag before the text. -/
def openingTag : Emphasis → List Char
  | italics => "<i>".toList
  | bold => "<b>".toList
  | code => "<code>".toList

/-- The tag behind the text. -/
def closingTag : Emphasis → List Char
  | italics => "</i>".toList
  | bold => "</b>".toList
  | code => "</code>".toList

theorem exists_width_eq (kind : Emphasis) : ∃ n, kind.width = n + 1 := by
  cases kind <;> exact ⟨_, rfl⟩

theorem writeTags_opening (kind : Emphasis) :
    writeTags (List.replicate kind.width openMark) = kind.openingTag := by
  cases kind <;> decide +kernel

theorem writeTags_closing (kind : Emphasis) :
    writeTags (List.replicate kind.width closeMark) = kind.closingTag := by
  cases kind <;> decide +kernel

end Emphasis

/-- **Text without brackets**, backslashes and the marks of the conversion. -/
def Bare (s : List Char) : Prop :=
  ∀ c ∈ s, c ∉ ['<', '>', '\\', openMark, closeMark]

instance (s : List Char) : Decidable (Bare s) :=
  inferInstanceAs (Decidable (∀ c ∈ s, c ∉ ['<', '>', '\\', openMark, closeMark]))

/-- **A letter or number at both ends.** -/
structure Worded (s : List Char) : Prop where
  head : ∃ c ∈ s.head?, isAlphanumeric c
  last : ∃ c ∈ s.getLast?, isAlphanumeric c

theorem worded_iff_any {s : List Char} :
    Worded s ↔ s.head?.any isAlphanumeric ∧ s.getLast?.any isAlphanumeric := by
  have hany (o : Option Char) : (∃ c ∈ o, isAlphanumeric c) ↔ o.any isAlphanumeric := by
    cases o <;> simp
  rw [← hany, ← hany]
  exact ⟨fun h => ⟨h.head, h.last⟩, fun h => ⟨h.1, h.2⟩⟩

instance (s : List Char) : Decidable (Worded s) :=
  decidable_of_iff' _ worded_iff_any

/-- **A stretch of a line**: plain text, or text with emphasis. -/
inductive Span
  | plain (text : List Char)
  | emphasised (kind : Emphasis) (text : List Char)

namespace Span

/-- The stretch as it is written. -/
def written : Span → List Char
  | plain text => text
  | emphasised kind text =>
      List.replicate kind.width '<' ++ (text ++ List.replicate kind.width '>')

/-- The stretch with its brackets set aside. -/
def aside : Span → List Char
  | plain text => text
  | emphasised kind text =>
      List.replicate kind.width openMark ++ (text ++ List.replicate kind.width closeMark)

/-- The stretch with its brackets as tags. -/
def tagged : Span → List Char
  | plain text => text
  | emphasised kind text => kind.openingTag ++ (text ++ kind.closingTag)

/-- The stretch with another text. -/
def mapText (f : List Char → List Char) : Span → Span
  | plain text => plain (f text)
  | emphasised kind text => emphasised kind (f text)

/-- **The stretch as it is shown**: the ampersands of its text are escaped, and its brackets are
tags. -/
def shown (span : Span) : List Char :=
  (span.mapText ampersands).tagged

/-- **Emphasis that is not nested**: no brackets in the text, and a letter or number at the ends of
a text with emphasis. -/
def Simple : Span → Prop
  | plain text => Bare text
  | emphasised _ text => Bare text ∧ Worded text

instance : (span : Span) → Decidable span.Simple
  | plain text => inferInstanceAs (Decidable (Bare text))
  | emphasised _ text => inferInstanceAs (Decidable (Bare text ∧ Worded text))

end Span

/-! ## Escaping -/

/-- **Neighbours that no operator, arrow or backslash stands at.** -/
def Calm (a b : Char) : Prop :=
  (a = '<' → b = '<' ∨ isAlphanumeric b) ∧ (b = '>' → a = '>' ∨ isAlphanumeric a) ∧ a ≠ '\\'

instance : DecidableRel Calm := fun a b =>
  inferInstanceAs (Decidable ((a = '<' → b = '<' ∨ isAlphanumeric b)
    ∧ (b = '>' → a = '>' ∨ isAlphanumeric a) ∧ a ≠ '\\'))

/-- Of a calm line nothing is escaped but the ampersands. -/
theorem replaceEach_of_calm {s : List Char} (h : s.IsChain Calm) :
    replaceEach (operatorEscapes ++ tokenEscapes) s = s := by
  have hnoise : ∀ pair ∈ operatorEscapes ++ tokenEscapes,
      pair.1 ≠ [] ∧ ¬ pair.1.IsChain Calm := by
    decide +kernel
  refine replaceEach_of_absent fun pair hpair => ⟨(hnoise pair hpair).1, fun hpart => ?_⟩
  have hcalm : pair.1.IsChain Calm := List.IsChain.infix h hpart
  exact (hnoise pair hpair).2 hcalm

namespace Bare

variable {s : List Char}

theorem ne (h : Bare s) {c : Char} (hc : c ∈ s) :
    c ≠ '<' ∧ c ≠ '>' ∧ c ≠ '\\' ∧ c ≠ openMark ∧ c ≠ closeMark := by
  have hspecial := h c hc
  simpa only [List.mem_cons, List.not_mem_nil, or_false, not_or] using hspecial

theorem isChain (h : Bare s) : s.IsChain Calm := by
  refine (List.pairwise_of_forall_mem_list fun a ha b hb => ?_).isChain
  obtain ⟨hopen, -, hbackslash, -⟩ := h.ne ha
  obtain ⟨-, hclose, -⟩ := h.ne hb
  exact ⟨fun e => absurd e hopen, fun e => absurd e hclose, hbackslash⟩

theorem ampersands (h : Bare s) : Bare (ampersands s) := by
  intro c hc
  rcases mem_of_mem_ampersands hc with hmem | hmem
  · exact h c hmem
  · have hnew : ∀ c ∈ "&amp;".toList, c ∉ ['<', '>', '\\', openMark, closeMark] := by decide
    exact hnew c hmem

end Bare

/-- Escaping ampersands does not touch the letters at the ends. -/
theorem Worded.ampersands {s : List Char} (h : Worded s) : Worded (ampersands s) := by
  have hamp {c : Char} (hc : isAlphanumeric c) : c ≠ '&' := by
    rintro rfl
    revert hc
    decide +kernel
  refine ⟨?_, ?_⟩
  · obtain ⟨c, hc, hword⟩ := h.head
    obtain ⟨rest, rfl⟩ := List.head?_eq_some_iff.mp hc
    rw [ampersands_cons (hamp hword)]
    exact ⟨c, rfl, hword⟩
  · obtain ⟨c, hc, hword⟩ := h.last
    obtain ⟨init, rfl⟩ := List.getLast?_eq_some_iff.mp hc
    rw [ampersands_append, ampersands_cons (hamp hword), ampersands_of_not_mem List.not_mem_nil]
    exact ⟨c, List.getLast?_concat, hword⟩

namespace Span

theorem Simple.ampersands {span : Span} (h : span.Simple) : (span.mapText ampersands).Simple := by
  cases span with
  | plain text => exact Bare.ampersands h
  | emphasised kind text => exact ⟨h.1.ampersands, h.2.ampersands⟩

theorem ampersands_written (span : Span) :
    ampersands span.written = (span.mapText Markup.ampersands).written := by
  cases span with
  | plain text => rfl
  | emphasised kind text =>
    have hbrackets (c : Char) (hc : c ≠ '&') :
        Markup.ampersands (List.replicate kind.width c) = List.replicate kind.width c :=
      ampersands_of_not_mem fun hmem => hc (List.eq_of_mem_replicate hmem).symm
    simp only [written, mapText, ampersands_append, hbrackets '<' (by decide),
      hbrackets '>' (by decide)]

theorem ampersands_flatMap_written (spans : List Span) :
    ampersands (spans.flatMap written)
      = (spans.map (mapText Markup.ampersands)).flatMap written := by
  induction spans with
  | nil => exact ampersands_of_not_mem List.not_mem_nil
  | cons span rest ih =>
    rw [List.flatMap_cons, ampersands_append, ampersands_written, ih]
    rfl

/-- A stretch before calm text that begins with no closing bracket. -/
theorem Simple.isChain_written_append {span : Span} (h : span.Simple) {rest : List Char}
    (hrest : rest.IsChain Calm) (hhead : '>' ∉ rest.head?) :
    (span.written ++ rest).IsChain Calm ∧ '>' ∉ (span.written ++ rest).head? := by
  cases span with
  | plain text =>
    have htext : Bare text := h
    constructor
    · refine List.isChain_append.mpr ⟨htext.isChain, hrest, fun a ha b hb => ?_⟩
      obtain ⟨hopen, -, hbackslash, -⟩ := htext.ne (List.mem_of_mem_getLast? ha)
      refine ⟨fun e => absurd e hopen, fun e => ?_, hbackslash⟩
      exact absurd (e ▸ hb) hhead
    · intro hclose
      rw [written, List.head?_append, Option.mem_def, Option.or_eq_some_iff] at hclose
      rcases hclose with hfirst | ⟨-, hfirst⟩
      · exact (htext.ne (List.mem_of_mem_head? hfirst)).2.1 rfl
      · exact hhead hfirst
  | emphasised kind text =>
    obtain ⟨htext, ⟨first, hfirst, hfirstWord⟩, last, hlast, hlastWord⟩ := h
    obtain ⟨n, hwidth⟩ := kind.exists_width_eq
    -- Three seams: before the text, behind it, and behind the closing brackets.
    have hclosing : (List.replicate (n + 1) '>' ++ rest).IsChain Calm := by
      refine List.isChain_append.mpr
        ⟨List.isChain_replicate_of_rel _ (by decide), hrest, fun a ha b hb => ?_⟩
      rw [List.eq_of_mem_replicate (List.mem_of_mem_getLast? ha)]
      exact ⟨nofun, fun e => absurd (e ▸ hb) hhead, by decide⟩
    have hbehind : (text ++ (List.replicate (n + 1) '>' ++ rest)).IsChain Calm := by
      refine List.isChain_append.mpr ⟨htext.isChain, hclosing, fun a ha b hb => ?_⟩
      cases Option.mem_unique ha hlast
      obtain ⟨hopen, -, hbackslash, -⟩ := htext.ne (List.mem_of_mem_getLast? hlast)
      exact ⟨fun e => absurd e hopen, fun _ => Or.inr hlastWord, hbackslash⟩
    have hbefore : (List.replicate (n + 1) '<'
        ++ (text ++ (List.replicate (n + 1) '>' ++ rest))).IsChain Calm := by
      refine List.isChain_append.mpr
        ⟨List.isChain_replicate_of_rel _ (by decide), hbehind, fun a ha b hb => ?_⟩
      rw [List.head?_append, Option.mem_def.mp hfirst] at hb
      cases hb
      obtain ⟨-, hclose, -⟩ := htext.ne (List.mem_of_mem_head? hfirst)
      rw [List.eq_of_mem_replicate (List.mem_of_mem_getLast? ha)]
      exact ⟨fun _ => Or.inr hfirstWord, fun e => absurd e hclose, by decide⟩
    rw [written, hwidth, List.append_assoc, List.append_assoc]
    exact ⟨hbefore, by simp [List.replicate_succ]⟩

theorem isChain_flatMap_written {spans : List Span} (h : ∀ span ∈ spans, span.Simple) :
    (spans.flatMap written ++ [' ']).IsChain Calm
      ∧ '>' ∉ (spans.flatMap written ++ [' ']).head? := by
  induction spans with
  | nil => decide
  | cons span rest ih =>
    obtain ⟨hrest, hhead⟩ := ih fun other hother => h other (List.mem_cons_of_mem span hother)
    rw [List.flatMap_cons, List.append_assoc]
    exact (h span List.mem_cons_self).isChain_written_append hrest hhead

/-! ## Tags -/

theorem Simple.map_setAside {span : Span} (h : span.Simple) :
    span.written.map setAside = span.aside := by
  have hbare {s : List Char} (hs : Bare s) : s.map setAside = s := by
    refine (List.map_congr_left fun c hc => ?_).trans (List.map_id s)
    obtain ⟨hopen, hclose, -⟩ := hs.ne hc
    simp [setAside, hopen, hclose]
  cases span with
  | plain text => exact hbare h
  | emphasised kind text =>
    simp only [written, aside, List.map_append, List.map_replicate, hbare h.1]
    rfl

theorem map_setAside_flatMap_written {spans : List Span} (h : ∀ span ∈ spans, span.Simple) :
    (spans.flatMap written).map setAside = spans.flatMap aside := by
  induction spans with
  | nil => rfl
  | cons span rest ih =>
    rw [List.flatMap_cons, List.map_append, (h span List.mem_cons_self).map_setAside,
      ih fun other hother => h other (List.mem_cons_of_mem span hother), List.flatMap_cons]

/-- A stretch before text that begins with no closing mark. -/
theorem Simple.writeTags_aside_append {span : Span} (h : span.Simple) {rest : List Char}
    (hhead : closeMark ∉ rest.head?) :
    writeTags (span.aside ++ rest) = span.tagged ++ writeTags rest
      ∧ closeMark ∉ (span.aside ++ rest).head? := by
  cases span with
  | plain text =>
    have htext : Bare text := h
    have hopen : openMark ∉ text := fun hmem => (htext.ne hmem).2.2.2.1 rfl
    have hclose : closeMark ∉ text := fun hmem => (htext.ne hmem).2.2.2.2 rfl
    constructor
    · rw [aside, writeTags_append (.of_not_mem_left hopen _) (.of_not_mem_left hclose _),
        writeTags_of_not_mem hopen hclose, tagged]
    · intro hmem
      rw [aside, List.head?_append, Option.mem_def, Option.or_eq_some_iff] at hmem
      rcases hmem with hfirst | ⟨-, hfirst⟩
      · exact hclose (List.mem_of_mem_head? hfirst)
      · exact hhead hfirst
  | emphasised kind text =>
    obtain ⟨htext, ⟨first, hfirst, -⟩, -⟩ := h
    have hopen : openMark ∉ text := fun hmem => (htext.ne hmem).2.2.2.1 rfl
    have hclose : closeMark ∉ text := fun hmem => (htext.ne hmem).2.2.2.2 rfl
    have hopening : closeMark ∉ List.replicate kind.width openMark := fun hmem =>
      absurd (List.eq_of_mem_replicate hmem) (by decide)
    have hclosing : openMark ∉ List.replicate kind.width closeMark := fun hmem =>
      absurd (List.eq_of_mem_replicate hmem) (by decide)
    have htextHead (s : List Char) : openMark ∉ (text ++ s).head? := by
      rw [List.head?_append, Option.mem_def.mp hfirst]
      intro hmem
      exact hopen (List.mem_of_mem_head? (Option.mem_some.mp hmem ▸ hfirst))
    constructor
    · calc writeTags (aside (emphasised kind text) ++ rest)
          = writeTags (List.replicate kind.width openMark
              ++ (text ++ (List.replicate kind.width closeMark ++ rest))) := by
            rw [aside, List.append_assoc, List.append_assoc]
        _ = kind.openingTag
              ++ writeTags (text ++ (List.replicate kind.width closeMark ++ rest)) := by
            rw [writeTags_append (.of_not_mem_head? _ (htextHead _)) (.of_not_mem_left hopening _),
              kind.writeTags_opening]
        _ = kind.openingTag
              ++ (text ++ writeTags (List.replicate kind.width closeMark ++ rest)) := by
            rw [writeTags_append (.of_not_mem_left hopen _) (.of_not_mem_left hclose _),
              writeTags_of_not_mem hopen hclose]
        _ = kind.openingTag ++ (text ++ (kind.closingTag ++ writeTags rest)) := by
            rw [writeTags_append (.of_not_mem_left hclosing _) (.of_not_mem_head? _ hhead),
              kind.writeTags_closing]
        _ = tagged (emphasised kind text) ++ writeTags rest := by
            rw [tagged, List.append_assoc, List.append_assoc]
    · obtain ⟨n, hwidth⟩ := kind.exists_width_eq
      rw [aside, hwidth, List.replicate_succ]
      intro hmem
      exact absurd (Option.mem_some.mp hmem) (by decide)

theorem writeTags_flatMap_aside {spans : List Span} (h : ∀ span ∈ spans, span.Simple) :
    writeTags (spans.flatMap aside ++ [' ']) = spans.flatMap tagged ++ [' ']
      ∧ closeMark ∉ (spans.flatMap aside ++ [' ']).head? := by
  induction spans with
  | nil => decide +kernel
  | cons span rest ih =>
    obtain ⟨hrest, hhead⟩ := ih fun other hother => h other (List.mem_cons_of_mem span hother)
    obtain ⟨hspan, hhead'⟩ := (h span List.mem_cons_self).writeTags_aside_append hhead
    rw [List.flatMap_cons, List.append_assoc, hspan, hrest, List.flatMap_cons, List.append_assoc]
    exact ⟨rfl, hhead'⟩

end Span

/-- **Emphasis that is not nested is converted stretch by stretch**, whatever stands beside it.
`Span.Simple` asks each stretch to have no bracket inside, and one with emphasis to begin and end
with a letter or a number; of what stands beside it nothing is asked. -/
theorem prose_flatMap_written {spans : List Span} (h : ∀ span ∈ spans, span.Simple) :
    prose (spans.flatMap Span.written) = trim (spans.flatMap Span.shown) := by
  let escaped := spans.map (Span.mapText ampersands)
  have hsimple : ∀ span ∈ escaped, span.Simple := by
    intro span hspan
    obtain ⟨before, hbefore, rfl⟩ := List.mem_map.mp hspan
    exact (h before hbefore).ampersands
  have hescape : escapeProse (spans.flatMap Span.written)
      = ' ' :: (escaped.flatMap Span.written ++ [' ']) := by
    have hpadded : ampersands (' ' :: spans.flatMap Span.written ++ [' '])
        = ' ' :: (escaped.flatMap Span.written ++ [' ']) := by
      rw [List.cons_append, ampersands_cons (by decide), ampersands_append,
        Span.ampersands_flatMap_written, ampersands_of_not_mem (by decide)]
    obtain ⟨hcalm, hhead⟩ := Span.isChain_flatMap_written hsimple
    have hcalm' : (' ' :: (escaped.flatMap Span.written ++ [' '])).IsChain Calm := by
      refine List.isChain_cons.mpr ⟨fun b hb => ⟨nofun, fun e => absurd (e ▸ hb) hhead, ?_⟩, hcalm⟩
      decide
    rw [escapeProse_eq, escapes, replaceEach_cons, ← ampersands, hpadded,
      replaceEach_of_calm hcalm']
  have haside : (escapeProse (spans.flatMap Span.written)).map setAside
      = ' ' :: (escaped.flatMap Span.aside ++ [' ']) := by
    rw [hescape, List.map_cons, List.map_append, Span.map_setAside_flatMap_written hsimple]
    rfl
  have hshown : escaped.flatMap Span.tagged = spans.flatMap Span.shown := List.flatMap_map _ _ _
  have hspace : Severed [openMark] [' '] (escaped.flatMap Span.aside ++ [' '])
      ∧ Severed [closeMark] [' '] (escaped.flatMap Span.aside ++ [' ']) :=
    ⟨.of_not_mem_left (by decide) _, .of_not_mem_left (by decide) _⟩
  have htags : writeTags (' ' :: (escaped.flatMap Span.aside ++ [' ']))
      = [' '] ++ (spans.flatMap Span.shown ++ [' ']) := by
    rw [← List.singleton_append, writeTags_append hspace.1 hspace.2,
      (Span.writeTags_flatMap_aside hsimple).1, hshown,
      writeTags_of_not_mem (by decide) (by decide)]
  rw [prose, haside, htags]
  exact trim_append_blanks (by decide) (by decide) _

/-- Two emphasised stretches side by side, between plain ones with arrows and operators that
brackets do not complete. -/
theorem prose_flatMap_written_adjacent :
    let spans : List Span :=
      [.plain "a = b - & ".toList, .emphasised .code "R&D".toList, .emphasised .italics "x".toList,
       .plain "= -".toList, .emphasised .bold "1 = 2".toList, .plain [], .plain " ".toList]
    (∀ span ∈ spans, span.Simple)
      ∧ spans.flatMap Span.written = "a = b - & <<<R&D>>><x>= -<<1 = 2>> ".toList
      ∧ prose "a = b - & <<<R&D>>><x>= -<<1 = 2>> ".toList
        = "a = b - &amp; <code>R&amp;D</code><i>x</i>= -<b>1 = 2</b>".toList := by
  intro spans
  have hsimple : ∀ span ∈ spans, span.Simple := by decide +kernel
  have hwritten : spans.flatMap Span.written = "a = b - & <<<R&D>>><x>= -<<1 = 2>> ".toList := by
    decide
  refine ⟨hsimple, hwritten, ?_⟩
  rw [← hwritten, prose_flatMap_written hsimple]
  decide +kernel

end RuleCatalogue.Markup
