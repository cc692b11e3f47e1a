import RuleCatalogue.Proofs.Encoding.Utf8
import RuleCatalogue.Proofs.Report

/-!
# Files and their lines

Reading a file agrees with reading its lines: lines that hold no line end of their own are found
again in the octets of the text in which each of them is ended (`Reading.ofContents_utf8`).  The
three ends of a line do the same, if one of them is used throughout.

A file of other octets is read as well, unless they are not UTF-8.  That is the only reason to leave
out a file that was opened.

## Main definitions

* `LineEnd` lists the ends of a line.
* `Source.ended` is the text of lines each of which is ended.

* `Source.Unbroken` lines hold no line end of their own.

## Main results

* `Source.lines_ended`: lines that are ended are found again.
* `Reading.ofContents_utf8`: reading a file, and which files are left out.
* `Reading.ofContents_utf8_carriageReturn`: two lines ended by carriage returns.
-/

namespace RuleCatalogue

/-- **What ends a line.** -/
inductive LineEnd
  | lineFeed
  | carriageReturn
  | both
deriving DecidableEq, Repr

/-- The characters of a line end. -/
def LineEnd.text : LineEnd → String
  | lineFeed => "\n"
  | carriageReturn => "\r"
  | both => "\r\n"

namespace Source

/-! ## Lines in a text -/

/-- **The text of lines**, each with a line end behind it. -/
def ended (ending : LineEnd) (lines : List String) : String :=
  String.join (lines.map (· ++ ending.text))

theorem toList_ended_cons (ending : LineEnd) (line : String) (lines : List String) :
    (ended ending (line :: lines)).toList
      = line.toList ++ (ending.text.toList ++ (ended ending lines).toList) := by
  simp [ended, String.toList_join]

/-- **A line as a file can have it**: no character in it ends a line. -/
def Unbroken (line : String) : Prop :=
  '\r' ∉ line.toList ∧ '\n' ∉ line.toList

instance (line : String) : Decidable (Unbroken line) :=
  inferInstanceAs (Decidable (_ ∧ _))

theorem takeLine_append {line : List Char} (hreturn : '\r' ∉ line) (hfeed : '\n' ∉ line)
    (rest : List Char) :
    takeLine (line ++ rest) = (line ++ (takeLine rest).1, (takeLine rest).2) := by
  induction line with
  | nil => rfl
  | cons c line ih =>
    rw [List.mem_cons, not_or] at hreturn hfeed
    simp [takeLine, Ne.symm hreturn.1, Ne.symm hfeed.1, ih hreturn.2 hfeed.2]

/-- A line end is taken as one, unless a carriage return is torn from a line feed behind it. -/
theorem takeLine_text {ending : LineEnd} {rest : List Char}
    (h : ending = .carriageReturn → rest.head? ≠ some '\n') :
    takeLine (ending.text.toList ++ rest) = ([], some rest) := by
  cases ending with
  | lineFeed => rfl
  | both => rfl
  | carriageReturn =>
    cases rest with
    | nil => rfl
    | cons c rest =>
      have hfeed : c ≠ '\n' := by simpa using h rfl
      simp [LineEnd.text, takeLine, hfeed]

/-- Behind a line that a carriage return ends, no line feed follows. -/
theorem head?_ended_ne {lines : List String} (h : ∀ line ∈ lines, Unbroken line) :
    (ended .carriageReturn lines).toList.head? ≠ some '\n' := by
  cases lines with
  | nil => simp [ended]
  | cons line lines =>
    have hfeed := (h line List.mem_cons_self).2
    rw [toList_ended_cons]
    cases hline : line.toList with
    | nil => simp [LineEnd.text]
    | cons c rest =>
      rw [hline, List.mem_cons, not_or] at hfeed
      simpa [eq_comm] using hfeed.1

theorem lines_of_takeLine {s line rest : List Char} (h : takeLine s = (line, some rest)) :
    lines s = String.ofList line :: lines rest := by
  rw [lines]
  split
  · next hnone => rw [h] at hnone; cases hnone
  · next hsome => rw [h] at hsome; cases hsome; rfl

/-- **Lines that are ended are found again**, empty ones as well, and none behind the last end.
`Unbroken` asks each line to have no line end in it, of whichever kind. -/
theorem lines_ended {ending : LineEnd} {lines : List String} (h : ∀ line ∈ lines, Unbroken line) :
    Source.lines (ended ending lines).toList = lines := by
  induction lines with
  | nil =>
    rw [Source.lines]
    rfl
  | cons line lines ih =>
    obtain ⟨hline, hlines⟩ := List.forall_mem_cons.mp h
    -- Behind a carriage return begins the next line, or nothing, but never a line feed.
    have hend : takeLine (ending.text.toList ++ (ended ending lines).toList)
        = ([], some (ended ending lines).toList) := by
      refine takeLine_text ?_
      rintro rfl
      exact head?_ended_ne hlines
    have htaken : takeLine (ended ending (line :: lines)).toList
        = (line.toList, some (ended ending lines).toList) := by
      rw [toList_ended_cons, takeLine_append hline.1 hline.2, hend, List.append_nil]
    rw [lines_of_takeLine htaken, ih hlines, String.ofList_toList]

/-! ## Lines of a file -/

section Codecs

variable [Codecs]

theorem decodeLines_of_decode {name : String} {encoding : Encoding}
    (hname : Encoding.ofName? name = some encoding) {octets : Octets} {text : List Char}
    (h : encoding.decode octets = .ok text) :
    decodeLines name (.ok octets) = .ok (.ok (lines text)) := by
  simp [decodeLines, TextCodec.hasNull_of_encoding hname, TextCodec.ofName_of_encoding hname,
    TextCodec.ofEncoding, h]

end Codecs

end Source

namespace Reading

section Codecs

variable [Codecs]

/-- **Reading a file agrees with reading its lines**, in UTF-8: lines that are ended alike are found
again as they are, and the reading of the file is the reading of these lines.  And **octets that are
not UTF-8 are the only ones that leave a file out**; all others give rules. -/
theorem ofContents_utf8 {name : String} (hname : Encoding.ofName? name = some .utf8) (path : Path) :
    (∀ (ending : LineEnd) (lines : List String), (∀ line ∈ lines, Source.Unbroken line) →
      let contents := (Source.ended ending lines).toUTF8.data.toList
      Source.decodeLines name (.ok contents) = .ok (.ok lines)
        ∧ ofContents name path (.ok contents) = ofLines path lines
        ∧ (ofContents name path (.ok contents)).result = .ok (.ok (Catalogue.ofLines lines)))
    ∧ ∀ octets : Octets,
        ((∃ failure, (ofContents name path (.ok octets)).result = .ok (.error failure))
          ↔ ¬ octets.toByteArray.IsValidUTF8)
        ∧ ((∃ rules, (ofContents name path (.ok octets)).result = .ok (.ok rules))
          ↔ octets.toByteArray.IsValidUTF8) := by
  constructor
  · intro ending lines h
    dsimp only
    have hdecoded : Encoding.utf8.decode (Source.ended ending lines).toUTF8.data.toList
        = .ok (Source.ended ending lines).toList :=
      Encoding.decode_utf8_eq_ok_iff.mpr (Encoding.toList_toUTF8 _)
    have hlines := Source.decodeLines_of_decode hname hdecoded
    rw [Source.lines_ended h] at hlines
    have hread : ofContents name path (.ok (Source.ended ending lines).toUTF8.data.toList)
        = ofLines path lines := by
      rw [ofContents, hlines]
    exact ⟨hlines, hread, by rw [hread]; rfl⟩
  · intro octets
    have hjudgeable : Source.Judgeable .utf8 (.ok octets) :=
      ⟨by simp, by simp [Source.OrderKnown]⟩
    have hgoes := Source.breakdown?_of_judgeable hname hjudgeable
    have hfound := TextCodec.ofName_of_encoding hname
    rw [Encoding.isValidUTF8_iff]
    rcases result_ofContents (TextCodec.hasNull_of_encoding hname) path (.ok octets) with
      ⟨breakdown, -, hbreaks⟩ | ⟨failure, hresult, -, -, hnone⟩ | ⟨rules, hresult, -, -, hsome⟩
    · rw [hgoes] at hbreaks
      cases hbreaks
    · have hundecoded : ¬ ∃ text, Encoding.utf8.decode octets = .ok text := by
        rintro ⟨text, hdecoded⟩
        simp [Source.catalogue?, hfound, TextCodec.ofEncoding, hdecoded, Except.toOption] at hnone
      simp [hresult, hundecoded]
    · have hdecoded : ∃ text, Encoding.utf8.decode octets = .ok text := by
        cases hdecoded : Encoding.utf8.decode octets with
        | ok text => exact ⟨text, rfl⟩
        | error e =>
          simp [Source.catalogue?, hfound, TextCodec.ofEncoding, hdecoded, Except.toOption] at hsome
      simp [hresult, hdecoded]

end Codecs

/-- Neither a form feed nor another separator ends a line, and an empty line of example code is
kept, also where carriage returns end the lines. -/
theorem ofContents_utf8_carriageReturn :
    let lines := ["* Foo", "", "----", "a\u000Cb\u0085c", "", "----"]
    let contents := (Source.ended .carriageReturn lines).toUTF8.data.toList
    (∀ line ∈ lines, Source.Unbroken line)
      ∧ Encoding.ofName? "utf-8" = some .utf8
      ∧ @Source.decodeLines Codecs.arabic "utf-8" (.ok contents) = .ok (.ok lines)
      ∧ (@ofContents Codecs.arabic "utf-8" ⟨.here, ["a.apt"]⟩ (.ok contents)).result
          = .ok (.ok (Catalogue.ofLines lines)) := by
  intro lines contents
  have hunbroken : ∀ line ∈ lines, Source.Unbroken line := by decide
  have hname : Encoding.ofName? "utf-8" = some .utf8 := rfl
  obtain ⟨hlines, -, hrules⟩ := (@ofContents_utf8 Codecs.arabic _ hname ⟨.here, ["a.apt"]⟩).1
    .carriageReturn lines hunbroken
  exact ⟨hunbroken, hname, hlines, hrules⟩

end Reading

end RuleCatalogue
