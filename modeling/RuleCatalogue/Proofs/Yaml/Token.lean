import Mathlib.Data.Bool.AllAny
import RuleCatalogue.Proofs.Yaml.DoubleQuoted
import RuleCatalogue.Proofs.Yaml.Scan

/-!
# Keys, texts and marks are cut into tokens

A line is a key, a colon and a text, possibly behind the mark of an item.  Each part is one step of
the scanner, and the step behind a text reaches to the first token of the next line.

## Main results

* `Scan.exists_leads_entry`: the mark of an item.
* `Scan.exists_leads_key`: a key and its colon.  The key is a plain text at first, and the tokens
  that make it a key are put in front of it once its colon is read.
* `Scan.exists_leads_text`: a text in any of the three styles; it reads as `reread` says.

## Design notes

Each lemma has the form `s.Leads next ∧ next.Ready …`: the scanner gets from one place to another,
whatever stands behind, and is ready for the next token there.  The column is what must be right at
such a place, since it decides which blocks end.
-/

namespace RuleCatalogue.Yaml

namespace Scan

variable {s : Scan} {tokens : List Token} {rest : List Char} {column : Nat}

/-! ## Which token begins -/

theorem token_entry (s : Scan) (rest : List Char) :
    s.token '-' (' ' :: rest) = s.blockMark .sequenceStart .entry true (' ' :: rest) := by
  have hmark : atDocumentMark ('-' :: ' ' :: rest) = false := rfl
  have hgap : atGap (' ' :: rest) = true := rfl
  simp [token, hmark, hgap]

theorem token_colon (s : Scan) (h : atGap rest) : s.token ':' rest = s.colon rest := by
  simp [token, h]

theorem beginsWord_of_mem {c : Char} (h : c ∈ [':', '\'', '"', '[', ']']) (rest : List Char) :
    BeginsWord (c :: rest) := by
  have hall : ∀ c ∈ [':', '\'', '"', '[', ']'],
      c ≠ ' ' ∧ isBreak c = false ∧ c ≠ '#' ∧ c ≠ '\uFEFF' :=
    List.all_iff_forall_prop.mp (by decide)
  intro d hd
  cases hd
  exact hall c h

theorem token_apostrophe (s : Scan) (rest : List Char) :
    s.token '\'' rest = s.keyLike (quotedToken (singleQuoted (rest.length + 1) rest)) := by
  simp [token]

theorem token_quote (s : Scan) (rest : List Char) :
    s.token '"' rest = s.keyLike (quotedToken (doubleQuoted (rest.length + 1) rest)) := by
  simp [token]

theorem token_openBracket (s : Scan) (rest : List Char) :
    s.token '[' rest = s.openBracket .flowSequenceStart rest := by
  simp [token]

theorem token_closeBracket (s : Scan) (rest : List Char) :
    s.token ']' rest = s.closeBracket .flowSequenceEnd rest := by
  simp [token]

/-- The characters that no plain text begins with. -/
def markers : List Char :=
  ['#', ',', '[', ']', '{', '}', '&', '*', '!', '|', '>', '\'', '"', '%', '@', '`']

/-- A plain text begins with a character that has no meaning of its own there. -/
theorem token_plain {c : Char} (hflow : s.inFlow = false) (hgap : isGap c = false)
    (hmark : c ∉ markers) (hbefore : c = '?' ∨ c = ':' ∨ c = '-' → atGap rest = false)
    (hbegin : s.cursor.column = 0 → c ≠ '-' ∧ c ≠ '.') :
    s.token c rest = s.plain := by
  by_cases h : c = '?' ∨ c = ':' ∨ c = '-'
  · have hrest := hbefore h
    rcases h with rfl | rfl | rfl
    · simp [token, hflow, hrest, beginsPlain]
    · simp [token, hflow, hrest, beginsPlain]
    · have hcolumn : s.cursor.column ≠ 0 := fun e => (hbegin e).1 rfl
      simp [token, hflow, hrest, beginsPlain, hcolumn]
  · have hdot : (c == '.' && s.cursor.column == 0) = false := by
      by_cases hcolumn : s.cursor.column = 0
      · simp [(hbegin hcolumn).2]
      · simp [hcolumn]
    simp only [markers, List.mem_cons, not_or] at h hmark
    have hplain : beginsPlain false c rest := by
      simp [beginsPlain, hgap, h, hmark]
    simp [token, hflow, hdot, hplain, h, hmark]

/-- **The mark in front of an item**, in the column of the block around the list.  `BeginsWord`
excludes a blank behind it that would make the item begin further right. -/
theorem exists_leads_entry {i : Nat} (hrest : BeginsWord rest)
    (h : s.Ready (i + 1) (2 * i) ('-' :: ' ' :: rest) tokens) :
    ∃ next, s.Leads next ∧ next.Ready (i + 1) (2 * i + 2) rest (.entry :: tokens) := by
  obtain ⟨index, line, count, hstep⟩ := h.exists_step
  have hlength := h.length_le
  have hbegin : beginBlock? (nested (i + 1) tokens count
      { rest := '-' :: ' ' :: rest, index, line, column := 2 * i }) (2 * i) = none := by
    rw [beginBlock?, if_neg]
    simp only [indentOf_succ]
    exact Int.lt_irrefl _
  have htoken : token (nested (i + 1) tokens count
      { rest := '-' :: ' ' :: rest, index, line, column := 2 * i }) '-' (' ' :: rest)
      = .ok (nested (i + 1) (.entry :: tokens) (count + 1)
          { rest := ' ' :: rest, index := index + 1, line, column := 2 * i + 1 }) := by
    rw [token_entry, blockMark]
    simp only [beginHere, hbegin]
    show Except.ok (moveTo _ (' ' :: rest)) = _
    rw [moveTo_append _ (show _ = ['-'] ++ ' ' :: rest from rfl)]
    rfl
  refine ⟨_, leads_of_step (hstep _ htoken) hlength, ?_⟩
  exact ready_of_margin hrest 1 _ _ _ _ (by rw [indentOf_succ]; omega)

/-! ## Keys -/

/-- A character of the keys that are written. -/
def isKeyChar (c : Char) : Bool :=
  c.isAlphanum || c == '_'

theorem ne_of_isKeyChar {c : Char} (h : isKeyChar c) {d : Char} (hd : isKeyChar d = false) :
    c ≠ d := by
  rintro rfl
  rw [h] at hd
  cases hd

theorem isGap_of_isKeyChar {c : Char} (h : isKeyChar c) : isGap c = false := by
  have hall : ∀ d ∈ [' ', '\t', '\r', '\n', '\x85', '\u2028', '\u2029'], isKeyChar d = false :=
    List.all_iff_forall_prop.mp (by decide)
  have hne (d : Char) (hd : d ∈ [' ', '\t', '\r', '\n', '\x85', '\u2028', '\u2029']) : c ≠ d :=
    ne_of_isKeyChar h (hall d hd)
  simp only [List.mem_cons] at hne
  simp [isGap, isSpaceOrTab, isBreak, isNewline, hne]

theorem plainWord_key {key : List Char} (hkey : ∀ c ∈ key, isKeyChar c) (h : atGap rest) :
    plainWord false (key ++ ':' :: rest) = (key, ':' :: rest) := by
  induction key with
  | nil =>
    have hends : endsPlain false ':' rest := by simp [endsPlain, h]
    rw [List.nil_append, plainWord, if_pos hends]
  | cons c key ih =>
    have hc := hkey c List.mem_cons_self
    have hcolon : c ≠ ':' := ne_of_isKeyChar hc (by decide)
    have hends : endsPlain false c (key ++ ':' :: rest) = false := by
      simp [endsPlain, isGap_of_isKeyChar hc, hcolon]
    rw [List.cons_append, plainWord, if_neg (by simp [hends]),
      ih fun d hd => hkey d (List.mem_cons_of_mem c hd)]

/-- A key ends at its colon. -/
theorem plainText_key {key : List Char} (hkey : ∀ c ∈ key, isKeyChar c) (hne : key ≠ [])
    (h : atGap rest) (indent : Int) :
    plainText false indent (key ++ ':' :: rest) = (key, ':' :: rest, false) := by
  have hcolon : BeginsWord (':' :: rest) := fun d hd => by
    cases hd
    decide
  have hhash : (key ++ ':' :: rest).head? ≠ some '#' := by
    obtain ⟨c, key, rfl⟩ := List.exists_cons_of_ne_nil hne
    exact fun e => ne_of_isKeyChar (hkey c List.mem_cons_self) (d := '#') (by decide)
      (Option.some.inj e)
  exact plainWords_last hhash (plainWord_key hkey h) hne (wordGap_spaces 0 hcolon) rfl _ _

theorem takesColumn_of_isKeyChar {c : Char} (h : isKeyChar c) : Cursor.takesColumn c := by
  have hbreak : isBreak c = false := (Bool.or_eq_false_iff.mp (isGap_of_isKeyChar h)).2
  simp [Cursor.takesColumn, hbreak, ne_of_isKeyChar h (d := '\uFEFF') (by decide)]

/-- The state between a possible key and its colon. -/
abbrev behindKey (level : Nat) (tokens : List Token) (count : Nat) (key : List Char)
    (rest : List Char) (index line column : Nat) : Scan :=
  { nested level (.scalar true (String.ofList key) :: tokens) (count + 1)
      { rest := ':' :: rest, index := index + key.length, line, column := column + key.length } with
    keyAllowed := false
    keys := [(0, ⟨count, indentOf level == Int.ofNat column, index, line, column⟩)] }

/-- The state between a colon and its value. -/
abbrev behindColon (level : Nat) (tokens : List Token) (count : Nat) (cursor : Cursor) : Scan :=
  { nested level tokens count cursor with keyAllowed := false }

/-- A key is a plain text at first; its place is remembered. -/
theorem plain_key {key : List Char} (hkey : ∀ c ∈ key, isKeyChar c) (hne : key ≠ [])
    (hrest : atGap rest) (level : Nat) (tokens : List Token) (count index line column : Nat) :
    plain (nested level tokens count { rest := key ++ ':' :: rest, index, line, column })
      = .ok (behindKey level tokens count key rest index line column) := by
  have hahead := Cursor.ahead_word (fun c hc => takesColumn_of_isKeyChar (hkey c hc)) (':' :: rest)
    index line column
  have hnote : noteKey
        (nested level tokens count { rest := key ++ ':' :: rest, index, line, column })
      = .ok { nested level tokens count { rest := key ++ ':' :: rest, index, line, column } with
              keys := [(0, ⟨count, indentOf level == Int.ofNat column, index, line, column⟩)] } :=
    rfl
  have htext := plainText_key hkey hne hrest (indentOf level)
  simp only [plain, hnote, bind, Except.bind, inFlow, bne_self_eq_false, htext]
  show Except.ok (moveTo _ (':' :: rest)) = _
  rw [moveTo_append _ (show _ = key ++ ':' :: rest from rfl)]
  simp only [push, hahead]

/-- **At its colon a possible key becomes one**, and if it stands to the right of the innermost
block, a mapping begins at it.  The tokens for both go in front of the key that was already read. -/
theorem colon_behindKey (first : Bool) (l : Nat) (tokens : List Token) (count : Nat)
    (key rest : List Char) (index line : Nat) :
    colon (behindKey (if first then l else l + 1) tokens count key rest index line (2 * l)) rest
      = .ok (behindColon (l + 1) (.value :: .scalar true (String.ofList key) :: .key
            :: ((if first then [.mappingStart] else []) ++ tokens))
          (count + if first then 4 else 3)
          { rest, index := index + key.length + 1, line, column := 2 * l + key.length + 1 }) := by
  have hmove (t : Scan) (h : t.cursor = { rest := ':' :: rest, index := index + key.length, line
                                          column := 2 * l + key.length }) :=
    moveTo_cons (c := ':') (by decide) t h
  have hlater : count + 1 - count = 1 := by omega
  cases first with
  | false =>
    have hsame : ¬ indentOf (l + 1) < 2 * (l : Int) := by
      rw [indentOf_succ]
      omega
    simp [colon, insertAt, beginBlock?, hsame, hlater, push, inFlow, hmove]
  | true =>
    have hright : indentOf l < 2 * (l : Int) := by
      have hlt := indentOf_lt l
      omega
    have hlater' : count + 1 + 1 - count = 2 := by omega
    simp [colon, insertAt, beginBlock?, hright, hlater, hlater', push, inFlow, hmove,
      indentOf_succ, outerOf]

theorem step_behindKey {key : List Char} (hlength : key.length ≤ 1024) (hrest : atGap rest)
    (first : Bool) (l : Nat) (tokens : List Token) (count index line : Nat) :
    ∃ count' index',
      step (behindKey (if first then l else l + 1) tokens count key rest index line (2 * l))
        = .ok (behindColon (l + 1) (.value :: .scalar true (String.ofList key) :: .key
            :: ((if first then [.mappingStart] else []) ++ tokens))
          count' { rest, index := index', line, column := 2 * l + key.length + 1 }, false) := by
  have hbegins : BeginsWord (':' :: rest) := fun d hd => by
    cases hd
    decide
  have hfresh : (behindKey (if first then l else l + 1) tokens count key rest index line
      (2 * l)).dropStaleKeys
        = .ok
            (behindKey (if first then l else l + 1) tokens count key rest index line (2 * l)) := by
    simp [dropStaleKeys, Nat.not_lt.mpr hlength]
  have hindent : indentOf (if first then l else l + 1) ≤ ((2 * l + key.length : Nat) : Int) := by
    have hlt := indentOf_lt l
    cases first with
    | false =>
      rw [if_neg (by decide), indentOf_succ]
      omega
    | true =>
      rw [if_pos rfl]
      omega
  have hcolon := colon_behindKey first l tokens count key rest index line
  rw [← token_colon _ hrest] at hcolon
  exact ⟨_, _, step_of_token (skipBlank_of_beginsWord _ hbegins) hfresh (unwind_of_le hindent) rfl
    hcolon⟩

/-- **A key and its colon.** `hlength` is the reader's bound on the length of a key that needs no
mark of its own. -/
theorem exists_leads_key {key : List Char} {l : Nat} (hkey : ∀ c ∈ key, isKeyChar c)
    (hne : key ≠ []) (hlength : key.length ≤ 1024) (first : Bool) (hrest : atGap rest)
    (h : s.Ready (if first then l else l + 1) (2 * l) (key ++ ':' :: rest) tokens) :
    ∃ count index line,
      s.Leads (behindColon (l + 1) (.value :: .scalar true (String.ofList key) :: .key
          :: ((if first then [.mappingStart] else []) ++ tokens))
        count { rest, index, line, column := 2 * l + key.length + 1 }) := by
  obtain ⟨c, more, rfl⟩ := List.exists_cons_of_ne_nil hne
  have hc := hkey c List.mem_cons_self
  obtain ⟨index, line, count, hstep⟩ := h.exists_step
  have hmarkers : c ∉ markers := by
    have hall : ∀ d ∈ markers, isKeyChar d = false := List.all_iff_forall_prop.mp (by decide)
    intro hmem
    rw [hall c hmem] at hc
    cases hc
  have hordinary (d : Char) (hd : isKeyChar d = false) : c ≠ d := ne_of_isKeyChar hc hd
  have hbefore : c = '?' ∨ c = ':' ∨ c = '-' → atGap (more ++ ':' :: rest) = false := by
    rintro (e | e | e)
    · exact absurd e (hordinary '?' (by decide))
    · exact absurd e (hordinary ':' (by decide))
    · exact absurd e (hordinary '-' (by decide))
  have htoken := token_plain (s := nested (if first then l else l + 1) tokens count
      { rest := c :: more ++ ':' :: rest, index, line, column := 2 * l }) rfl
    (isGap_of_isKeyChar hc) hmarkers hbefore
    fun _ => ⟨hordinary '-' (by decide), hordinary '.' (by decide)⟩
  rw [plain_key hkey hne hrest] at htoken
  obtain ⟨count', index', hcolon⟩ := step_behindKey hlength hrest first l tokens count index line
  have hle := h.length_le
  refine ⟨count', index', line, (leads_of_step (hstep _ htoken) ?_).trans (leads_of_step hcolon ?_)⟩
  · simp only [List.length_cons, List.length_append] at hle ⊢
    omega
  · simp

/-! ## Texts -/

/-- The step behind a colon: a space, and the token behind it. -/
theorem step_behindColon {next : Scan} {c : Char} {l : Nat} (hbegins : BeginsWord (c :: rest))
    (tokens : List Token) (count index line : Nat) (hcolumn : 2 * l < column)
    (h : token (behindColon (l + 1) tokens count
      { rest := c :: rest, index := index + 1, line, column := column + 1 }) c rest = .ok next) :
    step (behindColon (l + 1) tokens count { rest := ' ' :: c :: rest, index, line, column })
      = .ok (next, false) := by
  have hskip : skipBlank (behindColon (l + 1) tokens count
      { rest := ' ' :: c :: rest, index, line, column })
      = behindColon (l + 1) tokens count
          { rest := c :: rest, index := index + 1, line, column := column + 1 } := by
    rw [skipBlank_margin _ hbegins (show _ = margin 1 ++ c :: rest from rfl),
      moveTo_cons (by decide) _ rfl]
  refine step_of_token hskip (dropStaleKeys_of_noKey rfl) (unwind_of_le ?_) rfl h
  show indentOf (l + 1) ≤ ((column + 1 : Nat) : Int)
  rw [indentOf_succ]
  omega

/-- **A text between quotes**, behind a colon and a space, up to the next line.  `htoken` says which
of the two readers is tried at `mark`, and `h` what it takes. -/
theorem exists_leads_quoted {mark : Char}
    {read : Nat → List Char → Except ReadError (List Char × List Char)} {written text : List Char}
    {i j : Nat}
    (htoken : ∀ (s : Scan) (all : List Char),
      s.token mark all = s.keyLike (quotedToken (read (all.length + 1) all)))
    (hmark : mark = '\'' ∨ mark = '"') (hrest : BeginsWord rest)
    (h : Takes read (written ++ mark :: '\n' :: (margin (2 * i) ++ rest)) text
      ('\n' :: (margin (2 * i) ++ rest)))
    (tokens : List Token) (count index line : Nat) (hcolumn : 2 * (i + j) < column) :
    ∃ next, (behindColon (i + j + 1) tokens count
        { rest := ' ' :: mark :: (written ++ mark :: '\n' :: (margin (2 * i) ++ rest)), index, line
          column }).Leads next
      ∧ next.Ready (i + 1) (2 * i) rest
        (List.replicate j .blockEnd ++ .scalar false (String.ofList text) :: tokens) := by
  have hbegins : BeginsWord (mark :: (written ++ mark :: '\n' :: (margin (2 * i) ++ rest))) :=
    beginsWord_of_mem (by rcases hmark with rfl | rfl <;> decide) _
  obtain ⟨index', line', column', hahead⟩ := Cursor.exists_ahead_eq (mark :: (written ++ [mark]))
    ('\n' :: (margin (2 * i) ++ rest)) (index + 1) line (column + 1)
  have hready := ready_of_line hrest i j (.scalar false (String.ofList text) :: tokens) (count + 1)
    index' line' column' false
  rw [Nat.add_right_comm] at hready
  refine ⟨_, leads_of_step (step_behindColon hbegins _ _ _ _ hcolumn ?_) ?_, hready⟩
  · have hfront (s : Scan) (hs : s.cursor.rest
        = mark :: (written ++ mark :: '\n' :: (margin (2 * i) ++ rest))) :
        s.cursor.rest = (mark :: (written ++ [mark])) ++ '\n' :: (margin (2 * i) ++ rest) := by
      rw [hs]
      simp
    rw [htoken, h _ (Nat.lt_succ_self _)]
    show Except.ok (moveTo _ ('\n' :: (margin (2 * i) ++ rest))) = _
    rw [moveTo_append _ (hfront _ rfl)]
    rw [List.cons_append, List.append_assoc] at hahead
    exact congrArg (fun cursor => Except.ok (behindColon (i + j + 1)
      (.scalar false (String.ofList text) :: tokens) (count + 1) cursor)) hahead
  · simp only [List.length_cons, List.length_append]
    omega

theorem of_beginsWithIndicator {c : Char} {more : List Char}
    (h : beginsWithIndicator (c :: more) = false) :
    c ∉ markers ∧ (c = '?' ∨ c = ':' ∨ c = '-' → atGap more = false) := by
  have hmarkers : "#,[]\x7b\x7d&*!|>'\"%@`".toList = markers := rfl
  rw [beginsWithIndicator, hmarkers, Bool.or_eq_false_iff, List.contains_eq_mem] at h
  refine ⟨of_decide_eq_false h.1, fun hc => ?_⟩
  have hbefore := h.2
  rcases hc with rfl | rfl | rfl
  · simpa using hbefore
  · simpa using hbefore
  · simpa using hbefore

/-- A plain text is one token; the line end behind it is read with it. -/
theorem exists_token_plain {l width : Nat} {c : Char} {written text : List Char}
    (hstart : isGap c = false) (hmarkers : c ∉ markers)
    (hbefore : c = '?' ∨ c = ':' ∨ c = '-' →
      atGap (written ++ '\n' :: (margin width ++ rest)) = false)
    (htext : plainText false (indentOf l) (c :: (written ++ '\n' :: (margin width ++ rest)))
      = (text, rest, true))
    (tokens : List Token) (count index line column : Nat) :
    ∃ index' line', token (behindColon l tokens count
        { rest := c :: (written ++ '\n' :: (margin width ++ rest)), index, line
          column := column + 1 }) c (written ++ '\n' :: (margin width ++ rest))
      = .ok (nested l (.scalar true (String.ofList text) :: tokens) (count + 1)
          { rest, index := index', line := line', column := width }) := by
  obtain ⟨index', line', hahead⟩ :=
    Cursor.exists_ahead_line (c :: written) width rest index line (column + 1)
  refine ⟨index', line', ?_⟩
  rw [token_plain rfl hstart hmarkers hbefore fun e => absurd e (by simp)]
  have hnote (s : Scan) (hs : s.keyAllowed = false) : s.noteKey = .ok s := by
    rw [noteKey, hs]
    rfl
  simp only [plain, hnote, bind, Except.bind, inFlow, bne_self_eq_false, htext]
  show Except.ok (moveTo _ rest) = _
  rw [moveTo_append _ (show _ = (c :: written ++ '\n' :: margin width) ++ rest by simp [push])]
  exact congrArg (fun cursor => Except.ok (nested l
    (.scalar true (String.ofList text) :: tokens) (count + 1) cursor)) hahead

/-- **A plain text**, behind a colon and a space; the line end behind it is read with it, so the
next token begins at the margin. -/
theorem exists_leads_plain {text : List Char} {i j : Nat} (h : fitsPlain text) (hne : text ≠ [])
    (hrest : BeginsWord rest) (hmark : atDocumentMark (margin (2 * i) ++ rest) = false)
    (tokens : List Token) (count index line width : Nat) (hcolumn : 2 * (i + j) < column) :
    ∃ next, (behindColon (i + j + 1) tokens count
        { rest := ' ' :: (foldedChars (2 * (i + j) + 2) ['\''] true false false width text
            ++ '\n' :: (margin (2 * i) ++ rest)), index, line, column }).Leads next
      ∧ next.Ready (i + 1) (2 * i) rest
        (List.replicate j .blockEnd ++ .scalar true (String.ofList text) :: tokens) := by
  have hwordy := wordy_of_fitsPlain h hne
  obtain ⟨c, more, written, rfl, hwritten, hbegins, hgap⟩ :=
    hwordy.exists_foldedChars_eq (2 * (i + j) + 2) true false false width
  have htext := plainText_foldedChars hwordy (Nat.lt_add_of_pos_right Nat.two_pos)
    (Nat.mul_le_mul_left 2 (Nat.le_add_right i j)) hrest hmark true false false width
  rw [← indentOf_succ, hwritten] at htext
  rw [hwritten]
  have hindicator : beginsWithIndicator (c :: more) = false := by
    simp only [fitsPlain, Bool.and_eq_true, Bool.not_eq_true'] at h
    exact h.1.1.2
  obtain ⟨hmarkers, hbefore⟩ := of_beginsWithIndicator hindicator
  obtain ⟨index', line', htoken⟩ :=
    exists_token_plain (hwordy.not_isGap List.mem_cons_self (hbegins c rfl).1) hmarkers
      (fun hc => hgap (hbefore hc) _) htext tokens count (index + 1) line column
  have hbegins' : BeginsWord (c :: (written ++ '\n' :: (margin (2 * i) ++ rest))) := hbegins
  refine ⟨_,
    leads_of_step (step_behindColon hbegins' tokens count index line hcolumn htoken) ?_, ?_⟩
  · simp
    omega
  · rw [Nat.add_right_comm]
    exact ready_of_skipBlank (Nat.le_refl _) (skipBlank_of_beginsWord _ hrest)

end Scan

/-! ## Lines -/

/-- **What a text reads as.** -/
def reread (text : String) : String :=
  if styleOf text.toList = .single then String.ofList (refolded false text.toList) else text

/-- **Which texts are read back.** Between apostrophes the next-line character becomes a space or a
line feed; between double quotes it is escaped, and no plain text holds it (`styleOf` chooses among
the three). -/
theorem reread_eq_self_iff {text : String} :
    reread text = text ↔ (styleOf text.toList = .single → '\x85' ∉ text.toList) := by
  unfold reread
  split
  · next hsingle =>
    refine ⟨fun hsame _ => ?_, fun h => ?_⟩
    · have hchars : refolded false text.toList = text.toList := by
        rw [← String.toList_ofList (l := refolded false text.toList), hsame]
      rw [← hchars]
      exact not_mem_refolded false text.toList
    · rw [refolded_eq_self (h hsingle), String.ofList_toList]
  · next hother => simp [hother]

/-- The token of a text. -/
def textToken (text : String) : Token :=
  .scalar (decide (styleOf text.toList = .plain)) (reread text)

namespace Scan

variable {s : Scan} {tokens : List Token} {rest : List Char} {i j : Nat}

/-- **A text behind a colon**, up to the next line, in the style that it fits: `exists_leads_plain`
or `exists_leads_quoted`. -/
theorem exists_leads_text {value : String} (hroom : 2 * (i + j) + 3 ≤ lineWidth)
    (hrest : BeginsWord rest) (hmark : atDocumentMark (margin (2 * i) ++ rest) = false)
    (tokens : List Token) (count index line width : Nat) {column : Nat}
    (hcolumn : 2 * (i + j) < column) :
    ∃ next, (behindColon (i + j + 1) tokens count
        { rest := textChars (2 * (i + j)) width value.toList ++ '\n' :: (margin (2 * i) ++ rest)
          index, line, column }).Leads next
      ∧ next.Ready (i + 1) (2 * i) rest
        (List.replicate j .blockEnd ++ textToken value :: tokens) := by
  have hapostrophe : ∀ c ∈ ('\n' :: (margin (2 * i) ++ rest)).head?, c ≠ '\'' := fun c hc => by
    cases hc
    decide
  cases hstyle : styleOf value.toList with
  | plain =>
    obtain ⟨hfits, hlooks⟩ := of_styleOf_plain hstyle
    have hne : value.toList ≠ [] := fun hnil => by
      rw [hnil] at hlooks
      exact absurd hlooks (by decide)
    have hplain :=
      exists_leads_plain hfits hne hrest hmark tokens count index line (width + 1) hcolumn
    rw [textToken, reread, textChars, hstyle]
    rwa [String.ofList_toList] at hplain
  | single =>
    have htakes := takes_singleChars (foldable_of_fitsSingleQuotes (of_styleOf_single hstyle))
      (Nat.succ_pos (2 * (i + j) + 1)) hapostrophe true false
      (fun e => absurd e Bool.false_ne_true) (width + 2)
    have hquoted :=
      exists_leads_quoted token_apostrophe (Or.inl rfl) hrest htakes tokens count index line hcolumn
    rw [textToken, reread, textChars, hstyle]
    simpa using hquoted
  | double =>
    have htakes : Takes doubleQuoted (doubleText (2 * (i + j) + 2) true false (width + 2)
        value.toList ('\n' :: (margin (2 * i) ++ rest))) value.toList _ :=
      (takes_doubleText (Nat.succ_pos (2 * (i + j) + 1)) hroom true false (width + 2)).1
    have hquoted :=
      exists_leads_quoted token_quote (Or.inr rfl) hrest htakes tokens count index line hcolumn
    rw [textToken, reread, textChars, hstyle]
    rw [String.ofList_toList] at hquoted
    simpa using hquoted

/-- An empty list behind a colon. -/
theorem exists_leads_brackets (hrest : BeginsWord rest) (tokens : List Token)
    (count index line : Nat) {column : Nat} (hcolumn : 2 * (i + j) < column) :
    ∃ next, (behindColon (i + j + 1) tokens count
        { rest := ' ' :: '[' :: ']' :: '\n' :: (margin (2 * i) ++ rest), index, line
          column }).Leads next
      ∧ next.Ready (i + 1) (2 * i) rest
        (List.replicate j .blockEnd ++ .flowSequenceEnd :: .flowSequenceStart :: tokens) := by
  have hready := ready_of_line hrest i j (.flowSequenceEnd :: .flowSequenceStart :: tokens)
    (count + 2) (index + 3) line (column + 3) false
  rw [Nat.add_right_comm] at hready
  have hopen : token (behindColon (i + j + 1) tokens count
      { rest := '[' :: ']' :: '\n' :: (margin (2 * i) ++ rest), index := index + 1, line
        column := column + 1 }) '[' (']' :: '\n' :: (margin (2 * i) ++ rest))
      = .ok { nested (i + j + 1) (.flowSequenceStart :: tokens) (count + 1)
                { rest := ']' :: '\n' :: (margin (2 * i) ++ rest), index := index + 2, line
                  column := column + 2 } with flow := 1 } := by
    rw [token_openBracket]
    show Except.ok (moveTo _ _) = _
    rw [moveTo_cons (by decide) _ rfl]
    rfl
  have hclose : step { nested (i + j + 1) (.flowSequenceStart :: tokens) (count + 1)
                { rest := ']' :: '\n' :: (margin (2 * i) ++ rest), index := index + 2, line
                  column := column + 2 } with flow := 1 }
      = .ok (behindColon (i + j + 1) (.flowSequenceEnd :: .flowSequenceStart :: tokens) (count + 2)
          { rest := '\n' :: (margin (2 * i) ++ rest), index := index + 3, line
            column := column + 3 }, false) := by
    refine step_of_token (skipBlank_of_beginsWord _ (beginsWord_of_mem (by decide) _))
      (dropStaleKeys_of_noKey rfl) rfl rfl ?_
    rw [token_closeBracket]
    show Except.ok (moveTo _ _) = _
    rw [moveTo_cons (by decide) _ rfl]
    rfl
  have hstep :=
    step_behindColon (beginsWord_of_mem (by decide) _) tokens count index line hcolumn hopen
  exact ⟨_, (leads_of_step hstep (by simp)).trans (leads_of_step hclose (by simp)), hready⟩

/-- **The end of the text** ends the outermost mapping, which is the only block left open by then.
-/
theorem scans_of_end (h : s.Ready 1 0 [] tokens) :
    s.Scans (.textEnd :: .blockEnd :: tokens) := by
  obtain ⟨index, line, count, hunwound⟩ := h.unwound
  intro steps hsteps
  obtain ⟨steps, rfl⟩ : ∃ n, steps = n + 1 := ⟨steps - 1, by omega⟩
  have hend : endDocument (nested 1 tokens count { rest := [], index, line, column := 0 })
      = .ok { nested 0 (.blockEnd :: tokens) (count + 1)
                { rest := [], index, line, column := 0 } with keyAllowed := false } := by
    have hall : unwind (nested 1 tokens count { rest := [], index, line, column := 0 }) (-1)
        = nested 0 (.blockEnd :: tokens) (count + 1) { rest := [], index, line, column := 0 } :=
      unwind_nested 0 tokens count { rest := [], index, line, column := 0 } 1
    rw [endDocument, hall]
    rfl
  have hstep : s.step = .ok ({ nested 0 (.textEnd :: .blockEnd :: tokens) (count + 2)
      { rest := [], index, line, column := 0 } with keyAllowed := false }, true) := by
    have hunwound' : s.skipBlank.unwind (Int.ofNat s.skipBlank.cursor.column)
        = nested 1 tokens count { rest := [], index, line, column := 0 } := by
      rw [h.column_eq]
      exact hunwound
    rw [step, dropStaleKeys_of_noKey h.noKey]
    simp only [bind, Except.bind, hunwound', hend]
    rfl
  rw [run, hstep]

/-- **The beginning of a text** is ready for its first key, with no block open and no token made. -/
theorem ready_start (h : BeginsWord rest) : Ready { cursor := { rest } } 0 0 rest [] := by
  have hskip : skipBlank { cursor := { rest } } = { cursor := { rest } } :=
    skipBlank_of_beginsWord _ h
  refine ⟨⟨0, 0, 0, ?_⟩, ?_, ?_, Nat.le_refl _⟩
  · rw [hskip]
    exact unwind_of_le (show (-1 : Int) ≤ 0 by decide)
  · rw [hskip]
  · rw [hskip]

end Scan

end RuleCatalogue.Yaml
