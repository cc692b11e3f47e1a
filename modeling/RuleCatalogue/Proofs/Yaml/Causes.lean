import RuleCatalogue.Proofs.Fallible
import RuleCatalogue.Yaml.Token

/-!
# Why a text cannot be cut into tokens

A text that is no YAML may be so for many causes, and some of them leave a mark in the text.  A code
point can only be out of range where there is a backslash.  A scalar can only lack the form of its
kind where a tag says the kind, and a collection can only be read as a scalar where its tag is
written; both need an exclamation mark (`Cause`).  The other causes, a number with too many groups
of sixty among them, need no mark at all: they come from what a plain text looks like.

Here this is shown of the tokens.  A token that says that the text could not be cut further carries
such a cause, and a tag stands for an exclamation mark (`Token.Fits`).  What the scanner does not
read yet is always a part of the text (`Scan.Fits`), so a mark that it finds is one of the text;
this is the invariant that one step keeps and a run of them hands on.

## Main definitions

* `Cause`: the errors that a text may have.
* `Token.Fits`, `Scan.Fits`: what is known of tokens and of the state between them.

## Main results

* `reads_doubleQuoted`: escapes are what the code points come from.
* `Scan.Fits.step`, `Scan.Fits.run`: one step and all steps of the scanner.
* `Token.fits_of_mem_ofText`: the tokens of a text.
-/

namespace RuleCatalogue.Yaml

/-- **The errors that a text may have**, with the characters that some of them need. -/
inductive Cause (text : List Char) : ReadError → Prop
  | malformed : Cause text (.malformed .yaml)
  | oversizedInteger (digits : Nat) : Cause text (.oversizedInteger digits)
  | notInteger (base : Nat) (s : String) : Cause text (.notInteger base s)
  | notNumber (s : String) : Cause text (.notNumber s)
  | noSuchTime (reason : String) : Cause text (.noSuchTime reason)
  | noSuchCodePoint (h : '\\' ∈ text) : Cause text .noSuchCodePoint
  | hugeCodePoint (h : '\\' ∈ text) : Cause text .hugeCodePoint
  | notTruthValue (h : '!' ∈ text) (s : String) : Cause text (.notTruthValue s)
  | notTimestamp (h : '!' ∈ text) : Cause text .notTimestamp
  | emptyNumber (h : '!' ∈ text) : Cause text .emptyNumber
  | hugeNumber : Cause text .hugeNumber
  | mappingAsTimestamp (h : '!' ∈ text) : Cause text .mappingAsTimestamp
  | endless (h : '!' ∈ text) : Cause text .endless

/-- A step of the reader of a text stops for such a cause, and what it gives satisfies `p`. -/
abbrev Reads {α : Type} (text : List Char) (p : α → Prop) (result : Except ReadError α) : Prop :=
  Fallible (Cause text) p result

variable {α : Type} {p : α → Prop} {text s rest : List Char}

/-- A malformed text needs no mark, so this error may stop any reader at any place. -/
theorem reads_malformed : Reads text p malformed :=
  Cause.malformed

/-! ## Texts -/

/-- What is behind a line end has no characters of its own. -/
theorem subset_of_takeBreak? {c : Char} (h : takeBreak? s = some (c, rest)) : rest ⊆ s := by
  unfold takeBreak? at h
  split at h
  · next more =>
    obtain ⟨-, rfl⟩ := Prod.mk.inj (Option.some.inj h)
    exact List.Subset.trans (List.subset_cons_self _ _) (List.subset_cons_self _ _)
  · split at h
    · obtain ⟨-, rfl⟩ := Prod.mk.inj (Option.some.inj h)
      exact List.subset_cons_self _ _
    · split at h
      · obtain ⟨-, rfl⟩ := Prod.mk.inj (Option.some.inj h)
        exact List.subset_cons_self _ _
      · exact nomatch h
  · exact nomatch h

/-- Line ends between quotes: the only error is a document mark among them. -/
theorem reads_quotedBreaks (steps : Nat) (s : List Char) :
    Reads text (fun read => read.2 ⊆ s) (quotedBreaks steps s) := by
  induction steps generalizing s with
  | zero =>
    rw [quotedBreaks]
    exact reads_malformed
  | succ steps ih =>
    have hahead : s.dropWhile isSpaceOrTab ⊆ s := (List.dropWhile_suffix _).subset
    simp only [quotedBreaks]
    split
    · exact reads_malformed
    · split
      · exact hahead
      · next b rest hbreak =>
        refine (ih rest).bind fun (breaks, after) hafter => ?_
        have hrest : rest ⊆ s := List.Subset.trans (subset_of_takeBreak? hbreak) hahead
        exact List.Subset.trans hafter hrest

/-- A gap between quotes: it ends where the text goes on, and a text that ends there was not closed.
-/
theorem reads_quotedGap (s : List Char) : Reads text (fun read => read.2 ⊆ s) (quotedGap s) := by
  have hahead : s.drop (s.takeWhile isSpaceOrTab).length ⊆ s := (List.drop_suffix _ _).subset
  simp only [quotedGap]
  split
  · next first rest hbreak =>
    refine (reads_quotedBreaks _ rest).bind fun (breaks, after) hafter => ?_
    have hrest : rest ⊆ s := List.Subset.trans (subset_of_takeBreak? hbreak) hahead
    exact List.Subset.trans hafter hrest
  · split
    · exact reads_malformed
    · exact hahead

/-- What is put in front of a text that was read changes nothing about its errors. -/
theorem reads_prepend (chars : List Char) {read : Except ReadError (List Char × List Char)}
    (h : Reads text (fun _ => True) read) : Reads text (fun _ => True) (prepend chars read) :=
  h.map fun _ _ => trivial

/-- A text between apostrophes has no escapes, so all that can be wrong is that it is not closed. -/
theorem reads_singleQuoted (steps : Nat) (s : List Char) :
    Reads text (fun _ => True) (singleQuoted steps s) := by
  induction steps generalizing s with
  | zero =>
    rw [singleQuoted]
    exact reads_malformed
  | succ steps ih =>
    unfold singleQuoted
    split
    · exact reads_malformed
    · exact reads_prepend _ (ih _)
    · exact trivial
    · split
      · exact (reads_quotedGap _).bind fun _ _ => reads_prepend _ (ih _)
      · exact reads_prepend _ (ih _)

/-- A code point is looked at behind a backslash alone, which is where the two errors about code
points come from. -/
theorem reads_charOfCode (h : '\\' ∈ text) (code : Nat) :
    Reads text (fun _ => True) (charOfCode code) := by
  unfold charOfCode
  split
  · exact Cause.hugeCodePoint h
  · split
    · exact Cause.noSuchCodePoint h
    · split <;> exact trivial

/-- An escape stands behind a backslash. -/
theorem reads_escape (h : '\\' ∈ text) (s : List Char) : Reads text (fun _ => True) (escape s) := by
  unfold escape
  split
  · exact reads_malformed
  · split
    · exact trivial
    · split
      · split
        · dsimp only
          split
          · exact Cause.malformed
          · split
            · exact trivial
            · exact (reads_charOfCode h _).bind fun _ _ => trivial
        · exact reads_malformed
      · split
        · exact (reads_quotedBreaks _ _).mono (fun _ he => he) fun _ _ => trivial
        · exact reads_malformed

/-- **A text between double quotes**: a code point out of range stands behind a backslash, so the
text has one.  `h` only says that the part being read is one of the whole. -/
theorem reads_doubleQuoted (steps : Nat) (h : '\\' ∈ s → '\\' ∈ text) :
    Reads text (fun _ => True) (doubleQuoted steps s) := by
  induction steps generalizing s with
  | zero =>
    rw [doubleQuoted]
    exact reads_malformed
  | succ steps ih =>
    unfold doubleQuoted
    split
    · exact reads_malformed
    · exact trivial
    · have hmark : '\\' ∈ text := h List.mem_cons_self
      exact (reads_escape hmark _).bind fun _ _ => reads_prepend _ (ih fun _ => hmark)
    · split
      · refine (reads_quotedGap _).bind fun (gap, after) hafter => ?_
        exact reads_prepend _ (ih fun hmem => h (hafter hmem))
      · exact reads_prepend _ (ih fun hmem => h (List.mem_cons_of_mem _ hmem))

/-- The digit of a block may be missing, but it may not be the zero. -/
theorem reads_indentDigit? (s : List Char) : Reads text (fun _ => True) (indentDigit? s) := by
  unfold indentDigit?
  split
  · split
    · split
      · exact reads_malformed
      · exact trivial
    · exact trivial
  · exact trivial

/-- The marks of a block stand in either order. -/
theorem reads_blockHeader (s : List Char) : Reads text (fun _ => True) (blockHeader s) := by
  unfold blockHeader
  split
  · exact (reads_indentDigit? _).bind fun _ _ => trivial
  · refine (reads_indentDigit? _).bind fun (digit, rest) _ => ?_
    dsimp only
    split <;> exact trivial

/-- The rest of a line that must not hold anything but a comment. -/
theorem reads_ignoredLine (s : List Char) : Reads text (fun _ => True) (ignoredLine s) := by
  unfold ignoredLine
  dsimp only
  generalize (if (skipSpaces s).head? == some '#' then _ else _) = final
  split
  · exact trivial
  · exact reads_malformed

/-- A block of lines is malformed only in the line of its header. -/
theorem reads_blockText (folded : Bool) (parent : Int) (s : List Char) :
    Reads text (fun _ => True) (blockText folded parent s) := by
  unfold blockText
  refine (reads_blockHeader s).bind fun (chomping, digit, afterHeader) _ => ?_
  dsimp only
  split
  · exact Cause.malformed
  · exact (reads_ignoredLine _).bind fun _ _ => trivial

/-! ## Names, tags and directives -/

/-- A name must not be empty. -/
theorem reads_name (s : List Char) : Reads text (fun _ => True) (name s) := by
  simp only [name]
  split
  · exact reads_malformed
  · exact trivial

/-- The name of an anchor must be followed by something that ends it. -/
theorem reads_anchorName (s : List Char) : Reads text (fun _ => True) (anchorName s) := by
  refine (reads_name s).bind fun (word, rest) _ => ?_
  dsimp only
  split
  · exact trivial
  · exact reads_malformed

/-- Octets in a tag are written with two hexadecimal digits each. -/
theorem reads_percentOctets (steps : Nat) (s : List Char) :
    Reads text (fun _ => True) (percentOctets steps s) := by
  induction steps generalizing s with
  | zero =>
    rw [percentOctets]
    exact reads_malformed
  | succ steps ih =>
    unfold percentOctets
    split
    · split
      · exact (ih _).bind fun _ _ => trivial
      · exact reads_malformed
    · exact reads_malformed
    · exact trivial

/-- Octets in a tag must be a text. -/
theorem reads_octetsText (octets : List Nat) : Reads text (fun _ => True) (octetsText octets) := by
  unfold octetsText
  split
  · exact trivial
  · exact reads_malformed

/-- The characters of a tag, as they are or as octets. -/
theorem reads_tagChars (steps : Nat) (s : List Char) :
    Reads text (fun _ => True) (tagChars steps s) := by
  induction steps generalizing s with
  | zero =>
    rw [tagChars]
    exact reads_malformed
  | succ steps ih =>
    unfold tagChars
    split
    · refine (reads_percentOctets _ _).bind fun (octets, after) _ => ?_
      exact (reads_octetsText octets).bind fun _ _ => reads_prepend _ (ih _)
    · split
      · exact reads_prepend _ (ih _)
      · exact trivial
    · exact trivial

/-- The text of a tag must not be empty. -/
theorem reads_tagText (s : List Char) : Reads text (fun _ => True) (tagText s) := by
  refine (reads_tagChars _ s).bind fun (chars, rest) _ => ?_
  dsimp only
  split
  · exact reads_malformed
  · exact trivial

/-- A handle is closed by an exclamation mark, unless nothing but a space follows its first one. -/
theorem reads_tagHandle (s : List Char) : Reads text (fun _ => True) (tagHandle s) := by
  unfold tagHandle
  split
  · split
    · exact trivial
    · dsimp only
      split
      · exact trivial
      · exact reads_malformed
  · exact reads_malformed

/-- **What is known of a token**: a tag stands for an exclamation mark, and the token that says that
the text could not be cut further carries a cause. -/
def Token.Fits (text : List Char) : Token → Prop
  | .tag _ _ => '!' ∈ text
  | .failure e => Cause text e
  | _ => True

/-- **A tag** fits the text, which has its exclamation mark: `h` is what `Causes` looks for in the
text. -/
theorem reads_tagToken (h : '!' ∈ text) (s : List Char) :
    Reads text (fun read => read.1.Fits text) (tagToken s) := by
  -- Each way to write a tag ends with a look at what follows it.
  have htag (handle : Option String) (suffix : String) (rest : List Char) :
      Reads text (fun read => read.1.Fits text)
        (if atLineEndOrSpace rest then pure (Token.tag handle suffix, rest) else malformed) := by
    split
    · exact h
    · exact reads_malformed
  unfold tagToken
  dsimp only
  split
  · refine (reads_tagText _).bind fun read _ => ?_
    split
    · exact htag none _ _
    · exact Cause.malformed
  · split
    · exact htag none _ _
    · split
      · refine (reads_tagHandle s).bind fun (handle, rest) _ => ?_
        exact (reads_tagText rest).bind fun (suffix, rest) _ => htag (some handle) suffix rest
      · exact (reads_tagText _).bind fun (suffix, rest) _ => htag (some "!") suffix rest

/-- A number of a version is read by a reader that refuses integers of too many digits. -/
theorem reads_versionNumber (s : List Char) : Reads text (fun _ => True) (versionNumber s) := by
  have hinteger (digits : List Char) :
      Reads text (fun _ => True) (Decimal.integer false digits) := by
    unfold Decimal.integer
    split
    · exact Cause.oversizedInteger _
    · exact trivial
  unfold versionNumber
  dsimp only
  split
  · exact Cause.malformed
  · exact (hinteger _).bind fun _ _ => trivial

/-- **A directive** is read whatever the text is, so nothing is asked of it. -/
theorem reads_directiveToken (s : List Char) :
    Reads text (fun read => read.1.Fits text) (directiveToken s) := by
  have hdirective (directive : Directive) (rest : List Char) :
      Reads text (fun read : Token × List Char => read.1.Fits text)
        (ignoredLine rest >>= fun rest => pure (.directive directive, rest)) :=
    (reads_ignoredLine rest).bind fun _ _ => trivial
  unfold directiveToken
  refine (reads_name s).bind fun (word, rest) _ => ?_
  dsimp only
  split
  · exact Cause.malformed
  · split
    · refine (reads_versionNumber _).bind fun (major, rest) _ => ?_
      dsimp only
      split
      · refine (reads_versionNumber _).bind fun (minor, rest) _ => ?_
        dsimp only
        split
        · exact hdirective _ _
        · exact Cause.malformed
      · exact Cause.malformed
    · split
      · refine (reads_tagHandle _).bind fun (handle, rest) _ => ?_
        dsimp only
        split
        · exact Cause.malformed
        · refine (reads_tagText _).bind fun (start, rest) _ => ?_
          dsimp only
          split
          · exact hdirective _ _
          · exact Cause.malformed
      · exact hdirective _ _

/-! ## The state between tokens -/

namespace Cursor

/-- Moving on by one character leaves this character out. -/
theorem rest_next_subset (p : Cursor) : p.next.rest ⊆ p.rest := by
  unfold Cursor.next
  split
  · exact List.Subset.refl _
  · next c rest hrest =>
    rw [hrest]
    split <;> exact List.subset_cons_self c rest

/-- **Moving on** leaves characters out and brings in none, so what has been said of the rest of the
text stays true. -/
theorem rest_ahead_subset (n : Nat) (p : Cursor) : (p.ahead n).rest ⊆ p.rest := by
  induction n generalizing p with
  | zero => exact List.Subset.refl _
  | succ n ih => exact List.Subset.trans (ih p.next) p.rest_next_subset

end Cursor

namespace Scan

/-- **What is known of the state**: what follows consists of characters of the text, and its tokens
fit the text. -/
structure Fits (text : List Char) (s : Scan) : Prop where
  rest : s.cursor.rest ⊆ text
  tokens : ∀ t ∈ s.tokens, t.Fits text

variable {scan : Scan} {t : Token}

namespace Fits

/-- A token that fits may be added. -/
theorem push (h : scan.Fits text) (ht : t.Fits text) : (scan.push t).Fits text where
  rest := h.rest
  tokens := List.forall_mem_cons.mpr ⟨ht, h.tokens⟩

/-- A token may be put before others: the mark of a key is, when its colon is met. -/
theorem insertAt (h : scan.Fits text) (place : Nat) (ht : t.Fits text) :
    (scan.insertAt place t).Fits text where
  rest := h.rest
  tokens := by
    intro other hother
    rcases List.mem_append.mp hother with hlater | hother
    · exact h.tokens other (List.mem_of_mem_take hlater)
    · rcases List.mem_cons.mp hother with rfl | hearlier
      · exact ht
      · exact h.tokens other (List.mem_of_mem_drop hearlier)

/-- Moving on drops characters and leaves the tokens alone. -/
theorem moveTo (h : scan.Fits text) (rest : List Char) : (scan.moveTo rest).Fits text where
  rest := List.Subset.trans (Cursor.rest_ahead_subset _ _) h.rest
  tokens := h.tokens

/-- Where keys are allowed, and how many brackets are open, does not matter. -/
theorem allowing (h : scan.Fits text) (keyAllowed : Bool) (flow : Nat) :
    ({ scan with keyAllowed, flow } : Scan).Fits text where
  rest := h.rest
  tokens := h.tokens

/-- Keys that can no longer be completed are forgotten, or they are an error. -/
theorem dropStaleKeys (h : scan.Fits text) : Reads text (Fits text) scan.dropStaleKeys := by
  unfold Scan.dropStaleKeys
  dsimp only
  split
  · exact reads_malformed
  · exact ⟨h.rest, h.tokens⟩

/-- The key that may begin here is forgotten, or it is an error. -/
theorem dropKey (h : scan.Fits text) : Reads text (Fits text) scan.dropKey := by
  unfold Scan.dropKey
  split
  · split
    · exact reads_malformed
    · exact ⟨h.rest, h.tokens⟩
  · exact h

/-- A key may begin here. -/
theorem noteKey (h : scan.Fits text) : Reads text (Fits text) scan.noteKey := by
  unfold Scan.noteKey
  split
  · exact h.dropKey.bind fun next hnext => ⟨hnext.rest, hnext.tokens⟩
  · exact h

/-- Each block that ends adds a token of its own. -/
theorem endBlocks (h : scan.Fits text) (column : Int) (outer : List Int) :
    (Scan.endBlocks column outer scan).Fits text := by
  induction outer generalizing scan with
  | nil =>
    unfold Scan.endBlocks
    split <;> exact h
  | cons indent others ih =>
    unfold Scan.endBlocks
    split
    · exact h
    · have hended : ({ scan with indent, outer := others } : Scan).Fits text := ⟨h.rest, h.tokens⟩
      exact ih (hended.push trivial)

/-- Blocks end where the column falls back. -/
theorem unwind (h : scan.Fits text) (column : Int) : (scan.unwind column).Fits text := by
  unfold Scan.unwind
  split
  · exact h
  · exact h.endBlocks column scan.outer

/-- A block begins where the column goes forward. -/
theorem beginBlock? (h : scan.Fits text) {column : Nat} {begun : Scan}
    (hbegun : scan.beginBlock? column = some begun) : begun.Fits text := by
  unfold Scan.beginBlock? at hbegun
  split at hbegun
  · obtain rfl := Option.some.inj hbegun
    exact ⟨h.rest, h.tokens⟩
  · exact nomatch hbegun

/-- A block begins here, unless it has begun before. -/
theorem beginHere (h : scan.Fits text) (ht : t.Fits text) : (scan.beginHere t).Fits text := by
  unfold Scan.beginHere
  split
  · next begun hbegun => exact (h.beginBlock? hbegun).push ht
  · exact h

/-- Skipping blanks and comments drops characters only. -/
theorem skipBlank (h : scan.Fits text) : scan.skipBlank.Fits text := by
  unfold Scan.skipBlank
  dsimp only
  split
  all_goals
    split
    · exact (h.moveTo _).allowing true _
    · exact h.moveTo _

/-- The end of a document ends all blocks. -/
theorem endDocument (h : scan.Fits text) : Reads text (Fits text) scan.endDocument :=
  (h.unwind (-1)).dropKey.bind fun _ hnext => ⟨hnext.rest, hnext.tokens⟩

/-! ### One token -/

/-- An opening bracket may begin a key. -/
theorem openBracket (h : scan.Fits text) (t : Token) (ht : t.Fits text) (rest : List Char) :
    Reads text (Fits text) (scan.openBracket t rest) := by
  refine h.noteKey.bind fun next hnext => ?_
  exact ((hnext.allowing true (next.flow + 1)).push ht).moveTo rest

/-- A closing bracket needs one that is open. -/
theorem closeBracket (h : scan.Fits text) (t : Token) (ht : t.Fits text) (rest : List Char) :
    Reads text (Fits text) (scan.closeBracket t rest) := by
  refine h.dropKey.bind fun next hnext => ?_
  dsimp only
  split
  · exact Cause.malformed
  · exact ((hnext.allowing false (next.flow - 1)).push ht).moveTo rest

/-- Behind a comma a key may begin. -/
theorem comma (h : scan.Fits text) (rest : List Char) :
    Reads text (Fits text) (scan.comma rest) := by
  refine (h.allowing true scan.flow).dropKey.bind fun next hnext => ?_
  have hcomma : Token.Fits text .flowEntry := trivial
  exact (hnext.push hcomma).moveTo rest

/-- The mark of an item or of a key is an error where none may begin. -/
theorem blockMark (h : scan.Fits text) (first mark : Token) (hfirst : first.Fits text)
    (hmark : mark.Fits text) (keyAfter : Bool) (rest : List Char) :
    Reads text (Fits text) (scan.blockMark first mark keyAfter rest) := by
  unfold Scan.blockMark
  dsimp only
  split
  · exact Cause.malformed
  · have hbegun : (if scan.inFlow then scan else scan.beginHere first).Fits text := by
      split
      · exact h
      · exact h.beginHere hfirst
    exact (hbegun.allowing keyAfter _).dropKey.bind fun next hnext =>
      (hnext.push hmark).moveTo rest

/-- A colon completes the key before it; without one it is the mark of a value with an empty key. -/
theorem colon (h : scan.Fits text) (rest : List Char) :
    Reads text (Fits text) (scan.colon rest) := by
  have hkey : Token.Fits text .key := trivial
  have hstart : Token.Fits text .mappingStart := trivial
  have hvalue : Token.Fits text .value := trivial
  unfold Scan.colon
  split
  · next k _ =>
    have hkeyed (keys : List (Nat × KeyPlace)) :
        (({ scan with keys } : Scan).insertAt k.tokenCount .key).Fits text := by
      have hothers : ({ scan with keys } : Scan).Fits text := ⟨h.rest, h.tokens⟩
      exact hothers.insertAt k.tokenCount hkey
    dsimp only
    generalize hbegun : (if scan.inFlow then _ else _) = begun
    have hfits : begun.Fits text := by
      rw [← hbegun]
      split
      · exact hkeyed _
      · split
        · next block hblock => exact ((hkeyed _).beginBlock? hblock).insertAt k.tokenCount hstart
        · exact hkeyed _
    exact ((hfits.allowing false begun.flow).push hvalue).moveTo rest
  · exact h.blockMark _ _ hstart hvalue _ rest

/-- What may be a key is read behind a note of its place. -/
theorem keyLike (h : scan.Fits text) {read : Except ReadError (Token × List Char)}
    (hread : Reads text (fun read => read.1.Fits text) read) :
    Reads text (Fits text) (scan.keyLike read) := by
  refine h.noteKey.bind fun next hnext => hread.bind fun (t, rest) ht => ?_
  exact ((hnext.allowing false next.flow).push ht).moveTo rest

/-- A block of lines is no key. -/
theorem block (h : scan.Fits text) (folded : Bool) (rest : List Char) :
    Reads text (Fits text) (scan.block folded rest) := by
  refine (h.allowing true scan.flow).dropKey.bind fun next hnext => ?_
  refine (reads_blockText folded next.indent rest).bind fun (chars, after) _ => ?_
  have hscalar : Token.Fits text (.scalar false (String.ofList chars)) := trivial
  exact (hnext.push hscalar).moveTo after

/-- A plain text may be a key, unless it goes over a line end. -/
theorem plain (h : scan.Fits text) : Reads text (Fits text) scan.plain := by
  refine h.noteKey.bind fun next hnext => ?_
  generalize plainText next.inFlow next.indent next.cursor.rest = read
  obtain ⟨chars, rest, crossed⟩ := read
  have hscalar : Token.Fits text (.scalar true (String.ofList chars)) := trivial
  exact ((hnext.allowing crossed next.flow).push hscalar).moveTo rest

/-- **The token at the current place**, one case for each character that begins one.  `hrest` keeps
what is read a part of the whole text, in which the causes are looked for. -/
theorem token (h : scan.Fits text) {c : Char} (hrest : c :: rest ⊆ text) :
    Reads text (Fits text) (scan.token c rest) := by
  have hmark (t : Token) (ht : t.Fits text) (after : List Char) :
      Reads text (Fits text) (scan.endDocument >>= fun next => pure ((next.push t).moveTo after)) :=
    h.endDocument.bind fun next hnext => (hnext.push ht).moveTo after
  unfold Scan.token
  refine .ite (fun _ => ?_) fun _ => ?_
  · refine h.endDocument.bind fun next hnext => ?_
    exact (reads_directiveToken rest).bind fun (t, after) ht => (hnext.push ht).moveTo after
  refine .ite (fun _ => hmark .documentStart trivial _) fun _ => ?_
  refine .ite (fun _ => hmark .documentEnd trivial _) fun _ => ?_
  refine .ite (fun _ => h.openBracket .flowSequenceStart trivial rest) fun _ => ?_
  refine .ite (fun _ => h.openBracket .flowMappingStart trivial rest) fun _ => ?_
  refine .ite (fun _ => h.closeBracket .flowSequenceEnd trivial rest) fun _ => ?_
  refine .ite (fun _ => h.closeBracket .flowMappingEnd trivial rest) fun _ => ?_
  refine .ite (fun _ => h.comma rest) fun _ => ?_
  refine .ite (fun _ => h.blockMark .sequenceStart .entry trivial trivial _ rest) fun _ => ?_
  refine .ite (fun _ => h.blockMark .mappingStart .key trivial trivial _ rest) fun _ => ?_
  refine .ite (fun _ => h.colon rest) fun _ => ?_
  refine .ite (fun _ => h.keyLike ((reads_anchorName rest).map fun _ _ => trivial)) fun _ => ?_
  refine .ite (fun _ => h.keyLike ((reads_anchorName rest).map fun _ _ => trivial)) fun _ => ?_
  refine .ite (fun hc => h.keyLike (reads_tagToken ?_ _)) fun _ => ?_
  · exact hrest (beq_iff_eq.mp hc ▸ List.mem_cons_self)
  refine .ite (fun _ => h.block _ rest) fun _ => ?_
  refine .ite (fun _ => h.block _ rest) fun _ => ?_
  refine .ite (fun _ => h.keyLike ((reads_singleQuoted _ _).map fun _ _ => trivial)) fun _ => ?_
  refine .ite (fun _ => h.keyLike ((reads_doubleQuoted _ ?_).map fun _ _ => trivial)) fun _ => ?_
  · exact fun hmem => hrest (List.mem_cons_of_mem c hmem)
  exact .ite (fun _ => h.plain) fun _ => reads_malformed

/-- **One step**: a token, or a gap on the way to one. -/
theorem step (h : scan.Fits text) : Reads text (fun read => read.1.Fits text) scan.step := by
  refine h.skipBlank.dropStaleKeys.bind fun next hnext => ?_
  have hunwound := hnext.unwind (Int.ofNat next.cursor.column)
  dsimp only
  split
  · exact hunwound.endDocument.bind fun final hfinal => hfinal.push trivial
  · next c rest hrest =>
    exact (hunwound.token (hrest ▸ hunwound.rest)).bind fun final hfinal => hfinal

/-- **One step after another**: where a step fails, its cause becomes the last token, and the parser
fails with it when it gets there. -/
theorem run (h : scan.Fits text) (steps : Nat) : (Scan.run steps scan).Fits text := by
  induction steps generalizing scan with
  | zero =>
    rw [Scan.run]
    exact h.push Cause.malformed
  | succ steps ih =>
    rw [Scan.run]
    have hstep := h.step
    split
    · next e he => exact h.push (hstep.of_error he)
    · next next hnext => exact hstep.of_ok hnext
    · next next hnext => exact ih (hstep.of_ok hnext)

end Fits

end Scan

/-- **The tokens of a text** fit it, the last one with the cause included. -/
theorem Token.fits_of_mem_ofText {t : Token} (h : t ∈ Token.ofText text) : t.Fits text := by
  have hstart : Scan.Fits text { cursor := { rest := text } } :=
    ⟨List.Subset.refl _, fun _ h => nomatch h⟩
  exact (hstart.run _).tokens t (List.mem_reverse.mp h)

end RuleCatalogue.Yaml
