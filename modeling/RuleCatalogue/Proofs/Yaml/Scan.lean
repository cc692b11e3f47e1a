import RuleCatalogue.Proofs.Yaml.Plain
import RuleCatalogue.Yaml.Token

/-!
# The state between tokens

What is written has a shape that the state of the scanner follows: a token begins in the column of
the innermost block or of the next one, and each block begins two columns to the right of the one
around it.  Before a token, blanks are passed over and the blocks that begin to the right of it end.

## Main definitions

* `Scan.nested`: the state inside of so many blocks.
* `Scan.Leads`: from one state the same tokens are read as from a later one.
* `Scan.Ready`: the next token begins, what ends before it has ended, and no key may still begin
  before it.

## Design notes

The number of steps, the lines and the characters that were counted do not decide what is read, so
`Ready` and the lemmas about single steps leave them open.
-/

namespace RuleCatalogue.Yaml

/-! ## Places -/

namespace Cursor

variable {front rest : List Char}

theorem ahead_add (m n : Nat) (p : Cursor) : p.ahead (m + n) = (p.ahead m).ahead n := by
  induction m generalizing p with
  | zero => rw [Nat.zero_add]; rfl
  | succ m ih => rw [Nat.succ_add]; exact ih p.next

/-- A character that takes a column of its line. -/
def takesColumn (c : Char) : Bool :=
  !isBreak c && c != '\uFEFF'

/-- Inside of a line every character takes a column. -/
theorem ahead_word (hfront : ∀ c ∈ front, takesColumn c) (rest : List Char)
    (index line column : Nat) :
    Cursor.ahead front.length { rest := front ++ rest, index, line, column }
      = { rest, index := index + front.length, line, column := column + front.length } := by
  induction front generalizing index column with
  | nil => rfl
  | cons c front ih =>
    have hc := hfront c List.mem_cons_self
    simp only [takesColumn, isBreak, Bool.and_eq_true, Bool.not_eq_true', Bool.or_eq_false_iff,
      beq_eq_false_iff_ne, bne_iff_ne] at hc
    obtain ⟨⟨hreturn, hnewline⟩, hmark⟩ := hc
    have hnext : Cursor.next { rest := c :: front ++ rest, index, line, column }
        = { rest := front ++ rest, index := index + 1, line, column := column + 1 } := by
      simp [Cursor.next, hreturn, hnewline, hmark]
    rw [List.length_cons, Cursor.ahead, hnext,
      ih (fun d hd => hfront d (List.mem_cons_of_mem c hd)), Nat.add_assoc, Nat.add_assoc,
      Nat.add_comm 1]

/-- Whatever is passed over, the place behind it is found. -/
theorem exists_ahead_eq (front rest : List Char) (index line column : Nat) :
    ∃ index' line' column',
      Cursor.ahead front.length { rest := front ++ rest, index, line, column }
        = { rest, index := index', line := line', column := column' } := by
  induction front generalizing index line column with
  | nil => exact ⟨index, line, column, rfl⟩
  | cons c front ih =>
    rw [List.length_cons, Cursor.ahead, List.cons_append, Cursor.next]
    dsimp only
    split
    · exact ih _ _ _
    · exact ih _ _ _

/-- Behind a line and a margin, the column is the width of the margin. -/
theorem exists_ahead_line (front : List Char) (width : Nat) (rest : List Char)
    (index line column : Nat) :
    ∃ index' line',
      Cursor.ahead (front ++ '\n' :: margin width).length
          { rest := front ++ '\n' :: (margin width ++ rest), index, line, column }
        = { rest, index := index', line := line', column := width } := by
  obtain ⟨index', line', column', hfront⟩ :=
    exists_ahead_eq front ('\n' :: (margin width ++ rest)) index line column
  have hmargin : ∀ c ∈ margin width, takesColumn c := fun c hc => by
    rw [List.eq_of_mem_replicate hc]
    decide
  have hbehind := ahead_word hmargin rest (index' + 1) (line' + 1) 0
  rw [Nat.zero_add, margin, List.length_replicate, ← margin] at hbehind
  refine ⟨index' + 1 + width, line' + 1, ?_⟩
  rw [List.length_append, ahead_add, hfront, margin, List.length_cons, List.length_replicate,
    ← margin]
  exact hbehind

end Cursor

namespace Scan

variable {rest : List Char}

/-- Moving over what stands in front. -/
theorem moveTo_append (s : Scan) {front : List Char} (h : s.cursor.rest = front ++ rest) :
    s.moveTo rest = { s with cursor := s.cursor.ahead front.length } := by
  rw [moveTo, Cursor.reach, h, List.length_append, Nat.add_sub_cancel]

theorem moveTo_cons {c : Char} (hc : Cursor.takesColumn c) (s : Scan) {index line column : Nat}
    (h : s.cursor = { rest := c :: rest, index, line, column }) :
    s.moveTo rest
      = { s with cursor := { rest, index := index + 1, line, column := column + 1 } } := by
  have hahead := Cursor.ahead_word (List.forall_mem_singleton.mpr hc) rest index line column
  rw [moveTo_append s (show s.cursor.rest = [c] ++ rest by rw [h]; rfl), h]
  exact congrArg (fun cursor => { s with cursor }) hahead

/-! ## Blanks -/

theorem blankAhead_of_beginsWord (h : BeginsWord rest) (width : Nat) (crossed : Bool)
    (steps : Nat) :
    blankAhead (steps + 1) (margin width ++ rest) crossed = (rest, crossed) := by
  have hskip : skipSpaces (margin width ++ rest) = rest := by
    rw [skipSpaces, List.dropWhile_append_of_pos fun c hc => by
      rw [List.eq_of_mem_replicate hc]; decide]
    exact Text.dropWhile_of_head fun c hc => by simpa using (h c hc).1
  have hcomment : (rest.head? == some '#') = false := by
    cases rest with
    | nil => rfl
    | cons c rest => simpa using (h c rfl).2.2.1
  simp [blankAhead, hskip, hcomment, takeBreak?_of_beginsWord h]

theorem blankAhead_line (h : BeginsWord rest) (width : Nat) (crossed : Bool) (steps : Nat) :
    blankAhead (steps + 2) ('\n' :: (margin width ++ rest)) crossed = (rest, true) :=
  blankAhead_of_beginsWord h width true steps

theorem skipBlank_of_blankAhead (s : Scan) (hmark : s.cursor.rest.head? ≠ some '\uFEFF')
    {crossed : Bool}
    (h : blankAhead (s.cursor.rest.length + 1) s.cursor.rest false = (rest, crossed)) :
    s.skipBlank = if crossed && !s.inFlow then { s.moveTo rest with keyAllowed := true }
      else s.moveTo rest := by
  have hmark' : (s.cursor.rest.head? == some '\uFEFF') = false := by simpa using hmark
  simp only [skipBlank, hmark', Bool.and_false, Bool.false_eq_true, if_false, h]

/-- Spaces before a token. -/
theorem skipBlank_margin (s : Scan) {width : Nat} (h : BeginsWord rest)
    (hrest : s.cursor.rest = margin width ++ rest) : s.skipBlank = s.moveTo rest := by
  have hmark : s.cursor.rest.head? ≠ some '\uFEFF' := by
    rw [hrest]
    cases width with
    | zero => exact fun e => (h _ e).2.2.2 rfl
    | succ width => exact fun e => absurd (Option.some.inj e) (by decide)
  have hblank := blankAhead_of_beginsWord h width false s.cursor.rest.length
  rw [← hrest] at hblank
  exact skipBlank_of_blankAhead s hmark hblank

/-- Nothing before a token. -/
theorem skipBlank_of_beginsWord (s : Scan) (h : BeginsWord s.cursor.rest) : s.skipBlank = s := by
  rw [skipBlank_margin s h (show _ = margin 0 ++ s.cursor.rest from rfl),
    moveTo_append s (show _ = [] ++ s.cursor.rest from rfl)]
  rfl

/-- A line end before a token, and the margin of the next line. -/
theorem skipBlank_line (s : Scan) {width : Nat} (h : BeginsWord rest) (hflow : s.inFlow = false)
    (hrest : s.cursor.rest = '\n' :: (margin width ++ rest)) :
    s.skipBlank = { s.moveTo rest with keyAllowed := true } := by
  have hmark : s.cursor.rest.head? ≠ some '\uFEFF' := by
    rw [hrest]
    exact fun e => absurd (Option.some.inj e) (by decide)
  have hblank : blankAhead (s.cursor.rest.length + 1) s.cursor.rest false = (rest, true) := by
    rw [hrest]
    exact blankAhead_line h width false (margin width ++ rest).length
  rw [skipBlank_of_blankAhead s hmark hblank, hflow]
  rfl

/-! ## Blocks -/

/-- The column of the innermost block: each begins two columns to the right of the one around it. -/
def indentOf : Nat → Int
  | 0 => -1
  | level + 1 => ((2 * level : Nat) : Int)

theorem indentOf_succ (level : Nat) : indentOf (level + 1) = ((2 * level : Nat) : Int) := rfl

theorem indentOf_lt (level : Nat) : indentOf level < ((2 * level : Nat) : Int) := by
  cases level with
  | zero => decide
  | succ level =>
    simp only [indentOf]
    omega

theorem indentOf_le (level k : Nat) : indentOf level ≤ indentOf (level + k) := by
  cases level with
  | zero =>
    cases k with
    | zero => exact Int.le_refl _
    | succ k =>
      simp only [indentOf]
      omega
  | succ level =>
    rw [Nat.succ_add]
    simp only [indentOf]
    omega

/-- The columns of the blocks around the innermost one. -/
def outerOf : Nat → List Int
  | 0 => []
  | level + 1 => indentOf level :: outerOf level

/-- The state inside of so many blocks. -/
abbrev nested (level : Nat) (tokens : List Token) (count : Nat) (cursor : Cursor) : Scan :=
  { cursor, tokens, count, indent := indentOf level, outer := outerOf level }

theorem unwind_of_le {s : Scan} {column : Int} (h : s.indent ≤ column) : s.unwind column = s := by
  rw [unwind]
  split
  · rfl
  · unfold endBlocks
    rw [if_pos h]

/-- **A column ends the blocks that begin to the right of it**, `k` of them, and puts the token for
each in front. -/
theorem unwind_nested (level : Nat) (tokens : List Token) (count : Nat) (cursor : Cursor)
    (k : Nat) :
    (nested (level + k) tokens count cursor).unwind (indentOf level)
      = nested level (List.replicate k .blockEnd ++ tokens) (count + k) cursor := by
  induction k generalizing tokens count with
  | zero => exact unwind_of_le (Int.le_refl _)
  | succ k ih =>
    have hright : ¬ indentOf (level + k + 1) ≤ indentOf level :=
      Int.not_le.mpr (Int.lt_of_le_of_lt (indentOf_le level k) (indentOf_lt (level + k)))
    have hstep : (nested (level + k + 1) tokens count cursor).unwind (indentOf level)
        = (nested (level + k) (.blockEnd :: tokens) (count + 1) cursor).unwind
            (indentOf level) := by
      show endBlocks _ (outerOf (level + k + 1)) _ = _
      rw [outerOf, endBlocks, if_neg hright]
      rfl
    rw [← Nat.add_assoc, hstep, ih, List.replicate_succ', List.append_assoc, Nat.add_assoc,
      Nat.add_comm 1]
    rfl

/-! ## Steps -/

/-- **The tokens in the end are these**, whatever is read from here on. -/
def Scans (s : Scan) (tokens : List Token) : Prop :=
  ∀ steps, s.cursor.rest.length + 1 < steps → (run steps s).tokens = tokens

/-- **One state leads to another** if the same tokens are read from both. -/
def Leads (s next : Scan) : Prop :=
  ∀ tokens, next.Scans tokens → s.Scans tokens

theorem Leads.trans {s next final : Scan} (h : s.Leads next) (hnext : next.Leads final) :
    s.Leads final :=
  fun tokens hfinal => h tokens (hnext tokens hfinal)

theorem leads_of_step {s next : Scan} (h : s.step = .ok (next, false))
    (hlength : next.cursor.rest.length < s.cursor.rest.length) : s.Leads next := by
  intro tokens hnext steps hsteps
  obtain ⟨steps, rfl⟩ : ∃ n, steps = n + 1 := ⟨steps - 1, by omega⟩
  rw [run, h]
  exact hnext steps (by omega)

/-- **The next token begins at a column**, inside of so many blocks: what ends before it has ended,
and nothing that stands before it may turn out to be a key. -/
structure Ready (s : Scan) (level column : Nat) (rest : List Char) (tokens : List Token) :
    Prop where
  unwound : ∃ index line count,
    s.skipBlank.unwind column = nested level tokens count { rest, index, line, column }
  column_eq : s.skipBlank.cursor.column = column
  noKey : s.skipBlank.keys = []
  length_le : rest.length ≤ s.cursor.rest.length

variable {s : Scan} {tokens : List Token} {level column : Nat}

theorem ready_of_skipBlank {i j count index line : Nat}
    (hlength : rest.length ≤ s.cursor.rest.length)
    (h : s.skipBlank = nested (i + 1 + j) tokens count { rest, index, line, column := 2 * i }) :
    s.Ready (i + 1) (2 * i) rest (List.replicate j .blockEnd ++ tokens) where
  unwound := by
    refine ⟨index, line, count + j, ?_⟩
    rw [h, ← indentOf_succ, unwind_nested]
  column_eq := by rw [h]
  noKey := by rw [h]
  length_le := hlength

/-- Behind a line, the blocks have ended that begin to the right of the next one. -/
theorem ready_of_line (hrest : BeginsWord rest) (i j : Nat) (tokens : List Token)
    (count index line column : Nat) (keyAllowed : Bool) :
    Ready { nested (i + 1 + j) tokens count
              { rest := '\n' :: (margin (2 * i) ++ rest), index, line, column } with keyAllowed }
      (i + 1) (2 * i) rest (List.replicate j .blockEnd ++ tokens) := by
  obtain ⟨index', line', hahead⟩ := Cursor.exists_ahead_line [] (2 * i) rest index line column
  have hskip : skipBlank { nested (i + 1 + j) tokens count
        { rest := '\n' :: (margin (2 * i) ++ rest), index, line, column } with keyAllowed }
      = nested (i + 1 + j) tokens count
          { rest, index := index', line := line', column := 2 * i } := by
    rw [skipBlank_line _ hrest rfl rfl,
      moveTo_append _ (show _ = ([] ++ '\n' :: margin (2 * i)) ++ rest from rfl)]
    exact congrArg (fun cursor => nested (i + 1 + j) tokens count cursor) hahead
  exact ready_of_skipBlank (by simp; omega) hskip

theorem dropStaleKeys_of_noKey (h : s.keys = []) : s.dropStaleKeys = .ok s := by
  obtain ⟨cursor, tokens, count, indent, outer, flow, keyAllowed, keys⟩ := s
  cases h
  rfl

theorem step_of_token {skipped unwound next : Scan} {c : Char} (hskip : s.skipBlank = skipped)
    (hkeys : skipped.dropStaleKeys = .ok skipped)
    (hunwind : skipped.unwind (Int.ofNat skipped.cursor.column) = unwound)
    (hrest : unwound.cursor.rest = c :: rest) (htoken : unwound.token c rest = .ok next) :
    s.step = .ok (next, false) := by
  rw [step, hskip, hkeys]
  simp only [bind, Except.bind, hunwind, hrest, htoken]
  rfl

theorem Ready.exists_step {c : Char} (h : s.Ready level column (c :: rest) tokens) :
    ∃ index line count, ∀ next,
      (nested level tokens count { rest := c :: rest, index, line, column }).token c rest
        = .ok next →
      s.step = .ok (next, false) := by
  obtain ⟨index, line, count, hunwound⟩ := h.unwound
  refine ⟨index, line, count, fun next hnext => ?_⟩
  refine step_of_token rfl (dropStaleKeys_of_noKey h.noKey) ?_ rfl hnext
  rw [h.column_eq]
  exact hunwound

theorem ready_of_margin (hrest : BeginsWord rest) (width : Nat) (tokens : List Token)
    (count index line : Nat) (hindent : indentOf level ≤ (column : Int)) :
    Ready (nested level tokens count { rest := margin width ++ rest, index, line, column })
      level (column + width) rest tokens := by
  have hmargin : ∀ c ∈ margin width, Cursor.takesColumn c := fun c hc => by
    rw [List.eq_of_mem_replicate hc]
    decide
  have hskip : skipBlank (nested level tokens count
      { rest := margin width ++ rest, index, line, column })
      = nested level tokens count
          { rest, index := index + width, line, column := column + width } := by
    rw [skipBlank_margin _ hrest rfl, moveTo_append _ rfl, Cursor.ahead_word hmargin, margin,
      List.length_replicate]
  refine ⟨⟨index + width, line, count, ?_⟩, ?_, ?_, by simp⟩
  · rw [hskip]
    exact unwind_of_le (Int.le_trans hindent (by omega))
  · rw [hskip]
  · rw [hskip]

end Scan

end RuleCatalogue.Yaml
