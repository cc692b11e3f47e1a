import RuleCatalogue.Proofs.DrawnTable

/-!
# What becomes of the characters of a row

A ruler with a star and two plus signs behind it fixes columns, and these cut every row, however
short, into parts that lie one behind another: each position of the row belongs to one part, and
the three cells are the characters of three of the parts.  What is in no cell is what stands in
front of the first one, the two delimiters and the character that closes the row.

## Main definitions

* `Columns.Part` names the parts of a row, and `Columns.partAt` is the part of a position.
* `Columns.DrawnBy` says where a ruler has its columns, and `Columns.Cuts` what columns make of a
  row.

## Main statements

* `Columns.charsOf_eq_slice`: the characters of a part are those between two offsets.
* `Columns.ofRuler?_cuts`: a ruler with its marks has columns, and they cut every row.
-/

namespace RuleCatalogue

/-- Behind the first of the marks that are found one after another, the others are found. -/
theorem Text.sublist_of_not_mem {mark : Char} {marks before after : List Char} (h : mark ∉ before)
    (hmarks : (mark :: marks).Sublist (before ++ mark :: after)) : marks.Sublist after := by
  induction before with
  | nil => exact List.cons_sublist_cons.mp hmarks
  | cons c before ih =>
    rcases List.sublist_cons_iff.mp hmarks with hrest | ⟨rest, heq, -⟩
    · exact ih (fun hmem => h (List.mem_cons_of_mem c hmem)) hrest
    · exact absurd ((List.cons.inj heq).1 ▸ List.mem_cons_self) h

/-- **Marks that are found one after another**: the first one has a first place, and the others are
behind it.  That `mark` does not occur in `before` is what makes the place the one that a search
from the left finds. -/
theorem Text.exists_eq_append_of_sublist {mark : Char} {marks s : List Char}
    (h : (mark :: marks).Sublist s) :
    ∃ before after, s = before ++ mark :: after ∧ mark ∉ before ∧ marks.Sublist after := by
  obtain ⟨before, after, rfl, hbefore⟩ :=
    List.eq_append_cons_of_mem (h.subset List.mem_cons_self)
  exact ⟨before, after, rfl, hbefore, sublist_of_not_mem hbefore h⟩

namespace Columns

/-! ## Slices -/

section Slices

variable {row : List Char} {start middle stop : Nat}

/-- A slice goes on where another one stops. -/
theorem slice_append (hstart : start ≤ middle) (hstop : middle ≤ stop) :
    slice row start middle ++ slice row middle stop = slice row start stop := by
  have hmiddle : (row.take stop).take middle = row.take middle := by
    rw [List.take_take, Nat.min_eq_left hstop]
  have hskip : (row.take stop).drop middle
      = ((row.take stop).drop start).drop (middle - start) := by
    rw [List.drop_drop, Nat.add_sub_cancel' hstart]
  rw [slice, slice, slice, ← hmiddle, List.drop_take, hskip, List.take_append_drop]

theorem slice_of_le (h : stop ≤ start) : slice row start stop = [] := by
  rw [slice, List.drop_eq_nil_iff]
  exact Nat.le_trans (List.length_take_le stop row) h

theorem slice_length (row : List Char) (start : Nat) :
    slice row start row.length = row.drop start := by
  rw [slice, List.take_length]

/-- The slice of one position. -/
theorem slice_succ (row : List Char) (start : Nat) :
    slice row start (start + 1) = row[start]?.toList := by
  rw [slice, List.drop_take, Nat.add_sub_cancel_left, List.take_one, List.head?_drop]

/-- The characters at the positions between two offsets, where those of the text are counted from
`offset` on. -/
theorem filterMap_zipIdx_eq_slice {p : Nat → Prop} [DecidablePred p] (offset : Nat)
    (h : ∀ i, offset ≤ i → i < offset + row.length → (p i ↔ start ≤ i ∧ i < stop)) :
    ((row.zipIdx offset).filterMap fun place => if p place.2 then some place.1 else none)
      = slice row (start - offset) (stop - offset) := by
  induction row generalizing offset with
  | nil => simp [slice]
  | cons c row ih =>
    have hrest := ih (offset + 1) fun i hi hlt =>
      h i (Nat.le_of_succ_le hi) (by rw [List.length_cons]; omega)
    have hfirst := h offset (Nat.le_refl _) (by rw [List.length_cons]; omega)
    rw [List.zipIdx_cons, List.filterMap_cons, hrest]
    by_cases hp : p offset
    · obtain ⟨hstart, hstop⟩ := hfirst.mp hp
      obtain ⟨n, hn⟩ : ∃ n, stop - offset = n + 1 := ⟨stop - offset - 1, by omega⟩
      have hbegin : start - offset = 0 ∧ start - (offset + 1) = 0 := by omega
      have hend : stop - (offset + 1) = n := by omega
      simp [hp, slice, hbegin, hend, hn]
    · rw [if_neg hp]
      by_cases hstop : stop ≤ offset
      · rw [slice_of_le (by omega), slice_of_le (by omega)]
      · have hstart : ¬ start ≤ offset := fun hle => hp (hfirst.mpr ⟨hle, Nat.lt_of_not_le hstop⟩)
        obtain ⟨m, hm⟩ : ∃ m, start - offset = m + 1 := ⟨start - offset - 1, by omega⟩
        obtain ⟨n, hn⟩ : ∃ n, stop - offset = n + 1 := ⟨stop - offset - 1, by omega⟩
        have hrest' : start - (offset + 1) = m ∧ stop - (offset + 1) = n := by omega
        simp [slice, hm, hn, hrest']

end Slices

/-! ## Parts -/

/-- **A part of a row**; the parts lie one behind another. -/
inductive Part
  /-- What stands in front of the first cell. -/
  | front
  | key
  /-- The one character that ends the key. -/
  | keyEnd
  | description
  /-- The one character that ends the description. -/
  | descriptionEnd
  | defaultValue
  /-- The last character of a row that reaches behind the description. -/
  | close
deriving DecidableEq, Repr

/-- **The part of a position** in a row of some length. -/
def partAt (columns : Columns) (length position : Nat) : Part :=
  if position < columns.keyStart then .front
  else if position + 1 < columns.descriptionStart then .key
  else if position < columns.descriptionStart then .keyEnd
  else if position + 1 < columns.defaultStart then .description
  else if position < columns.defaultStart then .descriptionEnd
  else if position + 1 < length then .defaultValue
  else .close

/-- The characters of a row whose positions belong to a part. -/
def charsOf (columns : Columns) (row : List Char) (part : Part) : List Char :=
  row.zipIdx.filterMap fun place =>
    if columns.partAt row.length place.2 = part then some place.1 else none

/-- **The columns of a ruler** begin behind its first star, behind the first plus sign after it and
behind the next one. -/
structure DrawnBy (columns : Columns) (ruler : List Char) : Prop where
  star : ∃ before, ruler.take columns.keyStart = before ++ ['*'] ∧ '*' ∉ before
  keyEnd : ruler[columns.descriptionStart - 1]? = some '+' ∧ '+' ∉ columns.keyCell ruler
  descriptionEnd : ruler[columns.defaultStart - 1]? = some '+'
    ∧ '+' ∉ columns.descriptionCell ruler

/-- **Columns cut a row**: its parts make it up, in their order, three of them are the cells, and
the others are what is said of them. -/
structure Cuts (columns : Columns) (row : List Char) : Prop where
  joined : columns.charsOf row .front ++ columns.charsOf row .key ++ columns.charsOf row .keyEnd
    ++ columns.charsOf row .description ++ columns.charsOf row .descriptionEnd
    ++ columns.charsOf row .defaultValue ++ columns.charsOf row .close = row
  keyCell : columns.keyCell row = columns.charsOf row .key
  descriptionCell : columns.descriptionCell row = columns.charsOf row .description
  defaultCell : columns.defaultCell row = columns.charsOf row .defaultValue
  front : columns.charsOf row .front = row.take columns.keyStart
  keyEnd : columns.charsOf row .keyEnd = row[columns.descriptionStart - 1]?.toList
  descriptionEnd : columns.charsOf row .descriptionEnd = row[columns.defaultStart - 1]?.toList
  close : columns.charsOf row .close
    = if columns.defaultStart < row.length then row.getLast?.toList else []

/-! ## Where the parts lie -/

/-- The offset at which a part of a row begins. -/
def partStart (columns : Columns) (length : Nat) : Part → Nat
  | .front => 0
  | .key => columns.keyStart
  | .keyEnd => columns.descriptionStart - 1
  | .description => columns.descriptionStart
  | .descriptionEnd => columns.defaultStart - 1
  | .defaultValue => columns.defaultStart
  | .close => max columns.defaultStart (length - 1)

/-- The offset behind a part of a row. -/
def partStop (columns : Columns) (length : Nat) : Part → Nat
  | .front => columns.keyStart
  | .key => columns.descriptionStart - 1
  | .keyEnd => columns.descriptionStart
  | .description => columns.defaultStart - 1
  | .descriptionEnd => columns.defaultStart
  | .defaultValue => max columns.defaultStart (length - 1)
  | .close => length

section Cutting

variable {columns : Columns} (hkey : columns.keyStart < columns.descriptionStart)
  (hdescription : columns.descriptionStart < columns.defaultStart)

include hkey hdescription

/-- **A position belongs to the part around it**, between `partStart` and `partStop`.  The position
must lie in the row, since behind its end every part is empty. -/
theorem partAt_eq_iff {length position : Nat} (h : position < length) (part : Part) :
    columns.partAt length position = part
      ↔ columns.partStart length part ≤ position ∧ position < columns.partStop length part := by
  unfold partAt
  cases part with
  | front => grind [partStart, partStop]
  | key => grind [partStart, partStop]
  | keyEnd => grind [partStart, partStop]
  | description => grind [partStart, partStop]
  | descriptionEnd => grind [partStart, partStop]
  | defaultValue => grind [partStart, partStop]
  | close => grind [partStart, partStop]

/-- **The characters of a part** are those between its offsets: the definition by positions and the
one by `slice` are the same, so a cut may be read either way. -/
theorem charsOf_eq_slice (row : List Char) (part : Part) :
    columns.charsOf row part
      = slice row (columns.partStart row.length part) (columns.partStop row.length part) := by
  have hpositions (position : Nat) (_ : 0 ≤ position) (hposition : position < 0 + row.length) :
      columns.partAt row.length position = part
        ↔ columns.partStart row.length part ≤ position
          ∧ position < columns.partStop row.length part := by
    rw [Nat.zero_add] at hposition
    exact partAt_eq_iff hkey hdescription hposition part
  exact filterMap_zipIdx_eq_slice 0 hpositions

/-- The last cell may be said to reach up to the closing character or to be empty. -/
theorem charsOf_defaultValue (row : List Char) :
    columns.charsOf row .defaultValue = columns.defaultCell row := by
  rw [charsOf_eq_slice hkey hdescription, defaultCell, partStart, partStop]
  rcases Nat.le_total columns.defaultStart (row.length - 1) with h | h
  · rw [Nat.max_eq_right h]
  · rw [Nat.max_eq_left h, slice_of_le (Nat.le_refl _), slice_of_le h]

/-- What closes a row that reaches behind the description is its last character. -/
theorem charsOf_close (row : List Char) :
    columns.charsOf row .close
      = if columns.defaultStart < row.length then row.getLast?.toList else [] := by
  rw [charsOf_eq_slice hkey hdescription, partStart, partStop]
  split
  · next h =>
    have hlength : row.length = row.length - 1 + 1 := by omega
    rw [Nat.max_eq_right (by omega), List.getLast?_eq_getElem?, ← slice_succ, ← hlength]
  · next h => exact slice_of_le (by omega)

/-- **The parts of a row make it up**, the marks between the cells included: nothing of a row is
read twice or left out by the seven parts. -/
theorem joined_charsOf (row : List Char) :
    columns.charsOf row .front ++ columns.charsOf row .key ++ columns.charsOf row .keyEnd
      ++ columns.charsOf row .description ++ columns.charsOf row .descriptionEnd
      ++ columns.charsOf row .defaultValue ++ columns.charsOf row .close = row := by
  simp only [charsOf_eq_slice hkey hdescription, partStart, partStop]
  rw [slice_append (Nat.zero_le _) (by omega), slice_append (Nat.zero_le _) (by omega),
    slice_append (Nat.zero_le _) (by omega), slice_append (Nat.zero_le _) (by omega),
    slice_append (Nat.zero_le _) (by omega), slice_length]
  exact List.take_append_drop _ row

/-- **Columns that begin one behind another cut every row.** The two inequalities are all that is
used of a ruler; how long the row is does not matter, since `slice` stops at its end. -/
theorem cuts_of_lt (row : List Char) : columns.Cuts row where
  joined := joined_charsOf hkey hdescription row
  keyCell := (charsOf_eq_slice hkey hdescription row .key).symm
  descriptionCell := (charsOf_eq_slice hkey hdescription row .description).symm
  defaultCell := (charsOf_defaultValue hkey hdescription row).symm
  front := charsOf_eq_slice hkey hdescription row .front
  keyEnd := by
    have hbefore : columns.descriptionStart = columns.descriptionStart - 1 + 1 := by omega
    rw [charsOf_eq_slice hkey hdescription, partStart, partStop, ← slice_succ, ← hbefore]
  descriptionEnd := by
    have hbefore : columns.defaultStart = columns.defaultStart - 1 + 1 := by omega
    rw [charsOf_eq_slice hkey hdescription, partStart, partStop, ← slice_succ, ← hbefore]
  close := charsOf_close hkey hdescription row

end Cutting

/-! ## Rulers -/

/-- The columns of a ruler, by what stands before its star and between its marks. -/
def ofMarks (lead key description : List Char) : Columns where
  keyStart := lead.length + 1
  descriptionStart := lead.length + 1 + key.length + 1
  defaultStart := lead.length + 1 + key.length + 1 + description.length + 1

theorem getElem?_of_eq_append {row before after : List Char} {c : Char} {position : Nat}
    (hrow : row = before ++ c :: after) (hposition : before.length = position) :
    row[position]? = some c := by
  rw [hrow, ← hposition, List.getElem?_append_right (Nat.le_refl _), Nat.sub_self,
    List.getElem?_cons_zero]

theorem drawnBy_ofMarks {lead key description rest : List Char} (hlead : '*' ∉ lead)
    (hkey : '+' ∉ key) (hdescription : '+' ∉ description) :
    (ofMarks lead key description).DrawnBy
      (lead ++ '*' :: (key ++ '+' :: (description ++ '+' :: rest))) := by
  have hkeyRow : lead ++ '*' :: (key ++ '+' :: (description ++ '+' :: rest))
      = lead ++ ['*'] ++ key ++ '+' :: (description ++ '+' :: rest) := by simp
  have hdescriptionRow : lead ++ '*' :: (key ++ '+' :: (description ++ '+' :: rest))
      = lead ++ ['*'] ++ key ++ ['+'] ++ description ++ '+' :: rest := by simp
  have hkeyCell : (ofMarks lead key description).keyCell
      (lead ++ '*' :: (key ++ '+' :: (description ++ '+' :: rest))) = key :=
    slice_of_append hkeyRow (by simp [ofMarks]) (by simp [ofMarks]; omega)
  have hdescriptionCell : (ofMarks lead key description).descriptionCell
      (lead ++ '*' :: (key ++ '+' :: (description ++ '+' :: rest))) = description :=
    slice_of_append hdescriptionRow (by simp [ofMarks]; omega) (by simp [ofMarks]; omega)
  refine ⟨⟨lead, ?_, hlead⟩, ⟨getElem?_of_eq_append hkeyRow ?_, ?_⟩,
    ⟨getElem?_of_eq_append hdescriptionRow ?_, ?_⟩⟩
  · rw [List.append_cons]
    exact List.take_left' (by simp [ofMarks])
  · simp [ofMarks]
    omega
  · rwa [hkeyCell]
  · simp [ofMarks]
    omega
  · rwa [hdescriptionCell]

/-- **A ruler with a star and two plus signs behind it has columns**, drawn where these are, and
they cut every row.  The hypothesis is a sublist and not a shape: what stands between the marks,
dashes or anything else, is never looked at. -/
theorem ofRuler?_cuts {ruler : List Char} (h : ['*', '+', '+'].Sublist ruler) :
    ∃ columns, ofRuler? ruler = some columns
      ∧ columns.keyStart < columns.descriptionStart
      ∧ columns.descriptionStart < columns.defaultStart
      ∧ columns.DrawnBy ruler
      ∧ ∀ row, columns.Cuts row := by
  obtain ⟨lead, cells, rfl, hlead, hcells⟩ := Text.exists_eq_append_of_sublist h
  obtain ⟨key, afterKey, rfl, hkey, hafterKey⟩ := Text.exists_eq_append_of_sublist hcells
  obtain ⟨description, rest, rfl, hdescription, -⟩ := Text.exists_eq_append_of_sublist hafterKey
  have hcolumns : ofRuler? (lead ++ '*' :: (key ++ '+' :: (description ++ '+' :: rest)))
      = some (ofMarks lead key description) := by
    simp only [ofRuler?, Text.splitAtFirst?_append hlead, Text.splitAtFirst?_append hkey,
      Text.splitAtFirst?_append hdescription, Option.bind_eq_bind, Option.bind_some,
      Option.pure_def, ofMarks]
  have hfirst : (ofMarks lead key description).keyStart
      < (ofMarks lead key description).descriptionStart := by
    simp only [ofMarks]
    omega
  have hsecond : (ofMarks lead key description).descriptionStart
      < (ofMarks lead key description).defaultStart := by
    simp only [ofMarks]
    omega
  exact ⟨_, hcolumns, hfirst, hsecond, drawnBy_ofMarks hlead hkey hdescription,
    cuts_of_lt hfirst hsecond⟩

/-- A row that ends inside the description has no character to close it, and one that ends behind
the description is closed by its last one. -/
theorem ofRuler?_cuts_ragged :
    ['*', '+', '+'].Sublist "+ *--+--+-+".toList
      ∧ ∃ columns, ofRuler? "+ *--+--+-+".toList = some columns
        ∧ columns.Cuts "..|ab|c".toList ∧ columns.charsOf "..|ab|c".toList .description = ['c']
        ∧ columns.charsOf "..|ab|c".toList .close = []
        ∧ columns.Cuts "..|ab|cd|".toList ∧ columns.charsOf "..|ab|cd|".toList .close = []
        ∧ columns.Cuts "..|ab|cd||".toList
        ∧ columns.charsOf "..|ab|cd||".toList .close = ['|'] := by
  have hmarks : ['*', '+', '+'].Sublist "+ *--+--+-+".toList := by decide
  obtain ⟨columns, hcolumns, -, -, -, hcuts⟩ := ofRuler?_cuts hmarks
  obtain rfl : columns = ⟨3, 6, 9⟩ := Option.some.inj (hcolumns.symm.trans (by decide))
  exact ⟨hmarks, _, hcolumns, hcuts _, by decide, by decide, hcuts _, by decide, hcuts _,
    by decide⟩

end Columns

end RuleCatalogue
