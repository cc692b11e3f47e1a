import RuleCatalogue.Proofs.Json
import RuleCatalogue.Proofs.Value

/-!
# A line of JSON is one line

What is written of a value in one line holds no control character: those of a text are escaped, in
names as in values, and all else is written with letters, digits and marks.  So lines of JSON can be
told apart by their line breaks, whatever the values.

## Main results

* `controlFree_escaped`: what is written of one character.
* `controlFree_compactText`: what is written of a value.

## Design notes

The induction is on the value, with one lemma for each kind of scalar; a number is followed through
all forms in which it may be written, since a fraction has an exponent or a point.
-/

namespace RuleCatalogue

/-- **No control characters** stand in a text. -/
def ControlFree (s : List Char) : Prop :=
  ∀ c ∈ s, 0x20 ≤ c.toNat

instance (s : List Char) : Decidable (ControlFree s) :=
  List.decidableBAll _ s

namespace ControlFree

variable {s t : List Char}

theorem append (hs : ControlFree s) (ht : ControlFree t) : ControlFree (s ++ t) := by
  intro c hc
  exact (List.mem_append.mp hc).elim (hs c) (ht c)

theorem cons {c : Char} (hc : 0x20 ≤ c.toNat) (hs : ControlFree s) : ControlFree (c :: s) := by
  intro d hd
  rcases List.mem_cons.mp hd with rfl | hmem
  · exact hc
  · exact hs d hmem

theorem of_subset (h : ControlFree s) (hsub : ∀ c ∈ t, c ∈ s) : ControlFree t :=
  fun c hc => h c (hsub c hc)

theorem replicate {c : Char} (hc : 0x20 ≤ c.toNat) (n : Nat) :
    ControlFree (List.replicate n c) := by
  intro d hd
  rwa [(List.mem_replicate.mp hd).2]

end ControlFree

/-! ## Numbers -/

namespace Decimal

/-- Digits are no control characters, whatever their base. -/
theorem controlFree_of_isDigitOf {base : Nat} (hbase : base ≤ 16) {s : List Char}
    (h : ∀ c ∈ s, isDigitOf base c) : ControlFree s := by
  intro c hc
  have hdigit : digitValue c < base := of_decide_eq_true (h c hc)
  have hall : ∀ n < 0x20, 16 ≤ digitValue (Char.ofNat n) := by decide
  refine Nat.not_lt.mp fun hcontrol => ?_
  have hnone := hall c.toNat hcontrol
  rw [Char.ofNat_toNat] at hnone
  omega

theorem controlFree_toDigits (n : Nat) : ControlFree (Nat.toDigits 10 n) := by
  have hdigits : ∀ c ∈ Nat.toDigits 10 n, isDigitOf 10 c :=
    fun c hc => isDigitOf_of_mem_toDigits (by decide) (by decide) hc
  exact controlFree_of_isDigitOf (by decide) hdigits

theorem controlFree_hexDigits (width n : Nat) : ControlFree (Text.hexDigits width n) := by
  have hdigits : ∀ c ∈ Text.hexDigits width n, isDigitOf 16 c :=
    fun c hc => isDigitOf_of_mem_hexDigits hc
  exact controlFree_of_isDigitOf (by decide) hdigits

theorem controlFree_toString (n : Int) : ControlFree (toString n).toList := by
  rw [toList_toString]
  exact ControlFree.append (by split <;> decide) (controlFree_toDigits _)

theorem controlFree_digitsAndPoint (b : Binary) : ControlFree (digitsAndPoint b).1 := by
  refine (controlFree_toDigits b.shortest.digits).of_subset fun c hc => ?_
  have hkept := List.mem_reverse.mp hc
  exact List.mem_reverse.mp ((List.dropWhile_suffix _).subset hkept)

theorem controlFree_positionalText {digits : List Char} (h : ControlFree digits) (point : Int) :
    ControlFree (positionalText digits point) := by
  simp only [positionalText]
  split
  · have hzeros := ControlFree.replicate (c := '0') (by decide) (-point).toNat
    exact ControlFree.cons (by decide) (ControlFree.cons (by decide) (hzeros.append h))
  · have hpadded := h.append (.replicate (c := '0') (by decide) (point.toNat - digits.length))
    refine ControlFree.append (hpadded.of_subset fun c => List.mem_of_mem_take) ?_
    refine ControlFree.cons (by decide) ?_
    split
    · decide
    · exact hpadded.of_subset fun c => List.mem_of_mem_drop

theorem controlFree_exponentText (e : Int) : ControlFree (exponentText e) := by
  have hzeros :=
    ControlFree.replicate (c := '0') (by decide) (2 - (Nat.toDigits 10 e.natAbs).length)
  exact ControlFree.cons (by split <;> decide) (hzeros.append (controlFree_toDigits e.natAbs))

theorem controlFree_scientificText {digits : List Char} (h : ControlFree digits) (point : Int) :
    ControlFree (scientificText digits point) := by
  simp only [scientificText]
  refine ControlFree.append ?_ (ControlFree.cons (by decide) (controlFree_exponentText _))
  split
  · decide
  · exact h
  · next d rest _ =>
    have hrest : ControlFree rest := h.of_subset fun c => List.mem_cons_of_mem d
    exact ControlFree.cons (h d List.mem_cons_self) (ControlFree.cons (by decide) hrest)

theorem controlFree_floatText (x : Float) : ControlFree (floatText x).toList := by
  unfold floatText
  split
  · decide
  · rw [String.toList_append]
    refine ControlFree.append (by split <;> decide) ?_
    split
    · decide
    · split
      · decide
      · rw [magnitudeText, String.toList_ofList]
        split
        · exact controlFree_positionalText (controlFree_digitsAndPoint _) _
        · exact controlFree_scientificText (controlFree_digitsAndPoint _) _

end Decimal

namespace Json

/-! ## Texts -/

/-- **What is written of a character** holds no control character, be it one itself: those are
written by their codes.  A line end in a text therefore never ends a line of the log. -/
theorem controlFree_escaped (c : Char) : ControlFree (escaped c) := by
  rcases escaped_cases c with ⟨letter, hmem, h⟩ | ⟨-, h⟩ | ⟨-, -, hplain, h⟩
  · have hall : ∀ pair ∈ escapeLetters, ControlFree ['\\', pair.2] := by decide
    rw [h]
    exact hall _ hmem
  · rw [h]
    have hdigits := Decimal.controlFree_hexDigits 4 c.toNat
    exact ControlFree.cons (by decide) (ControlFree.cons (by decide) hdigits)
  · rw [h]
    intro d hd
    rwa [List.mem_singleton.mp hd]

theorem controlFree_quotedChars (s : String) : ControlFree (quotedChars s) := by
  have hinside : ControlFree (s.toList.flatMap escaped) := by
    intro c hc
    obtain ⟨d, -, hd⟩ := List.mem_flatMap.mp hc
    exact controlFree_escaped d c hd
  exact ControlFree.cons (by decide) (hinside.append (by decide))

theorem controlFree_floatChars (x : Float) : ControlFree (floatChars x) := by
  unfold floatChars
  split
  · decide
  · split
    · split <;> decide
    · exact Decimal.controlFree_floatText x

theorem controlFree_scalarChars (v : Value) : ControlFree (scalarChars v) := by
  unfold scalarChars
  split
  · decide
  · split <;> decide
  · exact Decimal.controlFree_toString _
  · exact controlFree_floatChars _
  · exact controlFree_quotedChars _
  · exact controlFree_quotedChars _

/-! ## Lists and tables -/

theorem controlFree_bracketed {first last : Char} (hfirst : 0x20 ≤ first.toNat)
    (hlast : 0x20 ≤ last.toNat) {pieces : List (List Char)}
    (h : ∀ piece ∈ pieces, ControlFree piece) :
    ControlFree (bracketed first last [] [] pieces) := by
  have hinside : ControlFree (separated [','] pieces) := by
    intro c hc
    rcases mem_separated hc with hcomma | ⟨piece, hpiece, hc⟩
    · rw [List.mem_singleton.mp hcomma]
      decide
    · exact h piece hpiece c hc
  exact ControlFree.cons hfirst (hinside.append (ControlFree.cons hlast (by decide)))

theorem compactChars_of_leaf {v : Value} (h : Toml.isCompound v = false) :
    compactChars v = scalarChars v := by
  cases v with
  | list items => exact nomatch h
  | table fields => exact nomatch h
  | _ => rfl

theorem controlFree_compactChars (v : Value) : ControlFree (compactChars v) := by
  induction v using Value.inductionOn with
  | leaf v h =>
    rw [compactChars_of_leaf h]
    exact controlFree_scalarChars v
  | list items ih =>
    rw [compactChars, compactItems_eq_map]
    refine controlFree_bracketed (by decide) (by decide) fun piece hpiece => ?_
    obtain ⟨item, hitem, rfl⟩ := List.mem_map.mp hpiece
    exact ih item hitem
  | table fields ih =>
    rw [compactChars, compactFields_eq_map]
    refine controlFree_bracketed (by decide) (by decide) fun piece hpiece => ?_
    obtain ⟨field, hfield, rfl⟩ := List.mem_map.mp hpiece
    refine (controlFree_quotedChars field.1).append ?_
    exact ControlFree.cons (by decide) (ih field hfield)

/-- **A value in one line** holds no control characters, whatever texts and names are in it. -/
theorem controlFree_compactText (v : Value) : ControlFree (compactText v).toList := by
  rw [compactText, String.toList_ofList]
  exact controlFree_compactChars v.withSortedNames

end Json

end RuleCatalogue
