import Mathlib.Algebra.Group.Int.Defs
import Mathlib.Algebra.Group.Nat.Defs
import RuleCatalogue.Decimal
import RuleCatalogue.Text.Substring

/-!
# Laws of written numbers

Digits that were written of a number are read as that number, with zeros before them or not
(`ofDigits_toDigits`, `hexValue?_hexDigits`), and an integer is its sign and its decimal digits
(`toList_toString`, `integer_toDigits`).

## Main results

* `ofDigits_toDigits`: digits are read as the number they were written of, in any base up to 16.
* `hexValue?_hexDigits` and `hexValue?_map_toUpper`: the digits of an escape, in small and in
  capital letters.
* `short_iff`: the bound on decimal digits as a bound on the number.
* `integer_toDigits`: an integer within that bound.

## Design notes

The bound is on decimal digits alone, as the interpreter has it: digits in other bases are read
whatever their number.  It stands as the hypothesis `Short` in all that is proved of integers, and
`not_short_ten_pow` gives the first integer that it excludes.
-/

namespace RuleCatalogue.Decimal

variable {base n : Nat}

/-! ## Digits -/

theorem digitValue_digitChar {d : Nat} (h : d < 16) : digitValue (Nat.digitChar d) = d := by
  have hall : ∀ d : Fin 16, digitValue (Nat.digitChar d) = d := by decide
  exact hall ⟨d, h⟩

theorem ofDigits_append_singleton (base : Nat) (digits : List Char) (c : Char) :
    ofDigits base (digits ++ [c]) = ofDigits base digits * base + digitValue c := by
  rw [ofDigits, List.foldl_append]
  rfl

/-- Digits are read as the number they were written of. -/
theorem ofDigits_toDigits (hlow : 1 < base) (hhigh : base ≤ 16) (n : Nat) :
    ofDigits base (Nat.toDigits base n) = n := by
  induction n using Nat.strongRecOn with
  | ind n ih =>
    rw [Nat.toDigits_eq_if hlow]
    split
    · next hlt =>
      have hdigit : digitValue (Nat.digitChar n) = n := digitValue_digitChar (by omega)
      simpa [ofDigits] using hdigit
    · next hle =>
      have hpos : 0 < n := by omega
      have hmod : n % base < base := Nat.mod_lt n (by omega)
      rw [ofDigits_append_singleton, ih _ (Nat.div_lt_self hpos hlow),
        digitValue_digitChar (Nat.lt_of_lt_of_le hmod hhigh), Nat.div_add_mod' n base]

theorem isDigitOf_of_mem_toDigits (hlow : 1 < base) (hhigh : base ≤ 16) {c : Char}
    (h : c ∈ Nat.toDigits base n) : isDigitOf base c := by
  induction n using Nat.strongRecOn with
  | ind n ih =>
    rw [Nat.toDigits_eq_if hlow] at h
    split at h
    · next hlt =>
      rw [List.mem_singleton.mp h, isDigitOf, digitValue_digitChar (by omega)]
      exact decide_eq_true hlt
    · next hle =>
      have hmod : n % base < base := Nat.mod_lt n (by omega)
      rcases List.mem_append.mp h with hc | hc
      · exact ih _ (Nat.div_lt_self (by omega) hlow) hc
      · rw [List.mem_singleton.mp hc, isDigitOf,
          digitValue_digitChar (Nat.lt_of_lt_of_le hmod hhigh)]
        exact decide_eq_true hmod

/-- Zeros at the beginning do not count. -/
theorem ofDigits_replicate_append (base count : Nat) (digits : List Char) :
    ofDigits base (List.replicate count '0' ++ digits) = ofDigits base digits := by
  induction count with
  | zero => rfl
  | succ count ih =>
    rw [← ih, List.replicate_succ, List.cons_append, ofDigits, List.foldl_cons,
      Nat.zero_mul]
    rfl

theorem exists_toDigits_eq_cons (n : Nat) :
    ∃ d rest, Nat.toDigits 10 n = d :: rest ∧ d.isDigit := by
  obtain ⟨d, rest, hdigits⟩ := List.exists_cons_of_ne_nil (Nat.toDigits_ne_nil (n := n) (b := 10))
  exact ⟨d, rest, hdigits, Nat.isDigit_of_mem_toDigits (b := 10) (n := n) (by decide) (by decide)
    (hdigits ▸ List.mem_cons_self)⟩

/-- A number does not begin with a zero, unless it is zero. -/
theorem toDigits_ten_cases (n : Nat) :
    Nat.toDigits 10 n = ['0'] ∨ ∃ d rest, Nat.toDigits 10 n = d :: rest ∧ d ≠ '0' := by
  have hdigit : ∀ n : Fin 10, n ≠ 0 → Nat.digitChar n ≠ '0' := by decide
  induction n using Nat.strongRecOn with
  | ind n ih =>
    rw [Nat.toDigits_eq_if (by decide)]
    split
    · next hlt =>
      by_cases hzero : n = 0
      · exact Or.inl (by rw [hzero]; rfl)
      · exact Or.inr ⟨_, [], rfl, hdigit ⟨n, hlt⟩ (fun e => hzero (congrArg Fin.val e))⟩
    · next hle =>
      refine Or.inr ?_
      rcases ih (n / 10) (by omega) with hzero | ⟨d, rest, hdigits, hd⟩
      · have hvalue : ofDigits 10 (Nat.toDigits 10 (n / 10)) = n / 10 :=
          ofDigits_toDigits (by decide) (by decide) (n / 10)
        rw [hzero] at hvalue
        have : n / 10 = 0 := hvalue.symm
        omega
      · exact ⟨d, rest ++ [Nat.digitChar (n % 10)], by rw [hdigits, List.cons_append], hd⟩

/-! ## Hexadecimal digits of fixed width -/

theorem length_hexDigits {width : Nat} (hwidth : 0 < width) (h : n < 16 ^ width) :
    (Text.hexDigits width n).length = width := by
  have hle : (Nat.toDigits 16 n).length ≤ width :=
    (Nat.length_toDigits_le_iff (by decide) hwidth).mpr h
  rw [Text.hexDigits, List.length_append, List.length_replicate]
  omega

theorem isDigitOf_of_mem_hexDigits {width : Nat} {c : Char} (h : c ∈ Text.hexDigits width n) :
    isDigitOf 16 c := by
  rcases List.mem_append.mp h with hzero | hc
  · rw [(List.mem_replicate.mp hzero).2]
    decide
  · exact isDigitOf_of_mem_toDigits (by decide) (by decide) hc

/-- **Hexadecimal digits are read as the number they were written of**, whatever `width` they were
filled up to with zeros. -/
theorem hexValue?_hexDigits (width n : Nat) : hexValue? (Text.hexDigits width n) = some n := by
  have hdigits : (Text.hexDigits width n).all (isDigitOf 16) :=
    List.all_eq_true.mpr fun c hc => isDigitOf_of_mem_hexDigits hc
  rw [hexValue?, if_pos hdigits, Text.hexDigits, ofDigits_replicate_append,
    ofDigits_toDigits (by decide) (by decide)]

/-- The case of a digit does not count. -/
theorem digitValue_toUpper (c : Char) : digitValue c.toUpper = digitValue c := by
  by_cases hlower : 'a' ≤ c ∧ c ≤ 'z'
  · have hall : ∀ n : Fin 26, digitValue (Char.ofNat (97 + n)).toUpper
        = digitValue (Char.ofNat (97 + n)) := by decide
    have hlow : 97 ≤ c.toNat := hlower.1
    have hhigh : c.toNat ≤ 122 := hlower.2
    have hc : Char.ofNat (97 + (c.toNat - 97)) = c := by
      rw [Nat.add_sub_cancel' hlow, Char.ofNat_toNat]
    have hvalue := hall ⟨c.toNat - 97, by omega⟩
    rwa [hc] at hvalue
  · have hsame : c.toUpper = c := dif_neg hlower
    rw [hsame]

theorem hexValue?_map_toUpper (digits : List Char) :
    hexValue? (digits.map Char.toUpper) = hexValue? digits := by
  have hdigit (c : Char) : isDigitOf 16 c.toUpper = isDigitOf 16 c := by
    rw [isDigitOf, digitValue_toUpper, isDigitOf]
  simp only [hexValue?, ofDigits, List.all_map, List.foldl_map, digitValue_toUpper,
    Function.comp_def, hdigit]

/-! ## Integers -/

/-- An integer is written as its sign and its digits. -/
theorem toList_toString (n : Int) :
    (toString n).toList = (if n < 0 then ['-'] else []) ++ Nat.toDigits 10 n.natAbs := by
  cases n with
  | ofNat m =>
    have hnonneg : ¬ Int.ofNat m < 0 := Int.not_lt.mpr (Int.natCast_nonneg m)
    rw [if_neg hnonneg, List.nil_append]
    show (Nat.repr m).toList = _
    rw [Nat.repr_eq_ofList_toDigits, String.toList_ofList]
    rfl
  | negSucc m =>
    rw [if_pos (Int.negSucc_lt_zero m)]
    have hdigits : (Nat.repr (m + 1)).toList = Nat.toDigits 10 (m + 1) := by
      rw [Nat.repr_eq_ofList_toDigits, String.toList_ofList]
    show ("-" ++ Nat.repr (m + 1)).toList = _
    rw [String.toList_append, hdigits]
    rfl

/-- An integer begins with a minus sign or a digit. -/
theorem exists_toString_eq_cons (n : Int) :
    ∃ c rest, (toString n).toList = c :: rest ∧ (c == '-' || c.isDigit) := by
  obtain ⟨d, more, hdigits, hd⟩ := exists_toDigits_eq_cons n.natAbs
  rw [toList_toString, hdigits]
  split
  · exact ⟨'-', d :: more, rfl, by decide⟩
  · exact ⟨d, more, rfl, by simp [hd]⟩

/-- **An integer is short if it is small enough**, for its digits are counted without the sign.  The
bound `maxIntegerDigits` is the interpreter's own, for reading as for writing. -/
theorem short_iff {n : Int} : Short n ↔ n.natAbs < 10 ^ maxIntegerDigits :=
  Nat.length_toDigits_le_iff (by decide) (by decide)

/-- The powers of ten from `10 ^ maxIntegerDigits` on are not short. -/
theorem not_short_ten_pow {k : Nat} (h : maxIntegerDigits ≤ k) : ¬ Short (10 ^ k) := by
  have hpow : ((10 : Int) ^ k).natAbs = 10 ^ k := Int.natAbs_pow 10 k
  rw [short_iff, hpow, Nat.not_lt]
  exact Nat.pow_le_pow_right (by decide) h

/-- **An integer is read as its sign and its digits.** `Short` is needed in this direction: the
digits of a longer integer are refused. -/
theorem integer_toDigits {n : Int} (h : Short n) :
    integer (decide (n < 0)) (Nat.toDigits 10 n.natAbs) = .ok n := by
  have hdigits : ¬ maxIntegerDigits < (Nat.toDigits 10 n.natAbs).length := Nat.not_lt.mpr h
  rw [integer, if_neg hdigits, ofDigits_toDigits (by decide) (by decide)]
  have hvalue : (if n < 0 then -Int.ofNat n.natAbs else Int.ofNat n.natAbs) = n := by
    split
    · show -(n.natAbs : Int) = n
      omega
    · show (n.natAbs : Int) = n
      omega
  simpa using hvalue

end RuleCatalogue.Decimal
