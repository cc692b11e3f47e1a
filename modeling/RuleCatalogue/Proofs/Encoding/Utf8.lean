import Mathlib.Data.List.Basic
import RuleCatalogue.Encoding.Codec

/-!
# UTF-8 read back

Octets decode to a text if and only if they are the octets of that text
(`Encoding.decode_utf8_eq_ok_iff`), however the octets are cut into pieces.

The octets of a character are described once, by their bounds (`Utf8.Spells`).  That these are the
octets in which the character is written is arithmetic in base 64 (`Utf8.spells_iff`); that the
front of octets is read by these bounds is a matter of its cases.  Everything behind that speaks of
whole characters.

## Main definitions

* `Utf8.Fits` bounds the octet behind the first of several.
* `Utf8.Spells` says that octets are those of a character.

## Design notes

A piece may end inside a character.  The octets at its end are then a proper beginning of those of a
character, which are neither wrong nor complete (`Utf8.front_of_part`), so they wait for the next
piece; and no other octets do.
-/

namespace RuleCatalogue

namespace Utf8

/-! ## The octets of a character -/

/-- A first octet, if so many others follow, may stand before this one. -/
def Fits (first : UInt8) (needed : Nat) (second : UInt8) : Prop :=
  ∃ least greatest, lead? first = some (needed, least, greatest)
    ∧ least ≤ second ∧ second ≤ greatest

/-- **The bounds of the first two octets**: they shut out codes that need fewer octets, surrogates,
and codes that are too large.  Every later octet has the bounds of `isTail` alone. -/
theorem fits_iff {first second : UInt8} {needed : Nat} :
    Fits first needed second
      ↔ (0x80 ≤ second.toNat ∧ second.toNat ≤ 0xBF)
        ∧ (needed = 1 ∧ 0xC2 ≤ first.toNat ∧ first.toNat < 0xE0
          ∨ needed = 2 ∧ 0xE0 ≤ first.toNat ∧ first.toNat < 0xF0
            ∧ (first.toNat = 0xE0 → 0xA0 ≤ second.toNat)
            ∧ (first.toNat = 0xED → second.toNat ≤ 0x9F)
          ∨ needed = 3 ∧ 0xF0 ≤ first.toNat ∧ first.toNat ≤ 0xF4
            ∧ (first.toNat = 0xF0 → 0x90 ≤ second.toNat)
            ∧ (first.toNat = 0xF4 → second.toNat ≤ 0x8F)) := by
  unfold Fits lead?
  simp only [beq_iff_eq, ← UInt8.toNat_inj, UInt8.lt_iff_toNat_lt, UInt8.le_iff_toNat_le,
    UInt8.reduceToNat]
  split_ifs <;> simp <;> omega

/-- A tail octet lies between the two bounds of its range. -/
theorem isTail_iff {octet : UInt8} : isTail octet ↔ 0x80 ≤ octet.toNat ∧ octet.toNat ≤ 0xBF := by
  simp only [isTail, UInt8.le_iff_toNat_le, Bool.and_eq_true, decide_eq_true_eq, UInt8.reduceToNat]

/-- The code that octets make when they go on with another code. -/
def addTails (code : Nat) (tails : Octets) : Nat :=
  tails.foldl (fun code octet => code * 64 + tailBits octet) code

/-- The code of a character of several octets. -/
def codeOf (first second : UInt8) (others : Octets) : Nat :=
  addTails (leadBits (others.length + 1) first * 64 + tailBits second) others

/-- **The octets of a character**: a first one and others. -/
inductive Spells : UInt8 → Octets → Char → Prop
  | one {first : UInt8} {c : Char} (h : first < 0x80) (hcode : Char.ofNat first.toNat = c) :
      Spells first [] c
  | more {first second : UInt8} {others : Octets} {c : Char}
      (h : Fits first (others.length + 1) second) (htails : ∀ octet ∈ others, isTail octet)
      (hcode : Char.ofNat (codeOf first second others) = c) : Spells first (second :: others) c

section Arithmetic

variable {a b c d : UInt8} {n : Nat}

/-- The code that two octets spell: five bits of the first, six of the second. -/
theorem codeOf_two (a b : UInt8) : codeOf a b [] = a.toNat % 32 * 64 + b.toNat % 64 := rfl

/-- The code that three octets spell, six more bits behind. -/
theorem codeOf_three (a b c : UInt8) :
    codeOf a b [c] = (a.toNat % 16 * 64 + b.toNat % 64) * 64 + c.toNat % 64 := rfl

/-- The code that four octets spell, six more bits again. -/
theorem codeOf_four (a b c d : UInt8) :
    codeOf a b [c, d]
      = ((a.toNat % 8 * 64 + b.toNat % 64) * 64 + c.toNat % 64) * 64 + d.toNat % 64 := rfl

/-- A valid code is the code of its character. -/
theorem toNat_ofNat (h : n.isValidChar) : (Char.ofNat n).val.toNat = n := by
  have hchar : Char.ofNat n = Char.ofNatAux n h := dif_pos h
  rw [hchar]
  rfl

/-- An octet is determined by its number. -/
theorem ofNat_eq (h : n = a.toNat) : UInt8.ofNat n = a := by
  rw [h, UInt8.ofNat_toNat]

/-- An octet below the tails encodes the character of its own number. -/
theorem encode_one (h : a < 0x80) : String.utf8EncodeChar (Char.ofNat a.toNat) = [a] := by
  have ha : a.toNat < 0x80 := h
  have hcode : (Char.ofNat a.toNat).val.toNat = a.toNat := toNat_ofNat (Or.inl (by omega))
  rw [String.utf8EncodeChar, hcode, if_pos (by omega), ofNat_eq rfl]

/-- Two octets that fit encode the character they spell. -/
theorem encode_two (h : Fits a 1 b) :
    String.utf8EncodeChar (Char.ofNat (codeOf a b [])) = [a, b] := by
  obtain ⟨hb, ha⟩ := fits_iff.mp h
  have hvalid : (a.toNat % 32 * 64 + b.toNat % 64).isValidChar := Or.inl (by omega)
  rw [codeOf_two, String.utf8EncodeChar, toNat_ofNat hvalid, if_neg (by omega), if_pos (by omega),
    ofNat_eq (a := a) (by omega), ofNat_eq (a := b) (by omega)]

/-- Three octets that fit encode the character they spell; that the second fits the first rules out
overlong forms and surrogates. -/
theorem encode_three (h : Fits a 2 b) (hc : isTail c) :
    String.utf8EncodeChar (Char.ofNat (codeOf a b [c])) = [a, b, c] := by
  obtain ⟨hb, ha⟩ := fits_iff.mp h
  rw [isTail_iff] at hc
  have hvalid : ((a.toNat % 16 * 64 + b.toNat % 64) * 64 + c.toNat % 64).isValidChar := by
    unfold Nat.isValidChar
    omega
  rw [codeOf_three, String.utf8EncodeChar, toNat_ofNat hvalid, if_neg (by omega),
    if_neg (by omega), if_pos (by omega), ofNat_eq (a := a) (by omega),
    ofNat_eq (a := b) (by omega), ofNat_eq (a := c) (by omega)]

/-- Four octets that fit encode the character they spell; that the second fits the first rules out
overlong forms and codes that are too large. -/
theorem encode_four (h : Fits a 3 b) (hc : isTail c) (hd : isTail d) :
    String.utf8EncodeChar (Char.ofNat (codeOf a b [c, d])) = [a, b, c, d] := by
  obtain ⟨hb, ha⟩ := fits_iff.mp h
  rw [isTail_iff] at hc hd
  have hvalid : (((a.toNat % 8 * 64 + b.toNat % 64) * 64 + c.toNat % 64) * 64
      + d.toNat % 64).isValidChar := by
    unfold Nat.isValidChar
    omega
  rw [codeOf_four, String.utf8EncodeChar, toNat_ofNat hvalid, if_neg (by omega),
    if_neg (by omega), if_neg (by omega), ofNat_eq (a := a) (by omega),
    ofNat_eq (a := b) (by omega), ofNat_eq (a := c) (by omega), ofNat_eq (a := d) (by omega)]

/-- The octets of a code that needs two. -/
theorem spells_two {c : Char} (hc : Char.ofNat n = c) (h : 0x80 ≤ n) (h' : n ≤ 0x7FF) :
    Spells (UInt8.ofNat (n / 64 % 32 + 192)) [UInt8.ofNat (n % 64 + 128)] c := by
  refine .more ?_ (by simp) ((congrArg Char.ofNat ?_).trans hc)
  · rw [fits_iff, UInt8.toNat_ofNat', UInt8.toNat_ofNat']
    exact ⟨by omega, Or.inl ⟨rfl, by omega⟩⟩
  · rw [codeOf_two, UInt8.toNat_ofNat', UInt8.toNat_ofNat']
    omega

/-- The octets of a code that needs three. -/
theorem spells_three {c : Char} (hc : Char.ofNat n = c) (h : 0x800 ≤ n) (h' : n ≤ 0xFFFF)
    (hvalid : n.isValidChar) :
    Spells (UInt8.ofNat (n / 4096 % 16 + 224))
      [UInt8.ofNat (n / 64 % 64 + 128), UInt8.ofNat (n % 64 + 128)] c := by
  unfold Nat.isValidChar at hvalid
  refine .more ?_ ?_ ((congrArg Char.ofNat ?_).trans hc)
  · rw [fits_iff, UInt8.toNat_ofNat', UInt8.toNat_ofNat']
    exact ⟨by omega, Or.inr (Or.inl ⟨rfl, by omega⟩)⟩
  · simp only [List.mem_singleton, forall_eq, isTail_iff, UInt8.toNat_ofNat']
    omega
  · rw [codeOf_three, UInt8.toNat_ofNat', UInt8.toNat_ofNat', UInt8.toNat_ofNat']
    omega

/-- The octets of a code that needs four. -/
theorem spells_four {c : Char} (hc : Char.ofNat n = c) (h : 0x10000 ≤ n) (h' : n ≤ 0x10FFFF) :
    Spells (UInt8.ofNat (n / 262144 % 8 + 240))
      [UInt8.ofNat (n / 4096 % 64 + 128), UInt8.ofNat (n / 64 % 64 + 128),
        UInt8.ofNat (n % 64 + 128)] c := by
  refine .more ?_ ?_ ((congrArg Char.ofNat ?_).trans hc)
  · rw [fits_iff, UInt8.toNat_ofNat', UInt8.toNat_ofNat']
    exact ⟨by omega, Or.inr (Or.inr ⟨rfl, by omega⟩)⟩
  · simp only [List.mem_cons, List.not_mem_nil, or_false, forall_eq_or_imp, forall_eq, isTail_iff,
      UInt8.toNat_ofNat']
    omega
  · rw [codeOf_four, UInt8.toNat_ofNat', UInt8.toNat_ofNat', UInt8.toNat_ofNat',
      UInt8.toNat_ofNat']
    omega

end Arithmetic

/-- Every character is spelt by what encodes it: a first octet and its tails. -/
theorem exists_spells (c : Char) :
    ∃ first tails, String.utf8EncodeChar c = first :: tails ∧ Spells first tails c := by
  have hvalid : c.val.toNat.isValidChar := c.valid
  have hbound : c.val.toNat ≤ 0x10FFFF := by
    unfold Nat.isValidChar at hvalid
    omega
  have hchar : Char.ofNat c.val.toNat = c := Char.ofNat_toNat c
  unfold String.utf8EncodeChar
  dsimp only
  split
  · next h =>
    have hoctet : (UInt8.ofNat c.val.toNat).toNat = c.val.toNat := by
      rw [UInt8.toNat_ofNat']
      omega
    have hfirst : (UInt8.ofNat c.val.toNat).toNat < 0x80 := by omega
    exact ⟨_, _, rfl, .one hfirst (hoctet.symm ▸ hchar)⟩
  split
  · exact ⟨_, _, rfl, spells_two hchar (by omega) (by omega)⟩
  split
  · exact ⟨_, _, rfl, spells_three hchar (by omega) (by omega) hvalid⟩
  · exact ⟨_, _, rfl, spells_four hchar (by omega) hbound⟩

/-- **A character is written as the octets that spell it.** `Spells` is by the number of tails, and
the library's `String.utf8EncodeChar` by the size of the code; the rest of the module uses the
first. -/
theorem spells_iff {first : UInt8} {tails : Octets} {c : Char} :
    Spells first tails c ↔ String.utf8EncodeChar c = first :: tails := by
  constructor
  · intro h
    cases h with
    | one h hcode => rw [← hcode, encode_one h]
    | @more second others _ h htails hcode =>
      rw [← hcode]
      -- The bounds of the first octet leave room for up to two octets behind the second.
      match others, h, htails with
      | [], h, _ => exact encode_two h
      | [_], h, htails => exact encode_three h (htails _ (by simp))
      | [_, _], h, htails => exact encode_four h (htails _ (by simp)) (htails _ (by simp))
      | _ :: _ :: _ :: _, h, _ =>
        have hbounds := fits_iff.mp h
        simp only [List.length_cons] at hbounds
        omega
  · intro h
    obtain ⟨first', tails', heq, hspells⟩ := exists_spells c
    rw [h] at heq
    cases heq
    exact hspells

/-! ## The front of octets -/

section TakeTails

variable {length code needed : Nat} {tails : Octets}

/-- The tails are taken together with what they spell, and what follows is left. -/
theorem takeTails_append (h : ∀ octet ∈ tails, isTail octet) (rest : Octets) :
    takeTails length code tails.length (tails ++ rest)
      = .char (Char.ofNat (addTails code tails)) (length + tails.length - 1) := by
  induction tails generalizing length code with
  | nil => rfl
  | cons octet tails ih =>
    obtain ⟨hoctet, htails⟩ := List.forall_mem_cons.mp h
    rw [List.cons_append, List.length_cons, takeTails, if_pos hoctet, ih htails,
      Nat.succ_add_eq_add_succ]
    rfl

/-- Too few octets are not wrong. -/
theorem takeTails_of_short (h : ∀ octet ∈ tails, isTail octet) (hshort : tails.length < needed) :
    takeTails length code needed tails = .incomplete (length + tails.length) .unexpectedEnd := by
  induction tails generalizing length code needed with
  | nil =>
    obtain ⟨n, rfl⟩ := Nat.exists_eq_add_of_lt hshort
    rfl
  | cons octet tails ih =>
    obtain ⟨hoctet, htails⟩ := List.forall_mem_cons.mp h
    cases needed with
    | zero => simp at hshort
    | succ needed =>
      rw [takeTails, if_pos hoctet, ih htails (by simpa using hshort), List.length_cons,
        Nat.succ_add_eq_add_succ]

/-- **A character is found only behind as many tails as its first octet asks for.** -/
theorem exists_of_takeTails {octets : Octets} {c : Char} {more : Nat}
    (h : takeTails length code needed octets = .char c more) :
    ∃ tails rest, octets = tails ++ rest ∧ tails.length = needed ∧ (∀ octet ∈ tails, isTail octet)
      ∧ Char.ofNat (addTails code tails) = c ∧ more = length + needed - 1 := by
  induction needed generalizing length code octets with
  | zero =>
    cases h
    exact ⟨[], octets, rfl, rfl, by simp, rfl, rfl⟩
  | succ needed ih =>
    cases octets with
    | nil => cases h
    | cons octet octets =>
      rw [takeTails] at h
      split at h
      · next hoctet =>
        obtain ⟨tails, rest, rfl, hlength, htails, hcode, rfl⟩ := ih h
        exact ⟨octet :: tails, rest, rfl, by rw [List.length_cons, hlength],
          List.forall_mem_cons.mpr ⟨hoctet, htails⟩, hcode, by omega⟩
      · cases h

end TakeTails

variable {first second : UInt8} {tails : Octets} {c : Char}

/-- A first octet that a second one fits stands for no character alone. -/
theorem not_lt_of_fits {needed : Nat} (h : Fits first needed second) : ¬ first < 0x80 := by
  have hbounds := fits_iff.mp h
  show ¬ first.toNat < 0x80
  omega

/-- Behind a first and a second octet that fit, what is left is to take the remaining tails. -/
theorem front_of_fits {needed : Nat} (h : Fits first needed second) (others : Octets) :
    front first (second :: others)
      = takeTails 2 (leadBits needed first * 64 + tailBits second) (needed - 1) others := by
  obtain ⟨least, greatest, hlead, hleast, hgreatest⟩ := id h
  simp only [front, if_neg (not_lt_of_fits h), hlead, hleast, hgreatest, decide_true, Bool.and_self,
    if_true]

/-- **The octets of a character are read as the character**, whatever follows: the decoder never
looks past the tails that the first octet asks for. -/
theorem front_of_spells (h : Spells first tails c) (rest : Octets) :
    front first (tails ++ rest) = .char c tails.length := by
  cases h with
  | one h hcode => rw [front, if_pos h, hcode, List.length_nil]
  | more h htails hcode =>
    rw [List.cons_append, front_of_fits h, Nat.add_sub_cancel, takeTails_append htails]
    rw [← hcode, codeOf, List.length_cons]
    congr 1
    omega

/-- **Nothing else is read as a character**: with `front_of_spells`, the decoder's step finds a
character exactly where one is spelled. -/
theorem exists_spells_of_front {rest : Octets} {more : Nat} (h : front first rest = .char c more) :
    ∃ tails others, rest = tails ++ others ∧ tails.length = more ∧ Spells first tails c := by
  unfold front at h
  split at h
  · next hfirst =>
    cases h
    exact ⟨[], rest, rfl, rfl, .one hfirst rfl⟩
  split at h
  · cases h
  · next needed least greatest hlead =>
    cases rest with
    | nil => cases h
    | cons second others =>
      dsimp only at h
      split at h
      · next hsecond =>
        simp only [Bool.and_eq_true, decide_eq_true_eq] at hsecond
        have hfits : Fits first needed second := ⟨least, greatest, hlead, hsecond⟩
        have hneeded : needed = needed - 1 + 1 := by
          have hbounds := fits_iff.mp hfits
          omega
        obtain ⟨tails, others', rfl, hlength, htails, hcode, rfl⟩ := exists_of_takeTails h
        rw [hneeded, ← hlength] at hfits
        rw [hneeded, ← hlength] at hcode
        refine ⟨second :: tails, others', rfl, ?_, .more hfits htails hcode⟩
        rw [List.length_cons, hlength]
        omega
      · split at h <;> cases h

/-- **A beginning of the octets of a character is incomplete**, neither a character nor wrong.  This
is the case that a cut between two pieces of a file makes, and why `left` may be carried over. -/
theorem front_of_part {part : Octets} (h : Spells first tails c) (hpart : part <+: tails)
    (hshort : part.length < tails.length) :
    ∃ length fault, front first part = .incomplete length fault := by
  cases h with
  | one h hcode => simp at hshort
  | @more second others _ h htails hcode =>
    cases part with
    | nil =>
      obtain ⟨least, greatest, hlead, -⟩ := id h
      refine ⟨1, .unexpectedEnd, ?_⟩
      simp only [front, if_neg (not_lt_of_fits h), hlead]
    | cons octet part =>
      obtain ⟨rfl, hothers⟩ := List.cons_prefix_cons.mp hpart
      have hmore : part.length < others.length := by simpa using hshort
      have hkept : ∀ octet ∈ part, isTail octet := fun octet hmem =>
        htails octet (hothers.subset hmem)
      rw [front_of_fits h, Nat.add_sub_cancel]
      exact ⟨_, _, takeTails_of_short hkept hmore⟩

end Utf8

/-! ## Octets in pieces -/

namespace Encoding

/-- **The octets of a text** in UTF-8. -/
def utf8Octets (text : List Char) : Octets :=
  text.flatMap String.utf8EncodeChar

/-- The octets of a text, character by character. -/
@[simp] theorem utf8Octets_cons (c : Char) (text : List Char) :
    utf8Octets (c :: text) = String.utf8EncodeChar c ++ utf8Octets text :=
  List.flatMap_cons

/-- The octets of two texts, one after the other. -/
@[simp] theorem utf8Octets_append (front back : List Char) :
    utf8Octets (front ++ back) = utf8Octets front ++ utf8Octets back :=
  List.flatMap_append

/-- No character is encoded by nothing. -/
theorem utf8Octets_eq_nil_iff {text : List Char} : utf8Octets text = [] ↔ text = [] := by
  cases text with
  | nil => exact iff_of_true rfl rfl
  | cons c text => simp [String.utf8EncodeChar_ne_nil]

/-- The octets are those of the library's own encoding. -/
theorem toList_toUTF8 (text : String) : text.toUTF8.data.toList = utf8Octets text.toList := by
  rw [String.toUTF8, ← String.ofList_toList (s := text), String.toByteArray_ofList,
    List.utf8Encode, List.toList_data_toByteArray, String.ofList_toList, utf8Octets]

/-- **What is decoded was written**, and what is left behind it waits for more.  At the end of the
file, where `isLast` holds, nothing may wait. -/
theorem octets_of_decodeFrom {isLast : Bool} {position : Nat} {octets left : Octets}
    {text : List Char} (h : utf8.decodeFrom isLast position octets = .ok (text, left)) :
    octets = utf8Octets text ++ left ∧ (isLast → left = []) := by
  fun_induction utf8.decodeFrom isLast position octets generalizing text with
  | case1 position =>
    cases h
    exact ⟨rfl, fun _ => rfl⟩
  | case2 position first rest c more hfront cs left' hdecoded ih =>
    cases h
    obtain ⟨tails, others, rfl, rfl, hspells⟩ := Utf8.exists_spells_of_front hfront
    rw [List.drop_left] at ih hdecoded
    obtain ⟨hothers, hlast⟩ := ih hdecoded
    refine ⟨?_, hlast⟩
    rw [utf8Octets_cons, Utf8.spells_iff.mp hspells, List.append_assoc, ← hothers, List.cons_append]
  | case3 => cases h
  | case4 => cases h
  | case5 position first rest length fault hfront hnotLast =>
    cases h
    exact ⟨rfl, fun hlast => absurd hlast hnotLast⟩
  | case6 => cases h

/-- Octets that may go on to a text are decoded, up to a character that they break off. -/
theorem exists_decodeFrom (isLast : Bool) {octets more : Octets} {text : List Char}
    (h : octets ++ more = utf8Octets text) (hlast : isLast → more = []) (position : Nat) :
    ∃ front back left, text = front ++ back ∧ left ++ more = utf8Octets back
      ∧ utf8.decodeFrom isLast position octets = .ok (front, left) := by
  induction text generalizing octets position with
  | nil =>
    obtain ⟨rfl, rfl⟩ := List.append_eq_nil_iff.mp h
    exact ⟨[], [], [], rfl, rfl, by rw [decodeFrom]⟩
  | cons c text ih =>
    obtain ⟨first, tails, hoctets, hspells⟩ := Utf8.exists_spells c
    cases octets with
    | nil => exact ⟨[], c :: text, [], rfl, h, by rw [decodeFrom]⟩
    | cons octet rest =>
      rw [utf8Octets_cons, hoctets, List.cons_append, List.cons_append, List.cons.injEq] at h
      obtain ⟨rfl, h⟩ := h
      have htails : tails <+: rest ++ more := h ▸ List.prefix_append tails _
      rcases Nat.lt_or_ge rest.length tails.length with hshort | hlong
      · -- The octets end inside the character.
        have hpart : rest <+: tails :=
          List.prefix_of_prefix_length_le (List.prefix_append rest more) htails
            (Nat.le_of_lt hshort)
        obtain ⟨length, fault, hfront⟩ := Utf8.front_of_part hspells hpart hshort
        have hnotLast : ¬ isLast := by
          intro hisLast
          rw [hlast hisLast, List.append_nil] at h
          have hlength := congrArg List.length h
          rw [List.length_append] at hlength
          omega
        refine ⟨[], c :: text, octet :: rest, rfl, ?_, ?_⟩
        · rw [utf8Octets_cons, hoctets, List.cons_append, List.cons_append, h]
        · have hfront' : utf8.front octet rest = .incomplete length fault := hfront
          rw [decodeFrom, hfront']
          exact if_neg hnotLast
      · obtain ⟨others, rfl⟩ :=
          List.prefix_of_prefix_length_le htails (List.prefix_append rest more) hlong
        rw [List.append_assoc, List.append_cancel_left_eq] at h
        obtain ⟨front, back, left, rfl, hleft, hdecoded⟩ := ih h (position + tails.length + 1)
        have hfront : utf8.front octet (tails ++ others) = .char c tails.length :=
          Utf8.front_of_spells hspells others
        refine ⟨c :: front, back, left, rfl, hleft, ?_⟩
        rw [decodeFrom, hfront]
        simp only [List.drop_left, hdecoded]

/-- At the end of the file the decoder is told that no more follows, and refuses octets it held
back. -/
theorem decodePieces_utf8_nil {left : Octets} {text : List Char} :
    utf8.decodePieces left [] = .ok text
      ↔ ∃ rest, utf8.decodeFrom true 0 left = .ok (text, rest) := by
  rw [decodePieces, if_pos rfl]
  show (plainPiece utf8 true 0 left).map Piece.characters = _ ↔ _
  unfold plainPiece
  cases hdecoded : utf8.decodeFrom true 0 left with
  | error e => simp [Except.map]
  | ok found => simp [Except.map, Prod.ext_iff]

/-- Before the end the decoder may hold octets back, and the next piece is decoded behind them. -/
theorem decodePieces_utf8_of_ne_nil {left octets : Octets} {text : List Char} (h : octets ≠ []) :
    utf8.decodePieces left octets = .ok text
      ↔ ∃ front back rest, text = front ++ back
        ∧ utf8.decodeFrom false 0 (left ++ octets.take pieceSize) = .ok (front, rest)
        ∧ utf8.decodePieces rest (octets.drop pieceSize) = .ok back := by
  rw [decodePieces, if_neg h]
  have hpiece : utf8.decodePiece false (left ++ octets.take pieceSize)
      = plainPiece utf8 false 0 (left ++ octets.take pieceSize) := rfl
  rw [hpiece, plainPiece]
  cases hdecoded : utf8.decodeFrom false 0 (left ++ octets.take pieceSize) with
  | error e => simp
  | ok found =>
    obtain ⟨front, rest⟩ := found
    dsimp only
    cases hrest : utf8.decodePieces rest (octets.drop pieceSize) with
    | error e => simp [hrest]
    | ok back => simp [hrest, eq_comm]

/-- **Octets in pieces decode to the text that they were written from**, wherever they are cut.  The
induction is on the octets not yet read, with what the decoder holds back as `left`. -/
theorem decodePieces_utf8_eq_ok_iff {left octets : Octets} {text : List Char} :
    utf8.decodePieces left octets = .ok text ↔ left ++ octets = utf8Octets text := by
  induction hlength : octets.length using Nat.strongRecOn generalizing left octets text with
  | _ n ih =>
    by_cases hnil : octets = []
    · subst hnil
      rw [decodePieces_utf8_nil, List.append_nil]
      constructor
      · rintro ⟨rest, hdecoded⟩
        obtain ⟨hleft, hlast⟩ := octets_of_decodeFrom hdecoded
        rw [hleft, hlast rfl, List.append_nil]
      · intro h
        have hwhole : left ++ [] = utf8Octets text := by rw [List.append_nil, h]
        obtain ⟨front, back, rest, rfl, hrest, hdecoded⟩ :=
          exists_decodeFrom true hwhole (fun _ => rfl) 0
        -- Nothing is left at the end, so nothing is missing of the text.
        obtain ⟨-, hlast⟩ := octets_of_decodeFrom hdecoded
        rw [hlast rfl] at hrest
        obtain rfl : back = [] := utf8Octets_eq_nil_iff.mp hrest.symm
        exact ⟨rest, by rw [List.append_nil, hdecoded]⟩
    · have hshorter : (octets.drop pieceSize).length < n := by
        have hpos : 0 < octets.length := List.length_pos_iff.mpr hnil
        rw [List.length_drop, pieceSize]
        omega
      have hcut : left ++ octets = (left ++ octets.take pieceSize) ++ octets.drop pieceSize := by
        rw [List.append_assoc, List.take_append_drop]
      rw [decodePieces_utf8_of_ne_nil hnil, hcut]
      constructor
      · rintro ⟨front, back, rest, rfl, hdecoded, hback⟩
        obtain ⟨hfront, -⟩ := octets_of_decodeFrom hdecoded
        rw [hfront, List.append_assoc, (ih _ hshorter rfl).mp hback, utf8Octets_append]
      · intro h
        obtain ⟨front, back, rest, rfl, hrest, hdecoded⟩ :=
          exists_decodeFrom false h (by simp) 0
        exact ⟨front, back, rest, rfl, hdecoded, (ih _ hshorter rfl).mpr hrest⟩

/-- **UTF-8 is decoded exactly**: a text comes out if and only if its own octets went in, so
decoding is injective and refuses everything else. -/
theorem decode_utf8_eq_ok_iff {octets : Octets} {text : List Char} :
    utf8.decode octets = .ok text ↔ octets = utf8Octets text :=
  decodePieces_utf8_eq_ok_iff

/-- **Octets are UTF-8 if and only if they decode**, by the library's own notion of validity. -/
theorem isValidUTF8_iff {octets : Octets} :
    octets.toByteArray.IsValidUTF8 ↔ ∃ text, utf8.decode octets = .ok text := by
  simp only [decode_utf8_eq_ok_iff]
  constructor
  · rintro ⟨text, h⟩
    have hoctets : octets.toByteArray.data.toList = text.utf8Encode.data.toList :=
      congrArg (fun array => array.data.toList) h
    rw [List.utf8Encode, List.toList_data_toByteArray, List.toList_data_toByteArray] at hoctets
    exact ⟨text, hoctets⟩
  · rintro ⟨text, rfl⟩
    exact ⟨text, rfl⟩

end Encoding

end RuleCatalogue
