import RuleCatalogue.Encoding.Codec
import RuleCatalogue.Proofs.Text.Substring

/-!
# Codecs by name, of tables and of host names

Three things that results on reading and writing need to know of codecs.

* **Blanks around a name** do not count (`Codec.ofName?_trimmed`), so a name that settings accept
  after trimming it can be used as it was given.
* **A codec of a table** has one octet for a character.  `TextCodec.ofTable` makes a codec of a
  table and its inverse, and reads back what it writes (`TextCodec.decode_encode_ofTable`).
  Nothing is assumed of the codecs that the surroundings bring along, so results on them say little
  until there are some; `Codecs.arabic` has one, that of ISO 8859-6.
* **The encoder for names of hosts** puts out a text up to its last point and holds the rest back.
  So the octets that are put out are those of the text only where nothing stands behind the last
  point (`HostName.heldBack_eq_nil_iff`, `HostName.octets_of_ascii`).
-/

namespace RuleCatalogue

/-! ## Names -/

/-- A NUL is no blank, so trimming keeps it. -/
theorem hasNull_trimmed (s : String) : hasNull (Text.trimmed s) = hasNull s := by
  refine Bool.eq_iff_iff.mpr ?_
  rw [hasNull, hasNull, List.contains_iff_mem, List.contains_iff_mem, Text.trimmed,
    String.toList_ofList, Text.mem_trim_iff (by decide)]

namespace Codec

/-- Blanks are neither ASCII letters nor digits nor points, so they only part the runs of a name. -/
theorem parts_of_isBlank {c : Char} (h : Text.isBlank c) : !(c.isAlphanum || c == '.') := by
  have hall : ∀ n ∈ Text.blankCodes,
      !((Char.ofNat n).isAlphanum || Char.ofNat n == '.') := by decide
  have hc := hall _ (Text.mem_blankCodes_of_isBlank h)
  rwa [Char.ofNat_toNat] at hc

/-- The plain form of a name does not depend on blanks around it: they add no run. -/
theorem plainName_padded {before after : List Char} (hbefore : ∀ c ∈ before, Text.isBlank c)
    (hafter : ∀ c ∈ after, Text.isBlank c) (name : List Char) :
    plainName (before ++ (name ++ after)) = plainName name := by
  unfold plainName
  dsimp only
  rw [Text.filter_splitWhere_marks_append fun c hc => parts_of_isBlank (hbefore c hc),
    Text.filter_splitWhere_append_marks fun c hc => parts_of_isBlank (hafter c hc)]

/-- **Blanks around a name do not count.** Settings trim the name they check, and the reader looks
up the name as it stands, so the two agree only by this. -/
theorem ofName?_trimmed (name : String) : ofName? (Text.trimmed name) = ofName? name := by
  obtain ⟨before, after, hname, hbefore, hafter⟩ := Text.exists_eq_trim name.toList
  have hplain : plainName (Text.trimmed name).toList = plainName name.toList := by
    rw [Text.trimmed, String.toList_ofList, hname, plainName_padded hbefore hafter, ← hname]
  rw [ofName?, ofName?, hplain]

end Codec

namespace TextCodec

variable [Codecs] {name : String} {encoding : Encoding}

omit [Codecs] in
/-- A name with a NUL in it stands for no encoding. -/
theorem hasNull_of_encoding (h : Encoding.ofName? name = some encoding) : hasNull name = false := by
  unfold Encoding.ofName? at h
  split at h
  · cases h
  · next hnull => exact Bool.eq_false_iff.mpr hnull

/-- The codec of an encoding that is worked out here does not come from the surroundings. -/
theorem ofName_of_encoding (h : Encoding.ofName? name = some encoding) :
    ofName name = .ok (ofEncoding encoding) := by
  unfold Encoding.ofName? at h
  split at h
  · cases h
  · next hnull =>
    split at h
    · next found hcodec =>
      cases h
      rw [ofName, if_neg hnull, hcodec]
    · cases h

end TextCodec

/-! ## Tables -/

namespace TextCodec

section Table

variable (character? : UInt8 → Option Char) (octet? : Char → Option UInt8)

/-- The characters of octets of which the first has this position; places are counted from the
beginning of a piece. -/
def decodeTable (position : Nat) : Octets → Except DecodeFailure (List Char)
  | [] => .ok []
  | octet :: rest =>
      match character? octet with
      | some c => (decodeTable (position + 1) rest).map (c :: ·)
      | none =>
          .error (.undecodable
            { codec := "charmap"
              octets := [octet]
              position := position % Encoding.pieceSize
              reason := DecodeFault.unassigned.message })

/-- The octets of characters of which the first has this position. -/
def encodeTable (position : Nat) : List Char → Except EncodeFailure Octets
  | [] => .ok []
  | c :: rest =>
      match octet? c with
      | some octet => (encodeTable (position + 1) rest).map (octet :: ·)
      | none =>
          .error (.unencodable
            { codec := "charmap"
              characters := c :: rest.takeWhile fun c => (octet? c).isNone
              position
              reason := Encoding.windows1252.lack })

/-- **The codec of a table**, from octets to characters and from characters to octets. -/
def ofTable : TextCodec where
  decode := decodeTable character? 0
  encode text := (encodeTable octet? 0 text).map Encoded.ofWhole

variable {character? octet?}

theorem decodeTable_of_encodeTable
    (h : ∀ c octet, octet? c = some octet → character? octet = some c)
    {text : List Char} {octets : Octets} {position : Nat}
    (hoctets : encodeTable octet? position text = .ok octets) (start : Nat) :
    decodeTable character? start octets = .ok text := by
  induction text generalizing octets position start with
  | nil =>
    cases hoctets
    rfl
  | cons c rest ih =>
    rw [encodeTable] at hoctets
    split at hoctets
    · next octet hoctet =>
      cases hrest : encodeTable octet? (position + 1) rest with
      | error e => simp [hrest, Except.map] at hoctets
      | ok others =>
        rw [hrest] at hoctets
        cases hoctets
        rw [decodeTable, h c octet hoctet]
        dsimp only
        rw [ih hrest (start + 1)]
        rfl
    · cases hoctets

/-- **What the codec of a table writes, it reads back**, if no octet stands for two characters.  The
hypothesis is about single octets; that it carries over to texts is the induction. -/
theorem decode_encode_ofTable (h : ∀ c octet, octet? c = some octet → character? octet = some c)
    {text : List Char} {encoded : Encoded}
    (hencoded : (ofTable character? octet?).encode text = .ok encoded) :
    (ofTable character? octet?).decode encoded.octets = .ok text := by
  have htable : (encodeTable octet? 0 text).map Encoded.ofWhole = .ok encoded := hencoded
  cases hoctets : encodeTable octet? 0 text with
  | error e => simp [hoctets, Except.map] at htable
  | ok octets =>
    rw [hoctets] at htable
    cases htable
    exact decodeTable_of_encodeTable h hoctets 0

end Table

end TextCodec

/-! ### Arabic -/

namespace Arabic

/-- Whether a code point is one of ISO 8859-6 that is the octet itself. -/
def isSame (code : Nat) : Bool :=
  code ≤ 0xA0 || code == 0xA4 || code == 0xAD

/-- Whether an octet is one of an Arabic character. -/
def isArabic (octet : Nat) : Bool :=
  octet == 0xAC || octet == 0xBB || octet == 0xBF || (0xC1 ≤ octet && octet ≤ 0xDA)
    || (0xE0 ≤ octet && octet ≤ 0xF2)

/-- How far the octets of Arabic characters are from their code points. -/
def shift : Nat := 0x560

/-- The character of an octet in ISO 8859-6. -/
def character? (octet : UInt8) : Option Char :=
  if isSame octet.toNat then some (Char.ofNat octet.toNat)
  else if isArabic octet.toNat then some (Char.ofNat (octet.toNat + shift))
  else none

/-- The octet of a character in ISO 8859-6. -/
def octet? (c : Char) : Option UInt8 :=
  if isSame c.toNat then some (UInt8.ofNat c.toNat)
  else if shift ≤ c.toNat && isArabic (c.toNat - shift) then some (UInt8.ofNat (c.toNat - shift))
  else none

/-- The table goes both ways. -/
theorem character?_of_octet? (c : Char) (octet : UInt8) (h : octet? c = some octet) :
    character? octet = some c := by
  unfold octet? at h
  split at h
  · next hsame =>
    have hsmall : c.toNat < 256 := by
      simp only [isSame, Bool.or_eq_true, decide_eq_true_eq, beq_iff_eq] at hsame
      omega
    have hcode : octet.toNat = c.toNat := by
      rw [← Option.some.inj h, UInt8.toNat_ofNat_of_lt' hsmall]
    rw [character?, hcode, if_pos hsame, Char.ofNat_toNat]
  · next hother =>
    split at h
    · next harabic =>
      obtain ⟨hshift, hin⟩ := Bool.and_eq_true_iff.mp harabic
      have hle : shift ≤ c.toNat := of_decide_eq_true hshift
      have hrange : 0xAC ≤ c.toNat - shift ∧ c.toNat - shift ≤ 0xF2
          ∧ c.toNat - shift ≠ 0xAD := by
        simp only [isArabic, Bool.or_eq_true, Bool.and_eq_true, decide_eq_true_eq, beq_iff_eq]
          at hin
        omega
      have hcode : octet.toNat = c.toNat - shift := by
        have hsmall : c.toNat - shift < 256 := by omega
        rw [← Option.some.inj h, UInt8.toNat_ofNat_of_lt' hsmall]
      have hnot : ¬ isSame (c.toNat - shift) := by
        simp only [isSame, Bool.or_eq_true, decide_eq_true_eq, beq_iff_eq]
        omega
      rw [character?, hcode, if_neg hnot, if_pos hin, Nat.sub_add_cancel hle, Char.ofNat_toNat]
    · cases h

end Arabic

/-- **Surroundings with one codec**, that of ISO 8859-6; all others refuse everything. -/
abbrev Codecs.arabic : Codecs where
  codec first :=
    if first = "iso8859_6" then TextCodec.ofTable Arabic.character? Arabic.octet?
    else
      { decode _ := .error (.unplaced "no codec")
        encode _ := .error (.unplaced "no codec") }
  hostLabel _ := .error (.unplaced "no codec")

/-- The codec of ISO 8859-6 reads back what it writes. -/
theorem Arabic.decode_encode {text : List Char} {encoded : Encoded}
    (h : (TextCodec.ofTable character? octet?).encode text = .ok encoded) :
    (TextCodec.ofTable character? octet?).decode encoded.octets = .ok text :=
  TextCodec.decode_encode_ofTable character?_of_octet? h

/-! ## Names of hosts -/

theorem Encoded.whole_eq_octets_iff {encoded : Encoded} :
    encoded.whole = some encoded.octets ↔ encoded.heldBack = some [] := by
  rw [Encoded.whole, Option.map_eq_some_iff]
  constructor
  · rintro ⟨held, hheld, hoctets⟩
    rw [hheld, List.append_right_eq_self.mp hoctets]
  · exact fun hheld => ⟨[], hheld, List.append_nil _⟩

namespace HostName

open Text

variable [Codecs] {text last : List Char} {labels : List (List Char)} {octets : Octets}
  {encoded : Encoded}

/-- **The label behind the last point is held back**, and the others are put out.  `h` cuts the text
at its points, so `last` is what follows the last one, or the whole text where there is none. -/
theorem encode_eq (h : splitWhere isPoint text = labels ++ [last]) :
    encode text = (closedOctets labels).map fun octets => ⟨octets, openOctets last⟩ := by
  unfold encode
  simp only [h, List.dropLast_concat, List.getLast?_concat, Option.bind_some]

theorem labelOctets_of_ascii {label : List Char} (hascii : ∀ c ∈ label, c.toNat < 0x80)
    (h : labelOctets label = .ok octets) : octets = label.map fun c => UInt8.ofNat c.toNat := by
  unfold labelOctets at h
  split at h
  · next hother =>
    obtain ⟨c, hmem, hc⟩ := List.any_eq_true.mp hother
    exact absurd (hascii c hmem) (Nat.not_lt.mpr (of_decide_eq_true hc))
  · split at h
    · cases h
    · exact (Except.ok.inj h).symm

/-- **No label is nothing**: what the surroundings make of a label that is not all ASCII has an
octet, as the prefix of such a label alone has four. -/
def LabelsTaken : Prop :=
  ∀ label octets, Codecs.hostLabel label = .ok octets → octets ≠ []

/-- A label is put out as something; of an all ASCII label this needs nothing of the
surroundings. -/
theorem labelOctets_ne_nil {label : List Char}
    (h : LabelsTaken ∨ ∀ c ∈ label, c.toNat < 0x80) (hne : label ≠ [])
    (hoctets : labelOctets label = .ok octets) : octets ≠ [] := by
  rcases h with htaken | hascii
  · unfold labelOctets at hoctets
    split at hoctets
    · exact htaken label octets hoctets
    · split at hoctets
      · cases hoctets
      · cases hoctets
        simpa using hne
  · rw [labelOctets_of_ascii hascii hoctets]
    simpa using hne

theorem openOctets_eq_nil_iff (h : LabelsTaken ∨ ∀ c ∈ last, c.toNat < 0x80) :
    openOctets last = some [] ↔ last = [] := by
  unfold openOctets
  cases last with
  | nil => simp
  | cons c rest =>
    rw [List.isEmpty_cons, if_neg Bool.false_ne_true]
    cases hlabel : labelOctets (c :: rest) with
    | error e => simp [Except.toOption]
    | ok octets => simpa [Except.toOption] using labelOctets_ne_nil h (by simp) hlabel

omit [Codecs] in
/-- The label behind the last point of a text. -/
theorem exists_lastLabel (text : List Char) :
    ∃ labels last, splitWhere isPoint text = labels ++ [last]
      ∧ (last = [] ↔ text = [] ∨ ∃ c ∈ text.getLast?, isPoint c) := by
  rcases List.eq_nil_or_concat text with rfl | ⟨before, c, rfl⟩
  · exact ⟨[], [], rfl, by simp⟩
  · rw [List.concat_eq_append]
    by_cases hc : isPoint c
    · refine ⟨splitWhere isPoint before, [], ?_, by simp [hc]⟩
      rw [splitWhere_append_mark hc]
      rfl
    · have hnone : ∀ d ∈ [c], isPoint d = false := by simpa using hc
      obtain ⟨labels, last, -, hsplit⟩ := exists_splitWhere_append hnone before
      exact ⟨labels, last ++ [c], hsplit, by simp [hc]⟩

/-- **Nothing is held back** of a text that ends in a point, or of no text at all, and of others
something is.  `hlabels` is about labels that are not all ASCII: that what the surroundings make of
them is not nothing. -/
theorem heldBack_eq_nil_iff (hlabels : LabelsTaken ∨ ∀ c ∈ text, c.toNat < 0x80)
    (h : encode text = .ok encoded) :
    encoded.heldBack = some [] ↔ text = [] ∨ ∃ c ∈ text.getLast?, isPoint c := by
  obtain ⟨labels, last, hsplit, hlast⟩ := exists_lastLabel text
  have hmem : last ∈ splitWhere isPoint text := by
    rw [hsplit]
    exact List.mem_append_right labels (List.mem_singleton_self last)
  have hlastLabel : LabelsTaken ∨ ∀ c ∈ last, c.toNat < 0x80 :=
    hlabels.imp_right fun hascii c hc => hascii c (mem_of_mem_splitWhere hmem hc)
  rw [encode_eq hsplit] at h
  cases hclosed : closedOctets labels with
  | error e =>
    rw [hclosed] at h
    cases h
  | ok octets =>
    rw [hclosed] at h
    cases h
    rw [← hlast]
    exact openOctets_eq_nil_iff hlastLabel

/-- The labels that are put out, each with the point behind it. -/
theorem octets_of_closedOctets (hascii : ∀ label ∈ labels, ∀ c ∈ label, c.toNat < 0x80)
    (h : closedOctets labels = .ok octets) :
    octets = (labels.flatMap (· ++ ['.'])).map fun c => UInt8.ofNat c.toNat := by
  induction labels generalizing octets with
  | nil =>
    cases h
    rfl
  | cons label rest ih =>
    rw [closedOctets] at h
    cases hlabel : labelOctets label with
    | error e => simp [hlabel] at h
    | ok front =>
      cases hrest : closedOctets rest with
      | error e => simp [hlabel, hrest, Except.map] at h
      | ok others =>
        simp only [hlabel, hrest, Except.map, Except.ok.injEq] at h
        have hfront := labelOctets_of_ascii (hascii label List.mem_cons_self) hlabel
        have hothers := ih (fun l hl => hascii l (List.mem_cons_of_mem label hl)) hrest
        rw [← h, hfront, hothers, List.flatMap_cons, List.map_append, List.map_append,
          List.append_assoc]
        rfl

omit [Codecs] in
/-- The labels of a text whose points are full stops. -/
theorem exists_labels_of_ascii (h : ∀ c ∈ text, isPoint c → c = '.') :
    ∃ labels last, splitWhere isPoint text = labels ++ [last]
      ∧ text = labels.flatMap (· ++ ['.']) ++ last := by
  induction text with
  | nil => exact ⟨[], [], rfl, rfl⟩
  | cons c rest ih =>
    obtain ⟨labels, last, hsplit, hrest⟩ := ih fun d hd => h d (List.mem_cons_of_mem c hd)
    rw [splitWhere, hsplit]
    split
    · next hc =>
      refine ⟨[] :: labels, last, rfl, ?_⟩
      rw [h c List.mem_cons_self hc, List.flatMap_cons, List.nil_append, List.append_assoc, ← hrest]
      rfl
    · cases labels with
      | nil => exact ⟨[], c :: last, rfl, congrArg (c :: ·) hrest⟩
      | cons label labels => exact ⟨(c :: label) :: labels, last, rfl, congrArg (c :: ·) hrest⟩

/-- **What is put out of an ASCII text** is the text up to its last point.  The label `last` behind
it is never put out, since the stream does not finalise its encoder. -/
theorem octets_of_ascii (hascii : ∀ c ∈ text, c.toNat < 0x80) (h : encode text = .ok encoded) :
    ∃ front last, text = front ++ last ∧ (front = [] ∨ front.getLast? = some '.')
      ∧ '.' ∉ last ∧ encoded.octets = front.map fun c => UInt8.ofNat c.toNat := by
  have hpoint : ∀ c ∈ text, isPoint c → c = '.' := by
    intro c hmem hc
    have hsmall := hascii c hmem
    simp only [isPoint, Bool.or_eq_true, beq_iff_eq] at hc
    rcases hc with ((hc | rfl) | rfl) | rfl
    · exact hc
    · exact absurd hsmall (by decide)
    · exact absurd hsmall (by decide)
    · exact absurd hsmall (by decide)
  obtain ⟨labels, last, hsplit, htext⟩ := exists_labels_of_ascii hpoint
  rw [encode_eq hsplit] at h
  cases hclosed : closedOctets labels with
  | error e =>
    rw [hclosed] at h
    cases h
  | ok octets =>
    rw [hclosed] at h
    cases h
    have hlabels : ∀ label ∈ labels, ∀ c ∈ label, c.toNat < 0x80 := by
      intro label hlabel c hc
      have hpiece : label ∈ splitWhere isPoint text := by
        rw [hsplit]
        exact List.mem_append_left [last] hlabel
      exact hascii c (mem_of_mem_splitWhere hpiece hc)
    refine ⟨labels.flatMap (· ++ ['.']), last, htext, ?_, ?_,
      octets_of_closedOctets hlabels hclosed⟩
    · rcases List.eq_nil_or_concat labels with rfl | ⟨before, label, rfl⟩
      · exact Or.inl rfl
      · refine Or.inr ?_
        rw [List.concat_eq_append, List.flatMap_append, List.flatMap_singleton,
          ← List.append_assoc, List.getLast?_concat]
    · intro hmem
      have hlast : last ∈ splitWhere isPoint text := by
        rw [hsplit]
        exact List.mem_append_right labels (List.mem_singleton_self last)
      exact nomatch not_of_mem_splitWhere hlast hmem

end HostName

end RuleCatalogue
