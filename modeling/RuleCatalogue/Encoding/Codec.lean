import RuleCatalogue.Encoding.Basic
import RuleCatalogue.Text.Substring

/-!
# Codecs

A codec is found by its name.  Encodings are named freely: case does not count, nor does what stands
between the letters, digits and points of a name, and most encodings have several names.  A name may
also belong to a conversion that does not yield text at all.

The encoding for the names of hosts takes a text for labels with points between them.  A label is
put out with the point behind it, because it is known to be whole only there; what stands behind the
last point is held back until the text is at its end.

## Main definitions

* `Codec.ofName?` says what a name stands for.
* `TextCodec` is a codec of texts, and `TextCodec.ofName` finds the one with a name.
* `Codecs` are the codecs that the surroundings bring along.

## Design notes

The names of all standard encodings are known here, because settings are checked against them.  Most
of the encodings themselves are tables, and they are taken from the surroundings: `Codecs` has a
codec for each of them, and nothing is assumed of these codecs.
-/

namespace RuleCatalogue

/-! ## Names -/

/-- **What the name of an encoding stands for.** -/
inductive Codec
  /-- An encoding in which files are read and written. -/
  | text (encoding : Encoding)
  /-- The encoding for the names of hosts. -/
  | hostNames
  /-- Another encoding of texts, by its first name. -/
  | otherText (first : String)
  /-- A conversion between octets, or between texts. -/
  | notText
deriving DecidableEq, Repr

namespace Codec

/-- The names of the encodings in which files are read and written. -/
def textNames : List (String × Encoding) :=
  [("utf_8", .utf8), ("utf_8_sig", .markedUtf8), ("utf_16", .utf16 none),
   ("utf_16_le", .utf16 (some .little)), ("utf_16_be", .utf16 (some .big)), ("ascii", .ascii),
   ("latin_1", .latin1), ("iso8859_1", .latin1), ("cp1252", .windows1252)]

/-- The other names of an encoding in which files are read and written. -/
def textAliases : Encoding → List String
  | .utf8 => ["u8", "utf", "utf8", "utf8_ucs2", "utf8_ucs4", "cp65001"]
  | .markedUtf8 => []
  | .utf16 none => ["u16", "utf16"]
  | .utf16 (some .little) => ["unicodelittleunmarked", "utf_16le"]
  | .utf16 (some .big) => ["unicodebigunmarked", "utf_16be"]
  | .ascii =>
      ["646", "ansi_x3.4_1968", "ansi_x3_4_1968", "ansi_x3.4_1986", "cp367", "csascii", "ibm367",
       "iso646_us", "iso_646.irv_1991", "iso_ir_6", "us", "us_ascii"]
  | .latin1 =>
      ["8859", "cp819", "csisolatin1", "ibm819", "iso8859", "iso_8859_1", "iso_8859_1_1987",
       "iso_ir_100", "l1", "latin", "latin1"]
  | .windows1252 => ["1252", "windows_1252"]

/-- The names of conversions that do not yield text. -/
def notTextNames : List String :=
  ["base64_codec", "bz2_codec", "hex_codec", "quopri_codec", "rot_13", "uu_codec", "zlib_codec"]

/-- The other names of conversions that do not yield text. -/
def notTextAliases : List String :=
  ["base64", "base_64", "bz2", "hex", "quopri", "quoted_printable", "quotedprintable", "rot13",
   "uu", "zip", "zlib"]

/-- The name of the encoding for the names of hosts. -/
def hostNamesName : String :=
  "idna"

/-- The other encodings of texts by their first names, each with its other names. -/
def otherNames : List (String × List String) :=
  [("big5", ["big5_tw", "csbig5", "x_mac_trad_chinese"]), ("big5hkscs", ["big5_hkscs", "hkscs"]),
   ("charmap", []),
   ("cp037", ["037", "csibm037", "ebcdic_cp_ca", "ebcdic_cp_nl", "ebcdic_cp_us", "ebcdic_cp_wt",
     "ibm037", "ibm039"]), ("cp1006", []), ("cp1026", ["1026", "csibm1026", "ibm1026"]),
   ("cp1125", ["1125", "ibm1125", "cp866u", "ruscii"]), ("cp1140", ["1140", "ibm1140"]),
   ("cp1250", ["1250", "windows_1250"]), ("cp1251", ["1251", "windows_1251"]),
   ("cp1253", ["1253", "windows_1253"]), ("cp1254", ["1254", "windows_1254"]),
   ("cp1255", ["1255", "windows_1255"]), ("cp1256", ["1256", "windows_1256"]),
   ("cp1257", ["1257", "windows_1257"]), ("cp1258", ["1258", "windows_1258"]),
   ("cp273", ["273", "ibm273", "csibm273"]),
   ("cp424", ["424", "csibm424", "ebcdic_cp_he", "ibm424"]),
   ("cp437", ["437", "cspc8codepage437", "ibm437"]),
   ("cp500", ["500", "csibm500", "ebcdic_cp_be", "ebcdic_cp_ch", "ibm500"]), ("cp720", []),
   ("cp737", []), ("cp775", ["775", "cspc775baltic", "ibm775"]),
   ("cp850", ["850", "cspc850multilingual", "ibm850"]), ("cp852", ["852", "cspcp852", "ibm852"]),
   ("cp855", ["855", "csibm855", "ibm855"]), ("cp856", []),
   ("cp857", ["857", "csibm857", "ibm857"]), ("cp858", ["858", "csibm858", "ibm858"]),
   ("cp860", ["860", "csibm860", "ibm860"]), ("cp861", ["861", "cp_is", "csibm861", "ibm861"]),
   ("cp862", ["862", "cspc862latinhebrew", "ibm862"]), ("cp863", ["863", "csibm863", "ibm863"]),
   ("cp864", ["864", "csibm864", "ibm864"]), ("cp865", ["865", "csibm865", "ibm865"]),
   ("cp866", ["866", "csibm866", "ibm866"]), ("cp869", ["869", "cp_gr", "csibm869", "ibm869"]),
   ("cp874", []), ("cp875", []), ("cp932", ["932", "ms932", "mskanji", "ms_kanji"]),
   ("cp949", ["949", "ms949", "uhc"]), ("cp950", ["950", "ms950"]),
   ("euc_jis_2004", ["jisx0213", "eucjis2004", "euc_jis2004"]), ("euc_jisx0213", ["eucjisx0213"]),
   ("euc_jp", ["eucjp", "ujis", "u_jis"]),
   ("euc_kr", ["euckr", "korean", "ksc5601", "ks_c_5601", "ks_c_5601_1987", "ksx1001", "ks_x_1001",
     "x_mac_korean"]), ("gb18030", ["gb18030_2000"]),
   ("gb2312", ["chinese", "csiso58gb231280", "euc_cn", "euccn", "eucgb2312_cn", "gb2312_1980",
     "gb2312_80", "iso_ir_58", "x_mac_simp_chinese"]), ("gbk", ["936", "cp936", "ms936"]),
   ("hp_roman8", ["roman8", "r8", "cp1051", "ibm1051"]), ("hz", ["hzgb", "hz_gb", "hz_gb_2312"]),
   ("iso2022_jp", ["csiso2022jp", "iso2022jp", "iso_2022_jp"]),
   ("iso2022_jp_1", ["iso2022jp_1", "iso_2022_jp_1"]),
   ("iso2022_jp_2", ["iso2022jp_2", "iso_2022_jp_2"]),
   ("iso2022_jp_2004", ["iso_2022_jp_2004", "iso2022jp_2004"]),
   ("iso2022_jp_3", ["iso2022jp_3", "iso_2022_jp_3"]),
   ("iso2022_jp_ext", ["iso2022jp_ext", "iso_2022_jp_ext"]),
   ("iso2022_kr", ["csiso2022kr", "iso2022kr", "iso_2022_kr"]),
   ("iso8859_10", ["csisolatin6", "iso_8859_10", "iso_8859_10_1992", "iso_ir_157", "l6", "latin6"]),
   ("iso8859_11", ["thai", "iso_8859_11", "iso_8859_11_2001"]),
   ("iso8859_13", ["iso_8859_13", "l7", "latin7"]),
   ("iso8859_14", ["iso_8859_14", "iso_8859_14_1998", "iso_celtic", "iso_ir_199", "l8", "latin8"]),
   ("iso8859_15", ["iso_8859_15", "l9", "latin9"]),
   ("iso8859_16", ["iso_8859_16", "iso_8859_16_2001", "iso_ir_226", "l10", "latin10"]),
   ("iso8859_2", ["csisolatin2", "iso_8859_2", "iso_8859_2_1987", "iso_ir_101", "l2", "latin2"]),
   ("iso8859_3", ["csisolatin3", "iso_8859_3", "iso_8859_3_1988", "iso_ir_109", "l3", "latin3"]),
   ("iso8859_4", ["csisolatin4", "iso_8859_4", "iso_8859_4_1988", "iso_ir_110", "l4", "latin4"]),
   ("iso8859_5", ["csisolatincyrillic", "cyrillic", "iso_8859_5", "iso_8859_5_1988", "iso_ir_144"]),
   ("iso8859_6", ["arabic", "asmo_708", "csisolatinarabic", "ecma_114", "iso_8859_6",
     "iso_8859_6_1987", "iso_ir_127"]),
   ("iso8859_7", ["csisolatingreek", "ecma_118", "elot_928", "greek", "greek8", "iso_8859_7",
     "iso_8859_7_1987", "iso_ir_126"]),
   ("iso8859_8", ["csisolatinhebrew", "hebrew", "iso_8859_8", "iso_8859_8_1988", "iso_ir_138"]),
   ("iso8859_9", ["csisolatin5", "iso_8859_9", "iso_8859_9_1989", "iso_ir_148", "l5", "latin5"]),
   ("johab", ["cp1361", "ms1361"]), ("koi8_r", ["cskoi8r"]), ("koi8_t", []), ("koi8_u", []),
   ("kz1048", ["kz_1048", "rk1048", "strk1048_2002"]), ("mac_arabic", []), ("mac_croatian", []),
   ("mac_cyrillic", ["maccyrillic"]), ("mac_farsi", []), ("mac_greek", ["macgreek"]),
   ("mac_iceland", ["maciceland"]),
   ("mac_latin2", ["maccentraleurope", "mac_centeuro", "maclatin2"]),
   ("mac_roman", ["macintosh", "macroman"]), ("mac_romanian", []), ("mac_turkish", ["macturkish"]),
   ("palmos", []), ("ptcp154", ["csptcp154", "pt154", "cp154", "cyrillic_asian"]), ("punycode", []),
   ("raw_unicode_escape", []),
   ("shift_jis", ["csshiftjis", "shiftjis", "sjis", "s_jis", "x_mac_japanese"]),
   ("shift_jis_2004", ["shiftjis2004", "sjis_2004", "s_jis_2004"]),
   ("shift_jisx0213", ["shiftjisx0213", "sjisx0213", "s_jisx0213"]),
   ("tis_620", ["tis620", "tis_620_0", "tis_620_2529_0", "tis_620_2529_1", "iso_ir_166"]),
   ("undefined", []), ("unicode_escape", []), ("utf_32", ["u32", "utf32"]),
   ("utf_32_be", ["utf_32be"]), ("utf_32_le", ["utf_32le"]),
   ("utf_7", ["u7", "utf7", "unicode_1_1_utf_7"])]

/-- **The plain form of a name**: its runs of ASCII letters, digits and points, in lower case, with
an underscore between neighbours. -/
def plainName (name : List Char) : List Char :=
  let counts (c : Char) : Bool := c.isAlphanum || c == '.'
  let runs := (Text.splitWhere (!counts ·) name).filter (!·.isEmpty)
  (List.intercalate ['_'] runs).map Char.toLower

/-- What a plain name stands for as a first name. -/
def ofFirstName? (plain : String) : Option Codec :=
  match textNames.lookup plain with
  | some encoding => some (.text encoding)
  | none =>
      if notTextNames.contains plain then some .notText
      else if plain = hostNamesName then some .hostNames
      else if (otherNames.map Prod.fst).contains plain then some (.otherText plain)
      else none

/-- What a plain name stands for as another name. -/
def ofAlias? (plain : String) : Option Codec :=
  match (textNames.map Prod.snd).find? fun encoding => (textAliases encoding).contains plain with
  | some encoding => some (.text encoding)
  | none =>
      if notTextAliases.contains plain then some .notText
      else
        (otherNames.find? fun (_, aliases) => aliases.contains plain).map fun (first, _) =>
          .otherText first

/-- **What a name stands for.**  In another name of an encoding, points count as underscores. -/
def ofName? (name : String) : Option Codec :=
  let plain := plainName name.toList
  let spread := plain.map fun c => if c == '.' then '_' else c
  ((ofAlias? (String.ofList plain)).or (ofAlias? (String.ofList spread))).or
    (ofFirstName? (String.ofList plain))

end Codec

/-- **Why a name gives no encoding to read or write in.** -/
inductive EncodingNameError
  /-- The name has a NUL in it. -/
  | nullInName
  | unknown (name : String)
  /-- The name of a conversion that does not yield text. -/
  | notText (name : String)
deriving DecidableEq, Repr

/-- The wording of an error. -/
def EncodingNameError.message : EncodingNameError → String
  | nullInName => "embedded null character"
  | unknown name => "unknown encoding: " ++ name
  | notText name =>
      "'" ++ name ++ "' is not a text encoding; use codecs.open() to handle arbitrary codecs"

/-- Whether a name of an encoding has a NUL in it. -/
def hasNull (s : String) : Bool :=
  s.toList.contains '\x00'

/-- The encoding that a name stands for, if it is one of those worked out here. -/
def Encoding.ofName? (name : String) : Option Encoding :=
  if hasNull name then none
  else
    match Codec.ofName? name with
    | some (.text encoding) => some encoding
    | _ => none

/-! ## Codecs of texts -/

/-- **A codec of texts**: what a stream makes of octets that it reads and of characters that it
writes. -/
structure TextCodec where
  /-- The text of the contents of a file. -/
  decode : Octets → Except DecodeFailure (List Char)
  /-- The octets of a text. -/
  encode : List Char → Except EncodeFailure Encoded

/-- **The codecs that the surroundings bring along.** -/
class Codecs where
  /-- The codec of a first name that is not worked out here. -/
  codec : String → TextCodec
  /-- The octets of a label in the name of a host that is not all ASCII. -/
  hostLabel : List Char → Except EncodeFailure Octets

/-- The codec of an encoding; it holds nothing back. -/
def TextCodec.ofEncoding (encoding : Encoding) : TextCodec where
  decode := encoding.decode
  encode text := ((encoding.encode text).map Encoded.ofWhole).mapError .unencodable

/-! ## Names of hosts -/

namespace HostName

/-- The points between labels: the full stop and those of wide and of half width. -/
def isPoint (c : Char) : Bool :=
  c == '.' || c == '\u3002' || c == '\uFF0E' || c == '\uFF61'

variable [Codecs]

/-- The octets of a label. -/
def labelOctets (label : List Char) : Except EncodeFailure Octets :=
  if label.any fun c => decide (0x80 ≤ c.toNat) then Codecs.hostLabel label
  else if label.isEmpty || decide (64 ≤ label.length) then
    .error (.unplaced "label empty or too long")
  else .ok (label.map fun c => UInt8.ofNat c.toNat)

/-- The octets of labels, each with the point behind it. -/
def closedOctets : List (List Char) → Except EncodeFailure Octets
  | [] => .ok []
  | label :: rest =>
      match labelOctets label with
      | .error e => .error e
      | .ok octets => (closedOctets rest).map fun others => octets ++ 0x2E :: others

/-- What is held back of the label behind the last point. -/
def openOctets (label : List Char) : Option Octets :=
  if label.isEmpty then some [] else (labelOctets label).toOption

/-- **What the encoder gives for a text.** -/
def encode (text : List Char) : Except EncodeFailure Encoded :=
  let labels := Text.splitWhere isPoint text
  (closedOctets labels.dropLast).map fun octets => ⟨octets, labels.getLast?.bind openOctets⟩

end HostName

/-! ## Codecs by name -/

namespace TextCodec

variable [Codecs]

/-- The codec for the names of hosts; reading is left to the surroundings. -/
def hostNames : TextCodec where
  decode := (Codecs.codec Codec.hostNamesName).decode
  encode := HostName.encode

/-- **The codec of texts of a name.** -/
def ofName (name : String) : Except EncodingNameError TextCodec :=
  if hasNull name then .error .nullInName
  else
    match Codec.ofName? name with
    | some (.text encoding) => .ok (ofEncoding encoding)
    | some .hostNames => .ok hostNames
    | some (.otherText first) => .ok (Codecs.codec first)
    | some .notText => .error (.notText name)
    | none => .error (.unknown name)

end TextCodec

end RuleCatalogue
