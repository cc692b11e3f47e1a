import RuleCatalogue.Encoding.Codec
import RuleCatalogue.Event
import RuleCatalogue.ReadError
import RuleCatalogue.Text.Character

/-!
# The schema of the settings, and their check

Settings are a table of four sections, each a table of fields.  The schema says for each field what
it may hold; the defaults give each field a value that the schema allows.

Every section and field is checked, and all that is wrong is reported together.  What a section
contributes to the report depends on that section alone.

## Main definitions

* `Settings.schema` lists the sections with their fields and rules.
* `Settings.defaults` is the table of the defaults.
* `Settings.check` gives the issues of a value.
* `Settings.normalize` gives the settings with their texts trimmed, if there are no issues.

## Design notes

The issue of settings of another version names that version.  A version with more digits than an
integer may have in a text cannot be named, and then there is no list of issues at all.
-/

/-! ## The schema of the settings -/

namespace RuleCatalogue.Settings

/-- The version of the schema. -/
def schemaVersion : Int := 1

/-- **What a field may hold.** -/
inductive FieldRule
  /-- A text that is not blank. -/
  | text
  /-- Such a text without a NUL. -/
  | path
  /-- The name of a known encoding. -/
  | encoding
  /-- One of these texts. -/
  | choice (options : List String)
  /-- A whole number that is not less than this. -/
  | integer (least : Int)
  /-- A truth value. -/
  | truth
deriving DecidableEq, Repr

/-- **The sections and their fields**, in the order in which they are checked. -/
def schema : List (String × List (String × FieldRule)) :=
  [("meta", [("schema_version", .integer 1)]),
   ("sources",
     [("apt_dir", .path), ("file_prefix", .text), ("encoding", .encoding),
      ("max_workers", .integer 1)]),
   ("output", [("format", .choice (Format.named.map Prod.fst)), ("path", .path)]),
   ("observability",
     [("log_level", .choice (Level.named.map Prod.fst)), ("log_dir", .path),
      ("log_to_console", .truth)])]

/-- How the names of source files begin where the settings do not say. -/
def defaultFileStart : String := "codenarc-rules-"

/-- The directory of logs where the settings do not say. -/
def defaultLogDirectory : String := "logs"

/-- **The defaults.** -/
def defaults : Fields Value :=
  [("meta", .table [("schema_version", .int schemaVersion)]),
   ("sources", .table
     [("apt_dir", .text "src/site/apt"), ("file_prefix", .text defaultFileStart),
      ("encoding", .text "utf-8"), ("max_workers", .int 1)]),
   ("output", .table
     [("format", .text Format.json.name), ("path", .text "target/results/rules.json")]),
   ("observability", .table
     [("log_level", .text Level.info.name), ("log_dir", .text defaultLogDirectory),
      ("log_to_console", .bool false)])]

/-- The fields that hold paths: section and name. -/
def pathFields : List (String × String) :=
  [("sources", "apt_dir"), ("output", "path"), ("observability", "log_dir")]

end RuleCatalogue.Settings

/-! ## Checking settings -/

namespace RuleCatalogue.Settings

/-- **What is wrong with a section or field.**  Kinds are the names of kinds of values. -/
inductive Fault
  | missing
  | unknown
  | notTable (kind : String)
  | notTruth (kind : String)
  | notInteger (kind : String)
  | tooSmall (least : Int)
  | notText (kind : String)
  | blank
  | nullInPath
  | nullInEncoding
  | unknownEncoding (name : String)
  | notAnOption (text : String) (options : List String)
  /-- Settings of another version, with what to do about them. -/
  | otherVersion (advice : String)
deriving DecidableEq, Repr

/-- **What to do about settings of a version**, unless the version has too many digits. -/
def versionAdvice (version : Int) : Except Decimal.OversizedInteger String :=
  if version < schemaVersion then
    (Decimal.integerText version).map fun found =>
      "schema version " ++ found ++ " is older than supported " ++ toString schemaVersion
        ++ "; upgrade codenarc-converter.toml to the current schema"
  else if schemaVersion < version then
    (Decimal.integerText version).map fun found =>
      "schema version " ++ found ++ " is newer than supported " ++ toString schemaVersion
        ++ "; upgrade the codenarc-converter package"
  else .ok "schema version is current"

/-- The wording of a fault. -/
def Fault.message : Fault → String
  | missing => "missing required field"
  | unknown => "unknown field"
  | notTable kind => "expected object, got " ++ kind
  | notTruth kind => "expected boolean, got " ++ kind
  | notInteger kind => "expected integer, got " ++ kind
  | tooSmall least => "must be >= " ++ toString least
  | notText kind => "expected string, got " ++ kind
  | blank => "must not be empty"
  | nullInPath => "must not contain NUL bytes"
  | nullInEncoding => EncodingNameError.nullInName.message
  | unknownEncoding name => "unknown text encoding " ++ Text.quoted name
  | notAnOption text options =>
      "invalid value " ++ Text.quoted text ++ "; expected one of: "
        ++ Text.join ", " (options.mergeSort fun a b => decide (a ≤ b))
  | otherVersion advice => advice

/-- **An issue**: a fault and its place, a section or a section and a field with a point between. -/
structure Issue where
  path : String
  fault : Fault
deriving DecidableEq, Repr

/-- The report on issues that are given by their places and wordings. -/
def issuesText (issues : List (String × String)) : String :=
  let lines := issues.map fun (path, message) => "- " ++ path ++ ": " ++ message
  "invalid config:\n"
    ++ (if lines.isEmpty then "- <root>: unknown validation failure" else Text.join "\n" lines)

/-- The report on issues. -/
def Issue.report (issues : List Issue) : String :=
  issuesText (issues.map fun issue => (issue.path, issue.fault.message))

/-- What is wrong with a trimmed text that is not blank. -/
def textFault? (rule : FieldRule) (text : String) : Option Fault :=
  match rule with
  | .path => if hasNull text then some .nullInPath else none
  | .encoding =>
      if hasNull text then some .nullInEncoding
      else if (Codec.ofName? text).isNone then some (.unknownEncoding text)
      else none
  | .choice options => if options.contains text then none else some (.notAnOption text options)
  | _ => none

/-- **Checks the value of a field** and trims it, if it is a text. -/
def checkValue (rule : FieldRule) (v : Value) : Except Fault Value :=
  match rule, v with
  | .truth, .bool _ => .ok v
  | .truth, _ => .error (.notTruth v.kind)
  | .integer least, .int n => if n < least then .error (.tooSmall least) else .ok v
  | .integer _, _ => .error (.notInteger v.kind)
  | rule, .text s =>
      if Text.isBlankText s then .error .blank
      else
        match textFault? rule (Text.trimmed s) with
        | some fault => .error fault
        | none => .ok (.text (Text.trimmed s))
  | _, _ => .error (.notText v.kind)

/-- Checks a field that may be missing. -/
def checkField (rule : FieldRule) (v : Option Value) : Except Fault Value :=
  match v with
  | none => .error .missing
  | some v => checkValue rule v

/-- The names that a table has beyond known ones, in increasing order. -/
def unknownNames (known : List String) (fields : Fields Value) : List String :=
  (fields.keys.filter fun key => !known.contains key).mergeSort fun a b => decide (a ≤ b)

/-- The issues of the fields of a section. -/
def sectionIssues (name : String) (rules : List (String × FieldRule)) (fields : Fields Value) :
    List Issue :=
  let place (key : String) : String := name ++ "." ++ key
  let unknown := (unknownNames (rules.map Prod.fst) fields).map fun key => ⟨place key, .unknown⟩
  let faulty := rules.filterMap fun (key, rule) =>
    match checkField rule (fields.get? key) with
    | .ok _ => none
    | .error fault => some ⟨place key, fault⟩
  unknown ++ faulty

/-- **The issues of a section** that may be missing. -/
def checkSection (name : String) (rules : List (String × FieldRule)) (v : Option Value) :
    List Issue :=
  match v with
  | none => [⟨name, .missing⟩]
  | some (.table fields) => sectionIssues name rules fields
  | some v => [⟨name, .notTable v.kind⟩]

/-- The version that settings state, if it is one that could be. -/
def statedVersion? (fields : Fields Value) : Option Int :=
  match fields.get? "meta" with
  | some (.table table) =>
      match checkField (.integer 1) (Fields.get? "schema_version" table) with
      | .ok (.int n) => some n
      | _ => none
  | _ => none

/-- The issue of settings of another version. -/
def versionIssues (fields : Fields Value) : Except Decimal.OversizedInteger (List Issue) :=
  match statedVersion? fields with
  | some version =>
      if version = schemaVersion then .ok []
      else
        (versionAdvice version).map fun advice => [⟨"meta.schema_version", .otherVersion advice⟩]
  | none => .ok []

/-- The issues of the sections of a table: first those that are unknown, then section by section. -/
def sectionsIssues (fields : Fields Value) : List Issue :=
  (unknownNames (schema.map Prod.fst) fields).map (fun name => ⟨name, .unknown⟩)
    ++ schema.flatMap (fun (name, rules) => checkSection name rules (fields.get? name))

/-- The issues of a table, those of its sections first and that of its version last. -/
def checkTable (fields : Fields Value) : Except Decimal.OversizedInteger (List Issue) :=
  (versionIssues fields).map (sectionsIssues fields ++ ·)

/-- **All issues of a value**, unless it states a version that cannot be named. -/
def check (v : Value) : Except Decimal.OversizedInteger (List Issue) :=
  match v with
  | .table fields => checkTable fields
  | v => .ok [⟨"<root>", .notTable v.kind⟩]

/-- The fields of a section that are right, trimmed. -/
def normalizeSection (rules : List (String × FieldRule)) (fields : Fields Value) : Fields Value :=
  rules.filterMap fun (key, rule) =>
    match checkField rule (fields.get? key) with
    | .ok v => some (key, v)
    | .error _ => none

/-- The sections that are tables, with their fields that are right. -/
def normalizeTable (fields : Fields Value) : Fields Value :=
  schema.filterMap fun (name, rules) =>
    match fields.get? name with
    | some (.table inner) => some (name, .table (normalizeSection rules inner))
    | _ => none

/-- **Why a value gives no settings.** -/
inductive Rejection
  | issues (l : List Issue)
  /-- The version that the value states cannot be named. -/
  | oversized (e : Decimal.OversizedInteger)
deriving DecidableEq, Repr

/-- **The settings of a value** without issues, their texts trimmed. -/
def normalize (v : Value) : Except Rejection (Fields Value) :=
  match check v, v with
  | .error e, _ => .error (.oversized e)
  | .ok [], .table fields => .ok (normalizeTable fields)
  | .ok issues, _ => .error (.issues issues)

end RuleCatalogue.Settings
