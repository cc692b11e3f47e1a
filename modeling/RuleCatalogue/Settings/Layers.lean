import RuleCatalogue.Decimal
import RuleCatalogue.Encoding.Codec
import RuleCatalogue.Environment
import RuleCatalogue.Json
import RuleCatalogue.Settings.Validation
import RuleCatalogue.Toml.Reader
import RuleCatalogue.Value

/-!
# Layers of settings

A table laid over another one replaces its values field by field: where both hold tables these are
laid over each other, and everything else is replaced as a whole.  Fields keep their places, and new
ones follow in their own order.

Settings come in four layers: the defaults, the settings file, the variables of the environment and
the options of the command line.  Each layer is laid over the ones before it; then paths are made
absolute, and the whole is checked.  What a run takes from settings that have been checked is a
record of its own (`RunSettings`).

## Main definitions

* `Settings.fileLayer`, `variableLayer` and `optionLayer` read the layers.
* `Settings.absolutePaths` makes paths absolute.
* `Settings.load` does everything but the reading of the file.
-/

/-! ## Overlays -/

namespace RuleCatalogue.Settings

/-- The fields of a value that is a table, and none otherwise. -/
def tableFields : Value → Fields Value
  | .table fields => fields
  | _ => []

mutual

/-- A value laid over what was there before. -/
def overlayValue (before : Option Value) : Value → Value
  | .table fields => .table (overlay ((before.map tableFields).getD []) fields)
  | v => v

/-- **Fields laid over a table.** -/
def overlay (base : Fields Value) : List (String × Value) → Fields Value
  | [] => base
  | (key, v) :: rest => overlay (Fields.insert key (overlayValue (base.get? key) v) base) rest

end

end RuleCatalogue.Settings

/-! ## The layers and their order -/

namespace RuleCatalogue.Settings

/-- **Why there are no settings.** -/
inductive Failure
  | fileNotFound (path : Path)
  /-- The settings file is no TOML. -/
  | malformedFile (path : Path)
  | unreadableFile (path : Path) (e : FileError)
  /-- A variable should be one of the words for a truth value. -/
  | notTruthWord (origin text : String)
  /-- A variable should be a whole number. -/
  | notWholeNumber (origin text : String)
  /-- An option does not name a section and a field. -/
  | badOptionKey (key : String)
  | invalid (issues : List Issue)
  /-- The version that the settings state has too many digits to be named. -/
  | oversizedVersion (e : Decimal.OversizedInteger)
  /-- The settings file is no text. -/
  | undecodableFile (e : DecodeError)
  /-- The settings file has a well-placed scalar without a value. -/
  | badScalar (e : ReadError)
  /-- A home directory is not known. -/
  | home (e : HomeError)
  /-- The path of the settings file has a NUL in it. -/
  | path (e : FileError)

namespace Failure

/-- The wording of a failure. -/
def message : Failure → String
  | fileNotFound file => "config file not found: " ++ file.text
  | malformedFile file => "invalid TOML in " ++ file.text
  | unreadableFile file e => "unable to read config file " ++ file.text ++ ": " ++ e.message
  | notTruthWord origin text =>
      origin ++ " must be a boolean (true/false/yes/no/on/off/1/0), got " ++ Text.quoted text
  | notWholeNumber origin text => origin ++ " must be an integer, got " ++ Text.quoted text
  | badOptionKey key =>
      "invalid CLI override key " ++ Text.quoted key ++ "; expected <section>.<key>"
  | invalid issues => Issue.report issues
  | oversizedVersion e => e.message
  | undecodableFile e => e.message
  | badScalar e => e.message
  | home e => e.message
  | path e => e.message

/-- Whether a failure is reported as a mistake in the settings; the others are not foreseen. -/
def isForeseen : Failure → Bool
  | oversizedVersion _ => false
  | undecodableFile _ => false
  | badScalar _ => false
  | home _ => false
  | path _ => false
  | _ => true

/-- The failure of settings that are rejected. -/
def ofRejection : Rejection → Failure
  | .issues l => invalid l
  | .oversized e => oversizedVersion e

end Failure

/-- The name of the settings file where none is given. -/
def defaultFile : String := "codenarc-converter.toml"

/-- **The path of the settings file**: the one that is given, or the one in the working
directory. -/
def filePath (environment : Environment) (workingDirectory : Path) (given : Option String) :
    Except Failure Path :=
  match given with
  | none => .ok ((Path.ofText defaultFile).absolute workingDirectory)
  | some s =>
      match environment.expandHome (Path.ofText s) with
      | .error e => .error (.home e)
      | .ok p =>
          if p.hasNull then .error (.path (.nullInPath (some "lstat")))
          else .ok (p.absolute workingDirectory)

/-- **The layer of the settings file**, from what opening it gave.  Only a file that was asked for
has to be there. -/
def fileLayer (path : Path) (isRequired : Bool) (contents : Except FileError Octets) :
    Except Failure (Fields Value) :=
  match contents with
  | .error (.refused .noSuchFile _ _) => if isRequired then .error (.fileNotFound path) else .ok []
  | .error e => .error (.unreadableFile path e)
  | .ok octets =>
      match Encoding.utf8.decodeAll octets with
      | .error e => .error (.undecodableFile e)
      | .ok text =>
          match Toml.parse (String.ofList text) with
          | .ok v => .ok (tableFields v)
          | .error (.malformed _) => .error (.malformedFile path)
          | .error e => .error (.badScalar e)

/-- The variable that sets a field. -/
def variableName (name key : String) : String :=
  ("codenarc_" ++ name ++ "_" ++ key).map Char.toUpper

/-- **The fields that variables set**, by the names of the variables: all but the version. -/
def variableFields : List (String × String × String × FieldRule) :=
  let named := schema.flatMap fun (name, rules) =>
    if name = "meta" then []
    else rules.map fun (key, rule) => (variableName name key, name, key, rule)
  named.mergeSort fun a b => decide (a.1 ≤ b.1)

/-- The truth value of a word, in letters of either case; no other letters have these as their
small ones. -/
def truthOfWord? (word : String) : Option Bool :=
  let small := word.map Char.toLower
  if ["1", "true", "yes", "on"].contains small then some true
  else if ["0", "false", "no", "off"].contains small then some false
  else none

/-- **The value of a variable**, as its field needs it. -/
def variableValue (origin : String) (rule : FieldRule) (raw : String) : Except Failure Value :=
  let text := Text.trimmed raw
  match rule with
  | .truth =>
      match truthOfWord? text with
      | some b => .ok (.bool b)
      | none => .error (.notTruthWord origin text)
  | .integer _ =>
      match Decimal.parseInteger 10 text with
      | .ok n => .ok (.int n)
      | .error _ => .error (.notWholeNumber origin text)
  | _ => .ok (.text text)

/-- A layer with one more field. -/
def withField (layer : Fields Value) (name key : String) (v : Value) : Fields Value :=
  overlay layer [(name, .table [(key, v)])]

/-- **The layer of the environment.** -/
def variableLayer (environment : Fields String) : Except Failure (Fields Value) :=
  variableFields.foldlM
    (fun layer (origin, name, key, rule) =>
      match environment.get? origin with
      | none => .ok layer
      | some raw => (variableValue origin rule raw).map (withField layer name key))
    []

/-- The section and the field of an option: two names with a point between. -/
def splitKey? (key : String) : Option (String × String) :=
  match Text.splitWhere (· == '.') key.toList with
  | [name, field] =>
      if name.isEmpty || field.isEmpty then none
      else some (String.ofList name, String.ofList field)
  | _ => none

/-- **The layer of the command line**; options without a value do not count. -/
def optionLayer (options : Fields Value) : Except Failure (Fields Value) :=
  options.sorted.foldlM
    (fun layer (key, v) =>
      match v, splitKey? key with
      | .null, _ => .ok layer
      | _, none => .error (.badOptionKey key)
      | v, some (name, field) => .ok (withField layer name field v))
    []

/-- A path of the settings, seen from a directory, without variables, tilde and double points. -/
def absolutePath (environment : Environment) (base : Path) (raw : String) :
    Except HomeError String :=
  (environment.expandHome (Path.ofText (environment.expand raw))).map fun p =>
    (p.within base).resolved.text

/-- Makes a path field absolute, if it is there and a text. -/
def absoluteField (environment : Environment) (base : Path) (config : Fields Value)
    (place : String × String) : Except HomeError (Fields Value) :=
  match config.get? place.1 with
  | some (.table fields) =>
      match Fields.get? place.2 fields with
      | some (.text raw) =>
          (absolutePath environment base raw).map fun path =>
            config.insert place.1 (.table (Fields.insert place.2 (.text path) fields))
      | _ => .ok config
  | _ => .ok config

/-- **Makes paths absolute**, seen from a directory. -/
def absolutePaths (environment : Environment) (base : Path) (config : Fields Value) :
    Except HomeError (Fields Value) :=
  pathFields.foldlM (absoluteField environment base) config

/-- The layers above the defaults, from the lowest to the highest. -/
def layers (path : Path) (isRequired : Bool) (contents : Except FileError Octets)
    (bindings : Fields String) (options : Fields Value) : Except Failure (List (Fields Value)) := do
  let file ← fileLayer path isRequired contents
  let environment ← variableLayer bindings
  let line ← optionLayer options
  return [file, environment, line]

/-- **The settings of all layers**, from what opening the settings file gave. -/
def load (environment : Environment) (path : Path) (isRequired : Bool)
    (contents : Except FileError Octets) (bindings : Fields String) (options : Fields Value) :
    Except Failure (Fields Value) := do
  let merged := (← layers path isRequired contents bindings options).foldl overlay defaults
  let config ← (absolutePaths environment path.parent merged).mapError .home
  (normalize (.table config)).mapError .ofRejection

end RuleCatalogue.Settings

/-! ## Settings in effect -/

namespace RuleCatalogue

/-- **The settings of a run.** -/
structure RunSettings where
  sourceDirectory : Path
  fileStart : String
  encoding : String
  workers : Int
  format : Format
  output : Path
  logLevel : String
  logDirectory : String
  logToConsole : Bool

namespace Settings

/-- The value of a field, or its default where the settings lack it. -/
def value (config : Fields Value) (name key : String) : Value :=
  let field (config : Fields Value) : Option Value :=
    (config.get? name).bind fun v => Fields.get? key (tableFields v)
  ((field config).or (field defaults)).getD .null

/-- The text of a field. -/
def textValue (config : Fields Value) (name key : String) : String :=
  match value config name key with
  | .text s => s
  | _ => ""

/-- **The settings that a run takes from a table.** -/
def inEffect (config : Fields Value) : RunSettings where
  sourceDirectory := Path.ofText (textValue config "sources" "apt_dir")
  fileStart := textValue config "sources" "file_prefix"
  encoding := textValue config "sources" "encoding"
  workers := match value config "sources" "max_workers" with | .int n => n | _ => 1
  format := (Format.ofName? (textValue config "output" "format")).getD .json
  output := Path.ofText (textValue config "output" "path")
  logLevel := textValue config "observability" "log_level"
  logDirectory := textValue config "observability" "log_dir"
  logToConsole := (value config "observability" "log_to_console").isTruthy

/-- The text in which settings are shown, unless an integer in them has too many digits. -/
def shown (config : Fields Value) : Except Decimal.OversizedInteger String :=
  Json.indented (.table config)

end Settings

end RuleCatalogue
