import RuleCatalogue.Json
import RuleCatalogue.Payload
import RuleCatalogue.Toml.Reader
import RuleCatalogue.Toml.Writer
import RuleCatalogue.Yaml.Reader
import RuleCatalogue.Yaml.Writer

/-!
# Catalogues as texts

A catalogue is written in one of three formats and read back from them.  What is written depends on
the rules alone, not on the order in which they were filed.
-/

namespace RuleCatalogue

/-- **Why no catalogue can be read from a text.** -/
inductive LoadError
  /-- The text holds no value of its format. -/
  | unreadable (e : ReadError)
  /-- The value is no payload. -/
  | unsuitable (e : PayloadError)

/-- The wording of an error. -/
def LoadError.message : LoadError → String
  | unreadable e => e.message
  | unsuitable e => e.message

/-- The value of a text in a format. -/
def Format.parse (format : Format) (text : String) : Except ReadError Value :=
  match format with
  | json => Json.parse text
  | toml => Toml.parse text
  | yaml => Yaml.parse text

namespace Catalogue

/-- **A catalogue as a text.** -/
def serialize (format : Format) (catalogue : Catalogue) : String :=
  match format with
  | .json => Json.indentedText catalogue.toValue ++ "\n"
  | .toml => Toml.ofCatalogue catalogue
  | .yaml => Yaml.ofCatalogue catalogue

/-- **The catalogue of a text.** -/
def deserialize (format : Format) (text : String) : Except LoadError Catalogue :=
  match format.parse text with
  | .error e => .error (.unreadable e)
  | .ok v => (ofValue v).mapError .unsuitable

end Catalogue

end RuleCatalogue
