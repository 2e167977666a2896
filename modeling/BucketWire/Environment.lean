import BucketWire.Settings
import BucketWire.Text.Numeral
import BucketWire.Text.Utf8

/-!
# Settings from the environment

Each setting has a variable of its own. A variable that is not set, or whose value is not UTF-8,
leaves the default.

## Main definitions

* `Environment` — the values of variables
* `Settings.textOf` — what a variable says, if it says anything
* `Settings.ofEnvironment` — the settings that an environment asks for
-/

namespace BucketWire

/-- The values of the variables that are set. -/
abbrev Environment := String → Option Bytes

/-- The text that is the value of a variable. -/
def Settings.textOf (value : Option Bytes) : Option String :=
  value.bind fun bytes => (Utf8.decode bytes).toOption

/-- The value of a variable, if it is set to a text. -/
def Environment.text? (env : Environment) (variableName : String) : Option String :=
  Settings.textOf (env variableName)

namespace Settings

/-- Whether the value of a variable switches a setting on. -/
def isOn (value : String) : Bool := value = "1" || value.map Char.toLower = "true"

/-- The indentation that the value of a variable asks for, if it is a numeral of 64 bits. -/
def indentation? (value : String) : Option UInt64 :=
  (Numeral.readUnsigned 10 64 value.toList).toOption.map UInt64.ofNat

/-- The settings that an environment asks for. -/
def ofEnvironment (env : Environment) : Settings :=
  let defaults : Settings := {}
  let flag (variableName : String) (default : Bool) : Bool :=
    ((env.text? variableName).map isOn).getD default
  { trimText := flag "S3TYPES_XML_TRIM_TEXT" defaults.trimText
    checkEndNames := flag "S3TYPES_XML_CHECK_END_NAMES" defaults.checkEndNames
    writeDeclaration := flag "S3TYPES_XML_DECLARATION" defaults.writeDeclaration
    indent := ((env.text? "S3TYPES_XML_INDENT").bind indentation?).getD defaults.indent }

end Settings

end BucketWire
