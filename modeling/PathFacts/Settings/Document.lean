import PathFacts.Settings.Layout
import PathFacts.Yaml.Codec

/-!
# Settings as YAML documents

Settings that are read and written by `Yaml.codec`.
-/

namespace PathFacts.Settings

/-- Reads the text of a file on a machine with `processors` processors. -/
def load (processors : UInt64) (text : String) : Except SettingsError Settings :=
  loadWith Yaml.codec processors text

/-- Reads the bytes of a file, if it is there. -/
def loadFile (processors : UInt64) (bytes : Option ByteArray) : Except SettingsError Settings :=
  loadFileWith Yaml.codec processors bytes

/-- Reads a document of settings without a version. -/
def decode (processors : UInt64) (text : String) : Option Settings :=
  decodeWith Yaml.codec processors text

/-- Writes settings as a document.  What is written does not depend on the machine. -/
def encode (s : Settings) : String := encodeWith Yaml.codec 1 s

end PathFacts.Settings
