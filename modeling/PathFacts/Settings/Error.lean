/-!
# Errors in settings

What can be wrong with settings and with the document that holds them.  Each cause has
one text.
-/

namespace PathFacts

/-- Why settings were refused. -/
inductive SettingsError where
  /-- A value is out of its range. -/
  | range (field value lower upper hint : String)
  | missingVersion
  | unsupportedVersion (found : Nat) (supported : List Nat)
  /-- There is no file of that name. -/
  | missingFile
  /-- The file does not hold text in UTF-8. -/
  | notText
  /-- The document is malformed, or is not a document of settings. -/
  | malformed
deriving DecidableEq

/-- The text of a settings error. -/
def SettingsError.message : SettingsError → String
  | .range field value lower upper hint =>
    "Invalid range for field '" ++ field ++ "': " ++ value ++ " not in " ++ lower ++ "..="
      ++ upper ++ ". " ++ hint
  | .missingVersion =>
    "Missing 'version' field in configuration file. "
      ++ "Add 'version: 1' to the top of your YAML file."
  | .unsupportedVersion found supported =>
    "Unsupported configuration version " ++ toString found ++ ". Supported versions: "
      ++ ", ".intercalate (supported.map toString)
  | .missingFile => "IO error: No such file or directory (os error 2)"
  | .notText => "IO error: stream did not contain valid UTF-8"
  | .malformed => "YAML parsing error"

end PathFacts
