import PathFacts.Body.Basic
import PathFacts.Settings.Error

/-!
# Errors

What a caller can get wrong: a query, or the settings.
-/

namespace PathFacts

/-- Anything that a caller can get wrong. -/
inductive Error where
  | query (cause : QueryError)
  | settings (cause : SettingsError)
deriving DecidableEq

/-- The text of an error. -/
def Error.message : Error → String
  | .query cause => cause.message
  | .settings cause => "Configuration error: " ++ cause.message

end PathFacts
