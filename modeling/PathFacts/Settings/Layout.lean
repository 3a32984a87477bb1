import PathFacts.Codec
import PathFacts.Settings.Basic

/-!
# How settings are laid out

Settings are written as a mapping of the three sections.  A file of settings also has a `version`,
which must be one that is supported, and may hold nothing else.  The two layouts are declared
separately: keys beside the sections are passed over in a bare document, and refused in a file.

A section may be left out, and so may every key in it; what is left out has its standard value.  A
section refuses keys that it does not know.

`Settings.loadWith` reads a file, `Settings.decodeWith` a bare document of settings, and
`Settings.encodeWith` writes one.  Each of them works with any codec.
-/

namespace PathFacts

/-! ## Sections -/

/-- The section on results. -/
def CacheSettings.layout : Layout CacheSettings :=
  .record {} true (.cons "enabled" .bool (·.enabled) (fun b s => { s with enabled := b }) .nil)

/-- The section on waiting. -/
def WaitingSettings.layout (processors : UInt64) : Layout WaitingSettings :=
  .record (.standard processors) true
    (.cons "max_blocked_waiters" .word64 (·.limit) (fun n s => { s with limit := n })
      (.cons "poll_interval_ms" .word64 (·.pollMillis) (fun n s => { s with pollMillis := n })
        .nil))

/-- The section on analysis. -/
def AnalysisSettings.layout : Layout AnalysisSettings :=
  .record {} true
    (.cons "stitch_constructors" .bool (·.stitching) (fun b s => { s with stitching := b }) .nil)

/-! ## Documents -/

/-- A bare document of settings. -/
def Settings.layout (processors : UInt64) : Layout Settings :=
  .record (.standard processors) false
    (.cons "cache" CacheSettings.layout (·.cache) (fun c s => { s with cache := c })
      (.cons "blocking" (WaitingSettings.layout processors) (·.waiting)
        (fun w s => { s with waiting := w })
        (.cons "analysis" AnalysisSettings.layout (·.analysis)
          (fun a s => { s with analysis := a }) .nil)))

/-- What a file of settings holds: the version, if one is given, and the sections. -/
structure SettingsFile where
  version : Option UInt32 := none
  cache : CacheSettings := {}
  waiting : WaitingSettings
  analysis : AnalysisSettings := {}

namespace SettingsFile

/-- A file of settings. -/
def layout (processors : UInt64) : Layout SettingsFile :=
  .record { waiting := .standard processors } true
    (.cons "version" (.optional .word32) (·.version) (fun n f => { f with version := n })
      (.cons "cache" CacheSettings.layout (·.cache) (fun c f => { f with cache := c })
        (.cons "blocking" (WaitingSettings.layout processors) (·.waiting)
          (fun w f => { f with waiting := w })
          (.cons "analysis" AnalysisSettings.layout (·.analysis)
            (fun a f => { f with analysis := a }) .nil))))

/-- The settings of a file. -/
def settings (f : SettingsFile) : Settings := ⟨f.cache, f.waiting, f.analysis⟩

end SettingsFile

namespace Settings

/-! ## Files -/

/-- The versions of the file layout that can be read. -/
def readableVersions : List UInt32 := [1]

/-- Reads the text of a file on a machine with `processors` processors.  The form is
checked first, then the version, then the ranges. -/
def loadWith (codec : Codec) (processors : UInt64) (text : String) :
    Except SettingsError Settings := do
  match codec.readText (SettingsFile.layout processors) text with
  | none => throw .malformed
  | some file =>
    match file.version with
    | none => throw .missingVersion
    | some version =>
      if readableVersions.contains version then
        file.settings.check
        return file.settings
      else throw (.unsupportedVersion version.toNat (readableVersions.map (·.toNat)))

/-- Reads the bytes of a file, if it is there. -/
def loadFileWith (codec : Codec) (processors : UInt64) (bytes : Option ByteArray) :
    Except SettingsError Settings :=
  match bytes with
  | none => .error .missingFile
  | some bytes =>
    match String.fromUTF8? bytes with
    | none => .error .notText
    | some text => loadWith codec processors text

/-! ## Bare documents -/

/-- Reads a document of settings without a version.  No range is checked. -/
def decodeWith (codec : Codec) (processors : UInt64) (text : String) : Option Settings :=
  codec.readText (layout processors) text

/-- Writes settings as a document: every section and every key, in the order of the layout. -/
def encodeWith (codec : Codec) (processors : UInt64) (s : Settings) : String :=
  codec.write (layout processors) s

end Settings
end PathFacts
