import TracePlayback.FileSystem
import TracePlayback.Settings.Toml

/-!
# Settings files

Settings are read from a file of the file system as a whole, and saved all or nothing: a document
that cannot be written leaves the file as it was. Directories on the way to the file are created.
-/
namespace TracePlayback

inductive SettingsError where
  | unreadable (path : Path)
  | unparsable (path : Path)
  | noDirectory (path : Path)
  | unserializable
  | unwritable (path : Path)
  deriving DecidableEq, Repr

namespace SettingsError

def message : SettingsError → String
  | .unreadable path => "failed to read engine config " ++ path.display
  | .unparsable path => "failed to parse engine config " ++ path.display
  | .noDirectory path => "failed to create config directory " ++ path.display
  | .unserializable => "failed to serialize engine config"
  | .unwritable path => "failed to write engine config " ++ path.display

end SettingsError

namespace Settings

def load (read? : Path → Option Bytes) (path : Path) : Except SettingsError Settings :=
  match (read? path).bind Text.Utf8.decode? with
  | none => throw (.unreadable path)
  | some text =>
    match ofToml? text with
    | none => throw (.unparsable path)
    | some s => pure s

/-- Reads the settings of a file, or takes the defaults. -/
def loadOrDefault (read? : Path → Option Bytes) (path : Path) : Settings :=
  match load read? path with
  | .ok s => s
  | .error _ => {}

/-- Creates the directory that a path's file lies in. -/
def prepareDirectory (fs : FileSystem) (path : Path) : Except SettingsError Unit × FileSystem :=
  match path.parent? with
  | none => (pure (), fs)
  | some parent =>
    match fs.createDirectories parent with
    | (true, fs) => (pure (), fs)
    | (false, fs) => (throw (.noDirectory parent), fs)

/-- Saves settings to a file: the outcome, and the file system afterwards. -/
def save (s : Settings) (fs : FileSystem) (path : Path) : Except SettingsError Unit × FileSystem :=
  match prepareDirectory fs path with
  | (.error e, fs) => (throw e, fs)
  | (.ok (), fs) =>
    match s.toToml? with
    | none => (throw .unserializable, fs)
    | some text =>
      match fs.write? path text.toUTF8.toList with
      | none => (throw (.unwritable path), fs)
      | some fs => (pure (), fs)

/-- The user's settings file below the directory for configuration. -/
def userPath (configHome : String) : Path := .ofString (configHome ++ "/tracegraph/engine.toml")

end Settings
end TracePlayback
