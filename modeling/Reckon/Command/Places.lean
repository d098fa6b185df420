import Reckon.Files.Tree
import Reckon.Settings

/-!
# Where settings come from

The environment says where a user's settings and data are kept. Settings are read
from a given path, or from the first of the user's and the system's configuration
directories that has them; without any the defaults hold.
-/

namespace Reckon

/-- Variables and their values. -/
abbrev Environment := List (Bytes × Bytes)

namespace Environment

/-- The value of a variable; one that is not set is empty. -/
def value (env : Environment) (name : String) : Bytes :=
  (env.lookup (Bytes.ofString name)).getD []

/-- The user's own directory. -/
def home (env : Environment) : Bytes :=
  let home := env.value "HOME"
  if home.isEmpty then [Ascii.slash] else home

/-- The word for the user's own directory at the start of a path. -/
def homeWord : Bytes := Bytes.ofString "$HOME"

/-- A path in which a tilde or a word at its start stands for the user's own
directory. -/
def expand (env : Environment) (path : Bytes) : Bytes :=
  if path.head? == some Ascii.tilde then Path.append env.home (path.drop 1)
  else if homeWord.isPrefixOf path then Path.append env.home (path.drop homeWord.length)
  else path

/-- The directory that a variable names by an absolute path, or else a place below
the user's own directory. -/
def directory (env : Environment) (name fallback : String) : Bytes :=
  let path := env.expand (env.value name)
  if Path.isAbsolute path then path else Path.append env.home (Bytes.ofString fallback)

/-- The directory of the user's data. -/
def dataHome (env : Environment) : Bytes := env.directory "XDG_DATA_HOME" ".local/share"

/-- The directory of the user's configuration. -/
def configHome (env : Environment) : Bytes := env.directory "XDG_CONFIG_HOME" ".config"

/-- The directories of the system's configuration. -/
def configDirectories (env : Environment) : List Bytes :=
  let named := (Bytes.parts Ascii.colon (env.value "XDG_CONFIG_DIRS")).map env.expand
  match named.filter Path.isAbsolute with
  | [] => [Bytes.ofString "/etc/xdg"]
  | paths => paths

/-- The paths at which settings are looked for, in order. -/
def settingsPaths (env : Environment) : List Bytes :=
  (env.configHome :: env.configDirectories).map fun path =>
    Path.append path (Bytes.ofString "golox/config.yaml")

end Environment

/-- Reading a file by its path. -/
abbrev Fetch := Bytes → Except FileError Bytes

/-- Why settings could not be loaded. -/
inductive LoadError
  | file (error : FileError)
  | unusable (why : Document.Unusable)
  deriving DecidableEq, Repr

/-- The text of a load error. -/
def LoadError.text : LoadError → Bytes
  | file e => Bytes.ofString "config: " ++ e.text
  | unusable .malformed => Bytes.ofString "config: yaml: malformed document"
  | unusable (.illTyped errors) => Bytes.ofString "config: " ++ Document.errorsText errors

/-- How settings are loaded, given a path for them or none. -/
abbrev Loader := Environment → Fetch → Bytes → Except LoadError Settings

namespace Settings

/-- The settings without any configuration. -/
def defaults (env : Environment) : Settings where
  prompt := Bytes.ofString "> "
  print := []
  history := Path.append env.dataHome (Bytes.ofString "golox/.golox_history")

/-- Whether something is there to be read, even if reading it fails. -/
def isPresent (fetch : Fetch) (path : Bytes) : Bool :=
  match fetch path with
  | .ok _ => true
  | .error e => e.action == .reading

/-- The path of the settings: the given one, or the first place that has any. -/
def path? (env : Environment) (fetch : Fetch) (given : Bytes) : Option Bytes :=
  if given.isEmpty then env.settingsPaths.find? (isPresent fetch) else some given

/-- Loads the settings over the defaults. -/
def load : Loader := fun env fetch given =>
  match path? env fetch given with
  -- Only settings that nobody asked for by path may be missing.
  | none => .ok (defaults env)
  | some path =>
    match fetch path with
    | .error e => .error (.file e)
    | .ok text =>
      match read text (defaults env) with
      | .ok s => .ok s
      | .error why => .error (.unusable why)

end Settings

end Reckon
