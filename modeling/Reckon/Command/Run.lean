import Reckon.Command.Flags
import Reckon.Command.Places
import Reckon.Command.Prompt

/-!
# The command

The command reads its arguments and settings, then runs a script or holds a
conversation at the prompt. Its exit status tells the ways a run can end apart: 64
for a command that cannot start, 65 for a script with errors, 70 for a failed
operation.
-/

namespace Reckon

namespace Command

/-- What the command writes and its exit status. -/
structure Result where
  status : Nat
  streams : Streams
  deriving DecidableEq, Repr

/-- A result that is one line about what went wrong. -/
def Result.complaint (status : Nat) (text : Bytes) : Result := ⟨status, [], Bytes.line text⟩

/-- The path of the script that options name, empty for none. A script is named
once. -/
def scriptPath (o : Options) : Except Result Bytes :=
  match o.operands with
  | [] => .ok o.input
  | [path] => if o.input.isEmpty then .ok path else .error twice
  | _ => .error twice
where
  twice : Result := .complaint 64 (Bytes.ofString "Usage: golox [-print mode] [script]")

/-- The mode that a setting names; an empty name evaluates. -/
def mode (name : Bytes) : Except Result Mode :=
  if name.isEmpty then .ok .evaluate
  else
    match Form.ofWord? name with
    | some form => .ok (.print form)
    | none => .error (.complaint 64 (Form.unknownMessage name))

/-- What the command is about to do. -/
structure Plan where
  /-- The script to run; empty to hold a conversation. -/
  script : Bytes
  mode : Mode
  settings : Settings
  deriving DecidableEq, Repr

/-- Reads arguments. -/
def options (arguments : List Bytes) : Except Result (Options × Bytes) :=
  match Flags.read arguments with
  | .error e => .error ⟨e.status, [], e.text⟩
  | .ok o => do return (o, ← scriptPath o)

/-- Makes a plan from arguments, environment and files. -/
def plan (load : Loader) (arguments : List Bytes) (env : Environment) (fetch : Fetch) :
    Except Result Plan := do
  let (o, script) ← options arguments
  match load env fetch o.config with
  | .error e => .error (.complaint 64 e.text)
  | .ok settings =>
    let name := if o.print.isEmpty then settings.print else o.print
    return ⟨script, ← mode name, settings⟩

/-- Runs the source of a script. -/
def runSource (mode : Mode) (source : Bytes) : Result :=
  let (session, run) := Session.run ({ mode, reporter := {} } : Session Console) source
  let err := session.reporter.written
  match run.ending with
  | .done => ⟨0, run.output, err⟩
  | .static _ => ⟨65, run.output, err⟩
  | .runtime e => ⟨70, run.output, err ++ Bytes.line e.text⟩
  | .fault f => ⟨2, run.output, err ++ Bytes.line f.message⟩

/-- Runs a script by its path. -/
def runScript (mode : Mode) (fetch : Fetch) (path : Bytes) : Result :=
  match fetch path with
  | .error e => .complaint 1 e.text
  | .ok source => runSource mode source

/-- The history to start from, and what is said about a history file that cannot be
read to its end. A history file that cannot be opened is no history. -/
def earlierHistory (fetch : Fetch) (path : Bytes) : History × Bytes :=
  match fetch path with
  | .ok text => History.load text
  | .error e => ([], if e.action == .reading then Bytes.line e.text else [])

/-- Writes the history file, making the directories above it, and gives what is
said if they cannot be made. -/
def saveHistory (tree : Tree) (path : Bytes) (h : History) : Tree × Bytes :=
  let (tree, error?) := tree.makeDirectories (Path.directory path)
  (tree.write path h.text,
    match error? with
    | none => []
    | some e => Bytes.line e.text)

/-- Holds a conversation over given lines. The history is saved in the end, also when
the prompt cannot be shown and nothing is read. -/
def converse (p : Plan) (tree : Tree) (input : Bytes) : Result × Tree :=
  let path := p.settings.history
  let prompt := p.settings.prompt
  let (history, said) := earlierHistory tree.read path
  if Prompt.isShowable prompt then
    let entered := lines input
    let written := Prompt.converse prompt { mode := p.mode, reporter := {} } entered
    let (tree, late) := saveHistory tree path (entered.foldl History.enter history)
    (⟨0, written.out, said ++ written.err ++ late⟩, tree)
  else
    let (tree, late) := saveHistory tree path history
    (⟨1, [], said ++ late ++ Bytes.ofString "invalid prompt\n"⟩, tree)

/-- Runs the command in a file tree, with a text as its input and a way to load its
settings. -/
def runWith (load : Loader) (arguments : List Bytes) (env : Environment) (tree : Tree)
    (input : Bytes) : Result × Tree :=
  match plan load arguments env tree.read with
  | .error result => (result, tree)
  | .ok p =>
    if p.script.isEmpty then converse p tree input
    else (runScript p.mode tree.read p.script, tree)

/-- Runs the command with the settings found where users keep them. -/
def run (arguments : List Bytes) (env : Environment) (tree : Tree) (input : Bytes) :
    Result × Tree :=
  runWith Settings.load arguments env tree input

end Command

end Reckon
