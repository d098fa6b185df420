import Reckon.Command.Run

/-!
# The program

The command on the real file system: arguments, environment, files and standard
streams are handed to the pure command, and what it says is written out. The
prompt loop reads one line at a time, so that each answer comes before the next
line is read.
-/

namespace Reckon

namespace Program

/-- Writes bytes and passes them on at once. -/
def emit (stream : IO.FS.Stream) (text : Bytes) : IO Unit := do
  stream.write ⟨text.toArray⟩
  stream.flush

/-- Writes both streams. -/
def emitAll (s : Streams) : IO Unit := do
  emit (← IO.getStdout) s.out
  emit (← IO.getStderr) s.err

/-- Whether a path leads to a directory. -/
def isDirectory (name : String) : IO Bool := do
  try
    let real ← IO.FS.realPath name
    real.isDir
  catch _ => return false

/-- Reads a file. -/
def fetch (path : Bytes) : IO (Except FileError Bytes) := do
  match path.toString? with
  | none => return .error ⟨.opening, path, .noEntry⟩
  | some name =>
    if ← isDirectory name then return .error ⟨.reading, path, .isDirectory⟩
    try
      return .ok (← IO.FS.readBinFile name).toList
    catch e =>
      match e with
      | .inappropriateType .. => return .error ⟨.opening, path, .notDirectory⟩
      | _ => return .error ⟨.opening, path, .noEntry⟩

/-- Reads the files at the given paths ahead of their use. -/
def gather (paths : List Bytes) : IO Fetch := do
  let found ← paths.mapM fun path => return (path, ← fetch path)
  return fun path => (found.lookup path).getD (.error ⟨.opening, path, .noEntry⟩)

/-- The variables that say where settings and data are. -/
def environment : IO Environment := do
  let names := ["HOME", "XDG_CONFIG_HOME", "XDG_DATA_HOME", "XDG_CONFIG_DIRS"]
  let values ← names.mapM fun name => return (name, (← IO.getEnv name).getD "")
  return values.map fun entry => (Bytes.ofString entry.1, Bytes.ofString entry.2)

/-- Makes a directory and those above it; gives what is said if that fails. -/
def makeDirectories (path : Bytes) : IO Bytes := do
  for above in Path.ancestry path do
    match above.toString? with
    | none => return []
    | some name =>
      unless ← isDirectory name do
        try
          IO.FS.createDir name
        catch _ =>
          return Bytes.line (FileError.text ⟨.makingDirectory, above, .notDirectory⟩)
  return []

/-- Saves a history. -/
def saveHistory (path : Bytes) (h : History) : IO Unit := do
  emit (← IO.getStderr) (← makeDirectories (Path.directory path))
  match path.toString? with
  | none => return
  | some name =>
    try
      IO.FS.writeBinFile name ⟨h.text.toArray⟩
    catch _ => return

/-- The bytes of the next line of a stream with its end; none are left at the end of
the stream. -/
partial def nextLine (stream : IO.FS.Stream) (backwards : Bytes) : IO Bytes := do
  match (← stream.read 1).toList with
  | [] => return backwards.reverse
  | b :: _ =>
    if b == Ascii.newline then return (b :: backwards).reverse else nextLine stream (b :: backwards)

/-- Holds a conversation and gives the history after it. -/
partial def converse (prompt : Bytes) (s : Session Console) (h : History) : IO History := do
  emit (← IO.getStdout) prompt
  match lines (← nextLine (← IO.getStdin) []) with
  | [] => return h
  | line :: _ =>
    let (next, written) := Prompt.answer s line
    emitAll written
    converse prompt next (h.enter line)

/-- Carries out a plan. -/
def carryOut (p : Command.Plan) : IO UInt32 := do
  if p.script.isEmpty then
    let path := p.settings.history
    let (history, said) := Command.earlierHistory (← gather [path]) path
    emit (← IO.getStderr) said
    if Prompt.isShowable p.settings.prompt then
      let history ← converse p.settings.prompt ⟨p.mode, {}⟩ history
      saveHistory path history
      return 0
    else
      saveHistory path history
      emit (← IO.getStderr) (Bytes.ofString "invalid prompt\n")
      return 1
  else
    let result := Command.runScript p.mode (← gather [p.script]) p.script
    emitAll result.streams
    return result.status.toUInt32

/-- Runs the command. -/
def run (arguments : List Bytes) : IO UInt32 := do
  let env ← environment
  let paths :=
    match Command.options arguments with
    | .error _ => []
    | .ok (o, _) => if o.config.isEmpty then env.settingsPaths else [o.config]
  match Command.plan Settings.load arguments env (← gather paths) with
  | .ok p => carryOut p
  | .error result =>
    emitAll result.streams
    return result.status.toUInt32

end Program

end Reckon

/-- The entry of the program. -/
def main (args : List String) : IO UInt32 := Reckon.Program.run (args.map Reckon.Bytes.ofString)
