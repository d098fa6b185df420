import Reckon.Text.Bytes

/-!
# Flags of the command

Flags come before other arguments. Each takes a value, after an equals sign or as
the next argument; one or two dashes make no difference, and the last use of a
flag counts. Flags end at `--`, at a lone dash and at the first argument without a
dash.
-/

namespace Reckon

/-- What the arguments ask for. -/
structure Options where
  input : Bytes := []
  print : Bytes := []
  config : Bytes := []
  /-- The arguments that are not flags. -/
  operands : List Bytes := []
  deriving DecidableEq, Repr

/-- Why the arguments cannot be used. -/
inductive FlagError
  | badForm (argument : Bytes)
  | undefined (name : Bytes)
  | noValue (name : Bytes)
  | help
  deriving DecidableEq, Repr

namespace Flags

/-- The flags with what they set and what they are for, by name. -/
def table : List (String × (Options → Bytes → Options) × String) :=
  [("config", fun o v => { o with config := v },
      "config file path (default: $XDG_CONFIG_HOME/golox/config.yaml)"),
    ("i", fun o v => { o with input := v }, "input file path (shorthand)"),
    ("input", fun o v => { o with input := v }, "input file path"),
    ("print", fun o v => { o with print := v },
      "print expressions as infix, rpn or lispy instead of evaluating them")]

/-- The summary of all flags. -/
def usage : Bytes :=
  Bytes.ofString "Usage of golox:\n" ++ table.flatMap fun (name, _, purpose) =>
    Bytes.ofString "  -" ++ Bytes.ofString name ++ Bytes.ofString " string\n    \t"
      ++ Bytes.line (Bytes.ofString purpose)

/-- What a flag sets. -/
def setter? (name : Bytes) : Option (Options → Bytes → Options) :=
  (table.find? fun entry => Bytes.ofString entry.1 == name).map fun entry => entry.2.1

/-- The flag in an argument, without its dashes; other arguments have none. -/
def body? (argument : Bytes) : Option Bytes :=
  match argument with
  | Ascii.minus :: Ascii.minus :: rest => some rest
  | Ascii.minus :: b :: rest => some (b :: rest)
  | _ => none

/-- Whether a flag has a name. -/
def isNamed (body : Bytes) : Bool :=
  match body with
  | [] => false
  | b :: _ => b != Ascii.minus && b != Ascii.equals

/-- The name of a flag and the value joined to it by an equals sign. -/
def nameAndValue (body : Bytes) : Bytes × Option Bytes :=
  (body.takeWhile (· != Ascii.equals),
    match body.dropWhile (· != Ascii.equals) with
    | [] => none
    | _ :: value => some value)

/-- Reads arguments on top of options. -/
def readOnto (o : Options) : List Bytes → Except FlagError Options
  | [] => .ok o
  | argument :: rest =>
    match body? argument with
    | none => .ok { o with operands := argument :: rest }
    | some body =>
      if argument == [Ascii.minus, Ascii.minus] then .ok { o with operands := rest }
      else if !isNamed body then .error (.badForm argument)
      else
        let (name, value?) := nameAndValue body
        match setter? name, value?, rest with
        | none, _, _ =>
          .error (if name == Bytes.ofString "help" || name == Bytes.ofString "h" then .help
            else .undefined name)
        | some set, some value, rest => readOnto (set o value) rest
        | some set, none, value :: rest => readOnto (set o value) rest
        | some _, none, [] => .error (.noValue name)

/-- Reads the arguments of the command. -/
def read (arguments : List Bytes) : Except FlagError Options := readOnto {} arguments

end Flags

/-- What is said about arguments that cannot be used. -/
def FlagError.text : FlagError → Bytes
  | badForm argument =>
    Bytes.line (Bytes.ofString "bad flag syntax: " ++ argument) ++ Flags.usage
  | undefined name =>
    Bytes.line (Bytes.ofString "flag provided but not defined: -" ++ name) ++ Flags.usage
  | noValue name =>
    Bytes.line (Bytes.ofString "flag needs an argument: -" ++ name) ++ Flags.usage
  | help => Flags.usage

/-- The exit status for arguments that cannot be used. -/
def FlagError.status : FlagError → Nat
  | help => 0
  | _ => 2

end Reckon
