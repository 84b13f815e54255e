import HclTidy.CommandLine.Switch
import HclTidy.Organize.Run

/-!
# Reading the command line

Options of the program come before the name of a command, and everything behind it belongs to the
command. A command line that asks for help, or that cannot be used, stops the program. Arguments are
looked at from left to right, so that a request for help wins over a mistake that comes later; only
ambiguous words are found before.
-/

set_option autoImplicit false

namespace HclTidy.CommandLine

/-- Why a command line leads to no command. -/
inductive Stop where
  | help
  | unusable
deriving Repr, DecidableEq

inductive Command where
  | organize (options : Options)
  | checkConfig (path : Text)
  | version
deriving Repr, DecidableEq

structure Invocation where
  verbose : Bool
  command : Command
deriving Repr, DecidableEq

/-- What the arguments so far say. An argument that has no place makes the command line unusable,
but only at its end. -/
structure Arguments where
  verbose : Bool
  outputDirectory : Text
  configFile : Text
  recursive : Bool
  backup : Bool
  operand : Option Text
  stray : Bool
deriving Repr, DecidableEq

namespace Arguments

def none : Arguments := ⟨false, [], [], false, false, .none, false⟩

/-- The last value of an option counts. -/
def set (arguments : Arguments) : List Setting → Except Stop Arguments
  | [] => .ok arguments
  | .on .help :: _ => .error .help
  | .on .verbose :: rest => set { arguments with verbose := true } rest
  | .on .recursive :: rest => set { arguments with recursive := true } rest
  | .on .backup :: rest => set { arguments with backup := true } rest
  | .to .outputDirectory value :: rest => set { arguments with outputDirectory := value } rest
  | .to .config value :: rest => set { arguments with configFile := value } rest
  | _ :: rest => set arguments rest

def withStray (arguments : Arguments) (stray : Bool) : Arguments :=
  { arguments with stray := arguments.stray || stray }

/-- The arguments behind a separator are operands; a first operand is taken when it is wanted. -/
def behindSeparator (arguments : Arguments) (wanted : Bool) : List Text → Arguments
  | [] => arguments.withStray true
  | operand :: rest =>
    if wanted && arguments.operand.isNone then
      { arguments with operand := some operand }.withStray !rest.isEmpty
    else arguments.withStray true

/-- Reads the arguments of a command that understands the options in `grammar` and has an operand
when one is wanted. The separator may also follow the operand. -/
def read (grammar : List Switch) (wanted : Bool) (arguments : Arguments) :
    List Text → Except Stop Arguments
  | [] => .ok arguments
  | argument :: rest =>
    if argument = separator then .ok (arguments.behindSeparator wanted rest)
    else
      match Reading.ofArgument grammar argument with
      | .ambiguous | .unwantedValue => .error .unusable
      | .operand =>
        if wanted && arguments.operand.isNone then
          let arguments := { arguments with operand := some argument }
          match rest with
          | next :: rest =>
            if next = separator then .ok (arguments.withStray !rest.isEmpty)
            else read grammar wanted arguments (next :: rest)
          | [] => .ok arguments
        else read grammar wanted (arguments.withStray true) rest
      | .stray => read grammar wanted (arguments.withStray true) rest
      | .settings settings .none =>
        match arguments.set settings with
        | .error stop => .error stop
        | .ok arguments => read grammar wanted arguments rest
      | .settings settings (some switch) =>
        match rest with
        | [] => .error .unusable
        | value :: rest =>
          if value = separator || Reading.ofArgument grammar value ≠ .operand then .error .unusable
          else
            match arguments.set (settings ++ [.to switch value]) with
            | .error stop => .error stop
            | .ok arguments => read grammar wanted arguments rest

/-- Some argument before a separator is an ambiguous word. -/
def hasAmbiguous (grammar : List Switch) (arguments : List Text) : Bool :=
  (arguments.takeWhile (· ≠ separator)).any fun a => Reading.ofArgument grammar a = .ambiguous

/-- All arguments of a command. -/
def ofCommand (grammar : List Switch) (wanted : Bool) (arguments : List Text) :
    Except Stop Arguments :=
  if hasAmbiguous grammar arguments then .error .unusable
  else
    match read grammar wanted none arguments with
    | .error stop => .error stop
    | .ok result =>
      if result.stray || (wanted && result.operand.isNone) then .error .unusable else .ok result

def options (arguments : Arguments) (dryRun : Bool) : Options := {
  input := arguments.operand.getD []
  outputDirectory := arguments.outputDirectory
  configFile := arguments.configFile
  dryRun := dryRun
  recursive := arguments.recursive
  backup := arguments.backup }

end Arguments

namespace Command

/-- The command with a name and the arguments behind it. -/
def ofArguments (name : Text) (arguments : List Text) : Except Stop Command :=
  if name = "run".toList then
    (Arguments.ofCommand [.help, .outputDirectory, .config, .recursive, .backup] true arguments).map
      fun a => .organize (a.options false)
  else if name = "plan".toList then
    (Arguments.ofCommand [.help, .outputDirectory, .config, .recursive] true arguments).map
      fun a => .organize (a.options true)
  else if name = "validate-config".toList then
    (Arguments.ofCommand [.help] true arguments).map fun a => .checkConfig (a.operand.getD [])
  else if name = "version".toList then
    (Arguments.ofCommand [.help] false arguments).map fun _ => .version
  else .error .unusable

end Command

namespace Invocation

/-- The options of the program itself. -/
def grammar : List Switch := [.help, .verbose]

/-- Reads the options before the command. Something stray there is reported when the command itself
is in order. -/
def read (before : Arguments) : List Text → Except Stop Invocation
  | [] => .error .unusable
  | argument :: rest =>
    if argument = separator then .error .unusable
    else
      match Reading.ofArgument grammar argument with
      | .operand =>
        match Command.ofArguments argument rest with
        | .error stop => .error stop
        | .ok command => if before.stray then .error .unusable else .ok ⟨before.verbose, command⟩
      | .stray => read (before.withStray true) rest
      | .settings settings .none =>
        match before.set settings with
        | .error stop => .error stop
        | .ok before => read before rest
      | _ => .error .unusable

def ofArguments (arguments : List Text) : Except Stop Invocation :=
  if Arguments.hasAmbiguous grammar arguments then .error .unusable
  else read .none arguments

end Invocation

end HclTidy.CommandLine
