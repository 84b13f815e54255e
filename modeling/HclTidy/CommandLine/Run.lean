import HclTidy.CommandLine.Arguments

/-!
# Running a command

A command prints lines and ends with a status. Before a run its paths are checked; a fault in them
or a failure of the run is reported in one message. A breakdown is not caught.
-/

set_option autoImplicit false

namespace HclTidy.CommandLine

inductive Ending where
  | success
  | refused (message : String)
  | stopped (stop : Stop)
  | brokenOff (cause : Breakdown)
deriving Repr, DecidableEq

/-- The exit status of the program. -/
def Ending.status : Ending → Nat
  | .success => 0
  | .refused _ => 1
  | .stopped .help => 0
  | .stopped .unusable => 2
  | .brokenOff _ => 1

/-- What a command leaves behind: the tree, the printed lines and the way it ended. -/
structure Outcome where
  tree : Tree
  lines : List String
  ending : Ending

/-- The lines of notices that reach a threshold. -/
def shown (threshold : Severity) (notices : List Notice) : List String :=
  (notices.filter (Notice.reaches threshold)).map Notice.text

/-- Checks the options of a run and the paths among them. -/
def checkOptions (tree : Tree) (options : Options) : Except Failure Unit :=
  match PathCheck.checkInput tree options.input with
  | .error (.inr _) => .error (.breakdown .embeddedNul)
  | .error (.inl error) => .error (.path (.inInput error))
  | .ok () =>
    (do
      PathCheck.checkOutput tree options.outputDirectory
      PathCheck.checkConfig tree options.configFile
      PathCheck.checkFlags options.outputDirectory options.recursive).mapError .path

/-- How a failed run ends. -/
def Ending.ofFailure : Failure → Ending
  | .breakdown cause => .brokenOff cause
  | failure => .refused ("Error: " ++ failure.message)

def organize (threshold : Severity) (host : Host) (tree : Tree) (options : Options) : Outcome :=
  match checkOptions tree options with
  | .error failure => ⟨tree, [], .ofFailure failure⟩
  | .ok () =>
    let (result, session) := Request.execute ⟨options, host⟩ |>.run.run ⟨tree, []⟩
    let lines := shown threshold (session.events.reverse.flatMap Event.notices)
    match result with
    | .ok _ => ⟨session.tree, lines, .success⟩
    | .error failure => ⟨session.tree, lines, .ofFailure failure⟩

/-- Lines numbered from one. -/
def numbered (items : List String) : List String :=
  items.mapIdx fun i item => "  " ++ toString (i + 1) ++ ". " ++ item

/-- A group with its number and its patterns. -/
def groupLines (groups : List Group) : List String :=
  (groups.mapIdx fun i g =>
    ("  " ++ toString (i + 1) ++ ". " ++ g.name.str ++ " -> " ++ g.fileName.str) ::
      g.patterns.map fun pattern => "     - " ++ pattern.str).flatten

/-- The summary of a configuration. -/
def summary (config : Config) : List String :=
  ["", "Configuration Summary:",
   "  Groups: " ++ toString config.groups.length,
   "  Exclude File Patterns: " ++ toString config.excludedFiles.length]
  ++ (if config.groups.isEmpty then [] else ["", "Groups:"] ++ groupLines config.groups)
  ++ (if config.excludedFiles.isEmpty then []
      else ["", "Exclude File Patterns:"] ++ numbered (config.excludedFiles.map Text.str))

def invalidConfig (message : String) : Ending :=
  .refused ("Configuration validation failed: " ++ message)

def checkConfig (threshold : Severity) (reader : Config.Reader) (tree : Tree) (path : Text) :
    List String × Ending :=
  match PathCheck.checkConfig tree path with
  | .error error => ([], invalidConfig error.message)
  | .ok () =>
    let opening := "Validating configuration file: " ++ path.str
    match Config.load reader tree path with
    | .error (.config error) => ([opening], invalidConfig error.message)
    | .error (.breakdown cause) => ([opening], .brokenOff cause)
    | .ok config =>
      ([opening] ++ shown threshold (config.loadNotices tree path) ++ summary config
        ++ ["Configuration is valid!"], .success)

def programName : String := "tf-file-organize"

def programVersion : String := "0.1.0"

/-- The surroundings that the program names with its version. -/
structure Surroundings where
  runtime : String
  platform : String
deriving Repr, DecidableEq

def versionLines (surroundings : Surroundings) : List String :=
  [programName ++ " version " ++ programVersion, "  Python: " ++ surroundings.runtime,
   "  Platform: " ++ surroundings.platform]

/-- The whole program for its arguments. -/
def run (surroundings : Surroundings) (host : Host) (tree : Tree) (arguments : List Text) : Outcome :=
  match Invocation.ofArguments arguments with
  | .error stop => ⟨tree, [], .stopped stop⟩
  | .ok invocation =>
    let threshold : Severity := if invocation.verbose then .debug else .info
    match invocation.command with
    | .organize options => organize threshold host tree options
    | .checkConfig path =>
      let (lines, ending) := checkConfig threshold host.reader tree path
      ⟨tree, lines, ending⟩
    | .version => ⟨tree, versionLines surroundings, .success⟩

end HclTidy.CommandLine
