import CoreTiming.CommandLine.Options
import CoreTiming.Config.Basic
import CoreTiming.Workload

/-!
# Commands

The command line names one of two commands: `run` times a workload on every core, `check` shows a
configuration.  The option `--log`, which may stand on either side of the command, sets what is
logged and does not change results.
-/

namespace CoreTiming

/-- What a run is to do. -/
structure RunOptions where
  /-- The configuration file; defaults without one. -/
  config : Option String := none
  /-- A model to use instead of the configured one. -/
  model : Option ModelKind := none
  /-- The workload. -/
  workload : Workload := .mixed
  /-- Instructions for each core. -/
  instructions : Nat := 100000
  /-- The number of cores. -/
  cores : Nat := 1
  /-- Whether results are printed as JSON. -/
  json : Bool := false
  deriving DecidableEq, Inhabited

/-- A command. -/
inductive Command
  /-- Times a workload on every core. -/
  | run (options : RunOptions)
  /-- Checks a configuration file and shows what is in force. -/
  | check (config : String)
  deriving DecidableEq, Inhabited

namespace Command

/-- The configuration file that a command reads. -/
def configFile? : Command → Option String
  | .run options => options.config
  | .check config => some config

/-- What is understood in front of the command and behind it. -/
def sharedOptions : List OptionSpec := [{ name := "log" }]

/-- The configuration file of either command. -/
def configOption : OptionSpec := { name := "config", letter := some 'c' }

/-- The options of `run`. -/
def runOptions : List OptionSpec := [
  configOption,
  { name := "model", letter := some 'm' },
  { name := "workload", letter := some 'w' },
  { name := "instructions", letter := some 'n' },
  { name := "threads", letter := some 't' },
  { name := "json", takesValue := false }]

/-- The names of the models on the command line. -/
def modelNames : List (String × ModelKind) :=
  [("simple", .simple), ("magic", .magic), ("iocoom", .iocoom), ("rob-smt", .robSmt)]

/-- The names of the workloads on the command line. -/
def workloadNames : List (String × Workload) := Workload.all.map fun w => (w.optionName, w)

/-- Reads the value of an option that may be missing; `none` is a value that cannot be read. -/
def optional {α : Type} (given : GivenOptions) (name : String) (default : α)
    (read : String → Option α) : Option α :=
  match given.lookup name with
  | some value => read value
  | none => some default

/-- Reads the name of a file. -/
def readPath (text : String) : Option String := if text.isEmpty then none else some text

/-- The command `run` with the given options. -/
def ofRunOptions (given : GivenOptions) : Option Command := do
  pure (.run
    { config := ← optional given "config" none (some <$> readPath ·)
      model := ← optional given "model" none (some <$> modelNames.lookup ·)
      workload := ← optional given "workload" .mixed (workloadNames.lookup ·)
      instructions := ← optional given "instructions" 100000 (CommandLine.readNumber Word.max)
      cores := ← optional given "threads" 1 (CommandLine.readNumber Word.max)
      json := (given.lookup "json").isSome })

/-- The options behind a command, behind which nothing else may stand. -/
def readAll (specs : List OptionSpec) (args : List String) : Option GivenOptions := do
  let (given, rest, _) ← CommandLine.readOptions (sharedOptions ++ specs) [] none args
  if rest.isEmpty then pure given else none

/-- The command that the arguments stand for, unless they are misused. -/
def ofArguments (args : List String) : Option Command := do
  match ← CommandLine.readOptions sharedOptions [] none args with
  | (_, "run" :: args, false) => ofRunOptions (← readAll runOptions args)
  | (_, "check" :: args, false) =>
    pure (.check (← readPath (← (← readAll [configOption] args).lookup "config")))
  | _ => none

end Command

end CoreTiming
