import CoreTiming.CommandLine.Command
import CoreTiming.Config.Listing
import CoreTiming.Config.Reader
import CoreTiming.Simulation.Summary

/-!
# Carrying out a command

What a command prints, or why it fails, as a function of the contents of the configuration file.
-/

namespace CoreTiming

/-- What comes of a command line. -/
inductive Outcome
  /-- A text is printed. -/
  | text (t : String)
  /-- A document is printed as JSON. -/
  | document (d : Document)
  /-- The command fails. -/
  | failure (message : String)
  /-- The arguments are misused. -/
  | misuse
  /-- The program stops on a fault. -/
  | fault (f : Fault)
  deriving Inhabited

namespace Outcome

/-- The exit code. -/
def code : Outcome → Nat
  | .text _ | .document _ => 0
  | .failure _ => 1
  | .misuse => 2
  | .fault _ => 101

/-- What is printed. -/
def output : Outcome → String
  | .text t => t
  | .document d => d.json ++ "\n"
  | _ => ""

/-- What is reported as an error. -/
def complaint : Outcome → String
  | .failure message => "error: " ++ message ++ "\n"
  | .misuse => "usage: [--log FILTER] run [OPTIONS] | check --config FILE\n"
  | .fault f => f.message ++ "\n"
  | _ => ""

/-- Goes on unless something failed. -/
def orFault : Except Fault Outcome → Outcome
  | .ok o => o
  | .error f => .fault f

end Outcome

namespace Command

/-- The configuration in the file called `path`; `none` stands for a file that cannot be read. -/
def loadConfig (path : Option String) (contents : Option ByteArray) : Except String Config :=
  match path with
  | none => .ok {}
  | some path => (Config.ofBytes contents).mapError fun e => path ++ ": " ++ e.message

/-- Runs the workload on every core and sums up. -/
def simulate (config : Config) (options : RunOptions) : Outcome :=
  match Simulation.new config options.workload options.cores options.instructions with
  | .error f => .fault f
  | .ok s =>
    let s := s.run
    match s.coreSummaries with
    | .error message => .failure message
    | .ok cores =>
      let summary : Summary :=
        { model := config.core.model, workload := options.workload, cores,
          windows := s.machine.reports }
      if options.json then .document summary.document
      else .orFault (.text <$> summary.render)

/-- What comes of a command, given the contents of its configuration file. -/
def carryOut (c : Command) (contents : Option ByteArray) : Outcome :=
  match loadConfig c.configFile? contents with
  | .error message => .failure message
  | .ok config =>
    match c with
    | .check path => .text (path ++ ": ok\n" ++ config.document.listing ++ "\n")
    | .run options =>
      if options.cores = 0 then .failure "--threads must be at least 1"
      else
        let model := options.model.getD config.core.model
        simulate { config with core := { config.core with model } } options

end Command

end CoreTiming
