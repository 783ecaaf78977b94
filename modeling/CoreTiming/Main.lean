import CoreTiming.CommandLine.Outcome

/-!
# The program

Reads the configuration file that the command names, carries the command out, and prints.
-/

open CoreTiming

/-- The contents of a file, unless it cannot be read. -/
def readContents (path : String) : IO (Option ByteArray) := do
  try
    pure (some (← IO.FS.readBinFile path))
  catch _ => pure none

/-- Carries out the command that the arguments stand for. -/
def main (args : List String) : IO UInt32 := do
  let outcome ← match Command.ofArguments args with
    | none => pure .misuse
    | some command => do
      let contents ← match command.configFile? with
        | some path => readContents path
        | none => pure none
      pure (command.carryOut contents)
  IO.print outcome.output
  IO.eprint outcome.complaint
  pure (UInt32.ofNat outcome.code)
