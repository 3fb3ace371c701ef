import Deduction.CommandLine.Run

set_option autoImplicit false

/-! # The command line -/

open Deduction.CommandLine

def main (args : List String) : IO UInt32 := do
  match parseArguments args with
  | .error stop =>
    if stop = .help then IO.println usage else IO.eprintln usage
    return stop.code.toUInt32
  | .ok options =>
    match run options with
    | .error setting =>
      IO.eprintln ("no value for " ++ setting.word)
      return 1
    | .ok outcome =>
      IO.print outcome.output
      IO.eprint outcome.errors
      for (path, content) in outcome.files do
        IO.FS.writeFile path content
      return outcome.code.toUInt32
