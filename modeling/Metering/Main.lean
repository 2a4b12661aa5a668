import Metering.Stress.Run

/-! # The stress program

Prints the text of the help and version options, the first line of a complaint about arguments to
standard error, and ends with the exit code of the run.
-/

def main (args : List String) : IO UInt32 := do
  match Metering.Stress.Arguments.read args with
  | .error (.display _) => pure ()
  | .error fault => (← IO.getStderr).putStrLn fault.firstLine
  | .ok _ => pure ()
  let (code, text) := Metering.Stress.program 0 args
  IO.print text
  return code
