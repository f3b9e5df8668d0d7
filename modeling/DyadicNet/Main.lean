import DyadicNet.Command.Perform

/-!
# The program

The surroundings of a command are the real files, and lines are said on the standard output.  A
command that fails gives its message and its causes on the standard error, and the exit code 1; for
arguments that are no call the exit code is 2.
-/

namespace DyadicNet.Program

/-- The fault with a number of the system.  The sign of the number depends on the call that
failed. -/
def faultOfCode (code : UInt32) (details : String) : FileFault :=
  let number := if code.toNat < twoPow 31 then code.toNat else twoPow 32 - code.toNat
  match number with
  | 2 => .notFound
  | 20 => .notDirectory
  | 21 => .isDirectory
  | 22 => .nulInName
  | 28 => .noRoom
  | 36 => .nameTooLong
  | number => .other s!"{details} (os error {number})"

/-- The fault that an error of a file operation stands for. -/
def faultOf : IO.Error → FileFault
  | .noFileOrDirectory _ code details => faultOfCode code details
  | .inappropriateType _ code details => faultOfCode code details
  | .invalidArgument _ code details => faultOfCode code details
  | .permissionDenied _ code details => faultOfCode code details
  | .resourceExhausted _ code details => faultOfCode code details
  | .otherError code details => faultOfCode code details
  | .userError _ => .other "stream did not contain valid UTF-8"
  | error => .other (toString error)

/-- What a file operation gives, with its error as a fault. -/
def attempt {α : Type} (action : IO α) : IO (Except FileFault α) := do
  match ← action.toBaseIO with
  | .ok a => return .ok a
  | .error error => return .error (faultOf error)

instance : Host IO where
  read path := attempt (IO.FS.readFile path)
  write path content := attempt do
    IO.FS.withFile path .write fun file => do
      file.putStr content
      file.flush
  say line := IO.println line

/-- The settings that the environment holds. -/
def settings : IO (String → Option String) := do
  let values ← Config.settingNames.mapM fun name => return (name, ← IO.getEnv name)
  return fun name => (values.lookup name).join

/-- The exit code of a call with the given arguments. -/
def run (arguments : List String) : IO UInt32 := do
  match Call.ofArguments? arguments with
  | none =>
    Call.usageLines.forM IO.eprintln
    return 2
  | some call =>
    match ← (call.answer (← settings)).run with
    | .ok () => return 0
    | .error failure =>
      failure.report.forM IO.eprintln
      return 1

end DyadicNet.Program

def main (arguments : List String) : IO UInt32 :=
  DyadicNet.Program.run arguments
