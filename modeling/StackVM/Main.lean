import StackVM.CommandLine

/-!
# The program

Reads the arguments and the files that they name, and prints what `CommandLine` answers.
-/

open StackVM CommandLine

/-- The contents of a file, or the reason why it cannot be read. -/
def readContents (file : String) : IO (Except Unreadable Code) := do
  try
    return .ok (← IO.FS.readBinFile file).data
  catch
    | .noFileOrDirectory .. => return .error .missing
    | .permissionDenied .. => return .error .denied
    | .inappropriateType none .. => return .error .isDirectory
    | .inappropriateType (some _) .. => return .error .notDirectory
    | .invalidArgument (some _) .. => return .error .nameTooLong
    | e => return .error (.other (toString e))

/-- A bound on instructions that no run reaches. -/
def endlessFuel : Nat := 1000000000000000000

def main (args : List String) : IO UInt32 := do
  let stdout ← IO.getStdout
  let stderr ← IO.getStderr
  let contents ← (filesOf args).mapM fun file => return (file, ← readContents file)
  let files : Files := fun file => (contents.lookup file).getD (.error .missing)
  let output := respond endlessFuel files (← stderr.isTty) args
  stdout.putStr output.stdout
  stderr.putStr output.stderr
  return UInt32.ofNat output.status
