import ViewEngine.CommandLine.Run

namespace ViewEngine.Main

def errorNumber (code : UInt32) : UInt32 :=
  min code (0 - code)

def faultOf : IO.Error → FileFault
  | .noFileOrDirectory .. => .missing
  | .inappropriateType _ code details =>
    let code := errorNumber code
    if code = 20 then .notADirectory else if code = 21 then .isADirectory else .other details
  | .invalidArgument _ code details =>
    if errorNumber code = 36 then .nameTooLong else .other details
  | e => .other (toString e)

def readFile (path : String) : IO (Except FileFault String) := do
  try
    return .ok (← IO.FS.readFile path)
  catch e =>
    return .error (faultOf e)

def holds (path : String) : IO Bool := do
  try
    let _ ← IO.FS.Handle.mk path .read
    return true
  catch e =>
    return faultOf e ∉ [.missing, .notADirectory, .nameTooLong]

def host : Host IO where
  read := readFile
  holds := holds
  getVariable name := IO.getEnv name

end ViewEngine.Main

def main (arguments : List String) : IO UInt32 := do
  let outcome ← ViewEngine.CommandLine.run ViewEngine.Main.host arguments
  (← IO.getStdout).putStr outcome.output
  (← IO.getStderr).putStr outcome.errors
  return outcome.exitCode.toUInt32
