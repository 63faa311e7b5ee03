import CommittedRegex.CommandLine.Session

/-! # The program

Runs a session on the files, the environment and the standard streams of the process. -/
namespace CommittedRegex.CommandLine

def reasonOf : IO.Error → String
  | .noFileOrDirectory _ code details => details ++ " (os error " ++ toString code ++ ")"
  | .inappropriateType _ code details => details ++ " (os error " ++ toString code ++ ")"
  | .permissionDenied _ code details => details ++ " (os error " ++ toString code ++ ")"
  | .invalidArgument _ code details => details ++ " (os error " ++ toString code ++ ")"
  | .resourceExhausted _ code details => details ++ " (os error " ++ toString code ++ ")"
  | error => toString error

/-- The process as a host. -/
def process : Host IO where
  overrides := return {
    maxSteps := ← IO.getEnv Config.maxStepsVariable
    zeroWidth := ← IO.getEnv Config.zeroWidthVariable }
  readFile path := do
    try
      let handle ← IO.FS.Handle.mk path .read
      return .ok (← handle.readBinToEnd)
    catch error => return .error (reasonOf error)
  readInput := do
    let input ← IO.getStdin
    let mut bytes := ByteArray.empty
    repeat
      let more ← input.read 65536
      if more.isEmpty then break
      bytes := bytes ++ more
    return bytes
  parse := PatternFile.parse
  writeFile path content := do
    let created : Except String IO.FS.Handle ←
      try pure (.ok (← IO.FS.Handle.mk path .write))
      catch error => pure (.error (reasonOf error))
    match created with
    | .error reason => return .error (.notCreated reason)
    | .ok handle =>
      try
        handle.putStr content
        handle.flush
        return .ok ()
      catch error => return .error (.notWritten (reasonOf error))

end CommittedRegex.CommandLine

def main (arguments : List String) : IO UInt32 := do
  let outcome ← CommittedRegex.CommandLine.run CommittedRegex.CommandLine.process arguments
  IO.eprint outcome.messages
  IO.print outcome.output
  return outcome.status.code.toUInt32
