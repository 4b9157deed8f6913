import MerkleBatch.CommandLine

/-!
# The program

Reads what a command asks for, and does what it comes to. The program ends with 0 on success, with
1 on failure, and with 2 where its arguments are not understood.
-/

namespace MerkleBatch.CommandLine

/-- What an error of the system says about a file. -/
def faultOf : IO.Error → FileFault
  | .noFileOrDirectory _ _ _ => .missing
  | .inappropriateType _ code _ => if code = 21 then .isDirectory else .notDirectory
  | .invalidArgument _ 36 _ => .nameTooLong
  | error => .other (toString error)

/-- The bytes of a file, or why there are none. -/
def fileBytes (path : String) : IO (Except FileFault (List UInt8)) :=
  try
    return .ok (← IO.FS.readBinFile path).toList
  catch error => return .error (faultOf error)

/-- What a call can read. -/
def surroundings : Call → IO Surroundings
  | .print _ => return ⟨fun _ => .error .missing, ByteArray.empty⟩
  | .command command => do
    let mut files := []
    for path in command.files do
      files := (path, ← fileBytes path) :: files
    let input ← if command.readsInput then (← IO.getStdin).readBinToEnd else pure ByteArray.empty
    return ⟨fun path => (files.lookup path).getD (.error .missing), input⟩

/-- Reports a failure. -/
def fail (failed : Failed) : IO UInt32 := do
  IO.eprintln failed.report
  return 1

/-- Does what a command came to. -/
def perform : Effect → IO UInt32
  | .print text => do
    IO.print text
    return 0
  | .write path bytes failure =>
    try
      IO.FS.writeBinFile path (ByteArray.mk bytes.toArray)
      return 0
    catch error => fail (failure (faultOf error))
  | .serve _ _ => do
    IO.eprintln "Error: no network to listen on"
    return 1

end MerkleBatch.CommandLine

open MerkleBatch.CommandLine

/-- Does what the arguments ask for. -/
def main (arguments : List String) : IO UInt32 := do
  match call? arguments with
  | none =>
    IO.eprint usage
    return 2
  | some call =>
    match run (← surroundings call) call with
    | .error failed => fail failed
    | .ok effect => perform effect
