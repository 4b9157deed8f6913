import MerkleBatch.Batch.Json
import MerkleBatch.Batch.Recording
import MerkleBatch.CommandLine.Command
import MerkleBatch.CommandLine.Files
import MerkleBatch.CommandLine.Help
import MerkleBatch.Proof
import MerkleBatch.Prover.Artifact
import MerkleBatch.Prover.Seal
import MerkleBatch.Text.Utf8

/-!
# The command line

What each command does, given the files it can read and its standard input: what it prints, what it
writes, or why it fails. A failure is reported with its causes, outermost first.

* `call?`, `run`: from arguments to the result.
* `Failed.report`: the report of a failure.
-/

namespace MerkleBatch.CommandLine

/-- The files that can be read, and the standard input. -/
structure Surroundings where
  file : String → Except FileFault (List UInt8)
  input : ByteArray

/-- A failure: its message and those of its causes, outermost first. -/
structure Failed where
  message : String
  causes : List String
deriving DecidableEq

namespace Failed

/-- The failure of an error on its own. -/
def ofError (e : Error) : Failed := ⟨e.display, e.chain.drop 1⟩

/-- An error below a message that says what was being done. -/
def within (context : String) (e : Error) : Failed := ⟨context, e.chain⟩

/-- The numbered causes, from the number `first` on. -/
def numbered (first : Nat) : List String → List String
  | [] => []
  | cause :: rest => s!"\n    {first}: {cause}" :: numbered (first + 1) rest

/-- The report of a failure. A single cause stands alone, several are numbered. -/
def report (f : Failed) : String :=
  "Error: " ++ f.message ++
    match f.causes with
    | [] => ""
    | [cause] => "\n\nCaused by:\n    " ++ cause
    | causes => "\n\nCaused by:" ++ String.join (numbered 0 causes)

end Failed

/-- What is to be done when a command has succeeded. -/
inductive Effect where
  | print (text : String)
  /-- A file is to be written; if there cannot be one, that is the failure. -/
  | write (path : String) (bytes : List UInt8) (failure : FileFault → Failed)
  | serve (prover : Prover) (config : Config)

/-- The error of a file that is not there. -/
def FileFault.toError (fault : FileFault) : Error := .io fault.message

/-- The bytes of a file. -/
def Surroundings.contents (s : Surroundings) (path : String) : Except Error (List UInt8) :=
  (s.file path).mapError FileFault.toError

/-- The prover in a file; what follows the artifact does not matter. A directory opens like a file,
but has no header. -/
def readArtifact (s : Surroundings) (path : String) : Except Error Prover :=
  match s.file path with
  | .error .isDirectory => .error (Artifact.headerError FileFault.isDirectory.message)
  | .error fault => .error fault.toError
  | .ok bytes => (Artifact.read bytes).map Prod.fst

/-- The prover in a file that a command names. -/
def loadProver (s : Surroundings) (path : String) : Except Failed Prover :=
  (readArtifact s path).mapError (.within ("loading setup from " ++ path))

/-- The standard input as text. -/
def inputText (s : Surroundings) : Except Failed String :=
  match Utf8.decode s.input with
  | .ok text => .ok text
  | .error _ => .error ⟨"stream did not contain valid UTF-8", []⟩

/-- The failure of a computation for a batch. -/
def Failed.ofFailure : Failure → Failed
  | .error cause => .ofError cause
  | .stopped overflow => ⟨overflow.message, []⟩

/-- Reads both key files, and makes a prover of them. -/
def importProver (s : Surroundings) (provingKey verifyingKey : String) (shape : Shape) :
    Except Error Prover := do
  let proving ← s.contents provingKey
  let verifying ← s.contents verifyingKey
  Prover.importKeys shape proving verifying

/-- The failure of a file that cannot be written. -/
def Failed.ofFile (fault : FileFault) : Failed := .ofError fault.toError

/-- Carries out a command. -/
def execute (s : Surroundings) : Command → Except Failed Effect
  | .setup output shape => do
    let p ← (Prover.setup shape).mapError .ofError
    pure (.write output p.toBytes .ofFile)
  | .importSetup output provingKey verifyingKey shape => do
    let p ← (importProver s provingKey verifyingKey shape).mapError (.within "importing setup")
    pure (.write output p.toBytes .ofFile)
  | .exportVerifyingKey keysFile output => do
    let p ← loadProver s keysFile
    pure (.write output p.keys.verifyingBytes .ofFile)
  | .writeCircuit output shape => do
    let circuit ← (Prover.compile shape).mapError .ofError
    pure (.write output (Artifact.circuitBytes circuit) fun fault =>
      ⟨"creating " ++ output, [fault.message]⟩)
  | .sample shape => do
    let b ← (Batch.sample shape).mapError fun error => ⟨error.message, []⟩
    pure (.print (b.toJson ++ "\n"))
  | .start keysFile config => do
    let p ← loadProver s keysFile
    config.check.mapError fun error => ⟨error.chain.headD "", error.chain.drop 1⟩
    pure (.serve p config)
  | .prove keysFile => do
    let p ← loadProver s keysFile
    let b ← (Batch.ofJson? (← inputText s)).mapError .ofError
    let proof ← (p.prove b).mapError .ofFailure
    pure (.print (proof.toJson ++ "\n"))
  | .verify keysFile inputHash => do
    let p ← loadProver s keysFile
    let hash ← (Scalar.ofHex? inputHash).mapError fun error =>
      Failed.within "parsing --input-hash" (.parse error.message)
    let proof ← (Proof.ofJson? (← inputText s)).mapError .ofError
    (p.verify hash proof).mapError .ofError
    pure (.print "")

/-- What arguments come to. -/
inductive Call where
  | command (command : Command)
  | print (text : String)

/-- The name and version of the program. -/
def versionText : String := programName ++ " 0.1.0\n"

/-- What the arguments of the program come to; none where they are not understood. -/
def call? (arguments : List String) : Option Call :=
  match Invocation.parse Command.specs arguments with
  | none => none
  | some .version => some (.print versionText)
  | some (.help topic) => some (.print (topic.text Command.specs))
  | some (.run invocation) => (Command.ofInvocation? invocation).map .command

/-- The result of a call. -/
def run (s : Surroundings) : Call → Except Failed Effect
  | .command command => execute s command
  | .print text => .ok (.print text)

end MerkleBatch.CommandLine
