import MerkleBatch.CommandLine.Arguments
import MerkleBatch.Service.Config
import MerkleBatch.Shape

/-!
# Commands

What the program can do, by the arguments that ask for it.

* `Command.specs`: the commands and their options.
* `Command.ofInvocation?`: a command with everything it needs.
* `Command.files`, `Command.readsInput`: what it reads.
-/

namespace MerkleBatch.CommandLine

/-- What the program is asked to do. -/
inductive Command where
  /-- Makes keys and writes an artifact. -/
  | setup (output : String) (shape : Shape)
  /-- Writes an artifact with keys from two files. -/
  | importSetup (output provingKey verifyingKey : String) (shape : Shape)
  /-- Writes the verifying key of an artifact. -/
  | exportVerifyingKey (keysFile output : String)
  /-- Writes the compiled circuit of a shape. -/
  | writeCircuit (output : String) (shape : Shape)
  /-- Prints a batch for an empty tree. -/
  | sample (shape : Shape)
  /-- Runs the service. -/
  | start (keysFile : String) (config : Config)
  /-- Proves the batch on the standard input. -/
  | prove (keysFile : String)
  /-- Checks the proof on the standard input. -/
  | verify (keysFile inputHash : String)
deriving DecidableEq

namespace Command

/-- The options that name a shape. -/
def shapeOptions : List OptionSpec := [
  ⟨"tree-depth", .number, "", none⟩,
  ⟨"batch-size", .number, "", none⟩]

/-- The option for the file to write. -/
def outputOption : OptionSpec := ⟨"output", .path, "", none⟩

/-- The option for the artifact to read. -/
def keysOption : OptionSpec := ⟨"keys-file", .path, "", none⟩

/-- The commands and their options. -/
def specs : List CommandSpec := [
  ⟨"setup", "Compile the circuit, generate keys and write the setup artifact",
    outputOption :: shapeOptions⟩,
  ⟨"import-setup", "Build the setup artifact from externally generated keys",
    [outputOption, ⟨"pk", .path, "Encoded proving key", none⟩,
      ⟨"vk", .path, "Encoded verifying key", none⟩] ++ shapeOptions⟩,
  ⟨"export-vk", "Write the verifying key of a setup artifact", [keysOption, outputOption]⟩,
  ⟨"r1cs", "Write the compiled constraint system for a shape", outputOption :: shapeOptions⟩,
  ⟨"gen-test-params", "Print a valid batch for an empty tree as JSON", shapeOptions⟩,
  ⟨"start", "Run the HTTP prover service until Ctrl-C",
    [keysOption,
      ⟨"json-logging", .switch, "Emit JSON log lines instead of the tree layout", none⟩,
      ⟨"prover-address", .text, "", some Config.default.proverAddress⟩,
      ⟨"metrics-address", .text, "", some Config.default.metricsAddress⟩]⟩,
  ⟨"prove", "Read a batch from stdin and write its proof JSON to stdout", [keysOption]⟩,
  ⟨"verify", "Read proof JSON from stdin and check it against an input hash",
    [keysOption, ⟨"input-hash", .text, "0x-prefixed input hash of the batch", none⟩]⟩]

/-- The shape that the options of an invocation name. -/
def shape? (i : Invocation) : Option Shape := do
  let depth ← i.number? "tree-depth"
  let size ← i.number? "batch-size"
  pure ⟨depth, size⟩

/-- The addresses of an invocation; one that is not given has its default. -/
def config (i : Invocation) : Config :=
  ⟨(i.text? "prover-address").getD Config.default.proverAddress,
    (i.text? "metrics-address").getD Config.default.metricsAddress⟩

/-- The command of an invocation; none where an option is missing. -/
def ofInvocation? (i : Invocation) : Option Command :=
  match i.command with
  | "setup" => do pure (setup (← i.text? "output") (← shape? i))
  | "import-setup" => do
    pure (importSetup (← i.text? "output") (← i.text? "pk") (← i.text? "vk") (← shape? i))
  | "export-vk" => do pure (exportVerifyingKey (← i.text? "keys-file") (← i.text? "output"))
  | "r1cs" => do pure (writeCircuit (← i.text? "output") (← shape? i))
  | "gen-test-params" => do pure (sample (← shape? i))
  | "start" => do pure (start (← i.text? "keys-file") (config i))
  | "prove" => do pure (prove (← i.text? "keys-file"))
  | "verify" => do pure (verify (← i.text? "keys-file") (← i.text? "input-hash"))
  | _ => none

/-- The files that a command reads. -/
def files : Command → List String
  | setup _ _ | writeCircuit _ _ | sample _ => []
  | importSetup _ provingKey verifyingKey _ => [provingKey, verifyingKey]
  | exportVerifyingKey keysFile _ | start keysFile _ | prove keysFile | verify keysFile _ =>
    [keysFile]

/-- Whether a command reads the standard input. -/
def readsInput : Command → Bool
  | prove _ | verify _ _ => true
  | setup _ _ | importSetup _ _ _ _ | exportVerifyingKey _ _ | writeCircuit _ _ | sample _
  | start _ _ => false

end Command

end MerkleBatch.CommandLine
