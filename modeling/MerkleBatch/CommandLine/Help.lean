import MerkleBatch.CommandLine.Arguments

/-!
# Help

What the program says about itself and its commands. Commands and options stand in two columns, the
explanation beside what it explains; a line is as long as its explanation makes it.

* `Topic.text`: the help on the program, on a command, or on help itself.
* `Entry`, `entries`: the two columns.
-/

namespace MerkleBatch.CommandLine

/-- The name of the program. -/
def programName : String := "batch-insertion-prover"

/-- What a list explains, and the explanation. -/
structure Entry where
  head : String
  about : String

namespace Entry

/-- The line of an entry among others with heads of at most the given width. -/
def line (width : Nat) (e : Entry) : String :=
  "  " ++ String.ofList (e.head.toList.rightpad (width + 2) ' ') ++ e.about

end Entry

/-- The lines of a list; the explanations begin in one column, after the longest head. -/
def entries (list : List Entry) : String :=
  let width := list.foldl (fun width e => max width e.head.length) 0
  "\n".intercalate (list.map (Entry.line width))

/-- The word that stands for the value of an option. -/
def placeholder (name : String) : String :=
  name.map fun c => if c = '-' then '_' else c.toUpper

namespace OptionSpec

/-- An option as it is written with its value. -/
def written (o : OptionSpec) : String :=
  match o.kind with
  | .switch => "--" ++ o.name
  | .text | .path | .number => "--" ++ o.name ++ " <" ++ placeholder o.name ++ ">"

/-- The explanation of an option, with the value it has if it is not given. -/
def explanation (o : OptionSpec) : String :=
  match o.fallback with
  | none => o.about
  | some value => o.about ++ "[default: " ++ value ++ "]"

/-- An option without a letter of its own, under those that have one. -/
def entry (o : OptionSpec) : Entry := ⟨"    " ++ o.written, o.explanation⟩

end OptionSpec

/-- The option for verbosity. -/
def verboseEntry : Entry :=
  ⟨"-v, --verbose...", "Increase output verbosity (-v for DEBUG, -vv for TRACE)"⟩

/-- The option for help. -/
def helpEntry : Entry := ⟨"-h, --help", "Print help"⟩

/-- The option for the version. -/
def versionEntry : Entry := ⟨"-V, --version", "Print version"⟩

/-- What the command for help does. -/
def helpAbout : String := "Print this message or the help of the given subcommand(s)"

/-- How the program is called. -/
def usage : String := "Usage: " ++ programName ++ " [OPTIONS] <COMMAND>\n"

namespace CommandSpec

/-- How a command is called. -/
def usage (c : CommandSpec) : String :=
  let required := c.options.filter (·.isRequired)
  "Usage: " ++ programName ++ " " ++ c.name ++ " [OPTIONS]" ++
    String.join (required.map fun o => " " ++ o.written) ++ "\n"

/-- The help on a command. -/
def help (c : CommandSpec) : String :=
  c.about ++ "\n\n" ++ c.usage ++ "\nOptions:\n" ++
    entries (c.options.map OptionSpec.entry ++ [verboseEntry, helpEntry]) ++ "\n"

end CommandSpec

namespace Topic

/-- The help on a topic. -/
def text (commands : List CommandSpec) : Topic → String
  | program =>
    "Command-line arguments for the batch insertion prover\n\n" ++ usage ++ "\nCommands:\n" ++
      entries (commands.map (fun c => ⟨c.name, c.about⟩) ++ [⟨"help", helpAbout⟩]) ++
      "\n\nOptions:\n" ++ entries [verboseEntry, helpEntry, versionEntry] ++ "\n"
  | command spec => spec.help
  | help =>
    helpAbout ++ "\n\nUsage: " ++ programName ++ " help [COMMAND]...\n\nArguments:\n" ++
      entries [⟨"[COMMAND]...", "Print help for the subcommand(s)"⟩] ++ "\n"

end Topic

end MerkleBatch.CommandLine
