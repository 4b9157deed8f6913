/-!
# Arguments

A command line names a command and its options. An option with a value is given as two arguments or
as one with an equals sign between; a value on its own does not begin with a hyphen, unless it is
nothing else. No option may be given twice, except the one for verbosity, which may stand
anywhere.

* `OptionKind.accepts`: which values an option takes.
* `Invocation.parse`: the command and the values of its options.
-/

namespace MerkleBatch.CommandLine

/-- What an option takes. -/
inductive OptionKind where
  /-- Any text. -/
  | text
  /-- A text that is not empty. -/
  | path
  /-- A whole number of 32 bits. -/
  | number
  /-- Nothing: the option is given or not. -/
  | switch
deriving DecidableEq

/-- An option of a command. -/
structure OptionSpec where
  name : String
  kind : OptionKind
  about : String
  /-- The value of the option where it is not given. -/
  fallback : Option String
deriving DecidableEq

/-- Whether an option has to be given. -/
def OptionSpec.isRequired (o : OptionSpec) : Bool := o.kind ≠ .switch && o.fallback.isNone

/-- A command with its options. -/
structure CommandSpec where
  name : String
  about : String
  options : List OptionSpec
deriving DecidableEq

/-- Reads decimal digits. -/
def decimal? (digits : List Char) : Option Nat :=
  if digits ≠ [] ∧ digits.all Char.isDigit then
    some (digits.foldl (fun n c => 10 * n + (c.toNat - 48)) 0)
  else none

/-- A whole number of 32 bits; a sign is allowed, but the number is not negative. -/
def word? (text : String) : Option UInt32 :=
  let value? := match text.toList with
    | '+' :: digits => decimal? digits
    | '-' :: digits => (decimal? digits).filter (· = 0)
    | digits => decimal? digits
  match value? with
  | none => none
  | some n => if n < 0x100000000 then some (UInt32.ofNat n) else none

namespace OptionKind

/-- Whether an option of this kind takes a value. -/
def accepts (kind : OptionKind) (value : String) : Bool :=
  match kind with
  | text => true
  | path => value ≠ ""
  | number => (word? value).isSome
  | switch => false

end OptionKind

/-- A command as it was called. -/
structure Invocation where
  command : String
  /-- The options that were given, each with its value. -/
  values : List (String × String)
deriving DecidableEq

/-- What there is help on. -/
inductive Topic where
  | program
  | command (spec : CommandSpec)
  /-- The command for help. -/
  | help
deriving DecidableEq

/-- What a command line asks for. -/
inductive Request where
  | run (invocation : Invocation)
  /-- The name and version of the program. -/
  | version
  | help (topic : Topic)
deriving DecidableEq

/-- How far a command line was read. -/
structure ReadState where
  /-- The command, once it was named. -/
  command : Option CommandSpec
  values : List (String × String)

/-- Whether an argument is a bundle of `v`s. -/
def isVerbosity (letters : List Char) : Bool := letters ≠ [] && letters.all (· = 'v')

/-- Whether an argument can be the value of the option in front of it. -/
def isValue (argument : String) : Bool := argument = "-" || argument.toList.head? ≠ some '-'

/-- Takes in a value of an option; none if the option is given twice or does not take it. -/
def take? (state : ReadState) (option : OptionSpec) (value : String) : Option ReadState :=
  if (state.values.lookup option.name).isSome || !option.kind.accepts value then none
  else some { state with values := (option.name, value) :: state.values }

/-- Takes in an option without a value. -/
def takeSwitch? (state : ReadState) (option : OptionSpec) : Option ReadState :=
  if (state.values.lookup option.name).isSome || option.kind ≠ .switch then none
  else some { state with values := (option.name, "") :: state.values }

/-- The option of the current command with a name. -/
def option? (state : ReadState) (name : List Char) : Option OptionSpec :=
  match state.command with
  | none => none
  | some spec => spec.options.find? (·.name.toList = name)

/-- What an option for help asks for: help on the command, once it was named. -/
def topicHere (state : ReadState) : Topic :=
  match state.command with
  | none => .program
  | some spec => .command spec

/-- What the names behind the command for help ask for: at most one is understood. -/
def topic? (commands : List CommandSpec) : List String → Option Topic
  | [] => some .program
  | [name] => if name = "help" then some .help else (commands.find? (·.name = name)).map .command
  | _ => none

/-- Reads arguments onto what was read before. -/
def readArguments (commands : List CommandSpec) (state : ReadState) :
    List String → Option Request
  | [] => state.command.map fun spec => .run ⟨spec.name, state.values⟩
  | argument :: rest =>
    match argument.toList with
    | ['-', '-'] =>
      if rest = [] then state.command.map fun spec => .run ⟨spec.name, state.values⟩ else none
    | '-' :: '-' :: body =>
      let name := body.takeWhile (· ≠ '=')
      if body = "verbose".toList then readArguments commands state rest
      else if body = "help".toList then some (.help (topicHere state))
      else if body = "version".toList ∧ state.command = none then some .version
      else
        match option? state name with
        | none => none
        | some option =>
          if name.length < body.length then
            match take? state option (String.ofList (body.drop (name.length + 1))) with
            | none => none
            | some state => readArguments commands state rest
          else if option.kind = .switch then
            match takeSwitch? state option with
            | none => none
            | some state => readArguments commands state rest
          else
            match rest with
            | value :: rest =>
              if isValue value then
                match take? state option value with
                | none => none
                | some state => readArguments commands state rest
              else none
            | [] => none
    | '-' :: letters =>
      if isVerbosity letters then readArguments commands state rest
      else
        match letters.dropWhile (· = 'v') with
        | 'h' :: _ => some (.help (topicHere state))
        | 'V' :: _ => if state.command = none then some .version else none
        | _ => none
    | _ =>
      match state.command, commands.find? (·.name = argument) with
      | none, some spec => readArguments commands { state with command := some spec } rest
      | none, none => if argument = "help" then (topic? commands rest).map .help else none
      | some _, _ => none

namespace Invocation

/-- What the arguments of a program ask for; none where they are not understood. -/
def parse (commands : List CommandSpec) (arguments : List String) : Option Request :=
  readArguments commands ⟨none, []⟩ arguments

/-- The value of an option that takes text or a path. -/
def text? (i : Invocation) (name : String) : Option String := i.values.lookup name

/-- The value of an option that takes a number. -/
def number? (i : Invocation) (name : String) : Option UInt32 := (i.text? name).bind word?

/-- Whether a switch is given. -/
def has (i : Invocation) (name : String) : Bool := (i.text? name).isSome

end Invocation

end MerkleBatch.CommandLine
