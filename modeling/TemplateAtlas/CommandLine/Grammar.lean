/-!
# Grammars of command lines

A command takes options, at most one operand, and one of its commands in turn. An option is written
with a long name after two dashes or a letter after one; letters may be joined, and a value may be
joined to its option.
-/

namespace TemplateAtlas.CommandLine

/-- What the value of an option must look like. -/
inductive ValueKind where
  /-- Any text but the empty one. -/
  | path
  /-- A number that fits a word of 64 bits. -/
  | number
  /-- One of certain words. -/
  | choice (words : List String)
  deriving DecidableEq, Repr

/-- What an option does. -/
inductive ParameterKind where
  /-- It is given or not. -/
  | flag
  /-- It counts how often it is given. -/
  | counter
  /-- It takes a value. -/
  | value (kind : ValueKind)
  /-- It asks for help. -/
  | help
  /-- It asks for the version. -/
  | version
  deriving DecidableEq, Repr

/-- An option or an operand. -/
structure Parameter where
  /-- The long name. -/
  name : String
  /-- The letter. -/
  letter? : Option Char := none
  /-- What it does. -/
  kind : ParameterKind
  /-- Must it be given? -/
  required : Bool := false
  /-- The variable of the environment that gives the value if the command line does not. -/
  envVariable? : Option String := none
  deriving DecidableEq, Repr

/-- Does the option take a value? -/
def Parameter.takesValue (p : Parameter) : Bool :=
  p.kind matches .value _

/-- A command. -/
inductive Command where
  /-- A command with its name, options, operand and commands. -/
  | mk (name : String) (options : List Parameter) (operand? : Option Parameter)
      (commands : List Command)
  deriving Repr

namespace Command

/-- The name. -/
def name : Command → String
  | mk name .. => name

/-- The options. -/
def options : Command → List Parameter
  | mk _ options .. => options

/-- The operand. -/
def operand? : Command → Option Parameter
  | mk _ _ operand? _ => operand?

/-- The commands. -/
def commands : Command → List Command
  | mk _ _ _ commands => commands

/-- The command of a name. -/
def command? (c : Command) (name : String) : Option Command :=
  c.commands.find? (·.name = name)

/-- The option of a long name. -/
def optionNamed? (c : Command) (name : String) : Option Parameter :=
  c.options.find? (·.name = name)

/-- The option of a letter. -/
def optionLettered? (c : Command) (letter : Char) : Option Parameter :=
  c.options.find? (·.letter? = some letter)

/-- Options and operand. -/
def parameters (c : Command) : List Parameter :=
  c.options ++ c.operand?.toList

end Command

/-- The word that asks for help wherever a command is expected. -/
def helpWord : String :=
  "help"

/-- Does the word name a command here? Where there are commands, the word for help is one. -/
def Command.knows (c : Command) (word : String) : Bool :=
  (c.command? word).isSome || (!c.commands.isEmpty && word = helpWord)

/-- Why a command line is not carried out. -/
inductive Refusal where
  /-- An option or a word that is not known. -/
  | unknownArgument (word : String)
  /-- A value that is missing or not among the words that are allowed. -/
  | invalidValue (parameter value : String)
  /-- A value that is no number. -/
  | invalidNumber (parameter value : String)
  /-- An option is missing. -/
  | missingParameter (names : List String)
  /-- An option is given twice. -/
  | repeated (parameter : String)
  /-- A value for an option that takes none. -/
  | unneededValue (parameter value : String)
  /-- A command that is not known. -/
  | unknownCommand (word : String)
  /-- A command is missing. -/
  | missingCommand (command : String)
  /-- Help on a command is asked for. -/
  | help (command : String)
  /-- The version is asked for. -/
  | version
  /-- A command is missing, and nothing else is given either. -/
  | nothingGiven (command : String)
  deriving DecidableEq, Repr

namespace Refusal

/-- The exit code: answers are no failures. -/
def code : Refusal → Nat
  | help _ => 0
  | version => 0
  | _ => 2

/-- The wording. -/
def message : Refusal → String
  | unknownArgument word => "error: unexpected argument '" ++ word ++ "' found"
  | invalidValue parameter value =>
    "error: invalid value '" ++ value ++ "' for '" ++ parameter ++ "'"
  | invalidNumber parameter value =>
    "error: '" ++ value ++ "' is no number for '" ++ parameter ++ "'"
  | missingParameter names => "error: missing arguments: " ++ ", ".intercalate names
  | repeated parameter => "error: '" ++ parameter ++ "' cannot be used multiple times"
  | unneededValue parameter value =>
    "error: unexpected value '" ++ value ++ "' for '" ++ parameter ++ "'"
  | unknownCommand word => "error: unrecognized subcommand '" ++ word ++ "'"
  | missingCommand command => "error: '" ++ command ++ "' requires a subcommand"
  | help command => "usage: " ++ command
  | version => "version"
  | nothingGiven command => "usage: " ++ command

end Refusal

end TemplateAtlas.CommandLine
