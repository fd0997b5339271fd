import TemplateAtlas.CommandLine.Grammar

/-!
# Reading command lines

The words of a command line are read from left to right by the grammar of a command. What is given
to an option is checked when the next argument begins, the commands below a command are read before
the command itself is checked, and then missing values come from the environment.
-/

namespace TemplateAtlas.CommandLine

/-- What was given to a parameter. -/
inductive Given where
  /-- A flag. -/
  | flag
  /-- A flag, so often. -/
  | count (n : Nat)
  /-- A text. -/
  | text (value : String)
  /-- A number. -/
  | number (n : Nat)
  deriving DecidableEq, Repr

/-- A parameter with what was given to it. -/
structure Match where
  /-- The parameter. -/
  name : String
  /-- What was given. -/
  given : Given
  /-- Did the environment give it? -/
  fromEnvironment : Bool := false
  deriving DecidableEq, Repr

/-- The matches of a list for a name. -/
def matchFor? (matched : List Match) (name : String) : Option Match :=
  matched.find? (·.name = name)

/-- What a command was given. -/
structure Level where
  /-- The name of the command. -/
  command : String
  /-- The parameters that were given. -/
  matched : List Match
  deriving DecidableEq, Repr

/-- What has been read of a command. -/
structure State where
  /-- The parameters that were given. -/
  matched : List Match := []
  /-- The parameter that was read last, with its value if that has been read too. -/
  pending? : Option (Parameter × Option String) := none
  /-- Have two dashes said that no options follow? -/
  plainOnly : Bool := false
  /-- Has an operand been read? -/
  hasOperand : Bool := false

/-! ### Values -/

/-- The number that decimal digits write, if it fits a word of 64 bits. A plus in front does not
count. -/
def readNumber? (value : String) : Option Nat :=
  let digits := match value.toList with
    | '+' :: digits => digits
    | digits => digits
  if digits.isEmpty || !digits.all Char.isDigit then none
  else
    let n := digits.foldl (fun n c => 10 * n + (c.toNat - 48)) 0
    if n < UInt64.size then some n else none

/-- What a value gives to a parameter. -/
def readValue (name : String) (kind : ValueKind) (value : String) : Except Refusal Given :=
  match kind with
  | .path => if value.isEmpty then .error (.invalidValue name value) else .ok (.text value)
  | .choice words =>
    if words.contains value then .ok (.text value) else .error (.invalidValue name value)
  | .number =>
    match readNumber? value with
    | some n => .ok (.number n)
    | none => .error (.invalidNumber name value)

/-- The matches with one more turn of a counter. -/
def countUp (name : String) (matched : List Match) : List Match :=
  match matchFor? matched name with
  | some ⟨_, .count n, _⟩ => matched.map fun m =>
    if m.name = name then ⟨name, .count (n + 1), false⟩ else m
  | _ => matched ++ [⟨name, .count 1, false⟩]

/-- The state with a parameter given. Only counters may be given twice. -/
def State.record (command : String) (p : Parameter) (value? : Option String) (s : State) :
    Except Refusal State :=
  let repeated := (matchFor? s.matched p.name).isSome
  match p.kind with
  | .help => .error (.help command)
  | .version => .error .version
  | .counter => .ok { s with matched := countUp p.name s.matched }
  | .flag =>
    if repeated then .error (.repeated p.name)
      else .ok { s with matched := s.matched ++ [⟨p.name, .flag, false⟩] }
  | .value kind =>
    match value? with
    | none => .error (.invalidValue p.name "")
    | some value =>
      if repeated then .error (.repeated p.name)
      else do return { s with matched := s.matched ++ [⟨p.name,
        ← readValue p.name kind value, false⟩] }

/-- The state with the pending parameter given. -/
def State.settle (command : String) (s : State) : Except Refusal State :=
  match s.pending? with
  | none => .ok s
  | some (p, value?) => State.record command p value? { s with pending? := none }

/-- Is a value awaited? -/
def State.awaitsValue (s : State) : Bool :=
  s.pending? matches some (_, none)

/-! ### Words -/

/-- What a word looks like. -/
inductive Word where
  /-- Two dashes alone. -/
  | dashes
  /-- An option by its long name, with a value after an equals sign. -/
  | long (name : String) (value? : Option String)
  /-- Options by their letters. -/
  | letters (cs : List Char)
  /-- Anything else. -/
  | plain
  deriving DecidableEq, Repr

/-- The parts of an option before and after the first equals sign. -/
def splitEquals (cs : List Char) : String × Option String :=
  match cs.dropWhile (· ≠ '=') with
  | [] => (String.ofList cs, none)
  | _ :: value => (String.ofList (cs.takeWhile (· ≠ '=')), some (String.ofList value))

/-- What a word looks like. A dash alone is plain. -/
def Word.of (word : String) : Word :=
  match word.toList with
  | ['-', '-'] => .dashes
  | '-' :: '-' :: cs => .long (splitEquals cs).1 (splitEquals cs).2
  | '-' :: c :: cs => .letters (c :: cs)
  | _ => .plain

/-- A parameter that takes no value, or one with its value joined to it, is given at once; other
values are awaited. -/
def State.start (command : String) (p : Parameter) (value? : Option String) (s : State) :
    Except Refusal State := do
  let s ← s.settle command
  if p.takesValue && value?.isNone then return { s with pending? := some (p, none) }
  else s.record command p value?

/-- The state after an option by its long name. -/
def State.long (c : Command) (name : String) (value? : Option String) (s : State) :
    Except Refusal State :=
  match c.optionNamed? name, value? with
  | none, _ => .error (.unknownArgument name)
  | some p, some value =>
    if p.takesValue then s.start c.name p value? else .error (.unneededValue name value)
  | some p, none => s.start c.name p none

/-- The state after options by their letters. What follows the letter of an option with a value is
the value, after an equals sign or not. -/
def State.letters (c : Command) : List Char → State → Except Refusal State
  | [], s => .ok s
  | letter :: rest, s =>
    match c.optionLettered? letter with
    | none => .error (.unknownArgument (String.singleton letter))
    | some p =>
      if p.takesValue then
        match rest with
        | [] => s.start c.name p none
        | '=' :: value => s.start c.name p (some (String.ofList value))
        | value => s.start c.name p (some (String.ofList value))
      else do State.letters c rest (← s.start c.name p none)

/-- The state after a word that is no option: the value that is awaited, or an operand. -/
def State.plain (c : Command) (word : String) (s : State) : Except Refusal State :=
  match s.pending?, s.plainOnly with
  | some (p, none), false => .ok { s with pending? := some (p, some word) }
  | _, _ =>
    match c.operand?, s.hasOperand with
    | some p, false => do
      let s ← s.settle c.name
      return { s with pending? := some (p, some word), hasOperand := true }
    | _, _ =>
      if c.commands.isEmpty || (s.plainOnly && c.knows word) then .error (.unknownArgument word)
      else .error (.unknownCommand word)

/-! ### Command lines -/

/-- What the environment gives to a parameter, if it is not given yet. -/
def environmentMatch (environment : String → Option String) (matched : List Match) (p : Parameter) :
    Except Refusal (Option Match) :=
  match p.kind, p.envVariable?.bind environment, matchFor? matched p.name with
  | .value kind, some value, none => do return some ⟨p.name, ← readValue p.name kind value, true⟩
  | _, _, _ => .ok none

/-- What a command was given, once all its words are read. -/
def State.finish (environment : String → Option String) (c : Command) (goesOn : Bool) (s : State) :
    Except Refusal Level := do
  let s ← s.settle c.name
  let others ← c.parameters.mapM (environmentMatch environment s.matched)
  let matched := s.matched ++ others.filterMap id
  if !goesOn && !c.commands.isEmpty then
    if matched.isEmpty then .error (.nothingGiven c.name) else .error (.missingCommand c.name)
  else
    let missing := c.parameters.filter fun p => p.required && (matchFor? matched p.name).isNone
    if missing.isEmpty then return ⟨c.name, matched⟩
      else .error (.missingParameter (missing.map (·.name)))

/-- The answer to words after the word for help: help on the command that they lead to. -/
def helpOn (c : Command) : List String → Refusal
  | [] => .help c.name
  | word :: rest =>
    match c.command? word with
    | some sub => helpOn sub rest
    | none =>
      if !c.commands.isEmpty && word = helpWord && rest.isEmpty then .help helpWord
      else .unknownCommand (if word = helpWord then rest.headD word else word)

/-- What a command and the commands below it were given. -/
def read (environment : String → Option String) (c : Command) (s : State) :
    List String → Except Refusal (List Level)
  | [] => do return [← s.finish environment c false]
  | word :: rest =>
    if s.plainOnly then do read environment c (← s.plain c word) rest
    else if !s.awaitsValue && c.knows word then
      match c.command? word with
      | none => .error (helpOn c rest)
      | some sub => do
        let deeper ← read environment sub {} rest
        return (← s.finish environment c true) :: deeper
    else
      match Word.of word with
      | .dashes => read environment c { s with plainOnly := true } rest
      | .long name value? => do read environment c (← s.long c name value?) rest
      | .letters cs => do read environment c (← s.letters c cs) rest
      | .plain => do read environment c (← s.plain c word) rest

/-- What the commands on a command line were given, from the outermost on. -/
def Command.read? (c : Command) (environment : String → Option String) (words : List String) :
    Except Refusal (List Level) :=
  read environment c {} words

end TemplateAtlas.CommandLine
