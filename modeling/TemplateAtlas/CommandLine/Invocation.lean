import TemplateAtlas.CommandLine.Reading
import TemplateAtlas.Drawing.Dot
import TemplateAtlas.Report.Hubs

/-!
# Invocations

The commands of the program, and what a command line asks for.
-/

namespace TemplateAtlas.CommandLine

/-- The format of an answer. -/
inductive OutputFormat where
  /-- Lines to read. -/
  | text
  /-- A JSON document. -/
  | json
  /-- A DOT graph. -/
  | dot
  deriving DecidableEq, Repr, Inhabited

/-- The workspace to work in. -/
structure WorkspaceChoice where
  /-- Its root. -/
  root : Path
  /-- Do ignore files count for nothing? -/
  noIgnore : Bool
  deriving Repr

/-- What the command line says about drawings. -/
structure DotChoice where
  /-- Are nodes grouped by repository? -/
  clusters? : Option Bool
  /-- Is there a legend? -/
  legend? : Option Bool
  /-- The colours. -/
  theme? : Option DotTheme
  /-- The direction of the ranks. -/
  ranks? : Option RankDirection
  /-- The shape of the edges. -/
  edges? : Option EdgeShape
  /-- Are the corners of nodes round? -/
  rounded? : Option Bool
  deriving Repr

/-- A question to a workspace. -/
inductive Query where
  /-- What does a file refer to? -/
  | templates (file : Path) (depth? : Option Nat) (style : DotChoice)
  /-- What refers to a file? Without the index, the corpus is read. -/
  | callers (file : Path) (depth? : Option Nat) (noIndex : Bool) (style : DotChoice)
  /-- What does a file declare? -/
  | parameters (file : Path)
  /-- What became of the references of a file? -/
  | references (file : Path)
  /-- What is wrong in a file? Errors may make the program fail. -/
  | diagnostics (file : Path) (failOnError : Bool)
  /-- Which references close cycles? -/
  | cycles
  /-- How does one file refer to another? -/
  | path (source goal : Path)
  /-- Which files have the most ties? -/
  | hubs (metric : HubMetric) (top : Nat)
  deriving Repr

/-- What the program is asked to do. -/
inductive Action where
  /-- Draw the graph of a workspace, and write it to files. -/
  | graph (workspace : WorkspaceChoice) (json? dot? : Option Path) (style : DotChoice)
  /-- Answer a question. -/
  | query (workspace : WorkspaceChoice) (format? : Option OutputFormat) (query : Query)
  /-- Follow the changes of a workspace. -/
  | watch (workspace : WorkspaceChoice) (file? : Option Path) (depth? : Option Nat)
  /-- Print the words that a shell may complete. -/
  | completions (shell : String)
  deriving Repr

/-- What a command line asks for. -/
structure Invocation where
  /-- Is what is not needed left out of the output? -/
  quiet : Bool
  /-- How much is logged. -/
  verbosity : Nat
  /-- The settings file. -/
  settings? : Option Path
  /-- What to do. -/
  action : Action
  deriving Repr

/-! ### The grammar -/

/-- A flag. -/
def flag (name : String) : Parameter :=
  { name := name, kind := .flag }

/-- An option with a path. -/
def pathOption (name : String) : Parameter :=
  { name := name, kind := .value .path }

/-- An option with a path that must be given. -/
def pathRequired (name : String) : Parameter :=
  { name := name, kind := .value .path, required := true }

/-- An option with a number. -/
def numberOption (name : String) : Parameter :=
  { name := name, kind := .value .number }

/-- An option with one of certain words. -/
def choiceOption (name : String) (words : List String) : Parameter :=
  { name := name, kind := .value (.choice words) }

/-- The variable of the environment that names the settings file. -/
def settingsVariable : String :=
  "PIPELINE_EXPLORER_CONFIG"

/-- The options of every command. -/
def everywhere : List Parameter :=
  [{ name := "quiet", letter? := some 'q', kind := .flag },
    { name := "verbose", letter? := some 'v', kind := .counter },
    { name := "config", kind := .value .path, envVariable? := some settingsVariable },
    { name := "help", letter? := some 'h', kind := .help }]

/-- The options that choose a workspace. -/
def workspaceOptions : List Parameter :=
  [{ name := "path", letter? := some 'p', kind := .value .path }, flag "no-ignore"]

/-- The words for yes and no. -/
def switchWords : List String :=
  ["on", "off"]

/-- The options about drawings. -/
def dotOptions : List Parameter :=
  [choiceOption "dot-clusters" switchWords, choiceOption "dot-legend" switchWords,
    choiceOption "dot-theme" ["light", "dark"], choiceOption "dot-rankdir" ["LR", "TB"],
    choiceOption "dot-splines" ["curved", "ortho", "polyline"],
    choiceOption "dot-rounded" switchWords]

/-- The option for the format of answers. -/
def formatOption : Parameter :=
  choiceOption "format" ["text", "json", "dot"]

/-- A command without commands below it. -/
def leaf (name : String) (options : List Parameter) : Command :=
  .mk name (everywhere ++ workspaceOptions ++ options) none []

/-- The commands that answer questions. -/
def queryCommands : List Command :=
  [leaf "downstream" ([pathRequired "file", numberOption "depth", formatOption] ++ dotOptions),
    leaf "upstream"
      ([pathRequired "file", numberOption "depth", flag "no-index", formatOption] ++ dotOptions),
    leaf "parameters" [pathRequired "file", formatOption],
    leaf "references" [pathRequired "file", formatOption],
    leaf "diagnostics" [pathRequired "file", formatOption, flag "fail-on-error"],
    leaf "cycles" [formatOption],
    leaf "path" [pathRequired "from", pathRequired "to", formatOption],
    leaf "hubs" [choiceOption "metric" ["in", "out", "total"], numberOption "top", formatOption]]

/-- The shells whose completion is known. -/
def shells : List String :=
  ["bash", "elvish", "fish", "powershell", "zsh"]

/-- The name of the program. -/
def programName : String :=
  "template-atlas"

/-- The command of the program. -/
def program : Command :=
  .mk programName (everywhere ++ [{ name := "version", letter? := some 'V', kind := .version }])
    none
    [leaf "graph" ([pathOption "json", pathOption "dot"] ++ dotOptions),
      .mk "query" everywhere none queryCommands,
      leaf "watch" [pathOption "file", numberOption "depth"],
      .mk "completions" everywhere
        (some { name := "shell", kind := .value (.choice shells), required := true }) []]

/-! ### What was given -/

namespace Level

/-- Was a flag given? -/
def has (l : Level) (name : String) : Bool :=
  (matchFor? l.matched name).isSome

/-- The text given to an option. -/
def text? (l : Level) (name : String) : Option String :=
  match matchFor? l.matched name with
  | some ⟨_, .text value, _⟩ => some value
  | _ => none

/-- The path given to an option. -/
def path? (l : Level) (name : String) : Option Path :=
  (l.text? name).map fun text => ⟨text⟩

/-- The path given to an option that must be given. -/
def path (l : Level) (name : String) : Path :=
  (l.path? name).getD ⟨""⟩

/-- The number given to an option, or how often a counter was given. -/
def number? (l : Level) (name : String) : Option Nat :=
  match matchFor? l.matched name with
  | some ⟨_, .number n, _⟩ => some n
  | some ⟨_, .count n, _⟩ => some n
  | _ => none

/-- Was the word for yes given to an option? -/
def switch? (l : Level) (name : String) : Option Bool :=
  (l.text? name).map (· = "on")

/-- The workspace that was chosen; the working directory is the usual one. -/
def workspace (l : Level) : WorkspaceChoice :=
  ⟨(l.path? "path").getD ⟨"."⟩, l.has "no-ignore"⟩

/-- What was said about drawings. -/
def style (l : Level) : DotChoice where
  clusters? := l.switch? "dot-clusters"
  legend? := l.switch? "dot-legend"
  theme? := (l.text? "dot-theme").map fun word => if word = "dark" then .dark else .light
  ranks? := (l.text? "dot-rankdir").map fun word => if word = "TB" then .topBottom else .leftRight
  edges? := (l.text? "dot-splines").map fun word =>
    if word = "ortho" then .ortho else if word = "polyline" then .polyline else .curved
  rounded? := l.switch? "dot-rounded"

/-- The format that was chosen. -/
def format? (l : Level) : Option OutputFormat :=
  (l.text? "format").map fun word => if word = "json" then .json else if word =
    "dot" then .dot else .text

/-- The question that was asked. -/
def query (l : Level) : Query :=
  match l.command with
  | "downstream" => .templates (l.path "file") (l.number? "depth") l.style
  | "upstream" => .callers (l.path "file") (l.number? "depth") (l.has "no-index") l.style
  | "parameters" => .parameters (l.path "file")
  | "references" => .references (l.path "file")
  | "diagnostics" => .diagnostics (l.path "file") (l.has "fail-on-error")
  | "path" => .path (l.path "from") (l.path "to")
  | "hubs" =>
    let metric := match l.text? "metric" with
      | some "in" => .callers
      | some "out" => .targets
      | _ => .both
    .hubs metric ((l.number? "top").getD 10)
  | _ => .cycles

end Level

/-- The action that the commands below the program ask for. -/
def actionOf : List Level → Action
  | [l] =>
    match l.command with
    | "graph" => .graph l.workspace (l.path? "json") (l.path? "dot") l.style
    | "watch" => .watch l.workspace (l.path? "file") (l.number? "depth")
    | _ => .completions ((l.text? "shell").getD "")
  | _ :: l :: _ => .query l.workspace l.format? l.query
  | [] => .completions ""

/-- Which of two matches of an option counts: that of the inner command, unless only the outer one
stands on the command line. -/
def stronger (outer inner : Match) : Match :=
  if inner.fromEnvironment && !outer.fromEnvironment then outer else inner

/-- The match that counts for an option that every command takes. -/
def matchThrough? (levels : List Level) (name : String) : Option Match :=
  levels.foldl (fun outer? level =>
    match outer?, matchFor? level.matched name with
    | some outer, some inner => some (stronger outer inner)
    | none, inner? => inner?
    | outer?, none => outer?) none

/-- What the commands on a command line ask for. -/
def Invocation.ofLevels (levels : List Level) : Invocation where
  quiet := levels.any (·.has "quiet")
  verbosity :=
    match matchThrough? levels "verbose" with
    | some ⟨_, .count n, _⟩ => n
    | _ => 0
  settings? :=
    match matchThrough? levels "config" with
    | some ⟨_, .text value, _⟩ => some ⟨value⟩
    | _ => none
  action := actionOf levels.tail

/-- What a command line asks for. -/
def Invocation.read? (environment : String → Option String) (words : List String) :
    Except Refusal Invocation :=
  (program.read? environment words).map Invocation.ofLevels

end TemplateAtlas.CommandLine
