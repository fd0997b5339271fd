import TemplateAtlas.CommandLine.Invocation
import TemplateAtlas.Drawing.Table
import TemplateAtlas.Drawing.TreeText
import TemplateAtlas.Report.Digraph
import TemplateAtlas.Report.Document
import TemplateAtlas.Settings
import TemplateAtlas.Workspace

/-!
# Sessions

An invocation is carried out in a session: a workspace opened for it, with the settings that hold.
Its outcome is an exit code, the text of the output and of the error output, and the files as they
are afterwards.
-/

namespace TemplateAtlas.CommandLine

/-- Why an invocation fails. -/
inductive Failure where
  /-- The settings cannot be used. -/
  | settings (error : SettingsError)
  /-- A file cannot be written. -/
  | output (fault : FileError)
  /-- A file that is asked about is not there. -/
  | fileNotFound (file : Path)
  /-- The answer has no drawing. -/
  | noDrawing
  /-- A path in a document is not UTF-8. -/
  | pathNotText
  deriving Repr

namespace Failure

/-- The exit code: questions without an answer are the user's, everything else is not. -/
def code : Failure → Nat
  | fileNotFound _ => 2
  | noDrawing => 2
  | _ => 1

/-- The wording of a fault of the files. -/
def fileMessage (fault : FileError) : String :=
  "Error: IO error: " ++ fault.message

/-- The wording of settings that are not valid. -/
def settingsMessage (file : Path) (reason : String) : String :=
  "Error: Invalid config " ++ file.shown ++ ": " ++ reason

/-- The wording. -/
def message : Failure → String
  | settings (.unreadable fault) => fileMessage fault
  | settings (.malformed file fault) => settingsMessage file fault.message
  | settings (.wrongType file key) => settingsMessage file ("invalid type at " ++ key)
  | output fault => fileMessage fault
  | fileNotFound file => "Invalid query: File not found: " ++ file.shown
  | noDrawing => "Invalid query: DOT output is only available for downstream/upstream queries"
  | pathNotText => "Error: JSON encode error: path contains invalid UTF-8 characters"

end Failure

/-- The end of an invocation. -/
structure Outcome where
  /-- The exit code. -/
  code : Nat := 0
  /-- The output. -/
  output : String := ""
  /-- The error output. -/
  errors : String := ""
  deriving DecidableEq, Repr

/-- The outcome of a failure. -/
def Failure.outcome (f : Failure) : Outcome :=
  { code := f.code, errors := f.message ++ "\n" }

/-- The outcome of a refused command line: answers go to the output. -/
def Refusal.outcome (r : Refusal) : Outcome :=
  if r.code = 0 then { output := r.message ++ "\n" }
    else { code := r.code, errors := r.message ++ "\n" }

/-- The exit code when errors were found that make the program fail. -/
def foundErrorsCode : Nat := 3

/-- A workspace with the settings that hold. -/
structure Session where
  /-- The workspace. -/
  workspace : Workspace
  /-- The settings, if there are any. -/
  settings? : Option Settings
  /-- Is what is not needed left out of the output? -/
  quiet : Bool

namespace Session

/-- The settings that hold for a workspace: those of the file that the command line names, or its
own. -/
def loadSettings (tree : FileTree) (choice : WorkspaceChoice) (file? : Option Path) :
    Except Failure (Option Settings) :=
  (match file? with
    | some file => some <$> Settings.load tree file
    | none => Settings.loadNear tree choice.root).mapError Failure.settings

/-- What belongs to the corpus of a workspace. The command line may say that no ignore file
counts. -/
def corpusOptions (choice : WorkspaceChoice) (settings? : Option Settings) : CorpusOptions :=
  let options := Settings.corpusOptions settings?
  if choice.noIgnore then { options with respectIgnore := false } else options

/-- The session in a workspace. -/
def start (reader : IgnoreReader) (tree : FileTree) (choice : WorkspaceChoice) (file? : Option Path)
    (quiet : Bool) : Except Failure Session := do
  let settings? ← loadSettings tree choice file?
  return ⟨.new reader tree choice.root (corpusOptions choice settings?), settings?, quiet⟩

/-- The file that is asked about. It must be there. -/
def focus (s : Session) (tree : FileTree) (file : Path) : Except Failure Path :=
  let found := s.workspace.resolveFile tree file
  if tree.isFile found then .ok found else .error (.fileNotFound file)

/-- The format of answers: that of the command line, that of the settings, or text. -/
def format (s : Session) (chosen? : Option OutputFormat) : OutputFormat :=
  match chosen? with
  | some format => format
  | none =>
    match s.settings?.bind (·.query?) |>.bind (·.format?) with
    | some "json" => .json
    | some "dot" => .dot
    | _ => .text

/-- The usual number of levels of trees. -/
def usualDepth : Nat := 3

/-- The number of levels of trees. -/
def depth (s : Session) (chosen? : Option Nat) : Nat :=
  (chosen? <|> (s.settings?.bind (·.query?)).bind (·.depth?)).getD usualDepth

/-- How graphs are drawn: the command line comes before the settings. -/
def dotOptions (s : Session) (style : DotChoice) : DotOptions :=
  let options := Settings.dotOptions s.settings?
  { clusters := style.clusters?.getD options.clusters
    legend := style.legend?.getD options.legend
    theme := style.theme?.getD options.theme
    ranks := style.ranks?.getD options.ranks
    edges := style.edges?.getD options.edges
    rounded := style.rounded?.getD options.rounded }

/-- A path as it is shown. -/
def shown (s : Session) (p : Path) : String :=
  p.shownBelow s.workspace.root

/-- A line that is left out when little output is wanted. -/
def remark (s : Session) (text : String) : String :=
  if s.quiet then "" else text ++ "\n"

/-! ### Answers as text -/

/-- The format of an answer that cannot be drawn. -/
def undrawn : OutputFormat → Except Failure Bool
  | .dot => .error .noDrawing
  | .json => .ok true
  | .text => .ok false

/-- A document as text. -/
def print (document : Json) : Except Failure String :=
  match document.render? with
  | none => .error .pathNotText
  | some text => .ok text

/-- An answer as a document or as text. -/
def present (format : OutputFormat) (document : Json) (text : String) : Except Failure Outcome := do
  if ← undrawn format then return { output := (← print document) ++ "\n" }
    else return { output := text }

/-- A table with its line end. -/
def tableText (headers : List String) (rows : List (List String)) : String :=
  Table.render headers rows ++ "\n"

/-- The table of declared parameters. -/
def parameterTable (ds : List Template.ParameterDeclaration) : String :=
  tableText ["Name", "Type", "Default", "Required", "Line"] (ds.map fun d =>
    [d.name, d.type, d.default?.getD "", if d.required then "yes" else "no",
      toString (shownLine d.line)])

/-- The cells that tell what became of a reference. -/
def statusCells (s : Session) : ReferenceStatus → List String
  | .resolved path _ => ["resolved", s.shown path]
  | .missing path _ => ["missing", s.shown path]
  | .unknownAlias name => ["unknown alias", "@" ++ name]
  | .runtimeExpression => ["runtime expression", ""]

/-- The table of references. -/
def referenceTable (s : Session) (rows : List ReferenceRow) : String :=
  tableText ["Line", "Reference", "Status", "Target"]
    (rows.map fun r => [toString (shownLine r.line), r.raw] ++ s.statusCells r.status)

/-- The number of errors among diagnostics. -/
def errorCount (ds : List Diagnostic) : Nat :=
  ds.countP (·.severity = .error)

/-- The lines of diagnostics of a file. -/
def diagnosticText (s : Session) (file : Path) (ds : List Diagnostic) : String :=
  String.join (ds.map fun d =>
    s.shown file ++ ":" ++ toString (shownLine d.line) ++ ": " ++ d.severity.name ++ ": " ++
      d.message ++ "\n") ++
    s.remark (toString ds.length ++ " diagnostics (" ++ toString (errorCount ds) ++ " errors)")

/-- Paths with arrows between them. -/
def arrows (s : Session) (paths : List Path) : String :=
  " -> ".intercalate (paths.map s.shown)

/-- The lines of cycles, each closed by its first file. -/
def cycleText (s : Session) (cycles : List (List Path)) : String :=
  if cycles.isEmpty then s.remark "No cycles found"
  else
    String.join (cycles.map fun cycle =>
      s.arrows cycle ++ " -> " ++ ((cycle.head?.map s.shown).getD "") ++ "\n")

/-- The line of a chain between two files. -/
def chainText (s : Session) (source goal : Path) (chain : List Path) : String :=
  if chain.isEmpty then s.remark ("No path from " ++ s.shown source ++ " to " ++ s.shown goal)
  else s.arrows chain ++ "\n"

/-- The table of hubs. -/
def hubTable (s : Session) (hubs : List Hub) : String :=
  tableText ["File", "In", "Out"]
    (hubs.map fun h => [s.shown h.file, toString h.callers, toString h.targets])

/-- The line that sums up a graph. -/
def graphSummary (g : Graph) : String :=
  let count (kind : NodeKind) : String := toString (g.nodesOfKind kind).length
  "Graph: " ++ toString g.nodes.length ++ " nodes, " ++ toString g.edges.length ++ " edges (" ++
    count .pipeline ++ " pipelines, " ++ count .template ++ " templates, " ++ count .external ++
      " external, " ++
    count .missing ++ " missing, " ++ count .unknownAlias ++ " unknown alias)"

/-! ### Questions -/

/-- A tree in a format. -/
def treeOutcome (s : Session) (format : OutputFormat) (direction : EdgeDirection)
    (style : DotChoice) (t : Tree) : Except Failure Outcome :=
  match format with
  | .json => do return { output := (← print t.document) ++ "\n" }
  | .dot => return { output := Dot.render (t.toGraph direction) (s.dotOptions style) }
  | .text => return { output := TreeText.render t s.workspace.root }

/-- The answer to a question. -/
def answer (s : Session) (tree : FileTree) (format : OutputFormat) : Query → Except Failure Outcome
  | .templates file depth? style => do
    let file ← s.focus tree file
    s.treeOutcome format .toTemplates style (s.workspace.templateTree tree file (s.depth depth?)).1
  | .callers file depth? noIndex style => do
    let file ← s.focus tree file
    let ws := if noIndex then s.workspace else (s.workspace.buildIndex tree).2
    s.treeOutcome format .toCallers style (ws.callerTree tree file (s.depth depth?)).1
  | .parameters file => do
    let file ← s.focus tree file
    let ds := (s.workspace.ask tree (parametersOf file)).1
    present format (.list (ds.map parameterDocument)) (parameterTable ds)
  | .references file => do
    let file ← s.focus tree file
    let rows := (s.workspace.ask tree (listReferences file)).1
    present format (.list (rows.map ReferenceRow.document)) (s.referenceTable rows)
  | .diagnostics file failOnError => do
    let file ← s.focus tree file
    let ds := (s.workspace.ask tree (checkFile file)).1
    let outcome ← present format (.list (ds.map Diagnostic.document)) (s.diagnosticText file ds)
    return if failOnError && 0 < errorCount ds then
      { outcome with code := foundErrorsCode } else outcome
  | .cycles =>
    let cycles := (s.workspace.ensureIndex tree).index.snapshot.cycles
    present format (.list (cycles.map fun cycle => .list (cycle.map Path.document)))
      (s.cycleText cycles)
  | .path source goal => do
    let source ← s.focus tree source
    let goal ← s.focus tree goal
    let chain := (s.workspace.ensureIndex tree).index.snapshot.shortestChain source goal
    present format (.list (chain.map Path.document)) (s.chainText source goal chain)
  | .hubs metric top =>
    let hubs := (s.workspace.ensureIndex tree).index.snapshot.hubs metric top
    present format (.list (hubs.map (·.document s.shown))) (s.hubTable hubs)

/-! ### Graphs in files -/

/-- The files after a text is written to a path, if one is given. -/
def writeText (path? : Option Path) (text : Except Failure String) (tree : FileTree) :
    Except Failure FileTree :=
  match path? with
  | none => .ok tree
  | some path => do (tree.write path (← text).toUTF8 none).mapError .output

/-- The graph of the workspace is written and summed up. What has been written stays when the next
file cannot be. -/
def drawGraph (s : Session) (tree : FileTree) (json? dot? : Option Path) (style : DotChoice) :
    Outcome × FileTree :=
  let g := (s.workspace.graph tree).1
  match writeText json? (print g.document) tree with
  | .error f => (f.outcome, tree)
  | .ok tree =>
    match writeText dot? (.ok (Dot.render g (s.dotOptions style))) tree with
    | .error f => (f.outcome, tree)
    | .ok tree => ({ output := s.remark (graphSummary g) }, tree)

end Session

/-- The outcome of something that may fail. -/
def outcomeOf (r : Except Failure Outcome) : Outcome :=
  match r with
  | .ok outcome => outcome
  | .error f => f.outcome

/-- The commands of the program as a list of words. -/
def commandWords : List String :=
  program.commands.map Command.name ++ [helpWord] ++ queryCommands.map Command.name

/-- An invocation to follow changes begins: the session, the file whose callers are shown, and the
number of their levels. -/
def beginWatch (inv : Invocation) (reader : IgnoreReader) (tree : FileTree)
    (choice : WorkspaceChoice) (file? : Option Path) (depth? : Option Nat) :
    Except Failure (Session × Option Path × Nat) := do
  let s ← Session.start reader tree choice inv.settings? inv.quiet
  match file? with
  | none => return (s, none, s.depth depth?)
  | some file => return (s, some (← s.focus tree file), s.depth depth?)

/-- The outcome of an invocation, and the files after it. Following changes has no end of its own;
here it ends once it has begun. -/
def Invocation.run (inv : Invocation) (reader : IgnoreReader) (tree : FileTree) :
    Outcome × FileTree :=
  match inv.action with
  | .graph choice json? dot? style =>
    match Session.start reader tree choice inv.settings? inv.quiet with
    | .error f => (f.outcome, tree)
    | .ok s => s.drawGraph tree json? dot? style
  | .query choice format? query =>
    (outcomeOf do
      let s ← Session.start reader tree choice inv.settings? inv.quiet
      s.answer tree (s.format format?) query, tree)
  | .watch choice file? depth? =>
    (outcomeOf do
      let _ ← beginWatch inv reader tree choice file? depth?
      return {}, tree)
  | .completions _ => ({ output := "\n".intercalate commandWords ++ "\n" }, tree)

/-- The outcome of a command line, and the files after it. -/
def run (environment : String → Option String) (words : List String) (reader : IgnoreReader)
    (tree : FileTree) : Outcome × FileTree :=
  match Invocation.read? environment words with
  | .error r => (r.outcome, tree)
  | .ok inv => inv.run reader tree

end TemplateAtlas.CommandLine
