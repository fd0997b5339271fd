import TemplateAtlas.CommandLine.Session

/-!
# What an invocation needs of the files

The files are handed to an invocation as a value, so whoever runs it has to gather them first: the
files that its command line names, the corpus of its workspace, and whatever those refer to, step by
step.
-/

namespace TemplateAtlas.CommandLine

/-- The workspace of an action. -/
def Action.workspace? : Action → Option WorkspaceChoice
  | .graph choice .. => some choice
  | .query choice .. => some choice
  | .watch choice .. => some choice
  | .completions _ => none

/-- The files that a question names. -/
def Query.files : Query → List Path
  | .templates file .. => [file]
  | .callers file .. => [file]
  | .parameters file => [file]
  | .references file => [file]
  | .diagnostics file _ => [file]
  | .path source goal => [source, goal]
  | .cycles => []
  | .hubs .. => []

/-- The files that an action names. Files that are asked about may be named below the root. -/
def Action.files : Action → List Path
  | .graph _ json? dot? _ => json?.toList ++ dot?.toList
  | .query choice _ q => q.files ++ q.files.map choice.root.join
  | .watch choice file? _ => file?.toList ++ file?.toList.map choice.root.join
  | .completions _ => []

/-- The paths that an invocation names: its settings file, its root with the settings file there,
and the files of its action. -/
def Invocation.paths (inv : Invocation) : List Path :=
  let roots := inv.action.workspace?.toList.map WorkspaceChoice.root
  inv.settings?.toList ++ roots ++ roots.map (·.child Settings.fileName) ++ inv.action.files

/-- The options of the corpus of an invocation, if it has a workspace and its settings can be
used. -/
def Invocation.corpusOptions? (inv : Invocation) (tree : FileTree) : Option CorpusOptions :=
  inv.action.workspace?.bind fun choice =>
    match Session.loadSettings tree choice inv.settings? with
    | .ok settings? => some (Session.corpusOptions choice settings?)
    | .error _ => none

/-- The absent targets of the references of a file. -/
def absentTargets (file : Path) : Inquiry (List Path) := do
  return (← outgoing file).filterMap fun o =>
    match o.target with
    | .missing path _ => some path
    | _ => none

/-- The paths that files refer to and that lead to nothing. -/
def FileTree.absentTargets (tree : FileTree) : List Path :=
  tree.nodes.entries.flatMap fun (place, node) =>
    match node with
    | .file _ =>
      (CommandLine.absentTargets (Path.ofSteps (.root :: place.map .name))).answer tree.view
    | .directory => []

end TemplateAtlas.CommandLine
