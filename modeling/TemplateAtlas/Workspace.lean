import TemplateAtlas.Corpus.Files
import TemplateAtlas.Graph.Workspace
import TemplateAtlas.Index.Basic

/-!
# Workspaces

A workspace is a root directory with the options of its corpus, what has been read of the files so
far, and an index. Every operation takes the files as they stand and gives back the workspace with
what it has learnt. Questions about callers are answered by the index once it is ready, and by
reading the corpus before that.
-/

namespace TemplateAtlas

/-- An open workspace. -/
structure Workspace where
  /-- The root directory. -/
  root : Path
  /-- What belongs to its corpus. -/
  options : CorpusOptions
  /-- What is known of ignore files. -/
  reader : IgnoreReader
  /-- What has been read so far. -/
  memory : Inquiry.Memory := {}
  /-- The index. -/
  index : Index := {}
  deriving Inhabited

namespace Workspace

/-- The workspace of a directory, with nothing read and nothing indexed. -/
def new (reader : IgnoreReader) (tree : FileTree) (root : Path) (options : CorpusOptions) :
    Workspace :=
  { root := root.absolutize tree.workingPath, options := options, reader := reader }

/-- The answer of the files to an inquiry. -/
def ask (ws : Workspace) (tree : FileTree) (inquiry : Inquiry α) : α × Workspace :=
  let (answer, memory) := inquiry.run tree ws.memory
  (answer, { ws with memory := memory })

/-- The files of the corpus as they stand. -/
def corpus (ws : Workspace) (tree : FileTree) : List Path :=
  ws.options.files ws.reader tree ws.root

/-- The files of the corpus: those that are indexed once the index is ready. -/
def files (ws : Workspace) (tree : FileTree) : List Path :=
  if ws.index.ready then ws.index.snapshot.files.toList else ws.corpus tree

/-- Does a path belong to the corpus, if no ignore file counts? -/
def accepts (ws : Workspace) (p : Path) : Bool :=
  ws.options.accepts ws.root p

/-- The file that a request names: a relative path is tried in the working directory and then read
below the root. -/
def resolveFile (ws : Workspace) (tree : FileTree) (p : Path) : Path :=
  if p.isAbsolute then p.normalize
  else
    let here := p.absolutize tree.workingPath
    if tree.isFile here then here else (ws.root.join p).normalize

/-! ### The index -/

/-- A build begins, and gets its number. -/
def beginBuild (ws : Workspace) : Workspace × Nat :=
  let (index, number) := ws.index.beginBuild
  ({ ws with index := index }, number)

/-- A build of the index for the given files ends. The answer tells whether it is published. -/
def endBuild (ws : Workspace) (tree : FileTree) (number : Nat) (files : List Path) :
    Bool × Workspace :=
  let ((published, index), ws) := ws.ask tree do
    let built ← indexFiles files
    ws.index.endBuild number built
  (published, { ws with index := index })

/-- The index is built for the given files. -/
def buildIndexOf (ws : Workspace) (tree : FileTree) (files : List Path) : Bool × Workspace :=
  let (ws, number) := ws.beginBuild
  ws.endBuild tree number files

/-- The index is built. -/
def buildIndex (ws : Workspace) (tree : FileTree) : Bool × Workspace :=
  ws.buildIndexOf tree (ws.corpus tree)

/-- The index is built unless it is ready. -/
def ensureIndex (ws : Workspace) (tree : FileTree) : Workspace :=
  if ws.index.ready then ws else (ws.buildIndex tree).2

/-- The kept text of a path is dropped. -/
def forget (ws : Workspace) (p : Path) : Workspace :=
  { ws with memory := { ws.memory with cache := ws.memory.cache.invalidate p } }

/-- All kept texts are dropped. -/
def forgetTexts (ws : Workspace) : Workspace :=
  { ws with memory := { ws.memory with cache := ws.memory.cache.invalidateAll } }

/-- All roots of repositories that were found are dropped. -/
def forgetRoots (ws : Workspace) : Workspace :=
  { ws with memory := { ws.memory with roots := .empty } }

/-- A change arrives at the index. What was read of the path is read again. -/
def indexChange (ws : Workspace) (tree : FileTree) (change : FileChange) : Workspace :=
  let (index, ws) := (ws.forget change.path).ask tree (ws.index.apply change)
  { ws with index := index }

/-- A change arrives. One outside the corpus only drops what was read of the path, but a deletion
may name a directory and always reaches the index. -/
def applyChange (ws : Workspace) (tree : FileTree) (change : FileChange) : Workspace :=
  let change := { change with path := change.path.normalize }
  if change.kind != .deleted && !ws.accepts change.path then ws.forget change.path
  else ws.indexChange tree change

/-- The index is cleared. -/
def clearIndex (ws : Workspace) : Workspace :=
  { ws with index := ws.index.clear }

/-- All that was read and indexed is dropped. -/
def close (ws : Workspace) : Workspace :=
  ws.forgetTexts.forgetRoots.clearIndex

/-! ### Questions -/

/-- The tree of what a file refers to. -/
def templateTree (ws : Workspace) (tree : FileTree) (file : Path) (depth : Nat) :
    Tree × Workspace :=
  ws.ask tree (TemplateAtlas.templateTree file depth)

/-- The tree of what refers to a file. -/
def callerTree (ws : Workspace) (tree : FileTree) (file : Path) (depth : Nat) : Tree × Workspace :=
  if ws.index.ready then ws.ask tree (callerTreeBy ws.index.snapshot.callersWithSites file depth)
  else ws.ask tree (callerTreeByScan (ws.corpus tree) file depth)

/-- The graph of all files of the corpus. -/
def graph (ws : Workspace) (tree : FileTree) : Graph × Workspace :=
  ws.ask tree (workspaceGraph (ws.files tree))

end Workspace

end TemplateAtlas
