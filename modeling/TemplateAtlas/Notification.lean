import TemplateAtlas.Corpus.Options
import TemplateAtlas.Files.Tree
import TemplateAtlas.Index.Basic

/-!
# Notifications

An operating system reports what happens to its files in its own terms. A notification is turned
into changes of the corpus by looking at what its paths lead to now.
-/

namespace TemplateAtlas

/-- What an operating system reports of some paths. -/
inductive Notification where
  /-- They were made. -/
  | create
  /-- They were renamed. -/
  | rename
  /-- Something else about them changed. -/
  | modify
  /-- They were removed. -/
  | remove
  /-- Anything that changes no file. -/
  | other
  deriving DecidableEq, Repr

/-- The change that a notification reports of a path; a path that is renamed may be the old name or
the new. -/
def Notification.kind? (event : Notification) (tree : FileTree) (p : Path) : Option ChangeKind :=
  match event with
  | create => some .created
  | rename => some (if tree.exists? p then .created else .deleted)
  | modify => some .changed
  | remove => some .deleted
  | other => none

/-- The change of the corpus that a notification reports of a path. Directories that are there are
no files of a corpus; one that is gone cannot be told from a file. -/
def Notification.change? (event : Notification) (options : CorpusOptions) (tree : FileTree)
    (root p : Path) : Option FileChange :=
  match event.kind? tree p with
  | none => none
  | some kind =>
    let concerns := if kind = .deleted then p.startsWith root else options.accepts root p
    if tree.isDirectory p || !concerns then none else some ⟨kind, p⟩

/-- The changes of the corpus of a root that a notification reports. -/
def Notification.changes (event : Notification) (options : CorpusOptions) (tree : FileTree)
    (root : Path) (paths : List Path) : List FileChange :=
  paths.filterMap (event.change? options tree root)

end TemplateAtlas
