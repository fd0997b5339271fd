import TemplateAtlas.Files.Tree

/-!
# Repository roots

The root of a file's repository is the nearest directory above it that holds `.git`; a file outside
any repository has its own directory for a root. Roots are remembered by directory.
-/

namespace TemplateAtlas

/-- The entry that marks the root of a repository. -/
def repositoryMarker : RawText :=
  ".git"

/-- The directory of a file. -/
def Path.directory (file : Path) : Path :=
  file.parent?.getD ⟨"/"⟩

/-- Does a repository begin in the directory? -/
def FileTree.isRepositoryRoot (tree : FileTree) (directory : Path) : Bool :=
  tree.exists? (directory.child repositoryMarker)

/-- The nearest root of a repository at or above a directory, or the directory itself. -/
def FileTree.rootAbove (tree : FileTree) (directory : Path) : Path :=
  (directory.ancestors.find? tree.isRepositoryRoot).getD directory

/-- The roots found so far, by directory. -/
abbrev RootMemo :=
  SortedMap Path Path

/-- The root of a file's repository, and what is remembered after asking. -/
def RootMemo.root (memo : RootMemo) (tree : FileTree) (file : Path) : Path × RootMemo :=
  let directory := file.directory
  match memo.find? directory with
  | some root => (root, memo)
  | none =>
    let root := tree.rootAbove directory
    (root, memo.insert directory root)

end TemplateAtlas
