import TemplateAtlas.Files.Cache
import TemplateAtlas.Files.Roots

/-!
# Inquiries

An inquiry is a computation that asks the files: for the text of a file, for the existence of a
file, for the root of a file's repository. The same inquiry can be answered from a view of the
files, which is a plain function, or be run against file trees with a cache and a memory of roots.
Everything that the library derives from several files is an inquiry.
-/

namespace TemplateAtlas

/-- A computation that asks the files. -/
inductive Inquiry (α : Type) : Type where
  /-- The answer is known. -/
  | done (answer : α)
  /-- Ask for the text of a file. -/
  | readText (p : Path) (next : Option String → Inquiry α)
  /-- Ask whether a file exists. -/
  | isFile (p : Path) (next : Bool → Inquiry α)
  /-- Ask for the root of a file's repository. -/
  | rootOf (p : Path) (next : Path → Inquiry α)

namespace Inquiry

/-- Ask on with the answer. -/
def andThen (f : α → Inquiry β) : Inquiry α → Inquiry β
  | done a => f a
  | readText p next => .readText p fun text => andThen f (next text)
  | isFile p next => .isFile p fun found => andThen f (next found)
  | rootOf p next => .rootOf p fun root => andThen f (next root)

instance : Monad Inquiry where
  pure := done
  bind inquiry f := andThen f inquiry

/-- The text of a file. -/
def text (p : Path) : Inquiry (Option String) :=
  .readText p done

/-- Does the file exist? -/
def file (p : Path) : Inquiry Bool :=
  .isFile p done

/-- The root of a file's repository. -/
def root (p : Path) : Inquiry Path :=
  .rootOf p done

/-- The answers to the inquiries that a list gives rise to, in its order. -/
def each (f : α → Inquiry β) : List α → Inquiry (List β)
  | [] => done []
  | a :: as => do
    let b ← f a
    let bs ← each f as
    return b :: bs

/-- What the files would answer. -/
structure View where
  /-- The text of a file. -/
  text : Path → Option String
  /-- Does the file exist? -/
  isFile : Path → Bool
  /-- The root of a file's repository. -/
  root : Path → Path

/-- The answer that a view gives to an inquiry. -/
def answer (view : View) : Inquiry α → α
  | done a => a
  | readText p next => answer view (next (view.text p))
  | isFile p next => answer view (next (view.isFile p))
  | rootOf p next => answer view (next (view.root p))

/-- What is remembered between inquiries. -/
structure Memory where
  /-- The texts that were read. -/
  cache : Cache := {}
  /-- The roots that were found. -/
  roots : RootMemo := .empty
  deriving Inhabited

/-- The answer of the files to an inquiry, and what is remembered after it. -/
def run (tree : FileTree) : Inquiry α → Memory → α × Memory
  | done a, memory => (a, memory)
  | readText p next, memory =>
    let (text, cache) := memory.cache.read tree p
    run tree (next text) { memory with cache := cache }
  | isFile p next, memory => run tree (next (tree.isFile p)) memory
  | rootOf p next, memory =>
    let (root, roots) := memory.roots.root tree p
    run tree (next root) { memory with roots := roots }

end Inquiry

/-- What the files themselves answer, without any memory. -/
def FileTree.view (tree : FileTree) : Inquiry.View where
  text p := (tree.fileAt? p).bind FileVersion.body?
  isFile := tree.isFile
  root p := tree.rootAbove p.directory

end TemplateAtlas
