import TemplateAtlas.Corpus.Options
import TemplateAtlas.Files.Tree

/-!
# The files of a corpus

A walk goes down from the root of a corpus. It does not enter directories of certain names or what
ignore files hide, and of the files that it comes to, those with an extension of the corpus are
listed in the order of their paths. A root that is a file is its own corpus.

What ignore files hide is a parameter of the walk. Reading them by their rules is one value of it.
-/

namespace TemplateAtlas

/-- What ignore files hide from a walk. -/
structure IgnoreFilter where
  /-- Is the directory at a location hidden? -/
  hidesDirectory (place : Location) : Bool
  /-- Is the file at a location hidden? -/
  hidesFile (place : Location) : Bool
  deriving Inhabited

/-- A way to read ignore files. -/
structure IgnoreReader where
  /-- What the ignore files of a tree hide from a walk that starts at `top`. -/
  read (tree : FileTree) (top : Location) : IgnoreFilter
  deriving Inhabited

namespace CorpusOptions

/-- Does a walk leave out what stands in a directory under a name? -/
def leavesOut (options : CorpusOptions) (filter : IgnoreFilter) (above : Location)
    (name : RawText) : Node → Bool
  | .directory =>
    options.skips name || (options.respectIgnore && filter.hidesDirectory (above ++ [name]))
  | .file _ => options.respectIgnore && filter.hidesFile (above ++ [name])

/-- The files that a walk finds at a location and at most so many levels below it. What is left out
is not entered. -/
def walk (options : CorpusOptions) (filter : IgnoreFilter) (tree : FileTree) :
    Nat → Path → Location → Node → List Path
  | _, path, _, .file _ => [path]
  | 0, _, _, .directory => []
  | levels + 1, path, place, .directory =>
    (tree.contents place).flatMap fun (name, node) =>
      if options.leavesOut filter place name node then []
      else walk options filter tree levels (path.child name) (place ++ [name]) node

/-- The files of the corpus of a root. -/
def files (options : CorpusOptions) (reader : IgnoreReader) (tree : FileTree) (root : Path) :
    List Path :=
  match tree.locate root with
  | .error _ => []
  | .ok top =>
    match tree.node? top with
    | none => []
    | some node =>
      let found := options.walk (reader.read tree top) tree tree.levels root top node
      (found.filter options.hasExtension).mergeSort fun p q => (compare p q).isLE

end CorpusOptions

end TemplateAtlas
