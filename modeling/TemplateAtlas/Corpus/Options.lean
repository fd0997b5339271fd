import TemplateAtlas.Path.Basic

/-!
# What belongs to a corpus

The corpus of a root is the set of files below it with certain extensions, outside certain
directories. Whether a path belongs to it can be told from the path alone, as long as no ignore file
is asked.
-/

namespace TemplateAtlas

/-- Which files make up a corpus. -/
structure CorpusOptions where
  /-- The extensions of its files, in any mixture of capitals and small letters. -/
  extensions : List String := ["yml", "yaml"]
  /-- The names of directories that are left out with all they hold. -/
  skipped : List String :=
    [".git", "node_modules", "target", "bin", "obj", "dist", "out", ".vscode"]
  /-- Do ignore files count? -/
  respectIgnore : Bool := true
  deriving DecidableEq, Repr, Inhabited

/-- Are two texts equal but for capital and small letters of the English alphabet? -/
def sameLetters (a b : String) : Bool :=
  a.toList.map Char.toLower == b.toList.map Char.toLower

namespace CorpusOptions

/-- Has the path an extension of the corpus? -/
def hasExtension (options : CorpusOptions) (p : Path) : Bool :=
  match p.extension?.bind RawText.text? with
  | none => false
  | some found => options.extensions.any (sameLetters · found)

/-- Is a directory of this name left out? -/
def skips (options : CorpusOptions) (name : RawText) : Bool :=
  match name.text? with
  | none => false
  | some found => options.skipped.contains found

/-- Does a path belong to the corpus of a root, if no ignore file counts? -/
def accepts (options : CorpusOptions) (root p : Path) : Bool :=
  match p.stepsBelow? root with
  | none => false
  | some steps => options.hasExtension p && steps.dropLast.all fun step => !options.skips step.text

end CorpusOptions

end TemplateAtlas
