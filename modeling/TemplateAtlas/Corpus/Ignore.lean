import TemplateAtlas.Corpus.Files
import TemplateAtlas.Corpus.Glob

/-!
# Ignore files

A directory may hold files of rules on what to ignore in it and below. A rule is a glob for paths
below the directory; it may be limited to directories, and it may state that what it matches is
kept. The last rule of a file that matches decides, the file in the nearest directory comes first,
and all `.ignore` files come before all `.gitignore` files.
-/

namespace TemplateAtlas

open TemplateAtlas.Text

/-- A rule of an ignore file. -/
structure IgnoreRule where
  /-- The paths below the directory of the file that the rule is about. -/
  glob : Glob
  /-- Is what it matches kept? -/
  keeps : Bool
  /-- Is it about directories alone? -/
  directoriesOnly : Bool
  deriving Repr

namespace IgnoreRule

/-- The line without blanks at its end, unless a backslash stands before its last space. -/
def trimLine (line : List Char) : List Char :=
  if ['\\', ' '].isSuffixOf line then line else trimEnd line

/-- The pattern of a line without its signs: whether it keeps, whether it opens with a slash, and
the rest. A backslash in front makes a sign an ordinary character. -/
def dropSigns : List Char → Bool × Bool × List Char
  | '\\' :: '!' :: rest => (false, false, '!' :: rest)
  | '\\' :: '#' :: rest => (false, false, '#' :: rest)
  | '!' :: '/' :: rest => (true, true, rest)
  | '!' :: rest => (true, false, rest)
  | '/' :: rest => (false, true, rest)
  | rest => (false, false, rest)

/-- The pattern without a slash at its end, and whether it had one. A backslash before that slash is
dropped with it. -/
def dropFinalSlash (pattern : List Char) : List Char × Bool :=
  match pattern.reverse with
  | '/' :: '\\' :: rest => (rest.reverse, true)
  | '/' :: rest => (rest.reverse, true)
  | _ => (pattern, false)

/-- Any directories, as the start of a pattern. -/
def anywhere : List Char :=
  ['*', '*', '/']

/-- The pattern spelled out: one that names no directory holds at every level, and one for
everything in a directory does not hold for the directory itself. -/
def spellOut (fixed : Bool) (pattern : List Char) : List Char :=
  let floating := !fixed && !pattern.contains '/' && pattern != ['*', '*']
  let pattern := if floating then anywhere ++ pattern else pattern
  if ['/', '*', '*'].isSuffixOf pattern then pattern ++ ['/', '*'] else pattern

/-- The rule that a line states. Comments, blank lines and patterns that cannot be read state
none. -/
def ofLine? (line : List Char) : Option IgnoreRule :=
  if line.head? = some '#' then none
  else
    let line := trimLine line
    if line.isEmpty then none
    else
      let (keeps, fixed, pattern) := dropSigns line
      let (pattern, directoriesOnly) := dropFinalSlash pattern
      (Glob.ofPattern? (spellOut fixed pattern)).map (⟨·, keeps, directoriesOnly⟩)

/-- Is the rule about this path? -/
def concerns (rule : IgnoreRule) (path : RawText) (isDirectory : Bool) : Bool :=
  (isDirectory || !rule.directoriesOnly) && rule.glob.accepts path

end IgnoreRule

/-- The lines of a file in bytes. A line ends with a line feed, and a carriage return before it
belongs to the ending. -/
def byteLines (content : ByteArray) : List (List UInt8) :=
  let pieces := splitOn 0x0a content.data.toList
  let dropReturn (line : List UInt8) := if line.getLast? = some 0x0d then line.dropLast else line
  pieces.dropLast.map dropReturn ++ [pieces.getLastD []]

/-- The texts of the lines before the first that is not UTF-8. -/
def readableLines : List (List UInt8) → List (List Char)
  | [] => []
  | line :: rest =>
    match String.fromUTF8? ⟨line.toArray⟩ with
    | none => []
    | some text => text.toList :: readableLines rest

/-- The lines without byte order marks at the start of the first. -/
def dropMarks : List (List Char) → List (List Char)
  | [] => []
  | line :: rest => line.dropWhile (· = '\ufeff') :: rest

/-- The rules of an ignore file. If one of its globs is nested too deeply to be handled, the whole
file counts for nothing. -/
def ignoreRules (content : ByteArray) : List IgnoreRule :=
  let rules := (dropMarks (readableLines (byteLines content))).filterMap IgnoreRule.ofLine?
  if rules.all fun rule => rule.glob.nesting ≤ Glob.nestingLimit then rules else []

/-- What rules say about a path below their directory: whether it is ignored, if they say
anything. -/
def verdict? (rules : List IgnoreRule) (path : RawText) (isDirectory : Bool) : Option Bool :=
  (rules.reverse.find? (·.concerns path isDirectory)).map (!·.keeps)

/-- The rules of the ignore files of one name, by the directory that holds the file. -/
abbrev IgnoreTable :=
  SortedMap Location (List IgnoreRule)

/-- The rules in all files of a name. -/
def FileTree.ignoreTable (tree : FileTree) (name : RawText) : IgnoreTable :=
  .ofList (tree.nodes.entries.filterMap fun (place, node) =>
    match node with
    | .file v =>
      if place.getLast? = some name then some (place.dropLast, ignoreRules v.content) else none
    | .directory => none)

namespace IgnoreTable

/-- The directories above a location, nearest first. -/
def directoriesAbove (place : Location) : List Location :=
  (List.range place.length).reverse.map place.take

/-- What the files of a table say about a location. The nearest file that says anything decides. -/
def verdict? (table : IgnoreTable) (place : Location) (isDirectory : Bool) : Option Bool :=
  (directoriesAbove place).findSome? fun directory =>
    TemplateAtlas.verdict? ((table.find? directory).getD [])
      ⟨[RawText.slash].intercalate ((place.drop directory.length).map RawText.bytes)⟩ isDirectory

end IgnoreTable

/-- The names of ignore files, the stronger first. -/
def ignoreFileNames : List RawText :=
  [".ignore", ".gitignore"]

/-- Do the tables say that a location is ignored? The first table that says anything decides. -/
def isIgnored (tables : List IgnoreTable) (place : Location) (isDirectory : Bool) : Bool :=
  (tables.findSome? (·.verdict? place isDirectory)).getD false

/-- The reader that follows the rules of ignore files. Files above the start of a walk count as
well. -/
def IgnoreReader.ofRules : IgnoreReader where
  read tree _ :=
    let tables := ignoreFileNames.map tree.ignoreTable
    { hidesDirectory := (isIgnored tables · true), hidesFile := (isIgnored tables · false) }

end TemplateAtlas
