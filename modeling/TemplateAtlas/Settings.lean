import TemplateAtlas.Corpus.Options
import TemplateAtlas.Drawing.Dot
import TemplateAtlas.Files.Tree
import TemplateAtlas.Toml.Document

/-!
# Settings

A settings file is a TOML document with the sections `workspace`, `query` and `dot`. Every section
and every entry may be left out, and what is not known is skipped; but an entry that is known must
have the right type. A section may be written as a table, or as a list of all its entries in their
order.
-/

namespace TemplateAtlas

open TemplateAtlas.Text

/-- What the settings say about the corpus. -/
structure CorpusSettings where
  /-- The extensions of its files. -/
  extensions? : Option (List String)
  /-- The names of directories that are left out. -/
  skipped? : Option (List String)
  /-- Do ignore files count? -/
  respectIgnore? : Option Bool
  deriving DecidableEq, Repr

/-- What the settings say about queries. -/
structure QuerySettings where
  /-- The name of the format of answers. -/
  format? : Option String
  /-- The number of levels of trees. -/
  depth? : Option Nat
  deriving DecidableEq, Repr

/-- What the settings say about drawings. -/
structure DotSettings where
  /-- Are nodes grouped by repository? -/
  clusters? : Option Bool
  /-- Is there a legend? -/
  legend? : Option Bool
  /-- The name of the colours. -/
  theme? : Option String
  /-- The name of the direction of the ranks. -/
  ranks? : Option String
  /-- The name of the shape of the edges. -/
  edges? : Option String
  /-- Are the corners of nodes round? -/
  rounded? : Option Bool
  deriving DecidableEq, Repr

/-- The settings. -/
structure Settings where
  /-- What they say about the corpus. -/
  corpus? : Option CorpusSettings := none
  /-- What they say about queries. -/
  query? : Option QuerySettings := none
  /-- What they say about drawings. -/
  dot? : Option DotSettings := none
  deriving DecidableEq, Repr

/-- Why settings cannot be used. -/
inductive SettingsError where
  /-- The file cannot be read. -/
  | unreadable (fault : FileError)
  /-- The file is no TOML document. -/
  | malformed (file : Path) (fault : Toml.Fault)
  /-- The value at a key has the wrong type. -/
  | wrongType (file : Path) (key : String)
  deriving Repr

namespace Settings

/-- Reading gives the value, or the key at which the type is wrong. -/
abbrev Typed (α : Type) :=
  Except String α

/-- A text. -/
def text (key : String) : Toml.Value → Typed String
  | .text value => .ok value
  | _ => .error key

/-- A truth value. -/
def bool (key : String) : Toml.Value → Typed Bool
  | .bool value => .ok value
  | _ => .error key

/-- A number that is not negative. -/
def natural (key : String) : Toml.Value → Typed Nat
  | .integer (.ofNat value) => .ok value
  | _ => .error key

/-- A list of texts. -/
def texts (key : String) : Toml.Value → Typed (List String)
  | .list items => items.mapM (text key)
  | _ => .error key

/-- A section with its entries looked up by their keys, given in order. Where a section is expected,
a date counts as a table without entries that are known. -/
def sectionEntries (key : String) (keys : List String) :
    Toml.Value → Typed (List (Option Toml.Value))
  | .table entries => .ok (keys.map fun key => (entries.find? fun e => e.1 = key).map (·.2))
  | .list items =>
    if items.length < keys.length then .error key else .ok ((items.take keys.length).map some)
  | .moment _ => .ok (keys.map fun _ => none)
  | _ => .error key

/-- The value of an entry that may be missing. -/
def optional (read : String → Toml.Value → Typed α) (key : String) :
    Option Toml.Value → Typed (Option α)
  | none => .ok none
  | some value => some <$> read key value

/-- The entry at a place of a section. -/
def entryAt (n : Nat) (entries : List (Option Toml.Value)) : Option Toml.Value :=
  (entries[n]?).join

/-- The section about the corpus. -/
def corpusOf (key : String) (value : Toml.Value) : Typed CorpusSettings := do
  let entries ← sectionEntries key ["extensions", "skip_dirs", "respect_ignore"] value
  return {
    extensions? := ← optional texts "extensions" (entryAt 0 entries)
    skipped? := ← optional texts "skip_dirs" (entryAt 1 entries)
    respectIgnore? := ← optional bool "respect_ignore" (entryAt 2 entries) }

/-- The section about queries. -/
def queryOf (key : String) (value : Toml.Value) : Typed QuerySettings := do
  let entries ← sectionEntries key ["default_format", "default_depth"] value
  return {
    format? := ← optional text "default_format" (entryAt 0 entries)
    depth? := ← optional natural "default_depth" (entryAt 1 entries) }

/-- The section about drawings. -/
def dotOf (key : String) (value : Toml.Value) : Typed DotSettings := do
  let entries ← sectionEntries key
      ["clusters", "legend", "theme", "rankdir", "splines", "rounded"] value
  return {
    clusters? := ← optional bool "clusters" (entryAt 0 entries)
    legend? := ← optional bool "legend" (entryAt 1 entries)
    theme? := ← optional text "theme" (entryAt 2 entries)
    ranks? := ← optional text "rankdir" (entryAt 3 entries)
    edges? := ← optional text "splines" (entryAt 4 entries)
    rounded? := ← optional bool "rounded" (entryAt 5 entries) }

/-- The settings that the entries of a document state. -/
def ofEntries (entries : List (String × Toml.Value)) : Typed Settings := do
  let at? (key : String) : Option Toml.Value := (entries.find? fun e => e.1 = key).map (·.2)
  return {
    corpus? := ← optional corpusOf "workspace" (at? "workspace")
    query? := ← optional queryOf "query" (at? "query")
    dot? := ← optional dotOf "dot" (at? "dot") }

/-- The settings that the text of a file states. -/
def ofText (file : Path) (text : String) : Except SettingsError Settings :=
  match Toml.parse text with
  | .error fault => .error (.malformed file fault)
  | .ok entries =>
    match ofEntries entries with
    | .error key => .error (.wrongType file key)
    | .ok settings => .ok settings

/-- The settings of a file. -/
def load (tree : FileTree) (file : Path) : Except SettingsError Settings :=
  match tree.readText file with
  | .error fault => .error (.unreadable fault)
  | .ok text => ofText file text

/-- The name of the settings file of a workspace. -/
def fileName : String :=
  "pipeline-explorer.toml"

/-- The settings in the root of a workspace, if it has any. -/
def loadNear (tree : FileTree) (root : Path) : Except SettingsError (Option Settings) :=
  let file := root.child fileName
  if tree.isFile file then some <$> load tree file else .ok none

/-- The options of a corpus: those of the settings, and the usual ones where they say nothing.
Extensions are written with or without a dot. -/
def corpusOptions (settings? : Option Settings) : CorpusOptions :=
  let usual : CorpusOptions := {}
  match settings?.bind (·.corpus?) with
  | none => usual
  | some s =>
    { extensions :=
        (s.extensions?.map fun es =>
          es.map fun e => String.ofList (e.toList.dropWhile (· = '.'))).getD usual.extensions
      skipped := s.skipped?.getD usual.skipped
      respectIgnore := s.respectIgnore?.getD usual.respectIgnore }

/-- How graphs are drawn: as the settings say, and as usual where they say nothing. A name that is
not known stands for the usual choice. -/
def dotOptions (settings? : Option Settings) : DotOptions :=
  let usual : DotOptions := {}
  match settings?.bind (·.dot?) with
  | none => usual
  | some s =>
    { clusters := s.clusters?.getD usual.clusters
      legend := s.legend?.getD usual.legend
      theme := if s.theme? = some "dark" then .dark else .light
      ranks := if s.ranks? = some "TB" then .topBottom else .leftRight
      edges :=
        if s.edges? = some "ortho" then .ortho
        else if s.edges? = some "polyline" then .polyline
        else .curved
      rounded := s.rounded?.getD usual.rounded }

end Settings

end TemplateAtlas
