import TemplateAtlas.CommandLine.Needs
import TemplateAtlas.Corpus.Ignore
import TemplateAtlas.Notification

/-!
# The program

The command line in the operating system: it gathers the files that an invocation needs, runs the
invocation on them, and writes back what it has written. Following changes is a loop that gathers
the files anew and compares. The disk is reached through names that are texts, so a file with
another name is not gathered.
-/

namespace TemplateAtlas.CommandLine

/-- The path of a place. -/
def placePath (place : Location) : Path :=
  Path.ofSteps (.root :: place.map .name)

/-- The files gathered so far, and the places that have been looked at. -/
structure Gathering where
  /-- The files. -/
  tree : FileTree
  /-- The places that have been looked at. -/
  seen : SortedMap Location Unit := .empty

/-- Gathering files. -/
abbrev Gather :=
  StateT Gathering IO

/-- What stands at a place is taken up; the answer tells whether it is a directory. -/
def look (place : Location) : Gather Bool := do
  let g ← get
  if g.seen.contains place then return g.tree.isDirectory (placePath place)
  set { g with seen := g.seen.insert place () }
  let here ← IO.currentDir
  let real := here / (placePath place).shown
  try
    let data ← real.metadata
    match data.type with
    | .dir =>
      modify fun g => { g with tree := g.tree.makeDirectories place }
      return true
    | .file =>
      let content ← IO.FS.readBinFile real
      let time := data.modified.sec.toNat * 1000000000 + data.modified.nsec.toNat
      modify fun g =>
        { g with tree := (g.tree.makeDirectories place.dropLast).put place content (some time) }
      return false
    | _ => return false
  catch _ => return false

/-- A place is looked at, and with every directory above it the files there that say something about
what lies below. -/
def lookUp (place : Location) : Gather Unit := do
  for above in IgnoreTable.directoriesAbove place do
    if !(← get).seen.contains above then
      let _ ← look above
      for name in repositoryMarker :: ignoreFileNames do
        let _ ← look (above ++ [name])
  let _ ← look place

/-- The files of a corpus below a directory are looked at. -/
partial def lookBelow (options : CorpusOptions) (place : Location) : Gather Unit := do
  let here ← IO.currentDir
  try
    for entry in ← (here / (placePath place).shown).readDir do
      let name : RawText := entry.fileName
      let inner := place ++ [name]
      let data ← entry.path.symlinkMetadata
      match data.type with
      | .dir =>
        let _ ← look inner
        if !options.skips name then lookBelow options inner
      | .file =>
        if options.hasExtension (placePath inner) || ignoreFileNames.contains name then
          let _ ← look inner
      | _ => pure ()
  catch _ => pure ()

/-- What the gathered files refer to is looked at, until nothing new turns up. -/
partial def lookOn : Gather Unit := do
  let g ← get
  let places := (FileTree.absentTargets g.tree).map g.tree.placeOf
  let fresh := places.filter fun place => !g.seen.contains place
  if !fresh.isEmpty then
    for place in fresh do
      lookUp place
    lookOn

/-- The files that an invocation needs. -/
def gather (inv : Invocation) : IO FileTree := do
  let here ← IO.currentDir
  let start : FileTree := {}
  let working := start.placeOf ⟨here.toString⟩
  let steps : Gather Unit := do
    lookUp working
    for path in inv.paths do
      lookUp ((← get).tree.placeOf path)
    let tree := (← get).tree
    match inv.action.workspace?, inv.corpusOptions? tree with
    | some choice, some options => lookBelow options (tree.placeOf choice.root)
    | _, _ => pure ()
    lookOn
  let (_, g) ← steps.run { tree := { start with working := working } }
  return g.tree

/-- The files that were written in a run are written to the disk. -/
def writeBack (tree : FileTree) : IO Unit := do
  let here ← IO.currentDir
  for (place, node) in tree.nodes.entries do
    match node with
    | .file ⟨content, .moment _⟩ => IO.FS.writeBinFile (here / (placePath place).shown) content
    | _ => pure ()

/-- The changes between two gatherings of files. -/
def changesBetween (before after : FileTree) : List FileChange :=
  let changed := after.nodes.entries.filterMap fun (place, node) =>
    match node, before.nodes.find? place with
    | .file _, none => some ⟨.created, placePath place⟩
    | .file v, some (.file old) =>
      if v.stamp = old.stamp then none else some ⟨.changed, placePath place⟩
    | _, _ => none
  let gone := before.nodes.entries.filterMap fun (place, _) =>
    if (after.nodes.find? place).isNone then some ⟨.deleted, placePath place⟩ else none
  changed ++ gone

/-- The name of a change. -/
def changeName : ChangeKind → String
  | .changed => "Changed"
  | .created => "Created"
  | .deleted => "Deleted"

/-- The tree of what refers to the file that is followed. -/
def printCallers (s : Session) (tree : FileTree) (file? : Option Path) (depth : Nat) : IO Unit := do
  match file? with
  | none => pure ()
  | some file =>
    IO.print (TreeText.render (s.workspace.callerTree tree file depth).1 s.workspace.root)

/-- Changes are looked for once a second and applied. -/
partial def follow (inv : Invocation) (s : Session) (before : FileTree) (file? : Option Path)
    (depth : Nat) : IO Unit := do
  IO.sleep 1000
  let tree ← gather inv
  let changes := (changesBetween before tree).filter fun c =>
    if c.kind = .deleted then c.path.startsWith s.workspace.root else s.workspace.accepts c.path
  if changes.isEmpty then follow inv s tree file? depth
  else
    let ws := changes.foldl (fun ws c => ws.applyChange tree c) s.workspace
    let s := { s with workspace := ws }
    for c in changes do
      IO.print (s.remark (changeName c.kind ++ " " ++ s.shown c.path))
    printCallers s tree file? depth
    follow inv s tree file? depth

/-- The index is built, and changes are followed from then on. -/
def watch (inv : Invocation) (tree : FileTree) (s : Session) (file? : Option Path) (depth : Nat) :
    IO Unit := do
  IO.print (s.remark ("Watching " ++ s.workspace.root.shown ++ " (Ctrl-C to stop)"))
  let s := { s with workspace := (s.workspace.buildIndex tree).2 }
  IO.print (s.remark ("Indexed " ++ toString s.workspace.index.snapshot.files.size ++ " files"))
  printCallers s tree file? depth
  follow inv s tree file? depth

/-- The outcome is printed; the exit code is its code. -/
def report (outcome : Outcome) : IO UInt32 := do
  IO.print outcome.output
  IO.eprint outcome.errors
  return outcome.code.toUInt32

/-- A command line is carried out. -/
def carryOut (words : List String) : IO UInt32 := do
  let settings? ← IO.getEnv settingsVariable
  match Invocation.read?
    (fun name => if name = settingsVariable then settings? else none) words with
  | .error r => report r.outcome
  | .ok inv =>
    let tree ← gather inv
    match inv.action with
    | .watch choice file? depth? =>
      match beginWatch inv .ofRules tree choice file? depth? with
      | .error f => report f.outcome
      | .ok (s, file?, depth) =>
        watch inv tree s file? depth
        return 0
    | _ =>
      let (outcome, tree) := inv.run .ofRules tree
      writeBack tree
      report outcome

end TemplateAtlas.CommandLine

/-- The program. -/
def main (words : List String) : IO UInt32 :=
  TemplateAtlas.CommandLine.carryOut words
