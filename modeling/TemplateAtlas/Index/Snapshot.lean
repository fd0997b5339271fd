import TemplateAtlas.Graph.Traversal

/-!
# Snapshots of the index

A snapshot holds, for each file of the corpus, its resolved references, and for each target the
files that refer to it. The callers follow from the references; a change to one file patches only
the callers of targets that it gains or loses.
-/

namespace TemplateAtlas

/-- A resolved reference of an indexed file. The target need not exist. -/
structure IndexedReference where
  /-- The path it leads to. -/
  target : Path
  /-- The line that makes it. -/
  line : Nat
  /-- The alias it uses. -/
  alias? : Option String
  deriving BEq, Repr

/-- The targets of references, each once. -/
def targetsOf (refs : List IndexedReference) : SortedSet Path :=
  .ofList (refs.map (·.target))

/-- What an index knows of a corpus. -/
structure Snapshot where
  /-- The files. -/
  files : SortedSet Path := .empty
  /-- The references of each file. -/
  forward : SortedMap Path (List IndexedReference) := .empty
  /-- The callers of each target. -/
  inverse : SortedMap Path (SortedSet Path) := .empty
  deriving Inhabited

namespace Snapshot

/-- The callers with one more for a target. -/
def addCaller (file : Path) (inverse : SortedMap Path (SortedSet Path)) (target : Path) :
    SortedMap Path (SortedSet Path) :=
  inverse.insert target (((inverse.find? target).getD .empty).add file)

/-- The callers with one less for a target; a target without callers is dropped. -/
def dropCaller (file : Path) (inverse : SortedMap Path (SortedSet Path)) (target : Path) :
    SortedMap Path (SortedSet Path) :=
  match inverse.find? target with
  | none => inverse
  | some callers =>
    if (callers.erase file).isEmpty then inverse.erase target
    else inverse.insert target (callers.erase file)

/-- The snapshot that follows from the references of the files. -/
def ofForward (forward : SortedMap Path (List IndexedReference)) : Snapshot where
  files := .ofList forward.keys
  forward := forward
  inverse := forward.entries.foldl
    (fun inverse (file, refs) =>
      refs.foldl (fun inverse r => addCaller file inverse r.target) inverse) .empty

/-- The targets of a file. -/
def targets (s : Snapshot) (file : Path) : SortedSet Path :=
  targetsOf ((s.forward.find? file).getD [])

/-- The snapshot with new references for a file. -/
def setForward (s : Snapshot) (file : Path) (refs : List IndexedReference) : Snapshot :=
  let old := s.targets file
  let new := targetsOf refs
  let lost := old.toList.filter (!new.contains ·)
  let gained := new.toList.filter (!old.contains ·)
  { files := s.files.add file
    forward := s.forward.insert file refs
    inverse := gained.foldl (addCaller file) (lost.foldl (dropCaller file) s.inverse) }

/-- The snapshot without a file. Others may still refer to it. -/
def removeFile (s : Snapshot) (file : Path) : Snapshot :=
  { files := s.files.erase file
    forward := s.forward.erase file
    inverse := (s.targets file).toList.foldl (dropCaller file) s.inverse }

/-- The snapshot without a file or, if the path is no file of it, without the files below the
path. -/
def removePath (s : Snapshot) (path : Path) : Snapshot :=
  if s.files.contains path then s.removeFile path
  else (s.files.toList.filter (·.startsWith path)).foldl removeFile s

/-- The callers with their sets as lists. -/
def inverseLists (s : Snapshot) : List (Path × List Path) :=
  s.inverse.entries.map fun (target, callers) => (target, callers.toList)

/-- Do the files and callers follow from the references? -/
def isConsistent (s : Snapshot) : Bool :=
  let derived := ofForward s.forward
  derived.inverseLists == s.inverseLists && derived.files.toList == s.files.toList

/-- The number of references. -/
def edgeCount (s : Snapshot) : Nat :=
  s.forward.values.flatten.length

/-- The files that refer to a target, in order. -/
def directCallers (s : Snapshot) (target : Path) : List Path :=
  ((s.inverse.find? target).map SortedSet.toList).getD []

/-- The files that refer to a target, each with its first reference to it. -/
def callersWithSites (s : Snapshot) (target : Path) : List CallSite :=
  (s.directCallers target).filterMap fun caller =>
    match (s.forward.find? caller).bind fun refs => refs.find? (·.target == target) with
    | none => none
    | some r => some ⟨caller, r.line, r.alias?⟩

/-- The references of a file. -/
def forwardTargets (s : Snapshot) (file : Path) : List IndexedReference :=
  (s.forward.find? file).getD []

end Snapshot

/-- The reference as the index keeps it, if it leads to a path. -/
def Outgoing.indexed? (o : Outgoing) : Option IndexedReference :=
  o.target.path?.map fun path => ⟨path, o.reference.line, o.alias?⟩

/-- The references of a file as the index keeps them. -/
def indexReferences (file : Path) : Inquiry (List IndexedReference) := do
  return (← outgoing file).filterMap Outgoing.indexed?

/-- The references of several files. -/
def indexFiles (files : List Path) : Inquiry Snapshot := do
  let found ← Inquiry.each (fun file => return (file, ← indexReferences file)) files
  return .ofForward (.ofList found)

end TemplateAtlas
