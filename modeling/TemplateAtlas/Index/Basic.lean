import TemplateAtlas.Index.Snapshot

/-!
# The index

The index serves its snapshot while a new one is built. Every build and every clearing takes the
next number; a build publishes its snapshot only if its number is still the latest, and changes that
arrive while a build is under way are queued and applied to its snapshot once more.
-/

namespace TemplateAtlas

/-- What happened to a file. -/
inductive ChangeKind where
  /-- Its content changed. -/
  | changed
  /-- It appeared. -/
  | created
  /-- It is gone. -/
  | deleted
  deriving DecidableEq, Repr

/-- A change to a file or, for a deletion, to a directory. -/
structure FileChange where
  /-- What happened. -/
  kind : ChangeKind
  /-- Where. -/
  path : Path
  deriving BEq, Repr

/-- The index of a workspace. -/
structure Index where
  /-- What it serves. -/
  snapshot : Snapshot := {}
  /-- Has a snapshot been published since it was cleared? -/
  ready : Bool := false
  /-- The latest number taken. -/
  started : Nat := 0
  /-- The number of the latest build or clearing that is complete. -/
  completed : Nat := 0
  /-- Changes to apply again to the snapshot that is being built. -/
  pending : List FileChange := []
  deriving Inhabited

namespace Index

/-- Is a build under way? -/
def inFlight (index : Index) : Bool :=
  index.started != index.completed

/-- A build begins. Its number is the returned one. -/
def beginBuild (index : Index) : Index × Nat :=
  ({ index with started := index.started + 1 }, index.started + 1)

/-- The snapshot after one change. A path that changed or appeared is read again. -/
def applyNow (change : FileChange) (snapshot : Snapshot) : Inquiry Snapshot :=
  match change.kind with
  | .deleted => return snapshot.removePath change.path
  | _ => return snapshot.setForward change.path (← indexReferences change.path)

/-- The snapshot after several changes. -/
def applyAll : List FileChange → Snapshot → Inquiry Snapshot
  | [], snapshot => return snapshot
  | change :: rest, snapshot => do applyAll rest (← applyNow change snapshot)

/-- A build ends with the snapshot that it made, and the answer tells whether it is published. That
it is unless a later number has been taken; then the queued changes are applied to it and the queue
is empty. -/
def endBuild (number : Nat) (built : Snapshot) (index : Index) : Inquiry (Bool × Index) :=
  if index.started != number then return (false, index)
  else do
    let snapshot ← applyAll index.pending built
    return (true,
      { index with snapshot := snapshot, ready := true, completed := number, pending := [] })

/-- A change arrives. While a build is under way it is queued; as soon as there is a snapshot, it is
applied to that. -/
def apply (change : FileChange) (index : Index) : Inquiry Index := do
  let index := if index.inFlight then { index with pending := index.pending ++ [change] } else index
  if index.ready then return { index with snapshot := ← applyNow change index.snapshot }
    else return index

/-- The index forgets everything. A build under way will not publish. -/
def clear (index : Index) : Index :=
  { snapshot := {}, ready := false, started := index.started + 1, completed := index.started + 1,
    pending := [] }

end Index

end TemplateAtlas
