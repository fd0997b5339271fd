import TemplateAtlas.Index.Snapshot

/-!
# Hubs

The files of a corpus ranked by how many others they are tied to. A file's ties to itself do not
count, and neither do repeated ones.
-/

namespace TemplateAtlas

/-- What files are ranked by. -/
inductive HubMetric where
  /-- The number of files that refer to the file. -/
  | callers
  /-- The number of targets that the file refers to. -/
  | targets
  /-- Both together. -/
  | both
  deriving DecidableEq, Repr

/-- A file with its ties. -/
structure Hub where
  /-- The file. -/
  file : Path
  /-- The number of other files that refer to it. -/
  callers : Nat
  /-- The number of other targets that it refers to. -/
  targets : Nat
  deriving BEq, Repr

namespace Hub

/-- The number that counts. -/
def score (h : Hub) : HubMetric → Nat
  | .callers => h.callers
  | .targets => h.targets
  | .both => h.callers + h.targets

/-- Higher scores come first, and among equals the files in their order. -/
def comesBefore (metric : HubMetric) (a b : Hub) : Bool :=
  b.score metric < a.score metric ||
    (a.score metric = b.score metric && (compare a.file b.file).isLE)

end Hub

namespace Snapshot

/-- A file with its ties. -/
def hub (s : Snapshot) (file : Path) : Hub where
  file := file
  callers := (s.directCallers file).countP (· != file)
  targets := (s.targets file).toList.countP (· != file)

/-- The highest ranked files, at most `top` of them. -/
def hubs (s : Snapshot) (metric : HubMetric) (top : Nat) : List Hub :=
  ((s.files.toList.map s.hub).mergeSort (Hub.comesBefore metric)).take top

end Snapshot

end TemplateAtlas
