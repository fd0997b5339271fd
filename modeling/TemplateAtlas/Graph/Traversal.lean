import TemplateAtlas.Graph.Outgoing
import TemplateAtlas.Graph.Tree

/-!
# Walks

A walk follows references down from a file, or callers up to it, for a bounded number of levels. It
keeps the files on the way from the top to the current node: one that comes up again ends the walk
there and is marked as a cycle, while a file that is reached on two separate ways is walked on both.
-/

namespace TemplateAtlas

/-- The greatest number of levels of a walk. -/
def maxDepth : Nat := 10

/-- The number of levels that a request gets. -/
def clampDepth (depth : Nat) : Nat :=
  max 1 (min depth maxDepth)

/-- A file that refers to a target, with the line and alias of its first such reference. -/
structure CallSite where
  /-- The file. -/
  caller : Path
  /-- The line of the reference. -/
  line : Nat
  /-- The alias of the reference. -/
  alias? : Option String
  deriving BEq, Repr

/-- What is known of a file on a walk. A file reached through an alias is external. -/
def fileInfo (file : Path) (line? : Option Nat) (alias? : Option String) : Inquiry TreeInfo := do
  let text? ← Inquiry.text file
  let kind := if alias?.isSome then NodeKind.external else kindOfText text?
  let (declared, required) := countsOfText text?
  return { TreeInfo.new (.file file) kind line? alias? with
    parameterCount := declared, requiredCount := required }

/-- The node that marks a cycle at a file. -/
def cycleInfo (file : Path) (line : Nat) (alias? : Option String) : Inquiry TreeInfo := do
  let kind ← if alias?.isSome then pure NodeKind.external else classify file
  return { TreeInfo.new (.file file) kind (some line) alias? with cycle := true }

/-- The tree of what a file refers to, `depth` levels down. The files on the way down are
`above`. -/
def walkDown (above : List Path) : Nat → Path → Option Nat → Option String → Inquiry Tree
  | 0, file, line?, alias? => return .leaf (← fileInfo file line? alias?)
  | depth + 1, file, line?, alias? => do
    let info ← fileInfo file line? alias?
    let found ← outgoing file
    let children ← Inquiry.each (fun o =>
      match o.target with
      | .file path _ =>
        if (file :: above).contains path then Tree.leaf <$> cycleInfo path o.reference.line o.alias?
        else walkDown (file :: above) depth path (some o.reference.line) o.alias?
      | .missing .. => pure (.leaf (.new o.key .missing (some o.reference.line) o.alias?))
      | .unknownAlias name =>
        pure (.leaf (.new o.key .unknownAlias (some o.reference.line) (some name))))
      found
    return .node info children

/-- The tree of what a file refers to. -/
def templateTree (file : Path) (depth : Nat) : Inquiry Tree :=
  walkDown [] (clampDepth depth) file none none

/-- The call sites that were found so far, by target. -/
abbrev CallSiteMemo :=
  SortedMap Path (List CallSite)

/-- The results of the steps of a list, each step given what was found so far. -/
def eachWith (f : α → σ → Inquiry (β × σ)) : List α → σ → Inquiry (List β × σ)
  | [], s => pure ([], s)
  | a :: as, s => do
    let (b, s) ← f a s
    let (bs, s) ← eachWith f as s
    return (b :: bs, s)

/-- The tree of what refers to a file, `depth` levels up, by the call sites that `callers` finds.
The files on the way up are `above`. A caller is described by what its own file says, and the alias
is that of the reference that links it. -/
def walkUp (callers : Path → CallSiteMemo → Inquiry (List CallSite × CallSiteMemo))
    (above : List Path) :
    Nat → Path → Option Nat → Option String → CallSiteMemo → Inquiry (Tree × CallSiteMemo)
  | 0, file, line?, alias?, memo => do
    let info ← fileInfo file line? none
    return (.leaf { info with alias? := alias? }, memo)
  | depth + 1, file, line?, alias?, memo => do
    let info ← fileInfo file line? none
    let (sites, memo) ← callers file memo
    let (children, memo) ← eachWith (fun site memo =>
      if (file :: above).contains site.caller then do
        let leaf ← cycleInfo site.caller site.line none
        return (Tree.leaf { leaf with alias? := site.alias? }, memo)
      else walkUp callers (file :: above) depth site.caller (some site.line) site.alias? memo)
      sites memo
    return (.node { info with alias? := alias? } children, memo)

/-- The call site of a file for a target, if the file refers to it. -/
def callSiteIn? (target : Path) (caller : Path) : Inquiry (Option CallSite) := do
  let found ← outgoing caller
  return (found.find? fun o => o.target.path? == some target).map fun o =>
    ⟨caller, o.reference.line, o.alias?⟩

/-- Call sites in the order of their files. -/
def sortCallSites (sites : List CallSite) : List CallSite :=
  sites.mergeSort fun a b => (compare a.caller b.caller).isLE

/-- The call sites for a target that reading every file of the corpus finds, in the order of the
files. -/
def callersByScan (corpus : List Path) (target : Path) : Inquiry (List CallSite) := do
  let sites ← Inquiry.each (callSiteIn? target) corpus
  return sortCallSites (sites.filterMap id)

/-- The same, reading the corpus once for each target. -/
def callersByScanOnce (corpus : List Path) (target : Path) (memo : CallSiteMemo) :
    Inquiry (List CallSite × CallSiteMemo) :=
  match memo.find? target with
  | some sites => return (sites, memo)
  | none => do
    let sites ← callersByScan corpus target
    return (sites, memo.insert target sites)

/-- The tree of what refers to a file, found by reading the corpus. -/
def callerTreeByScan (corpus : List Path) (file : Path) (depth : Nat) : Inquiry Tree := do
  return (← walkUp (callersByScanOnce corpus) [] (clampDepth depth) file none none .empty).1

/-- The tree of what refers to a file, by call sites that are known. -/
def callerTreeBy (callers : Path → List CallSite) (file : Path) (depth : Nat) : Inquiry Tree := do
  return (← walkUp (fun target memo => pure (callers target, memo)) [] (clampDepth depth) file none
    none .empty).1

end TemplateAtlas
