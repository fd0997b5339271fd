import TemplateAtlas.Index.Snapshot

/-!
# References among the files of a corpus

The files of a snapshot with the references between them; references out of the corpus do not count.
On it, the cycles that a search in depth comes upon, and the shortest chain that a search in breadth
finds.
-/

namespace TemplateAtlas

namespace Snapshot

/-- The files that a file refers to, in the order of the files and each once. -/
def successors (s : Snapshot) (file : Path) : List Path :=
  let refs := s.forwardTargets file
  s.files.toList.filter fun f => refs.any (·.target == f)

/-! ### Cycles -/

/-- What a search for cycles has seen and found. -/
structure CycleSearch where
  /-- The files that the search has come to. -/
  visited : List Path := []
  /-- The cycles, each from the file at which it closes to the file that closes it. -/
  found : List (List Path) := []

/-- The part of a way from `file` on. The way is given with its last file first. -/
def wayFrom (file : Path) (way : List Path) : List Path :=
  (way.takeWhile (· != file) ++ (way.find? (· == file)).toList).reverse

/-- The search goes on at a file that it has not come to, at the end of a way given with its last
file first. A reference to a file on the way closes a cycle. -/
def searchFrom (s : Snapshot) : Nat → List Path → Path → CycleSearch → CycleSearch
  | 0, _, _, search => search
  | n + 1, above, file, search =>
    let way := file :: above
    (s.successors file).foldl (fun (search : CycleSearch) next =>
      if !search.visited.contains next then searchFrom s n way next search
      else if way.contains next then { search with found := search.found ++ [wayFrom next way] }
      else search)
      { search with visited := file :: search.visited }

/-- The cycles among the files: for each reference that closes one in a search in depth through all
files in their order. -/
def cycles (s : Snapshot) : List (List Path) :=
  let files := s.files.toList
  (files.foldl (fun (search : CycleSearch) file =>
    if search.visited.contains file then search else searchFrom s files.length [] file search)
      {}).found

/-! ### Chains -/

/-- What a search for a chain has come to. -/
structure ChainSearch where
  /-- The files that the search has seen. -/
  seen : List Path
  /-- The file from which each of them was seen; it began at the one that has none. -/
  previous : SortedMap Path Path := .empty
  /-- Those that it has not looked into, the first seen in front. -/
  queue : List Path

/-- A file refers to another, which the search sees if it has not seen it. -/
def ChainSearch.see (file : Path) (search : ChainSearch) (next : Path) : ChainSearch :=
  if search.seen.contains next then search
  else
    { seen := search.seen ++ [next]
      previous := search.previous.insert next file
      queue := search.queue ++ [next] }

/-- The search looks into the files in its queue, one after another, until the goal is in front. -/
def searchChain (s : Snapshot) (goal : Path) : Nat → ChainSearch → ChainSearch
  | 0, search => search
  | n + 1, search =>
    match search.queue with
    | [] => search
    | file :: queue =>
      if file == goal then search
      else searchChain s goal n
        ((s.successors file).foldl (ChainSearch.see file) { search with queue := queue })

/-- The way back from a file to the beginning of a search, which is at most `n` steps away. -/
def wayBack (previous : SortedMap Path Path) : Nat → Path → List Path
  | 0, file => [file]
  | n + 1, file =>
    match previous.find? file with
    | none => [file]
    | some before => file :: wayBack previous n before

/-- A shortest chain of references from one file to another; none if there is none, or if one of
them is no file of the corpus. -/
def shortestChain (s : Snapshot) (source goal : Path) : List Path :=
  let files := s.files.toList
  match files.find? (· == source), files.find? (· == goal) with
  | some source, some goal =>
    let search := searchChain s goal files.length { seen := [source], queue := [source] }
    if search.seen.contains goal then (wayBack search.previous files.length goal).reverse else []
  | _, _ => []

end Snapshot

end TemplateAtlas
