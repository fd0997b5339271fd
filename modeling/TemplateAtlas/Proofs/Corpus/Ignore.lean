import TemplateAtlas.Corpus.Ignore
import TemplateAtlas.Proofs.Corpus.Files

/-!
# Readers of ignore files

What ignore files hide is a parameter of a walk. A way to read them is asked for one thing: it hides
nothing where no directory above holds an ignore file (`IgnoreReader.Lawful`). The way that follows
the rules of ignore files does so (`IgnoreReader.lawful_ofRules`).
-/

namespace TemplateAtlas

/-- No directory above a location holds an ignore file. -/
def FileTree.LacksIgnoreFiles (tree : FileTree) (place : Location) : Prop :=
  ∀ above, above <+: place → above ≠ place →
    ∀ name ∈ ignoreFileNames, ∀ v, tree.node? (above ++ [name]) ≠ some (.file v)

/-- What a way to read ignore files is asked for: it hides nothing unless an ignore file above says
so. -/
structure IgnoreReader.Lawful (reader : IgnoreReader) : Prop where
  /-- No directory is hidden. -/
  hidesDirectory {tree : FileTree} {place : Location} (top : Location) :
    tree.LacksIgnoreFiles place → (reader.read tree top).hidesDirectory place = false
  /-- No file is hidden. -/
  hidesFile {tree : FileTree} {place : Location} (top : Location) :
    tree.LacksIgnoreFiles place → (reader.read tree top).hidesFile place = false

variable {reader : IgnoreReader} {tree : FileTree} {top place : Location}

theorem FileTree.LacksIgnoreFiles.of_isPrefix (h : tree.LacksIgnoreFiles place) {q : Location}
    (hq : q <+: place) : tree.LacksIgnoreFiles q := by
  refine fun above habove hne => h above (habove.trans hq) fun heq => hne ?_
  subst heq
  exact habove.eq_of_length_le hq.length_le

theorem IgnoreFilter.hidesOnWay_eq_false {filter : IgnoreFilter} {above : Location}
    {names : List RawText}
    (hdirectory : ∀ q, q <+: above ++ names → filter.hidesDirectory q = false)
    (hfile : filter.hidesFile (above ++ names) = false) :
    filter.hidesOnWay above names = false := by
  fun_induction filter.hidesOnWay above names with
  | case1 above => rfl
  | case2 above name => exact hfile
  | case3 above name next names ih =>
    rw [List.append_cons] at hdirectory hfile
    rw [hdirectory (above ++ [name]) (List.prefix_append ..), Bool.false_or]
    exact ih hdirectory hfile

/-- Where no directory above holds an ignore file, nothing is hidden. -/
theorem IgnoreReader.Lawful.hides_eq_false (hreader : reader.Lawful) (hbelow : top <+: place)
    (hnone : tree.LacksIgnoreFiles place) : reader.hides tree top place = false := by
  obtain ⟨names, rfl⟩ := hbelow
  rw [hides, List.drop_left]
  exact IgnoreFilter.hidesOnWay_eq_false
    (fun q hq => hreader.hidesDirectory top (hnone.of_isPrefix hq))
    (hreader.hidesFile top hnone)

/-! ### Rules -/

theorem find?_ignoreTable {name : RawText} {above : Location}
    (hnone : ∀ v, tree.node? (above ++ [name]) ≠ some (.file v)) :
    (tree.ignoreTable name).find? above = none := by
  rw [← Option.not_isSome_iff_eq_none]
  intro hsome
  obtain ⟨⟨directory, rules⟩, hmem, heq⟩ := SortedMap.contains_ofList.1 hsome
  obtain rfl := Std.compare_eq_iff_eq.1 heq
  obtain ⟨⟨place, node⟩, hentry, hrules⟩ := List.mem_filterMap.1 hmem
  cases node with
  | directory => cases hrules
  | file v =>
    simp only [Option.ite_none_right_eq_some, Option.some.injEq, Prod.mk.injEq] at hrules
    obtain ⟨hlast, habove, -⟩ := hrules
    obtain ⟨front, rfl⟩ := List.getLast?_eq_some_iff.1 hlast
    rw [List.dropLast_concat] at habove
    subst habove
    exact hnone v (by rw [FileTree.node?_of_ne_nil _ (by simp), SortedMap.find?_of_mem hentry])

theorem isIgnored_eq_false (hnone : tree.LacksIgnoreFiles place) (isDirectory : Bool) :
    isIgnored (ignoreFileNames.map tree.ignoreTable) place isDirectory = false := by
  have hsilent : (ignoreFileNames.map tree.ignoreTable).findSome? (·.verdict? place isDirectory) =
      none := by
    rw [List.findSome?_eq_none_iff]
    intro table htable
    obtain ⟨name, hname, rfl⟩ := List.mem_map.1 htable
    rw [IgnoreTable.verdict?, List.findSome?_eq_none_iff]
    intro above habove
    obtain ⟨n, hn, rfl⟩ := List.mem_map.1 habove
    rw [List.mem_reverse, List.mem_range] at hn
    have hne : place.take n ≠ place := fun heq => by
      have hlength := congrArg List.length heq
      rw [List.length_take] at hlength
      omega
    rw [find?_ignoreTable (hnone _ (List.take_prefix n place) hne name hname)]
    rfl
  rw [isIgnored, hsilent]
  rfl

/-- The rules of ignore files hide nothing where there are none. -/
theorem IgnoreReader.lawful_ofRules : IgnoreReader.ofRules.Lawful where
  hidesDirectory _ hnone := isIgnored_eq_false hnone true
  hidesFile _ hnone := isIgnored_eq_false hnone false

end TemplateAtlas
