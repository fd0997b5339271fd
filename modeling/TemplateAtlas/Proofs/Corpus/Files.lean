import TemplateAtlas.Corpus.Files
import TemplateAtlas.Proofs.Files.Tree
import TemplateAtlas.Proofs.Path.Order

/-!
# The files of a corpus

A walk leaves out what it does not enter, so a file is found if the way down to it is open: no
directory on it has a name that is left out, and ignore files, if they count, hide neither such a
directory nor the file (`mem_walk_iff`). Each file is found once (`nodup_walk`).

The corpus of a root that is an address holds addresses of files, in strictly ascending order
(`pairwise_files`). They are the files of the tree that the root accepts by their paths and that
ignore files do not hide (`mem_files_iff_of_hides`); as long as no ignore file counts, the paths
alone decide (`mem_files_iff`).
-/

namespace TemplateAtlas

open Std

/-- Is a file hidden that names lead to from a location, or a directory on the way? -/
def IgnoreFilter.hidesOnWay (filter : IgnoreFilter) : Location → List RawText → Bool
  | _, [] => false
  | above, [name] => filter.hidesFile (above ++ [name])
  | above, name :: next :: names =>
    filter.hidesDirectory (above ++ [name]) || filter.hidesOnWay (above ++ [name]) (next :: names)

/-- Do ignore files hide a file from a walk that starts at `top`, or a directory on the way to
it? -/
def IgnoreReader.hides (reader : IgnoreReader) (tree : FileTree) (top place : Location) : Bool :=
  (reader.read tree top).hidesOnWay top (place.drop top.length)

namespace CorpusOptions

variable {options : CorpusOptions} {reader : IgnoreReader} {filter : IgnoreFilter} {tree : FileTree}
  {top place : Location} {root p : Path}

/-! ### Paths below a root -/

theorem startsWith_address_iff (htop : IsPlace top) (hplace : IsPlace place) :
    (Path.address place).startsWith (Path.address top) = true ↔ top <+: place := by
  rw [Path.startsWith, Path.components_address htop, Path.components_address hplace,
    List.isPrefixOf_iff_prefix, List.cons_prefix_cons, eq_self_iff_true, true_and]
  constructor
  · rintro ⟨rest, hrest⟩
    obtain ⟨l₁, l₂, rfl, h₁, -⟩ := List.map_eq_append_iff.1 hrest.symm
    rw [List.map_injective_iff.2 (fun _ _ => Component.name.inj) h₁]
    exact List.prefix_append ..
  · intro hbelow
    exact hbelow.map _

theorem startsWith_iff {p q : Path} (hp : p.IsAddress) (hq : q.IsAddress) :
    q.startsWith p = true ↔ p.place <+: q.place := by
  obtain ⟨top, htop, rfl⟩ := hp
  obtain ⟨place, hplace, rfl⟩ := hq
  rw [startsWith_address_iff htop hplace, Path.place_address htop, Path.place_address hplace]

/-- A root accepts the addresses below it that have an extension of the corpus and no directory on
the way that is left out. -/
theorem accepts_address_iff (htop : IsPlace top) (hplace : IsPlace place) :
    options.accepts (Path.address top) (Path.address place) = true ↔
      top <+: place ∧ options.hasExtension (Path.address place) = true ∧
        ∀ name ∈ (place.drop top.length).dropLast, options.skips name = false := by
  simp only [accepts, Path.stepsBelow?]
  by_cases hbelow : top <+: place
  · rw [if_pos ((startsWith_address_iff htop hplace).2 hbelow), Path.components_address htop,
      Path.components_address hplace]
    simp [hbelow, ← List.map_drop, ← List.map_dropLast, Component.text]
  · rw [if_neg (mt (startsWith_address_iff htop hplace).1 hbelow)]
    simp [hbelow]

/-! ### Walks -/

/-- No directory on the way down from a location has a name that is left out, and ignore files, if
they count, hide nothing on it. -/
def OpenWay (options : CorpusOptions) (filter : IgnoreFilter) (above : Location)
    (names : List RawText) : Prop :=
  (∀ name ∈ names.dropLast, options.skips name = false) ∧
    (options.respectIgnore && filter.hidesOnWay above names) = false

@[simp] theorem openWay_nil (above : Location) : options.OpenWay filter above [] := by
  simp [OpenWay, IgnoreFilter.hidesOnWay]

theorem openWay_singleton_iff {name : RawText} {v : FileVersion} :
    options.OpenWay filter place [name] ↔
      options.leavesOut filter place name (.file v) = false := by
  simp [OpenWay, IgnoreFilter.hidesOnWay, leavesOut]

theorem openWay_cons_iff {name : RawText} {names : List RawText} (hne : names ≠ []) :
    options.OpenWay filter place (name :: names) ↔
      options.leavesOut filter place name .directory = false ∧
        options.OpenWay filter (place ++ [name]) names := by
  obtain ⟨next, rest, rfl⟩ := List.exists_cons_of_ne_nil hne
  simp only [OpenWay, IgnoreFilter.hidesOnWay, leavesOut, List.dropLast_cons_cons,
    List.forall_mem_cons, Bool.or_eq_false_iff, Bool.and_or_distrib_left]
  tauto

/-- A way down is open, if its first step is not left out and the rest is open. -/
theorem openWay_cons_iff_of_node? (h : tree.WellFormed) {name : RawText} {names : List RawText}
    {child : Node} {v : FileVersion} (hchild : tree.node? (place ++ [name]) = some child)
    (hfile : tree.node? (place ++ name :: names) = some (.file v)) :
    options.OpenWay filter place (name :: names) ↔
      options.leavesOut filter place name child = false ∧
        options.OpenWay filter (place ++ [name]) names := by
  by_cases hne : names = []
  · subst hne
    obtain rfl : child = .file v := Option.some.inj (hchild.symm.trans hfile)
    rw [openWay_singleton_iff, and_iff_left (openWay_nil _)]
  · rw [List.append_cons] at hfile
    have hdirectory := h.directory_of_append hne (by rw [hfile]; rfl)
    obtain rfl : child = .directory := Option.some.inj (hchild.symm.trans hdirectory)
    exact openWay_cons_iff hne

@[simp] theorem walk_file (options : CorpusOptions) (filter : IgnoreFilter) (tree : FileTree)
    (levels : Nat) (path : Path) (place : Location) (v : FileVersion) :
    options.walk filter tree levels path place (.file v) = [path] := by
  simp [walk]

/-- A walk that starts at a file finds that file. -/
theorem mem_walk_file_iff (h : tree.WellFormed) {levels : Nat} {v : FileVersion}
    (hfile : tree.node? place = some (.file v)) :
    p ∈ options.walk filter tree levels (Path.address place) place (.file v) ↔
      ∃ names w, p = Path.address (place ++ names) ∧ tree.node? (place ++ names) = some (.file w) ∧
        options.OpenWay filter place names := by
  rw [walk_file, List.mem_singleton]
  constructor
  · rintro rfl
    exact ⟨[], v, by simp, by simpa using hfile, openWay_nil _⟩
  · rintro ⟨names, w, rfl, hnode, -⟩
    obtain rfl := h.eq_nil_of_file hfile (by rw [hnode]; rfl)
    rw [List.append_nil]

/-- What a walk finds in a directory is what it finds at the entries that are not left out. -/
theorem mem_walk_directory_iff (h : tree.WellFormed) {levels : Nat} :
    p ∈ options.walk filter tree (levels + 1) (Path.address place) place .directory ↔
      ∃ name child, tree.node? (place ++ [name]) = some child ∧
        options.leavesOut filter place name child = false ∧
          p ∈ options.walk filter tree levels (Path.address (place ++ [name])) (place ++ [name])
            child := by
  simp only [walk, List.mem_flatMap, Prod.exists, h.mem_contents_iff]
  refine exists_congr fun name => exists_congr fun child => and_congr_right fun hchild => ?_
  have hplace := List.forall_mem_append.1 (h.isPlace_of_eq_some hchild)
  rw [Path.child_address hplace.1 (hplace.2 name (by simp))]
  cases options.leavesOut filter place name child with
  | false => simp
  | true => simp

/-- A walk finds exactly the files to which an open way leads. -/
theorem mem_walk_iff (h : tree.WellFormed) {levels : Nat} {node : Node}
    (hnode : tree.node? place = some node) (hlevels : tree.levels ≤ place.length + levels) :
    p ∈ options.walk filter tree levels (Path.address place) place node ↔
      ∃ names v, p = Path.address (place ++ names) ∧ tree.node? (place ++ names) = some (.file v) ∧
        options.OpenWay filter place names := by
  induction levels generalizing place node with
  | zero =>
    cases node with
    | file v => exact mem_walk_file_iff h hnode
    | directory =>
      -- nothing stands below the last level
      refine iff_of_false List.not_mem_nil ?_
      rintro ⟨names, v, -, hfile, -⟩
      have hlength : (place ++ names).length ≤ tree.levels :=
        FileTree.length_le_levels (by rw [hfile]; rfl)
      rw [List.length_append] at hlength
      rw [List.eq_nil_of_length_eq_zero (show names.length = 0 by omega), List.append_nil,
        hnode] at hfile
      cases hfile
  | succ levels ih =>
    cases node with
    | file v => exact mem_walk_file_iff h hnode
    | directory =>
      have hbelow : ∀ name : RawText, tree.levels ≤ (place ++ [name]).length + levels := by
        intro name
        rw [List.length_append, List.length_singleton]
        omega
      rw [mem_walk_directory_iff h]
      constructor
      · rintro ⟨name, child, hchild, hopen, hmem⟩
        obtain ⟨names, v, rfl, hfile, hway⟩ := (ih hchild (hbelow name)).1 hmem
        rw [← List.append_cons] at hfile
        exact ⟨name :: names, v, by rw [← List.append_cons], hfile,
          (openWay_cons_iff_of_node? h hchild hfile).2 ⟨hopen, hway⟩⟩
      · rintro ⟨names, v, rfl, hfile, hway⟩
        cases names with
        | nil =>
          rw [List.append_nil, hnode] at hfile
          cases hfile
        | cons name names =>
          have hfile' := hfile
          rw [List.append_cons] at hfile'
          obtain ⟨child, hchild⟩ :=
            Option.isSome_iff_exists.1 (h.isSome_of_append (by rw [hfile']; rfl))
          obtain ⟨hopen, hway⟩ := (openWay_cons_iff_of_node? h hchild hfile).1 hway
          refine ⟨name, child, hchild, hopen, (ih hchild (hbelow name)).2 ?_⟩
          exact ⟨names, v, by rw [List.append_cons], hfile', hway⟩

/-- A walk finds no file twice. -/
theorem nodup_walk (h : tree.WellFormed) {levels : Nat} {node : Node}
    (hnode : tree.node? place = some node) (hlevels : tree.levels ≤ place.length + levels) :
    (options.walk filter tree levels (Path.address place) place node).Nodup := by
  induction levels generalizing place node with
  | zero => cases node <;> simp [walk]
  | succ levels ih =>
    cases node with
    | file v => simp
    | directory =>
      have child : ∀ e ∈ tree.contents place, tree.node? (place ++ [e.1]) = some e.2 ∧
          (Path.address place).child e.1 = Path.address (place ++ [e.1]) ∧
          tree.levels ≤ (place ++ [e.1]).length + levels := by
        intro e he
        have hchild := h.mem_contents_iff.1 he
        have hplace := List.forall_mem_append.1 (h.isPlace_of_eq_some hchild)
        exact ⟨hchild, Path.child_address hplace.1 (hplace.2 _ (by simp)),
          by rw [List.length_append, List.length_singleton]; omega⟩
      simp only [walk]
      refine List.nodup_flatMap.2 ⟨fun e he => ?_, ?_⟩
      · obtain ⟨hchild, haddress, hlevels⟩ := child e he
        split
        · exact List.nodup_nil
        · rw [haddress]
          exact ih hchild hlevels
      · refine (FileTree.pairwise_contents tree place).imp_of_mem fun {a b} ha hb hne => ?_
        obtain ⟨hchild, haddress, hlevels⟩ := child a ha
        obtain ⟨hchild', haddress', hlevels'⟩ := child b hb
        intro p hp hp'
        dsimp only at hp hp'
        split at hp
        · cases hp
        split at hp'
        · cases hp'
        rw [haddress, mem_walk_iff h hchild hlevels] at hp
        rw [haddress', mem_walk_iff h hchild' hlevels'] at hp'
        obtain ⟨names, v, rfl, hfile, -⟩ := hp
        obtain ⟨names', w, heq, hfile', -⟩ := hp'
        have hplaces := Path.address_inj (h.isPlace_of_eq_some hfile)
          (h.isPlace_of_eq_some hfile') heq
        rw [List.append_assoc, List.append_assoc] at hplaces
        exact hne (List.cons.inj (List.append_cancel_left hplaces)).1

/-! ### The corpus -/

/-- The corpus of a top that leads to nothing is empty; otherwise it has the files that a walk
finds, if they have an extension of the corpus. -/
theorem files_address (options : CorpusOptions) (reader : IgnoreReader) (tree : FileTree)
    (htop : IsPlace top) :
    options.files reader tree (Path.address top) =
      match tree.nodeAt? (Path.address top) with
      | none => []
      | some node =>
        ((options.walk (reader.read tree top) tree tree.levels (Path.address top) top node).filter
          options.hasExtension).mergeSort fun p q => (compare p q).isLE := by
  rw [files, FileTree.nodeAt?]
  cases hlocate : tree.locate (Path.address top) with
  | error e => rfl
  | ok found =>
    have hfound := FileTree.locate_eq_ok_of_isAbsolute (Path.isAbsolute_address htop) hlocate
    rw [Path.place_address htop] at hfound
    subst hfound
    rfl

/-- The corpus of a root that can be followed holds the files that the root accepts by their paths
and that no ignore file hides, if ignore files count. -/
theorem mem_files_iff_of_hides (h : tree.WellFormed) (htop : IsPlace top) :
    p ∈ options.files reader tree (Path.address top) ↔ FileTree.Followable top ∧
      ∃ place v, p = Path.address place ∧ tree.node? place = some (.file v) ∧
        options.accepts (Path.address top) p = true ∧
        (options.respectIgnore && reader.hides tree top place) = false := by
  rw [files_address options reader tree htop]
  cases hnode : tree.nodeAt? (Path.address top) with
  | none =>
    refine iff_of_false List.not_mem_nil ?_
    rintro ⟨hfollow, place, v, rfl, hplace, haccepts, -⟩
    obtain ⟨names, rfl⟩ := ((accepts_address_iff htop (h.isPlace_of_eq_some hplace)).1 haccepts).1
    obtain ⟨node, hnode'⟩ := Option.isSome_iff_exists.1 (h.isSome_of_append (by rw [hplace]; rfl))
    rw [(FileTree.nodeAt?_address_eq_some_iff h htop).2 ⟨hfollow, hnode'⟩] at hnode
    cases hnode
  | some node =>
    obtain ⟨hfollow, hnode⟩ := (FileTree.nodeAt?_address_eq_some_iff h htop).1 hnode
    simp only [List.mem_mergeSort, List.mem_filter, mem_walk_iff h hnode (Nat.le_add_left _ _),
      hfollow, true_and]
    constructor
    · rintro ⟨⟨names, v, rfl, hfile, hskips, hhides⟩, hextension⟩
      refine ⟨_, v, rfl, hfile, (accepts_address_iff htop (h.isPlace_of_eq_some hfile)).2 ?_, ?_⟩
      · exact ⟨List.prefix_append .., hextension, by rwa [List.drop_left]⟩
      · rwa [IgnoreReader.hides, List.drop_left]
    · rintro ⟨place, v, rfl, hfile, haccepts, hhides⟩
      obtain ⟨⟨names, rfl⟩, hextension, hskips⟩ :=
        (accepts_address_iff htop (h.isPlace_of_eq_some hfile)).1 haccepts
      rw [List.drop_left] at hskips
      rw [IgnoreReader.hides, List.drop_left] at hhides
      exact ⟨⟨names, v, rfl, hfile, hskips, hhides⟩, hextension⟩

/-- As long as no ignore file counts, the corpus of a root that can be followed holds the files that
the root accepts by their paths. -/
theorem mem_files_iff (h : tree.WellFormed) (htop : IsPlace top)
    (hignore : options.respectIgnore = false) :
    p ∈ options.files reader tree (Path.address top) ↔ FileTree.Followable top ∧
      ∃ place v, p = Path.address place ∧ tree.node? place = some (.file v) ∧
        options.accepts (Path.address top) p = true := by
  simp only [mem_files_iff_of_hides h htop, hignore, Bool.false_and, and_true]

/-- A corpus holds addresses of files. -/
theorem exists_of_mem_files (h : tree.WellFormed) (htop : IsPlace top)
    (hp : p ∈ options.files reader tree (Path.address top)) :
    ∃ place v, p = Path.address place ∧ IsPlace place ∧ tree.node? place = some (.file v) := by
  obtain ⟨-, place, v, rfl, hfile, -⟩ := (mem_files_iff_of_hides h htop).1 hp
  exact ⟨place, v, rfl, h.isPlace_of_eq_some hfile, hfile⟩

theorem isAddress_of_mem_files (h : tree.WellFormed) (hroot : root.IsAddress)
    (hp : p ∈ options.files reader tree root) : p.IsAddress := by
  obtain ⟨top, htop, rfl⟩ := hroot
  obtain ⟨place, -, rfl, hplace, -⟩ := exists_of_mem_files h htop hp
  exact Path.isAddress_address hplace

/-- A corpus is in strictly ascending order. -/
theorem pairwise_files (h : tree.WellFormed) {root : Path} (hroot : root.IsAddress) :
    (options.files reader tree root).Pairwise fun p q => compare p q = .lt := by
  obtain ⟨top, htop, rfl⟩ := hroot
  have hmem : ∀ {p}, p ∈ options.files reader tree (Path.address top) → p.IsAddress :=
    isAddress_of_mem_files h ⟨top, htop, rfl⟩
  rw [files_address options reader tree htop] at hmem ⊢
  cases hnode : tree.nodeAt? (Path.address top) with
  | none => exact .nil
  | some node =>
    obtain ⟨-, hnode'⟩ := (FileTree.nodeAt?_address_eq_some_iff h htop).1 hnode
    simp only [hnode, List.mem_mergeSort] at hmem
    have hfound := (@nodup_walk options (reader.read tree top) tree top h tree.levels node hnode'
      (Nat.le_add_left _ _)).filter options.hasExtension
    refine pairwise_lt_mergeSort id (hfound.imp_of_mem fun ha hb hne heq => hne ?_)
    exact (hmem ha).isNormal.eq (hmem hb).isNormal (Path.compare_eq_iff.1 heq)

end CorpusOptions

end TemplateAtlas
