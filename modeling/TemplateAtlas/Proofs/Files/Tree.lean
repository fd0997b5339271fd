import TemplateAtlas.Files.Tree
import TemplateAtlas.Proofs.Path.Directory
import TemplateAtlas.Proofs.SortedMap
import TemplateAtlas.Proofs.Text.Blank

/-!
# File trees: where paths lead

A path that can be followed leads to the location that its steps lead to (`locate_eq_ok`), so two
spellings of one path never lead to two places. In a well-formed tree the address of a location
leads there, if something stands there and the address is not too long
(`nodeAt?_address_eq_some_iff`).
-/

namespace TemplateAtlas

open Std TemplateAtlas.Text
open RawText (slash dot)

namespace FileTree

/-- Everything stands at a location that can be named, in a directory. -/
structure WellFormed (tree : FileTree) : Prop where
  /-- The root has no entry. -/
  ne_nil : ∀ place ∈ tree.nodes.keys, place ≠ []
  /-- The locations can be named. -/
  isPlace : ∀ place ∈ tree.nodes.keys, IsPlace place
  /-- The location above holds a directory. -/
  inDirectory : ∀ place ∈ tree.nodes.keys, tree.node? place.dropLast = some .directory

instance (node? : Option Node) : Decidable (node? = some .directory) :=
  match node? with
  | some .directory => isTrue rfl
  | some (.file _) => isFalse nofun
  | none => isFalse nofun

instance (tree : FileTree) : Decidable tree.WellFormed :=
  decidable_of_iff
    ((∀ place ∈ tree.nodes.keys, place ≠ []) ∧ (∀ place ∈ tree.nodes.keys, IsPlace place) ∧
      ∀ place ∈ tree.nodes.keys, tree.node? place.dropLast = some .directory)
    ⟨fun ⟨hne, hplace, hdir⟩ => ⟨hne, hplace, hdir⟩, fun h => ⟨h.ne_nil, h.isPlace, h.inDirectory⟩⟩

/-- The tree of the root alone. -/
theorem wellFormed_empty : WellFormed {} :=
  ⟨fun _ h => (by cases h), fun _ h => (by cases h), fun _ h => (by cases h)⟩

variable {tree : FileTree} {p : Path} {place : Location}

/-! ### What stands where -/

@[simp] theorem node?_nil (tree : FileTree) : tree.node? [] = some .directory := rfl

theorem node?_of_ne_nil (tree : FileTree) (h : place ≠ []) :
    tree.node? place = tree.nodes.find? place := by
  simp [node?, h]

theorem node?_isSome_iff (h : place ≠ []) :
    (tree.node? place).isSome ↔ place ∈ tree.nodes.keys := by
  rw [node?_of_ne_nil tree h]
  show tree.nodes.contains place = true ↔ _
  rw [SortedMap.contains_eq_true_iff]
  simp only [Std.compare_eq_iff_eq, exists_eq_right']

/-- The entries are what stands at the locations below the root. -/
theorem WellFormed.mem_entries_iff (h : tree.WellFormed) {node : Node} :
    (place, node) ∈ tree.nodes.entries ↔ place ≠ [] ∧ tree.node? place = some node := by
  constructor
  · intro hmem
    have hne := h.ne_nil place (SortedMap.mem_keys_iff.2 ⟨node, hmem⟩)
    rw [node?_of_ne_nil _ hne]
    exact ⟨hne, SortedMap.find?_of_mem hmem⟩
  · rintro ⟨hne, hnode⟩
    rw [node?_of_ne_nil _ hne] at hnode
    obtain ⟨q, hmem, heq⟩ := SortedMap.find?_eq_some_iff.1 hnode
    rwa [Std.compare_eq_iff_eq.1 heq]

theorem WellFormed.isPlace_of_isSome (h : tree.WellFormed) (hsome : (tree.node? place).isSome) :
    IsPlace place := by
  by_cases hplace : place = []
  · simp [hplace, IsPlace]
  · exact h.isPlace place ((node?_isSome_iff hplace).1 hsome)

theorem WellFormed.isPlace_of_eq_some (h : tree.WellFormed) {node : Node}
    (hnode : tree.node? place = some node) : IsPlace place :=
  h.isPlace_of_isSome (by rw [hnode]; rfl)

theorem WellFormed.directory_of_append (h : tree.WellFormed) {above : Location}
    {names : List RawText} (hnames : names ≠ []) (hsome : (tree.node? (above ++ names)).isSome) :
    tree.node? above = some .directory := by
  induction names using List.reverseRecOn with
  | nil => exact absurd rfl hnames
  | append_singleton front name ih =>
    rw [← List.append_assoc] at hsome
    have := h.inDirectory _ ((node?_isSome_iff (by simp)).1 hsome)
    rw [List.dropLast_concat] at this
    by_cases hfront : front = []
    · simpa [hfront] using this
    · exact ih hfront (by rw [this]; rfl)

theorem WellFormed.isSome_of_append (h : tree.WellFormed) {above : Location} {names : List RawText}
    (hsome : (tree.node? (above ++ names)).isSome) : (tree.node? above).isSome := by
  by_cases hnames : names = []
  · simpa [hnames] using hsome
  · rw [h.directory_of_append hnames hsome]
    rfl

/-- Nothing stands below a file. -/
theorem WellFormed.eq_nil_of_file (h : tree.WellFormed) {above : Location} {names : List RawText}
    {v : FileVersion} (hfile : tree.node? above = some (.file v))
    (hsome : (tree.node? (above ++ names)).isSome) : names = [] := by
  by_contra hnames
  rw [h.directory_of_append hnames hsome] at hfile
  cases hfile

/-- A directory holds what stands one name below it. -/
theorem WellFormed.mem_contents_iff (h : tree.WellFormed) {name : RawText} {node : Node} :
    (name, node) ∈ tree.contents place ↔ tree.node? (place ++ [name]) = some node := by
  have hentry : (place ++ [name], node) ∈ tree.nodes.entries ↔
      tree.node? (place ++ [name]) = some node := by
    rw [h.mem_entries_iff, and_iff_right (by simp)]
  rw [← hentry, contents, List.mem_filterMap]
  constructor
  · rintro ⟨⟨inner, node'⟩, hmem, hsome⟩
    cases inner using List.reverseRecOn with
    | nil => cases hsome
    | append_singleton above last =>
      simp only [List.getLast?_concat, List.dropLast_concat, Option.ite_none_right_eq_some,
        Option.some.injEq, Prod.mk.injEq] at hsome
      obtain ⟨rfl, rfl, rfl⟩ := hsome
      exact hmem
  · exact fun hmem => ⟨_, hmem, by simp⟩

/-- What a directory holds has different names. -/
theorem pairwise_contents (tree : FileTree) (place : Location) :
    (tree.contents place).Pairwise fun a b => a.1 ≠ b.1 := by
  refine List.Pairwise.filterMap _ ?_ tree.nodes.ascend
  rintro ⟨p, node⟩ ⟨q, node'⟩ hlt a ha b hb heq
  cases p using List.reverseRecOn with
  | nil => cases ha
  | append_singleton above last =>
    cases q using List.reverseRecOn with
    | nil => cases hb
    | append_singleton above' last' =>
      simp only [List.getLast?_concat, List.dropLast_concat, Option.ite_none_right_eq_some,
        Option.some.injEq] at ha hb
      obtain ⟨rfl, rfl⟩ := ha
      obtain ⟨rfl, rfl⟩ := hb
      rw [show last = last' from heq, Std.compare_eq_iff_eq.2 rfl] at hlt
      cases hlt

/-- No location of the tree has more names than the tree has levels. -/
theorem length_le_levels (hsome : (tree.node? place).isSome) : place.length ≤ tree.levels := by
  by_cases hplace : place = []
  · simp [hplace]
  · obtain ⟨node, hmem⟩ := SortedMap.mem_keys_iff.1 ((node?_isSome_iff hplace).1 hsome)
    exact List.le_max?_getD_of_mem (List.mem_map_of_mem hmem)

/-! ### Steps -/

/-- Where a segment leads, if the step can be taken. -/
def moveSegment (place : Location) (segment : List UInt8) : Location :=
  if segment = [dot] then place
  else if segment = [dot, dot] then place.dropLast
  else place ++ [⟨segment⟩]

/-- The names of a location are not too long. -/
def NamesFit (place : Location) : Prop :=
  ∀ name ∈ place, name.bytes.length ≤ nameLimit

theorem step_eq_ok {segment : List UInt8} {next : Location}
    (h : tree.step place segment = .ok next) :
    next = moveSegment place segment ∧ (NamesFit place → NamesFit next) := by
  unfold moveSegment
  unfold step at h
  split at h
  · by_cases hdot : segment = [dot]
    · rw [if_pos hdot] at h ⊢
      cases h
      exact ⟨rfl, id⟩
    rw [if_neg hdot] at h ⊢
    by_cases hdots : segment = [dot, dot]
    · rw [if_pos hdots] at h ⊢
      cases h
      exact ⟨rfl, fun hfit name hmem => hfit name (List.dropLast_subset place hmem)⟩
    rw [if_neg hdots] at h ⊢
    split at h
    · cases h
    next hlimit =>
      dsimp only at h
      split at h
      · cases h
        refine ⟨rfl, fun hfit name hmem => ?_⟩
        rcases List.mem_append.1 hmem with hmem | hmem
        · exact hfit name hmem
        · rw [List.mem_singleton.1 hmem]
          exact Nat.le_of_not_lt hlimit
      · cases h
  · cases h

/-- Steps that can be taken lead where their segments lead. -/
theorem foldlM_step_eq_ok {segments : List (List UInt8)} {base : Location}
    (h : segments.foldlM tree.step base = .ok place) :
    place = segments.foldl moveSegment base ∧ (NamesFit base → NamesFit place) := by
  induction segments generalizing base with
  | nil =>
    cases h
    exact ⟨rfl, id⟩
  | cons segment segments ih =>
    rw [List.foldlM_cons] at h
    cases hstep : tree.step base segment with
    | error e => rw [hstep] at h; cases h
    | ok next =>
      rw [hstep] at h
      obtain ⟨hplace, hfit⟩ := ih h
      obtain ⟨hnext, hfit'⟩ := step_eq_ok hstep
      exact ⟨by rw [hplace, hnext, List.foldl_cons], fun hbase => hfit (hfit' hbase)⟩

/-- Segments lead where the components that they state lead. -/
theorem foldl_moveSegment (segments : List (List UInt8)) (base : Location) :
    (segments.filter (!·.isEmpty)).foldl moveSegment base =
      (segments.filterMap Path.innerStep?).foldl Component.move base := by
  induction segments generalizing base with
  | nil => rfl
  | cons segment segments ih =>
    by_cases hempty : segment = []
    · simpa [hempty, Path.innerStep?, Path.isTrivial] using ih base
    · rw [List.filter_cons_of_pos (by simpa using hempty), List.foldl_cons, ih, List.filterMap_cons]
      by_cases hdot : segment = [dot]
      · simp [hdot, moveSegment, Path.innerStep?, Path.isTrivial]
      · by_cases hdots : segment = [dot, dot]
        · simp [hdots, moveSegment, Path.innerStep?, Path.isTrivial, Component.move]
        · simp [hempty, hdot, hdots, moveSegment, Path.innerStep?, Path.isTrivial, Component.move]

/-- The segments of a text lead from where it starts to where the components of the path lead. -/
theorem foldl_moveSegment_splitOn (tree : FileTree) (p : Path) :
    ((splitOn slash p.text.bytes).filter (!·.isEmpty)).foldl moveSegment (tree.start p.text.bytes) =
      p.components.foldl Component.move tree.working := by
  rw [foldl_moveSegment, start, Path.components, Path.segments]
  obtain ⟨first, body, hsplit⟩ := List.exists_cons_of_ne_nil (splitOn_ne_nil slash p.text.bytes)
  simp only [head?_eq_sep_iff hsplit, hsplit, Path.stepsOf, List.isEmpty_iff, List.filterMap_cons]
  by_cases hfirst : first = []
  · cases body with
    | nil => simp [hfirst, Path.innerStep?, Path.isTrivial]
    | cons segment body => simp [hfirst, Path.innerStep?, Path.isTrivial, Component.move]
  · by_cases hdot : first = [dot]
    · simp [hdot, Path.innerStep?, Path.isTrivial, Component.move]
    · cases Path.innerStep? first <;> simp [hfirst, hdot]

/-- The components of an absolute path lead to its location from anywhere. -/
theorem foldl_move_of_isAbsolute (h : p.isAbsolute = true) (base : Location) :
    p.components.foldl Component.move base = p.place := by
  obtain ⟨inner, hp, -⟩ := Path.isAbsolute_iff.1 h
  rw [Path.place, hp]
  rfl

/-- The segments of an absolute path lead to its location. -/
theorem place_eq_foldl (h : p.isAbsolute = true) :
    p.place = ((splitOn slash p.text.bytes).filter (!·.isEmpty)).foldl moveSegment [] := by
  have := foldl_moveSegment_splitOn {} p
  rw [foldl_move_of_isAbsolute h, start] at this
  simpa using this.symm

/-- A path leads nowhere but to the location that its steps lead to. -/
theorem locate_eq_ok (h : tree.locate p = .ok place) :
    place = p.components.foldl Component.move tree.working := by
  simp only [locate] at h
  cases hcheck : checkText p.text.bytes with
  | error e => rw [hcheck] at h; cases h
  | ok =>
    rw [hcheck] at h
    obtain ⟨hplace, -⟩ := foldlM_step_eq_ok h
    rw [hplace, stepsOf, List.foldl_append, foldl_moveSegment_splitOn]
    split
    · simp [moveSegment]
    · rfl

theorem fileAt?_eq_some_iff {v : FileVersion} :
    tree.fileAt? p = some v ↔ ∃ place, tree.locate p = .ok place ∧ tree.node? place =
      some (.file v) := by
  unfold fileAt? nodeAt?
  cases tree.locate p with
  | error e => simp
  | ok place =>
    cases hnode : tree.node? place with
    | none => simp [hnode]
    | some node => cases node <;> simp [hnode]

/-- Paths with the same components that lead to files lead to the same version. -/
theorem fileAt?_unique {q : Path} {v w : FileVersion} (hpq : p.components = q.components)
    (hv : tree.fileAt? p = some v) (hw : tree.fileAt? q = some w) : v = w := by
  obtain ⟨place, hp, hv⟩ := fileAt?_eq_some_iff.1 hv
  obtain ⟨place', hq, hw⟩ := fileAt?_eq_some_iff.1 hw
  have hplace : place = place' := by
    rw [locate_eq_ok hp, locate_eq_ok hq, hpq]
  rw [hplace, hw] at hv
  cases hv
  rfl

/-- An absolute path leads nowhere but to its location. -/
theorem locate_eq_ok_of_isAbsolute (habsolute : p.isAbsolute = true)
    (h : tree.locate p = .ok place) : place = p.place := by
  rw [locate_eq_ok h, foldl_move_of_isAbsolute habsolute]

/-! ### Addresses that can be followed -/

/-- The address of the location is a path that an operating system follows. -/
structure Followable (place : Location) : Prop where
  /-- The address is not refused as a text. -/
  text : checkText (Path.address place).text.bytes = .ok ()
  /-- No name is refused. -/
  names : NamesFit place

theorem checkText_eq_ok_iff {text : List UInt8} :
    checkText text = .ok () ↔ 0 ∉ text ∧ text ≠ [] ∧ text.length < pathLimit := by
  unfold checkText
  split
  next h => simp_all
  next h =>
    split
    next hempty => simp_all
    next hempty =>
      split
      next hlong => simp [Nat.not_lt.2 hlong]
      next hlong => simp_all

instance (place : Location) : Decidable (Followable place) :=
  decidable_of_iff
    ((0 ∉ (Path.address place).text.bytes ∧ (Path.address place).text.bytes ≠ [] ∧
      (Path.address place).text.bytes.length < pathLimit) ∧
      ∀ name ∈ place, name.bytes.length ≤ nameLimit)
    ⟨fun ⟨htext, hnames⟩ => ⟨checkText_eq_ok_iff.2 htext, hnames⟩,
      fun h => ⟨checkText_eq_ok_iff.1 h.text, h.names⟩⟩

/-- The address of a location goes on where that of the directory ends. -/
theorem bytes_address_append (place : Location) (name : RawText) :
    ∃ rest, (Path.address (place ++ [name])).text.bytes =
      (Path.address place).text.bytes ++ rest := by
  rw [Path.bytes_address, Path.bytes_address, List.map_append, List.map_singleton]
  by_cases hplace : place = []
  · exact ⟨name.bytes, by simp [hplace]⟩
  · refine ⟨slash :: name.bytes, ?_⟩
    rw [Path.intercalate_append_singleton _ _ _ (by simpa using hplace)]
    simp

/-- The directories above a followable location are followable. -/
theorem Followable.of_append {above : Location} {names : List RawText}
    (h : Followable (above ++ names)) : Followable above := by
  induction names using List.reverseRecOn with
  | nil => simpa using h
  | append_singleton front name ih =>
    rw [← List.append_assoc] at h
    refine ih ⟨?_, fun n hn => h.names n (List.mem_append_left _ hn)⟩
    obtain ⟨rest, hrest⟩ := bytes_address_append (above ++ front) name
    have htext := checkText_eq_ok_iff.1 h.text
    rw [hrest, List.length_append, List.mem_append, not_or] at htext
    rw [checkText_eq_ok_iff]
    refine ⟨htext.1.1, ?_, Nat.lt_of_le_of_lt (Nat.le_add_right _ _) htext.2.2⟩
    rw [Path.bytes_address]
    simp

/-- The steps of an address are its names; the root's address asks for a directory. -/
theorem stepsOf_address (h : IsPlace place) :
    stepsOf (Path.address place).text.bytes = if place =
      [] then [[dot]] else place.map RawText.bytes := by
  have hlast := Path.getLast?_address h
  by_cases hplace : place = []
  · simp [hplace, Path.address_nil, stepsOf, splitOn]
  · have hnone : ∀ segment ∈ place.map RawText.bytes, slash ∉ segment := by
      intro segment hmem
      obtain ⟨name, hname, rfl⟩ := List.mem_map.1 hmem
      exact (h name hname).2.1
    have hfilter : (place.map RawText.bytes).filter (!·.isEmpty) = place.map RawText.bytes :=
      List.filter_eq_self.2 fun segment hmem => by
        obtain ⟨name, hname, rfl⟩ := List.mem_map.1 hmem
        simpa using (h name hname).1
    rw [if_neg hplace, stepsOf, if_neg (mt hlast.1 hplace), Path.bytes_address,
      ← List.nil_append (slash :: _), splitOn_append_cons (by simp),
      splitOn_intercalate (by simpa using hplace) hnone, List.filter_cons_of_neg (by simp), hfilter,
      List.append_nil]

theorem start_address (tree : FileTree) (place : Location) :
    tree.start (Path.address place).text.bytes = [] := by
  rw [start, Path.bytes_address]
  rfl

theorem step_name {name : RawText} (hdir : tree.node? place = some .directory) (hname : IsName name)
    (hfit : name.bytes.length ≤ nameLimit) (hsome : (tree.node? (place ++ [name])).isSome) :
    tree.step place name.bytes = .ok (place ++ [name]) := by
  obtain ⟨-, -, hdot, hdots⟩ := hname
  simp only [step, hdir, hdot, hdots, if_false, Nat.not_lt.2 hfit, hsome, if_true]

theorem foldlM_step_names (h : tree.WellFormed) {base names : Location}
    (hsome : (tree.node? (base ++ names)).isSome) (hfit : NamesFit names) :
    (names.map RawText.bytes).foldlM tree.step base = .ok (base ++ names) := by
  induction names generalizing base with
  | nil => simp [pure, Except.pure]
  | cons name names ih =>
    have hplace := h.isPlace_of_isSome hsome
    have hnext : (tree.node? (base ++ [name])).isSome := by
      by_cases hnames : names = []
      · simpa [hnames] using hsome
      · rw [h.directory_of_append hnames (by simpa using hsome)]
        rfl
    rw [List.map_cons, List.foldlM_cons,
      step_name (h.directory_of_append (List.cons_ne_nil name names) hsome) (hplace name (by simp))
        (hfit name (by simp)) hnext]
    have hrest := @ih (base ++ [name]) (by simpa using hsome) fun n hn => hfit n (by simp [hn])
    rw [List.append_assoc, List.singleton_append] at hrest
    exact hrest

/-- The address of a location where something stands leads there, if it can be followed. -/
theorem locate_address (h : tree.WellFormed) (hsome : (tree.node? place).isSome)
    (hfollow : Followable place) : tree.locate (Path.address place) = .ok place := by
  simp only [locate, hfollow.text, start_address, stepsOf_address (h.isPlace_of_isSome hsome)]
  by_cases hplace : place = []
  · rw [hplace]
    rfl
  · rw [if_neg hplace]
    exact foldlM_step_names h (by simpa using hsome) hfollow.names

theorem Followable.of_locate (hplace : IsPlace place) {found : Location}
    (h : tree.locate (Path.address place) = .ok found) : Followable place := by
  have hfound : found = place := by
    rw [locate_eq_ok_of_isAbsolute (Path.isAbsolute_address hplace) h, Path.place_address hplace]
  subst hfound
  simp only [locate] at h
  cases hcheck : checkText (Path.address found).text.bytes with
  | error e => rw [hcheck] at h; cases h
  | ok =>
    rw [hcheck, start_address] at h
    exact ⟨hcheck, (foldlM_step_eq_ok h).2 (by simp [NamesFit])⟩

/-- What the address of a location leads to. -/
theorem nodeAt?_address_eq_some_iff (h : tree.WellFormed) (hplace : IsPlace place) {node : Node} :
    tree.nodeAt? (Path.address place) = some node ↔
      Followable place ∧ tree.node? place = some node := by
  unfold nodeAt?
  constructor
  · intro hnode
    cases hlocate : tree.locate (Path.address place) with
    | error e => simp [hlocate] at hnode
    | ok found =>
      rw [hlocate, locate_eq_ok_of_isAbsolute (Path.isAbsolute_address hplace) hlocate,
        Path.place_address hplace] at hnode
      exact ⟨.of_locate hplace hlocate, hnode⟩
  · rintro ⟨hfollow, hnode⟩
    rw [locate_address h (by rw [hnode]; rfl) hfollow]
    exact hnode

theorem fileAt?_address_eq_some_iff (h : tree.WellFormed) (hplace : IsPlace place)
    {v : FileVersion} :
    tree.fileAt? (Path.address place) = some v ↔
      Followable place ∧ tree.node? place = some (.file v) := by
  rw [← nodeAt?_address_eq_some_iff h hplace, fileAt?]
  cases tree.nodeAt? (Path.address place) with
  | none => simp
  | some node => cases node <;> simp

theorem exists?_address_iff (h : tree.WellFormed) (hplace : IsPlace place) :
    tree.exists? (Path.address place) = true ↔ Followable place ∧ (tree.node? place).isSome := by
  simp only [exists?, Option.isSome_iff_exists, nodeAt?_address_eq_some_iff h hplace,
    exists_and_left]

/-- Something is found by its address, if that can be followed. -/
theorem exists?_iff (h : tree.WellFormed) {p : Path} (hp : p.IsAddress) :
    tree.exists? p = true ↔ Followable p.place ∧ (tree.node? p.place).isSome := by
  obtain ⟨place, hplace, rfl⟩ := hp
  rw [exists?_address_iff h hplace, Path.place_address hplace]

theorem isDirectory_iff (h : tree.WellFormed) {p : Path} (hp : p.IsAddress) :
    tree.isDirectory p = true ↔ Followable p.place ∧ tree.node? p.place = some .directory := by
  obtain ⟨place, hplace, rfl⟩ := hp
  rw [Path.place_address hplace, ← nodeAt?_address_eq_some_iff h hplace, isDirectory]
  cases tree.nodeAt? (Path.address place) with
  | none => simp
  | some node => cases node <;> simp

theorem isDirectory_eq_false (h : tree.WellFormed) {p : Path} (hp : p.IsAddress)
    (hnode : tree.node? p.place ≠ some .directory) : tree.isDirectory p = false :=
  Bool.eq_false_iff.2 fun hdirectory => hnode ((isDirectory_iff h hp).1 hdirectory).2

end FileTree

end TemplateAtlas
