import TemplateAtlas.Proofs.Files.Write

/-!
# Moves

A file or a directory with all that it holds gets another location. `node?_move` says what stands
where afterwards, and a move to a place that is free keeps the tree well-formed (`WellFormed.move`).
-/

namespace TemplateAtlas

open Std

namespace FileTree

variable {tree : FileTree} {source target q : Location}

/-- Where what stands at a location is found after a move. What stood at the target gives way. -/
def movedTo? (source target place : Location) : Option Location :=
  if source <+: place then some (target ++ place.drop source.length)
  else if target <+: place then none
  else some place

/-- The tree after what stands at the source, and below it, has moved to the target. -/
def move (tree : FileTree) (source target : Location) : FileTree :=
  { tree with
    nodes := .ofList (tree.nodes.entries.filterMap fun (place, node) =>
      (movedTo? source target place).map fun place => (place, node)) }

/-- The move can be made, as an operating system makes it: something is there, the target is not
below it, can be followed and has a directory above it, and at the target there is at most a file
that a file replaces or an empty directory that a directory replaces. -/
structure Movable (tree : FileTree) (source target : Location) : Prop where
  /-- It is not the root that moves. -/
  ne_nil : source ≠ []
  /-- Something is there. -/
  isSome : (tree.node? source).isSome
  /-- It does not move into itself. -/
  apart : ¬source <+: target
  /-- The target can be named. -/
  isPlace : IsPlace target
  /-- The address of the target can be followed. -/
  followable : Followable target
  /-- The location above the target holds a directory. -/
  inDirectory : tree.node? target.dropLast = some .directory
  /-- A file replaces no directory. -/
  ofFile : ∀ v, tree.node? source = some (.file v) → tree.node? target ≠ some .directory
  /-- A directory replaces no file, and no directory that holds something. -/
  ofDirectory : tree.node? source = some .directory →
    (∀ v, tree.node? target ≠ some (.file v)) ∧ ∀ names ≠ [], tree.node? (target ++ names) = none

/-! ### What stands where -/

theorem movedTo?_append (source target names : Location) :
    movedTo? source target (source ++ names) = some (target ++ names) := by
  rw [movedTo?, if_pos (List.prefix_append ..), List.drop_left]

/-- What is found at the target and below comes from the source. -/
theorem movedTo?_eq_append_iff {names place : Location} :
    movedTo? source target place = some (target ++ names) ↔ place = source ++ names := by
  constructor
  · intro h
    unfold movedTo? at h
    split at h
    next hsource =>
      obtain ⟨rest, rfl⟩ := hsource
      rw [List.drop_left, Option.some.injEq, List.append_cancel_left_eq] at h
      rw [h]
    next =>
      split at h
      · cases h
      next htarget =>
        cases h
        exact absurd (List.prefix_append ..) htarget
  · rintro rfl
    exact movedTo?_append source target names

/-- What is found elsewhere was there before. -/
theorem movedTo?_eq_iff {place : Location} (hq : ¬target <+: q) :
    movedTo? source target place = some q ↔ place = q ∧ ¬source <+: q := by
  unfold movedTo?
  split
  next hsource =>
    constructor
    · rintro ⟨⟩
      exact absurd (List.prefix_append ..) hq
    · rintro ⟨rfl, hnot⟩
      exact absurd hsource hnot
  next hsource =>
    split
    next htarget =>
      constructor
      · rintro ⟨⟩
      · rintro ⟨rfl, -⟩
        exact absurd htarget hq
    next =>
      rw [Option.some.injEq]
      exact ⟨fun heq => ⟨heq, heq ▸ hsource⟩, fun h => h.1⟩

theorem eq_of_movedTo? {a b : Location} (ha : movedTo? source target a = some q)
    (hb : movedTo? source target b = some q) : a = b := by
  by_cases hq : target <+: q
  · obtain ⟨names, rfl⟩ := hq
    rw [movedTo?_eq_append_iff.1 ha, movedTo?_eq_append_iff.1 hb]
  · rw [((movedTo?_eq_iff hq).1 ha).1, ((movedTo?_eq_iff hq).1 hb).1]

/-- What stands somewhere after a move stood at a location that moved there. -/
theorem node?_move_eq_some_iff (h : tree.WellFormed) (hq : q ≠ []) {node : Node} :
    (tree.move source target).node? q = some node ↔
      ∃ place, place ≠ [] ∧ tree.node? place = some node ∧
        movedTo? source target place = some q := by
  have apart : (tree.nodes.entries.filterMap fun (place, node) =>
      (movedTo? source target place).map fun place => (place, node)).Pairwise fun e f =>
        compare e.1 f.1 ≠ .eq := by
    refine List.Pairwise.filterMap _ ?_ tree.nodes.ascend
    rintro ⟨a, x⟩ ⟨b, y⟩ hlt e he f hf heq
    obtain ⟨place, ha, rfl⟩ := Option.map_eq_some_iff.1 he
    obtain ⟨place', hb, rfl⟩ := Option.map_eq_some_iff.1 hf
    obtain rfl : place = place' := Std.compare_eq_iff_eq.1 heq
    obtain rfl := eq_of_movedTo? ha hb
    exact absurd (ReflCmp.compare_self.symm.trans hlt) (by decide)
  rw [node?_of_ne_nil _ hq, move, SortedMap.find?_ofList_eq_some_iff apart]
  simp only [Std.compare_eq_iff_eq, List.mem_filterMap, Option.map_eq_some_iff,
    Prod.mk.injEq, Prod.exists]
  constructor
  · rintro ⟨k, ⟨place, node', hmem, k', hmoved, rfl, rfl⟩, rfl⟩
    obtain ⟨hne, hnode⟩ := h.mem_entries_iff.1 hmem
    exact ⟨place, hne, hnode, hmoved⟩
  · rintro ⟨place, hne, hnode, hmoved⟩
    exact ⟨q, ⟨place, node, h.mem_entries_iff.2 ⟨hne, hnode⟩, q, hmoved, rfl, rfl⟩, rfl⟩

/-- A move brings to the target what stood at the source, takes that from the source, and changes
nothing else. -/
theorem node?_move (h : tree.WellFormed) (hsource : source ≠ []) (hq : q ≠ []) :
    (tree.move source target).node? q =
      if target <+: q then tree.node? (source ++ q.drop target.length)
      else if source <+: q then none else tree.node? q := by
  refine Option.ext fun node => ?_
  rw [node?_move_eq_some_iff h hq]
  split
  next htarget =>
    obtain ⟨names, rfl⟩ := htarget
    simp only [movedTo?_eq_append_iff, List.drop_left]
    constructor
    · rintro ⟨place, -, hnode, rfl⟩
      exact hnode
    · exact fun hnode => ⟨source ++ names, by simp [hsource], hnode, rfl⟩
  next htarget =>
    simp only [movedTo?_eq_iff htarget]
    split
    next hbelow => simp [hbelow]
    next hbelow =>
      constructor
      · rintro ⟨place, -, hnode, rfl, -⟩
        exact hnode
      · exact fun hnode => ⟨q, hq, hnode, rfl, hbelow⟩

/-- Away from the target, a move takes what a removal takes. -/
theorem node?_move_of_not_below (h : tree.WellFormed) (hsource : source ≠ []) (hq : ¬target <+: q) :
    (tree.move source target).node? q = (tree.remove source).node? q := by
  by_cases hnil : q = []
  · rw [hnil, node?_nil, node?_nil]
  · rw [node?_move h hsource hnil, if_neg hq, node?_remove tree source hnil]

/-! ### Moves that can be made -/

/-- Nothing gives way at a target that is free. -/
theorem Movable.of_free (h : tree.WellFormed) (hsource : source ≠ [])
    (hsome : (tree.node? source).isSome) (hapart : ¬source <+: target) (hplace : IsPlace target)
    (hfollow : Followable target) (hdirectory : tree.node? target.dropLast = some .directory)
    (hfree : tree.node? target = none) : tree.Movable source target where
  ne_nil := hsource
  isSome := hsome
  apart := hapart
  isPlace := hplace
  followable := hfollow
  inDirectory := hdirectory
  ofFile := fun v _ => by simp [hfree]
  ofDirectory := fun _ => by
    refine ⟨fun v => by simp [hfree], fun names _ => ?_⟩
    by_contra hbelow
    have := h.isSome_of_append (Option.isSome_iff_ne_none.2 hbelow)
    rw [hfree] at this
    cases this

/-- Below the target nothing gives way. -/
theorem Movable.node?_append (hmovable : tree.Movable source target) (h : tree.WellFormed)
    {names : Location} (hnames : names ≠ []) : tree.node? (target ++ names) = none := by
  by_contra hsome
  have hdirectory := h.directory_of_append hnames (Option.isSome_iff_ne_none.2 hsome)
  obtain ⟨node, hnode⟩ := Option.isSome_iff_exists.1 hmovable.isSome
  cases node with
  | file v => exact hmovable.ofFile v hnode hdirectory
  | directory => exact hsome ((hmovable.ofDirectory hnode).2 names hnames)

theorem Movable.node?_remove_append (hmovable : tree.Movable source target) (h : tree.WellFormed)
    {names : Location} (hnames : names ≠ []) :
    (tree.remove source).node? (target ++ names) = none := by
  rw [node?_remove tree source (by simp [hnames]), hmovable.node?_append h hnames, ite_self]

/-- Nothing moves to a place above its own. -/
theorem Movable.not_below (hmovable : tree.Movable source target) (h : tree.WellFormed) :
    ¬target <+: source := by
  rintro ⟨names, rfl⟩
  by_cases hnames : names = []
  · exact hmovable.apart (by simp [hnames])
  · have hsome := hmovable.isSome
    rw [hmovable.node?_append h hnames] at hsome
    cases hsome

theorem Movable.target_ne_nil (hmovable : tree.Movable source target) (h : tree.WellFormed) :
    target ≠ [] := by
  rintro rfl
  exact hmovable.not_below h List.nil_prefix

/-- What moves is found at the target. -/
theorem Movable.node?_move_target (hmovable : tree.Movable source target) (h : tree.WellFormed) :
    (tree.move source target).node? target = tree.node? source := by
  rw [node?_move h hmovable.ne_nil (hmovable.target_ne_nil h), if_pos List.prefix_rfl,
    List.drop_length, List.append_nil]

/-- Nothing is left where it was. -/
theorem Movable.node?_move_source (hmovable : tree.Movable source target) (h : tree.WellFormed) :
    (tree.move source target).node? source = none := by
  rw [node?_move h hmovable.ne_nil hmovable.ne_nil, if_neg (hmovable.not_below h),
    if_pos List.prefix_rfl]

theorem WellFormed.move (h : tree.WellFormed) (hmovable : tree.Movable source target) :
    (tree.move source target).WellFormed := by
  have hkeys : ∀ q ∈ (tree.move source target).nodes.keys,
      ∃ place ∈ tree.nodes.keys, movedTo? source target place = some q := by
    intro q hq
    have hmem := SortedMap.mem_keys_ofList hq
    simp only [List.mem_map, List.mem_filterMap, Option.map_eq_some_iff, Prod.exists] at hmem
    obtain ⟨_, node, ⟨place, node', hplace, _, hmoved, heq⟩, rfl⟩ := hmem
    cases heq
    exact ⟨place, SortedMap.mem_keys_iff.2 ⟨node, hplace⟩, hmoved⟩
  have hne : ∀ q ∈ (tree.move source target).nodes.keys, q ≠ [] := by
    rintro q hq rfl
    obtain ⟨place, hplace, hmoved⟩ := hkeys [] hq
    have hnot : ¬target <+: [] := fun hbelow => hmovable.target_ne_nil h (List.prefix_nil.1 hbelow)
    obtain ⟨rfl, -⟩ := (movedTo?_eq_iff hnot).1 hmoved
    exact h.ne_nil [] hplace rfl
  refine ⟨hne, fun q hq => ?_, fun q hq => ?_⟩
  · obtain ⟨place, hplace, hmoved⟩ := hkeys q hq
    by_cases htarget : target <+: q
    · obtain ⟨names, rfl⟩ := htarget
      obtain rfl := movedTo?_eq_append_iff.1 hmoved
      have hnames := h.isPlace _ hplace
      exact fun name hmem => (List.mem_append.1 hmem).elim (hmovable.isPlace name)
        fun hmem => hnames name (List.mem_append_right _ hmem)
    · obtain ⟨rfl, -⟩ := (movedTo?_eq_iff htarget).1 hmoved
      exact h.isPlace _ hplace
  · obtain ⟨place, hplace, hmoved⟩ := hkeys q hq
    by_cases habove : q.dropLast = []
    · rw [habove, node?_nil]
    rw [node?_move h hmovable.ne_nil habove]
    by_cases htarget : target <+: q
    · obtain ⟨names, rfl⟩ := htarget
      obtain rfl := movedTo?_eq_append_iff.1 hmoved
      cases names using List.reverseRecOn with
      | nil =>
        -- the directory above the target stays where it is
        have hshort : ¬target <+: target.dropLast := fun hbelow => by
          have := hbelow.length_le
          have := List.length_pos_iff.2 (hmovable.target_ne_nil h)
          simp only [List.length_dropLast] at *
          omega
        have hsource : ¬source <+: target.dropLast := fun hbelow =>
          hmovable.apart (hbelow.trans (List.dropLast_prefix target))
        rw [List.append_nil, if_neg hshort, if_neg hsource, hmovable.inDirectory]
      | append_singleton names name =>
        have hdir := h.inDirectory _ hplace
        rw [← List.append_assoc, List.dropLast_concat] at hdir ⊢
        rw [if_pos (List.prefix_append ..), List.drop_left, hdir]
    · obtain ⟨rfl, hsource⟩ := (movedTo?_eq_iff htarget).1 hmoved
      rw [if_neg fun hbelow => htarget (hbelow.trans (List.dropLast_prefix place)),
        if_neg fun hbelow => hsource (hbelow.trans (List.dropLast_prefix place)),
        h.inDirectory _ hplace]

end FileTree

end TemplateAtlas
