import TemplateAtlas.Proofs.Files.Tree

/-!
# File trees: writes and removals

A write through an absolute path makes or changes the file at the location of the path
(`writeLocation_eq_ok`), whose address is not longer than the path as written. Each operation is
described by what stands where afterwards, and keeps trees well-formed.
-/

namespace TemplateAtlas

open Std TemplateAtlas.Text
open RawText (slash dot)

/-! ### The length of an address -/

/-- The bytes that pieces take, each after a slash. -/
def spanBytes : List (List UInt8) → Nat
  | [] => 0
  | piece :: pieces => 1 + piece.length + spanBytes pieces

/-- The bytes that a location takes as a path. -/
def Location.bytes (place : Location) : Nat :=
  spanBytes (place.map RawText.bytes)

theorem spanBytes_append (pieces pieces' : List (List UInt8)) :
    spanBytes (pieces ++ pieces') = spanBytes pieces + spanBytes pieces' := by
  induction pieces with
  | nil => simp [spanBytes]
  | cons piece pieces ih =>
    simp only [List.cons_append, spanBytes, ih]
    omega

theorem spanBytes_le_of_sublist {pieces pieces' : List (List UInt8)} (h : pieces.Sublist pieces') :
    spanBytes pieces ≤ spanBytes pieces' := by
  induction h with
  | slnil => simp
  | cons piece h ih =>
    simp only [spanBytes]
    omega
  | cons_cons piece h ih =>
    simp only [spanBytes]
    omega

theorem length_intercalate (piece : List UInt8) (pieces : List (List UInt8)) :
    ([slash].intercalate (piece :: pieces)).length + 1 = spanBytes (piece :: pieces) := by
  induction pieces generalizing piece with
  | nil => simp [spanBytes, Nat.add_comm]
  | cons next pieces ih =>
    have := ih next
    rw [List.intercalate_cons_cons, List.length_append, List.length_append, List.length_singleton]
    simp only [spanBytes] at this ⊢
    omega

theorem length_address {place : Location} (h : place ≠ []) :
    (Path.address place).text.bytes.length = Location.bytes place := by
  obtain ⟨name, names, rfl⟩ := List.exists_cons_of_ne_nil h
  rw [Path.bytes_address, List.length_cons, List.map_cons, length_intercalate,
    Location.bytes, List.map_cons]

theorem spanBytes_splitOn (text : List UInt8) :
    spanBytes (splitOn slash text) = 1 + text.length := by
  induction text with
  | nil => rfl
  | cons c text ih =>
    rw [splitOn]
    split
    next hc =>
      simp only [spanBytes, ih, List.length_nil, List.length_cons]
      omega
    next hc =>
      obtain ⟨first, body, hsplit⟩ := List.exists_cons_of_ne_nil (splitOn_ne_nil slash text)
      rw [hsplit] at ih ⊢
      simp only [List.modifyHead_cons, spanBytes, List.length_cons] at ih ⊢
      omega

theorem bytes_moveSegment (base : Location) (segment : List UInt8) :
    Location.bytes (FileTree.moveSegment base segment) ≤ Location.bytes base +
      (1 + segment.length) := by
  unfold FileTree.moveSegment
  split
  · omega
  · split
    · have : Location.bytes base.dropLast ≤ Location.bytes base :=
        spanBytes_le_of_sublist ((List.dropLast_sublist base).map _)
      omega
    · simp [Location.bytes, spanBytes_append, spanBytes]

theorem bytes_foldl_moveSegment (segments : List (List UInt8)) (base : Location) :
    Location.bytes (segments.foldl FileTree.moveSegment base) ≤ Location.bytes base +
      spanBytes segments := by
  induction segments generalizing base with
  | nil => simp [spanBytes]
  | cons segment segments ih =>
    have := ih (FileTree.moveSegment base segment)
    have := bytes_moveSegment base segment
    simp only [List.foldl_cons, spanBytes]
    omega

/-- The address of the location of an absolute path is not longer than the path. -/
theorem Path.bytes_place_le {p : Path} (h : p.isAbsolute = true) :
    Location.bytes p.place ≤ p.text.bytes.length := by
  obtain ⟨first, body, hsplit⟩ := List.exists_cons_of_ne_nil (splitOn_ne_nil slash p.text.bytes)
  obtain ⟨rfl, -⟩ := (head?_eq_sep_iff hsplit).1 (by simpa [Path.isAbsolute] using h)
  have hplace := bytes_foldl_moveSegment ((splitOn slash p.text.bytes).filter (!·.isEmpty)) []
  have hbytes := spanBytes_splitOn p.text.bytes
  have hfilter : spanBytes (body.filter (!·.isEmpty)) ≤ spanBytes body :=
    spanBytes_le_of_sublist List.filter_sublist
  have hnil : Location.bytes [] = 0 := rfl
  rw [FileTree.place_eq_foldl h]
  rw [hsplit, List.filter_cons_of_neg (by simp)] at hplace ⊢
  rw [hsplit] at hbytes
  simp only [spanBytes, List.length_nil] at hbytes
  omega

/-- The names of a location that segments lead to are segments. -/
theorem mem_foldl_moveSegment {segments : List (List UInt8)} {base : Location} {name : RawText}
    (h : name ∈ segments.foldl FileTree.moveSegment base) :
    name ∈ base ∨ name.bytes ∈ segments := by
  induction segments generalizing base with
  | nil => exact .inl h
  | cons segment segments ih =>
    rcases ih h with hmem | hmem
    · unfold FileTree.moveSegment at hmem
      split at hmem
      · exact .inl hmem
      · split at hmem
        · exact .inl (List.dropLast_subset base hmem)
        · rcases List.mem_append.1 hmem with hmem | hmem
          · exact .inl hmem
          · exact .inr (by simp [List.mem_singleton.1 hmem])
    · exact .inr (List.mem_cons_of_mem _ hmem)

theorem mem_of_mem_intercalate {pieces : List (List UInt8)} {c : UInt8}
    (h : c ∈ [slash].intercalate pieces) : c = slash ∨ ∃ piece ∈ pieces, c ∈ piece := by
  induction pieces with
  | nil => simp at h
  | cons piece pieces ih =>
    cases pieces with
    | nil => exact .inr ⟨piece, by simp, by simpa using h⟩
    | cons next pieces =>
      rw [List.intercalate_cons_cons, List.append_assoc, List.mem_append, List.mem_append] at h
      rcases h with h | h | h
      · exact .inr ⟨piece, by simp, h⟩
      · exact .inl (List.mem_singleton.1 h)
      · rcases ih h with h | ⟨q, hq, h⟩
        · exact .inl h
        · exact .inr ⟨q, List.mem_cons_of_mem _ hq, h⟩

/-- The address of the location of an absolute path is followed, if the path is. -/
theorem followable_place {p : Path} (h : p.isAbsolute = true)
    (hcheck : FileTree.checkText p.text.bytes = .ok ()) (hne : p.place ≠ [])
    (hfit : FileTree.NamesFit p.place) : FileTree.Followable p.place := by
  obtain ⟨hzero, -, hlong⟩ := FileTree.checkText_eq_ok_iff.1 hcheck
  refine ⟨FileTree.checkText_eq_ok_iff.2 ⟨fun hmem => ?_, by simp [Path.bytes_address], ?_⟩, hfit⟩
  · rw [Path.bytes_address] at hmem
    rcases List.mem_cons.1 hmem with hmem | hmem
    · exact absurd hmem (by decide)
    · rcases mem_of_mem_intercalate hmem with hmem | ⟨piece, hpiece, hmem⟩
      · exact absurd hmem (by decide)
      · obtain ⟨name, hname, rfl⟩ := List.mem_map.1 hpiece
        rw [FileTree.place_eq_foldl h] at hname
        rcases mem_foldl_moveSegment hname with hname | hname
        · cases hname
        · exact hzero (mem_of_mem_splitOn (List.mem_of_mem_filter hname) hmem)
  · rw [length_address hne]
    exact Nat.lt_of_le_of_lt (Path.bytes_place_le h) hlong

namespace FileTree

variable {tree : FileTree} {place q : Location}

/-! ### Writes -/

/-- A file can be made or changed at the location. -/
structure Writable (tree : FileTree) (place : Location) : Prop where
  /-- It can be named. -/
  isPlace : IsPlace place
  /-- It is not the root. -/
  ne_nil : place ≠ []
  /-- Its address can be followed. -/
  followable : Followable place
  /-- The location above holds a directory. -/
  inDirectory : tree.node? place.dropLast = some .directory
  /-- No directory is in the way. -/
  notDirectory : tree.node? place ≠ some .directory

/-- What a write has checked: its text can be followed, the steps before the last one lead to a
directory, and the last one is a name that leads to no directory. -/
theorem exists_of_writeLocation {p : Path} (h : tree.writeLocation p = .ok place) :
    checkText p.text.bytes = .ok () ∧ ∃ front segment above,
      (splitOn slash p.text.bytes).filter (!·.isEmpty) = front ++ [segment] ∧
      front.foldlM tree.step (tree.start p.text.bytes) = .ok above ∧ tree.node? above =
        some .directory ∧
      segment ≠ [dot] ∧ segment ≠ [dot, dot] ∧ segment.length ≤ nameLimit ∧
      place = above ++ [⟨segment⟩] ∧ tree.node? place ≠ some .directory := by
  simp only [writeLocation] at h
  cases hcheck : checkText p.text.bytes with
  | error e =>
    rw [hcheck] at h
    cases h
  | ok =>
    rw [hcheck] at h
    generalize (splitOn slash p.text.bytes).filter (!·.isEmpty) = segments at h
    rcases List.eq_nil_or_concat' segments with rfl | ⟨front, segment, rfl⟩
    · cases h
    rw [List.getLast?_concat, List.dropLast_concat] at h
    cases habove : front.foldlM tree.step (tree.start p.text.bytes) with
    | error e =>
      rw [habove] at h
      cases h
    | ok above =>
      simp only [habove, bind, Except.bind] at h
      split at h
      next hdir =>
        split at h
        · cases h
        next hdots =>
          simp only [Bool.or_eq_true, decide_eq_true_eq, not_or] at hdots
          split at h
          · cases h
          next hlimit =>
            split at h
            · cases h
            next hnot =>
              cases h
              exact ⟨rfl, front, segment, above, rfl, habove, hdir, hdots.1.1, hdots.1.2,
                Nat.le_of_not_lt hlimit,
                rfl, hnot⟩
      · cases h

/-- A write through an absolute path goes to its location. -/
theorem writeLocation_eq_ok {p : Path} (habsolute : p.isAbsolute = true)
    (h : tree.writeLocation p = .ok place) : place = p.place ∧ tree.Writable place := by
  obtain ⟨hcheck, front, segment, above, hsegments, habove, hdir, hdot, hdots, hlimit,
      hplace, hnot⟩ :=
    exists_of_writeLocation h
  have hstart : tree.start p.text.bytes = [] := by
    rw [start, if_pos (by simpa [Path.isAbsolute] using habsolute)]
  rw [hstart] at habove
  obtain ⟨hfront, hfit⟩ := foldlM_step_eq_ok habove
  have heq : p.place = place := by
    rw [place_eq_foldl habsolute, hsegments, List.foldl_append, ← hfront, hplace]
    simp [moveSegment, hdot, hdots]
  have hnames : NamesFit place := by
    rw [hplace]
    intro name hmem
    rcases List.mem_append.1 hmem with hmem | hmem
    · exact hfit (by simp [NamesFit]) name hmem
    · rw [List.mem_singleton.1 hmem]
      exact hlimit
  have hne : place ≠ [] := by simp [hplace]
  subst heq
  refine ⟨rfl, Path.isPlace_place habsolute, hne,
    followable_place habsolute hcheck hne hnames, ?_, hnot⟩
  rw [hplace, List.dropLast_concat, hdir]

theorem exists_put (tree : FileTree) (place : Location) (content : ByteArray) (time? : Option Nat) :
    ∃ stamp, (tree.put place content time?).nodes =
      tree.nodes.insert place (.file ⟨content, stamp⟩) := by
  cases time? with
  | none => exact ⟨_, rfl⟩
  | some time => exact ⟨_, rfl⟩

/-- A write makes a file with these bytes. -/
theorem node?_put_self (hplace : place ≠ []) (content : ByteArray) (time? : Option Nat) :
    ∃ stamp, (tree.put place content time?).node? place = some (.file ⟨content, stamp⟩) := by
  obtain ⟨stamp, hnodes⟩ := exists_put tree place content time?
  refine ⟨stamp, ?_⟩
  rw [node?_of_ne_nil _ hplace, hnodes, SortedMap.find?_insert, if_pos ReflCmp.compare_self]

/-- A write changes nothing elsewhere. -/
theorem node?_put_of_ne (content : ByteArray) (time? : Option Nat) (hq : q ≠ place) :
    (tree.put place content time?).node? q = tree.node? q := by
  obtain ⟨stamp, hnodes⟩ := exists_put tree place content time?
  by_cases hnil : q = []
  · simp [hnil]
  · rw [node?_of_ne_nil _ hnil, node?_of_ne_nil _ hnil, hnodes, SortedMap.find?_insert,
      if_neg (mt Std.compare_eq_iff_eq.1 hq)]

theorem WellFormed.put (h : tree.WellFormed) (hplace : tree.Writable place) (content : ByteArray)
    (time? : Option Nat) : (tree.put place content time?).WellFormed := by
  obtain ⟨stamp, hnodes⟩ := exists_put tree place content time?
  have hkeys : ∀ q ∈ (tree.put place content time?).nodes.keys, q = place ∨
      q ∈ tree.nodes.keys := fun q hq =>
    SortedMap.mem_keys_insert (hnodes ▸ hq)
  refine ⟨fun q hq => ?_, fun q hq => ?_, fun q hq => ?_⟩
  · rcases hkeys q hq with rfl | hq
    · exact hplace.ne_nil
    · exact h.ne_nil q hq
  · rcases hkeys q hq with rfl | hq
    · exact hplace.isPlace
    · exact h.isPlace q hq
  · have hdir : tree.node? q.dropLast = some .directory := by
      rcases hkeys q hq with rfl | hq
      · exact hplace.inDirectory
      · exact h.inDirectory q hq
    rwa [node?_put_of_ne content time?]
    rintro rfl
    exact hplace.notDirectory hdir

theorem write_eq_ok {p : Path} {content : ByteArray} {time? : Option Nat} {tree' : FileTree}
    (habsolute : p.isAbsolute = true) (h : tree.write p content time? = .ok tree') :
    tree.Writable p.place ∧ tree' = tree.put p.place content time? := by
  unfold write at h
  cases hlocation : tree.writeLocation p with
  | error e =>
    rw [hlocation] at h
    cases h
  | ok place =>
    rw [hlocation] at h
    cases h
    obtain ⟨rfl, hwritable⟩ := writeLocation_eq_ok habsolute hlocation
    exact ⟨hwritable, rfl⟩

/-! ### Removals -/

/-- A removal takes what stands at the location and below it, and nothing else. -/
theorem node?_remove (tree : FileTree) (place : Location) (hq : q ≠ []) :
    (tree.remove place).node? q = if place <+: q then none else tree.node? q := by
  have respects : ∀ (a k : Location) (_ : Node), compare a k = .eq →
      (!place.isPrefixOf k) = !place.isPrefixOf a :=
        fun a k _ hak => by rw [Std.compare_eq_iff_eq.1 hak]
  rw [node?_of_ne_nil _ hq, node?_of_ne_nil _ hq, remove, SortedMap.find?_filter respects]
  by_cases hbelow : place <+: q
  · cases tree.nodes.find? q <;> simp [hbelow]
  · have : place.isPrefixOf q = false := by rwa [← Bool.not_eq_true, List.isPrefixOf_iff_prefix]
    cases tree.nodes.find? q <;> simp [hbelow, this]

theorem node?_of_remove {place : Location} {node : Node}
    (h : (tree.remove place).node? q = some node) : tree.node? q = some node := by
  by_cases hq : q = []
  · rwa [hq] at h ⊢
  · rw [node?_remove tree place hq] at h
    split at h
    · cases h
    · exact h

theorem WellFormed.remove (h : tree.WellFormed) (place : Location) :
    (tree.remove place).WellFormed := by
  have hkeys : ∀ q ∈ (tree.remove place).nodes.keys, q ∈ tree.nodes.keys := fun q hq =>
    SortedMap.mem_keys_filter hq
  refine ⟨fun q hq => h.ne_nil q (hkeys q hq), fun q hq => h.isPlace q (hkeys q hq), fun q hq => ?_⟩
  have hne := h.ne_nil q (hkeys q hq)
  have hsome := (node?_isSome_iff hne).2 hq
  rw [node?_remove tree place hne] at hsome
  by_cases habove : q.dropLast = []
  · rw [habove, node?_nil]
  · rw [node?_remove tree place habove, if_neg, h.inDirectory q (hkeys q hq)]
    intro hbelow
    rw [if_pos (hbelow.trans (List.dropLast_prefix q))] at hsome
    cases hsome

/-! ### New directories -/

/-- A directory can be made at the location: it can be named, and no file is in the way. -/
structure Enterable (tree : FileTree) (place : Location) : Prop where
  /-- It can be named. -/
  isPlace : IsPlace place
  /-- Nothing but directories stands on the way. -/
  noFile : ∀ q, q <+: place → ∀ v, tree.node? q ≠ some (.file v)

/-- The directories that lead to a location. -/
theorem mem_way_iff :
    q ∈ ((List.range place.length).map fun n => place.take (n + 1)) ↔ q <+: place ∧ q ≠ [] := by
  rw [List.mem_map]
  constructor
  · rintro ⟨n, hn, rfl⟩
    refine ⟨List.take_prefix _ _, fun hnil => ?_⟩
    rw [List.take_eq_nil_iff] at hnil
    rw [List.mem_range] at hn
    rcases hnil with hnil | rfl
    · omega
    · simp at hn
  · rintro ⟨hbelow, hne⟩
    have hlength := hbelow.length_le
    have hpos := List.length_pos_iff.2 hne
    exact ⟨q.length - 1, by rw [List.mem_range]; omega,
      by rw [Nat.sub_add_cancel hpos]; exact (List.prefix_iff_eq_take.1 hbelow).symm⟩

theorem find?_foldl_insertNew (places : List Location) (nodes : SortedMap Location Node)
    (q : Location) :
    (places.foldl (fun nodes p => nodes.insertNew p .directory) nodes).find? q =
      (nodes.find? q).or (if q ∈ places then some .directory else none) := by
  induction places generalizing nodes with
  | nil => simp
  | cons p places ih =>
    rw [List.foldl_cons, ih, SortedMap.find?_insertNew]
    simp only [Std.compare_eq_iff_eq, List.mem_cons]
    by_cases hq : q = p
    · subst hq
      cases nodes.find? q <;> simp
    · simp [hq]

/-- Making directories puts directories where nothing stood on the way, and changes nothing else. -/
theorem node?_makeDirectories (tree : FileTree) (place q : Location) :
    (tree.makeDirectories place).node? q =
      (tree.node? q).or (if q <+: place then some .directory else none) := by
  by_cases hq : q = []
  · simp [hq]
  · rw [node?_of_ne_nil _ hq, node?_of_ne_nil _ hq, makeDirectories, find?_foldl_insertNew]
    simp only [mem_way_iff, hq, ne_eq, not_false_eq_true, and_true]

theorem mem_keys_foldl_insertNew {places : List Location} {nodes : SortedMap Location Node}
    (h : q ∈ (places.foldl (fun nodes p => nodes.insertNew p .directory) nodes).keys) :
    q ∈ places ∨ q ∈ nodes.keys := by
  induction places generalizing nodes with
  | nil => exact .inr h
  | cons p places ih =>
    rcases ih h with hq | hq
    · exact .inl (List.mem_cons_of_mem _ hq)
    · rcases SortedMap.mem_keys_insertNew hq with rfl | hq
      · exact .inl List.mem_cons_self
      · exact .inr hq

theorem WellFormed.makeDirectories (h : tree.WellFormed) (hplace : tree.Enterable place) :
    (tree.makeDirectories place).WellFormed := by
  have hkeys : ∀ q ∈ (tree.makeDirectories place).nodes.keys, (q <+: place ∧ q ≠ []) ∨
      q ∈ tree.nodes.keys :=
    fun q hq => (mem_keys_foldl_insertNew hq).imp_left mem_way_iff.1
  refine ⟨fun q hq => ?_, fun q hq => ?_, fun q hq => ?_⟩
  · rcases hkeys q hq with hq | hq
    · exact hq.2
    · exact h.ne_nil q hq
  · rcases hkeys q hq with hq | hq
    · intro name hmem
      exact hplace.isPlace name (hq.1.subset hmem)
    · exact h.isPlace q hq
  · rw [node?_makeDirectories]
    rcases hkeys q hq with hq | hq
    · have hbelow := (List.dropLast_prefix q).trans hq.1
      rw [if_pos hbelow]
      cases hnode : tree.node? q.dropLast with
      | none => rfl
      | some node =>
        cases node with
        | directory => rfl
        | file v => exact absurd hnode (hplace.noFile _ hbelow v)
    · rw [h.inDirectory q hq, Option.some_or]

/-- Making directories neither makes nor changes a file. -/
theorem node?_makeDirectories_eq_file_iff {v : FileVersion} :
    (tree.makeDirectories place).node? q = some (.file v) ↔ tree.node? q = some (.file v) := by
  rw [node?_makeDirectories]
  cases tree.node? q with
  | none => simp
  | some node => simp

end FileTree

end TemplateAtlas
