import TemplateAtlas.Drawing.TreeText
import TemplateAtlas.Proofs.Graph.Quotient
import TemplateAtlas.Proofs.Text.Pieces

/-!
# The text of a tree can be read

The text of a tree has one line for each place, in the order in which the tree is gone through
(`TreeText.splitOn_render`). What stands in front of a name has four characters for each level:
under an ancestor a bar, if a sibling of the ancestor is still to come, and blanks otherwise, and a
connector at the node itself (`Tree.IsStem`). A connector opens with a character that neither a bar
nor a blank is, so the level of a line is read from its front whatever the name behind it holds
(`TreeText.readLine_stem`), and the levels one after the other tell the positions
(`TreeText.readLines_placesFrom`). Main statement: the text determines the tree up to what it does
not show (`TreeText.text_determines_tree`).
-/

namespace TemplateAtlas

open TemplateAtlas.Text TemplateAtlas.TreeText

/-! ### What stands in front of a name -/

namespace Tree

/-- Does the node at a position have a sibling behind it? -/
def HasLaterSibling (t : Tree) (position : List Nat) : Prop :=
  ∃ above i j, position = above ++ [i] ∧ i < j ∧ (t.subtree? (above ++ [j])).isSome

/-- What stands in front of the name of a node at a position. -/
structure IsStem (t : Tree) (position : List Nat) (stem : List Char) : Prop where
  /-- It has four characters for each level. -/
  length_eq : stem.length = 4 * position.length
  /-- A bar stands in a column exactly when it is that of an ancestor with a sibling to come. -/
  bar_iff : ∀ column, stem[column]? = some '│' ↔
    ∃ level, column = 4 * level ∧ level + 1 < position.length ∧
      t.HasLaterSibling (position.take (level + 1))
  /-- The other columns of ancestors are blank. -/
  blank_of_not_bar : ∀ column, column + 4 < stem.length → stem[column]? ≠ some '│' →
    stem[column]? = some ' '
  /-- The connector of a node with a sibling to come goes on downwards. -/
  connector_of_later : t.HasLaterSibling position → "├── ".toList <:+ stem
  /-- The connector of the last of some siblings ends there. -/
  connector_of_last : position ≠ [] → ¬t.HasLaterSibling position → "└── ".toList <:+ stem

variable {t : Tree} {position : List Nat} {i : Nat}

theorem not_hasLaterSibling_nil : ¬t.HasLaterSibling [] := by
  rintro ⟨above, i, j, hnil, -⟩
  simp at hnil

theorem hasLaterSibling_singleton_iff : t.HasLaterSibling [i] ↔ i + 1 < t.children.length := by
  constructor
  · rintro ⟨above, i', j, heq, hlt, hsome⟩
    obtain ⟨rfl, rfl⟩ : above = [] ∧ i' = i := by
      cases above with
      | nil => exact ⟨rfl, (List.cons.inj heq).1.symm⟩
      | cons k above => simp at heq
    obtain ⟨u, hu⟩ := Option.isSome_iff_exists.1 hsome
    obtain ⟨c, hc, -⟩ := Option.bind_eq_some_iff.1 hu
    have : j < t.children.length := (List.getElem?_eq_some_iff.1 hc).1
    omega
  · intro h
    refine ⟨[], i, i + 1, rfl, Nat.lt_succ_self i, ?_⟩
    simp [subtree?, h]

/-- Below a child, siblings are those that the child has below it. -/
theorem hasLaterSibling_cons_iff {c : Tree} (hc : t.children[i]? = some c) (hne : position ≠ []) :
    t.HasLaterSibling (i :: position) ↔ c.HasLaterSibling position := by
  have hsubtree : ∀ q, t.subtree? (i :: q) = c.subtree? q :=
    fun q => by rw [subtree?, hc, Option.bind_some]
  constructor
  · rintro ⟨above, k, j, heq, hlt, hsome⟩
    cases above with
    | nil => exact absurd (List.cons.inj heq).2 hne
    | cons a above =>
      obtain ⟨rfl, rfl⟩ := List.cons.inj heq
      exact ⟨above, k, j, rfl, hlt, by rwa [List.cons_append, hsubtree] at hsome⟩
  · rintro ⟨above, k, j, rfl, hlt, hsome⟩
    exact ⟨i :: above, k, j, rfl, hlt, by rwa [List.cons_append, hsubtree]⟩

/-- What stands in front of the name of a node, at a position among trees under a common parent. -/
def stemAmong : List Tree → List Nat → List Char
  | _, [] => []
  | ts, [i] => (connector (decide (ts.length ≤ i + 1))).toList
  | ts, i :: j :: position =>
    (continuation (decide (ts.length ≤ i + 1))).toList ++
      stemAmong ((ts[i]?.map children).getD []) (j :: position)

/-- What stands in front of the name of a node. -/
def stem (t : Tree) (position : List Nat) : List Char :=
  stemAmong t.children position

theorem length_continuation (last : Bool) : (continuation last).toList.length = 4 := by
  cases last <;> rfl

/-- Under an ancestor there is a bar in its first column, if it is not the last of its siblings. -/
theorem getElem?_continuation (last : Bool) {column : Nat} (h : column < 4) :
    (continuation last).toList[column]? =
      some (if column = 0 ∧ last = false then '│' else ' ') := by
  match column with
  | 0 | 1 | 2 | 3 => cases last <;> rfl
  | _ + 4 => omega

/-- A level at which a bar stands is that of the outermost ancestor, or one below it. -/
theorem exists_level_cons_iff {c : Tree} (hc : t.children[i]? = some c) {column : Nat} :
    (∃ level, column = 4 * level ∧ level + 1 < (i :: position).length ∧
        t.HasLaterSibling ((i :: position).take (level + 1))) ↔
      (column = 0 ∧ position ≠ [] ∧ i + 1 < t.children.length) ∨
      ∃ level, column = 4 * level + 4 ∧ level + 1 < position.length ∧
        c.HasLaterSibling (position.take (level + 1)) := by
  have hbelow : ∀ {level}, level + 1 < position.length →
      (t.HasLaterSibling (i :: position.take (level + 1)) ↔
        c.HasLaterSibling (position.take (level + 1))) := by
    intro level hlevel
    refine hasLaterSibling_cons_iff hc (List.ne_nil_of_length_pos ?_)
    rw [List.length_take]
    omega
  constructor
  · rintro ⟨level, rfl, hlevel, hsibling⟩
    rw [List.length_cons] at hlevel
    cases level with
    | zero =>
      exact .inl ⟨rfl, List.ne_nil_of_length_pos (by omega),
        hasLaterSibling_singleton_iff.1 hsibling⟩
    | succ level => exact .inr ⟨level, rfl, by omega, (hbelow (by omega)).1 hsibling⟩
  · rintro (⟨rfl, hne, hsibling⟩ | ⟨level, rfl, hlevel, hsibling⟩)
    · refine ⟨0, rfl, ?_, hasLaterSibling_singleton_iff.2 hsibling⟩
      rw [List.length_cons]
      exact Nat.succ_lt_succ (List.length_pos_iff.2 hne)
    · exact ⟨level + 1, rfl, Nat.succ_lt_succ hlevel, (hbelow hlevel).2 hsibling⟩

/-- One more ancestor puts its columns in front. -/
theorem IsStem.under {c : Tree} (hc : t.children[i]? = some c) {rest : List Char}
    (hne : position ≠ []) (h : c.IsStem position rest) :
    t.IsStem (i :: position)
      ((continuation (decide (t.children.length ≤ i + 1))).toList ++ rest) := by
  have hlater : t.HasLaterSibling (i :: position) ↔ c.HasLaterSibling position :=
    hasLaterSibling_cons_iff hc hne
  have hlength := length_continuation (decide (t.children.length ≤ i + 1))
  refine ⟨?_, fun column => ?_, fun column hcolumn hbar => ?_, fun hposition => ?_,
    fun _ hposition => ?_⟩
  · rw [List.length_append, hlength, h.length_eq, List.length_cons]
    omega
  · rw [exists_level_cons_iff hc]
    by_cases hcolumn : column < 4
    · rw [List.getElem?_append_left (by omega), getElem?_continuation _ hcolumn]
      constructor
      · intro hbar
        split at hbar
        next hhere => exact .inl ⟨hhere.1, hne, Nat.not_le.1 (of_decide_eq_false hhere.2)⟩
        next => exact absurd (Option.some.inj hbar) (by decide)
      · rintro (⟨rfl, -, hsibling⟩ | ⟨level, rfl, -⟩)
        · rw [if_pos ⟨rfl, decide_eq_false (Nat.not_le.2 hsibling)⟩]
        · omega
    · rw [List.getElem?_append_right (by omega), hlength, h.bar_iff]
      constructor
      · rintro ⟨level, heq, hlevel⟩
        exact .inr ⟨level, by omega, hlevel⟩
      · rintro (⟨rfl, -⟩ | ⟨level, rfl, hlevel⟩)
        · omega
        · exact ⟨level, by omega, hlevel⟩
  · rw [List.length_append, hlength] at hcolumn
    by_cases hfirst : column < 4
    · rw [List.getElem?_append_left (by omega), getElem?_continuation _ hfirst] at hbar ⊢
      split at hbar
      · exact absurd rfl hbar
      next hhere => rw [if_neg hhere]
    · rw [List.getElem?_append_right (by omega), hlength] at hbar ⊢
      exact h.blank_of_not_bar _ (by omega) hbar
  · exact (h.connector_of_later (hlater.1 hposition)).trans (List.suffix_append _ _)
  · exact (h.connector_of_last hne fun hsibling => hposition (hlater.2 hsibling)).trans
      (List.suffix_append _ _)

theorem isStem_nil (t : Tree) : t.IsStem [] [] :=
  ⟨rfl, fun column => by simp, fun column h => by simp at h,
    fun h => absurd h not_hasLaterSibling_nil,
    fun h => absurd rfl h⟩

theorem isStem_singleton (t : Tree) (i : Nat) :
    t.IsStem [i] (connector (decide (t.children.length ≤ i + 1))).toList := by
  have hcharacters : ∀ (last : Bool) (column : Nat),
      (connector last).toList[column]? ≠ some '│' := by
    intro last column h
    have := List.mem_of_getElem? h
    cases last <;> exact absurd this (by decide)
  have hlength : (connector (decide (t.children.length ≤ i + 1))).toList.length = 4 := by
    cases decide (t.children.length ≤ i + 1) <;> rfl
  refine ⟨hlength, fun column => ⟨fun h => absurd h (hcharacters _ _), ?_⟩, fun column h =>
    ?_, fun h => ?_,
    fun _ h => ?_⟩
  · rintro ⟨level, -, hlevel, -⟩
    simp at hlevel
  · omega
  · have hnot : ¬t.children.length ≤ i + 1 := Nat.not_le.2 (hasLaterSibling_singleton_iff.1 h)
    rw [decide_eq_false hnot]
    exact List.suffix_rfl
  · have hlast : t.children.length ≤ i + 1 := by
      rw [hasLaterSibling_singleton_iff] at h
      omega
    rw [decide_eq_true hlast]
    exact List.suffix_rfl

/-- What stands in front of a name tells which ancestors have siblings to come. -/
theorem isStem_stem (h : (t.subtree? position).isSome) : t.IsStem position (t.stem position) := by
  induction position generalizing t with
  | nil => exact isStem_nil t
  | cons i position ih =>
    obtain ⟨u, hu⟩ := Option.isSome_iff_exists.1 h
    obtain ⟨c, hc, hsub⟩ := Option.bind_eq_some_iff.1 hu
    cases position with
    | nil => exact isStem_singleton t i
    | cons j position =>
      have hbelow := (ih (Option.isSome_iff_exists.2 ⟨u, hsub⟩)).under hc
        (List.cons_ne_nil j position)
      rw [stem, stemAmong, hc]
      exact hbelow

end Tree

/-! ### The lines of a tree -/

namespace TreeText

section Lines

variable (root : Path)

mutual

/-- The lines of a tree are its places, with what stands in front of them. `before` and `rest` are
its siblings. -/
theorem map_toList_lines : ∀ (t : Tree) (before rest : List Tree) (lead : String),
    (lines root lead rest.isEmpty t).map String.toList = t.places.map fun place =>
      lead.toList ++ (Tree.stemAmong (before ++ t :: rest) (before.length :: place.1) ++
        (label place.2 root).toList)
  | .node info children, before, rest, lead => by
    have hlast : decide ((before ++ Tree.node info children :: rest).length ≤ before.length + 1) =
        rest.isEmpty := by
      cases rest <;> simp
    have hbelow := map_toList_linesOfAll children [] (lead ++ continuation rest.isEmpty)
    rw [lines, Tree.places, List.map_cons, List.map_cons, hbelow]
    congr 1
    · rw [Tree.stemAmong, hlast, String.toList_append, String.toList_append, List.append_assoc]
    · refine List.map_congr_left fun place hplace => ?_
      obtain ⟨j, position, hposition, -⟩ := Tree.mem_placesFrom_iff.1 hplace
      rw [hposition, Tree.stemAmong, hlast, String.toList_append, List.append_assoc,
        List.append_assoc]
      simp [Tree.children]

theorem map_toList_linesOfAll : ∀ (ts before : List Tree) (lead : String),
    (linesOfAll root lead ts).map String.toList =
      (Tree.placesFrom before.length ts).map fun place =>
      lead.toList ++ (Tree.stemAmong (before ++ ts) place.1 ++ (label place.2 root).toList)
  | [], before, lead => rfl
  | t :: ts, before, lead => by
    have hlater := map_toList_linesOfAll ts (before ++ [t]) lead
    rw [List.length_append, List.append_assoc] at hlater
    rw [linesOfAll, Tree.placesFrom, List.map_append, List.map_append, List.map_map,
      map_toList_lines t before ts lead]
    exact congrArg _ hlater

end

/-- The lines of a tree, the first without a front. -/
theorem map_toList_lines_render (t : Tree) :
    (label t.info root :: linesOfAll root "" t.children).map String.toList =
      t.places.map fun place => t.stem place.1 ++ (label place.2 root).toList := by
  obtain ⟨info, children⟩ := t
  rw [List.map_cons, Tree.places, List.map_cons, Tree.children,
    map_toList_linesOfAll root children [] ""]
  rfl

end Lines

/-! ### Names on one line -/

/-- The names of the nodes have no line breaks. -/
def NamesFit (t : Tree) (root : Path) : Prop :=
  ∀ info ∈ t.preorder, '\n' ∉ (info.key.shownBelow root).toList

theorem newline_notMem_label {info : TreeInfo} {root : Path}
    (h : '\n' ∉ (info.key.shownBelow root).toList) : '\n' ∉ (label info root).toList := by
  have hnumber (n : Nat) : '\n' ∉ (toString n).toList := fun hmem =>
    absurd (isDigit_of_mem_toString hmem) (by decide)
  have hkind : '\n' ∉ info.kind.shortName.toList := by
    cases info.kind <;> decide
  have hcycle : '\n' ∉ (if info.cycle then " (cycle)" else "").toList := by
    cases info.cycle <;> decide
  simp only [label, String.toList_append, List.mem_append, not_or]
  refine ⟨⟨⟨⟨⟨⟨h, by decide⟩, hkind⟩, by decide⟩, ?_⟩, ?_⟩, hcycle⟩
  · cases info.line? with
    | none => decide
    | some line =>
      simp only [String.toList_append, List.mem_append, not_or]
      exact ⟨by decide, hnumber _⟩
  · split
    · simp only [String.toList_append, List.mem_append, not_or]
      exact ⟨⟨⟨⟨by decide, hnumber _⟩, by decide⟩, hnumber _⟩, by decide⟩
    · decide

theorem newline_notMem_stemAmong (ts : List Tree) (position : List Nat) :
    '\n' ∉ Tree.stemAmong ts position := by
  induction position generalizing ts with
  | nil => simp [Tree.stemAmong]
  | cons i position ih =>
    cases position with
    | nil =>
      rw [Tree.stemAmong]
      cases decide (ts.length ≤ i + 1) <;> decide
    | cons j position =>
      rw [Tree.stemAmong, List.mem_append, not_or]
      refine ⟨?_, ih _⟩
      cases decide (ts.length ≤ i + 1) <;> decide

/-- Cutting a text of lines that are all ended gives the lines and what is behind the last of
them. -/
theorem splitOn_join_ended {lines : List String}
    (h : ∀ line ∈ lines.map String.toList, '\n' ∉ line) :
    splitOn '\n' (String.join (lines.map (· ++ "\n"))).toList =
      lines.map String.toList ++ [[]] := by
  induction lines with
  | nil => rfl
  | cons line lines ih =>
    rw [List.map_cons, List.forall_mem_cons] at h
    have hline : (String.join ((line :: lines).map (· ++ "\n"))).toList =
        line.toList ++ '\n' :: (String.join (lines.map (· ++ "\n"))).toList := by
      simp [String.join_cons]
    rw [hline, splitOn_append_cons h.1, ih h.2]
    rfl

/-- The text has one line for each place, in their order, and every line is ended. -/
theorem splitOn_render {t : Tree} {root : Path} (h : NamesFit t root) :
    splitOn '\n' (render t root).toList =
      (t.places.map fun place => t.stem place.1 ++ (label place.2 root).toList) ++ [[]] := by
  have hlines : ∀ line ∈ t.places.map fun place => t.stem place.1 ++ (label place.2 root).toList,
      '\n' ∉ line := by
    refine List.forall_mem_map.2 fun place hplace => ?_
    have hinfo : place.2 ∈ t.preorder := Tree.map_snd_places t ▸ List.mem_map_of_mem hplace
    rw [List.mem_append, not_or]
    exact ⟨newline_notMem_stemAmong _ _, newline_notMem_label (h _ hinfo)⟩
  rw [← map_toList_lines_render] at hlines ⊢
  exact splitOn_join_ended hlines

/-! ### Reading a text -/

/-- The level of a line below the top, and what stands behind its connector. -/
def readLine : List Char → Nat × List Char
  | '├' :: '─' :: '─' :: ' ' :: text => (1, text)
  | '└' :: '─' :: '─' :: ' ' :: text => (1, text)
  | '│' :: ' ' :: ' ' :: ' ' :: line => ((readLine line).1 + 1, (readLine line).2)
  | ' ' :: ' ' :: ' ' :: ' ' :: line => ((readLine line).1 + 1, (readLine line).2)
  | line => (0, line)

/-- The position that comes after another one when a tree is gone through, if it is on the level. -/
def nextPosition (position : List Nat) (level : Nat) : List Nat :=
  position.take (level - 1) ++ [(position[level - 1]?.map (· + 1)).getD 0]

/-- The positions of lines that come after a position, with what stands behind their connectors. -/
def readLines (position : List Nat) : List (List Char) → List (List Nat × List Char)
  | [] => []
  | line :: lines =>
    let next := nextPosition position (readLine line).1
    (next, (readLine line).2) :: readLines next lines

/-- The positions that a text shows, with what stands behind their connectors. -/
def read (text : String) : List (List Nat × List Char) :=
  match (splitOn '\n' text.toList).dropLast with
  | [] => []
  | top :: lines => ([], top) :: readLines [] lines

section Reading

/-- The level is read from the front of a line, whatever stands behind it. -/
theorem readLine_stem (ts : List Tree) {position : List Nat} (hne : position ≠ [])
    (text : List Char) :
    readLine (Tree.stemAmong ts position ++ text) = (position.length, text) := by
  induction position generalizing ts with
  | nil => exact absurd rfl hne
  | cons i position ih =>
    cases position with
    | nil =>
      rw [Tree.stemAmong]
      cases decide (ts.length ≤ i + 1) <;> rfl
    | cons j position =>
      have hbelow := ih ((ts[i]?.map Tree.children).getD []) (List.cons_ne_nil j position)
      rw [Tree.stemAmong, List.append_assoc]
      cases decide (ts.length ≤ i + 1)
      · exact (congrArg (fun r : Nat × List Char => (r.1 + 1, r.2)) hbelow)
      · exact (congrArg (fun r : Nat × List Char => (r.1 + 1, r.2)) hbelow)

variable {p above : List Nat} {i : Nat}

theorem nextPosition_self (position : List Nat) :
    nextPosition position (position.length + 1) = position ++ [0] := by
  simp [nextPosition]

/-- Behind all that stands under a node, the next position on its level is that of its next
sibling. -/
theorem nextPosition_of_below {n : Nat}
    (h : nextPosition p (above.length + 2) = above ++ [i] ++ [n]) :
    nextPosition p (above.length + 1) = above ++ [i + 1] := by
  obtain ⟨htake, -⟩ := List.append_inj' h rfl
  have hat : p[above.length]? = some i := by
    have := congrArg (·[above.length]?) htake
    simpa using this
  have habove : p.take above.length = above := by
    have := congrArg (List.take above.length) htake
    simpa [List.take_take] using this
  simp [nextPosition, hat, habove]

variable {front : List Nat → List Char}

mutual

/-- The lines of a tree that comes next are read as its places. -/
theorem exists_readLines_places
    (hfront : ∀ position, position ≠ [] → ∀ text, readLine (front position ++ text) =
      (position.length, text))
    (text : TreeInfo → List Char) : ∀ (t : Tree) {p above : List Nat} {i : Nat},
    nextPosition p (above.length + 1) = above ++ [i] →
    ∃ q, nextPosition q (above.length + 1) = above ++ [i + 1] ∧ ∀ rest,
      readLines p ((t.places.map fun place => front (above ++ i :: place.1) ++ text place.2) ++
        rest) =
        (t.places.map fun place => (above ++ i :: place.1, text place.2)) ++ readLines q rest
  | .node info children, p, above, i, hp => by
    have hstart : nextPosition (above ++ [i]) ((above ++ [i]).length + 1) = above ++ [i] ++ [0] :=
      nextPosition_self _
    obtain ⟨q, hq, hread⟩ := exists_readLines_placesFrom hfront text children hstart
    refine ⟨q, nextPosition_of_below (by rwa [List.length_append] at hq), fun rest => ?_⟩
    have hfirst : readLine (front (above ++ [i]) ++ text info) = (above.length + 1, text info) := by
      rw [hfront _ (by simp), List.length_append, List.length_singleton]
    simp only [List.append_assoc, List.singleton_append] at hread
    rw [Tree.places, List.map_cons, List.map_cons, List.cons_append, readLines, hfirst]
    simp only [hp, hread, List.cons_append]

/-- The lines of trees that come next are read as their places. -/
theorem exists_readLines_placesFrom
    (hfront : ∀ position, position ≠ [] → ∀ text, readLine (front position ++ text) =
      (position.length, text))
    (text : TreeInfo → List Char) : ∀ (ts : List Tree) {p above : List Nat} {i : Nat},
    nextPosition p (above.length + 1) = above ++ [i] →
    ∃ q, nextPosition q (above.length + 1) = above ++ [i + ts.length] ∧ ∀ rest,
      readLines p
        (((Tree.placesFrom i ts).map fun place => front (above ++ place.1) ++ text place.2) ++
        rest) =
        ((Tree.placesFrom i ts).map fun place => (above ++ place.1, text place.2)) ++
          readLines q rest
  | [], p, above, i, hp => ⟨p, hp, fun rest => rfl⟩
  | t :: ts, p, above, i, hp => by
    obtain ⟨q, hq, hread⟩ := exists_readLines_places hfront text t hp
    obtain ⟨r, hr, hlater⟩ := exists_readLines_placesFrom hfront text ts hq
    refine ⟨r, ?_, fun rest => ?_⟩
    · rw [hr, List.length_cons]
      congr 2
      omega
    · simp only [Tree.placesFrom, List.map_append, List.map_map, List.append_assoc]
      exact (hread _).trans (congrArg _ (hlater rest))

end

/-- Reading the text of a tree gives its positions, each with the line of its node. -/
theorem read_render {t : Tree} {root : Path} (h : NamesFit t root) :
    read (render t root) = t.places.map fun place => (place.1, (label place.2 root).toList) := by
  obtain ⟨info, children⟩ := t
  have hstart : nextPosition [] (([] : List Nat).length + 1) = [] ++ [0] := rfl
  obtain ⟨q, -, hread⟩ := exists_readLines_placesFrom (fun _ hne => readLine_stem children hne)
    (fun info => (label info root).toList) children hstart
  have hlines := hread []
  simp only [List.append_nil, List.nil_append, readLines] at hlines
  rw [read, splitOn_render h, List.dropLast_concat, Tree.places, List.map_cons, List.map_cons]
  exact congrArg _ hlines

end Reading

/-! ### What the text determines -/

/-- Trees with names on one line and the same text have the same shape, with the same line at each
position. -/
theorem map_label_subtree?_eq {t t' : Tree} {root root' : Path} (h : NamesFit t root)
    (h' : NamesFit t' root') (htext : render t' root' = render t root) (position : List Nat) :
    (t'.subtree? position).map (fun u => label u.info root') =
      (t.subtree? position).map fun u => label u.info root := by
  have hshown {t : Tree} {root : Path} {line : String} :
      (t.subtree? position).map (fun u => label u.info root) = some line ↔
      (position, line.toList) ∈ t.places.map fun place =>
        (place.1, (label place.2 root).toList) := by
    rw [List.mem_map]
    constructor
    · intro hline
      obtain ⟨u, hu, rfl⟩ := Option.map_eq_some_iff.1 hline
      exact ⟨(position, u.info), Tree.mem_places_iff.2 (by rw [hu]; rfl), rfl⟩
    · rintro ⟨⟨q, info⟩, hplace, heq⟩
      obtain ⟨rfl, hline⟩ := Prod.mk.inj heq
      obtain ⟨u, hu, rfl⟩ := Option.map_eq_some_iff.1 (Tree.mem_places_iff.1 hplace)
      rw [hu, Option.map_some, String.toList_inj.1 hline]
  refine Option.ext fun line => ?_
  rw [hshown, hshown, ← read_render h, ← read_render h', htext]

/-- What stands in front of the names, taken alone, tells the positions. -/
theorem map_fst_readLines_stems (t : Tree) :
    [] :: (readLines [] (t.places.tail.map fun place => t.stem place.1)).map Prod.fst =
      t.places.map Prod.fst := by
  obtain ⟨info, children⟩ := t
  have hstart : nextPosition [] (([] : List Nat).length + 1) = [] ++ [0] := rfl
  obtain ⟨q, -, hread⟩ :=
    exists_readLines_placesFrom (fun _ hne => readLine_stem children hne) (fun _ => []) children
      hstart
  have hlines := congrArg (List.map Prod.fst) (hread [])
  simp only [List.append_nil, List.nil_append, readLines, List.map_map] at hlines
  rw [Tree.places, List.map_cons, List.tail_cons]
  exact congrArg _ hlines

/-- The text of a tree whose names have no line breaks has one line for each node, in the order in
which a stack visits them: the name with what the node tells, behind a stem of bars, blanks and a
connector. The stems alone tell the positions of the nodes, and only trees with the same line at
each position have the same text. -/
theorem text_determines_tree {t : Tree} {root : Path} (h : NamesFit t root) :
    splitOn '\n' (render t root).toList =
        (t.places.map fun place => t.stem place.1 ++ (label place.2 root).toList) ++ [[]] ∧
      Tree.Visits [t] (t.places.map Prod.snd) ∧
      (∀ place ∈ t.places, t.IsStem place.1 (t.stem place.1)) ∧
      (∀ t' : Tree, (t'.places.map fun place => t'.stem place.1) =
        (t.places.map fun place => t.stem place.1) →
        t'.places.map Prod.fst = t.places.map Prod.fst) ∧
      ∀ (t' : Tree) (root' : Path), NamesFit t' root' →
        render t' root' = render t root → ∀ position,
        (t'.subtree? position).map (fun u => label u.info root') =
          (t.subtree? position).map fun u => label u.info root := by
  refine ⟨splitOn_render h, ?_, fun place hplace => ?_, fun t' hstems => ?_,
    fun t' root' h' htext position => ?_⟩
  · rw [Tree.map_snd_places]
    exact Tree.visits_preorder t
  · obtain ⟨u, hu, -⟩ := Option.map_eq_some_iff.1 (Tree.mem_places_iff.1 hplace)
    exact Tree.isStem_stem (Option.isSome_iff_exists.2 ⟨u, hu⟩)
  · have htail := congrArg List.tail hstems
    rw [← List.map_tail, ← List.map_tail] at htail
    rw [← map_fst_readLines_stems, ← map_fst_readLines_stems, htail]
  · exact map_label_subtree?_eq h h' htext position

/-- A tree with names that look like connectors and blanks. -/
def connectorNames : Tree :=
  .node (.new (.unknownAlias "x" "├── a") .unknownAlias none none)
    [.node (.new (.file ⟨"/home/    b.yml"⟩) .template (some 2) none)
      [.leaf (.new (.unknownAlias "x" "└── c") .unknownAlias (some 4) (some "x"))],
    .leaf (.new (.unknownAlias "x" "│   d") .unknownAlias (some 6) (some "x"))]

/-- The bar under the first child and no others tell where the names stand, although the names open
with such characters. -/
theorem text_of_connectorNames :
    NamesFit connectorNames ⟨"/home"⟩ ∧
      render connectorNames ⟨"/home"⟩ = "├── a [unknown-alias]\n├──     b.yml [template] :3\n" ++
        "│   └── └── c [unknown-alias] :5\n└── │   d [unknown-alias] :7\n" ∧
      connectorNames.IsStem [0, 0] "│   └── ".toList ∧
      ∀ (t : Tree) (root : Path), NamesFit t root →
        render t root = render connectorNames ⟨"/home"⟩ →
        (t.subtree? [1]).map (fun u => label u.info root) = some "│   d [unknown-alias] :7" := by
  have hnames : NamesFit connectorNames ⟨"/home"⟩ := by
    unfold NamesFit
    decide +kernel
  obtain ⟨-, -, hstems, -, hsame⟩ := text_determines_tree hnames
  refine ⟨hnames, by decide +kernel, ?_, fun t root h htext => ?_⟩
  · have hplace :
        ([0, 0], TreeInfo.new (.unknownAlias "x" "└── c") .unknownAlias (some 4) (some "x")) ∈
        connectorNames.places := Tree.mem_places_iff.2 rfl
    have hstem : connectorNames.stem [0, 0] = "│   └── ".toList := by decide +kernel
    exact hstem ▸ hstems _ hplace
  · exact (hsame t root h htext [1]).trans (by decide +kernel)

end TreeText

end TemplateAtlas
