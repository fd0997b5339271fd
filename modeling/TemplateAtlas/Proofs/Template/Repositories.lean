import TemplateAtlas.Proofs.Template.Declarations

/-!
# Repositories that are written and read

A repository is declared by an item of the block `resources` / `repositories`: its alias and its
name in single quotes, among any other keys that take one line each:

    resources:
      repositories:
      - repository: 'alias'
        type: git
        name: 'Project/name'

Whatever stands around the block and whatever the strings hold, reading gives back for each alias
the short name of the last of its items that has one, and nothing else
(`WrittenResources.find?_repositoryAliases_iff`). Aliases do not depend on the numbers of the lines
(`repositoryAliases_eq`), so the proof follows lines without numbers through the reader: the block
(`repositoryBlock_append`), its items (`itemsOf_flatMap`), their entries (`Item.map_entry_fields`).
-/

namespace TemplateAtlas.Template

open TemplateAtlas.Text

/-! ### Lines without numbers -/

/-- The lines that carry something, without their comments and all with the number zero. -/
def carried (lines : List (List Char)) : List BlockLine :=
  (lines.filter (!isIgnorable ·)).map fun line => ⟨0, stripComment line⟩

section Carried

variable {lines lines' : List (List Char)}

theorem map_renumber_zero (first : Nat) (lines : List (List Char)) :
    (carryingFrom first lines).map (BlockLine.renumber fun _ => 0) = carried lines := by
  induction lines generalizing first with
  | nil => rfl
  | cons line lines ih =>
    rw [carryingFrom_cons, carried]
    by_cases h : isIgnorable line = true
    · rw [if_pos h, List.filter_cons_of_neg (by simp [h]), ih, carried]
    · rw [if_neg h, List.filter_cons_of_pos (by simp [h]), List.map_cons,
        List.map_cons, ih, carried]
      rfl

/-- The aliases of a text do not depend on the numbers of its lines. -/
theorem repositoryAliases_eq (text : String) :
    repositoryAliases text =
      .ofList ((itemsOf (repositoryBlock (carried (linesOf text)))).filterMap
        repositoryOfItem?) := by
  rw [repositoryAliases, BlockLine.ofText, carryingLines_eq, ← map_renumber_zero 0,
    repositoryBlock_renumber, itemsOf_renumber, List.filterMap_map]
  congr 2
  funext item
  exact (repositoryOfItem?_renumber _ item).symm

theorem carried_append : carried (lines ++ lines') = carried lines ++ carried lines' := by
  rw [carried, List.filter_append, List.map_append]
  rfl

theorem carried_of_ignorable (h : ∀ line ∈ lines, isIgnorable line = true) :
    carried lines = [] := by
  rw [carried, List.map_eq_nil_iff, List.filter_eq_nil_iff]
  intro line hline
  simp [h line hline]

theorem carried_of_carrying (h : ∀ line ∈ lines, isIgnorable line = false) :
    carried lines = lines.map fun line => ⟨0, stripComment line⟩ := by
  rw [carried, List.filter_eq_self.2]
  intro line hline
  simp [h line hline]

theorem carried_cons {line : List Char} (h : isIgnorable line = false) :
    carried (line :: lines) = ⟨0, stripComment line⟩ :: carried lines := by
  rw [carried, List.filter_cons_of_pos (by simp [h]), List.map_cons]
  rfl

theorem carried_flatMap {α : Type} (f : α → List (List Char)) (as : List α) :
    carried (as.flatMap f) = as.flatMap fun a => carried (f a) := by
  induction as with
  | nil => rfl
  | cons a as ih => rw [List.flatMap_cons, carried_append, ih, List.flatMap_cons]

end Carried

/-! ### Blocks, items and entries -/

section Blocks

variable {column : Nat}

/-- What is deeper than a key is deeper than the first column. -/
theorem BlockLine.isUnder_zero {l : BlockLine} (hcolumn : 0 < column)
    (h : l.isUnder column = true) : l.isUnder 0 = true := by
  have hdeeper : 0 < l.indent := by
    rw [isUnder, Bool.or_eq_true, Bool.and_eq_true, decide_eq_true_iff, decide_eq_true_iff] at h
    omega
  simp [isUnder, hdeeper]

/-- The lines under the key `repositories`, which stands under the key `resources` behind other
lines and has other lines behind it. -/
theorem repositoryBlock_append {before siblings items after : List BlockLine}
    {resources header : BlockLine} (hbefore : ∀ l ∈ before, l.isTopLevel "resources".toList = false)
    (hresources : resources.isTopLevel "resources".toList = true)
    (hsiblings : ∀ l ∈ siblings, l.isUnder 0 = true ∧ l.opensRepositories = false)
    (hheader : header.opensRepositories = true) (hmargin : 0 < header.indent)
    (hitems : ∀ l ∈ items, l.isUnder header.indent = true)
    (hafter : ∀ l ∈ after.head?, l.isUnder header.indent = false) :
    repositoryBlock (before ++ resources :: ((siblings ++ header :: items) ++ after)) = items := by
  have hunder : ∀ l ∈ siblings ++ header :: items, l.isUnder 0 = true := by
    refine List.forall_mem_append.2 ⟨fun l hl => (hsiblings l hl).1,
      List.forall_mem_cons.2 ⟨?_, fun l hl => ?_⟩⟩
    · simp [BlockLine.isUnder, hmargin]
    · exact BlockLine.isUnder_zero hmargin (hitems l hl)
  -- the next line ends the list, whether or not it still belongs to the key `resources`
  have hend : (after.takeWhile (·.isUnder 0)).takeWhile (·.isUnder header.indent) = [] := by
    cases after with
    | nil => rfl
    | cons l after =>
      rw [List.takeWhile_cons]
      split
      · rw [List.takeWhile_cons_of_neg (by simp [hafter l rfl])]
      · rfl
  rw [repositoryBlock, topLevelBlock_append hbefore hresources hunder, List.append_assoc,
    List.cons_append, List.dropWhile_append_of_pos fun l hl => by simp [(hsiblings l hl).2],
    List.dropWhile_cons_of_neg (by simp [hheader])]
  dsimp only
  rw [List.takeWhile_append_of_pos hitems, hend, List.append_nil]

/-- The entry on the line of the key. -/
def Field.entry (f : Field) : Entry :=
  ⟨f.key, f.value⟩

theorem map_entry_fieldsFrom (column : Nat) (ls : List BlockLine) :
    (fieldsFrom column ls).2.map Field.entry = ls.filterMap fun l => l.keyEntry? column := by
  induction ls with
  | nil => rfl
  | cons l ls ih =>
    rw [fieldsFrom]
    cases hentry : l.keyEntry? column with
    | none => rw [List.filterMap_cons_none hentry, ← ih]
    | some e => rw [List.filterMap_cons_some hentry, List.map_cons, ih, Field.entry]

/-- The fields of an item have the entries that its lines state. -/
theorem Item.map_entry_fields (item : Item) :
    item.fields.map Field.entry =
      (Entry.ofContent? item.content).toList ++ item.body.filterMap fun l =>
        l.keyEntry? item.keyColumn := by
  rw [Item.fields, ← map_entry_fieldsFrom]
  cases Entry.ofContent? item.content <;> rfl

/-- The value of a key is found among the entries. -/
theorem fieldValue?_eq (key : List Char) (fields : List Field) :
    fieldValue? key fields = ((fields.map Field.entry).find? (·.key = key)).map
      (unquote ·.value) := by
  rw [fieldValue?, field?, List.find?_map, Option.map_map]
  rfl

end Blocks

/-! ### Keys on one line -/

/-- The text opens like a key: with no blank, no dash and no comment. -/
def OpensKey (content : List Char) : Prop :=
  ∃ c cs, content = c :: cs ∧ isBlank c = false ∧ c ≠ '-' ∧ c ≠ '#'

section Keys

variable {column : Nat} {content front dash : List Char} {c : Char}

theorem cutComment_cons (h : c ≠ '#') (q : Quoting) (afterBlank : Bool) (cs : List Char) :
    cutComment q afterBlank (c :: cs) = c :: cutComment (q.step c) (isBlank c) cs := by
  simp [cutComment, h]

theorem stripComment_cons (h : c ≠ '#') (hc : isBlank c = false) (cs : List Char) :
    stripComment (c :: cs) = c :: trimEnd (cutComment (({} : Quoting).step c) false cs) := by
  rw [stripComment, cutComment_cons h, hc]
  exact trimEnd_append_cons [] hc _

/-- Plain text with a character behind it that is no blank stays, and the scan goes on behind it. -/
theorem stripComment_append_cons (hplain : isPlain (front ++ [c]) = true) (hc : isBlank c = false)
    (rest : List Char) :
    stripComment (front ++ c :: rest) = front ++ c :: trimEnd (cutComment {} false rest) := by
  have hfront : cutComment {} true (front ++ [c]) = front ++ [c] :=
    cutComment_of_notMem (notMem_of_isPlain hplain)
  have hblank : endsInBlank true (front ++ [c]) = false := by
    rw [endsInBlank, List.foldl_concat, hc]
  rw [stripComment, List.append_cons, cutComment_append, if_pos hfront,
    Quoting.after_of_isPlain hplain, hblank, List.append_assoc]
  exact trimEnd_append_cons front hc _

namespace OpensKey

theorem append (h : OpensKey content) (rest : List Char) : OpensKey (content ++ rest) := by
  obtain ⟨c, cs, rfl, hopens⟩ := h
  exact ⟨c, cs ++ rest, rfl, hopens⟩

/-- What is left of a text without its comment opens like the text. -/
theorem stripComment (h : OpensKey content) : OpensKey (stripComment content) := by
  obtain ⟨c, cs, rfl, hopens⟩ := h
  exact ⟨c, _, stripComment_cons hopens.2.2 hopens.1 cs, hopens⟩

/-- Plain text before a key stays before what is left of it. -/
theorem stripComment_append (h : OpensKey content) (hplain : isPlain front = true)
    (hblank : endsInBlank true front = true) :
    Template.stripComment (front ++ content) = front ++ Template.stripComment content := by
  obtain ⟨c, cs, rfl, hfirst, -, hhash⟩ := h
  have hfront : cutComment {} true front = front := cutComment_of_notMem (notMem_of_isPlain hplain)
  rw [Template.stripComment, cutComment_append, if_pos hfront, Quoting.after_of_isPlain hplain,
    hblank, cutComment_cons hhash, hfirst, trimEnd_append_cons front hfirst,
    stripComment_cons hhash hfirst]

/-- A key stands where it is written, also behind a dash, without its comment. -/
theorem standsAt (h : OpensKey content) (column : Nat) (hdash : dash = [] ∨ dash = ['-', ' ']) :
    StandsAt column (dash ++ Template.stripComment content)
      (Template.stripComment (spaces column ++ (dash ++ content))) := by
  have hends : endsInBlank true (spaces column ++ dash) = true := by
    have hspaces : endsInBlank true (spaces column) = true :=
      endsInBlank_of_blank fun c hc => by rw [eq_space_of_mem_spaces hc]; decide
    have happend : endsInBlank true (spaces column ++ dash) =
        endsInBlank (endsInBlank true (spaces column)) dash :=
      List.foldl_append
    rw [happend, hspaces]
    rcases hdash with rfl | rfl <;> decide
  have hplain : isPlain (spaces column ++ dash) = true := by
    rw [isPlain_append, isPlain_spaces]
    rcases hdash with rfl | rfl <;> decide
  have hline : Template.stripComment (spaces column ++ (dash ++ content)) =
      spaces column ++ (dash ++ Template.stripComment content) := by
    rw [← List.append_assoc, h.stripComment_append hplain hends, List.append_assoc]
  obtain ⟨c, cs, hleft, hblank, -⟩ := h.stripComment
  have hhead : ∀ d ∈ (dash ++ Template.stripComment content).head?, isIndent d = false := by
    rcases hdash with rfl | rfl
    · refine forall_mem_of_eq_some (c := c) (by rw [hleft]; rfl)
        (Bool.eq_false_iff.2 fun hindent => ?_)
      rw [isBlank_of_isIndent hindent] at hblank
      cases hblank
    · exact forall_mem_of_eq_some (c := '-') rfl (by decide)
  refine ⟨stripComment_stripComment _, ?_, ?_, by simp [hleft]⟩
  · rw [hline, indentOf_spaces_append column hhead]
  · rw [hline, dropWhile_spaces_append column hhead]

theorem not_isDash (h : OpensKey content) : isDash content = false := by
  obtain ⟨c, cs, rfl, -, hdash, -⟩ := h
  rw [isDash]
  exact fun rest hrest => hdash (List.cons.inj hrest).1

end OpensKey

end Keys

/-! ### Repositories and how they are written -/

/-- Another key on one line of an item, with whatever value and comment: it is not one of the two
that declare a repository. -/
structure IsOtherKey (content : List Char) : Prop where
  /-- It opens like a key. -/
  opens : OpensKey content
  /-- It has no line breaks. -/
  oneLine : IsOneLine content
  /-- It states neither of the two keys. -/
  other : ∀ e ∈ Entry.ofContent? (stripComment content), e.key ≠ "repository".toList ∧
    e.key ≠ "name".toList

/-- A key of an item that declares a repository. -/
inductive RepositoryKey where
  /-- The key of the alias. -/
  | repository
  /-- The key of the name. -/
  | name
  /-- Another key. -/
  | other (content : { content : List Char // IsOtherKey content })

/-- A repository with the keys of its item in the order in which they are written. -/
structure WrittenRepository where
  /-- The alias. -/
  aliasName : LineText
  /-- The name. -/
  name : LineText
  /-- The key behind the dash. -/
  first : RepositoryKey
  /-- The keys on the lines below. -/
  others : List RepositoryKey
  /-- There is an alias. -/
  aliasName_ne : aliasName.1 ≠ ""
  /-- The alias is written. -/
  repository_mem : .repository ∈ first :: others
  /-- The name is written. -/
  name_mem : .name ∈ first :: others

/-- A word with a colon is an entry with this key, whatever value and comment stand behind it. -/
theorem key_of_ofContent?_stripComment {key rest : List Char} (hne : key ≠ [])
    (hword : ∀ c ∈ key, isAsciiWord c = true) (hrest : rest.head?.all isIndent = true) {e : Entry}
    (h : Entry.ofContent? (stripComment (key ++ ':' :: rest)) = some e) : e.key = key := by
  have hplain : isPlain (key ++ [':']) = true := by
    rw [isPlain_append, isPlain_of_word hword]
    rfl
  have hcut : (cutComment {} false rest).head?.all isIndent = true := by
    cases rest with
    | nil => rfl
    | cons c rest =>
      have hhash : c ≠ '#' := by
        rintro rfl
        cases hrest
      rw [cutComment_cons hhash]
      exact hrest
  have hlast : ∀ c ∈ (':' :: trimEnd (cutComment {} false rest)).getLast?, isBlank c = false := by
    rw [List.getLast?_cons]
    cases hd : (trimEnd (cutComment {} false rest)).getLast? with
    | none => exact forall_mem_of_eq_some (c := ':') rfl (by decide)
    | some d => exact forall_mem_of_eq_some (c := d) rfl (getLast?_trimEnd _ d hd)
  rw [stripComment_append_cons hplain (by decide),
    ofContent?_of_word hne hword (head?_all_trimEnd hcut) hlast] at h
  rw [← Option.some.inj h]

/-- A word with a colon is another key, whatever stands behind it, unless it is one of the two. -/
theorem IsOtherKey.of_word {key rest : List Char} (hne : key ≠ [])
    (hword : ∀ c ∈ key, isAsciiWord c = true) (hrest : rest.head?.all isIndent = true)
    (honeLine : IsOneLine rest) (hother : key ≠ "repository".toList ∧ key ≠ "name".toList) :
    IsOtherKey (key ++ ':' :: rest) := by
  have hopens : ∀ ds, OpensKey (key ++ ds) := by
    obtain ⟨c, cs, rfl⟩ := List.exists_cons_of_ne_nil hne
    have hc : isAsciiWord c = true := hword c (by simp)
    exact OpensKey.append ⟨c, cs, rfl, not_blank_of_isAsciiWord hc,
      ne_of_isAsciiWord hc (by decide),
      ne_of_isAsciiWord hc (by decide)⟩
  refine ⟨hopens _, isOneLine_append.2 ⟨isOneLine_of_word hword, ?_⟩, fun e he => ?_⟩
  · exact isOneLine_append.2 ⟨show IsOneLine [':'] by decide, honeLine⟩
  · rwa [key_of_ofContent?_stripComment hne hword hrest he]

namespace WrittenRepository

variable (e : WrittenRepository)

/-- What is written for a key. -/
def content : RepositoryKey → List Char
  | .repository => "repository: ".toList ++ quoted e.aliasName.1.toList
  | .name => "name: ".toList ++ quoted e.name.1.toList
  | .other content => content.1

/-- The keys in their order. -/
def keys : List RepositoryKey :=
  e.first :: e.others

/-- The lines of the item, with the dash in the column. -/
def lines (column : Nat) : List (List Char) :=
  (spaces column ++ (['-', ' '] ++ e.content e.first)) ::
    e.others.map fun key => spaces (column + 2) ++ ([] ++ e.content key)

/-- The short name that is meant: the last piece of the name between slashes, without blanks around
it. An item in which it is empty has none. -/
def shortName? : Option String :=
  ((splitOn '/' e.name.1.toList).getLast?.map trim).bind fun piece =>
    if piece.isEmpty then none else some (String.ofList piece)

/-- The entry that a key states. -/
def entryOf? : RepositoryKey → Option Entry
  | .repository => some ⟨"repository".toList, quoted e.aliasName.1.toList⟩
  | .name => some ⟨"name".toList, quoted e.name.1.toList⟩
  | .other content => Entry.ofContent? (stripComment content.1)

theorem opensKey_content (key : RepositoryKey) : OpensKey (e.content key) := by
  cases key with
  | repository => exact OpensKey.append ⟨'r', _, rfl, by decide⟩ _
  | name => exact OpensKey.append ⟨'n', _, rfl, by decide⟩ _
  | other content => exact content.2.opens

theorem isOneLine_content (key : RepositoryKey) : IsOneLine (e.content key) := by
  cases key with
  | repository => exact isOneLine_append.2 ⟨by decide, isOneLine_quoted e.aliasName.2⟩
  | name => exact isOneLine_append.2 ⟨by decide, isOneLine_quoted e.name.2⟩
  | other content => exact content.2.oneLine

theorem ofContent?_content (key : RepositoryKey) :
    Entry.ofContent? (stripComment (e.content key)) = e.entryOf? key := by
  have hquoted : ∀ {key : List Char} (value : List Char), key ≠ [] →
      (∀ c ∈ key, isAsciiWord c = true) →
      Entry.ofContent? (stripComment (key ++ [':', ' '] ++ quoted value)) =
        some ⟨key, quoted value⟩ := by
    intro key value hne hword
    have hplain : isPlain (key ++ [':', ' ']) = true := by
      rw [isPlain_append, isPlain_of_word hword]
      rfl
    rw [stripComment_quoted hplain, List.append_assoc]
    exact ofContent?_quoted hne hword value
  cases key with
  | repository => exact @hquoted "repository".toList _ (by decide) (List.all_eq_true.1 (by decide))
  | name => exact @hquoted "name".toList _ (by decide) (List.all_eq_true.1 (by decide))
  | other content => rfl

theorem isOneLine_of_mem_lines (column : Nat) : ∀ line ∈ e.lines column, IsOneLine line := by
  have hline : ∀ n dash key, dash = [] ∨ dash = ['-', ' '] →
      IsOneLine (spaces n ++ (dash ++ e.content key)) := by
    intro n dash key hdash
    refine isOneLine_append.2 ⟨isOneLine_spaces n, isOneLine_append.2 ⟨?_, e.isOneLine_content key⟩⟩
    rcases hdash with rfl | rfl <;> decide
  exact List.forall_mem_cons.2 ⟨hline _ _ _ (.inr rfl), List.forall_mem_map.2 fun key _ =>
    hline _ _ key (.inl rfl)⟩

/-- The line with the dash, as it is read. -/
def opening (column : Nat) : BlockLine :=
  ⟨0, stripComment (spaces column ++ (['-', ' '] ++ e.content e.first))⟩

/-- The lines below it, as they are read. -/
def body (column : Nat) : List BlockLine :=
  e.others.map fun key => ⟨0, stripComment (spaces (column + 2) ++ ([] ++ e.content key))⟩

theorem standsAt_first (column : Nat) :
    StandsAt column (['-', ' '] ++ stripComment (e.content e.first)) (e.opening column).text :=
  (e.opensKey_content e.first).standsAt column (.inr rfl)

theorem standsAt_other (column : Nat) (key : RepositoryKey) :
    StandsAt column (stripComment (e.content key))
      (stripComment (spaces column ++ ([] ++ e.content key))) :=
  (e.opensKey_content key).standsAt column (.inl rfl)

theorem carried_lines (column : Nat) :
    carried (e.lines column) = e.opening column :: e.body column := by
  have hcarries : ∀ line ∈ e.lines column, isIgnorable line = false := by
    refine List.forall_mem_cons.2 ⟨?_, List.forall_mem_map.2 fun key _ => ?_⟩
    · rw [← isIgnorable_stripComment]
      exact (e.standsAt_first column).isIgnorable_eq
    · rw [← isIgnorable_stripComment]
      exact (e.standsAt_other (column + 2) key).isIgnorable_eq
  rw [carried_of_carrying hcarries, lines, List.map_cons, List.map_map]
  rfl

theorem indent_opening (column : Nat) : (e.opening column).indent = column :=
  (e.standsAt_first column).indent

theorem indent_of_mem_body {column : Nat} {l : BlockLine} (h : l ∈ e.body column) :
    l.indent = column + 2 := by
  obtain ⟨key, -, rfl⟩ := List.mem_map.1 h
  exact (e.standsAt_other (column + 2) key).indent

/-- The lines of the item belong to a key in the column of its dash or further left. -/
theorem isUnder_of_mem {margin column : Nat} (hmargin : margin ≤ column) :
    ∀ l ∈ e.opening column :: e.body column, l.isUnder margin = true := by
  refine List.forall_mem_cons.2 ⟨?_, fun l hl => ?_⟩
  · have hdash : isDash (e.opening column).content = true := by
      rw [BlockLine.content, (e.standsAt_first column).shown]
      rfl
    rw [BlockLine.isUnder, e.indent_opening, hdash, Bool.and_true, Bool.or_eq_true,
      decide_eq_true_iff, decide_eq_true_iff]
    omega
  · have hdeeper : margin < l.indent := by
      rw [e.indent_of_mem_body hl]
      omega
    simp [BlockLine.isUnder, hdeeper]

/-- The item that the lines make. -/
def item (column : Nat) : Item :=
  ⟨0, true, stripComment (e.content e.first), column + 2, e.body column⟩

theorem ofLine_opening (column : Nat) :
    Item.ofLine (e.opening column) (e.body column) = e.item column := by
  have hstands := e.standsAt_first column
  obtain ⟨c, cs, hcontent, hblank, -⟩ := (e.opensKey_content e.first).stripComment
  have hdash : isDash (['-', ' '] ++ stripComment (e.content e.first)) = true := rfl
  have hafter : afterDash (['-', ' '] ++ stripComment (e.content e.first)) =
      (stripComment (e.content e.first), 2) := by
    rw [hcontent]
    exact afterDash_of_first hblank cs
  simp only [Item.ofLine, BlockLine.content, BlockLine.indent, hstands.shown, hstands.indent, hdash,
    hafter, if_true]
  rfl

theorem keyColumn_item (column : Nat) : (e.item column).keyColumn = column + 2 := by
  have hcontent : (stripComment (e.content e.first)).isEmpty = false := by
    obtain ⟨c, cs, hcontent, -⟩ := (e.opensKey_content e.first).stripComment
    rw [hcontent]
    rfl
  rw [Item.keyColumn]
  simp only [item, hcontent, leastIndent]
  cases hleast : ((e.body column).map BlockLine.indent).min? with
  | none => rfl
  | some least =>
    obtain ⟨l, hl, rfl⟩ := List.mem_map.1 (List.min?_mem hleast)
    rw [e.indent_of_mem_body hl]
    simp

/-- The entries of the item are those that its keys state. -/
theorem map_entry_fields_item (column : Nat) :
    (e.item column).fields.map Field.entry = e.keys.filterMap e.entryOf? := by
  have hkey : ∀ key, BlockLine.keyEntry? (column + 2)
      ⟨0, stripComment (spaces (column + 2) ++ ([] ++ e.content key))⟩ = e.entryOf? key := by
    intro key
    have hstands := e.standsAt_other (column + 2) key
    have hdash := (e.opensKey_content key).stripComment.not_isDash
    rw [← e.ofContent?_content, BlockLine.keyEntry?, BlockLine.indent, BlockLine.content,
      hstands.indent, hstands.shown, hdash]
    simp
  rw [Item.map_entry_fields, e.keyColumn_item, keys, List.filterMap_cons, item,
    e.ofContent?_content, body, List.filterMap_map]
  simp only [Function.comp_def, hkey]
  cases e.entryOf? e.first <;> rfl

/-- The value of a key that is written is read back, wherever it stands among the keys. -/
theorem fieldValue?_item (column : Nat) {key : RepositoryKey} (hmem : key ∈ e.keys)
    {text value : List Char} (hentry : e.entryOf? key = some ⟨text, quoted value⟩)
    (hsame : ∀ other e', e.entryOf? other = some e' → e'.key = text →
      e.entryOf? other = e.entryOf? key) :
    fieldValue? text (e.item column).fields = some value := by
  obtain ⟨found, hfound⟩ : ∃ found, (e.keys.filterMap e.entryOf?).find? (·.key = text) =
      some found := by
    refine Option.isSome_iff_exists.1
      (List.find?_isSome.2 ⟨_, List.mem_filterMap.2 ⟨key, hmem, hentry⟩, ?_⟩)
    exact decide_eq_true rfl
  -- the key that is found first need not be the one that is known to be written, but states the
  -- same
  obtain ⟨other, -, hother⟩ := List.mem_filterMap.1 (List.mem_of_find?_eq_some hfound)
  have hkey : found.key = text := by simpa using List.find?_some hfound
  have heq : some found = some ⟨text, quoted value⟩ := by
    rw [← hother, hsame other found hother hkey, hentry]
  rw [fieldValue?_eq, e.map_entry_fields_item, hfound, heq, Option.map_some, unquote_quoted]

/-- The item declares its alias and its short name, if it has one. -/
theorem repositoryOfItem?_item (column : Nat) :
    repositoryOfItem? (e.item column) = e.shortName?.map fun short => (e.aliasName.1, short) := by
  have halias : fieldValue? "repository".toList (e.item column).fields =
      some e.aliasName.1.toList := by
    refine e.fieldValue?_item column e.repository_mem rfl fun other e' hother hkey => ?_
    cases other with
    | repository => rfl
    | name =>
      obtain rfl := Option.some.inj hother
      exact absurd hkey (show "name".toList ≠ "repository".toList by decide)
    | other content => exact absurd hkey (content.2.other e' hother).1
  have hname : fieldValue? "name".toList (e.item column).fields = some e.name.1.toList := by
    refine e.fieldValue?_item column e.name_mem rfl fun other e' hother hkey => ?_
    cases other with
    | repository =>
      obtain rfl := Option.some.inj hother
      exact absurd hkey (show "repository".toList ≠ "name".toList by decide)
    | name => rfl
    | other content => exact absurd hkey (content.2.other e' hother).2
  have hne : e.aliasName.1.toList.isEmpty = false := by
    simpa using e.aliasName_ne
  have hdashed : (e.item column).dashed = true := rfl
  have hshort : e.shortName? =
      if (shortName e.name.1.toList).isEmpty then
        none else some (String.ofList (shortName e.name.1.toList)) := by
    rw [shortName?, getLast?_splitOn]
    rfl
  rw [repositoryOfItem?, hdashed, halias, hname, hshort]
  simp only [hne, Bool.not_true, Bool.false_eq_true, if_false, Bool.false_or, String.ofList_toList]
  split <;> rfl

end WrittenRepository

/-! ### The whole text -/

/-- A text that declares repositories, line by line. -/
structure WrittenResources where
  /-- The lines before the key `resources`. -/
  before : List (List Char)
  /-- The lines between the keys `resources` and `repositories`. -/
  siblings : List (List Char)
  /-- The column of the key `repositories`. -/
  margin : Nat
  /-- The column of the dashes. -/
  column : Nat
  /-- The repositories. -/
  entries : List WrittenRepository
  /-- The lines behind the repositories. -/
  after : List (List Char)
  /-- No line has line breaks. -/
  oneLine : ∀ line ∈ before ++ siblings ++ after, IsOneLine line
  /-- No line before states the key `resources` in the first column. -/
  before_other : ∀ l ∈ carried before, l.isTopLevel "resources".toList = false
  /-- The lines between belong to the key `resources`, and none of them opens a list of
  repositories. -/
  siblings_under : ∀ l ∈ carried siblings, l.isUnder 0 = true ∧ l.opensRepositories = false
  /-- The key `repositories` stands deeper than the key `resources`. -/
  margin_pos : 0 < margin
  /-- The dashes stand in the column of the key `repositories` or deeper. -/
  margin_le : margin ≤ column
  /-- The lines behind the repositories do not belong to them. -/
  after_outside : ∀ l ∈ (carried after).head?, l.isUnder margin = false

namespace WrittenResources

variable (w : WrittenResources)

/-- The lines of the text. -/
def lines : List (List Char) :=
  w.before ++ "resources:".toList :: ((w.siblings ++ (spaces w.margin ++ "repositories:".toList) ::
    w.entries.flatMap (·.lines w.column)) ++ w.after)

/-- The alias is meant to lead to the short name: the last of its entries that has a short name has
this one. -/
def Names (aliasName short : String) : Prop :=
  ∃ front e back, w.entries = front ++ e :: back ∧ e.aliasName.1 = aliasName ∧
    e.shortName? = some short ∧
    ∀ e' ∈ back, e'.aliasName.1 = aliasName → e'.shortName? = none

theorem isOneLine_of_mem_lines : ∀ line ∈ w.lines, IsOneLine line := by
  have hheader : IsOneLine (spaces w.margin ++ "repositories:".toList) :=
    isOneLine_append.2 ⟨isOneLine_spaces _, by decide⟩
  have hentries : ∀ line ∈ w.entries.flatMap (·.lines w.column), IsOneLine line := by
    intro line hline
    obtain ⟨e, -, hmem⟩ := List.mem_flatMap.1 hline
    exact e.isOneLine_of_mem_lines w.column line hmem
  obtain ⟨hfront, hafter⟩ := List.forall_mem_append.1 w.oneLine
  obtain ⟨hbefore, hsiblings⟩ := List.forall_mem_append.1 hfront
  refine List.forall_mem_append.2
    ⟨hbefore, List.forall_mem_cons.2 ⟨by decide, List.forall_mem_append.2 ⟨?_, hafter⟩⟩⟩
  exact List.forall_mem_append.2 ⟨hsiblings, List.forall_mem_cons.2 ⟨hheader, hentries⟩⟩

/-- The block is the lines of the repositories. -/
theorem repositoryBlock_lines {rest : List (List Char)} (hrest : ∀ line ∈ rest, line = []) :
    repositoryBlock (carried (w.lines ++ rest)) = w.entries.flatMap fun e =>
      e.opening w.column :: e.body w.column := by
  have hheader : StandsAt w.margin "repositories:".toList
      (spaces w.margin ++ "repositories:".toList) :=
    standsAt_plain w.margin (by decide) (by decide)
      (forall_mem_of_eq_some (c := 'r') rfl (by decide))
      (forall_mem_of_eq_some (c := ':') rfl (by decide))
  have hnothing : carried rest = [] := carried_of_ignorable fun line hline => by
    rw [hrest line hline]; decide
  have hresources : stripComment "resources:".toList = "resources:".toList := by decide
  have hentries : carried (w.entries.flatMap (·.lines w.column)) =
      w.entries.flatMap fun e => e.opening w.column :: e.body w.column := by
    rw [carried_flatMap]
    simp only [WrittenRepository.carried_lines]
  have hlines : carried (w.lines ++ rest) = carried w.before ++ ⟨0, "resources:".toList⟩ ::
      ((carried w.siblings ++ ⟨0, spaces w.margin ++ "repositories:".toList⟩ ::
        w.entries.flatMap fun e => e.opening w.column :: e.body w.column) ++ carried w.after) := by
    rw [carried_append, hnothing, List.append_nil, lines, carried_append, carried_cons (by decide),
      hresources, carried_append, carried_append, carried_cons hheader.isIgnorable_eq,
      hheader.text, hentries]
  have hindent : BlockLine.indent ⟨0, spaces w.margin ++ "repositories:".toList⟩ =
      w.margin := hheader.indent
  rw [hlines]
  refine repositoryBlock_append w.before_other (by decide) w.siblings_under ?_ ?_ ?_ ?_
  · rw [BlockLine.opensRepositories, BlockLine.content, hheader.shown]
    decide
  · rw [hindent]
    exact w.margin_pos
  · intro l hl
    obtain ⟨e, -, hmem⟩ := List.mem_flatMap.1 hl
    rw [hindent]
    exact e.isUnder_of_mem w.margin_le l hmem
  · rw [hindent]
    exact w.after_outside

/-- The aliases of the text are those of the repositories that have a short name. -/
theorem repositoryAliases_textOf (ended : Bool) :
    repositoryAliases (textOf w.lines ended) =
      .ofList (w.entries.filterMap fun e => e.shortName?.map fun short =>
        (e.aliasName.1, short)) := by
  obtain ⟨rest, hrest, hlines⟩ := exists_linesOf_textOf w.isOneLine_of_mem_lines ended
  rw [repositoryAliases_eq, hlines, w.repositoryBlock_lines hrest,
    itemsOf_flatMap (fun e => e.indent_opening w.column) fun e l hl => by
    rw [e.indent_of_mem_body hl]; omega, List.filterMap_map]
  congr 1
  refine List.filterMap_congr fun e _ => ?_
  rw [Function.comp_apply, e.ofLine_opening, e.repositoryOfItem?_item]

/-- Reading gives back for each alias the short name that it is meant to lead to, and nothing
else. -/
theorem find?_repositoryAliases_iff (ended : Bool) (aliasName short : String) :
    (repositoryAliases (textOf w.lines ended)).find? aliasName = some short ↔
      w.Names aliasName short := by
  let declared := fun e : WrittenRepository => e.shortName?.map fun short => (e.aliasName.1, short)
  have hdeclares : ∀ e, (declared e).any (fun p => compare aliasName p.1 == .eq) = true ↔
      e.aliasName.1 = aliasName ∧ e.shortName? ≠ none := by
    intro e
    cases h : e.shortName? with
    | none => simp [declared, h]
    | some short => simpa [declared, h] using eq_comm
  rw [repositoryAliases_textOf, SortedMap.find?_ofList, ← List.filterMap_reverse,
    List.find?_filterMap, Option.map_eq_some_iff]
  constructor
  · rintro ⟨p, hp, rfl⟩
    obtain ⟨e, he, hdeclared⟩ := Option.bind_eq_some_iff.1 hp
    obtain ⟨hlast, back, front, hsplit, hback⟩ := List.find?_eq_some_iff_append.1 he
    obtain ⟨short, hshort, rfl⟩ := Option.map_eq_some_iff.1 hdeclared
    refine ⟨front.reverse, e, back.reverse, ?_, ((hdeclares e).1 hlast).1, hshort,
      fun e' he' halias => ?_⟩
    · rw [← List.reverse_reverse w.entries, hsplit]
      simp
    · by_contra hsome
      have hother := hback e' (List.mem_reverse.1 he')
      rw [(hdeclares e').2 ⟨halias, hsome⟩] at hother
      cases hother
  · rintro ⟨front, e, back, hsplit, halias, hshort, hback⟩
    refine ⟨(e.aliasName.1, short), Option.bind_eq_some_iff.2 ⟨e, ?_, ?_⟩, rfl⟩
    · refine List.find?_eq_some_iff_append.2 ⟨(hdeclares e).2 ⟨halias, by simp [hshort]⟩,
        back.reverse, front.reverse,
        by simp [hsplit], fun e' he' => ?_⟩
      rw [Bool.not_eq_true', Bool.eq_false_iff]
      exact fun hsame => ((hdeclares e').1 hsame).2
        (hback e' (List.mem_reverse.1 he') ((hdeclares e').1 hsame).1)
    · rw [hshort, Option.map_some]

end WrittenResources

end TemplateAtlas.Template
