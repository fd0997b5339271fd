import TemplateAtlas.Proofs.Template.Origin

/-!
# Lists and maps in brackets

A list or a map can be written on one line, in brackets or braces, with a comma and a space between
its parts. Commas are looked for in the whole text, so a part that holds one is cut there, also
inside quotes: the values of such a list are read back exactly when none of them holds a comma
(`flowItems_flowList_eq_iff`), and no value with a comma is read of any list or map
(`comma_notMem_of_mem_flowItems`, `comma_notMem_of_mem_flowEntries`). The names of a map are read in
any case (`exists_mem_flowEntries`). For the other scans of a line such a text is quiet
(`isQuiet_joined`).
-/

namespace TemplateAtlas.Template

open TemplateAtlas.Text

/-! ### Pieces with commas between them -/

/-- The pieces with a comma and a space between them. -/
def joined (pieces : List (List Char)) : List Char :=
  [',', ' '].intercalate pieces

section Joined

variable {pieces : List (List Char)}

theorem joined_cons_cons (piece next : List Char) (pieces : List (List Char)) :
    joined (piece :: next :: pieces) = piece ++ ([',', ' '] ++ joined (next :: pieces)) := by
  rw [joined, List.intercalate_cons_cons, List.append_assoc]
  rfl

/-- What holds of the pieces and of what stands between them holds of the whole, if it holds of the
parts together. -/
theorem joined_induction {holds : List Char → Prop} (nil : holds []) (comma : holds [',', ' '])
    (append : ∀ {cs ds}, holds cs → holds ds → holds (cs ++ ds))
    (h : ∀ piece ∈ pieces, holds piece) : holds (joined pieces) := by
  induction pieces with
  | nil => exact nil
  | cons piece pieces ih =>
    obtain ⟨hpiece, hpieces⟩ := List.forall_mem_cons.1 h
    cases pieces with
    | nil => simpa [joined] using hpiece
    | cons next pieces =>
      rw [joined_cons_cons]
      exact append hpiece (append comma (ih hpieces))

theorem isQuiet_joined (h : ∀ piece ∈ pieces, IsQuiet piece) : IsQuiet (joined pieces) :=
  joined_induction (isQuiet_of_isPlain rfl) (isQuiet_of_isPlain (by decide)) IsQuiet.append h

theorem isOneLine_joined (h : ∀ piece ∈ pieces, IsOneLine piece) : IsOneLine (joined pieces) :=
  joined_induction (by decide) (by decide) (fun hcs hds => isOneLine_append.2 ⟨hcs, hds⟩) h

variable {β : Type} {f : List Char → Option β}

/-- A space in front makes no difference, if it makes none to a piece. -/
theorem filterMap_splitOn_cons_space (hf : ∀ cs, f (' ' :: cs) = f cs) (cs : List Char) :
    (splitOn ',' (' ' :: cs)).filterMap f = (splitOn ',' cs).filterMap f := by
  obtain ⟨first, rest, hsplit⟩ := List.exists_cons_of_ne_nil (splitOn_ne_nil ',' cs)
  rw [splitOn, if_neg (by decide), hsplit, List.modifyHead_cons, List.filterMap_cons,
    List.filterMap_cons, hf]

/-- A space at the end makes no difference, if it makes none to a piece. -/
theorem filterMap_splitOn_append_space (hf : ∀ cs, f (cs ++ [' ']) = f cs) (cs : List Char) :
    (splitOn ',' (cs ++ [' '])).filterMap f = (splitOn ',' cs).filterMap f := by
  have hlast : ∀ last : List Char, ',' ∉ last →
      (splitOn ',' (last ++ [' '])).filterMap f = (splitOn ',' last).filterMap f := by
    intro last hlast
    rw [splitOn_of_notMem hlast, splitOn_of_notMem (by simp [hlast]), List.filterMap_cons,
      List.filterMap_cons, hf]
  cases hparts : splitLast? ',' cs with
  | none => exact hlast cs (splitLast?_eq_none_iff.1 hparts)
  | some parts =>
    obtain ⟨before, last⟩ := parts
    obtain ⟨rfl, hcomma⟩ := splitLast?_eq_some_iff.1 hparts
    rw [List.append_assoc, List.cons_append, splitOn_append_sep, splitOn_append_sep,
      List.filterMap_append, List.filterMap_append, hlast last hcomma]

/-- What is read between commas is read of each piece for itself. -/
theorem filterMap_splitOn_joined (hnil : f [] = none) (hf : ∀ cs, f (' ' :: cs) = f cs)
    (pieces : List (List Char)) :
    (splitOn ',' (joined pieces)).filterMap f = pieces.flatMap fun piece =>
      (splitOn ',' piece).filterMap f := by
  induction pieces with
  | nil => simp [joined, splitOn, hnil]
  | cons piece pieces ih =>
    cases pieces with
    | nil => simp [joined]
    | cons next pieces =>
      rw [joined_cons_cons, List.cons_append, splitOn_append_sep, List.filterMap_append,
        List.singleton_append, filterMap_splitOn_cons_space hf, ih]
      rfl

end Joined

theorem unquote_append_space (cs : List Char) : unquote (cs ++ [' ']) = unquote cs := by
  rw [unquote, unquote, trim_append cs (List.forall_mem_singleton.2 (by decide))]

theorem comma_notMem_quoted {cs : List Char} (h : ',' ∉ cs) : ',' ∉ quoted cs := by
  rw [quoted, List.cons_append, List.mem_cons, List.mem_append, List.mem_singleton, not_or, not_or]
  exact ⟨by decide, fun hcomma => h (mem_of_mem_doubled hcomma), by decide⟩

/-! ### Lists -/

/-- The strings in quotes, as a list in brackets. -/
def flowList (values : List (List Char)) : List Char :=
  '[' :: (joined (values.map quoted) ++ [']'])

/-- The item that is read of a text between commas. -/
def itemOf? (piece : List Char) : Option (List Char) :=
  Option.guard (!·.isEmpty) (unquote piece)

section Lists

variable {values : List (List Char)}

/-- A list of strings in quotes begins and ends with a quote, if there are any. -/
theorem ends_joined_quoted (values : List (List Char)) :
    (∀ c ∈ (joined (values.map quoted)).head?, c = '\x27') ∧
      ∀ c ∈ (joined (values.map quoted)).getLast?, c = '\x27' := by
  induction values with
  | nil => exact ⟨by simp [joined], by simp [joined]⟩
  | cons value values ih =>
    cases values with
    | nil =>
      have hsingle : joined ([value].map quoted) = quoted value := by simp [joined]
      rw [hsingle, getLast?_quoted]
      exact ⟨fun c hc => (Option.some.inj hc).symm, fun c hc => (Option.some.inj hc).symm⟩
    | cons next values =>
      rw [List.map_cons, List.map_cons, joined_cons_cons, ← List.map_cons]
      refine ⟨fun c hc => (Option.some.inj hc).symm, fun c hc => ih.2 c ?_⟩
      rw [← List.append_assoc, List.getLast?_append_of_ne_nil] at hc
      · exact hc
      · cases values <;> simp [joined, quoted]

theorem getLast?_flowList (values : List (List Char)) : (flowList values).getLast? = some ']' := by
  rw [flowList, ← List.cons_append, List.getLast?_concat]

theorem trim_flowList (values : List (List Char)) : trim (flowList values) = flowList values :=
  trim_of_ends (forall_mem_of_eq_some (c := '[') rfl (by decide))
    (forall_mem_of_eq_some (getLast?_flowList values) (by decide))

theorem isQuiet_flowList (values : List (List Char)) : IsQuiet (flowList values) := by
  have hvalues : IsQuiet (joined (values.map quoted)) :=
    isQuiet_joined (List.forall_mem_map.2 fun value _ => isQuiet_quoted value)
  have hopen : IsQuiet ['['] := isQuiet_of_isPlain (by decide)
  exact hopen.append (hvalues.append (isQuiet_of_isPlain (by decide)))

theorem isOneLine_flowList (h : ∀ value ∈ values, IsOneLine value) :
    IsOneLine (flowList values) := by
  have hvalues : IsOneLine (joined (values.map quoted)) :=
    isOneLine_joined (List.forall_mem_map.2 fun value hvalue => isOneLine_quoted (h value hvalue))
  have hopen : IsOneLine ['['] := by decide
  exact isOneLine_append.2 ⟨hopen, isOneLine_append.2 ⟨hvalues, by decide⟩⟩

/-- The items are read of each string for itself. -/
theorem flowItems_flowList (values : List (List Char)) :
    flowItems (flowList values) = values.flatMap fun value =>
      (splitOn ',' (quoted value)).filterMap itemOf? := by
  obtain ⟨hfirst, hlast⟩ := ends_joined_quoted values
  have hopen : (flowList values).dropWhile (· = '[') = joined (values.map quoted) ++ [']'] := by
    rw [flowList, List.dropWhile_cons_of_pos (by decide)]
    cases hjoined : joined (values.map quoted) with
    | nil => rfl
    | cons c cs =>
      have hc : c = '\x27' := hfirst c (by rw [hjoined]; rfl)
      rw [hc]
      rfl
  have hclose : dropEndWhile (· = ']') (joined (values.map quoted) ++ [']']) =
      joined (values.map quoted) := by
    rw [dropEndWhile_append _ (List.forall_mem_singleton.2 (by decide))]
    cases hd : (joined (values.map quoted)).getLast? with
    | none =>
      rw [List.getLast?_eq_none_iff.1 hd]
      rfl
    | some d => exact dropEndWhile_of_getLast hd (by rw [hlast d hd]; decide)
  have hitems : ∀ pieces : List (List Char),
      (pieces.map unquote).filter (!·.isEmpty) = pieces.filterMap itemOf? := by
    intro pieces
    rw [← List.filterMap_eq_filter, List.filterMap_map]
    rfl
  rw [flowItems, trim_flowList, hopen, hclose, hitems,
    filterMap_splitOn_joined (by decide) (fun cs => by rw [itemOf?, unquote_cons_space, itemOf?]),
    List.flatMap_map]

/-- An item never holds a comma, quoted or not. -/
theorem comma_notMem_of_mem_flowItems {value item : List Char} (h : item ∈ flowItems value) :
    ',' ∉ item := by
  obtain ⟨piece, hpiece, rfl⟩ := List.mem_map.1 (List.mem_filter.1 h).1
  exact fun hcomma => sep_notMem_of_mem_splitOn hpiece (unquote_subset piece hcomma)

/-- The strings of a list are read back, if and only if none of them holds a comma. -/
theorem flowItems_flowList_eq_iff (hne : ∀ value ∈ values, value ≠ []) :
    flowItems (flowList values) = values ↔ ∀ value ∈ values, ',' ∉ value := by
  constructor
  · intro h value hvalue
    rw [← h] at hvalue
    exact comma_notMem_of_mem_flowItems hvalue
  · intro h
    have hitem : ∀ value ∈ values, (splitOn ',' (quoted value)).filterMap itemOf? = [value] := by
      intro value hvalue
      have hsome : itemOf? (quoted value) = some value := by
        rw [itemOf?, unquote_quoted]
        simp [Option.guard, hne value hvalue]
      rw [splitOn_of_notMem (comma_notMem_quoted (h value hvalue)), List.filterMap_cons, hsome,
        List.filterMap_nil]
    rw [flowItems_flowList, List.flatMap_congr hitem, List.flatMap_singleton']

end Lists

/-! ### Maps -/

/-- A name with a string for it. -/
structure NamedText where
  /-- The name. -/
  name : String
  /-- The string. -/
  value : LineText
  /-- The name is an identifier. -/
  isIdentifier : isIdentifier name.toList = true

/-- The entry of a line or of a map in braces, with the string in quotes. -/
def NamedText.content (a : NamedText) : List Char :=
  a.name.toList ++ ':' :: ' ' :: quoted a.value.1.toList

/-- The entries as a map in braces. -/
def flowMap (entries : List NamedText) : List Char :=
  '\x7b' :: ' ' :: (joined (entries.map NamedText.content) ++ [' ', '\x7d'])

/-- The entry that is read of a text between commas. -/
def entryOf? (piece : List Char) : Option Entry :=
  match splitFirst? ':' piece with
  | none => none
  | some (k, v) => if (unquote k).isEmpty then none else some ⟨unquote k, unquote v⟩

section Maps

variable {entries : List NamedText}

theorem entryOf?_cons_space (cs : List Char) : entryOf? (' ' :: cs) = entryOf? cs := by
  rw [entryOf?, entryOf?, splitFirst?, if_neg (by decide)]
  cases splitFirst? ':' cs with
  | none => rfl
  | some parts =>
    obtain ⟨k, v⟩ := parts
    simp only [Option.map_some, unquote_cons_space]

theorem entryOf?_append_space (cs : List Char) : entryOf? (cs ++ [' ']) = entryOf? cs := by
  have hsplit : splitFirst? ':' (cs ++ [' ']) = (splitFirst? ':' cs).map fun parts =>
      (parts.1, parts.2 ++ [' ']) := by
    induction cs with
    | nil => rfl
    | cons c cs ih =>
      rw [List.cons_append, splitFirst?, splitFirst?, ih]
      split
      · rfl
      · rw [Option.map_map, Option.map_map]
        rfl
  rw [entryOf?, entryOf?, hsplit]
  cases splitFirst? ':' cs with
  | none => rfl
  | some parts =>
    obtain ⟨k, v⟩ := parts
    simp only [Option.map_some, unquote_append_space]

theorem getLast?_flowMap (entries : List NamedText) : (flowMap entries).getLast? = some '\x7d' := by
  simp [flowMap, List.getLast?_cons]

theorem trim_flowMap (entries : List NamedText) : trim (flowMap entries) = flowMap entries :=
  trim_of_ends (forall_mem_of_eq_some (c := '\x7b') rfl (by decide))
    (forall_mem_of_eq_some (getLast?_flowMap entries) (by decide))

theorem NamedText.isPlain_name (a : NamedText) : isPlain a.name.toList = true :=
  isPlain_of_word (isAsciiWord_of_isIdentifier a.isIdentifier)

theorem isQuiet_flowMap (entries : List NamedText) : IsQuiet (flowMap entries) := by
  have hcontent : ∀ a : NamedText, IsQuiet a.content := fun a =>
    (isQuiet_of_isPlain a.isPlain_name).append
      (isQuiet_colon.append (isQuiet_quoted a.value.1.toList))
  have hentries : IsQuiet (joined (entries.map NamedText.content)) :=
    isQuiet_joined (List.forall_mem_map.2 fun a _ => hcontent a)
  have hopen : IsQuiet ['\x7b', ' '] := isQuiet_of_isPlain (by decide)
  exact hopen.append (hentries.append (isQuiet_of_isPlain (by decide)))

/-- The entries are read of each name and its string for themselves. -/
theorem flowEntries_flowMap (entries : List NamedText) :
    flowEntries (flowMap entries) = entries.flatMap fun a =>
      (splitOn ',' a.content).filterMap entryOf? := by
  have hopen : (flowMap entries).dropWhile (· = '\x7b') =
      ' ' :: (joined (entries.map NamedText.content) ++ [' ', '\x7d']) := rfl
  have hclose : dropEndWhile (· = '\x7d')
      (' ' :: (joined (entries.map NamedText.content) ++ [' ', '\x7d'])) =
      ' ' :: (joined (entries.map NamedText.content) ++ [' ']) := by
    rw [← List.cons_append, dropEndWhile_append_cons _ (by decide)]
    rfl
  have hread : flowEntries (flowMap entries) =
      (splitOn ',' (' ' :: (joined (entries.map NamedText.content) ++ [' ']))).filterMap
        entryOf? := by
    rw [flowEntries, trim_flowMap, hopen, hclose]
    rfl
  rw [hread, filterMap_splitOn_cons_space entryOf?_cons_space,
    filterMap_splitOn_append_space entryOf?_append_space,
    filterMap_splitOn_joined rfl entryOf?_cons_space, List.flatMap_map]

/-- The first colon of a piece separates the name. -/
theorem NamedText.entryOf?_eq (a : NamedText) (rest : List Char) :
    entryOf? (a.name.toList ++ ':' :: rest) = some ⟨a.name.toList, unquote rest⟩ := by
  have hword := isAsciiWord_of_isIdentifier a.isIdentifier
  have hne := ne_nil_of_isIdentifier a.isIdentifier
  have hcolon : ':' ∉ a.name.toList := fun hmem => absurd (hword _ hmem) (by decide)
  rw [entryOf?, splitFirst?_eq_some_iff.2 ⟨rfl, hcolon⟩]
  simp [unquote_of_word hne hword, hne]

theorem NamedText.comma_notMem_name (a : NamedText) : ',' ∉ a.name.toList :=
  fun hmem => absurd (isAsciiWord_of_isIdentifier a.isIdentifier _ hmem) (by decide)

/-- Strings without commas are read back. -/
theorem flowEntries_of_notMem (h : ∀ a ∈ entries, ',' ∉ a.value.1.toList) :
    flowEntries (flowMap entries) = entries.map fun a => ⟨a.name.toList, a.value.1.toList⟩ := by
  rw [flowEntries_flowMap, List.map_eq_flatMap]
  refine List.flatMap_congr fun a ha => ?_
  have hcomma : ',' ∉ a.content := by
    rw [NamedText.content, List.mem_append, List.mem_cons, List.mem_cons, not_or, not_or, not_or]
    exact ⟨a.comma_notMem_name, by decide, by decide, comma_notMem_quoted (h a ha)⟩
  rw [splitOn_of_notMem hcomma, NamedText.content, List.filterMap_cons, a.entryOf?_eq,
    unquote_cons_space, unquote_quoted, List.filterMap_nil]

/-- Every name is read, whatever is left of its string. -/
theorem exists_mem_flowEntries {a : NamedText} (h : a ∈ entries) :
    ∃ e ∈ flowEntries (flowMap entries), e.key = a.name.toList := by
  obtain ⟨first, rest, hsplit⟩ :=
    List.exists_cons_of_ne_nil (splitOn_ne_nil ',' (quoted a.value.1.toList))
  have hfront : ',' ∉ a.name.toList ++ [':', ' '] := by simp [a.comma_notMem_name]
  have hpieces : splitOn ',' a.content = (a.name.toList ++ ':' :: ' ' :: first) :: rest := by
    have := splitOn_append_of_notMem hfront (quoted a.value.1.toList)
    rwa [List.append_assoc, hsplit, List.modifyHead_cons, List.append_assoc] at this
  rw [flowEntries_flowMap]
  refine ⟨⟨a.name.toList, unquote (' ' :: first)⟩, List.mem_flatMap.2 ⟨a, h, ?_⟩, rfl⟩
  rw [hpieces, List.filterMap_cons, a.entryOf?_eq]
  exact List.mem_cons_self

/-- The value of an entry never holds a comma, quoted or not. -/
theorem comma_notMem_of_mem_flowEntries {value : List Char} {e : Entry}
    (h : e ∈ flowEntries value) : ',' ∉ e.value := by
  obtain ⟨piece, hpiece, he⟩ := List.mem_filterMap.1 h
  have hcomma : ',' ∉ piece := sep_notMem_of_mem_splitOn hpiece
  split at he
  · cases he
  next k v hsplit =>
    obtain ⟨rfl, -⟩ := splitFirst?_eq_some_iff.1 hsplit
    split at he
    · cases he
    · cases he
      exact fun hmem =>
        hcomma (List.mem_append_right _ (List.mem_cons_of_mem _ (unquote_subset v hmem)))

end Maps

end TemplateAtlas.Template
