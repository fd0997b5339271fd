import TemplateAtlas.Proofs.Template.Repositories

/-!
# What is read stands in the lines

Keys, values and names are cut out of a line, and nothing is added but where a default is made of
several lines. So the name and the type of a declared parameter stand on one line
(`oneLine_of_mem_parameters`).
-/

namespace TemplateAtlas.Template

open TemplateAtlas.Text

/-! ### Characters of one line -/

section Line

theorem dropEndWhile_subset {α : Type} (p : α → Bool) (cs : List α) : dropEndWhile p cs ⊆ cs :=
  fun _ => mem_of_mem_dropEndWhile

theorem trim_subset (cs : List Char) : trim cs ⊆ cs :=
  List.Subset.trans (dropEndWhile_subset isBlank _) (List.dropWhile_sublist isBlank).subset

theorem undouble_subset (cs : List Char) : undouble cs ⊆ cs := by
  fun_induction undouble cs with
  | case1 cs ih => exact List.cons_subset_cons _ (List.subset_cons_of_subset _ ih)
  | case2 c cs _ ih => exact List.cons_subset_cons _ ih
  | case3 => exact List.Subset.refl _

theorem unquote_subset (cs : List Char) : unquote cs ⊆ cs := by
  refine List.Subset.trans ?_ (trim_subset cs)
  rw [unquote]
  cases trim cs with
  | nil => exact List.Subset.refl _
  | cons q rest =>
    have hinner : rest.dropLast ⊆ q :: rest :=
      List.subset_cons_of_subset _ (List.dropLast_subset rest)
    dsimp only
    split
    · split
      · exact List.Subset.trans (undouble_subset _) hinner
      · exact hinner
    · exact List.Subset.refl _

theorem cutComment_subset (q : Quoting) (afterBlank : Bool) (cs : List Char) :
    cutComment q afterBlank cs ⊆ cs := by
  induction cs generalizing q afterBlank with
  | nil => exact List.Subset.refl _
  | cons c cs ih =>
    rw [cutComment]
    split
    · exact List.nil_subset _
    · exact List.cons_subset_cons c (ih _ _)

theorem stripComment_subset (line : List Char) : stripComment line ⊆ line :=
  List.Subset.trans (dropEndWhile_subset isBlank _) (cutComment_subset _ _ line)

theorem splitAtColon_subset {q : Quoting} {cs before after : List Char}
    (h : splitAtColon q cs = some (before, after)) : before ⊆ cs ∧ after ⊆ cs := by
  induction cs generalizing q before with
  | nil => cases h
  | cons c cs ih =>
    rw [splitAtColon] at h
    split at h
    · cases h
      exact ⟨List.nil_subset _, List.subset_cons_self _ _⟩
    · obtain ⟨⟨front, back⟩, hsplit, heq⟩ := Option.map_eq_some_iff.1 h
      cases heq
      obtain ⟨hfront, hback⟩ := ih hsplit
      exact ⟨List.cons_subset_cons c hfront, List.subset_cons_of_subset c hback⟩

/-- The key and the value of an entry are parts of the content. -/
theorem subset_of_ofContent? {content : List Char} {e : Entry}
    (h : Entry.ofContent? content = some e) : e.key ⊆ content ∧ e.value ⊆ content := by
  rw [Entry.ofContent?] at h
  split at h
  · cases h
  next before after hsplit =>
    dsimp only at h
    split at h
    · cases h
      obtain ⟨hbefore, hafter⟩ := splitAtColon_subset hsplit
      exact ⟨List.Subset.trans (unquote_subset _) (List.Subset.trans hbefore (trim_subset _)),
        List.Subset.trans (trim_subset _) (List.Subset.trans hafter (trim_subset _))⟩
    · cases h

end Line

/-! ### Characters of items and fields -/

section Items

/-- An item is made of lines of its block. -/
theorem subset_of_mem_itemsFrom {column : Nat} {block : List BlockLine} :
    (itemsFrom column block).1 ⊆ block ∧
      ∀ item ∈ (itemsFrom column block).2, item.body ⊆ block ∧
        ∃ l ∈ block, item.content ⊆ l.text := by
  induction block with
  | nil => exact ⟨List.Subset.refl _, List.forall_mem_nil _⟩
  | cons l block ih =>
    obtain ⟨hbody, hitems⟩ := ih
    have hlater : ∀ item ∈ (itemsFrom column block).2,
        item.body ⊆ l :: block ∧ ∃ l' ∈ l :: block, item.content ⊆ l'.text := by
      intro item hitem
      obtain ⟨hlines, l', hl', hcontent⟩ := hitems item hitem
      exact ⟨List.subset_cons_of_subset l hlines, l', List.mem_cons_of_mem l hl', hcontent⟩
    have hcontent : l.content ⊆ l.text := (List.dropWhile_sublist isIndent).subset
    rw [itemsFrom]
    by_cases hopens : l.indent ≤ column
    · simp only [hopens, if_true]
      refine ⟨List.nil_subset _, List.forall_mem_cons.2 ⟨?_, hlater⟩⟩
      rw [Item.ofLine]
      split
      · refine ⟨List.subset_cons_of_subset l hbody, l, List.mem_cons_self, ?_⟩
        exact List.Subset.trans
          ((List.dropWhile_sublist isBlank).trans (List.tail_sublist _)).subset hcontent
      · exact ⟨List.subset_cons_of_subset l hbody, l, List.mem_cons_self, hcontent⟩
    · simp only [hopens, if_false]
      exact ⟨List.cons_subset_cons l hbody, hlater⟩

theorem subset_of_mem_itemsOf {block : List BlockLine} {item : Item} (h : item ∈ itemsOf block) :
    item.body ⊆ block ∧ ∃ l ∈ block, item.content ⊆ l.text := by
  rw [itemsOf] at h
  split at h
  · cases h
  · exact subset_of_mem_itemsFrom.2 item h

variable {c : Char} {item : Item}

/-- A character that no line of an item holds is in no value of its fields. -/
theorem notMem_of_fieldValue? (hcontent : c ∉ item.content) (hbody : ∀ l ∈ item.body, c ∉ l.text)
    {key value : List Char} (h : fieldValue? key item.fields = some value) : c ∉ value := by
  rw [fieldValue?_eq, Item.map_entry_fields] at h
  obtain ⟨e, he, rfl⟩ := Option.map_eq_some_iff.1 h
  have hvalue : c ∉ e.value := by
    rcases List.mem_append.1 (List.mem_of_find?_eq_some he) with hmem | hmem
    · exact fun hc => hcontent ((subset_of_ofContent? (Option.mem_toList.1 hmem)).2 hc)
    · obtain ⟨l, hl, hentry⟩ := List.mem_filterMap.1 hmem
      rw [BlockLine.keyEntry?] at hentry
      split at hentry
      · exact fun hc => hbody l hl
          ((List.dropWhile_sublist isIndent).subset ((subset_of_ofContent? hentry).2 hc))
      · cases hentry
  exact fun hc => hvalue (unquote_subset _ hc)

theorem newline_notMem_of_mem_ofText {text : String} {l : BlockLine}
    (h : l ∈ BlockLine.ofText text) : '\n' ∉ l.text := by
  obtain ⟨⟨line, number⟩, hmem, heq⟩ := List.mem_filterMap.1 h
  dsimp only at heq
  split at heq
  · cases heq
  · cases heq
    have hline : line ∈ linesOf text := List.fst_mem_of_mem_zipIdx hmem
    exact fun hc => sep_notMem_of_mem_splitOn hline (stripComment_subset line hc)

theorem topLevelBlock_subset (key : List Char) (lines : List BlockLine) :
    topLevelBlock key lines ⊆ lines :=
  ((List.takeWhile_sublist _).trans ((List.tail_sublist _).trans (List.dropWhile_sublist _))).subset

/-- The name and the type of a declared parameter have no line breaks. -/
theorem oneLine_of_mem_parameters {text : String} {d : ParameterDeclaration}
    (h : d ∈ parameters text) : '\n' ∉ d.name.toList ∧ '\n' ∉ d.type.toList := by
  obtain ⟨item, hitem, hd⟩ := List.mem_filterMap.1 h
  obtain ⟨hlines, l, hl, hcontent⟩ := subset_of_mem_itemsOf hitem
  have hline : ∀ l ∈ topLevelBlock "parameters".toList (BlockLine.ofText text),
      '\n' ∉ l.text := fun l hl =>
    newline_notMem_of_mem_ofText (topLevelBlock_subset _ _ hl)
  have hfirst : '\n' ∉ item.content := fun hc => hline l hl (hcontent hc)
  rw [parameterOfItem?] at hd
  split at hd
  · have hvalue {key value : List Char} : fieldValue? key item.fields = some value → '\n' ∉ value :=
      notMem_of_fieldValue? hfirst fun l hl => hline l (hlines hl)
    rw [parameterOfFields?] at hd
    split at hd
    · cases hd
    next name hname =>
      dsimp only at hd
      split at hd
      · cases hd
      · cases hd
        simp only [ParameterDeclaration.declare, String.toList_ofList]
        refine ⟨hvalue hname, ?_⟩
        cases htype : (fieldValue? "type".toList item.fields).filter (!·.isEmpty) with
        | none => decide
        | some type => exact hvalue (Option.filter_eq_some_iff.1 htype).1
  · obtain ⟨e, he, rfl⟩ := Option.map_eq_some_iff.1 hd
    have hkey : '\n' ∉ e.key := fun hc => hfirst ((subset_of_ofContent? he).1 hc)
    rw [parameterOfEntry]
    split
    · exact ⟨by rwa [ParameterDeclaration.declare, String.toList_ofList],
        show '\n' ∉ "object".toList by decide⟩
    · exact ⟨by rwa [ParameterDeclaration.declare, String.toList_ofList],
        show '\n' ∉ "string".toList by decide⟩

end Items

end TemplateAtlas.Template
