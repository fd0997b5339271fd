import TemplateAtlas.Graph.Outgoing
import TemplateAtlas.Index.Snapshot
import TemplateAtlas.Proofs.Inquiry
import TemplateAtlas.Proofs.Text.Blank

/-!
# What a file refers to

The references of a file are found from its own text and the root of its repository. They lead to
paths in normal form, and where they lead does not depend on what exists (`indexReferences_congr`)
or on how the file is spelled (`outgoing_congr`).
-/

namespace TemplateAtlas

open Inquiry TemplateAtlas.Template TemplateAtlas.Text

variable {view : View} {file : Path} {texts roots : Path → Prop}

/-! ### Aliases -/

/-- A reference with an alias has a last at sign, and behind it the alias. -/
theorem splitAlias_snd_eq_some_iff {raw name : String} :
    (splitAlias raw).2 = some name ↔
      ∃ path after, splitLast? '@' raw.toList = some (path, after) ∧
        String.ofList (trim after) = name := by
  rw [splitAlias]
  cases splitLast? '@' raw.toList with
  | none => simp
  | some parts =>
    obtain ⟨path, after⟩ := parts
    simp

/-- A reference has the alias that it has between its blanks. -/
theorem splitAlias_of_trim {raw name : String}
    (h : (splitAlias (String.ofList (trim raw.toList))).2 = some name) :
    (splitAlias raw).2 = some name := by
  -- the blanks stand in front of the path and behind the alias, where they are cut off
  obtain ⟨path, after, hsplit, hname⟩ := splitAlias_snd_eq_some_iff.1 h
  rw [String.toList_ofList] at hsplit
  obtain ⟨front, back, -, hback, hlist⟩ := exists_eq_append_trim_append raw.toList
  have hat : '@' ∉ back := fun hmem => absurd (hback _ hmem) (by decide)
  refine splitAlias_snd_eq_some_iff.2 ⟨front ++ path, after ++ back, ?_, ?_⟩
  · rw [hlist, splitLast?_append_left (splitLast?_append_right hsplit hat)]
  · rw [trim_append after hback, hname]

theorem foreignAlias?_of_trim {raw name : String}
    (h : (splitAlias (String.ofList (trim raw.toList))).2.filter (· != selfAlias) = some name) :
    foreignAlias? raw = some name := by
  obtain ⟨hname, hforeign⟩ := Option.filter_eq_some_iff.1 h
  rw [foreignAlias?, splitAlias_of_trim hname, Option.filter_some, if_pos hforeign]

/-! ### Resolution -/

theorem asks_resolveLocal (h : roots file) (path : List Char) :
    (resolveLocal path file).Asks texts roots := by
  unfold resolveLocal
  split
  · exact Asks.bind (asks_root_iff.2 h) fun root => asks_pure _
  · exact asks_pure _

theorem asks_resolveForeign (h : roots file) (path : List Char) (shortName : String) :
    (resolveForeign path shortName file).Asks texts roots :=
  Asks.bind (asks_root_iff.2 h) fun _ => asks_pure _

/-- What resolving a reference comes to, in any file: nothing, a path of the same repository, its
alias of another one if that is not declared, or else a path of the other repository. -/
theorem resolve_cases (raw : String) (aliases : AliasTable) :
    (∀ file, resolve raw file aliases = pure none) ∨
    (∃ path, ∀ file,
      resolve raw file aliases = do return some (.path (← resolveLocal path file) none)) ∨
    (∃ name, foreignAlias? raw = some name ∧ ∀ file, resolve raw file aliases =
      pure (some (.unknownAlias name))) ∨
    (∃ path shortName, foreignAlias? raw ≠ none ∧ ∀ file, resolve raw file aliases = do
      return some (.path (← resolveForeign path shortName file) (some shortName))) := by
  by_cases hempty : (trim raw.toList).isEmpty = true
  · refine .inl fun file => ?_
    simp only [resolve, hempty, if_true]
  · simp only [resolve, hempty, Bool.false_eq_true, if_false]
    cases halias : (splitAlias (String.ofList (trim raw.toList))).2.filter (· != selfAlias) with
    | none => exact .inr (.inl ⟨_, fun file => rfl⟩)
    | some name =>
      have hforeign := foreignAlias?_of_trim halias
      dsimp only
      cases aliases.find? name with
      | none => exact .inr (.inr (.inl ⟨name, hforeign, fun file => rfl⟩))
      | some shortName =>
        exact .inr (.inr (.inr ⟨_, shortName, by simp [hforeign], fun file => rfl⟩))

/-- Only a blank reference leads nowhere at all. -/
theorem answer_resolve_eq_none_iff {raw : String} {aliases : AliasTable} :
    (resolve raw file aliases).answer view = none ↔ (trim raw.toList).isEmpty = true := by
  by_cases hempty : (trim raw.toList).isEmpty = true
  · simp only [resolve, hempty, if_true, answer_pure]
  · simp only [resolve, hempty, Bool.false_eq_true, if_false, iff_false]
    cases (splitAlias (String.ofList (trim raw.toList))).2.filter (· != selfAlias) with
    | none => simp
    | some name =>
      dsimp only
      cases aliases.find? name <;> simp

/-- A reference whose alias is said to be unknown has an alias that is not declared. -/
theorem undeclared_of_answer_resolve {raw name : String} {aliases : AliasTable}
    (h : (resolve raw file aliases).answer view = some (.unknownAlias name)) :
    foreignAlias? raw = some name ∧ aliases.find? name = none := by
  have hempty : ¬ (trim raw.toList).isEmpty = true := fun hempty => by
    rw [answer_resolve_eq_none_iff.2 hempty] at h
    cases h
  simp only [resolve, hempty, Bool.false_eq_true, if_false] at h
  cases halias : (splitAlias (String.ofList (trim raw.toList))).2.filter (· != selfAlias) with
  | none => simp [halias] at h
  | some name' =>
    rw [halias] at h
    dsimp only at h
    cases hfind : aliases.find? name' with
    | some shortName => simp [hfind] at h
    | none =>
      obtain rfl : name' = name := by simpa [hfind] using h
      exact ⟨foreignAlias?_of_trim halias, hfind⟩

/-- A reference without an alias, or with that of the repository itself, is read from the file. -/
theorem answer_resolve_own {path raw : String} (hne : path.toList ≠ [])
    (hfirst : ∀ c ∈ path.toList.head?, isBlank c = false)
    (hlast : ∀ c ∈ path.toList.getLast?, isBlank c = false) (hat : '@' ∉ path.toList)
    (hraw : raw = path ∨ raw = path ++ "@self") (view : View) (file : Path) (aliases : AliasTable) :
    (resolve raw file aliases).answer view =
      some (.path ((resolveLocal path.toList file).answer view) none) := by
  have hpath : trim path.toList = path.toList := trim_of_ends hfirst hlast
  have htrim : trim raw.toList = raw.toList := by
    rcases hraw with rfl | rfl
    · exact hpath
    · refine trim_of_ends (fun c hc => ?_) (forall_mem_of_eq_some (c := 'f') ?_ (by decide))
      · rw [String.toList_append, List.head?_append_of_ne_nil _ hne] at hc
        exact hfirst c hc
      · rw [String.toList_append, List.getLast?_append_of_ne_nil _ (by decide)]
        decide
  have hsplit : ∃ alias?, splitAlias raw = (path, alias?) ∧
      alias?.filter (· != selfAlias) = none := by
    rcases hraw with rfl | rfl
    · exact ⟨none, by rw [splitAlias, splitLast?_eq_none_iff.2 hat], rfl⟩
    · have hlast : splitLast? '@' (path ++ "@self").toList = some (path.toList, "self".toList) :=
        splitLast?_eq_some_iff.2 ⟨by rw [String.toList_append]; rfl, by decide⟩
      have hself : String.ofList (trim "self".toList) = selfAlias := by decide
      exact ⟨some selfAlias, by simp only [splitAlias, hlast, String.ofList_toList,
        hself], by decide⟩
  obtain ⟨alias?, halias, hself⟩ := hsplit
  have hempty : raw.toList.isEmpty = false := by
    rcases hraw with rfl | rfl <;> simp [hne]
  rw [resolve]
  simp only [htrim, hempty, String.ofList_toList, halias, Bool.false_eq_true,
    if_false, hself, hpath]
  rw [answer_bind, answer_pure]

section Foreign

variable {path name : String} (hpath : trim path.toList = path.toList)
  (hname : trim name.toList = name.toList) (hat : '@' ∉ name.toList) (hself : name ≠ selfAlias)

include hname hat in
theorem splitAlias_append : splitAlias (path ++ "@" ++ name) = (path, some name) := by
  have hsplit : splitLast? '@' (path ++ "@" ++ name).toList = some (path.toList, name.toList) :=
    splitLast?_eq_some_iff.2 ⟨by simp, hat⟩
  simp only [splitAlias, hsplit, hname, String.ofList_toList]

include hname hat hself in
theorem foreignAlias?_append : foreignAlias? (path ++ "@" ++ name) = some name := by
  rw [foreignAlias?, splitAlias_append hname hat, Option.filter_some, if_pos (by simpa using hself)]

include hpath hname in
theorem trim_append_alias : trim (path ++ "@" ++ name).toList = (path ++ "@" ++ name).toList := by
  have hraw : (path ++ "@" ++ name).toList = path.toList ++ '@' :: name.toList := by simp
  rw [hraw]
  refine trim_of_ends (fun c hc => ?_) fun c hc => ?_
  · cases hfirst : path.toList.head? with
    | none =>
      rw [List.head?_eq_none_iff.1 hfirst] at hc
      exact forall_mem_of_eq_some (c := '@') rfl (by decide) c hc
    | some d =>
      rw [List.head?_append, hfirst] at hc
      exact (ends_of_trim hpath).1 c (by rwa [hfirst])
  · cases hlast : name.toList.getLast? with
    | none =>
      rw [List.getLast?_eq_none_iff.1 hlast, List.getLast?_concat] at hc
      exact forall_mem_of_eq_some (c := '@') rfl (by decide) c hc
    | some d =>
      rw [List.getLast?_append, List.getLast?_cons, hlast] at hc
      exact (ends_of_trim hname).2 c (by rw [hlast]; exact hc)

include hpath hname hat hself in
/-- A reference with the alias of another repository is read from the checkout beside that of the
file, if the alias is declared, and leads nowhere otherwise. -/
theorem answer_resolve_foreign (view : View) (file : Path) (aliases : AliasTable) :
    (resolve (path ++ "@" ++ name) file aliases).answer view = some (match aliases.find? name with
      | none => .unknownAlias name
      | some short =>
        .path ((resolveForeign path.toList short file).answer view) (some short)) := by
  have hempty : (path ++ "@" ++ name).toList.isEmpty = false := by simp
  have hforeign : (some name).filter (· != selfAlias) = some name := by
    rw [Option.filter_some, if_pos (by simpa using hself)]
  rw [resolve]
  simp only [trim_append_alias hpath hname, hempty, String.ofList_toList,
    splitAlias_append hname hat, Bool.false_eq_true, if_false, hforeign, hpath]
  cases aliases.find? name with
  | none => rfl
  | some short => rw [answer_bind, answer_pure]

end Foreign

theorem asks_resolve (h : roots file) (raw : String) (aliases : AliasTable) :
    (resolve raw file aliases).Asks texts roots := by
  rcases resolve_cases raw aliases with hraw | ⟨path, hraw⟩ | ⟨name, -, hraw⟩
      | ⟨path, name, -, hraw⟩ <;> rw [hraw]
  · exact asks_pure _
  · exact (asks_resolveLocal h path).bind fun _ => asks_pure _
  · exact asks_pure _
  · exact (asks_resolveForeign h path name).bind fun _ => asks_pure _

theorem yields_resolveLocal (path : List Char) (file : Path) :
    (resolveLocal path file).Yields Path.IsNormal := by
  unfold resolveLocal
  split
  · exact (yields_true _).bind fun _ _ => Path.isNormal_normalize _
  · exact Path.isNormal_normalize _

theorem yields_resolveForeign (path : List Char) (shortName : String) (file : Path) :
    (resolveForeign path shortName file).Yields Path.IsNormal :=
  (yields_true _).bind fun _ _ => Path.isNormal_normalize _

/-- The path at which a resolved reference ends. -/
def Resolved.path? : Resolved → Option Path
  | path target _ => some target
  | unknownAlias _ => none

/-- A reference that leads to a path leads to one in normal form. -/
theorem yields_resolve (raw : String) (file : Path) (aliases : AliasTable) :
    (resolve raw file aliases).Yields fun resolved? =>
      ∀ resolved ∈ resolved?, ∀ path, resolved.path? = some path → path.IsNormal := by
  rcases resolve_cases raw aliases with hraw | ⟨path, hraw⟩ | ⟨name, -, hraw⟩
      | ⟨path, name, -, hraw⟩ <;> rw [hraw]
  · intro _ h
    cases h
  · refine (yields_resolveLocal path file).bind fun target htarget => ?_
    rintro _ ⟨⟩ _ ⟨⟩
    exact htarget
  · rintro _ ⟨⟩ _ ⟨⟩
  · refine (yields_resolveForeign path name file).bind fun target htarget => ?_
    rintro _ ⟨⟩ _ ⟨⟩
    exact htarget

/-- Where a reference leads depends on the files only through the root of the repository, and on the
file only through what its spelling says. -/
theorem resolve_congr {view' : View} {file' : Path} (hfile : file.components = file'.components)
    (h : view.root file = view'.root file') (raw : String) (aliases : AliasTable) :
    (resolve raw file aliases).answer view = (resolve raw file' aliases).answer view' := by
  rcases resolve_cases raw aliases with hraw | ⟨path, hraw⟩ | ⟨name, -, hraw⟩
      | ⟨path, name, -, hraw⟩ <;> rw [hraw, hraw]
  · rfl
  · have hlocal : (resolveLocal path file).answer view =
        (resolveLocal path file').answer view' := by
      unfold resolveLocal
      split
      · simp [h]
      · rw [answer_pure, answer_pure,
          Path.normalize_child_congr (Path.components_directory_congr hfile)]
    rw [answer_bind, answer_bind, hlocal]
    rfl
  · rfl
  · simp [resolveForeign, h]

/-! ### References with their targets -/

theorem asks_targetOf (resolved : Resolved) : (targetOf resolved).Asks texts roots := by
  cases resolved with
  | unknownAlias name => exact asks_pure _
  | path path repository? =>
    refine Asks.bind (asks_file path) fun found => ?_
    split <;> exact asks_pure _

theorem asks_outgoingOf (h : roots file) (aliases : AliasTable) (r : TemplateReference) :
    (outgoingOf file aliases r).Asks texts roots := by
  unfold outgoingOf
  split
  · exact asks_pure _
  · refine (asks_resolve h r.raw aliases).bind fun resolved? => ?_
    split
    · exact asks_pure _
    · exact (asks_targetOf _).bind fun _ => asks_pure _

/-- The references of a file are found from its text and the root of its repository. -/
theorem asks_outgoing? (htext : texts file) (hroot : roots file) :
    (outgoing? file).Asks texts roots := by
  refine Asks.bind (asks_text_iff.2 htext) fun text? => ?_
  split
  · exact asks_pure _
  · exact ((Asks.each fun r _ => asks_outgoingOf hroot _ r).bind fun _ => asks_pure _).bind fun _ =>
      asks_pure _

theorem asks_outgoing (htext : texts file) (hroot : roots file) :
    (outgoing file).Asks texts roots :=
  (asks_outgoing? htext hroot).bind fun _ => asks_pure _

theorem yields_targetOf (resolved : Resolved) :
    (targetOf resolved).Yields fun target => target.path? = resolved.path? := by
  cases resolved with
  | unknownAlias name => rfl
  | path path repository? =>
    refine (yields_true _).bind fun found _ => ?_
    split <;> rfl

theorem path?_targetOf (view : View) (resolved : Resolved) :
    ((targetOf resolved).answer view).path? = resolved.path? :=
  (yields_targetOf resolved).answer view

theorem yields_outgoingOf (file : Path) (aliases : AliasTable) (r : TemplateReference) :
    (outgoingOf file aliases r).Yields fun o? => ∀ o ∈ o?, ∀ path, o.target.path? = some path →
      path.IsNormal := by
  unfold outgoingOf
  split
  · intro _ h
    cases h
  · refine (yields_resolve r.raw file aliases).bind fun resolved? hresolved => ?_
    cases resolved? with
    | none => exact fun _ h => by cases h
    | some resolved =>
      refine (yields_targetOf resolved).bind fun target htarget => ?_
      rintro _ ⟨⟩ path hpath
      exact hresolved resolved rfl path (htarget ▸ hpath)

/-- A file's references that lead to a path lead to one in normal form. -/
theorem yields_outgoing (file : Path) :
    (outgoing file).Yields fun found => ∀ o ∈ found, ∀ path, o.target.path? = some path →
      path.IsNormal := by
  refine ((yields_true _).bind fun text? _ => ?_ : (outgoing? file).Yields fun found? =>
    ∀ o ∈ found?.getD [], ∀ path, o.target.path? = some path → path.IsNormal).bind fun _ hfound =>
      hfound
  cases text? with
  | none => exact fun _ h => by cases h
  | some text =>
    refine ((Yields.each fun r _ => yields_outgoingOf file (repositoryAliases text) r).bind
      fun found hfound => ?_).bind
      fun found hfound => hfound
    intro o ho
    obtain ⟨o?, ho?, heq⟩ := List.mem_filterMap.1 ho
    exact hfound o? ho? o heq

theorem answer_outgoingOf (view : View) (file : Path) (aliases : AliasTable)
    (r : TemplateReference) :
    (outgoingOf file aliases r).answer view =
      if r.isRuntimeExpression then none
      else ((resolve r.raw file aliases).answer view).map fun resolved =>
        ⟨r, foreignAlias? r.raw, (targetOf resolved).answer view⟩ := by
  unfold outgoingOf
  split
  · rfl
  · rw [answer_bind]
    cases (resolve r.raw file aliases).answer view <;> simp

theorem reference_of_answer_outgoingOf {aliases : AliasTable} {r : TemplateReference} {o : Outgoing}
    (h : (outgoingOf file aliases r).answer view = some o) : o.reference = r := by
  rw [answer_outgoingOf] at h
  split at h
  · cases h
  · obtain ⟨resolved, -, rfl⟩ := Option.map_eq_some_iff.1 h
    rfl

theorem answer_outgoing? (view : View) (file : Path) :
    (outgoing? file).answer view = (view.text file).map fun text =>
      (references text).filterMap fun r =>
      (outgoingOf file (repositoryAliases text) r).answer view := by
  simp only [outgoing?, answer_bind, answer_text]
  cases view.text file with
  | none => rfl
  | some text => simp [outgoingIn, List.filterMap_map]

theorem answer_outgoing (view : View) (file : Path) :
    (outgoing file).answer view = match view.text file with
      | none => []
      | some text => (references text).filterMap fun r =>
        (outgoingOf file (repositoryAliases text) r).answer view := by
  rw [outgoing, answer_bind, answer_outgoing?]
  cases view.text file <;> rfl

/-- Two spellings of a file refer to the same, if the texts and the roots that are found are the
same. -/
theorem outgoing_congr {file' : Path} (hfile : file.components = file'.components)
    (htext : view.text file = view.text file') (hroot : view.root file = view.root file') :
    (outgoing file).answer view = (outgoing file').answer view := by
  have hone : ∀ aliases r, (outgoingOf file aliases r).answer view =
      (outgoingOf file' aliases r).answer view := by
    intro aliases r
    rw [answer_outgoingOf, answer_outgoingOf, resolve_congr hfile hroot]
  rw [answer_outgoing, answer_outgoing, htext]
  simp only [hone]

theorem isNormal_of_mem_outgoing {o : Outgoing} (h : o ∈ (outgoing file).answer view) {path : Path}
    (hpath : o.target.path? = some path) : path.IsNormal :=
  (yields_outgoing file).answer view o h path hpath

@[simp] theorem Outgoing.path?_key (o : Outgoing) : o.key.path? = o.target.path? := by
  unfold Outgoing.key
  cases o.target <;> rfl

theorem answer_targetOf_path (view : View) (path : Path) (repository? : Option String) :
    (targetOf (.path path repository?)).answer view =
      if view.isFile path then .file path repository? else .missing path repository? := by
  rw [targetOf, answer_bind, answer_file]
  cases view.isFile path <;> rfl

/-- A reference to the path of a file ends at that file. -/
theorem key_of_mem_outgoing {o : Outgoing} (h : o ∈ (outgoing file).answer view) {path : Path}
    (hpath : o.target.path? = some path) (hfile : view.isFile path = true) :
    o.key = .file path := by
  rw [answer_outgoing] at h
  cases htext : view.text file with
  | none =>
    rw [htext] at h
    cases h
  | some text =>
    rw [htext] at h
    obtain ⟨r, -, hr⟩ := List.mem_filterMap.1 h
    rw [answer_outgoingOf] at hr
    split at hr
    · cases hr
    obtain ⟨resolved, -, rfl⟩ := Option.map_eq_some_iff.1 hr
    cases resolved with
    | unknownAlias name => cases hpath
    | path found repository? =>
      obtain rfl : found = path := by
        rw [path?_targetOf] at hpath
        exact Option.some.inj hpath
      rw [Outgoing.key, answer_targetOf_path, if_pos hfile]

/-- A file with references has a text. -/
theorem isSome_text_of_mem_outgoing {o : Outgoing} (h : o ∈ (outgoing file).answer view) :
    (view.text file).isSome := by
  rw [answer_outgoing] at h
  cases htext : view.text file with
  | none =>
    rw [htext] at h
    cases h
  | some text => rfl

/-! ### What the index keeps -/

theorem asks_indexReferences (htext : texts file) (hroot : roots file) :
    (indexReferences file).Asks texts roots :=
  (asks_outgoing htext hroot).bind fun _ => asks_pure _

theorem answer_indexReferences (view : View) (file : Path) :
    (indexReferences file).answer view =
      ((outgoing file).answer view).filterMap Outgoing.indexed? := by
  rw [indexReferences, answer_bind, answer_pure]

theorem yields_indexReferences (file : Path) :
    (indexReferences file).Yields fun refs => ∀ r ∈ refs, r.target.IsNormal := by
  refine (yields_outgoing file).bind fun found hfound r hr => ?_
  obtain ⟨o, ho, hindexed⟩ := List.mem_filterMap.1 hr
  obtain ⟨path, hpath, rfl⟩ := Option.map_eq_some_iff.1 hindexed
  exact hfound o ho path hpath

theorem isNormal_of_mem_indexReferences {r : IndexedReference}
    (h : r ∈ (indexReferences file).answer view) : r.target.IsNormal :=
  (yields_indexReferences file).answer view r h

/-- The references that the index keeps of a file follow from its text and the root of its
repository. Whether their targets exist plays no part. -/
theorem indexReferences_congr {view' : View} (htext : view.text file = view'.text file)
    (hroot : view.root file = view'.root file) :
    (indexReferences file).answer view = (indexReferences file).answer view' := by
  have hindexed : ∀ aliases r, ((outgoingOf file aliases r).answer view).bind Outgoing.indexed? =
      ((outgoingOf file aliases r).answer view').bind Outgoing.indexed? := by
    intro aliases r
    rw [answer_outgoingOf, answer_outgoingOf, resolve_congr rfl hroot]
    split
    · rfl
    · cases (resolve r.raw file aliases).answer view' with
      | none => rfl
      | some resolved => simp [Outgoing.indexed?, path?_targetOf]
  rw [answer_indexReferences, answer_indexReferences, answer_outgoing, answer_outgoing, htext]
  cases view'.text file with
  | none => rfl
  | some text =>
    rw [List.filterMap_filterMap, List.filterMap_filterMap]
    exact List.filterMap_congr fun r _ => hindexed _ r

end TemplateAtlas
