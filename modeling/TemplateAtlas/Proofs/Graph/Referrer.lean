import TemplateAtlas.Proofs.Graph.Outgoing
import TemplateAtlas.Proofs.Path.Detour

/-!
# Spellings of the referring file

The directory of a file is its path as written without the last step, so it lies above the file only
if that step does not climb (`Path.place_directory_eq_dropLast_iff`). Outside of any repository the
references of a file are read in this directory, and those through an alias in the directory above
it, which is found in the same way. With two dots at the end of a path one goes down instead of up.
So a file and its normal form agree on the references of their own repository if the file does not
end upward, and on those to other repositories if its directory does not end upward either
(`resolved_normalize_iff`).
-/

namespace TemplateAtlas

open Inquiry TemplateAtlas.Template TemplateAtlas.Text

namespace Path

variable {p : Path}

/-! ### Directories as written -/

/-- The last step of the path climbs, out of a directory other than the root. -/
def EndsUpward (p : Path) : Prop :=
  p.components.getLast? = some .parent ∧ p.directory.place ≠ []

instance (p : Path) : Decidable p.EndsUpward :=
  inferInstanceAs (Decidable (_ ∧ _))

theorem isAbsolute_directory (h : p.isAbsolute = true) : p.directory.isAbsolute = true := by
  obtain ⟨inner, hp, hinner⟩ := isAbsolute_iff.1 h
  rw [isAbsolute_iff, components_directory, hp]
  cases inner with
  | nil => exact ⟨[], by simp, by simp⟩
  | cons c inner =>
    exact ⟨(c :: inner).dropLast, by simp, fun d hd => hinner d (List.dropLast_subset _ hd)⟩

/-- The steps of the directory lead where the steps without the last one lead. -/
theorem place_directory (h : p.isAbsolute = true) :
    p.directory.place = p.components.dropLast.foldl Component.move [] := by
  obtain ⟨inner, hp, -⟩ := isAbsolute_iff.1 h
  rw [place, components_directory, hp]
  cases inner with
  | nil => rfl
  | cons c inner => simp

/-- The directory of a path lies above the path, unless the path ends upward. -/
theorem place_directory_eq_dropLast_iff (h : p.isAbsolute = true) :
    p.directory.place = p.place.dropLast ↔ ¬p.EndsUpward := by
  have hdirectory := place_directory h
  obtain ⟨inner, hp, hinner⟩ := isAbsolute_iff.1 h
  have hplace : p.place = p.components.foldl Component.move [] := rfl
  unfold EndsUpward
  cases inner using List.reverseRecOn with
  | nil =>
    rw [hp] at hdirectory hplace
    simp [hdirectory, hplace, hp, Component.move]
  | append_singleton inner c =>
    rw [hp, ← List.cons_append, List.dropLast_concat] at hdirectory
    rw [hp, ← List.cons_append, List.foldl_concat, ← hdirectory] at hplace
    have hlast : p.components.getLast? = some c := by
      rw [hp, ← List.cons_append, List.getLast?_concat]
    rw [hplace, hlast]
    cases c with
    | root => exact (hinner .root (by simp)).elim
    | current => exact (hinner .current (by simp)).elim
    | name text => simp [Component.move]
    | parent =>
      -- only the root is two levels above itself
      have hfixed : p.directory.place = p.directory.place.dropLast.dropLast ↔
          p.directory.place = [] := by
        refine ⟨fun heq => ?_, fun hnil => by simp [hnil]⟩
        have hlength := congrArg List.length heq
        rw [List.length_dropLast, List.length_dropLast] at hlength
        exact List.eq_nil_of_length_eq_zero (by omega)
      simp [Component.move, hfixed]

/-- The directory of a file is a spelling of that of its normal form, unless the file ends
upward. -/
theorem normalize_directory_eq_iff (h : p.isAbsolute = true) :
    p.directory.normalize = p.normalize.directory ↔ ¬p.EndsUpward := by
  have hplace := isPlace_place h
  rw [normalize_of_isAbsolute h, normalize_of_isAbsolute (isAbsolute_directory h),
    directory_address hplace, ← place_directory_eq_dropLast_iff h]
  exact ⟨address_inj (isPlace_place (isAbsolute_directory h)) hplace.dropLast, congrArg address⟩

/-- The path above an absolute path, or the root itself, is a spelling of its directory. -/
theorem components_parent?_getD (h : p.isAbsolute = true) :
    (p.parent?.getD p).components = p.directory.components := by
  cases hparent : p.parent? with
  | some above => rw [directory, hparent, Option.getD_some, Option.getD_some]
  | none =>
    obtain ⟨first, body, hsegments⟩ := p.exists_segments
    rcases List.eq_nil_or_concat' (dropEndWhile isTrivial body) with hkept | ⟨front, last, hkept⟩
    · -- then the path is a spelling of the root
      obtain ⟨inner, hp, -⟩ := isAbsolute_iff.1 h
      have hopening : p.components = (openingOf first body).toList := by
        rw [components, hsegments, stepsOf_cons, dropEndWhile_eq_nil hkept, List.append_nil]
      have hroot : p.components = [.root] := by
        rw [hp] at hopening ⊢
        cases hstep : openingOf first body with
        | none => simp [hstep] at hopening
        | some c =>
          obtain ⟨-, rfl⟩ : .root = c ∧ inner = [] := by simpa [hstep] using hopening
          rfl
      rw [Option.getD_none, components_directory, hroot, if_pos (.inr rfl)]
    · simp [parent?_of_kept hsegments hkept] at hparent

end Path

/-! ### Outside of repositories -/

namespace FileTree

variable {tree : FileTree}

/-- No repository begins anywhere. -/
def HasNoRepository (tree : FileTree) : Prop :=
  ∀ place, tree.node? (place ++ [repositoryMarker]) = none

theorem HasNoRepository.isRepositoryRoot_eq_false (h : tree.HasNoRepository) (directory : Path) :
    tree.isRepositoryRoot directory = false := by
  have hsteps : Path.components ⟨repositoryMarker⟩ = [.name repositoryMarker] := by decide
  have hinner : Path.innerSteps ⟨repositoryMarker⟩ = [.name repositoryMarker] :=
    Path.innerSteps_of_isName (by decide)
  rw [isRepositoryRoot, exists?, nodeAt?]
  cases hlocate : tree.locate (directory.child repositoryMarker) with
  | error e => rfl
  | ok place =>
    obtain ⟨above, rfl⟩ : ∃ above, place = above ++ [repositoryMarker] := by
      rw [locate_eq_ok hlocate, Path.child]
      by_cases hempty : directory.text = ""
      · exact ⟨tree.working, by simp [Path.join, hempty, hsteps, Component.move]⟩
      · rw [Path.components_join hempty (by decide), List.foldl_append]
        exact ⟨_, by rw [← Path.innerSteps, hinner]; rfl⟩
    simp [h above]

/-- Outside of any repository the root of a directory is the directory, as it is written. -/
theorem HasNoRepository.rootAbove_eq (h : tree.HasNoRepository) (directory : Path) :
    tree.rootAbove directory = directory := by
  have hnone : directory.ancestors.find? tree.isRepositoryRoot = none :=
    List.find?_eq_none.2 fun above _ => by simp [h.isRepositoryRoot_eq_false above]
  rw [rootAbove, hnone, Option.getD_none]

theorem HasNoRepository.view_root (h : tree.HasNoRepository) (file : Path) :
    tree.view.root file = file.directory := by
  rw [FileTree.view_root, h.rootAbove_eq]

end FileTree

namespace Path

/-- The directory in which other repositories lie for a file outside of any repository. -/
def outside (file : Path) : Path :=
  file.directory.parent?.getD file.directory

variable {p p' : Path}

theorem isAbsolute_outside (h : p.isAbsolute = true) : p.outside.isAbsolute = true := by
  have hdirectory := isAbsolute_directory h
  rw [outside, (telling_congr (components_parent?_getD hdirectory)).2]
  exact isAbsolute_directory hdirectory

theorem normalize_outside (h : p.isAbsolute = true) :
    p.outside.normalize = p.directory.directory.normalize := by
  rw [outside, normalize, components_parent?_getD (isAbsolute_directory h), normalize]

/-- If a path does not end upward, what lies outside of it lies outside of its normal form, unless
its directory ends upward. -/
theorem normalize_outside_eq_iff (h : p.isAbsolute = true) (hp : ¬p.EndsUpward) :
    p.outside.normalize = p.normalize.outside.normalize ↔ ¬p.directory.EndsUpward := by
  have hnormal : p.normalize.outside.normalize = p.directory.normalize.directory := by
    rw [normalize_outside (by rwa [isAbsolute_normalize]), ← (normalize_directory_eq_iff h).2 hp]
    exact (isNormal_normalize p.directory).directory
  rw [normalize_outside h, hnormal, normalize_directory_eq_iff (isAbsolute_directory h)]

theorem place_child {name : RawText} (hname : IsName name) (h : p.isAbsolute = true) :
    (p.child name).place = p.place ++ [name] := by
  rw [child, place_join h (isAbsolute_of_isName hname), innerSteps_of_isName hname]
  rfl

/-- Where a name is found tells the directory that it is read in. -/
theorem normalize_child_inj {name : RawText} (hname : IsName name) (h : p.isAbsolute = true)
    (h' : p'.isAbsolute = true) :
    (p.child name).normalize = (p'.child name).normalize ↔ p.normalize = p'.normalize := by
  rw [child, child, normalize_eq_iff_place_eq (isAbsolute_join h _) (isAbsolute_join h' _),
    normalize_eq_iff_place_eq h h', ← child, ← child, place_child hname h, place_child hname h',
    List.append_left_inj]

end Path

/-! ### References of a file outside of repositories -/

/-- Where a reference in a file leads for a reader who remembers nothing. -/
def FileTree.resolved (tree : FileTree) (raw : String) (file : Path) (aliases : AliasTable) :
    Option Resolved :=
  ((resolve raw file aliases).run tree {}).1

namespace FileTree

variable {tree : FileTree} {file : Path}

theorem resolved_eq_answer (tree : FileTree) (raw : String) (file : Path) (aliases : AliasTable) :
    tree.resolved raw file aliases = (resolve raw file aliases).answer tree.view := by
  have hasks := @asks_resolve file (fun _ => False) (· = file) rfl raw aliases
  exact run_fst_of_root ⟨fun _ => rfl, fun _ => rfl⟩ (Cache.agrees_empty _ _) hasks
    (tree.view_root file)

/-- A name without an alias is found in the directory of the file. -/
theorem resolved_name (tree : FileTree) (file : Path) :
    tree.resolved "b.yml" file .empty =
      some (.path (file.directory.child "b.yml").normalize none) := rfl

namespace HasNoRepository

/-- A path without an alias is read in the directory of the file, and a slash in front of it changes
nothing. -/
theorem answer_resolveLocal (h : tree.HasNoRepository) (path : List Char) :
    ∃ name, ∀ file : Path, (resolveLocal path file).answer tree.view =
      (file.directory.child name).normalize := by
  unfold resolveLocal
  split
  · exact ⟨_, fun file => by rw [answer_bind, answer_root, h.view_root, answer_pure]⟩
  · exact ⟨_, fun file => rfl⟩

/-- A path in another repository is read outside of the file. -/
theorem answer_resolveForeign (h : tree.HasNoRepository) (path : List Char) (shortName : String)
    (file : Path) :
    (resolveForeign path shortName file).answer tree.view =
      ((file.outside.child shortName).child (String.ofList (dropSlashes path))).normalize := by
  rw [resolveForeign, answer_bind, answer_root, h.view_root, answer_pure, Path.outside]

theorem answer_resolveLocal_normalize (h : tree.HasNoRepository) (hfile : file.isAbsolute = true)
    (hup : ¬file.EndsUpward) (path : List Char) :
    (resolveLocal path file).answer tree.view =
      (resolveLocal path file.normalize).answer tree.view := by
  obtain ⟨name, hname⟩ := h.answer_resolveLocal path
  have hdirectory : file.directory.normalize = file.normalize.directory.normalize := by
    rw [(Path.isNormal_normalize file).directory, (Path.normalize_directory_eq_iff hfile).2 hup]
  rw [hname, hname, Path.child, Path.child, Path.normalize_join_congr hdirectory]

theorem answer_resolveForeign_normalize (h : tree.HasNoRepository) (hfile : file.isAbsolute = true)
    (hup : ¬file.EndsUpward) (hup' : ¬file.directory.EndsUpward) (path : List Char)
    (shortName : String) :
    (resolveForeign path shortName file).answer tree.view =
      (resolveForeign path shortName file.normalize).answer tree.view := by
  have houtside := (Path.normalize_outside_eq_iff hfile hup).2 hup'
  have hcheckout : (file.outside.child shortName).normalize =
      (file.normalize.outside.child shortName).normalize :=
    Path.normalize_join_congr houtside _
  rw [h.answer_resolveForeign, h.answer_resolveForeign]
  exact Path.normalize_join_congr hcheckout _

/-- A file that does not end upward and its normal form agree on the references of their own
repository, and if its directory does not end upward either, on all others. -/
theorem resolved_normalize (h : tree.HasNoRepository) (hfile : file.isAbsolute = true)
    (hup : ¬file.EndsUpward) {raw : String}
    (hraw : foreignAlias? raw = none ∨ ¬file.directory.EndsUpward) (aliases : AliasTable) :
    tree.resolved raw file aliases = tree.resolved raw file.normalize aliases := by
  rw [resolved_eq_answer, resolved_eq_answer]
  rcases resolve_cases raw aliases with
    hnone | ⟨path, hlocal⟩ | ⟨name, -, hunknown⟩ | ⟨path, shortName, halias, hforeign⟩
  · rw [hnone, hnone]
  · rw [hlocal, hlocal, answer_bind, answer_bind, h.answer_resolveLocal_normalize hfile hup]
  · rw [hunknown, hunknown]
  · have hup' := hraw.resolve_left halias
    rw [hforeign, hforeign, answer_bind, answer_bind,
      h.answer_resolveForeign_normalize hfile hup hup']

/-- A name in another repository is found in its checkout, outside of the file. -/
theorem resolved_name_of_alias (h : tree.HasNoRepository) (file : Path) :
    tree.resolved "b.yml@lib" file (.ofList [("lib", "shared")]) =
      some (.path ((file.outside.child "shared").child "b.yml").normalize (some "shared")) := by
  have hforeign : resolve "b.yml@lib" file (.ofList [("lib", "shared")]) = do
      return some (.path (← resolveForeign "b.yml".toList "shared" file) (some "shared")) := rfl
  rw [resolved_eq_answer, hforeign, answer_bind, h.answer_resolveForeign]
  rfl

/-- Outside of any repository an absolute path of a file and its normal form agree on all references
of their own repository if and only if the path does not end upward, and on all references if and
only if neither the path nor its directory ends upward. -/
theorem resolved_normalize_iff (h : tree.HasNoRepository) (hfile : file.isAbsolute = true) :
    ((∀ raw aliases, foreignAlias? raw = none →
        tree.resolved raw file aliases = tree.resolved raw file.normalize aliases) ↔
          ¬file.EndsUpward) ∧
      ((∀ raw aliases, tree.resolved raw file aliases = tree.resolved raw file.normalize aliases) ↔
        ¬file.EndsUpward ∧ ¬file.directory.EndsUpward) := by
  have hnormal : file.normalize.isAbsolute = true := by rwa [Path.isAbsolute_normalize]
  have hb : IsName "b.yml" := by decide
  have hs : IsName "shared" := by decide
  -- a name is found in one place only if the directories agree
  have hown : (∀ raw aliases, foreignAlias? raw = none →
      tree.resolved raw file aliases = tree.resolved raw file.normalize aliases) →
        ¬file.EndsUpward := by
    intro hall
    have hname := hall "b.yml" .empty (by decide)
    rw [resolved_name, resolved_name, Option.some.injEq, Resolved.path.injEq] at hname
    rw [← Path.normalize_directory_eq_iff hfile,
      (Path.normalize_child_inj hb (Path.isAbsolute_directory hfile)
      (Path.isAbsolute_directory hnormal)).1 hname.1]
    exact (Path.isNormal_normalize file).directory
  refine ⟨⟨hown, fun hup raw aliases hraw => h.resolved_normalize hfile hup (.inl hraw) aliases⟩,
    fun hall => ?_,
    fun hup raw aliases => h.resolved_normalize hfile hup.1 (.inr hup.2) aliases⟩
  have hup := hown fun raw aliases _ => hall raw aliases
  have hname := hall "b.yml@lib" (.ofList [("lib", "shared")])
  rw [h.resolved_name_of_alias, h.resolved_name_of_alias, Option.some.injEq, Resolved.path.injEq]
    at hname
  have houtside := Path.isAbsolute_outside hfile
  have houtside' := Path.isAbsolute_outside hnormal
  -- the checkouts are those of one name, and so are the directories in which they lie
  have hcheckout : (file.outside.child "shared").normalize =
      (file.normalize.outside.child "shared").normalize :=
    (Path.normalize_child_inj hb (Path.isAbsolute_join houtside _)
      (Path.isAbsolute_join houtside' _)).1 hname.1
  rw [Path.normalize_child_inj hs houtside houtside', Path.normalize_outside_eq_iff hfile hup]
    at hcheckout
  exact ⟨hup, hcheckout⟩

end HasNoRepository

/-- On the way to a file a directory is entered and left again. What the file refers to in its own
repository stays the same, but other repositories are looked for beside that directory. -/
theorem resolved_normalize_of_detour :
    let file : Path := ⟨"/w/app/sub/../ci.yml"⟩
    let aliases : AliasTable := .ofList [("lib", "shared")]
    (HasNoRepository {} ∧ file.isAbsolute = true ∧ file.normalize = ⟨"/w/app/ci.yml"⟩) ∧
      (∀ raw aliases, foreignAlias? raw = none →
        FileTree.resolved {} raw file aliases =
          FileTree.resolved {} raw ⟨"/w/app/ci.yml"⟩ aliases) ∧
      (¬∀ raw aliases, FileTree.resolved {} raw file aliases =
        FileTree.resolved {} raw ⟨"/w/app/ci.yml"⟩ aliases) ∧
      FileTree.resolved {} "b.yml@lib" file aliases =
        some (.path ⟨"/w/app/sub/shared/b.yml"⟩ (some "shared")) ∧
      FileTree.resolved {} "b.yml@lib" ⟨"/w/app/ci.yml"⟩ aliases =
        some (.path ⟨"/w/shared/b.yml"⟩ (some "shared")) := by
  intro file aliases
  have hnone : HasNoRepository {} := fun place => by
    rw [node?_of_ne_nil _ (by simp)]
    rfl
  have hfile : file.isAbsolute = true := by decide
  have hread : ∀ {p : Path} {text : RawText}, p.text = text → p = ⟨text⟩ := by
    rintro ⟨_⟩ _ rfl
    rfl
  have hnormal : file.normalize = ⟨"/w/app/ci.yml"⟩ := hread (by decide +kernel)
  have hbeside : ((file.outside.child "shared").child "b.yml").normalize =
      ⟨"/w/app/sub/shared/b.yml"⟩ :=
    hread (by decide +kernel)
  have hbeside' : (((⟨"/w/app/ci.yml"⟩ : Path).outside.child "shared").child "b.yml").normalize =
      ⟨"/w/shared/b.yml"⟩ := hread (by decide +kernel)
  obtain ⟨hown, hall⟩ := hnone.resolved_normalize_iff hfile
  rw [hnormal] at hown hall
  exact ⟨⟨hnone, hfile, hnormal⟩, hown.2 (by decide), mt hall.1 (by decide),
    by rw [hnone.resolved_name_of_alias, hbeside], by rw [hnone.resolved_name_of_alias, hbeside']⟩

end FileTree

end TemplateAtlas
