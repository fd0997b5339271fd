import TemplateAtlas.Proofs.Files.Roots
import TemplateAtlas.Proofs.Graph.Outgoing
import TemplateAtlas.Proofs.Path.Detour

/-!
# Spellings of references

A file can be referred to by its path from the root of the repository, after a slash, or by a path
that climbs to the root first:

    /jobs/build.yml
    ../../jobs/build.yml

Either may go on with the alias that stands for the repository itself. Climbing as many levels as
the directory of the referring file lies below the root leads to the root (`Path.foldl_move_climb`),
so all of these lead to one path (`spellings_meet_at_root`).
-/

namespace TemplateAtlas

open Inquiry TemplateAtlas.Template TemplateAtlas.Text
open RawText (dot)

/-! ### Climbing -/

/-- The path behind double dots for some levels. -/
def climb : Nat → String → String
  | 0, path => path
  | levels + 1, path => "../" ++ climb levels path

theorem toList_climb_succ (levels : Nat) (path : String) :
    (climb (levels + 1) path).toList = ['.', '.'] ++ '/' :: (climb levels path).toList := by
  rw [climb, String.toList_append]
  rfl

namespace Path

theorem innerSteps_climb (levels : Nat) (path : String) :
    innerSteps ⟨climb levels path⟩ = List.replicate levels .parent ++ innerSteps ⟨path⟩ := by
  induction levels with
  | zero => rfl
  | succ levels ih =>
    have hsegments : segments ⟨climb (levels + 1) path⟩ =
        [dot, dot] :: segments ⟨climb levels path⟩ := by
      rw [segments_ofString, segments_ofString, toList_climb_succ,
        splitOn_append_cons (by decide), List.map_cons]
      rfl
    rw [innerSteps, hsegments, List.filterMap_cons_some (b := .parent) (by decide), ← innerSteps,
      ih, List.replicate_succ, List.cons_append]

/-- Climbing as many levels as a location lies below another leads there. -/
theorem foldl_move_climb (top below : Location) :
    (List.replicate below.length Component.parent).foldl Component.move (top ++ below) = top := by
  induction below using List.reverseRecOn with
  | nil => simp
  | append_singleton below name ih =>
    rw [List.length_append, List.length_singleton, List.replicate_succ, List.foldl_cons,
      Component.move, ← List.append_assoc, List.dropLast_concat, ih]

end Path

/-! ### References of the repository itself -/

/-- A path that a reference can state from the root: there is one, it opens neither with a slash nor
with a blank, it ends in no blank, and it has no alias. -/
structure IsPlainPath (path : String) : Prop where
  /-- There is a path. -/
  ne : path.toList ≠ []
  /-- It opens neither with a slash nor with a blank. -/
  first : ∀ c ∈ path.toList.head?, c ≠ '/' ∧ isBlank c = false
  /-- It ends in no blank. -/
  last : ∀ c ∈ path.toList.getLast?, isBlank c = false
  /-- It has no alias. -/
  not_at : '@' ∉ path.toList

/-- The ways to refer to a path of the repository from a directory some levels below the root. -/
def spellings (levels : Nat) (path : String) : List String :=
  ["/" ++ path, "/" ++ path ++ "@self", climb levels path, climb levels path ++ "@self"]

namespace IsPlainPath

variable {path raw : String} {view : View} {file : Path} {root : Location}

theorem isAbsolute_eq (h : IsPlainPath path) : (⟨path⟩ : Path).isAbsolute = false := by
  rw [← Bool.not_eq_true, Path.isAbsolute_ofString]
  exact fun hhead => (h.first '/' hhead).1 rfl

/-- A text in front of a plain path that opens without a blank and has no alias changes nothing else
in a reference. -/
theorem answer_resolve (h : IsPlainPath path) (front : String)
    (hfirst : ∀ c ∈ front.toList.head?, isBlank c = false) (hat : '@' ∉ front.toList)
    (hraw : raw = front ++ path ∨ raw = front ++ path ++ "@self") (aliases : AliasTable) :
    (resolve raw file aliases).answer view =
      some (.path ((resolveLocal (front.toList ++ path.toList) file).answer view) none) := by
  have htext : (front ++ path).toList = front.toList ++ path.toList := String.toList_append
  rw [← htext]
  refine answer_resolve_own ?_ (fun c hc => ?_) (fun c hc => ?_) ?_ hraw view file aliases
  · simp [h.ne]
  · rw [htext, List.head?_append, Option.mem_def, Option.or_eq_some_iff] at hc
    rcases hc with hc | ⟨-, hc⟩
    · exact hfirst c hc
    · exact (h.first c hc).2
  · rw [htext, List.getLast?_append_of_ne_nil _ h.ne] at hc
    exact h.last c hc
  · rw [htext, List.mem_append]
    exact not_or_intro hat h.not_at

/-- A path behind a slash is read from the root of the repository. -/
theorem answer_resolve_slash (h : IsPlainPath path)
    (hraw : raw = "/" ++ path ∨ raw = "/" ++ path ++ "@self") (aliases : AliasTable) :
    (resolve raw file aliases).answer view =
      some (.path ((view.root file).join ⟨path⟩).normalize none) := by
  have hdrop : dropSlashes ('/' :: path.toList) = path.toList := by
    rw [dropSlashes, List.dropWhile_cons_of_pos (by decide)]
    cases hpath : path.toList with
    | nil => rfl
    | cons c cs => rw [List.dropWhile_cons_of_neg (by simpa using (h.first c (by simp [hpath])).1)]
  have hlocal : (resolveLocal ('/' :: path.toList) file).answer view =
      ((view.root file).join ⟨path⟩).normalize := by
    rw [resolveLocal, if_pos (List.head?_cons), hdrop, String.ofList_toList, answer_bind,
      answer_root, answer_pure, Path.child]
  have hfront : "/".toList = ['/'] := by decide
  have hblank : ∀ c ∈ "/".toList.head?, isBlank c = false :=
    forall_mem_of_eq_some (c := '/') (by decide) (by decide)
  rw [h.answer_resolve "/" hblank (by decide) hraw aliases, hfront, List.singleton_append, hlocal]

/-- The text of a path behind double dots. -/
theorem climb_eq_append (levels : Nat) (path : String) :
    ∃ front, climb levels path = front ++ path ∧ (∀ c ∈ front.toList.head?, c = '.') ∧
      '@' ∉ front.toList := by
  induction levels with
  | zero => exact ⟨"", by simp [climb], by simp, by simp⟩
  | succ levels ih =>
    obtain ⟨front, heq, -, hat⟩ := ih
    refine ⟨"../" ++ front, by rw [climb, heq, String.append_assoc], ?_, ?_⟩
    · rw [String.toList_append]
      exact fun c hc => (Option.some.inj hc).symm
    · rw [String.toList_append, List.mem_append]
      exact not_or_intro (by decide) hat

/-- A path behind double dots is read from the directory of the file. -/
theorem answer_resolve_climb (h : IsPlainPath path) {levels : Nat}
    (hraw : raw = climb levels path ∨ raw = climb levels path ++ "@self") (aliases : AliasTable) :
    (resolve raw file aliases).answer view =
      some (.path (file.directory.join ⟨climb levels path⟩).normalize none) := by
  obtain ⟨front, heq, hfirst, hat⟩ := climb_eq_append levels path
  have hblank : ∀ c ∈ front.toList.head?, isBlank c = false := fun c hc => by
    rw [hfirst c hc]
    decide
  have hslash : (front.toList ++ path.toList).head? ≠ some '/' := by
    rw [List.head?_append, ne_eq, Option.or_eq_some_iff]
    rintro (hhead | ⟨-, hhead⟩)
    · exact absurd (hfirst '/' hhead) (by decide)
    · exact (h.first '/' hhead).1 rfl
  rw [heq] at hraw ⊢
  rw [h.answer_resolve front hblank hat hraw aliases, resolveLocal, if_neg hslash, answer_pure,
    Path.child, ← String.toList_append, String.ofList_toList]

/-- What is read behind double dots in a directory below another is what is read in that one. -/
theorem normalize_join_climb (h : IsPlainPath path) {top below : Location}
    (hplace : IsPlace (top ++ below)) :
    ((Path.address (top ++ below)).join ⟨climb below.length path⟩).normalize =
      ((Path.address top).join ⟨path⟩).normalize := by
  have htop : IsPlace top := fun name hname => hplace name (List.mem_append_left _ hname)
  have hclimb : (⟨climb below.length path⟩ : Path).isAbsolute = false := by
    cases hlevels : below.length with
    | zero => exact h.isAbsolute_eq
    | succ levels =>
      rw [← Bool.not_eq_true, Path.isAbsolute_ofString, toList_climb_succ]
      simp
  rw [Path.normalize_join_of_isAbsolute (Path.isAbsolute_address hplace) hclimb,
    Path.normalize_join_of_isAbsolute (Path.isAbsolute_address htop) h.isAbsolute_eq,
    Path.place_address hplace, Path.place_address htop, Path.innerSteps_climb, List.foldl_append,
    Path.foldl_move_climb]

end IsPlainPath

/-- All spellings of a path of the repository lead from a file to the same path below the root,
whatever aliases are declared and whatever else has been asked, and so does the spelling behind a
slash from every file with this root. -/
theorem spellings_meet_at_root (tree : FileTree) {memory : Memory}
    (hmemory : memory.roots.Agrees Path.IsNormal tree) {path : String} (hpath : IsPlainPath path)
    {file : Path} (hfile : file.IsAddress) :
    ∃ root, tree.RootOf file.directory.place root ∧
      (∀ raw ∈ spellings (file.directory.place.length - root.length) path, ∀ aliases,
        ((resolve raw file aliases).run tree memory).1 =
          some (.path ((Path.address root).join ⟨path⟩).normalize none)) ∧
      ∀ other : Path, other.IsAddress → tree.RootOf other.directory.place root → ∀ aliases,
        ((resolve ("/" ++ path) other aliases).run tree memory).1 =
          some (.path ((Path.address root).join ⟨path⟩).normalize none) := by
  have hagrees : memory.Agrees (fun _ => False) Path.IsNormal tree := ⟨fun _ h => h.elim, hmemory⟩
  have hrun : ∀ {f : Path}, f.IsAddress → ∀ raw aliases,
      ((resolve raw f aliases).run tree memory).1 = (resolve raw f aliases).answer tree.view :=
    fun hf raw aliases => hagrees.run_fst (fun _ h => h) (asks_resolve hf.isNormal raw aliases)
  have hslash : ∀ {f : Path} {root : Location}, f.IsAddress → tree.RootOf f.directory.place root →
      tree.view.root f = Path.address root := by
    intro f root hf hroot
    obtain ⟨place, hplace, hdirectory⟩ := hf.directory
    rw [hdirectory, Path.place_address hplace] at hroot
    rw [FileTree.view_root, hdirectory, FileTree.rootAbove_address hplace hroot]
  obtain ⟨place, hplace, hdirectory⟩ := hfile.directory
  obtain ⟨root, hroot, -⟩ := tree.exists_rootOf hplace
  have hlevels : file.directory.place = place := by rw [hdirectory, Path.place_address hplace]
  obtain ⟨below, rfl⟩ := hroot.isPrefix
  refine ⟨root, hlevels ▸ hroot, fun raw hraw aliases => ?_, fun other hother hroot' aliases => ?_⟩
  · have hclimb :
        (file.directory.join ⟨climb (file.directory.place.length - root.length) path⟩).normalize =
        ((Path.address root).join ⟨path⟩).normalize := by
      rw [hlevels, List.length_append, Nat.add_sub_cancel_left, hdirectory,
        hpath.normalize_join_climb hplace]
    rw [hrun hfile, ← hclimb]
    simp only [spellings, List.mem_cons, List.not_mem_nil, or_false] at hraw
    rcases hraw with hraw | hraw | hraw | hraw
    · rw [hpath.answer_resolve_slash (.inl hraw), hslash hfile (hlevels ▸ hroot), hclimb]
    · rw [hpath.answer_resolve_slash (.inr hraw), hslash hfile (hlevels ▸ hroot), hclimb]
    · rw [hpath.answer_resolve_climb (.inl hraw)]
    · rw [hpath.answer_resolve_climb (.inr hraw)]
  · rw [hrun hother, hpath.answer_resolve_slash (.inl rfl), hslash hother hroot']

/-- A file two levels below the root of its repository declares the alias of the repository itself
for another. -/
theorem spellings_meet_of_nested_file :
    let tree : FileTree := ({} : FileTree).makeDirectories ["w", "app", ".git"]
    let file := Path.address ["w", "app", "jobs", "nightly", "ci.yml"]
    (tree.RootOf ["w", "app", "jobs", "nightly"] ["w", "app"] ∧ IsPlainPath "steps/build.yml" ∧
      file.IsAddress) ∧
      ∀ raw ∈ ["/steps/build.yml", "/steps/build.yml@self", "../../steps/build.yml",
        "../../steps/build.yml@self"],
        ((resolve raw file (.ofList [("self", "elsewhere")])).run tree {}).1 =
          some (.path ⟨"/w/app/steps/build.yml"⟩ none) := by
  intro tree file
  have hpath : IsPlainPath "steps/build.yml" := by
    have hhead : "steps/build.yml".toList.head? = some 's' := by decide
    refine ⟨by decide, fun c hc => ?_,
      forall_mem_of_eq_some (c := 'l') (by decide) (by decide), by decide⟩
    obtain rfl : 's' = c := Option.some.inj (hhead.symm.trans hc)
    decide
  have hfile : file.IsAddress := Path.isAddress_address (by decide)
  have hplace : file.directory.place = ["w", "app", "jobs", "nightly"] := by
    rw [Path.directory_address (by decide), Path.place_address (by decide)]
    rfl
  have happ : tree.RootOf ["w", "app", "jobs", "nightly"] ["w", "app"] := by
    have hnested : IsPlace ["w", "app", "jobs", "nightly"] := by decide
    obtain ⟨root, hroot, habove⟩ := tree.exists_rootOf hnested
    have hfound : tree.rootAbove (.address ["w", "app", "jobs", "nightly"]) =
        .address ["w", "app"] := by rfl
    rw [hfound] at habove
    rwa [Path.address_inj (by decide)
      (fun name hname => hnested name (hroot.isPrefix.subset hname)) habove]
  have hmemory : ({} : Memory).roots.Agrees Path.IsNormal tree := RootMemo.agrees_empty _ _
  obtain ⟨root, hroot, hall, -⟩ := spellings_meet_at_root tree hmemory hpath hfile
  rw [hplace] at hroot hall
  obtain rfl := happ.unique hroot
  have hnormal : ((Path.address ["w", "app"]).join ⟨"steps/build.yml"⟩).normalize =
      ⟨"/w/app/steps/build.yml"⟩ := by rfl
  refine ⟨⟨happ, hpath, hfile⟩, fun raw hraw => ?_⟩
  rw [← hnormal]
  exact hall raw hraw _

end TemplateAtlas
