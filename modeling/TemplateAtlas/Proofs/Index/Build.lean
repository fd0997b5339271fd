import TemplateAtlas.Proofs.Index.Canonical

/-!
# What a build makes

A snapshot reports files as a view shows them, if it is derived, in normal form, and keeps for each
of these files and no other the references that the view shows. At most one snapshot does
(`Reports.unique`), and the build for a list of files makes it (`reports_indexFiles`).
-/

namespace TemplateAtlas

open Std Inquiry

namespace Snapshot

variable {s : Snapshot} {view : View} {member : Path → Prop}

/-- The snapshot keeps the references that the view shows of the members, and nothing else. -/
structure Reports (view : View) (member : Path → Prop) (s : Snapshot) : Prop where
  /-- The callers follow from the references. -/
  derived : s.Derived
  /-- All paths are in normal form. -/
  canonical : s.Canonical
  /-- The references are those of the members. -/
  forward : ∀ p, p.IsNormal → ∀ refs,
    s.forward.find? p = some refs ↔ member p ∧ (indexReferences p).answer view = refs

/-- One snapshot at most reports the members as the view shows them. -/
theorem Reports.unique {s₁ s₂ : Snapshot} (h₁ : s₁.Reports view member)
    (h₂ : s₂.Reports view member) : s₁ = s₂ :=
  h₁.derived.ext h₂.derived h₁.canonical h₂.canonical fun p hp =>
    Option.ext fun refs => by rw [h₁.forward p hp, h₂.forward p hp]

theorem Reports.contains_files_iff (h : s.Reports view member) {p : Path} (hp : p.IsNormal) :
    s.files.contains p = true ↔ member p := by
  rw [h.derived.files, SortedMap.contains, Option.isSome_iff_exists]
  simp only [h.forward p hp, exists_and_left, exists_eq', and_true]

/-- The listed files are those in normal form that are contained. -/
theorem Canonical.mem_files_iff (h : s.Canonical) {p : Path} :
    p ∈ s.files.toList ↔ p.IsNormal ∧ s.files.contains p = true := by
  constructor
  · intro hmem
    exact ⟨h.files p hmem, SortedSet.contains_of_mem hmem⟩
  · rintro ⟨hp, hcontains⟩
    obtain ⟨q, hq, hpq⟩ := SortedMap.contains_eq_true_iff.1 hcontains
    rwa [hp.eq (h.files q hq) (Path.compare_eq_iff.1 hpq)]

/-- The files are the members, if these are in normal form. -/
theorem Reports.mem_files_iff (h : s.Reports view member) (hmember : ∀ p, member p → p.IsNormal)
    {p : Path} : p ∈ s.files.toList ↔ member p := by
  rw [h.canonical.mem_files_iff]
  constructor
  · rintro ⟨hp, hcontains⟩
    exact (h.contains_files_iff hp).1 hcontains
  · exact fun hp => ⟨hmember p hp, (h.contains_files_iff (hmember p hp)).2 hp⟩

/-- A snapshot that reports a sorted list has its members as files, in the same order. -/
theorem Reports.files_eq {corpus : List Path} (h : s.Reports view (· ∈ corpus))
    (hcorpus : ∀ p ∈ corpus, p.IsNormal) (hsorted : corpus.Pairwise fun p q => compare p q = .lt) :
    s.files.toList = corpus :=
  eq_of_pairwise_lt (SortedMap.pairwise_keys _) hsorted fun _ => h.mem_files_iff hcorpus

theorem answer_indexFiles (view : View) (files : List Path) :
    (indexFiles files).answer view =
      ofForward (.ofList (files.map fun file => (file, (indexReferences file).answer view))) := by
  simp [indexFiles]

/-- A build reports the files that it is given. -/
theorem reports_indexFiles {files : List Path} (h : ∀ p ∈ files, p.IsNormal) (view : View) :
    ((indexFiles files).answer view).Reports view (· ∈ files) := by
  rw [answer_indexFiles]
  have hforward : ∀ p, p.IsNormal → ∀ refs,
      (SortedMap.ofList (files.map fun file => (file, (indexReferences file).answer view))).find?
        p = some refs ↔
        p ∈ files ∧ (indexReferences p).answer view = refs := by
    intro p hp refs
    have alike : ∀ a ∈ files, ∀ b ∈ files, compare a b = .eq →
        (indexReferences a).answer view = (indexReferences b).answer view := by
      intro a ha b hb hab
      rw [(h a ha).eq (h b hb) (Path.compare_eq_iff.1 hab)]
    constructor
    · intro hfind
      have hcontains : (SortedMap.ofList (files.map fun file =>
          (file, (indexReferences file).answer view))).contains p = true := by
        rw [SortedMap.contains, hfind]
        rfl
      obtain ⟨e, he, hpe⟩ := SortedMap.contains_ofList.1 hcontains
      obtain ⟨q, hq, rfl⟩ := List.mem_map.1 he
      have hmem : p ∈ files := by rwa [hp.eq (h q hq) (Path.compare_eq_iff.1 hpe)]
      rw [SortedMap.find?_ofList_map files alike hmem] at hfind
      exact ⟨hmem, Option.some.inj hfind⟩
    · rintro ⟨hmem, rfl⟩
      exact SortedMap.find?_ofList_map files alike hmem
  have hkeys : ∀ k ∈ (SortedMap.ofList (files.map fun file =>
      (file, (indexReferences file).answer view))).keys, k.IsNormal := by
    intro k hk
    have := SortedMap.mem_keys_ofList hk
    rw [List.map_map] at this
    obtain ⟨q, hq, rfl⟩ := List.mem_map.1 this
    exact h q hq
  refine ⟨derived_ofForward _, canonical_ofForward hkeys fun p refs hfind r hr => ?_, hforward⟩
  obtain ⟨k, hmem, -⟩ := SortedMap.find?_eq_some_iff.1 hfind
  obtain ⟨-, rfl⟩ := (hforward k (hkeys k (SortedMap.mem_keys_iff.2 ⟨_, hmem⟩)) refs).1
    (SortedMap.find?_of_mem hmem)
  exact isNormal_of_mem_indexReferences hr

/-! ### Changes to one path -/

/-- A snapshot goes on reporting, if the members and what is shown of them stay the same. -/
theorem Reports.congr {view' : View} {member' : Path → Prop} (h : s.Reports view member)
    (hmember : ∀ p, p.IsNormal → (member' p ↔ member p))
    (hview : ∀ p, p.IsNormal → member' p → (indexReferences p).answer view' =
      (indexReferences p).answer view) : s.Reports view' member' := by
  refine ⟨h.derived, h.canonical, fun p hp refs => ?_⟩
  rw [h.forward p hp, hmember p hp]
  exact and_congr_right fun hmem => by rw [hview p hp ((hmember p hp).2 hmem)]

/-- Reading one file again catches up with a view that shows the other members as before. -/
theorem Reports.setForward {view' : View} {file : Path} (h : s.Reports view member)
    (hfile : file.IsNormal)
    (hview : ∀ p, p.IsNormal → p ≠ file → member p → (indexReferences p).answer view' =
      (indexReferences p).answer view) :
    (s.setForward file ((indexReferences file).answer view')).Reports view' fun p =>
      p = file ∨ member p := by
  refine ⟨h.derived.setForward file _,
    h.canonical.setForward hfile fun r hr => isNormal_of_mem_indexReferences hr,
    fun p hp refs => ?_⟩
  have hforward : (s.setForward file ((indexReferences file).answer view')).forward =
      s.forward.insert file ((indexReferences file).answer view') := rfl
  rw [hforward, SortedMap.find?_insert]
  by_cases hpf : p = file
  · subst hpf
    rw [if_pos ReflCmp.compare_self]
    simp
  · rw [if_neg fun heq => hpf (hp.eq hfile (Path.compare_eq_iff.1 heq)), h.forward p hp]
    simp only [hpf, false_or]
    exact and_congr_right fun hmem => by rw [hview p hp hpf hmem]

theorem find?_forward_foldl_removeFile (s : Snapshot) (files : List Path) (p : Path) :
    (files.foldl Snapshot.removeFile s).forward.find? p =
      if files.any (p == ·) then none else s.forward.find? p := by
  induction files generalizing s with
  | nil => rfl
  | cons file files ih =>
    have hforward : (s.removeFile file).forward = s.forward.erase file := rfl
    rw [List.foldl_cons, ih, hforward, SortedMap.find?_erase, List.any_cons]
    simp only [LawfulBEqOrd.compare_eq_iff_beq]
    cases p == file <;> cases files.any (p == ·) <;> rfl

/-- Removing a member removes that member alone, and removing any other path removes the members
below it. -/
theorem Reports.removePath {path : Path} (h : s.Reports view member) (hpath : path.IsNormal) :
    (s.removePath path).Reports view fun p =>
      member p ∧ (member path → p ≠ path) ∧ (¬member path → p.startsWith path = false) := by
  refine ⟨h.derived.removePath path, h.canonical.removePath path, fun p hp refs => ?_⟩
  unfold Snapshot.removePath
  split
  next hcontains =>
    have hmember : member path := (h.contains_files_iff hpath).1 hcontains
    have hforward : (s.removeFile path).forward = s.forward.erase path := rfl
    rw [hforward, SortedMap.find?_erase]
    by_cases hpf : p = path
    · subst hpf
      simp [hmember, ReflCmp.compare_self]
    · rw [if_neg fun heq => hpf (hp.eq hpath (Path.compare_eq_iff.1 heq)), h.forward p hp]
      simp [hmember, hpf]
  next hcontains =>
    have hmember : ¬member path := fun hmem => hcontains ((h.contains_files_iff hpath).2 hmem)
    have respects : ∀ a b : Path, (a == b) = true → a.startsWith path = b.startsWith path := by
      intro a b hab
      rw [Path.startsWith, Path.startsWith, Path.beq_iff.1 hab]
    rw [find?_forward_foldl_removeFile, any_toList_filter _ respects]
    by_cases hmem : member p
    · rw [(h.contains_files_iff hp).2 hmem, Bool.and_true]
      by_cases hbelow : p.startsWith path = true
      · simp [hbelow, hmember]
      · rw [if_neg hbelow, h.forward p hp]
        simp [hmember, hbelow]
    · have hnone : s.forward.find? p = none :=
        Option.eq_none_iff_forall_ne_some.2 fun refs' hfind =>
        hmem ((h.forward p hp refs').1 hfind).1
      simp [hmem, hnone]

/-- Removing directories, none of which is a member, removes the members below them. -/
theorem Reports.foldl_removePath {directories : List Path} (h : s.Reports view member)
    (hdirectories : ∀ d ∈ directories, d.IsNormal ∧ ¬member d) :
    (directories.foldl Snapshot.removePath s).Reports view fun p =>
      member p ∧ ∀ d ∈ directories, p.startsWith d = false := by
  induction directories generalizing s member with
  | nil => exact h.congr (fun p _ => by simp) fun _ _ _ => rfl
  | cons d directories ih =>
    obtain ⟨hd, hno⟩ := hdirectories d (by simp)
    refine (ih (h.removePath hd) fun d' hd' => ?_).congr (fun p _ => ?_) fun _ _ _ => rfl
    · have hd' := hdirectories d' (by simp [hd'])
      exact ⟨hd'.1, fun hmem => hd'.2 hmem.1⟩
    · simp [hno, and_assoc]

end Snapshot

end TemplateAtlas
