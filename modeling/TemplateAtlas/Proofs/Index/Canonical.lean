import TemplateAtlas.Proofs.Index.Snapshot

/-!
# Canonical snapshots

A snapshot is canonical, if all its paths are in normal form. A derived snapshot that is canonical
is determined by the references of its files (`Derived.ext`): there is one form of it, whichever
operations have led there.
-/

namespace TemplateAtlas

open Std

namespace Snapshot

variable {s : Snapshot} {file : Path} {inverse : SortedMap Path (SortedSet Path)}

/-- The targets and their callers are in normal form. -/
structure NormalCallers (inverse : SortedMap Path (SortedSet Path)) : Prop where
  /-- The targets are in normal form. -/
  targets : ∀ t ∈ inverse.keys, t.IsNormal
  /-- The callers are in normal form. -/
  callers : ∀ t callers, inverse.find? t = some callers → ∀ c ∈ callers.toList, c.IsNormal

/-- All paths are in normal form. -/
structure Canonical (s : Snapshot) : Prop where
  /-- The files are in normal form. -/
  files : ∀ p ∈ s.files.toList, p.IsNormal
  /-- The files with references are in normal form. -/
  referring : ∀ p ∈ s.forward.keys, p.IsNormal
  /-- The targets of references are in normal form. -/
  targets : ∀ p refs, s.forward.find? p = some refs → ∀ r ∈ refs, r.target.IsNormal
  /-- The targets and their callers are in normal form. -/
  inverse : NormalCallers s.inverse

theorem NormalCallers.addCaller (h : NormalCallers inverse) (hfile : file.IsNormal) {target : Path}
    (htarget : target.IsNormal) : NormalCallers (addCaller file inverse target) := by
  refine ⟨fun t ht => ?_, fun t callers hfind c hc => ?_⟩
  · rcases SortedMap.mem_keys_insert ht with rfl | ht
    · exact htarget
    · exact h.targets t ht
  · rw [Snapshot.addCaller, SortedMap.find?_insert] at hfind
    split at hfind
    · cases hfind
      rcases SortedSet.mem_add hc with rfl | hc
      · exact hfile
      · cases hold : inverse.find? target with
        | none =>
          rw [hold] at hc
          cases hc
        | some old =>
          rw [hold] at hc
          exact h.callers target old hold c hc
    · exact h.callers t callers hfind c hc

theorem NormalCallers.dropCaller (h : NormalCallers inverse) (file : Path) {target : Path}
    (htarget : target.IsNormal) : NormalCallers (dropCaller file inverse target) := by
  unfold Snapshot.dropCaller
  cases hold : inverse.find? target with
  | none => exact h
  | some old =>
    dsimp only
    split
    · refine ⟨fun t ht => h.targets t (SortedMap.mem_keys_erase ht), fun t callers hfind => ?_⟩
      rw [SortedMap.find?_erase] at hfind
      split at hfind
      · cases hfind
      · exact h.callers t callers hfind
    · refine ⟨fun t ht => ?_, fun t callers hfind c hc => ?_⟩
      · rcases SortedMap.mem_keys_insert ht with rfl | ht
        · exact htarget
        · exact h.targets t ht
      · rw [SortedMap.find?_insert] at hfind
        split at hfind
        · cases hfind
          exact h.callers target old hold c (SortedMap.mem_keys_erase hc)
        · exact h.callers t callers hfind c hc

theorem NormalCallers.foldl_addCaller (h : NormalCallers inverse) (hfile : file.IsNormal)
    {targets : List Path} (htargets : ∀ t ∈ targets, t.IsNormal) :
    NormalCallers (targets.foldl (Snapshot.addCaller file) inverse) := by
  induction targets generalizing inverse with
  | nil => exact h
  | cons t targets ih =>
    exact ih (h.addCaller hfile (htargets t (by simp))) fun u hu => htargets u (by simp [hu])

theorem NormalCallers.foldl_dropCaller (h : NormalCallers inverse) (file : Path)
    {targets : List Path} (htargets : ∀ t ∈ targets, t.IsNormal) :
    NormalCallers (targets.foldl (Snapshot.dropCaller file) inverse) := by
  induction targets generalizing inverse with
  | nil => exact h
  | cons t targets ih =>
    exact ih (h.dropCaller file (htargets t (by simp))) fun u hu => htargets u (by simp [hu])

theorem isNormal_of_mem_targetsOf {refs : List IndexedReference} (h : ∀ r ∈ refs, r.target.IsNormal)
    {t : Path} (ht : t ∈ (targetsOf refs).toList) : t.IsNormal := by
  obtain ⟨r, hr, rfl⟩ := List.mem_map.1 (SortedSet.mem_ofList ht)
  exact h r hr

theorem Canonical.isNormal_of_mem_targets (h : s.Canonical) {t : Path}
    (ht : t ∈ (s.targets file).toList) : t.IsNormal := by
  refine isNormal_of_mem_targetsOf (fun r hr => ?_) ht
  cases hfind : s.forward.find? file with
  | none =>
    rw [hfind] at hr
    cases hr
  | some refs =>
    rw [hfind] at hr
    exact h.targets file refs hfind r hr

theorem Canonical.isNormal_of_mem_directCallers (h : s.Canonical) {target caller : Path}
    (hmem : caller ∈ s.directCallers target) : caller.IsNormal := by
  unfold directCallers at hmem
  cases hfind : s.inverse.find? target with
  | none =>
    rw [hfind] at hmem
    cases hmem
  | some callers =>
    rw [hfind] at hmem
    exact h.inverse.callers target callers hfind caller hmem

theorem NormalCallers.foldl_addCallers {entries : List (Path × List IndexedReference)}
    (h : NormalCallers inverse)
    (hentries : ∀ e ∈ entries, e.1.IsNormal ∧ ∀ r ∈ e.2, r.target.IsNormal) :
    NormalCallers (entries.foldl
      (fun inverse e => e.2.foldl (fun inverse r => Snapshot.addCaller e.1 inverse r.target)
        inverse) inverse) := by
  induction entries generalizing inverse with
  | nil => exact h
  | cons e entries ih =>
    obtain ⟨hfile, htargets⟩ := hentries e (by simp)
    refine ih ?_ fun e' he' => hentries e' (by simp [he'])
    dsimp only
    rw [← List.foldl_map]
    refine h.foldl_addCaller hfile fun t ht => ?_
    obtain ⟨r, hr, rfl⟩ := List.mem_map.1 ht
    exact htargets r hr

theorem canonical_ofForward {forward : SortedMap Path (List IndexedReference)}
    (hreferring : ∀ p ∈ forward.keys, p.IsNormal)
    (htargets : ∀ p refs, forward.find? p = some refs → ∀ r ∈ refs, r.target.IsNormal) :
    (ofForward forward).Canonical := by
  have hempty : NormalCallers .empty := ⟨fun _ h => (by cases h), fun _ _ h => (by cases h)⟩
  refine ⟨fun p hp => hreferring p (SortedSet.mem_ofList hp), hreferring, htargets,
    hempty.foldl_addCallers ?_⟩
  intro e he
  exact ⟨hreferring e.1 (List.mem_map_of_mem he), htargets e.1 e.2 (SortedMap.find?_of_mem he)⟩

theorem Canonical.setForward (h : s.Canonical) (hfile : file.IsNormal)
    {refs : List IndexedReference} (hrefs : ∀ r ∈ refs, r.target.IsNormal) :
    (s.setForward file refs).Canonical := by
  refine ⟨fun p hp => ?_, fun p hp => ?_, fun p refs' hfind => ?_, ?_⟩
  · rcases SortedSet.mem_add hp with rfl | hp
    · exact hfile
    · exact h.files p hp
  · rcases SortedMap.mem_keys_insert hp with rfl | hp
    · exact hfile
    · exact h.referring p hp
  · have hforward : (s.setForward file refs).forward = s.forward.insert file refs := rfl
    rw [hforward, SortedMap.find?_insert] at hfind
    split at hfind
    · cases hfind
      exact hrefs
    · exact h.targets p refs' hfind
  · refine NormalCallers.foldl_addCaller (NormalCallers.foldl_dropCaller h.inverse file ?_) hfile ?_
    · intro t ht
      exact h.isNormal_of_mem_targets (List.mem_of_mem_filter ht)
    · intro t ht
      exact isNormal_of_mem_targetsOf hrefs (List.mem_of_mem_filter ht)

theorem Canonical.removeFile (h : s.Canonical) (file : Path) : (s.removeFile file).Canonical := by
  refine ⟨fun p hp => h.files p (SortedMap.mem_keys_erase hp),
    fun p hp => h.referring p (SortedMap.mem_keys_erase hp), fun p refs hfind => ?_,
    h.inverse.foldl_dropCaller file fun t ht => h.isNormal_of_mem_targets ht⟩
  have hforward : (s.removeFile file).forward = s.forward.erase file := rfl
  rw [hforward, SortedMap.find?_erase] at hfind
  split at hfind
  · cases hfind
  · exact h.targets p refs hfind

theorem Canonical.foldl_removeFile (h : s.Canonical) (files : List Path) :
    (files.foldl Snapshot.removeFile s).Canonical := by
  induction files generalizing s with
  | nil => exact h
  | cons file files ih => exact ih (h.removeFile file)

theorem Canonical.removePath (h : s.Canonical) (path : Path) : (s.removePath path).Canonical := by
  unfold Snapshot.removePath
  split
  · exact h.removeFile path
  · exact h.foldl_removeFile _

/-! ### Uniqueness -/

/-- Maps of paths in normal form whose look-ups of such paths agree are the same. -/
theorem ext_isNormal {α : Type*} {m₁ m₂ : SortedMap Path α} (h₁ : ∀ k ∈ m₁.keys, k.IsNormal)
    (h₂ : ∀ k ∈ m₂.keys, k.IsNormal) (h : ∀ p, p.IsNormal → m₁.find? p = m₂.find? p) : m₁ = m₂ :=
  SortedMap.ext_on (fun _ _ ha hb hab => ha.eq hb (Path.compare_eq_iff.1 hab)) h₁ h₂ h

/-- Sets of paths in normal form with the same members are the same. -/
theorem eq_of_contains_eq {a b : SortedSet Path} (ha : ∀ p ∈ a.toList, p.IsNormal)
    (hb : ∀ p ∈ b.toList, p.IsNormal) (h : ∀ p, SortedMap.contains a p = SortedMap.contains b p) :
    a = b := by
  refine ext_isNormal ha hb fun p _ => ?_
  have := h p
  unfold SortedMap.contains at this
  cases hfind₁ : a.find? p <;> cases hfind₂ : b.find? p <;> simp_all

/-- Derived and canonical snapshots with the same references are the same. -/
theorem Derived.ext {s₁ s₂ : Snapshot} (h₁ : s₁.Derived) (h₂ : s₂.Derived) (c₁ : s₁.Canonical)
    (c₂ : s₂.Canonical) (h : ∀ p, p.IsNormal → s₁.forward.find? p = s₂.forward.find? p) :
    s₁ = s₂ := by
  have hforward : s₁.forward = s₂.forward := ext_isNormal c₁.referring c₂.referring h
  have hfiles : s₁.files = s₂.files :=
    eq_of_contains_eq c₁.files c₂.files fun p => by rw [h₁.files, h₂.files, hforward]
  have hinverse : s₁.inverse = s₂.inverse := by
    refine ext_isNormal c₁.inverse.targets c₂.inverse.targets fun t _ => ?_
    have hrel := h₁.rel_callers h₂ (fun c t => by rw [refersTo, refersTo, hforward]) t
    cases hfind₁ : s₁.inverse.find? t with
    | none =>
      cases hfind₂ : s₂.inverse.find? t with
      | none => rfl
      | some b =>
        rw [hfind₁, hfind₂] at hrel
        cases hrel
    | some a =>
      cases hfind₂ : s₂.inverse.find? t with
      | none =>
        rw [hfind₁, hfind₂] at hrel
        cases hrel
      | some b =>
        rw [hfind₁, hfind₂, Option.rel_some_some] at hrel
        rw [eq_of_contains_eq (c₁.inverse.callers t a hfind₁) (c₂.inverse.callers t b hfind₂) hrel]
  obtain ⟨files, forward, inverse⟩ := s₁
  obtain ⟨files', forward', inverse'⟩ := s₂
  simp_all

end Snapshot

end TemplateAtlas
