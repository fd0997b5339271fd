import TemplateAtlas.Proofs.Index.Canonical

/-!
# Patches commute

Patches of different files may be made in any order (`put_comm`), and a patch that is made twice is
made once (`put_put`), since each of the three maps of a snapshot is changed at one key. The targets
that have callers are in normal form, and so the sets of callers settle which targets there are
(`Regular.ext`).
-/

namespace TemplateAtlas

open Std

namespace Snapshot

variable {inverse : SortedMap Path (SortedSet Path)} {file other t : Path} {s : Snapshot}
  {refs? refs'? : Option (List IndexedReference)}

/-! ### Regular snapshots -/

/-- The callers follow from the references, and the targets that have callers are in normal form. -/
structure Regular (s : Snapshot) : Prop where
  /-- The callers follow from the references. -/
  derived : s.Derived
  /-- The targets are in normal form. -/
  targets : ∀ t ∈ s.inverse.keys, t.IsNormal

/-- The references lead to paths in normal form. -/
def LeadToNormal (refs : List IndexedReference) : Prop :=
  ∀ r ∈ refs, r.target.IsNormal

theorem regular_empty : Regular {} :=
  ⟨derived_empty, fun _ h => by cases h⟩

theorem isNormal_foldl_addCaller {targets : List Path} (htargets : ∀ t ∈ targets, t.IsNormal)
    (h : ∀ t ∈ inverse.keys, t.IsNormal) :
    ∀ t ∈ (targets.foldl (addCaller file) inverse).keys, t.IsNormal := by
  induction targets generalizing inverse with
  | nil => exact h
  | cons target targets ih =>
    refine ih (fun t ht => htargets t (by simp [ht])) fun t ht => ?_
    rcases SortedMap.mem_keys_insert ht with rfl | ht
    · exact htargets t (by simp)
    · exact h t ht

theorem mem_keys_dropCaller {target : Path} (h : t ∈ (dropCaller file inverse target).keys) :
    t ∈ inverse.keys := by
  unfold dropCaller at h
  split at h
  · exact h
  next callers hfind =>
    split at h
    · exact SortedMap.mem_keys_erase h
    · -- the target has callers, so its key stays the one that was there
      rcases SortedMap.mem_keys_insert_iff.1 h with h | ⟨-, hnone⟩
      · exact h
      · rw [SortedMap.contains, hfind] at hnone
        cases hnone

theorem mem_keys_foldl_dropCaller {targets : List Path}
    (h : t ∈ (targets.foldl (dropCaller file) inverse).keys) : t ∈ inverse.keys := by
  induction targets generalizing inverse with
  | nil => exact h
  | cons target targets ih => exact mem_keys_dropCaller (ih h)

theorem Regular.put (h : s.Regular) (file : Path) (hrefs : ∀ refs ∈ refs?, LeadToNormal refs) :
    (s.put file refs?).Regular := by
  cases refs? with
  | some refs =>
    refine ⟨h.derived.put file (some refs),
      isNormal_foldl_addCaller (fun t ht => ?_) fun t ht => ?_⟩
    · exact isNormal_of_mem_targetsOf (hrefs refs rfl) (List.mem_of_mem_filter ht)
    · exact h.targets t (mem_keys_foldl_dropCaller ht)
  | none => exact ⟨h.derived.put file none, fun t ht => h.targets t (mem_keys_foldl_dropCaller ht)⟩

theorem isNormal_foldl_addCallers {entries : List (Path × List IndexedReference)}
    (hentries : ∀ e ∈ entries, LeadToNormal e.2) (h : ∀ t ∈ inverse.keys, t.IsNormal) :
    ∀ t ∈ (entries.foldl (fun inverse e =>
      e.2.foldl (fun inverse r => addCaller e.1 inverse r.target) inverse) inverse).keys,
      t.IsNormal := by
  induction entries generalizing inverse with
  | nil => exact h
  | cons e entries ih =>
    refine ih (fun e' he' => hentries e' (by simp [he'])) ?_
    dsimp only
    rw [← List.foldl_map]
    refine isNormal_foldl_addCaller (fun t ht => ?_) h
    obtain ⟨r, hr, rfl⟩ := List.mem_map.1 ht
    exact hentries e (by simp) r hr

theorem regular_ofForward {forward : SortedMap Path (List IndexedReference)}
    (h : ∀ e ∈ forward.entries, LeadToNormal e.2) : (ofForward forward).Regular :=
  ⟨derived_ofForward forward, isNormal_foldl_addCallers h fun _ ht => by cases ht⟩

/-- A snapshot is settled by its files, their references and the callers of each target. -/
theorem Regular.ext {s₁ s₂ : Snapshot} (h₁ : s₁.Regular) (h₂ : s₂.Regular)
    (hfiles : s₁.files = s₂.files) (hforward : s₁.forward = s₂.forward)
    (hcallers : ∀ t, callersOf s₁.inverse t = callersOf s₂.inverse t) : s₁ = s₂ := by
  have hinverse : s₁.inverse = s₂.inverse := by
    refine ext_isNormal h₁.targets h₂.targets fun t _ => ?_
    have hrel := h₁.derived.rel_callers h₂.derived
      (fun c t => by rw [refersTo, refersTo, hforward]) t
    have := hcallers t
    unfold callersOf at this
    cases hfind₁ : s₁.inverse.find? t <;> cases hfind₂ : s₂.inverse.find? t <;> simp_all
  obtain ⟨files, forward, inverse⟩ := s₁
  obtain ⟨files', forward', inverse'⟩ := s₂
  simp_all

/-- Patches of different files may be made in any order. -/
theorem Regular.put_comm (h : s.Regular) (hfiles : (file == other) = false)
    (hrefs : ∀ refs ∈ refs?, LeadToNormal refs) (hrefs' : ∀ refs ∈ refs'?, LeadToNormal refs) :
    (s.put file refs?).put other refs'? = (s.put other refs'?).put file refs? := by
  have hne : compare file other ≠ .eq := by
    intro heq
    rw [LawfulBEqOrd.compare_eq_iff_beq.1 heq] at hfiles
    cases hfiles
  have hfirst := h.put file hrefs
  have hsecond := h.put other hrefs'
  refine (hfirst.put other hrefs').ext (hsecond.put file hrefs) ?_ ?_ fun t => ?_
  · rw [files_put, files_put, files_put, files_put, SortedMap.alter_comm hne]
  · rw [forward_put, forward_put, forward_put, forward_put, SortedMap.alter_comm hne]
  · rw [hfirst.derived.callersOf_put, h.derived.callersOf_put, hsecond.derived.callersOf_put,
      h.derived.callersOf_put, SortedMap.alter_comm hne]

/-- A patch that is made twice is made once. -/
theorem Regular.put_put (h : s.Regular) (file : Path) (hrefs : ∀ refs ∈ refs?, LeadToNormal refs) :
    (s.put file refs?).put file refs? = s.put file refs? := by
  have hput := h.put file hrefs
  refine (hput.put file hrefs).ext hput ?_ ?_ fun t => ?_
  · rw [files_put, files_put, SortedMap.alter_alter]
  · rw [forward_put, forward_put, SortedMap.alter_alter]
  · rw [hput.derived.callersOf_put, h.derived.callersOf_put, SortedMap.alter_alter]

end Snapshot

end TemplateAtlas
