import TemplateAtlas.Proofs.Graph.Outgoing
import TemplateAtlas.Proofs.SortedMap.Alter

/-!
# Snapshots: the callers follow from the references

A snapshot is `Derived`, if a file is a caller of exactly the targets of its references, no target
has an empty set of callers, and the files are those whose references are known. Every operation
keeps this, although none of them but the first computes the callers anew: a patch gives a file its
references or takes it away, and touches only the targets that the file gains or loses. Each of the
three maps is then changed at one key (`files_put`, `forward_put`, `callersOf_put`).
-/

namespace TemplateAtlas

open Std Inquiry

namespace Snapshot

variable {inverse : SortedMap Path (SortedSet Path)} {file t c : Path} {s : Snapshot}

/-! ### One caller more, one caller less -/

/-- The callers of a target. -/
def callersOf (inverse : SortedMap Path (SortedSet Path)) (target : Path) : SortedSet Path :=
  (inverse.find? target).getD .empty

/-- No target has an empty set of callers. -/
def NoneEmpty (inverse : SortedMap Path (SortedSet Path)) : Prop :=
  ∀ t callers, inverse.find? t = some callers → callers.isEmpty = false

theorem callersOf_congr (h : compare t c = .eq) : callersOf inverse t = callersOf inverse c := by
  rw [callersOf, callersOf, SortedMap.find?_congr inverse h]

theorem isEmpty_add (callers : SortedSet Path) (file : Path) :
    SortedMap.isEmpty (callers.add file) = false := by
  refine Bool.eq_false_iff.2 fun h => ?_
  have := SortedMap.contains_of_isEmpty h file
  rw [SortedSet.contains_add, Path.compare_beq_eq, beq_self_eq_true] at this
  cases this

theorem eq_empty_of_isEmpty {members : SortedSet Path} (h : members.isEmpty = true) :
    members = .empty := by
  obtain ⟨entries, ascend⟩ := members
  obtain rfl := List.isEmpty_iff.1 h
  rfl

theorem callersOf_addCaller (inverse : SortedMap Path (SortedSet Path)) (file target t : Path) :
    callersOf (addCaller file inverse target) t =
      if t == target then (callersOf inverse t).alter file (some ()) else callersOf inverse t := by
  rw [callersOf, addCaller, SortedMap.find?_insert]
  simp only [LawfulBEqOrd.compare_eq_iff_beq]
  split
  next h =>
    rw [Option.getD_some, callersOf_congr (LawfulBEqOrd.compare_eq_iff_beq.2 h), callersOf,
      SortedSet.add_eq_alter]
  next => rfl

theorem callersOf_dropCaller (inverse : SortedMap Path (SortedSet Path)) (file target t : Path) :
    callersOf (dropCaller file inverse target) t =
      if t == target then (callersOf inverse t).alter file none else callersOf inverse t := by
  by_cases h : (t == target) = true
  · have hcompare := LawfulBEqOrd.compare_eq_iff_beq.2 h
    rw [if_pos h, callersOf_congr hcompare, callersOf_congr hcompare, SortedMap.alter, dropCaller,
      callersOf, callersOf]
    cases hfind : inverse.find? target with
    | none => rw [hfind]; rfl
    | some callers =>
      dsimp only
      split
      next hempty =>
        -- the target is dropped, and an empty set is what it had left
        rw [SortedMap.find?_erase, if_pos ReflCmp.compare_self]
        exact (eq_empty_of_isEmpty hempty).symm
      next => rw [SortedMap.find?_insert, if_pos ReflCmp.compare_self, Option.getD_some,
        Option.getD_some]
  · have hcompare : compare t target ≠ .eq := fun heq => h (LawfulBEqOrd.compare_eq_iff_beq.1 heq)
    rw [if_neg h, dropCaller, callersOf, callersOf]
    split
    · rfl
    · split
      · rw [SortedMap.find?_erase, if_neg hcompare]
      · rw [SortedMap.find?_insert, if_neg hcompare]

/-- Steps that change the callers of one target each, at one file and in one way, change those of
all their targets so. -/
theorem callersOf_foldl
    {step : SortedMap Path (SortedSet Path) → Path → SortedMap Path (SortedSet Path)}
    {value? : Option Unit}
    (hstep : ∀ inverse target, callersOf (step inverse target) t =
      if t == target then (callersOf inverse t).alter file value? else callersOf inverse t)
    (targets : List Path) (inverse : SortedMap Path (SortedSet Path)) :
    callersOf (targets.foldl step inverse) t =
      if targets.any (t == ·) then (callersOf inverse t).alter file value?
        else callersOf inverse t := by
  induction targets generalizing inverse with
  | nil => rfl
  | cons target targets ih =>
    rw [List.foldl_cons, ih, hstep, List.any_cons]
    cases t == target <;> cases targets.any (t == ·) <;> simp [SortedMap.alter_alter]

theorem NoneEmpty.addCaller (h : NoneEmpty inverse) (file target : Path) :
    NoneEmpty (addCaller file inverse target) := by
  intro t callers hfind
  rw [Snapshot.addCaller, SortedMap.find?_insert] at hfind
  split at hfind
  · cases hfind
    exact isEmpty_add _ _
  · exact h t callers hfind

theorem NoneEmpty.dropCaller (h : NoneEmpty inverse) (file target : Path) :
    NoneEmpty (dropCaller file inverse target) := by
  intro t callers hfind
  unfold Snapshot.dropCaller at hfind
  split at hfind
  · exact h t callers hfind
  · split at hfind
    next hempty =>
      rw [SortedMap.find?_erase] at hfind
      split at hfind
      · cases hfind
      · exact h t callers hfind
    next hempty =>
      rw [SortedMap.find?_insert] at hfind
      split at hfind
      · cases hfind
        exact Bool.eq_false_iff.2 hempty
      · exact h t callers hfind

theorem contains_foldl_addCaller (file : Path) (targets : List Path)
    (inverse : SortedMap Path (SortedSet Path)) (t c : Path) :
    (callersOf (targets.foldl (addCaller file) inverse) t).contains c =
      ((targets.any (t == ·) && c == file) || (callersOf inverse t).contains c) := by
  rw [callersOf_foldl fun inverse target => callersOf_addCaller inverse file target t,
    ← Path.compare_beq_eq]
  cases targets.any (t == ·) with
  | false => rfl
  | true =>
    rw [if_pos rfl, SortedMap.contains_alter]
    by_cases h : compare c file = .eq <;> simp [h]

theorem NoneEmpty.foldl_addCaller (h : NoneEmpty inverse) (file : Path) (targets : List Path) :
    NoneEmpty (targets.foldl (Snapshot.addCaller file) inverse) := by
  induction targets generalizing inverse with
  | nil => exact h
  | cons target targets ih => exact ih (h.addCaller file target)

theorem NoneEmpty.foldl_dropCaller (h : NoneEmpty inverse) (file : Path) (targets : List Path) :
    NoneEmpty (targets.foldl (Snapshot.dropCaller file) inverse) := by
  induction targets generalizing inverse with
  | nil => exact h
  | cons target targets ih => exact ih (h.dropCaller file target)

/-! ### The invariant -/

/-- Does one of the references lead to the target? -/
def leadsTo (refs : List IndexedReference) (target : Path) : Bool :=
  refs.any (·.target == target)

/-- Does a reference of the file lead to the target, as far as the index knows? -/
def refersTo (s : Snapshot) (file target : Path) : Bool :=
  leadsTo ((s.forward.find? file).getD []) target

/-- The callers are those that follow from the references, and the files are those whose references
are known. -/
structure Derived (s : Snapshot) : Prop where
  /-- The files are those whose references are known. -/
  files : ∀ p, s.files.contains p = s.forward.contains p
  /-- The callers of a target are the files with a reference to it. -/
  callers : ∀ t c, (callersOf s.inverse t).contains c = s.refersTo c t
  /-- No target has an empty set of callers. -/
  noneEmpty : NoneEmpty s.inverse

theorem contains_targetsOf (refs : List IndexedReference) (t : Path) :
    (targetsOf refs).contains t = leadsTo refs t := by
  rw [Bool.eq_iff_iff, targetsOf, SortedSet.contains_ofList, leadsTo, List.any_eq_true]
  simp only [List.mem_map, exists_exists_and_eq_and, LawfulBEqOrd.compare_eq_iff_beq,
    BEq.comm (a := t)]

/-- A set has the members that one of its listed members equals. -/
theorem any_toList (members : SortedSet Path) (t : Path) :
    members.toList.any (t == ·) = SortedMap.contains members t := by
  rw [Bool.eq_iff_iff, List.any_eq_true, SortedMap.contains_eq_true_iff]
  simp only [LawfulBEqOrd.compare_eq_iff_beq]
  rfl

theorem any_toList_filter (members : SortedSet Path) {keep : Path → Bool}
    (respects : ∀ a b, (a == b) = true → keep a = keep b) (t : Path) :
    (members.toList.filter keep).any (t == ·) = (keep t && SortedMap.contains members t) := by
  rw [← any_toList, Bool.eq_iff_iff, List.any_eq_true, Bool.and_eq_true, List.any_eq_true]
  constructor
  · rintro ⟨a, hmem, ha⟩
    obtain ⟨hmem, hkeep⟩ := List.mem_filter.1 hmem
    exact ⟨by rwa [respects t a ha], a, hmem, ha⟩
  · rintro ⟨hkeep, a, hmem, ha⟩
    exact ⟨a, List.mem_filter.2 ⟨hmem, by rwa [← respects t a ha]⟩, ha⟩

theorem derived_empty : Derived {} :=
  ⟨fun _ => rfl, fun _ _ => rfl, fun _ _ h => by cases h⟩

/-- The callers that a list of files with their references gives. -/
theorem contains_foldl_addCallers (entries : List (Path × List IndexedReference))
    (inverse : SortedMap Path (SortedSet Path)) (t c : Path) :
    (callersOf (entries.foldl (fun inverse e =>
      e.2.foldl (fun inverse r => addCaller e.1 inverse r.target) inverse)
        inverse) t).contains c =
      (entries.any (fun e => c == e.1 && leadsTo e.2 t) || (callersOf inverse t).contains c) := by
  induction entries generalizing inverse with
  | nil => rfl
  | cons e entries ih =>
    have hany : (e.2.map (·.target)).any (t == ·) = leadsTo e.2 t := by
      simp only [leadsTo, List.any_map, Function.comp_def, BEq.comm (a := t)]
    have hfold : e.2.foldl (fun inverse r => addCaller e.1 inverse r.target) inverse =
        (e.2.map (·.target)).foldl (addCaller e.1) inverse := by
      rw [List.foldl_map]
    rw [List.foldl_cons, ih, hfold, contains_foldl_addCaller, hany, List.any_cons]
    cases leadsTo e.2 t <;> cases c == e.1 <;> cases entries.any fun e =>
      c == e.1 && leadsTo e.2 t <;> rfl

theorem NoneEmpty.foldl_addCallers (h : NoneEmpty inverse)
    (entries : List (Path × List IndexedReference)) :
    NoneEmpty (entries.foldl
      (fun inverse e => e.2.foldl (fun inverse r => Snapshot.addCaller e.1 inverse r.target)
        inverse) inverse) := by
  induction entries generalizing inverse with
  | nil => exact h
  | cons e entries ih =>
    refine ih ?_
    dsimp only
    rw [← List.foldl_map]
    exact h.foldl_addCaller e.1 _

/-- The callers that are computed from the references follow from them. -/
theorem derived_ofForward (forward : SortedMap Path (List IndexedReference)) :
    (ofForward forward).Derived := by
  refine ⟨fun p => ?_, fun t c => ?_, NoneEmpty.foldl_addCallers (fun _ _ h => by cases h) _⟩
  · rw [Bool.eq_iff_iff, ofForward, SortedSet.contains_ofList, SortedMap.contains_eq_true_iff]
  · have hnone : (callersOf .empty t).contains c = false := rfl
    rw [ofForward, contains_foldl_addCallers, hnone, Bool.or_false, refersTo, Bool.eq_iff_iff,
      List.any_eq_true]
    simp only [Bool.and_eq_true, ← LawfulBEqOrd.compare_eq_iff_beq]
    constructor
    · rintro ⟨⟨k, refs⟩, hmem, hk, hleads⟩
      rwa [SortedMap.find?_eq_some_iff.2 ⟨k, hmem, hk⟩]
    · intro hleads
      cases hfind : forward.find? c with
      | none =>
        rw [hfind] at hleads
        cases hleads
      | some refs =>
        obtain ⟨k, hmem, hk⟩ := SortedMap.find?_eq_some_iff.1 hfind
        rw [hfind] at hleads
        exact ⟨(k, refs), hmem, hk, hleads⟩

/-! ### Patching -/

theorem contains_targets (s : Snapshot) (file t : Path) :
    (s.targets file).contains t = s.refersTo file t :=
  contains_targetsOf _ t

/-- The snapshot with these references of a file, or without the file. -/
def put (s : Snapshot) (file : Path) : Option (List IndexedReference) → Snapshot
  | some refs => s.setForward file refs
  | none => s.removeFile file

theorem files_put (s : Snapshot) (file : Path) (refs? : Option (List IndexedReference)) :
    (s.put file refs?).files = s.files.alter file (refs?.map fun _ => ()) := by
  cases refs? with
  | some refs => exact SortedSet.add_eq_alter s.files file
  | none => rfl

theorem forward_put (s : Snapshot) (file : Path) (refs? : Option (List IndexedReference)) :
    (s.put file refs?).forward = s.forward.alter file refs? := by
  cases refs? <;> rfl

/-- The file is a caller of the targets of its references, and every other caller stays. -/
theorem Derived.callersOf_put (h : s.Derived) (file : Path) (refs? : Option (List IndexedReference))
    (t : Path) :
    callersOf (s.put file refs?).inverse t =
      (callersOf s.inverse t).alter file (if leadsTo (refs?.getD []) t then some () else none) := by
  have hkeep : ∀ (members : SortedSet Path) (a b : Path), (a == b) = true →
      (!SortedMap.contains members a) = !SortedMap.contains members b := by
    intro members a b hab
    rw [SortedMap.contains_congr members (LawfulBEqOrd.compare_eq_iff_beq.2 hab)]
  have hstays : s.refersTo file t = true →
      callersOf s.inverse t = (callersOf s.inverse t).alter file (some ()) := by
    intro hrefers
    rw [← SortedSet.add_eq_alter, SortedSet.add_of_contains (h.callers t file ▸ hrefers)]
  have habsent : s.refersTo file t = false →
      callersOf s.inverse t = (callersOf s.inverse t).alter file none := by
    intro hrefers
    exact (SortedMap.erase_of_not_contains (h.callers t file ▸ hrefers)).symm
  cases refs? with
  | some refs =>
    rw [put, Snapshot.setForward]
    dsimp only
    rw [callersOf_foldl fun inverse target => callersOf_addCaller inverse file target t,
      callersOf_foldl fun inverse target => callersOf_dropCaller inverse file target t,
      any_toList_filter _ (hkeep _), any_toList_filter _ (hkeep _), contains_targets,
      contains_targetsOf, Option.getD_some]
    cases hold : s.refersTo file t <;> cases leadsTo refs t
    · exact habsent hold
    · rfl
    · rfl
    · exact hstays hold
  | none =>
    rw [put, Snapshot.removeFile]
    dsimp only
    rw [callersOf_foldl fun inverse target => callersOf_dropCaller inverse file target t,
      any_toList, contains_targets]
    cases hold : s.refersTo file t
    · exact habsent hold
    · rfl

theorem refersTo_put (s : Snapshot) (file : Path) (refs? : Option (List IndexedReference))
    (c t : Path) :
    (s.put file refs?).refersTo c t =
      if c == file then leadsTo (refs?.getD []) t else s.refersTo c t := by
  rw [refersTo, forward_put, SortedMap.find?_alter, refersTo]
  simp only [LawfulBEqOrd.compare_eq_iff_beq]
  split <;> rfl

/-- Dropping the targets that are lost and adding those that are gained makes the new references
count. -/
theorem Derived.put (h : s.Derived) (file : Path) (refs? : Option (List IndexedReference)) :
    (s.put file refs?).Derived := by
  refine ⟨fun p => ?_, fun t c => ?_, ?_⟩
  · rw [files_put, forward_put, SortedMap.contains_alter, SortedMap.contains_alter, h.files,
      Option.isSome_map]
  · rw [h.callersOf_put, SortedMap.contains_alter, refersTo_put, h.callers]
    simp only [LawfulBEqOrd.compare_eq_iff_beq]
    cases leadsTo (refs?.getD []) t <;> rfl
  · cases refs? with
    | some refs => exact (h.noneEmpty.foldl_dropCaller file _).foldl_addCaller file _
    | none => exact h.noneEmpty.foldl_dropCaller file _

theorem Derived.setForward (h : s.Derived) (file : Path) (refs : List IndexedReference) :
    (s.setForward file refs).Derived :=
  h.put file (some refs)

theorem Derived.removeFile (h : s.Derived) (file : Path) : (s.removeFile file).Derived :=
  h.put file none

theorem Derived.foldl_removeFile (h : s.Derived) (files : List Path) :
    (files.foldl Snapshot.removeFile s).Derived := by
  induction files generalizing s with
  | nil => exact h
  | cons file files ih => exact ih (h.removeFile file)

theorem Derived.removePath (h : s.Derived) (path : Path) : (s.removePath path).Derived := by
  unfold Snapshot.removePath
  split
  · exact h.removeFile path
  · exact h.foldl_removeFile _

/-! ### Uniqueness -/

/-- Derived snapshots with the same references have the same callers. -/
theorem Derived.rel_callers {s₁ s₂ : Snapshot} (h₁ : s₁.Derived) (h₂ : s₂.Derived)
    (hrefers : ∀ c t, s₁.refersTo c t = s₂.refersTo c t) (t : Path) :
    Option.Rel (fun a b : SortedSet Path => ∀ c, SortedMap.contains a c = SortedMap.contains b c)
      (s₁.inverse.find? t) (s₂.inverse.find? t) := by
  have hcallers : ∀ c, (callersOf s₁.inverse t).contains c =
      (callersOf s₂.inverse t).contains c := by
    intro c
    rw [h₁.callers, h₂.callers, hrefers]
  unfold callersOf at hcallers
  cases hfind₁ : s₁.inverse.find? t with
  | none =>
    cases hfind₂ : s₂.inverse.find? t with
    | none => exact .none
    | some b =>
      obtain ⟨c, hc⟩ := SortedMap.exists_contains (h₂.noneEmpty t b hfind₂)
      have := hcallers c
      rw [hfind₁, hfind₂, Option.getD_some, hc] at this
      cases this
  | some a =>
    cases hfind₂ : s₂.inverse.find? t with
    | none =>
      obtain ⟨c, hc⟩ := SortedMap.exists_contains (h₁.noneEmpty t a hfind₁)
      have := hcallers c
      rw [hfind₁, hfind₂, Option.getD_some, hc] at this
      cases this
    | some b => exact .some (by simpa [hfind₁, hfind₂] using hcallers)

end Snapshot

end TemplateAtlas
