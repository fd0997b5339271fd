import Mathlib.Data.List.Forall2
import TemplateAtlas.Index.Basic
import TemplateAtlas.Proofs.Index.Snapshot

/-!
# The index stays consistent

Whatever happens to an index and in whatever order, what it serves is derived: builds that begin,
overlap and end late, changes that are true or not, clearings, and files that differ each time they
are asked (`Upheld.foldl_after`). So every check for consistency succeeds, and the call sites of a
target are its callers in order, each with its first reference (`callers_follow_from_references`).
-/

namespace TemplateAtlas

open Std Inquiry

namespace Snapshot

variable {s : Snapshot}

/-! ### What a derived snapshot shows -/

theorem beq_of_forall₂ {α : Type*} [BEq α] {l₁ l₂ : List α}
    (h : List.Forall₂ (fun a b => (a == b) = true) l₁ l₂) : (l₁ == l₂) = true := by
  induction h with
  | nil => rfl
  | cons hab _ ih =>
    show (_ && _) = true
    rw [hab]
    exact ih

/-- Maps with the same keys list the same keys. -/
theorem keys_beq {α β : Type*} {a : SortedMap Path α} {b : SortedMap Path β}
    (h : ∀ c, a.contains c = b.contains c) : (a.keys == b.keys) = true := by
  have hrel : ∀ c, Option.Rel (fun _ _ => True) (a.find? c) (b.find? c) := by
    intro c
    have := h c
    unfold SortedMap.contains at this
    cases ha : a.find? c <;> cases hb : b.find? c <;> simp_all
  have entries := SortedMap.forall₂_entries hrel
  refine beq_of_forall₂ ?_
  rw [SortedMap.keys, SortedMap.keys, List.forall₂_map_left_iff, List.forall₂_map_right_iff]
  exact entries.imp fun e f hef => LawfulBEqOrd.compare_eq_iff_beq.1 hef.1

/-- A derived snapshot passes the check for consistency. -/
theorem Derived.isConsistent (h : s.Derived) : s.isConsistent = true := by
  have hforward := derived_ofForward s.forward
  unfold Snapshot.isConsistent
  dsimp only
  rw [Bool.and_eq_true]
  constructor
  · have entries := SortedMap.forall₂_entries (hforward.rel_callers h fun _ _ => rfl)
    refine beq_of_forall₂ ?_
    rw [inverseLists, inverseLists, List.forall₂_map_left_iff, List.forall₂_map_right_iff]
    refine entries.imp fun e f hef => ?_
    show (_ && _) = true
    rw [LawfulBEqOrd.compare_eq_iff_beq.1 hef.1, SortedSet.toList, SortedSet.toList, keys_beq hef.2]
    rfl
  · exact keys_beq fun c => by rw [hforward.files, h.files]; rfl

/-! ### Call sites -/

/-- The files that are kept as callers of a target are those with a reference to it. -/
theorem Derived.exists_callers_iff (h : s.Derived) (target caller : Path) :
    (∃ callers, s.inverse.find? target = some callers ∧ callers.contains caller = true) ↔
      ∃ refs, s.forward.find? caller = some refs ∧ ∃ r ∈ refs, (r.target == target) = true := by
  have hcallers := h.callers target caller
  unfold callersOf refersTo leadsTo at hcallers
  constructor
  · rintro ⟨callers, hfind, hmem⟩
    rw [hfind, Option.getD_some, hmem] at hcallers
    cases hrefs : s.forward.find? caller with
    | none =>
      rw [hrefs] at hcallers
      cases hcallers
    | some refs =>
      rw [hrefs] at hcallers
      exact ⟨refs, rfl, List.any_eq_true.1 hcallers.symm⟩
  · rintro ⟨refs, hrefs, hleads⟩
    rw [hrefs, Option.getD_some, List.any_eq_true.2 hleads] at hcallers
    cases hfind : s.inverse.find? target with
    | none =>
      rw [hfind] at hcallers
      cases hcallers
    | some callers =>
      rw [hfind] at hcallers
      exact ⟨callers, rfl, hcallers⟩

/-- The call site of a file: its first reference to the target. -/
def site? (s : Snapshot) (target caller : Path) : Option CallSite :=
  ((s.forward.find? caller).bind fun refs => refs.find? (·.target == target)).map fun r =>
    ⟨caller, r.line, r.alias?⟩

theorem callersWithSites_eq_filterMap (s : Snapshot) (target : Path) :
    s.callersWithSites target = (s.directCallers target).filterMap (s.site? target) := by
  refine List.filterMap_congr fun caller _ => ?_
  unfold site?
  cases (s.forward.find? caller).bind fun refs => refs.find? (·.target == target) <;> rfl

theorem site?_eq_some_iff {target caller : Path} {site : CallSite} :
    s.site? target caller = some site ↔ ∃ refs r, s.forward.find? caller = some refs ∧
      refs.find? (·.target == target) = some r ∧ site = ⟨caller, r.line, r.alias?⟩ := by
  simp only [site?, Option.map_eq_some_iff, Option.bind_eq_some_iff, eq_comm (a := site)]
  constructor
  · rintro ⟨r, ⟨refs, hrefs, hr⟩, hsite⟩
    exact ⟨refs, r, hrefs, hr, hsite⟩
  · rintro ⟨refs, r, hrefs, hr, hsite⟩
    exact ⟨r, ⟨refs, hrefs, hr⟩, hsite⟩

/-- A file that refers to a target has a first reference to it. -/
theorem exists_site {caller target : Path} (h : s.refersTo caller target = true) :
    ∃ refs r, s.forward.find? caller = some refs ∧ refs.find? (·.target == target) = some r := by
  unfold refersTo at h
  cases hfind : s.forward.find? caller with
  | none =>
    rw [hfind] at h
    cases h
  | some refs =>
    rw [hfind] at h
    obtain ⟨r, hr⟩ := Option.isSome_iff_exists.1 (List.find?_isSome.2 (List.any_eq_true.1 h))
    exact ⟨refs, r, rfl, hr⟩

theorem Derived.refersTo_of_mem_directCallers (h : s.Derived) {caller target : Path}
    (hmem : caller ∈ s.directCallers target) : s.refersTo caller target = true := by
  rw [← h.callers, callersOf]
  unfold directCallers at hmem
  cases hfind : s.inverse.find? target with
  | none =>
    rw [hfind] at hmem
    cases hmem
  | some callers =>
    rw [hfind] at hmem
    exact SortedSet.contains_of_mem hmem

theorem map_filterMap_eq_self {α β : Type*} {f : α → Option β} {g : β → α} {l : List α}
    (h : ∀ a ∈ l, ∃ b, f a = some b ∧ g b = a) : (l.filterMap f).map g = l := by
  induction l with
  | nil => rfl
  | cons a l ih =>
    obtain ⟨b, hb, hg⟩ := h a (by simp)
    rw [List.filterMap_cons_some hb, List.map_cons, hg, ih fun a' ha' => h a' (by simp [ha'])]

/-- The call sites of a target are its callers, each once and in the same order. -/
theorem Derived.map_caller_callersWithSites (h : s.Derived) (target : Path) :
    (s.callersWithSites target).map (·.caller) = s.directCallers target := by
  rw [callersWithSites_eq_filterMap]
  refine map_filterMap_eq_self fun caller hmem => ?_
  obtain ⟨refs, r, hrefs, hr⟩ := exists_site (h.refersTo_of_mem_directCallers hmem)
  exact ⟨_, site?_eq_some_iff.2 ⟨refs, r, hrefs, hr, rfl⟩, rfl⟩

/-- A call site shows the caller's first reference to the target. -/
theorem exists_of_mem_callersWithSites {target : Path} {site : CallSite}
    (h : site ∈ s.callersWithSites target) :
    ∃ refs r, s.forward.find? site.caller = some refs ∧ refs.find? (·.target == target) = some r ∧
      site.line = r.line ∧ site.alias? = r.alias? := by
  rw [callersWithSites_eq_filterMap] at h
  obtain ⟨caller, -, hsite⟩ := List.mem_filterMap.1 h
  obtain ⟨refs, r, hrefs, hr, rfl⟩ := site?_eq_some_iff.1 hsite
  exact ⟨refs, r, hrefs, hr, rfl, rfl⟩

/-- Callers stand in strictly ascending order. -/
theorem pairwise_directCallers (s : Snapshot) (target : Path) :
    (s.directCallers target).Pairwise fun p q => compare p q = .lt := by
  unfold directCallers
  cases s.inverse.find? target with
  | none => exact .nil
  | some callers => exact callers.pairwise_keys

end Snapshot

namespace Index

/-! ### What happens to an index -/

/-- The end of the build with a number, which reads these files. -/
def finish (index : Index) (number : Nat) (files : List Path) : Inquiry (Bool × Index) := do
  let built ← indexFiles files
  index.endBuild number built

/-- Something that happens to an index. What is read is read from the files as they stand then, with
whatever is remembered of them. -/
inductive Event where
  /-- A build begins. -/
  | begins
  /-- The build with a number ends and has read these files. -/
  | ends (number : Nat) (files : List Path) (tree : FileTree) (memory : Memory)
  /-- A change arrives. It need not be true. -/
  | changes (change : FileChange) (tree : FileTree) (memory : Memory)
  /-- The index is cleared. -/
  | clears

/-- The index after an event. -/
def after (index : Index) : Event → Index
  | .begins => index.beginBuild.1
  | .ends number files tree memory => ((index.finish number files).run tree memory).1.2
  | .changes change tree memory => ((index.apply change).run tree memory).1
  | .clears => index.clear

/-- The queue after a change arrives. -/
def queued (index : Index) (change : FileChange) : List FileChange :=
  if index.inFlight then index.pending ++ [change] else index.pending

theorem apply_eq (index : Index) (change : FileChange) :
    index.apply change =
      if index.ready then do
        let snapshot ← applyNow change index.snapshot
        return { index with snapshot := snapshot, pending := index.queued change }
      else pure { index with pending := index.queued change } := by
  have hqueued :
      (if index.inFlight then { index with pending := index.pending ++ [change] } else index) =
      { index with pending := index.queued change } := by
    unfold queued
    split <;> rfl
  simp only [apply, hqueued]

theorem yields_applyNow {s : Snapshot} (h : s.Derived) (change : FileChange) :
    (applyNow change s).Yields Snapshot.Derived := by
  unfold applyNow
  cases change.kind with
  | deleted => exact h.removePath change.path
  | changed => exact (yields_true _).bind fun refs _ => h.setForward change.path refs
  | created => exact (yields_true _).bind fun refs _ => h.setForward change.path refs

theorem yields_indexFiles (files : List Path) : (indexFiles files).Yields Snapshot.Derived :=
  (yields_true _).bind fun _ _ => Snapshot.derived_ofForward _

/-- The snapshot without files has the property, a build makes snapshots that have it, and a change
keeps it. -/
structure Upheld (good : Snapshot → Prop) : Prop where
  /-- The snapshot without files has it. -/
  empty : good {}
  /-- What a build makes has it. -/
  built : ∀ files, (indexFiles files).Yields good
  /-- A change keeps it. -/
  changed : ∀ s, good s → ∀ change, (applyNow change s).Yields good

theorem upheld_derived : Upheld Snapshot.Derived :=
  ⟨Snapshot.derived_empty, yields_indexFiles, fun _ => yields_applyNow⟩

namespace Upheld

variable {good : Snapshot → Prop}

theorem applyAll (hgood : Upheld good) {s : Snapshot} (h : good s) (queue : List FileChange) :
    (applyAll queue s).Yields good := by
  induction queue generalizing s with
  | nil => exact h
  | cons change queue ih => exact (hgood.changed s h change).bind fun s' hs' => ih hs'

/-- Every event keeps the property of the served snapshot. -/
theorem after (hgood : Upheld good) {index : Index} (h : good index.snapshot) (event : Event) :
    good (index.after event).snapshot := by
  cases event with
  | begins => exact h
  | clears => exact hgood.empty
  | ends number files tree memory =>
    have : (index.finish number files).Yields fun result => good result.2.snapshot := by
      refine (hgood.built files).bind fun built hbuilt => ?_
      unfold endBuild
      split
      · exact h
      · exact (hgood.applyAll hbuilt index.pending).bind fun _ hs => hs
    exact this.run_fst tree memory
  | changes change tree memory =>
    have : (index.apply change).Yields fun index => good index.snapshot := by
      rw [apply_eq]
      split
      · exact (hgood.changed _ h change).bind fun _ hs => hs
      · exact h
    exact this.run_fst tree memory

/-- Whatever happens to a new index, its snapshot has the property. -/
theorem foldl_after (hgood : Upheld good) (events : List Event) :
    good (events.foldl Index.after {}).snapshot := by
  have hall : ∀ (index : Index), good index.snapshot →
      good (events.foldl Index.after index).snapshot := by
    induction events with
    | nil => exact fun _ h => h
    | cons event events ih => exact fun index h => ih _ (hgood.after h event)
  exact hall {} hgood.empty

end Upheld

/-- After any events, the callers of a target are the files whose references lead to it, no set of
callers is empty, the files are those whose references are known, and the check for consistency
succeeds. The call sites of a target are its callers, in ascending order, each with its first
reference to the target. -/
theorem callers_follow_from_references (events : List Event) :
    let s := (events.foldl after {}).snapshot
    (∀ target caller, (∃ callers, s.inverse.find? target = some callers ∧
      callers.contains caller = true) ↔
      ∃ refs, s.forward.find? caller = some refs ∧ ∃ r ∈ refs, (r.target == target) = true) ∧
    (∀ e ∈ s.inverse.entries, e.2.isEmpty = false) ∧
    (s.files.toList == s.forward.keys) = true ∧
    s.isConsistent = true ∧
    ∀ target, (s.callersWithSites target).map (·.caller) = s.directCallers target ∧
      ((s.directCallers target).Pairwise fun p q => compare p q = .lt) ∧
      ∀ site ∈ s.callersWithSites target, ∃ refs r, s.forward.find? site.caller = some refs ∧
        refs.find? (·.target == target) = some r ∧ site.line = r.line ∧ site.alias? = r.alias? := by
  intro s
  have h : s.Derived := upheld_derived.foldl_after events
  refine ⟨h.exists_callers_iff, fun e he => h.noneEmpty e.1 e.2 (SortedMap.find?_of_mem he),
    Snapshot.keys_beq h.files, h.isConsistent, fun target => ?_⟩
  refine ⟨h.map_caller_callersWithSites target, s.pairwise_directCallers target,
    fun site hsite => ?_⟩
  exact Snapshot.exists_of_mem_callersWithSites hsite

end Index

end TemplateAtlas
