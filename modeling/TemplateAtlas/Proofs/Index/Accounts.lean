import TemplateAtlas.Proofs.Index.Consistency
import TemplateAtlas.Proofs.Index.Queue

/-!
# The queue and the builds under way

Builds overlap, and each may be overtaken by a later number. What the queue says, together with the
list of the latest build, accounts for the files that are there (`Accounts`), whether a change
arrives, a build begins or ends, or the index is cleared.
-/

namespace TemplateAtlas

/-- A build under way. -/
structure OpenBuild where
  /-- Its number. -/
  number : Nat
  /-- The files that it has listed and will read. -/
  files : List Path

namespace Index

/-! ### Numbers and the queue -/

/-- The numbers are in order, and the queue accounts for what happened since the latest build has
listed its files. -/
structure Accounts (index : Index) (builds : List OpenBuild) (member : Path → Prop) : Prop where
  /-- No number is complete before it is taken. -/
  numbers : index.completed ≤ index.started
  /-- Nothing is queued, unless a build is under way. -/
  idle : index.inFlight = false → index.pending = []
  /-- The queued changes are about addresses. -/
  pending : ∀ change ∈ index.pending, change.path.IsAddress
  /-- What the queue says is true. -/
  truthful : Queue.Truthful index.pending member
  /-- No two builds have the same number. -/
  apart : (builds.map OpenBuild.number).Nodup
  /-- The builds have taken their numbers. -/
  begun : ∀ build ∈ builds, build.number ≤ index.started
  /-- The latest number is not complete while its build is under way. -/
  latest : ∀ build ∈ builds, build.number = index.started → index.inFlight = true
  /-- The builds have listed addresses. -/
  files : ∀ build ∈ builds, ∀ p ∈ build.files, p.IsAddress
  /-- The files of which the queue says nothing are those that the latest build has listed. -/
  completes : ∀ build ∈ builds, build.number = index.started →
    Queue.Completes index.pending build.files member

namespace Accounts

variable {index : Index} {builds : List OpenBuild} {member member' : Path → Prop}

theorem congr (h : index.Accounts builds member) (hmember : ∀ q, member' q ↔ member q) :
    index.Accounts builds member' := by
  have heq : member' = member := funext fun q => propext (hmember q)
  exact heq ▸ h

theorem change {change : FileChange} (h : index.Accounts builds member)
    (hpath : change.path.IsAddress) (hexplains : change.Explains member member')
    (snapshot : Snapshot) :
    Accounts { index with snapshot := snapshot, pending := index.queued change }
      builds member' := by
  by_cases hflight : index.inFlight = true
  · have hqueued : index.queued change = index.pending ++ [change] := if_pos hflight
    rw [hqueued]
    refine ⟨h.numbers, fun hidle => ?_, fun c hc => ?_, h.truthful.append hexplains, h.apart,
      h.begun, h.latest,
      h.files, fun build hbuild hnumber => (h.completes build hbuild hnumber).append hexplains⟩
    · cases hflight.symm.trans hidle
    · rcases List.mem_append.1 hc with hc | hc
      · exact h.pending c hc
      · rwa [List.mem_singleton.1 hc]
  · have hqueued : index.queued change = [] := by
      rw [queued, if_neg hflight, h.idle (Bool.eq_false_iff.2 hflight)]
    rw [hqueued]
    refine ⟨h.numbers, fun _ => rfl, fun c hc => (by cases hc),
      fun q _ found hfound => (by cases hfound), h.apart,
      h.begun, h.latest, h.files, fun build hbuild hnumber =>
        absurd (h.latest build hbuild hnumber) hflight⟩

theorem clear (h : index.Accounts builds member) : index.clear.Accounts builds member := by
  have hnumber : ∀ build ∈ builds, build.number ≠ index.started + 1 := by
    intro build hbuild heq
    have := h.begun build hbuild
    omega
  exact ⟨Nat.le_refl _, fun _ => rfl, fun c hc => (by cases hc),
    fun q _ found hfound => (by cases hfound), h.apart,
    fun build hbuild => (h.begun build hbuild).trans (Nat.le_succ _),
    fun build hbuild heq => absurd heq (hnumber build hbuild), h.files,
    fun build hbuild heq => absurd heq (hnumber build hbuild)⟩

/-- A build begins, and lists the files that are there. -/
theorem beginBuild (h : index.Accounts builds member) {files : List Path}
    (haddress : ∀ p ∈ files, p.IsAddress) (hfiles : ∀ q, q ∈ files ↔ member q) :
    index.beginBuild.1.Accounts (⟨index.beginBuild.2, files⟩ :: builds) member := by
  have hnumber : ∀ build ∈ builds, build.number ≠ index.started + 1 := by
    intro build hbuild heq
    have := h.begun build hbuild
    omega
  have hflight : index.beginBuild.1.inFlight = true := by
    have := h.numbers
    simp only [Index.beginBuild, inFlight, bne_iff_ne]
    omega
  refine ⟨h.numbers.trans (Nat.le_succ _), fun hidle => ?_, h.pending, h.truthful,
    List.nodup_cons.2 ⟨fun hmem => ?_, h.apart⟩, fun build hbuild => ?_, fun _ _ _ =>
      hflight, fun build hbuild => ?_,
    fun build hbuild heq => ?_⟩
  · rw [hflight] at hidle
    cases hidle
  · obtain ⟨build, hbuild, heq⟩ := List.mem_map.1 hmem
    exact hnumber build hbuild heq
  · rcases List.mem_cons.1 hbuild with rfl | hbuild
    · exact Nat.le_refl _
    · exact (h.begun build hbuild).trans (Nat.le_succ _)
  · rcases List.mem_cons.1 hbuild with rfl | hbuild
    · exact haddress
    · exact h.files build hbuild
  · rcases List.mem_cons.1 hbuild with rfl | hbuild
    · intro q _ _
      exact hfiles q
    · exact absurd heq (hnumber build hbuild)

variable {before after : List OpenBuild} {build : OpenBuild}

/-- A build that ends without being published is no longer under way. -/
theorem drop (h : index.Accounts (before ++ build :: after) member) :
    index.Accounts (before ++ after) member := by
  have hsublist : (before ++ after).Sublist (before ++ build :: after) :=
    (List.Sublist.refl before).append (List.sublist_cons_self build after)
  exact ⟨h.numbers, h.idle, h.pending, h.truthful, h.apart.sublist (hsublist.map _),
    fun b hb => h.begun b (hsublist.subset hb), fun b hb => h.latest b (hsublist.subset hb),
    fun b hb => h.files b (hsublist.subset hb), fun b hb => h.completes b (hsublist.subset hb)⟩

/-- The latest build ends and is published. -/
theorem publish (h : index.Accounts (before ++ build :: after) member)
    (hnumber : build.number = index.started) (snapshot : Snapshot) :
    Accounts
      { index with snapshot := snapshot, ready := true, completed := index.started, pending := [] }
      (before ++ after) member := by
  have hother : ∀ b ∈ before ++ after, b.number ≠ index.started := by
    intro b hb heq
    have hapart := h.apart
    rw [List.map_append, List.map_cons, List.nodup_middle, List.nodup_cons, ← List.map_append,
      hnumber] at hapart
    exact hapart.1 (List.mem_map.2 ⟨b, hb, heq⟩)
  have hrest := h.drop
  exact ⟨Nat.le_refl _, fun _ => rfl, fun c hc => (by cases hc),
    fun q _ found hfound => (by cases hfound), hrest.apart,
    hrest.begun, fun b hb heq => absurd heq (hother b hb), hrest.files, fun b hb heq =>
      absurd heq (hother b hb)⟩

/-- The files and the queue that the latest build is published from. -/
theorem isAddressed (h : index.Accounts builds member) (hbuild : build ∈ builds) :
    Publication.IsAddressed ⟨index.pending, build.files⟩ :=
  ⟨h.pending, h.files build hbuild⟩

end Accounts

end Index

end TemplateAtlas
