import TemplateAtlas.Index.Basic
import TemplateAtlas.Proofs.Index.Build
import TemplateAtlas.Proofs.Path.Address

/-!
# Queued changes

A build has read the files of a corpus as they stood when it began, and the queue holds the changes
since then. The last queued change that concerns a file says whether it is there. Replaying the
queue follows it with one exception: a deletion of a path that is a file of the replayed list
removes that file alone, and what was listed below the path stays (`contains_applyTo`). A
publication is as good as a build that begins when it is published, if and only if no file is
stranded in this way (`Publication.mem_kept_iff`, `Publication.exists_stray`).
-/

namespace TemplateAtlas

open Std Inquiry

namespace FileChange

/-! ### One change -/

/-- Does the change say whether the path leads to a file? A deletion does so of every path at or
below its own. -/
def concerns (change : FileChange) (p : Path) : Bool :=
  if change.kind = .deleted then p.startsWith change.path else p == change.path

/-- The files of an index after the change. -/
def applyTo (change : FileChange) (files : SortedSet Path) : SortedSet Path :=
  if change.kind = .deleted then
    if files.contains change.path then files.erase change.path
    else files.filter fun p _ => !p.startsWith change.path
  else files.add change.path

/-- The change explains how one set of files became another. -/
def Explains (change : FileChange) (member member' : Path → Prop) : Prop :=
  ∀ q, q.IsAddress → (member' q ↔ if change.concerns q then change.kind ≠ .deleted else member q)

variable {change : FileChange} {p : Path}

theorem concerns_of_deleted (hkind : change.kind = .deleted) (p : Path) :
    change.concerns p = p.startsWith change.path :=
  if_pos hkind

theorem concerns_of_not_deleted (hkind : change.kind ≠ .deleted) (p : Path) :
    change.concerns p = (p == change.path) :=
  if_neg hkind

/-- A change that leaves a file has a say of its own path alone. -/
theorem concerns_iff_eq (hkind : change.kind ≠ .deleted) (hpath : change.path.IsAddress)
    (hp : p.IsAddress) : change.concerns p = true ↔ p = change.path := by
  rw [concerns_of_not_deleted hkind, Path.beq_iff]
  exact ⟨hp.isNormal.eq hpath.isNormal, fun heq => by rw [heq]⟩

theorem concerns_self (change : FileChange) : change.concerns change.path = true := by
  unfold concerns
  split
  · exact List.isPrefixOf_iff_prefix.2 List.prefix_rfl
  · exact beq_self_eq_true _

theorem concerns_congr {q : Path} (h : (p == q) = true) (change : FileChange) :
    change.concerns p = change.concerns q := by
  rw [concerns, concerns, Path.startsWith, Path.startsWith, Path.beq_iff.1 h, BEq.congr_left h]

/-- A deletion that finds a file at its path removes no other. -/
theorem contains_applyTo (change : FileChange) (files : SortedSet Path) (p : Path) :
    SortedMap.contains (change.applyTo files) p =
      if change.concerns p then
        change.kind != .deleted ||
          (p != change.path && files.contains change.path && files.contains p)
      else SortedMap.contains files p := by
  have hself : p == change.path → change.concerns p = true := by
    intro h
    rw [concerns_congr h, concerns_self]
  unfold applyTo
  by_cases hkind : change.kind = .deleted
  · have hconcerns := concerns_of_deleted hkind p
    rw [if_pos hkind]
    split
    next hcontains =>
      rw [SortedMap.contains_erase, bne, Path.compare_beq_eq]
      by_cases hp : (p == change.path) = true
      · simp [hself hp, hp, hkind, bne]
      · simp [hp, hcontains, hkind, bne]
    next hcontains =>
      have respects : ∀ a k : Path, compare a k = .eq →
          (!k.startsWith change.path) = !a.startsWith change.path := by
        intro a k hak
        rw [Path.startsWith, Path.startsWith, Path.compare_eq_iff.1 hak]
      rw [SortedMap.contains_filter respects, ← hconcerns, Bool.eq_false_iff.2 hcontains]
      cases change.concerns p <;> simp [hkind]
  · rw [if_neg hkind, SortedSet.contains_add, Path.compare_beq_eq, concerns_of_not_deleted hkind]
    cases p == change.path <;> simp [hkind]

theorem mem_applyTo {files : SortedSet Path} (h : p ∈ (change.applyTo files).toList) :
    p = change.path ∨ p ∈ files.toList := by
  unfold applyTo at h
  split at h
  · split at h
    · exact .inr (SortedMap.mem_keys_erase h)
    · exact .inr (SortedMap.mem_keys_filter h)
  · exact SortedSet.mem_add h

end FileChange

namespace Index

variable {change : FileChange} {view : View}

theorem answer_applyNow_of_deleted (hkind : change.kind = .deleted) (s : Snapshot) (view : View) :
    (applyNow change s).answer view = s.removePath change.path := by
  rw [applyNow, hkind]
  rfl

theorem answer_applyNow_of_not_deleted (hkind : change.kind ≠ .deleted) (s : Snapshot)
    (view : View) :
    (applyNow change s).answer view =
      s.setForward change.path ((indexReferences change.path).answer view) := by
  unfold applyNow
  cases hk : change.kind with
  | deleted => exact absurd hk hkind
  | changed => exact answer_bind ..
  | created => exact answer_bind ..

end Index

namespace Snapshot.Reports

variable {s : Snapshot} {view view' : View} {member member' : Path → Prop} {change : FileChange}

section Explained

variable (hpath : change.path.IsAddress) (hexplains : change.Explains member member')
variable (hmember : ∀ p, member p → p.IsAddress) (hmember' : ∀ p, member' p → p.IsAddress)
variable (hview : ∀ p, member p → change.concerns p = false →
  (indexReferences p).answer view' = (indexReferences p).answer view)

include hpath hexplains hmember hmember' hview

/-- A deleted path may be listed itself, but then nothing is listed below it. -/
theorem applyNow_of_deleted (h : s.Reports view member) (hkind : change.kind = .deleted)
    (hfile : member change.path → ∀ p, member p → change.concerns p = true → p = change.path) :
    ((Index.applyNow change s).answer view').Reports view' member' := by
  have hiff : ∀ p, member' p ↔ member p ∧ (member change.path → p ≠ change.path) ∧
      (¬member change.path → p.startsWith change.path = false) := by
    intro p
    by_cases hp : p.IsAddress
    · rw [hexplains p hp, ← FileChange.concerns_of_deleted hkind]
      by_cases hconcerns : change.concerns p = true
      · simp only [hconcerns, hkind]
        grind
      · have hne : p ≠ change.path := fun heq => hconcerns (heq ▸ change.concerns_self)
        simp [hconcerns, hne]
    · exact iff_of_false (fun hmem => hp (hmember' p hmem)) fun hmem => hp (hmember p hmem.1)
  rw [Index.answer_applyNow_of_deleted hkind]
  refine (h.removePath hpath.isNormal).congr (fun p _ => hiff p) fun p _ hmem =>
    hview p ((hiff p).1 hmem).1 ?_
  by_contra hconcerns
  rw [hexplains p (hmember' p hmem), if_pos (by simpa using hconcerns)] at hmem
  exact hmem hkind

/-- A path that is written is listed afterwards, and nothing else changes. -/
theorem applyNow_of_not_deleted (h : s.Reports view member) (hkind : change.kind ≠ .deleted) :
    ((Index.applyNow change s).answer view').Reports view' member' := by
  have hother : ∀ p, p.IsAddress → p ≠ change.path → change.concerns p = false := fun p hp hne =>
    Bool.eq_false_iff.2 (mt (FileChange.concerns_iff_eq hkind hpath hp).1 hne)
  have hiff : ∀ p, member' p ↔ p = change.path ∨ member p := by
    intro p
    by_cases hp : p.IsAddress
    · rw [hexplains p hp]
      by_cases heq : p = change.path
      · simp [heq, change.concerns_self, hkind]
      · simp [hother p hp heq, heq]
    · refine iff_of_false (fun hmem => hp (hmember' p hmem)) ?_
      rintro (rfl | hmem)
      · exact hp hpath
      · exact hp (hmember p hmem)
  rw [Index.answer_applyNow_of_not_deleted hkind]
  exact (h.setForward hpath.isNormal fun p _ hp hmem =>
    hview p hmem (hother p (hmember p hmem) hp)).congr
    (fun p _ => hiff p) fun _ _ _ => rfl

/-- The index makes a change that happened, and its snapshot reports what the change explains. -/
theorem applyNow (h : s.Reports view member)
    (hfile : change.kind = .deleted → member change.path → ∀ p, member p →
      change.concerns p = true → p = change.path) :
    ((Index.applyNow change s).answer view').Reports view' member' := by
  by_cases hkind : change.kind = .deleted
  · exact applyNow_of_deleted hpath hexplains hmember hmember' hview h hkind (hfile hkind)
  · exact applyNow_of_not_deleted hpath hexplains hmember hmember' hview h hkind

end Explained

/-- A change that is made on a list of files, while the files themselves stay as they are. -/
theorem applyNow_contains {files : SortedSet Path}
    (h : s.Reports view (SortedMap.contains files · = true)) (hpath : change.path.IsNormal) :
    ((Index.applyNow change s).answer view).Reports view
    (SortedMap.contains (change.applyTo files) · = true) := by
  by_cases hkind : change.kind = .deleted
  · rw [Index.answer_applyNow_of_deleted hkind]
    refine (h.removePath hpath).congr (fun p hp => ?_) fun _ _ _ => rfl
    have hne : p ≠ change.path ↔ ¬(p == change.path) = true := not_congr
      ⟨fun heq => heq ▸ beq_self_eq_true _, fun heq => hp.eq hpath (Path.beq_iff.1 heq)⟩
    rw [FileChange.contains_applyTo, FileChange.concerns_of_deleted hkind]
    have hself : (p == change.path) = true → p.startsWith change.path = true := by
      intro heq
      rw [← FileChange.concerns_of_deleted hkind, FileChange.concerns_congr heq,
        FileChange.concerns_self]
    by_cases hbelow : p.startsWith change.path = true
    · simp only [hbelow, hne, hkind, if_true, bne, BEq.rfl, Bool.not_true, Bool.false_or,
        Bool.and_eq_true, Bool.not_eq_eq_eq_not, Bool.not_eq_true, Bool.true_eq_false, imp_false,
        Bool.not_eq_false]
      constructor
      · rintro ⟨⟨hother, hlisted⟩, hmem⟩
        exact ⟨hmem, fun _ => hother, hlisted⟩
      · rintro ⟨hmem, hother, hlisted⟩
        exact ⟨⟨hother hlisted, hlisted⟩, hmem⟩
    · have hother : ¬(p == change.path) = true := fun heq => hbelow (hself heq)
      simp [hbelow, hne, hother]
  · rw [Index.answer_applyNow_of_not_deleted hkind]
    refine (h.setForward hpath fun _ _ _ _ => rfl).congr (fun p hp => ?_) fun _ _ _ => rfl
    have heq : p = change.path ↔ (p == change.path) = true :=
      ⟨fun heq => heq ▸ beq_self_eq_true _, fun heq => hp.eq hpath (Path.beq_iff.1 heq)⟩
    rw [FileChange.contains_applyTo, FileChange.concerns_of_not_deleted hkind, heq]
    by_cases hp : (p == change.path) = true
    · simp [hp, hkind]
    · simp [hp]

end Snapshot.Reports

namespace Queue

/-! ### Several changes -/

/-- The files of an index after the queued changes. -/
def replay (queue : List FileChange) (files : SortedSet Path) : SortedSet Path :=
  queue.foldl (fun files change => change.applyTo files) files

/-- What the last of the queued changes that concern a path says: is there a file? -/
def lastWord? (queue : List FileChange) (p : Path) : Option Bool :=
  (queue.reverse.find? (·.concerns p)).map (·.kind != .deleted)

/-- What the queued changes say of paths is true. -/
def Truthful (queue : List FileChange) (member : Path → Prop) : Prop :=
  ∀ q, q.IsAddress → ∀ found, lastWord? queue q = some found → (found = true ↔ member q)

/-- The paths of which the queued changes say nothing are listed as they should be. -/
def Completes (queue : List FileChange) (files : List Path) (member : Path → Prop) : Prop :=
  ∀ q, q.IsAddress → lastWord? queue q = none → (q ∈ files ↔ member q)

variable {queue : List FileChange} {files : SortedSet Path} {change : FileChange} {p : Path}
variable {member member' : Path → Prop}

@[simp] theorem lastWord?_nil (p : Path) : lastWord? [] p = none := rfl

theorem lastWord?_append (queue : List FileChange) (change : FileChange) (p : Path) :
    lastWord? (queue ++ [change]) p =
      if change.concerns p then some (change.kind != .deleted) else lastWord? queue p := by
  rw [lastWord?, List.reverse_append, List.reverse_singleton, List.singleton_append,
    List.find?_cons, lastWord?]
  cases change.concerns p <;> rfl

theorem replay_append (queue : List FileChange) (change : FileChange) (files : SortedSet Path) :
    replay (queue ++ [change]) files = change.applyTo (replay queue files) := by
  rw [replay, List.foldl_append]
  rfl

theorem Truthful.append (h : Truthful queue member) (hexplains : change.Explains member member') :
    Truthful (queue ++ [change]) member' := by
  intro q hq found hfound
  rw [lastWord?_append] at hfound
  rw [hexplains q hq]
  split at hfound
  next hconcerns =>
    cases hfound
    rw [if_pos hconcerns, bne_iff_ne]
  next hconcerns =>
    rw [if_neg hconcerns]
    exact h q hq found hfound

theorem Completes.append {files : List Path} (h : Completes queue files member)
    (hexplains : change.Explains member member') : Completes (queue ++ [change]) files member' := by
  intro q hq hnone
  rw [lastWord?_append] at hnone
  rw [hexplains q hq]
  split at hnone
  · cases hnone
  next hconcerns =>
    rw [if_neg hconcerns]
    exact h q hq hnone

/-- A path of which the queue says nothing is listed after the replay as it was before. -/
theorem contains_replay_of_none (h : lastWord? queue p = none) (files : SortedSet Path) :
    SortedMap.contains (replay queue files) p = SortedMap.contains files p := by
  induction queue using List.reverseRecOn with
  | nil => rfl
  | append_singleton queue change ih =>
    rw [lastWord?_append] at h
    split at h
    · cases h
    next hconcerns => rw [replay_append, FileChange.contains_applyTo, if_neg hconcerns, ih h]

/-- A file that the queue says is there is listed after the replay. -/
theorem contains_replay_of_true (h : lastWord? queue p = some true) (files : SortedSet Path) :
    SortedMap.contains (replay queue files) p = true := by
  induction queue using List.reverseRecOn with
  | nil => cases h
  | append_singleton queue change ih =>
    rw [lastWord?_append] at h
    rw [replay_append, FileChange.contains_applyTo]
    split at h
    next hconcerns =>
      rw [if_pos hconcerns, Option.some.inj h, Bool.true_or]
    next hconcerns => rw [if_neg hconcerns, ih h]

theorem mem_replay (h : p ∈ (replay queue files).toList) :
    (∃ change ∈ queue, p = change.path) ∨ p ∈ files.toList := by
  induction queue using List.reverseRecOn with
  | nil => exact .inr h
  | append_singleton queue change ih =>
    rw [replay_append] at h
    rcases FileChange.mem_applyTo h with rfl | h
    · exact .inl ⟨change, by simp, rfl⟩
    · exact (ih h).imp_left fun ⟨c, hc, heq⟩ => ⟨c, by simp [hc], heq⟩

/-- The replay of the queue on a snapshot that reports some files. -/
theorem reports_applyAll {s : Snapshot} {view : View}
    (h : s.Reports view (SortedMap.contains files · = true))
    (hqueue : ∀ change ∈ queue, change.path.IsNormal) :
    ((Index.applyAll queue s).answer view).Reports view
    (SortedMap.contains (replay queue files) · = true) := by
  induction queue generalizing s files with
  | nil => exact h
  | cons change queue ih =>
    rw [Index.applyAll, answer_bind]
    exact ih (h.applyNow_contains (hqueue change (by simp))) fun c hc => hqueue c (by simp [hc])

end Queue

/-! ### Publications -/

/-- What is published: the files that a build has read, and the changes that were queued until it
ended. -/
structure Publication where
  /-- The queued changes. -/
  queue : List FileChange
  /-- The files that were read. -/
  files : List Path

namespace Publication

open Queue

/-- The files of the index after the publication. -/
def kept (publication : Publication) : SortedSet Path :=
  replay publication.queue (.ofList publication.files)

/-- The files that are kept although the last change that concerns them is a deletion. -/
def stranded (publication : Publication) : List Path :=
  publication.kept.toList.filter fun p => lastWord? publication.queue p == some false

/-- The publication is about addresses. -/
structure IsAddressed (publication : Publication) : Prop where
  /-- The queued changes are. -/
  queue : ∀ change ∈ publication.queue, change.path.IsAddress
  /-- The files that were read are. -/
  files : ∀ p ∈ publication.files, p.IsAddress

variable {publication : Publication} {member : Path → Prop} {p : Path}

theorem IsAddressed.of_mem_kept (h : publication.IsAddressed) (hp : p ∈ publication.kept.toList) :
    p.IsAddress := by
  rcases mem_replay hp with ⟨change, hmem, rfl⟩ | hmem
  · exact h.queue change hmem
  · exact h.files p (SortedSet.mem_ofList hmem)

theorem IsAddressed.contains_iff_mem (h : publication.IsAddressed) (hp : p.IsNormal) :
    SortedMap.contains publication.kept p = true ↔ p ∈ publication.kept.toList := by
  constructor
  · intro hcontains
    obtain ⟨q, hq, hpq⟩ := SortedMap.contains_eq_true_iff.1 hcontains
    rwa [hp.eq (h.of_mem_kept hq).isNormal (Path.compare_eq_iff.1 hpq)]
  · exact SortedSet.contains_of_mem

/-- The published snapshot reports the files that are kept, as they are when it is published. -/
theorem IsAddressed.reports (h : publication.IsAddressed) (view : View) :
    ((Index.applyAll publication.queue ((indexFiles publication.files).answer view)).answer
      view).Reports view (· ∈ publication.kept.toList) := by
  have hfiles : ((indexFiles publication.files).answer view).Reports view
      (SortedMap.contains (SortedSet.ofList publication.files) · = true) := by
    refine (Snapshot.reports_indexFiles (fun p hp => (h.files p hp).isNormal) view).congr
      (fun p hp => ?_)
      fun _ _ _ => rfl
    rw [SortedSet.contains_ofList]
    constructor
    · rintro ⟨q, hq, hpq⟩
      rwa [hp.eq (h.files q hq).isNormal (Path.compare_eq_iff.1 hpq)]
    · intro hmem
      exact ⟨p, hmem, ReflCmp.compare_self⟩
  exact (reports_applyAll hfiles fun change hmem => (h.queue change hmem).isNormal).congr
    (fun p hp => (h.contains_iff_mem hp).symm) fun _ _ _ => rfl

/-- A publication without stranded files keeps exactly the files that are there. -/
theorem mem_kept_iff (h : publication.IsAddressed) (htruthful : Truthful publication.queue member)
    (hcompletes : Completes publication.queue publication.files member)
    (hstranded : publication.stranded = []) (hp : p.IsAddress) :
    p ∈ publication.kept.toList ↔ member p := by
  cases hword : lastWord? publication.queue p with
  | none =>
    rw [← hcompletes p hp hword, ← h.contains_iff_mem hp.isNormal, kept,
      contains_replay_of_none hword, SortedSet.contains_ofList]
    constructor
    · rintro ⟨q, hq, hpq⟩
      rwa [hp.isNormal.eq (h.files q hq).isNormal (Path.compare_eq_iff.1 hpq)]
    · intro hmem
      exact ⟨p, hmem, ReflCmp.compare_self⟩
  | some found =>
    rw [← htruthful p hp found hword]
    cases found with
    | true =>
      rw [← h.contains_iff_mem hp.isNormal]
      exact iff_of_true (contains_replay_of_true hword _) rfl
    | false =>
      refine iff_of_false (fun hmem => ?_) Bool.false_ne_true
      have : p ∈ publication.stranded := List.mem_filter.2 ⟨hmem, by rw [hword]; rfl⟩
      rw [hstranded] at this
      cases this

/-- A stranded file is kept and is not there. -/
theorem exists_stray (h : publication.IsAddressed) (htruthful : Truthful publication.queue member)
    (hstranded : publication.stranded ≠ []) : ∃ p ∈ publication.kept.toList, ¬member p := by
  obtain ⟨p, hp⟩ := List.exists_mem_of_ne_nil _ hstranded
  obtain ⟨hmem, hword⟩ := List.mem_filter.1 hp
  refine ⟨p, hmem, fun hmember => ?_⟩
  cases (htruthful p (h.of_mem_kept hmem) false (beq_iff_eq.1 hword)).2 hmember

-- a directory gives way to a file of its name, and the queue is replayed on a list that has the
-- file already
example :
    stranded ⟨[⟨.changed, ⟨"/r/a.yml/b.yml"⟩⟩, ⟨.deleted, ⟨"/r/a.yml"⟩⟩, ⟨.created, ⟨"/r/a.yml"⟩⟩],
    [⟨"/r/a.yml"⟩]⟩ = [⟨"/r/a.yml/b.yml"⟩] := by
  rfl

end Publication

end TemplateAtlas
