import Mathlib.Data.List.Infix
import TemplateAtlas.Proofs.Corpus.Change

/-!
# The kept texts are fresh

Files are written and removed, directories are made, paths are read, and texts are dropped or
changes heard of, in any order (`Deed`). Every kept text is one that its path has shown, with the
stamp that it had then (`Recorded`). So reading shows the current text, if no path has shown two
contents with one stamp. Without that, it does so from the moment when the text of the path was
dropped until its file is written again (`Mirrors`). And from one reading to the next the file is
not looked into, unless it is written or its text is dropped (`Holds`).
-/

namespace TemplateAtlas

open Std Inquiry

/-- The location that the steps of a path lead to, whatever stands there. -/
def FileTree.destination (tree : FileTree) (p : Path) : Location :=
  p.components.foldl Component.move tree.working

theorem FileTree.destination_congr {p q : Path} (h : (p == q) = true) (tree : FileTree) :
    tree.destination p = tree.destination q := by
  rw [destination, destination, Path.beq_iff.1 h]

theorem FileTree.file_at_destination {tree : FileTree} {p : Path} {v : FileVersion}
    (h : tree.fileAt? p = some v) : tree.node? (tree.destination p) = some (.file v) := by
  obtain ⟨place, hlocate, hnode⟩ := fileAt?_eq_some_iff.1 h
  rw [destination, ← locate_eq_ok hlocate, hnode]

/-! ### One reading -/

namespace Cache

variable {cache : Cache} {tree tree' : FileTree} {p q : Path} {v : FileVersion}

/-- Reading fails and drops what was kept, or serves what was kept, or looks into the file and keeps
its text. -/
theorem read_cases (cache : Cache) (tree : FileTree) (q : Path) :
    (∃ reads, cache.read tree q = (none, ⟨cache.kept.erase q, reads⟩)) ∨
    (∃ v text, tree.fileAt? q = some v ∧ cache.fresh? q v = some text ∧ cache.read tree q =
      (some text, cache)) ∨
    (∃ v text, tree.fileAt? q = some v ∧ v.body? = some text ∧
      cache.read tree q = (some text, ⟨cache.kept.insert q ⟨text, v.stamp⟩, cache.reads + 1⟩)) := by
  rw [read_eq]
  cases hfile : tree.fileAt? q with
  | none => exact .inl ⟨_, rfl⟩
  | some v =>
    cases hfresh : cache.fresh? q v with
    | some text => exact .inr (.inl ⟨v, text, rfl, hfresh, by simp only [hfresh]⟩)
    | none =>
      cases hbody : v.body? with
      | none => exact .inl ⟨cache.reads + 1, by simp only [hfresh, hbody]⟩
      | some text => exact .inr (.inr ⟨v, text, rfl, hbody, by simp only [hfresh, hbody]⟩)

theorem fresh?_eq_some_iff {text : String} :
    cache.fresh? p v = some text ↔ cache.kept.find? p = some ⟨text, v.stamp⟩ := by
  unfold fresh?
  cases cache.kept.find? p with
  | none => simp
  | some kept =>
    obtain ⟨text', stamp⟩ := kept
    simp only [Option.some.injEq, KeptText.mk.injEq]
    split
    next h => simp [h]
    next h => simp [h]

theorem find?_invalidate (cache : Cache) (p q : Path) :
    (cache.invalidate q).kept.find? p = if compare p q = .eq then none else cache.kept.find? p :=
  SortedMap.find?_erase cache.kept q p

/-- While others write, what is kept for the path that is read has the stamp that its file had
before, and either was kept already or is the text that was read, and then the file has this stamp
afterwards, too. -/
theorem find?_readAmid_self {before during after : FileTree} {kept : KeptText}
    (h : (cache.readAmid before during after p).2.kept.find? p = some kept) :
    (before.fileAt? p).map (·.stamp) = some kept.stamp ∧
      (cache.kept.find? p = some kept ∨
        (during.fileAt? p).bind FileVersion.body? = some kept.text ∧
          (after.fileAt? p).map (·.stamp) = some kept.stamp) := by
  have hdropped : ∀ cache : Cache, (cache.invalidate p).kept.find? p ≠ some kept := by
    intro cache
    rw [find?_invalidate, if_pos ReflCmp.compare_self]
    exact (Option.some_ne_none kept).symm
  unfold readAmid at h
  cases hbefore : before.fileAt? p with
  | none =>
    simp only [hbefore] at h
    exact absurd h (hdropped _)
  | some v =>
    cases hfresh : cache.fresh? p v with
    | some text =>
      simp only [hbefore, hfresh] at h
      have hfind := fresh?_eq_some_iff.1 hfresh
      obtain rfl := Option.some.inj (hfind.symm.trans h)
      exact ⟨rfl, .inl hfind⟩
    | none =>
      cases hbody : (during.fileAt? p).bind FileVersion.body? with
      | none =>
        simp only [hbefore, hfresh, hbody] at h
        exact absurd h (hdropped _)
      | some text =>
        simp only [hbefore, hfresh, hbody] at h
        split at h
        next hstamp =>
          rw [SortedMap.find?_insert, if_pos ReflCmp.compare_self] at h
          cases h
          exact ⟨rfl, .inr ⟨rfl, hstamp⟩⟩
        next => exact absurd h (hdropped _)

theorem find?_read_of_ne (h : compare p q ≠ .eq) :
    (cache.read tree q).2.kept.find? p = cache.kept.find? p := by
  obtain ⟨reads, hread⟩ | ⟨v, text, -, -, hread⟩ | ⟨v, text, -, -, hread⟩ := cache.read_cases tree q
  · rw [hread, SortedMap.find?_erase, if_neg h]
  · rw [hread]
  · rw [hread, SortedMap.find?_insert, if_neg h]

/-! ### What is kept was shown -/

/-- Every kept text is one that its path has shown, with the stamp of that version. -/
def Recorded (shown : Path → FileVersion → Prop) (cache : Cache) : Prop :=
  ∀ p kept, cache.kept.find? p = some kept → ∃ v, shown p v ∧ v.body? = some kept.text ∧
    v.stamp = kept.stamp

variable {shown shown' : Path → FileVersion → Prop}

theorem Recorded.mono (h : cache.Recorded shown) (hshown : ∀ p v, shown p v → shown' p v) :
    cache.Recorded shown' := by
  intro p kept hfind
  obtain ⟨v, hv, hkept⟩ := h p kept hfind
  exact ⟨v, hshown p v hv, hkept⟩

theorem Recorded.invalidate (h : cache.Recorded shown) (q : Path) :
    (cache.invalidate q).Recorded shown := by
  intro p kept hfind
  rw [find?_invalidate] at hfind
  split at hfind
  · cases hfind
  · exact h p kept hfind

theorem Recorded.read (h : cache.Recorded shown)
    (hshown : ∀ p v, (p == q) = true → tree.fileAt? q = some v → shown p v) :
    (cache.read tree q).2.Recorded shown := by
  obtain ⟨reads, hread⟩ | ⟨v, text, -, -, hread⟩ | ⟨v, text, hfile, hbody, hread⟩ :=
    cache.read_cases tree q
  · rw [hread]
    exact h.invalidate q
  · rw [hread]
    exact h
  · intro p kept hfind
    rw [hread, SortedMap.find?_insert] at hfind
    split at hfind
    next hpq =>
      cases hfind
      exact ⟨v, hshown p v (LawfulBEqOrd.compare_eq_iff_beq.1 hpq) hfile, hbody, rfl⟩
    next => exact h p kept hfind

/-! ### What is kept is what the file holds -/

/-- If a text is kept for the path and there is a file, it is the text of this file. -/
def Mirrors (tree : FileTree) (p : Path) (cache : Cache) : Prop :=
  ∀ kept v, cache.kept.find? p = some kept → tree.node? (tree.destination p) = some (.file v) →
    v.body? = some kept.text

theorem mirrors_of_dropped (h : cache.kept.find? p = none) (tree : FileTree) :
    cache.Mirrors tree p := by
  intro kept v hfind
  rw [h] at hfind
  cases hfind

theorem Mirrors.invalidate (h : cache.Mirrors tree p) (q : Path) :
    (cache.invalidate q).Mirrors tree p := by
  intro kept v hfind
  rw [find?_invalidate] at hfind
  split at hfind
  · cases hfind
  · exact h kept v hfind

theorem Mirrors.read (h : cache.Mirrors tree p) (q : Path) :
    (cache.read tree q).2.Mirrors tree p := by
  obtain ⟨reads, hread⟩ | ⟨v, text, -, -, hread⟩ | ⟨v, text, hfile, hbody, hread⟩ :=
    cache.read_cases tree q
  · rw [hread]
    exact h.invalidate q
  · rw [hread]
    exact h
  · intro kept w hfind hnode
    rw [hread, SortedMap.find?_insert] at hfind
    split at hfind
    next hpq =>
      -- the path that was read leads to the file of `p`, which is the version that was kept
      rw [FileTree.destination_congr (LawfulBEqOrd.compare_eq_iff_beq.1 hpq),
        FileTree.file_at_destination hfile] at hnode
      cases hnode
      cases hfind
      exact hbody
    next => exact h kept w hfind hnode

theorem Mirrors.read_fst (h : cache.Mirrors tree p) :
    (cache.read tree p).1 = (tree.fileAt? p).bind FileVersion.body? := by
  have hagrees : cache.Agrees (· = p) tree := by
    rintro q rfl v text hfile hfresh
    exact h _ v (fresh?_eq_some_iff.1 hfresh) (FileTree.file_at_destination hfile)
  rw [hagrees.read_fst rfl, FileTree.view_text]

/-! ### What is kept has the stamp of the file -/

/-- A text is kept for the path, and if there is a file, it carries the stamp of the text. -/
def Holds (tree : FileTree) (p : Path) (cache : Cache) : Prop :=
  ∃ kept, cache.kept.find? p = some kept ∧
    ∀ v, tree.node? (tree.destination p) = some (.file v) → kept.stamp = v.stamp

theorem Holds.congr {cache' : Cache} (h : cache.Holds tree p)
    (hfind : cache'.kept.find? p = cache.kept.find? p) : cache'.Holds tree p := by
  obtain ⟨kept, hkept, hstamp⟩ := h
  exact ⟨kept, hfind.trans hkept, hstamp⟩

/-- A reading that succeeds leaves a text with the stamp of the file. -/
theorem holds_read (hpq : (p == q) = true) (h : (cache.read tree q).1.isSome = true) :
    (cache.read tree q).2.Holds tree p := by
  have hcompare := LawfulBEqOrd.compare_eq_iff_beq.2 hpq
  have hsame : ∀ v w, tree.fileAt? q = some v → tree.node? (tree.destination p) =
      some (.file w) → v = w := by
    intro v w hfile hnode
    rw [FileTree.destination_congr hpq, FileTree.file_at_destination hfile] at hnode
    cases hnode
    rfl
  obtain ⟨reads, hread⟩ | ⟨v, text, hfile, hfresh, hread⟩ | ⟨v, text, hfile, -, hread⟩ :=
    cache.read_cases tree q
  · rw [hread] at h
    cases h
  · rw [hread]
    refine ⟨⟨text, v.stamp⟩, ?_, fun w hnode => by rw [hsame v w hfile hnode]⟩
    rw [SortedMap.find?_congr _ hcompare, fresh?_eq_some_iff.1 hfresh]
  · rw [hread]
    refine ⟨⟨text, v.stamp⟩, ?_, fun w hnode => by rw [hsame v w hfile hnode]⟩
    rw [SortedMap.find?_insert, if_pos hcompare]

theorem Holds.read (h : cache.Holds tree p)
    (hspared : (p == q) = true → (cache.read tree q).1.isSome = true) :
    (cache.read tree q).2.Holds tree p := by
  by_cases hpq : (p == q) = true
  · exact holds_read hpq (hspared hpq)
  · exact h.congr (find?_read_of_ne fun heq => hpq (LawfulBEqOrd.compare_eq_iff_beq.1 heq))

theorem Holds.reads_read (h : cache.Holds tree p) (hfile : tree.fileAt? p = some v) :
    (cache.read tree p).2.reads = cache.reads := by
  obtain ⟨⟨text, stamp⟩, hkept, hstamp⟩ := h
  obtain rfl : stamp = v.stamp := hstamp v (FileTree.file_at_destination hfile)
  have hfresh : cache.fresh? p v = some text := fresh?_eq_some_iff.2 hkept
  rw [Cache.read_eq, hfile]
  simp only [hfresh]

end Cache

/-! ### Readings of a workspace -/

namespace Workspace

variable {tree : FileTree} {ws : Workspace} {change : FileChange} {good : Cache → Prop}

/-- The kept texts of a workspace. -/
abbrev cache (ws : Workspace) : Cache :=
  ws.memory.cache

/-- When the index hears of a change, the text of its path is dropped, and no other path is read. -/
theorem cache_indexChange (hread : ∀ cache, good cache → good (cache.read tree change.path).2)
    (h : good (ws.cache.invalidate change.path)) : good (ws.indexChange tree change).cache := by
  have hasks : (ws.index.apply change).Asks (· = change.path) (fun _ => True) := by
    apply Index.asks_apply
    exact ⟨rfl, trivial⟩
  rw [indexChange_eq_run]
  refine cache_run (fun cache p hp hgood => ?_) hasks h
  rw [hp]
  exact hread cache hgood

theorem cache_applyChange
    (hread : ∀ cache, good cache → good (cache.read tree change.path.normalize).2)
    (h : good (ws.cache.invalidate change.path.normalize)) :
    good (ws.applyChange tree change).cache := by
  rw [applyChange_eq]
  split
  · exact h
  · exact cache_indexChange hread h

end Workspace

/-! ### Runs -/

/-- Something that happens to the files or to the kept texts. -/
inductive Deed where
  /-- A file is written. -/
  | write (place : Location) (content : ByteArray) (time? : Option Nat)
  /-- Directories are made. -/
  | makeDirectories (place : Location)
  /-- What stands at a location is removed, and all that stands below. -/
  | remove (place : Location)
  /-- A path is read. -/
  | read (p : Path)
  /-- The kept text of a path is dropped. -/
  | invalidate (p : Path)
  /-- All kept texts are dropped. -/
  | invalidateAll
  /-- The index hears of a change. -/
  | indexChange (change : FileChange)
  /-- The workspace hears of a change. -/
  | applyChange (change : FileChange)

/-- The files, and a workspace on them. -/
structure Session where
  /-- The files. -/
  tree : FileTree
  /-- The workspace. -/
  ws : Workspace

namespace Session

/-- What is left after a deed. -/
def after (s : Session) : Deed → Session
  | .write place content time? => { s with tree := s.tree.put place content time? }
  | .makeDirectories place => { s with tree := s.tree.makeDirectories place }
  | .remove place => { s with tree := s.tree.remove place }
  | .read p => { s with ws := (s.ws.ask s.tree (Inquiry.text p)).2 }
  | .invalidate p => { s with ws := s.ws.forget p }
  | .invalidateAll => { s with ws := s.ws.forgetTexts }
  | .indexChange change => { s with ws := s.ws.indexChange s.tree change }
  | .applyChange change => { s with ws := s.ws.applyChange s.tree change }

/-- What is left after several deeds. -/
def run (s : Session) (deeds : List Deed) : Session :=
  deeds.foldl after s

/-- The text that a reading of the path shows. -/
def shows (s : Session) (p : Path) : Option String :=
  (s.ws.cache.read s.tree p).1

/-- The text of the file that the path leads to. -/
def current (s : Session) (p : Path) : Option String :=
  (s.tree.fileAt? p).bind FileVersion.body?

/-- The path has led to the version at some moment of the run, in one of its spellings. -/
def Shown (s : Session) (deeds : List Deed) (p : Path) (v : FileVersion) : Prop :=
  ∃ before, before <+: deeds ∧ ∃ q, (p == q) = true ∧ (s.run before).tree.fileAt? q = some v

/-- No path shows two contents with one stamp. -/
def TellsApart (s : Session) (deeds : List Deed) : Prop :=
  ∀ p v w, s.Shown deeds p v → s.Shown deeds p w → v.stamp = w.stamp → v.content = w.content

end Session

namespace Deed

/-- The deed writes the file at a location. -/
def Writes (place : Location) : Deed → Prop
  | .write place' _ _ => place' = place
  | _ => False

/-- The deed drops the kept text of a path. A reading does, if it fails. -/
def Drops (s : Session) (p : Path) : Deed → Prop
  | .read q => (p == q) = true ∧ s.shows q = none
  | .invalidate q => (p == q) = true
  | .invalidateAll => True
  | .indexChange change => (p == change.path) = true
  | .applyChange change => (p == change.path.normalize) = true
  | _ => False

end Deed

namespace Session

variable {s : Session} {deeds : List Deed} {d : Deed} {p : Path} {good : Cache → Prop}

theorem run_append (s : Session) (deeds deeds' : List Deed) :
    s.run (deeds ++ deeds') = (s.run deeds).run deeds' :=
  List.foldl_append

theorem run_cons (s : Session) (d : Deed) (deeds : List Deed) :
    s.run (d :: deeds) = (s.after d).run deeds :=
  rfl

theorem working_after (s : Session) (d : Deed) : (s.after d).tree.working = s.tree.working := by
  cases d with
  | write place content time? => cases time? <;> rfl
  | _ => rfl

theorem working_run (s : Session) (deeds : List Deed) :
    (s.run deeds).tree.working = s.tree.working := by
  induction deeds generalizing s with
  | nil => rfl
  | cons d deeds ih => exact (ih (s.after d)).trans (s.working_after d)

/-- The path leads to one location throughout a run. -/
theorem destination_run (s : Session) (deeds : List Deed) (p : Path) :
    (s.run deeds).tree.destination p = s.tree.destination p := by
  rw [FileTree.destination, working_run, FileTree.destination]

/-- A file that is not written is the file that was there. -/
theorem file_of_file_after {place : Location} (h : ¬d.Writes place) {v : FileVersion}
    (hnode : (s.after d).tree.node? place = some (.file v)) :
    s.tree.node? place = some (.file v) := by
  cases d with
  | write place' content time? =>
    rwa [after, FileTree.node?_put_of_ne content time? fun heq => h heq.symm] at hnode
  | makeDirectories place' => exact FileTree.node?_makeDirectories_eq_file_iff.1 hnode
  | remove place' => exact FileTree.node?_of_remove hnode
  | _ => exact hnode

/-- What readings keep and dropping texts keeps, every deed keeps. -/
theorem cache_after (hread : ∀ cache q, good cache → good (cache.read s.tree q).2)
    (hinvalidate : ∀ cache q, good cache → good (cache.invalidate q))
    (hnone : good s.ws.cache.invalidateAll) (d : Deed) (h : good s.ws.cache) :
    good (s.after d).ws.cache := by
  cases d with
  | write place content time? => exact h
  | makeDirectories place => exact h
  | remove place => exact h
  | read q => exact hread _ q h
  | invalidate q => exact hinvalidate _ q h
  | invalidateAll => exact hnone
  | indexChange change =>
    exact Workspace.cache_indexChange (fun cache => hread cache _) (hinvalidate _ _ h)
  | applyChange change =>
    exact Workspace.cache_applyChange (fun cache => hread cache _) (hinvalidate _ _ h)

/-! ### What was shown -/

theorem shown_of_fileAt? {q : Path} {v : FileVersion} (hpq : (p == q) = true)
    (h : (s.run deeds).tree.fileAt? q = some v) : s.Shown deeds p v :=
  ⟨deeds, List.prefix_rfl, q, hpq, h⟩

/-- Every kept text is one that its path has shown. -/
theorem recorded_run (hempty : s.ws.cache.kept = .empty) (deeds : List Deed) :
    (s.run deeds).ws.cache.Recorded (s.Shown deeds) := by
  induction deeds using List.reverseRecOn with
  | nil =>
    intro p kept hfind
    rw [run, List.foldl_nil, hempty] at hfind
    cases hfind
  | append_singleton deeds d ih =>
    have hstep : (s.run (deeds ++ [d])).ws.cache.Recorded (s.Shown deeds) := by
      rw [run_append]
      refine cache_after (fun cache q h => h.read fun p v hpq hfile => shown_of_fileAt? hpq hfile)
        (fun cache q h => h.invalidate q) ?_ d ih
      intro p kept hfind
      cases hfind
    refine hstep.mono fun p v => ?_
    rintro ⟨before, hbefore, hv⟩
    exact ⟨before, hbefore.trans (List.prefix_append _ _), hv⟩

/-- The versions that stand anywhere in the files at some moment of the run. -/
def versions (s : Session) (deeds : List Deed) : List FileVersion :=
  deeds.inits.flatMap fun before => (s.run before).tree.nodes.values.filterMap fun
    | .file v => some v
    | .directory => none

theorem mem_versions_of_shown {v : FileVersion} (h : s.Shown deeds p v) : v ∈ s.versions deeds := by
  obtain ⟨before, hbefore, q, -, hfile⟩ := h
  have hnode := FileTree.file_at_destination hfile
  refine List.mem_flatMap.2 ⟨before, (List.mem_inits before deeds).2 hbefore,
    List.mem_filterMap.2 ⟨.file v, ?_, rfl⟩⟩
  by_cases hnil : (s.run before).tree.destination q = []
  · rw [hnil, FileTree.node?_nil] at hnode
    cases hnode
  · rw [FileTree.node?_of_ne_nil _ hnil] at hnode
    obtain ⟨place, hmem, -⟩ := SortedMap.find?_eq_some_iff.1 hnode
    exact List.mem_map_of_mem hmem

/-- It is enough that no two files ever have different contents and one stamp. -/
theorem tellsApart_of_versions
    (h : ∀ v ∈ s.versions deeds, ∀ w ∈ s.versions deeds, v.stamp = w.stamp →
      v.content = w.content) : s.TellsApart deeds :=
  fun _ v w hv hw => h v (mem_versions_of_shown hv) w (mem_versions_of_shown hw)

theorem body?_congr {v w : FileVersion} (h : v.content = w.content) : v.body? = w.body? := by
  rw [FileVersion.body?, FileVersion.text?, h, FileVersion.body?, FileVersion.text?]

/-- Where no path has shown two contents with one stamp, a reading shows the current text. -/
theorem shows_eq_current (hempty : s.ws.cache.kept = .empty) (hapart : s.TellsApart deeds)
    (p : Path) : (s.run deeds).shows p = (s.run deeds).current p := by
  have hagrees : (s.run deeds).ws.cache.Agrees (fun _ => True) (s.run deeds).tree := by
    rintro q - v text hfile hfresh
    obtain ⟨w, hw, hbody, hstamp⟩ :=
      recorded_run hempty deeds q _ (Cache.fresh?_eq_some_iff.1 hfresh)
    have hv : s.Shown deeds q v := shown_of_fileAt? (BEq.refl q) hfile
    rw [body?_congr (hapart q v w hv hw hstamp.symm), hbody]
  rw [shows, hagrees.read_fst trivial, FileTree.view_text, current]

/-! ### After a text is dropped -/

theorem mirrors_after_of_drops (h : d.Drops s p) :
    (s.after d).ws.cache.Mirrors (s.after d).tree p := by
  have hdrop : ∀ (cache : Cache) q, (p == q) = true → (cache.invalidate q).Mirrors s.tree p := by
    intro cache q hpq
    refine Cache.mirrors_of_dropped ?_ s.tree
    rw [Cache.find?_invalidate, if_pos (LawfulBEqOrd.compare_eq_iff_beq.2 hpq)]
  cases d with
  | read q =>
    obtain ⟨hpq, hnone⟩ := h
    have hread : (s.after (.read q)).ws.cache = (s.ws.cache.read s.tree q).2 := rfl
    rw [shows] at hnone
    obtain ⟨reads, hcase⟩ | ⟨v, text, -, -, hcase⟩ | ⟨v, text, -, -, hcase⟩ :=
      s.ws.cache.read_cases s.tree q
    · rw [hread, hcase]
      exact hdrop ⟨s.ws.cache.kept, reads⟩ q hpq
    · rw [hcase] at hnone
      cases hnone
    · rw [hcase] at hnone
      cases hnone
  | invalidate q => exact hdrop _ q h
  | invalidateAll =>
    intro kept v hfind
    cases hfind
  | indexChange change =>
    exact @Workspace.cache_indexChange s.tree s.ws change (·.Mirrors s.tree p)
      (fun _ h => h.read _) (hdrop _ _ h)
  | applyChange change =>
    exact @Workspace.cache_applyChange s.tree s.ws change (·.Mirrors s.tree p)
      (fun _ h => h.read _) (hdrop _ _ h)
  | write place content time? => cases h
  | makeDirectories place => cases h
  | remove place => cases h

theorem mirrors_after (h : s.ws.cache.Mirrors s.tree p)
    (hwrites : ¬d.Writes (s.tree.destination p)) :
    (s.after d).ws.cache.Mirrors (s.after d).tree p := by
  have hstep : (s.after d).ws.cache.Mirrors s.tree p := by
    refine cache_after (fun cache q h => h.read q) (fun cache q h => h.invalidate q) ?_ d h
    intro kept v hfind
    cases hfind
  intro kept v hfind hnode
  rw [FileTree.destination, working_after] at hnode
  exact hstep kept v hfind (file_of_file_after hwrites hnode)

theorem mirrors_run (h : s.ws.cache.Mirrors s.tree p)
    (hwrites : ∀ d ∈ deeds, ¬d.Writes (s.tree.destination p)) :
    (s.run deeds).ws.cache.Mirrors (s.run deeds).tree p := by
  induction deeds generalizing s with
  | nil => exact h
  | cons d deeds ih =>
    refine ih (mirrors_after h (hwrites d (by simp))) fun e he => ?_
    rw [FileTree.destination, working_after]
    exact hwrites e (by simp [he])

/-! ### From one reading to the next -/

theorem holds_after (h : s.ws.cache.Holds s.tree p) (hwrites : ¬d.Writes (s.tree.destination p))
    (hdrops : ¬d.Drops s p) : (s.after d).ws.cache.Holds (s.after d).tree p := by
  have hother : ∀ (cache : Cache) q, ¬(p == q) = true → cache.Holds s.tree p →
      (cache.invalidate q).Holds s.tree p := by
    intro cache q hpq hcache
    refine hcache.congr ?_
    rw [Cache.find?_invalidate, if_neg fun heq => hpq (LawfulBEqOrd.compare_eq_iff_beq.1 heq)]
  have hstep : (s.after d).ws.cache.Holds s.tree p := by
    cases d with
    | write place content time? => exact h
    | makeDirectories place => exact h
    | remove place => exact h
    | read q =>
      refine h.read fun hpq => ?_
      rw [Option.isSome_iff_ne_none]
      exact fun hnone => hdrops ⟨hpq, hnone⟩
    | invalidate q => exact hother _ q hdrops h
    | invalidateAll => exact absurd trivial hdrops
    | indexChange change =>
      exact @Workspace.cache_indexChange s.tree s.ws change (·.Holds s.tree p)
        (fun _ h => h.read fun hpq => absurd hpq hdrops) (hother _ _ hdrops h)
    | applyChange change =>
      exact @Workspace.cache_applyChange s.tree s.ws change (·.Holds s.tree p)
        (fun _ h => h.read fun hpq => absurd hpq hdrops) (hother _ _ hdrops h)
  obtain ⟨kept, hfind, hstamp⟩ := hstep
  refine ⟨kept, hfind, fun v hnode => hstamp v ?_⟩
  rw [FileTree.destination, working_after] at hnode
  exact file_of_file_after hwrites hnode

theorem holds_run (h : s.ws.cache.Holds s.tree p)
    (hspared : ∀ earlier d, earlier ++ [d] <+: deeds →
      ¬d.Writes (s.tree.destination p) ∧ ¬d.Drops (s.run earlier) p) :
    (s.run deeds).ws.cache.Holds (s.run deeds).tree p := by
  induction deeds using List.reverseRecOn with
  | nil => exact h
  | append_singleton deeds d ih =>
    obtain ⟨hwrites, hdrops⟩ := hspared deeds d List.prefix_rfl
    rw [run_append]
    refine holds_after
      (ih fun earlier e he => hspared earlier e (he.trans (List.prefix_append _ _))) ?_ hdrops
    rwa [destination_run]

/-! ### All together -/

/-- Let a session begin with no text kept. Where no path shows two contents with one stamp, a
reading shows the current text of the file, and nothing where there is no text. Every kept text is
one that its path has shown, with the stamp that it had. Between two readings of a file of which the
first has shown a text, if the file is not written and its text not dropped, the second does not
look into the file. And whatever the stamps, once the text of a path is dropped, be it by itself,
for a change of the path, or because nothing could be read, a reading of the path shows the current
text until its file is written again. -/
theorem readings_are_fresh (s : Session) (hempty : s.ws.cache.kept = .empty) (deeds : List Deed) :
    (s.TellsApart deeds → ∀ p, (s.run deeds).shows p = (s.run deeds).current p) ∧
    (∀ p kept, (s.run deeds).ws.cache.kept.find? p = some kept →
      ∃ v, s.Shown deeds p v ∧ v.body? = some kept.text ∧ v.stamp = kept.stamp) ∧
    (∀ before q since, deeds = before ++ .read q :: since → ((s.run before).shows q).isSome = true →
      ∀ p, (p == q) = true →
      (∀ earlier d, earlier ++ [d] <+: since → ¬d.Writes (s.tree.destination p) ∧
        ¬d.Drops (s.run (before ++ .read q :: earlier)) p) →
      ∀ v, (s.run deeds).tree.fileAt? p = some v →
        ((s.run deeds).after (.read p)).ws.cache.reads = (s.run deeds).ws.cache.reads) ∧
    (∀ before d since, deeds = before ++ d :: since → ∀ p, d.Drops (s.run before) p →
      (∀ e ∈ since, ¬e.Writes (s.tree.destination p)) →
        (s.run deeds).shows p = (s.run deeds).current p) := by
  have hdestination : ∀ before d p, ((s.run before).after d).tree.destination p =
      s.tree.destination p := by
    intro before d p
    rw [FileTree.destination, working_after, working_run, FileTree.destination]
  refine ⟨shows_eq_current hempty, recorded_run hempty deeds, ?_, ?_⟩
  · rintro before q since rfl hshows p hpq hspared v hfile
    have hfirst : ((s.run before).after (.read q)).ws.cache.Holds
        ((s.run before).after (.read q)).tree p :=
      Cache.holds_read hpq hshows
    rw [run_append, run_cons] at hfile ⊢
    refine Cache.Holds.reads_read (holds_run hfirst fun earlier d hd => ?_) hfile
    rw [hdestination]
    have := hspared earlier d hd
    rwa [run_append, run_cons] at this
  · rintro before d since rfl p hdrops hwrites
    rw [run_append, run_cons]
    refine Cache.Mirrors.read_fst (mirrors_run (mirrors_after_of_drops hdrops) fun e he => ?_)
    rw [hdestination]
    exact hwrites e he

/-- A file that is written twice. If the stamps differ, the second text is read. If they do not, the
first text is read until it is dropped. -/
theorem readings_of_a_file_written_twice :
    let s : Session := ⟨{}, { root := ⟨"/"⟩, options := {}, reader := .ofRules }⟩
    let first := Deed.write ["a"] "one".toUTF8 (some 1)
    let second := fun time : Nat => Deed.write ["a"] "\ufefftwo".toUTF8 (some time)
    let known := s.run [first, .read ⟨"/a"⟩, .read ⟨"/b"⟩]
    s.TellsApart [first, .read ⟨"/a"⟩, second 2] ∧
    (s.run [first, .read ⟨"/a"⟩, second 2]).shows ⟨"/a"⟩ = some "two" ∧
    (s.run [first, .read ⟨"/a"⟩, second 1]).shows ⟨"/a"⟩ = some "one" ∧
    (s.run [first, .read ⟨"/a"⟩, second 1, .invalidate ⟨"/a"⟩, .read ⟨"/b"⟩]).shows ⟨"/a"⟩ =
      some "two" ∧
    (known.after (.read ⟨"/a"⟩)).ws.cache.reads = known.ws.cache.reads ∧
    known.ws.cache.reads = 1 := by
  intro s first second known
  have hapart : s.TellsApart [first, .read ⟨"/a"⟩, second 2] :=
    tellsApart_of_versions (by decide +kernel)
  refine ⟨hapart, ?_, by decide +kernel, ?_, ?_, by decide +kernel⟩
  · rw [(readings_are_fresh s rfl _).1 hapart]
    decide +kernel
  · have hfresh := (readings_are_fresh s rfl _).2.2.2 [first, .read ⟨"/a"⟩, second 1]
      (.invalidate ⟨"/a"⟩) [.read ⟨"/b"⟩] rfl ⟨"/a"⟩ (BEq.refl _) (by simp [Deed.Writes])
    refine hfresh.trans ?_
    decide +kernel
  · have hshows : ((s.run [first]).shows ⟨"/a"⟩).isSome = true := by decide +kernel
    obtain ⟨v, hfile⟩ :=
      Option.isSome_iff_exists.1 (show (known.tree.fileAt? ⟨"/a"⟩).isSome = true by decide +kernel)
    have hother : ((⟨"/a"⟩ : Path) == ⟨"/b"⟩) = false := by decide +kernel
    refine (readings_are_fresh s rfl _).2.2.1 [first] ⟨"/a"⟩ [.read ⟨"/b"⟩] rfl hshows ⟨"/a"⟩
      (BEq.refl _) ?_ v hfile
    intro earlier d hd
    obtain rfl : d = .read ⟨"/b"⟩ := List.mem_singleton.1 (hd.subset (by simp))
    exact ⟨id, fun hdrops => Bool.false_ne_true (hother.symm.trans hdrops.1)⟩

end Session

end TemplateAtlas
