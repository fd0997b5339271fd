import TemplateAtlas.Inquiry
import TemplateAtlas.Proofs.Files.Tree
import TemplateAtlas.Proofs.Path.Order

/-!
# Inquiries: memory does not show

A memory agrees with a file tree, if what it would serve is what the tree holds. Running an inquiry
keeps the agreement (`Memory.Agrees.run_snd`), and its answer is that of the tree without any memory
(`Memory.Agrees.run_fst`). Roots are remembered by directory, so this needs that the files whose
roots are asked for are given in normal form: only then do directories with the same components have
the same text. Whatever is asked, the answer is that of a view which knows the roots that are
remembered afterwards (`run_fst_of_roots`).
-/

namespace TemplateAtlas

open Std

@[simp] theorem FileTree.view_text (tree : FileTree) (p : Path) :
    tree.view.text p = (tree.fileAt? p).bind FileVersion.body? := by
  rw [view]

@[simp] theorem FileTree.view_isFile (tree : FileTree) (p : Path) :
    tree.view.isFile p = tree.isFile p := by
  rw [view]

/-- The version of a file that was written as a text gives this text to its readers. -/
theorem FileVersion.body?_toUTF8 (text : String) (stamp : Stamp) :
    (⟨text.toUTF8, stamp⟩ : FileVersion).body? = some (dropMark text) := by
  have htext : String.fromUTF8? text.toUTF8 = some text := by
    unfold String.fromUTF8?
    rw [String.toUTF8_eq_toByteArray, dif_pos text.isValidUTF8]
    rfl
  rw [FileVersion.body?, FileVersion.text?, htext, Option.map_some]

theorem dropMark_eq_self {text : String} (h : text.toList.head? ≠ some '\ufeff') :
    dropMark text = text := by
  unfold dropMark
  split
  · rename_i c cs htext
    rw [if_neg]
    rintro rfl
    exact h (by rw [htext, List.head?_cons])
  · rfl

/-- A file that was written as a text without a byte order mark shows this text. -/
theorem FileTree.view_text_of_toUTF8 {tree : FileTree} {p : Path} {place : Location} {text : String}
    {stamp : Stamp} (hlocate : tree.locate p = .ok place)
    (hnode : tree.node? place = some (.file ⟨text.toUTF8, stamp⟩))
    (hmark : text.toList.head? ≠ some '\ufeff') : tree.view.text p = some text := by
  rw [view_text, fileAt?_eq_some_iff.2 ⟨place, hlocate, hnode⟩, Option.bind_some,
    FileVersion.body?_toUTF8, dropMark_eq_self hmark]

@[simp] theorem FileTree.view_root (tree : FileTree) (p : Path) :
    tree.view.root p = tree.rootAbove p.directory := by
  rw [view]

/-! ### Composition -/

namespace Inquiry

variable {α β : Type}

theorem bind_eq (inquiry : Inquiry α) (f : α → Inquiry β) : inquiry >>= f = andThen f inquiry := rfl

@[simp] theorem answer_pure (view : View) (a : α) : (pure a : Inquiry α).answer view = a := rfl

@[simp] theorem answer_bind (view : View) (inquiry : Inquiry α) (f : α → Inquiry β) :
    (inquiry >>= f).answer view = (f (inquiry.answer view)).answer view := by
  rw [bind_eq]
  induction inquiry with
  | done a => rfl
  | readText p next ih => exact ih _
  | isFile p next ih => exact ih _
  | rootOf p next ih => exact ih _

@[simp] theorem answer_map (view : View) (f : α → β) (inquiry : Inquiry α) :
    (f <$> inquiry).answer view = f (inquiry.answer view) :=
  answer_bind view inquiry fun a => pure (f a)

@[simp] theorem answer_each (view : View) (f : α → Inquiry β) (as : List α) :
    (each f as).answer view = as.map fun a => (f a).answer view := by
  induction as with
  | nil => rfl
  | cons a as ih => simp [each, ih]

@[simp] theorem answer_text (view : View) (p : Path) : (text p).answer view = view.text p := rfl

@[simp] theorem answer_file (view : View) (p : Path) : (file p).answer view = view.isFile p := rfl

@[simp] theorem answer_root (view : View) (p : Path) : (root p).answer view = view.root p := rfl

@[simp] theorem run_pure (tree : FileTree) (a : α) (memory : Memory) :
    (pure a : Inquiry α).run tree memory = (a, memory) := rfl

@[simp] theorem run_bind (tree : FileTree) (inquiry : Inquiry α) (f : α → Inquiry β)
    (memory : Memory) :
    (inquiry >>= f).run tree memory =
      (f (inquiry.run tree memory).1).run tree (inquiry.run tree memory).2 := by
  rw [bind_eq]
  induction inquiry generalizing memory with
  | done a => rfl
  | readText p next ih => exact ih _ _
  | isFile p next ih => exact ih _ _
  | rootOf p next ih => exact ih _ _

/-! ### What is asked -/

/-- Whatever the answers are, the inquiry asks for texts of files in `texts` and for roots of files
in `roots`. -/
def Asks (texts roots : Path → Prop) : Inquiry α → Prop
  | done _ => True
  | readText p next => texts p ∧ ∀ text, (next text).Asks texts roots
  | isFile _ next => ∀ found, (next found).Asks texts roots
  | rootOf p next => roots p ∧ ∀ root, (next root).Asks texts roots

variable {texts roots : Path → Prop}

@[simp] theorem asks_pure (a : α) : (pure a : Inquiry α).Asks texts roots := trivial

@[simp] theorem asks_text_iff {p : Path} : (text p).Asks texts roots ↔ texts p :=
  and_iff_left fun _ => trivial

@[simp] theorem asks_file (p : Path) : (file p).Asks texts roots :=
  fun _ => trivial

@[simp] theorem asks_root_iff {p : Path} : (root p).Asks texts roots ↔ roots p :=
  and_iff_left fun _ => trivial

theorem Asks.bind {inquiry : Inquiry α} {f : α → Inquiry β} (h : inquiry.Asks texts roots)
    (hf : ∀ a, (f a).Asks texts roots) : (inquiry >>= f).Asks texts roots := by
  rw [bind_eq]
  induction inquiry with
  | done a => exact hf a
  | readText p next ih => exact ⟨h.1, fun text => ih text (h.2 text)⟩
  | isFile p next ih => exact fun found => ih found (h found)
  | rootOf p next ih => exact ⟨h.1, fun root => ih root (h.2 root)⟩

theorem Asks.map {inquiry : Inquiry α} (h : inquiry.Asks texts roots) (f : α → β) :
    (f <$> inquiry).Asks texts roots :=
  h.bind fun _ => trivial

theorem Asks.each {f : α → Inquiry β} {as : List α} (h : ∀ a ∈ as, (f a).Asks texts roots) :
    (each f as).Asks texts roots := by
  induction as with
  | nil => trivial
  | cons a as ih =>
    exact (h a (by simp)).bind fun b =>
      (ih fun a' ha' => h a' (by simp [ha'])).bind fun bs => trivial

theorem Asks.mono {texts' roots' : Path → Prop} {inquiry : Inquiry α} (h : inquiry.Asks texts roots)
    (htexts : ∀ p, texts p → texts' p) (hroots : ∀ p, roots p → roots' p) :
    inquiry.Asks texts' roots' := by
  induction inquiry with
  | done a => trivial
  | readText p next ih => exact ⟨htexts p h.1, fun text => ih text (h.2 text)⟩
  | isFile p next ih => exact fun found => ih found (h found)
  | rootOf p next ih => exact ⟨hroots p h.1, fun root => ih root (h.2 root)⟩

theorem asks_true (inquiry : Inquiry α) : inquiry.Asks (fun _ => True) (fun _ => True) := by
  induction inquiry with
  | done a => trivial
  | readText p next ih => exact ⟨trivial, ih⟩
  | isFile p next ih => exact ih
  | rootOf p next ih => exact ⟨trivial, ih⟩

/-! ### What it comes to -/

/-- Whatever the answers are, the inquiry comes to something that satisfies `good`. -/
def Yields (good : α → Prop) : Inquiry α → Prop
  | done a => good a
  | readText _ next => ∀ text, (next text).Yields good
  | isFile _ next => ∀ found, (next found).Yields good
  | rootOf _ next => ∀ root, (next root).Yields good

variable {good : α → Prop}

@[simp] theorem yields_pure_iff {a : α} : (pure a : Inquiry α).Yields good ↔ good a := Iff.rfl

theorem yields_true (inquiry : Inquiry α) : inquiry.Yields fun _ => True := by
  induction inquiry with
  | done a => trivial
  | readText p next ih => exact fun text => ih text
  | isFile p next ih => exact fun found => ih found
  | rootOf p next ih => exact fun root => ih root

theorem Yields.mono {good' : α → Prop} {inquiry : Inquiry α} (h : inquiry.Yields good)
    (hgood : ∀ a, good a → good' a) : inquiry.Yields good' := by
  induction inquiry with
  | done a => exact hgood a h
  | readText p next ih => exact fun text => ih text (h text)
  | isFile p next ih => exact fun found => ih found (h found)
  | rootOf p next ih => exact fun root => ih root (h root)

theorem Yields.bind {good' : β → Prop} {inquiry : Inquiry α} {f : α → Inquiry β}
    (h : inquiry.Yields good) (hf : ∀ a, good a → (f a).Yields good') :
    (inquiry >>= f).Yields good' := by
  rw [bind_eq]
  induction inquiry with
  | done a => exact hf a h
  | readText p next ih => exact fun text => ih text (h text)
  | isFile p next ih => exact fun found => ih found (h found)
  | rootOf p next ih => exact fun root => ih root (h root)

theorem Yields.each {good' : β → Prop} {f : α → Inquiry β} {as : List α}
    (h : ∀ a ∈ as, (f a).Yields good') : (each f as).Yields fun bs => ∀ b ∈ bs, good' b := by
  induction as with
  | nil => exact fun _ hb => by cases hb
  | cons a as ih =>
    refine (h a (by simp)).bind fun b hb =>
      (ih fun a' ha' => h a' (by simp [ha'])).bind fun bs hbs => ?_
    intro c hc
    rcases List.mem_cons.1 hc with rfl | hc
    · exact hb
    · exact hbs c hc

/-- What is asked may depend on what came before. -/
theorem Asks.bind_yields {inquiry : Inquiry α} {f : α → Inquiry β} {texts roots : Path → Prop}
    (h : inquiry.Asks texts roots) (hgood : inquiry.Yields good)
    (hf : ∀ a, good a → (f a).Asks texts roots) : (inquiry >>= f).Asks texts roots := by
  rw [bind_eq]
  induction inquiry with
  | done a => exact hf a hgood
  | readText p next ih => exact ⟨h.1, fun text => ih text (h.2 text) (hgood text)⟩
  | isFile p next ih => exact fun found => ih found (h found) (hgood found)
  | rootOf p next ih => exact ⟨h.1, fun root => ih root (h.2 root) (hgood root)⟩

theorem Yields.answer {inquiry : Inquiry α} (h : inquiry.Yields good) (view : View) :
    good (inquiry.answer view) := by
  induction inquiry with
  | done a => exact h
  | readText p next ih => exact ih _ (h _)
  | isFile p next ih => exact ih _ (h _)
  | rootOf p next ih => exact ih _ (h _)

theorem Yields.run_fst {inquiry : Inquiry α} (h : inquiry.Yields good) (tree : FileTree)
    (memory : Memory) : good (inquiry.run tree memory).1 := by
  induction inquiry generalizing memory with
  | done a => exact h
  | readText p next ih => exact ih _ (h _) _
  | isFile p next ih => exact ih _ (h _) _
  | rootOf p next ih => exact ih _ (h _) _

end Inquiry

/-! ### Texts -/

namespace Cache

variable {texts : Path → Prop} {tree : FileTree} {cache : Cache}

/-- The texts that would be served for files in `texts` are those that the tree holds. -/
def Agrees (texts : Path → Prop) (tree : FileTree) (cache : Cache) : Prop :=
  ∀ p, texts p → ∀ v text, tree.fileAt? p = some v → cache.fresh? p v = some text →
    v.body? = some text

theorem agrees_empty (texts : Path → Prop) (tree : FileTree) : Agrees texts tree {} :=
  fun _ _ _ _ _ h => by cases h

/-- While nobody writes, the stamp does not move, and what is read is kept. -/
theorem read_eq (cache : Cache) (tree : FileTree) (p : Path) :
    cache.read tree p =
      match tree.fileAt? p with
      | none => (none, cache.invalidate p)
      | some v =>
        match cache.fresh? p v with
        | some text => (some text, cache)
        | none =>
          match v.body? with
          | none => (none, ⟨cache.kept.erase p, cache.reads + 1⟩)
          | some text => (some text, ⟨cache.kept.insert p ⟨text, v.stamp⟩, cache.reads + 1⟩) := by
  unfold read readAmid
  cases hfile : tree.fileAt? p with
  | none => rfl
  | some v =>
    simp only [Option.bind_some, Option.map_some, if_true]
    cases cache.fresh? p v <;> cases v.body? <;> rfl

/-- What is read agrees with the tree. -/
theorem Agrees.read_fst (h : cache.Agrees texts tree) {p : Path} (hp : texts p) :
    (cache.read tree p).1 = tree.view.text p := by
  rw [FileTree.view_text, read_eq]
  cases hv : tree.fileAt? p with
  | none => rfl
  | some v =>
    cases hfresh : cache.fresh? p v with
    | some text => simpa [hfresh] using (h p hp v text hv hfresh).symm
    | none => cases hbody : v.body? <;> simp [hfresh, hbody]

theorem fresh?_invalidate (cache : Cache) (q p : Path) (v : FileVersion) :
    (cache.invalidate q).fresh? p v = if compare p q = .eq then none else cache.fresh? p v := by
  unfold fresh? invalidate
  rw [SortedMap.find?_erase]
  by_cases h : compare p q = .eq <;> simp [h]

theorem Agrees.invalidate (h : cache.Agrees texts tree) (q : Path) :
    (cache.invalidate q).Agrees texts tree := by
  intro p hp v text hv hfresh
  rw [fresh?_invalidate] at hfresh
  split at hfresh
  · cases hfresh
  · exact h p hp v text hv hfresh

/-- Reading keeps the agreement. -/
theorem Agrees.read_snd (h : cache.Agrees texts tree) (q : Path) :
    (cache.read tree q).2.Agrees texts tree := by
  rw [read_eq]
  cases hw : tree.fileAt? q with
  | none => exact h.invalidate q
  | some w =>
    cases hfresh : cache.fresh? q w with
    | some text => simpa [hfresh] using h
    | none =>
      cases hbody : w.body? with
      | none =>
        have counted : Agrees texts tree { cache with reads := cache.reads + 1 } := h
        simp only [hfresh, hbody]
        exact counted.invalidate q
      | some body =>
        simp only [hfresh, hbody]
        intro p hp v text hv hserved
        simp only [fresh?, SortedMap.find?_insert] at hserved
        by_cases hpq : compare p q = .eq
        · -- another spelling of the path that was read leads to the same version
          obtain rfl := FileTree.fileAt?_unique (Path.compare_eq_iff.1 hpq) hv hw
          rw [if_pos hpq] at hserved
          simpa [hbody] using hserved
        · rw [if_neg hpq] at hserved
          exact h p hp v text hv hserved

/-- A path that is read again shows the same text. -/
theorem read_fst_read_snd (cache : Cache) (tree : FileTree) (p : Path) :
    ((cache.read tree p).2.read tree p).1 = (cache.read tree p).1 := by
  have hdropped : ∀ (cache : Cache) v, tree.fileAt? p = some v → v.body? = none →
      ((cache.invalidate p).read tree p).1 = none := by
    intro cache v hfile hbody
    have hfresh : (cache.invalidate p).fresh? p v = none := by
      rw [fresh?_invalidate, if_pos ReflCmp.compare_self]
    simp only [read_eq, hfile, hfresh, hbody]
  cases hfile : tree.fileAt? p with
  | none => simp only [read_eq, hfile]
  | some v =>
    cases hfresh : cache.fresh? p v with
    | some text => simp only [read_eq, hfile, hfresh]
    | none =>
      cases hbody : v.body? with
      | none =>
        have hread : cache.read tree p =
            (none, invalidate { cache with reads := cache.reads + 1 } p) := by
          simp only [read_eq, hfile, hfresh, hbody, invalidate]
        rw [hread]
        exact hdropped _ v hfile hbody
      | some text =>
        have hkept : fresh? ⟨cache.kept.insert p ⟨text, v.stamp⟩, cache.reads + 1⟩ p v =
            some text := by
          simp [fresh?, SortedMap.find?_insert, ReflCmp.compare_self]
        simp only [read_eq, hfile, hfresh, hbody, hkept]

end Cache

/-! ### Roots -/

namespace RootMemo

variable {roots : Path → Prop} {tree : FileTree} {memo : RootMemo}

/-- The roots that are remembered for files in `roots` are those that the tree holds. -/
def Agrees (roots : Path → Prop) (tree : FileTree) (memo : RootMemo) : Prop :=
  ∀ p, roots p → ∀ root, memo.find? p.directory = some root → root = tree.rootAbove p.directory

theorem agrees_empty (roots : Path → Prop) (tree : FileTree) : Agrees roots tree .empty :=
  fun _ _ _ h => by cases h

/-- What is remembered is true of other files as well, if the same roots are found there. -/
theorem Agrees.of_rootAbove_eq (h : memo.Agrees roots tree) {tree' : FileTree}
    (hsame : ∀ p, roots p → tree'.rootAbove p.directory = tree.rootAbove p.directory) :
    memo.Agrees roots tree' := by
  intro p hp root hfind
  rw [hsame p hp]
  exact h p hp root hfind

/-- The root that is found agrees with the tree. -/
theorem Agrees.root_fst (h : memo.Agrees roots tree) {p : Path} (hp : roots p) :
    (memo.root tree p).1 = tree.view.root p := by
  simp only [FileTree.view_root, root]
  cases hfind : memo.find? p.directory with
  | none => rfl
  | some root => simpa [hfind] using h p hp root hfind

/-- Finding the root of a file in normal form keeps the agreement. -/
theorem Agrees.root_snd (h : memo.Agrees roots tree) (hnormal : ∀ p, roots p → p.IsNormal)
    {q : Path} (hq : q.IsNormal) : (memo.root tree q).2.Agrees roots tree := by
  unfold root
  cases hfind : memo.find? q.directory with
  | some root => simpa [hfind] using h
  | none =>
    simp only [hfind]
    intro p hp root hroot
    rw [SortedMap.find?_insert] at hroot
    by_cases hpq : compare p.directory q.directory = .eq
    · rw [if_pos hpq] at hroot
      have := (hnormal p hp).directory.eq hq.directory (Path.compare_eq_iff.1 hpq)
      rw [this]
      exact (Option.some.inj hroot).symm
    · rw [if_neg hpq] at hroot
      exact h p hp root hroot

end RootMemo

/-! ### Runs -/

namespace Inquiry

variable {α : Type} {texts roots : Path → Prop} {tree : FileTree}

/-- The memory would serve what the tree holds. -/
structure Memory.Agrees (texts roots : Path → Prop) (tree : FileTree) (memory : Memory) : Prop where
  /-- The texts agree. -/
  cache : memory.cache.Agrees texts tree
  /-- The roots agree. -/
  roots : memory.roots.Agrees roots tree

theorem Memory.agrees_empty (texts roots : Path → Prop) (tree : FileTree) :
    Memory.Agrees texts roots tree {} :=
  ⟨Cache.agrees_empty _ _, RootMemo.agrees_empty _ _⟩

/-- Whatever is asked, a run keeps the agreement, if it asks for roots of files in normal form. -/
theorem Memory.Agrees.run_snd {memory : Memory} (h : memory.Agrees texts roots tree)
    (hnormal : ∀ p, roots p → p.IsNormal) {inquiry : Inquiry α}
    (hasks : inquiry.Asks (fun _ => True) Path.IsNormal) :
    (inquiry.run tree memory).2.Agrees texts roots tree := by
  induction inquiry generalizing memory with
  | done a => exact h
  | readText p next ih => exact ih _ ⟨h.cache.read_snd p, h.roots⟩ (hasks.2 _)
  | isFile p next ih => exact ih _ h (hasks _)
  | rootOf p next ih => exact ih _ ⟨h.cache, h.roots.root_snd hnormal hasks.1⟩ (hasks.2 _)

/-- The answer of a run is what the tree itself answers, if the memory agrees on all that is
asked. -/
theorem Memory.Agrees.run_fst {memory : Memory} (h : memory.Agrees texts roots tree)
    (hnormal : ∀ p, roots p → p.IsNormal) {inquiry : Inquiry α} (hasks : inquiry.Asks texts roots) :
    (inquiry.run tree memory).1 = inquiry.answer tree.view := by
  induction inquiry generalizing memory with
  | done a => rfl
  | readText p next ih =>
    simp only [run, answer, h.cache.read_fst hasks.1]
    exact ih _ ⟨h.cache.read_snd p, h.roots⟩ (hasks.2 _)
  | isFile p next ih => exact ih _ h (hasks _)
  | rootOf p next ih =>
    simp only [run, answer, h.roots.root_fst hasks.1]
    exact ih _ ⟨h.cache, h.roots.root_snd hnormal (hnormal p hasks.1)⟩ (hasks.2 _)

end Inquiry

/-! ### Roots that were found -/

namespace RootMemo

variable {tree : FileTree} {memo : RootMemo}

theorem find?_root_self (memo : RootMemo) (tree : FileTree) (p : Path) :
    (memo.root tree p).2.find? p.directory = some (memo.root tree p).1 := by
  unfold root
  cases hfind : memo.find? p.directory with
  | some root => simp [hfind]
  | none => simp [hfind, SortedMap.find?_insert, ReflCmp.compare_self]

/-- A root that was found is not lost when another is found. -/
theorem find?_root_of_eq_some {directory found : Path} (h : memo.find? directory = some found)
    (p : Path) : (memo.root tree p).2.find? directory = some found := by
  unfold root
  cases hfind : memo.find? p.directory with
  | some root => simpa [hfind] using h
  | none =>
    have hne : compare directory p.directory ≠ .eq := by
      intro heq
      rw [SortedMap.find?_congr _ heq, hfind] at h
      cases h
    simp only [hfind]
    rw [SortedMap.find?_insert, if_neg hne]
    exact h

/-- The root of a file is the same when it is asked for again. -/
theorem root_fst_root_snd (memo : RootMemo) (tree : FileTree) (p : Path) :
    ((memo.root tree p).2.root tree p).1 = (memo.root tree p).1 := by
  have hfind := find?_root_self memo tree p
  generalize memo.root tree p = found at hfind ⊢
  rw [root, hfind]

theorem root_fst_eq_getD (memo : RootMemo) (tree : FileTree) (p : Path) :
    (memo.root tree p).1 = (memo.find? p.directory).getD (tree.rootAbove p.directory) := by
  rw [root]
  cases memo.find? p.directory <;> rfl

/-- The root of a file in normal form is the same when another one has been asked for. -/
theorem root_fst_root_snd_of_isNormal {p q : Path} (hp : p.IsNormal) (hq : q.IsNormal) :
    ((memo.root tree q).2.root tree p).1 = (memo.root tree p).1 := by
  by_cases hsame : p.directory = q.directory
  · have hroot : ∀ memo : RootMemo, (memo.root tree p).1 = (memo.root tree q).1 := fun memo => by
      rw [root_fst_eq_getD, hsame, root_fst_eq_getD]
    rw [hroot, root_fst_root_snd, hroot]
  · have hne : compare p.directory q.directory ≠ .eq := fun heq =>
      hsame (hp.directory.eq hq.directory (Path.compare_eq_iff.1 heq))
    have hfind : (memo.root tree q).2.find? p.directory = memo.find? p.directory := by
      rw [root]
      cases memo.find? q.directory with
      | some found => rfl
      | none =>
        dsimp only
        rw [SortedMap.find?_insert, if_neg hne]
    rw [root_fst_eq_getD, hfind, root_fst_eq_getD]

end RootMemo

namespace Inquiry

variable {α : Type} {texts roots : Path → Prop} {tree : FileTree} {memory : Memory} {view : View}

/-- The root of a file in normal form is the same after a run that asks for roots of such files. -/
theorem root_run_of_isNormal {p : Path} (hp : p.IsNormal) {inquiry : Inquiry α}
    (hasks : inquiry.Asks (fun _ => True) Path.IsNormal) :
    ((inquiry.run tree memory).2.roots.root tree p).1 = (memory.roots.root tree p).1 := by
  induction inquiry generalizing memory with
  | done a => rfl
  | readText q next ih => exact ih _ (hasks.2 _)
  | isFile q next ih => exact ih _ (hasks _)
  | rootOf q next ih =>
    exact (ih _ (hasks.2 _)).trans (RootMemo.root_fst_root_snd_of_isNormal hp hasks.1)

theorem find?_roots_run_of_eq_some {directory found : Path}
    (h : memory.roots.find? directory = some found) (inquiry : Inquiry α) :
    (inquiry.run tree memory).2.roots.find? directory = some found := by
  induction inquiry generalizing memory with
  | done a => exact h
  | readText p next ih => exact ih _ h
  | isFile p next ih => exact ih _ h
  | rootOf p next ih => exact ih _ (RootMemo.find?_root_of_eq_some h p)

/-- What readings keep of the texts, a run of an inquiry keeps. -/
theorem cache_run {good : Cache → Prop}
    (hread : ∀ cache p, texts p → good cache → good (cache.read tree p).2) {inquiry : Inquiry α}
    (hasks : inquiry.Asks texts roots) (h : good memory.cache) :
    good (inquiry.run tree memory).2.cache := by
  induction inquiry generalizing memory with
  | done a => exact h
  | readText p next ih => exact ih _ (hasks.2 _) (hread _ p hasks.1 h)
  | isFile p next ih => exact ih _ (hasks _) h
  | rootOf p next ih => exact ih _ (hasks.2 _) h

theorem cache_run_agrees (h : memory.cache.Agrees texts tree) (inquiry : Inquiry α) :
    (inquiry.run tree memory).2.cache.Agrees texts tree :=
  cache_run (fun _ p _ hcache => hcache.read_snd p) (asks_true inquiry) h

/-- The view says of texts and files what the tree says. -/
structure View.SameFiles (view : View) (tree : FileTree) : Prop where
  /-- The texts are the same. -/
  text : ∀ p, view.text p = tree.view.text p
  /-- The files are the same. -/
  isFile : ∀ p, view.isFile p = tree.view.isFile p

/-- The answer of a run is that of any view that knows the roots which are remembered afterwards. -/
theorem run_fst_of_roots (hview : view.SameFiles tree)
    (h : memory.cache.Agrees (fun _ => True) tree) {inquiry : Inquiry α}
    (hasks : inquiry.Asks (fun _ => True) roots)
    (hroots : ∀ p, roots p → ∀ found, (inquiry.run tree memory).2.roots.find? p.directory =
      some found → view.root p = found) : (inquiry.run tree memory).1 = inquiry.answer view := by
  induction inquiry generalizing memory with
  | done a => rfl
  | readText p next ih =>
    simp only [run, answer, h.read_fst trivial, hview.text]
    refine ih _ (h.read_snd p) (hasks.2 _) fun q hq found hfind => hroots q hq found ?_
    simpa only [run, h.read_fst trivial] using hfind
  | isFile p next ih =>
    simp only [run, answer, hview.isFile]
    exact ih _ h (hasks _) hroots
  | rootOf p next ih =>
    have hfound : view.root p = (memory.roots.root tree p).1 := by
      refine hroots p hasks.1 _ ?_
      rw [run]
      refine find?_roots_run_of_eq_some ?_ _
      exact RootMemo.find?_root_self memory.roots tree p
    simp only [run, answer, hfound]
    exact ih _ h (hasks.2 _) hroots

/-- The answer of a run that asks for the root of one file alone is that of any view that knows this
root. -/
theorem run_fst_of_root {file : Path} (hview : view.SameFiles tree)
    (h : memory.cache.Agrees texts tree) {inquiry : Inquiry α}
    (hasks : inquiry.Asks texts (· = file))
    (hroot : view.root file = (memory.roots.root tree file).1) :
    (inquiry.run tree memory).1 = inquiry.answer view := by
  induction inquiry generalizing memory with
  | done a => rfl
  | readText p next ih =>
    simp only [run, answer, h.read_fst hasks.1, hview.text]
    exact ih _ (h.read_snd p) (hasks.2 _) hroot
  | isFile p next ih =>
    simp only [run, answer, hview.isFile]
    exact ih _ h (hasks _) hroot
  | rootOf p next ih =>
    obtain rfl := hasks.1
    simp only [run, answer, hroot]
    exact ih _ h (hasks.2 _) (by rw [hroot, RootMemo.root_fst_root_snd])

end Inquiry

/-- What the files answer to someone who remembers some roots. Any other root is found from the
directory in the form that `form` gives it: as it is spelled with `id`, and the same for all
spellings of a file with `Path.normalize`. -/
def FileTree.viewWith (tree : FileTree) (memo : RootMemo) (form : Path → Path) : Inquiry.View where
  text := tree.view.text
  isFile := tree.view.isFile
  root p := (memo.find? p.directory).getD (tree.rootAbove (form p.directory))

namespace FileTree

variable {tree : FileTree} {memo : RootMemo} {form : Path → Path} {p q : Path}

theorem sameFiles_viewWith (tree : FileTree) (memo : RootMemo) (form : Path → Path) :
    (tree.viewWith memo form).SameFiles tree :=
  ⟨fun _ => rfl, fun _ => rfl⟩

theorem root_viewWith_congr (h : p.components = q.components) :
    (tree.viewWith memo Path.normalize).root p = (tree.viewWith memo Path.normalize).root q := by
  have hdirectory := Path.components_directory_congr h
  simp only [viewWith, Path.normalize, hdirectory,
    SortedMap.find?_congr memo (Path.compare_eq_iff.2 hdirectory)]

theorem root_viewWith_of_eq_some {found : Path} (h : memo.find? p.directory = some found) :
    (tree.viewWith memo form).root p = found := by
  simp [viewWith, h]

theorem root_viewWith_of_eq (h : form p.directory = p.directory) :
    (tree.viewWith memo form).root p = (memo.root tree p).1 := by
  cases hfind : memo.find? p.directory <;> simp [viewWith, RootMemo.root, hfind, h]

theorem root_viewWith_of_isNormal (h : p.IsNormal) :
    (tree.viewWith memo Path.normalize).root p = (memo.root tree p).1 :=
  root_viewWith_of_eq h.directory

end FileTree

/-- The answer of a run is what is answered to anyone who remembers at least the roots that are
known after it. -/
theorem Inquiry.run_fst_eq_viewWith {α : Type} {tree : FileTree} {memory : Memory} {memo : RootMemo}
    (h : memory.cache.Agrees (fun _ => True) tree) (form : Path → Path) {inquiry : Inquiry α}
    (hlater : ∀ directory found, (inquiry.run tree memory).2.roots.find? directory = some found →
      memo.find? directory = some found) :
    (inquiry.run tree memory).1 = inquiry.answer (tree.viewWith memo form) :=
  run_fst_of_roots (tree.sameFiles_viewWith memo form) h (asks_true _) fun _ _ _ hfind =>
    FileTree.root_viewWith_of_eq_some (hlater _ _ hfind)

/-- What is found about one file by someone with a memory, however stale: the text that the memory
serves and the root that it names. -/
def FileTree.viewOf (tree : FileTree) (memory : Inquiry.Memory) (file : Path) : Inquiry.View where
  text _ := (memory.cache.read tree file).1
  isFile := tree.isFile
  root _ := (memory.roots.root tree file).1

/-- A run that asks for the text and the root of one file alone gives the answer of what is found
about it. -/
theorem Inquiry.run_fst_of_file {α : Type} {tree : FileTree} {memory : Inquiry.Memory} {file : Path}
    {inquiry : Inquiry α} (hasks : inquiry.Asks (· = file) (· = file)) :
    (inquiry.run tree memory).1 = inquiry.answer (tree.viewOf memory file) := by
  have hrun : ∀ (view : View) (memory : Memory), view.text file = (memory.cache.read tree file).1 →
      view.isFile = tree.isFile → view.root file = (memory.roots.root tree file).1 →
      (inquiry.run tree memory).1 = inquiry.answer view := by
    intro view memory htext hfile hroot
    induction inquiry generalizing memory with
    | done a => rfl
    | readText p next ih =>
      obtain rfl := hasks.1
      simp only [run, answer, htext]
      exact ih _ (hasks.2 _) _ (by rw [htext, Cache.read_fst_read_snd]) hroot
    | isFile p next ih =>
      simp only [run, answer, hfile]
      exact ih _ (hasks _) _ htext hroot
    | rootOf p next ih =>
      obtain rfl := hasks.1
      simp only [run, answer, hroot]
      exact ih _ (hasks.2 _) _ htext (by rw [hroot, RootMemo.root_fst_root_snd])
  exact hrun (tree.viewOf memory file) memory rfl rfl rfl

end TemplateAtlas
