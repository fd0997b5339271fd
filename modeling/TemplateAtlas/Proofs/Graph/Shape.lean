import TemplateAtlas.Proofs.Graph.Drawing
import TemplateAtlas.Proofs.Workspace

/-!
# The shape of trees

A walk takes along the files on the way from the top. What it grows below them is a file with one
tree for each of its branches, the mark of a cycle at a file that is on the way, or the end of a
reference that leads to no file (`Tree.Grown`). Walks down and walks up grow such trees, each with
branches of its own (`grown_walkDown`, `grown_walkUp`), and the files on the way to a place in the
tree are what the ancestors of the place stand for (`Tree.Grown.of_stands`). So a tree marks exactly
the nodes that stand for what an ancestor stands for, and every other file has all of its branches
unless it is at the last level (`Tree.Grown.shaped`).
-/

namespace TemplateAtlas

open Std Inquiry

namespace Tree

/-! ### Places and shapes -/

/-- The trees that stand in a tree, each below its ancestors, of which the nearest comes first. -/
inductive Stands (top : Tree) : List TreeInfo → Tree → Prop where
  /-- The tree itself. -/
  | top : Stands top [] top
  /-- A tree under a node. -/
  | under {above : List TreeInfo} {info : TreeInfo} {children : List Tree} {t : Tree} :
    Stands top above (node info children) → t ∈ children → Stands top (info :: above) t

/-- Is the tree what a walk of some depth should show, where a file has branches, each with its end
and its line? -/
structure Shaped (branches : Path → List (NodeKey × Nat)) (depth : Nat) (top : Tree) : Prop where
  /-- On the way from the top to any node, no two nodes stand for the same, but for marks of
  cycles. -/
  distinct : ∀ above t, top.Stands above t →
    ((t.info :: above).filter (!·.cycle)).Pairwise fun a b => (a.key == b.key) = false
  /-- A node marks a cycle if and only if one of its ancestors stands for the same. -/
  cycle_iff : ∀ above t, top.Stands above t →
    (t.info.cycle = true ↔ ∃ a ∈ above, (a.key == t.info.key) = true)
  /-- Nothing stands under the mark of a cycle, and nothing under what is no file. -/
  children_eq_nil : ∀ above t, top.Stands above t →
    (t.info.cycle = true ∨ ∀ p, t.info.key ≠ .file p) → t.children = []
  /-- The tree has no more levels than the depth. -/
  height_le : top.height ≤ depth
  /-- Under any other file stands one tree for each of its branches, in their order, unless it is at
  the last level. -/
  children_eq : ∀ above t p, top.Stands above t → above.length < depth → t.info.cycle = false →
    t.info.key = .file p → t.children.map (fun c => (c.info.key, c.info.line?)) =
      (branches p).map fun b => (b.1, some b.2)

/-! ### Trees that grow below files -/

/-- What a walk grows below the files on the way. -/
inductive Grown (branches : Path → List (NodeKey × Nat)) : List Path → Nat → Tree → Prop where
  /-- A file at the last level. -/
  | spent {above : List Path} {file : Path} {info : TreeInfo} :
    info.key = .file file → info.cycle = false → above.contains file = false →
      Grown branches above 0 (leaf info)
  /-- A file with a tree for each of its branches. -/
  | file {above : List Path} {depth : Nat} {file : Path} {info : TreeInfo} {children : List Tree} :
    info.key = .file file → info.cycle = false → above.contains file = false →
      children.map (fun c => (c.info.key, c.info.line?)) =
        (branches file).map (fun b => (b.1, some b.2)) →
      (∀ c ∈ children, Grown branches (file :: above) depth c) →
        Grown branches above (depth + 1) (node info children)
  /-- A file that is on the way already. -/
  | cycle {above : List Path} {depth : Nat} {file : Path} {info : TreeInfo} :
    info.key = .file file → info.cycle = true → above.contains file = true →
      Grown branches above depth (leaf info)
  /-- No file. -/
  | stop {above : List Path} {depth : Nat} {info : TreeInfo} :
    (∀ p, info.key ≠ .file p) → info.cycle = false → Grown branches above depth (leaf info)

variable {branches branches' : Path → List (NodeKey × Nat)} {files : List Path} {depth : Nat}
  {t : Tree} {above : List TreeInfo}

theorem heightAll_le_iff {ts : List Tree} {n : Nat} :
    heightAll ts ≤ n ↔ ∀ t ∈ ts, t.height + 1 ≤ n := by
  induction ts with
  | nil => simp [heightAll]
  | cons t ts ih => rw [heightAll, Nat.max_le, ih, List.forall_mem_cons]

theorem Grown.height_le (h : Grown branches files depth t) : t.height ≤ depth := by
  induction h with
  | spent => exact Nat.le_refl 0
  | file _ _ _ _ _ ih => exact heightAll_le_iff.2 fun c hc => Nat.succ_le_succ (ih c hc)
  | cycle => exact Nat.zero_le _
  | stop => exact Nat.zero_le _

/-- What grows from good files alone, when good files have no branches to others, depends on the
branches of good files alone. -/
theorem Grown.congr (good : Path → Prop) (hbranches : ∀ p, good p → branches p = branches' p)
    (hgood : ∀ p q line, (.file q, line) ∈ branches p → good q) (h : Grown branches files depth t)
    (ht : ∀ p, t.info.key = .file p → good p) : Grown branches' files depth t := by
  induction h with
  | spent hkey hcycle hfresh => exact .spent hkey hcycle hfresh
  | @file above depth file info children hkey hcycle hfresh hchildren _ ih =>
    refine .file hkey hcycle hfresh (by rw [hchildren, hbranches file (ht file hkey)]) fun c hc =>
      ih c hc fun q hq => ?_
    have hmem : (c.info.key, c.info.line?) ∈ (branches file).map fun b => (b.1, some b.2) := by
      rw [← hchildren]
      exact List.mem_map.2 ⟨c, hc, rfl⟩
    obtain ⟨⟨key, line⟩, hb, heq⟩ := List.mem_map.1 hmem
    cases (congrArg Prod.fst heq).trans hq
    exact hgood file q line hb
  | cycle hkey hcycle hback => exact .cycle hkey hcycle hback
  | stop hkey hcycle => exact .stop hkey hcycle

/-- The ancestors of a place stand for the files on the way to it, and none marks a cycle. -/
structure OnWay (above : List TreeInfo) (files : List Path) : Prop where
  /-- The ancestors stand for the files. -/
  keys : above.map (·.key) = files.map .file
  /-- No ancestor marks a cycle. -/
  unmarked : ∀ a ∈ above, a.cycle = false
  /-- The files are different. -/
  distinct : files.Pairwise fun p q => (p == q) = false

theorem OnWay.exists_key_iff (h : OnWay above files) (key : NodeKey) :
    (∃ a ∈ above, (a.key == key) = true) ↔ ∃ p ∈ files, (NodeKey.file p == key) = true := by
  calc (∃ a ∈ above, (a.key == key) = true) ↔ ∃ k ∈ above.map (·.key), (k == key) = true := by simp
    _ ↔ ∃ k ∈ files.map NodeKey.file, (k == key) = true := by rw [h.keys]
    _ ↔ ∃ p ∈ files, (NodeKey.file p == key) = true := by simp

theorem OnWay.contains_iff (h : OnWay above files) (file : Path) :
    (∃ a ∈ above, (a.key == .file file) = true) ↔ files.contains file = true := by
  rw [h.exists_key_iff, List.contains_iff_exists_mem_beq]
  simp only [NodeKey.file_beq_file, BEq.comm]

theorem OnWay.cons {info : TreeInfo} {file : Path} (h : OnWay above files)
    (hkey : info.key = .file file) (hcycle : info.cycle = false)
    (hfresh : files.contains file = false) : OnWay (info :: above) (file :: files) where
  keys := by rw [List.map_cons, List.map_cons, h.keys, hkey]
  unmarked := List.forall_mem_cons.2 ⟨hcycle, h.unmarked⟩
  distinct := List.pairwise_cons.2 ⟨fun p hp => Bool.eq_false_iff.2 fun heq =>
    Bool.false_ne_true (hfresh.symm.trans (List.contains_iff_exists_mem_beq.2 ⟨p, hp, heq⟩)),
    h.distinct⟩

theorem OnWay.pairwise (h : OnWay above files) :
    above.Pairwise fun a b => (a.key == b.key) = false := by
  have hkeys : (above.map (·.key)).Pairwise fun k l => (k == l) = false := by
    rw [h.keys, List.pairwise_map]
    exact h.distinct
  exact List.pairwise_map.1 hkeys

/-- What stands at a place has grown below the files that the ancestors stand for. -/
theorem Grown.of_stands {top : Tree} (h : Grown branches [] depth top)
    (hstands : top.Stands above t) :
    ∃ files rest, OnWay above files ∧ Grown branches files rest t ∧
      above.length + rest = depth := by
  induction hstands with
  | top => exact ⟨[], depth, ⟨rfl, by simp, .nil⟩, h, Nat.zero_add depth⟩
  | @under above info children t _ hmem ih =>
    obtain ⟨files, rest, hway, hgrown, hlength⟩ := ih
    cases hgrown with
    | spent => cases hmem
    | @file _ rest file _ _ hkey hcycle hfresh _ hchildren =>
      refine ⟨file :: files, rest, hway.cons hkey hcycle hfresh, hchildren t hmem, ?_⟩
      rw [List.length_cons]
      omega
    | cycle => cases hmem
    | stop => cases hmem

/-- A node below the files on the way marks a cycle if and only if an ancestor stands for the
same. -/
theorem Grown.cycle_iff (h : Grown branches files depth t) (hway : OnWay above files) :
    t.info.cycle = true ↔ ∃ a ∈ above, (a.key == t.info.key) = true := by
  cases h with
  | spent hkey hcycle hfresh =>
    rw [leaf, info, hkey, hway.contains_iff, hcycle, hfresh]
  | file hkey hcycle hfresh =>
    rw [info, hkey, hway.contains_iff, hcycle, hfresh]
  | cycle hkey hcycle hback =>
    rw [leaf, info, hkey, hway.contains_iff, hcycle, hback]
  | @stop _ _ info hkey hcycle =>
    rw [leaf, Tree.info, hcycle, hway.exists_key_iff]
    refine iff_of_false Bool.false_ne_true ?_
    rintro ⟨p, -, heq⟩
    cases hinfo : info.key with
    | file q => exact hkey q hinfo
    | missing q => simp [hinfo] at heq
    | unknownAlias name raw => simp [hinfo] at heq

theorem Grown.children_eq_nil (h : Grown branches files depth t)
    (hend : t.info.cycle = true ∨ ∀ p, t.info.key ≠ .file p) : t.children = [] := by
  cases h with
  | spent => rfl
  | file hkey hcycle =>
    rcases hend with hmark | hother
    · cases hcycle.symm.trans hmark
    · exact absurd hkey (hother _)
  | cycle => rfl
  | stop => rfl

theorem Grown.children_eq (h : Grown branches files (depth + 1) t) (hcycle : t.info.cycle = false)
    {p : Path} (hkey : t.info.key = .file p) :
    t.children.map (fun c => (c.info.key, c.info.line?)) = (branches p).map fun b =>
      (b.1, some b.2) := by
  cases h with
  | file hfile _ _ hchildren =>
    cases hfile.symm.trans hkey
    exact hchildren
  | cycle _ hmark => cases hmark.symm.trans hcycle
  | stop hother => exact absurd hkey (hother p)

/-- What grows from the top has the shape of a walk. -/
theorem Grown.shaped (h : Grown branches [] depth t) : t.Shaped branches depth where
  distinct above s hstands := by
    obtain ⟨files, rest, hway, hgrown, -⟩ := h.of_stands hstands
    have habove : above.filter (!·.cycle) = above :=
      List.filter_eq_self.2 fun a ha => by rw [hway.unmarked a ha]; rfl
    rw [List.filter_cons, habove]
    split
    next hcycle =>
      refine List.pairwise_cons.2 ⟨fun a ha => Bool.eq_false_iff.2 fun heq => ?_, hway.pairwise⟩
      rw [(hgrown.cycle_iff hway).2 ⟨a, ha, BEq.symm heq⟩] at hcycle
      cases hcycle
    next => exact hway.pairwise
  cycle_iff above s hstands := by
    obtain ⟨files, rest, hway, hgrown, -⟩ := h.of_stands hstands
    exact hgrown.cycle_iff hway
  children_eq_nil above s hstands := by
    obtain ⟨files, rest, -, hgrown, -⟩ := h.of_stands hstands
    exact hgrown.children_eq_nil
  height_le := h.height_le
  children_eq above s p hstands hlevel := by
    obtain ⟨files, rest, -, hgrown, hlength⟩ := h.of_stands hstands
    obtain ⟨rest, rfl⟩ := Nat.exists_eq_succ_of_ne_zero (show rest ≠ 0 by omega)
    exact fun hcycle hkey => hgrown.children_eq hcycle hkey

end Tree

/-! ### Walks down -/

section Down

variable {view : View} {above : List Path} {depth : Nat} {file : Path} {line? : Option Nat}
  {alias? : Option String}

/-- Where references end, and their lines. -/
def branchesTo (found : List Outgoing) : List (NodeKey × Nat) :=
  found.map fun o => (o.key, o.reference.line)

theorem answer_fileInfo_spec (view : View) (file : Path) (line? : Option Nat)
    (alias? : Option String) : let info := (fileInfo file line? alias?).answer view
    info.key = .file file ∧ info.line? = line? ∧ info.cycle = false := by
  rw [fileInfo, answer_bind, answer_pure]
  exact ⟨rfl, rfl, rfl⟩

theorem answer_cycleInfo_spec (view : View) (file : Path) (line : Nat) (alias? : Option String) :
    let info := (cycleInfo file line alias?).answer view
    info.key = .file file ∧ info.line? = some line ∧ info.cycle = true := by
  unfold cycleInfo
  split
  · exact ⟨rfl, rfl, rfl⟩
  · rw [answer_bind, answer_pure]
    exact ⟨rfl, rfl, rfl⟩

theorem info_answer_walkDown (view : View) (above : List Path) (depth : Nat) (file : Path)
    (line? : Option Nat) (alias? : Option String) :
    ((walkDown above depth file line? alias?).answer view).info =
      (fileInfo file line? alias?).answer view := by
  cases depth with
  | zero =>
    rw [walkDown, answer_bind, answer_pure]
    rfl
  | succ depth =>
    rw [walkDown_succ]
    simp only [answer_bind, answer_pure]
    rfl

/-- What a walk down makes of a reference stands for its end, at its line. -/
theorem info_answer_walkReference (view : View) (above : List Path) (depth : Nat) (o : Outgoing) :
    let info := ((walkReference above depth o).answer view).info
    (info.key, info.line?) = (o.key, some o.reference.line) := by
  unfold walkReference Outgoing.key
  cases o.target with
  | missing path repository? => rfl
  | unknownAlias name => rfl
  | file path repository? =>
    dsimp only
    split
    · obtain ⟨hkey, hline, -⟩ := answer_cycleInfo_spec view path o.reference.line o.alias?
      rw [answer_map, Tree.leaf, Tree.info, hkey, hline]
    · obtain ⟨hkey, hline, -⟩ := answer_fileInfo_spec view path (some o.reference.line) o.alias?
      rw [info_answer_walkDown, hkey, hline]

/-- A walk down grows along the references of the files. -/
theorem grown_walkDown (hfile : above.contains file = false) :
    Tree.Grown (fun p => branchesTo ((outgoing p).answer view)) above depth
      ((walkDown above depth file line? alias?).answer view) := by
  induction depth generalizing above file line? alias? with
  | zero =>
    obtain ⟨hkey, -, hcycle⟩ := answer_fileInfo_spec view file line? alias?
    rw [walkDown, answer_bind, answer_pure]
    exact .spent hkey hcycle hfile
  | succ depth ih =>
    obtain ⟨hkey, -, hcycle⟩ := answer_fileInfo_spec view file line? alias?
    rw [walkDown_succ]
    simp only [answer_bind, answer_pure, answer_each]
    refine .file hkey hcycle hfile ?_ fun c hc => ?_
    · rw [branchesTo, List.map_map, List.map_map]
      exact List.map_congr_left fun o _ => info_answer_walkReference view (file :: above) depth o
    · obtain ⟨o, -, rfl⟩ := List.mem_map.1 hc
      unfold walkReference
      cases htarget : o.target with
      | missing path repository? => exact .stop (by simp [Outgoing.key, htarget, TreeInfo.new]) rfl
      | unknownAlias name => exact .stop (by simp [Outgoing.key, htarget, TreeInfo.new]) rfl
      | file path repository? =>
        dsimp only
        split
        next hback =>
          obtain ⟨hkey, -, hcycle⟩ := answer_cycleInfo_spec view path o.reference.line o.alias?
          rw [answer_map]
          exact .cycle hkey hcycle hback
        next hback => exact ih (Bool.eq_false_iff.2 hback)

end Down

/-! ### Walks up -/

section Up

variable {view : View} {above : List Path} {depth : Nat} {file : Path} {line? : Option Nat}
  {alias? : Option String}

/-- The files of call sites, and the lines. -/
def branchesFrom (sites : List CallSite) : List (NodeKey × Nat) :=
  sites.map fun site => (.file site.caller, site.line)

theorem info_answer_walkUp (callers : Path → CallSiteMemo → Inquiry (List CallSite × CallSiteMemo))
    (above : List Path) (depth : Nat) (file : Path) (line? : Option Nat) (alias? : Option String)
    (memo : CallSiteMemo) :
    ((walkUp callers above depth file line? alias? memo).answer view).1.info =
      { (fileInfo file line? none).answer view with alias? := alias? } := by
  cases depth with
  | zero =>
    rw [walkUp, answer_bind, answer_pure]
    rfl
  | succ depth =>
    rw [answer_walkUp_succ]
    rfl

/-- A walk up grows along the call sites. -/
theorem grown_walkUp {sites : Path → List CallSite} {memo : CallSiteMemo}
    (hfile : above.contains file = false) :
    Tree.Grown (fun p => branchesFrom (sites p)) above depth
      ((walkUp (knownCallers sites) above depth file line? alias? memo).answer view).1 := by
  induction depth generalizing above file line? alias? memo with
  | zero =>
    obtain ⟨hkey, -, hcycle⟩ := answer_fileInfo_spec view file line? none
    rw [walkUp, answer_bind, answer_pure]
    exact .spent hkey hcycle hfile
  | succ depth ih =>
    obtain ⟨hkey, -, hcycle⟩ := answer_fileInfo_spec view file line? none
    have hsite : ∀ site ∈ sites file, ∀ memo,
        let t := ((walkSite (knownCallers sites) (file :: above) depth site memo).answer view).1
        Tree.Grown (fun p => branchesFrom (sites p)) (file :: above) depth t ∧
          (t.info.key, t.info.line?) = (.file site.caller, some site.line) := by
      intro site _ memo
      unfold walkSite
      split
      next hback =>
        obtain ⟨hkey, hline, hcycle⟩ := answer_cycleInfo_spec view site.caller site.line none
        rw [answer_bind, answer_pure]
        exact ⟨.cycle hkey hcycle hback, Prod.ext hkey hline⟩
      next hback =>
        obtain ⟨hkey, hline, -⟩ := answer_fileInfo_spec view site.caller (some site.line) none
        dsimp only
        rw [info_answer_walkUp]
        exact ⟨ih (Bool.eq_false_iff.2 hback), Prod.ext hkey hline⟩
    have hsites : List.Forall₂ (fun t site =>
        Tree.Grown (fun p => branchesFrom (sites p)) (file :: above) depth t ∧
        (t.info.key, t.info.line?) = (.file site.caller, some site.line))
        ((eachWith (walkSite (knownCallers sites) (file :: above) depth) (sites file) memo).answer
          view).1 (sites file) :=
      .flip (forall₂_answer_eachWith hsite memo)
    obtain ⟨hgrown, hmarks⟩ := (List.forall₂_and_left _ _).1 hsites
    rw [answer_walkUp_succ]
    refine .file hkey hcycle hfile ?_ hgrown
    rw [branchesFrom, List.map_map, ← List.forall₂_eq_eq_eq, List.forall₂_map_left_iff,
      List.forall₂_map_right_iff]
    exact hmarks

end Up

/-! ### Workspaces -/

/-- The files of a corpus with a reference to a path, in the order of the corpus, and the lines of
the first such references. -/
def callersIn (view : View) (corpus : List Path) (target : Path) : List (NodeKey × Nat) :=
  corpus.filterMap fun caller =>
    (((outgoing caller).answer view).find? fun o => o.target.path? == some target).map fun o =>
      (.file caller, o.reference.line)

theorem branchesFrom_callersByScan {corpus : List Path}
    (h : corpus.Pairwise fun p q => compare p q = .lt) (view : View) (target : Path) :
    branchesFrom ((callersByScan corpus target).answer view) = callersIn view corpus target := by
  rw [callersByScan_of_pairwise h, branchesFrom, List.map_filterMap, callersIn]
  refine List.filterMap_congr fun caller _ => ?_
  rw [answer_callSiteIn?, Option.map_map]
  rfl

namespace Workspace

variable {tree : FileTree} {ws : Workspace}

/-- The tree of a file has the shape of a walk along the references that the workspace then
finds. -/
theorem shaped_templateTree (h : ws.memory.cache.Agrees (fun _ => True) tree) (file : Path)
    (depth : Nat) : let asked := ws.templateTree tree file depth
    asked.1.Shaped (fun p => branchesTo (asked.2.ask tree (outgoing p)).1) (clampDepth depth) := by
  intro asked
  let view := tree.viewWith asked.2.memory.roots Path.normalize
  have hgrown : Tree.Grown (fun p => branchesTo ((outgoing p).answer view)) []
      (clampDepth depth) asked.1 := by
    rw [show asked.1 = (TemplateAtlas.templateTree file depth).answer view
      from templateTree_fst h file depth]
    exact grown_walkDown rfl
  have hinfo : asked.1.info.key = .file file := by
    rw [show asked.1 = (TemplateAtlas.templateTree file depth).answer view
      from templateTree_fst h file depth, TemplateAtlas.templateTree, info_answer_walkDown]
    exact (answer_fileInfo_spec view file none none).1
  refine (hgrown.congr (fun p => p = file ∨ p.IsNormal) (fun p hp => ?_)
    (fun p q line hmem => ?_) ?_).shaped
  · rw [ask_outgoing_templateTree h file depth p hp]
  · obtain ⟨o, ho, heq⟩ := List.mem_map.1 hmem
    have hkey : o.key = .file q := congrArg Prod.fst heq
    exact .inr (TemplateAtlas.leadsToNormal_referredNodes view p q (hkey ▸ List.mem_map_of_mem ho))
  · intro p hp
    cases hinfo.symm.trans hp
    exact .inl rfl

/-- For all files, roots, options, requested files and depths, the trees of a fresh workspace have
the shape of walks: that of what a file refers to along the references that the workspace then
finds, which for a file in normal form are those that the files show, and that of what refers to the
file, with an index and without, along its callers in the corpus, in the order of their paths. -/
theorem trees_are_shaped (h : tree.WellFormed) (reader : IgnoreReader) (root : Path)
    (options : CorpusOptions) (file : Path) (depth : Nat) : let ws := new reader tree root options
    let down := ws.templateTree tree file depth
    let references := fun p => (down.2.ask tree (outgoing p)).1
    (down.1.Shaped (fun p => branchesTo (references p)) (clampDepth depth) ∧
        (file.IsNormal → ∀ p : Path, p.IsNormal → references p = (outgoing p).answer tree.view)) ∧
      (ws.corpus tree).Pairwise (fun p q => compare p q = .lt) ∧
      ∀ up ∈ [(ws.callerTree tree file depth).1,
        ((ws.buildIndex tree).2.callerTree tree file depth).1],
        up.Shaped (callersIn tree.view (ws.corpus tree)) (clampDepth depth) := by
  intro ws down references
  have hempty : ws.memory.Agrees (fun _ => True) Path.IsNormal tree := Memory.agrees_empty _ _ tree
  have hsorted : (ws.corpus tree).Pairwise fun p q => compare p q = .lt :=
    CorpusOptions.pairwise_files h (isAddress_root_new reader tree root options)
  refine ⟨⟨shaped_templateTree hempty.cache file depth, fun hfile p hp => ?_⟩, hsorted,
    fun up hup => ?_⟩
  · exact ask_outgoing_templateTree_of_isNormal hempty hfile depth hp
  · rw [callerTree_eq_scan h reader root options file depth up hup, answer_callerTreeByScan,
      callerTreeBy, answer_bind, answer_pure]
    have hgrown : Tree.Grown (callersIn tree.view (ws.corpus tree)) [] (clampDepth depth)
        ((walkUp (knownCallers fun p => (callersByScan (ws.corpus tree) p).answer tree.view) []
          (clampDepth depth) file
          none none .empty).answer tree.view).1 := by
      rw [← funext (branchesFrom_callersByScan hsorted tree.view)]
      exact grown_walkUp rfl
    exact hgrown.shaped

/-- A file refers to another twice over, and that refers back: two marks of cycles under one
file. -/
theorem trees_of_two_files :
    let tree : FileTree :=
      .put (.put {} ["a.yml"] "- template: b.yml\n- template: c.yml\n- template: b.yml".toUTF8 none)
      ["b.yml"] "- template: a.yml".toUTF8 none
    let ws := new .ofRules tree ⟨"/"⟩ {}
    let down := ws.templateTree tree ⟨"/a.yml"⟩ 3
    let up := (ws.callerTree tree ⟨"/a.yml"⟩ 3).1
    tree.WellFormed ∧ down.1.countCycles = 2 ∧
      down.1.Shaped (fun p => branchesTo (down.2.ask tree (outgoing p)).1) 3 ∧
      up.Shaped (callersIn tree.view (ws.corpus tree)) 3 := by
  intro tree ws down up
  have h : tree.WellFormed := by decide +kernel
  obtain ⟨⟨hdown, -⟩, -, hup⟩ := trees_are_shaped h .ofRules ⟨"/"⟩ {} ⟨"/a.yml"⟩ 3
  exact ⟨h, by decide +kernel, hdown, hup up (by simp [up, ws])⟩

end Workspace

end TemplateAtlas
