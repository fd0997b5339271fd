import TemplateAtlas.Graph.Traversal
import TemplateAtlas.Proofs.Files.Spelling
import TemplateAtlas.Proofs.Graph.Outgoing

/-!
# What a walk down reaches

A walk stops at files that are on the way already (`Shown`), and yet it shows every node that a
chain of references reaches within its depth: a chain that comes back to a file can be cut short,
and a chain without repetition is never stopped (`shown_iff`). A walk down follows the references of
the files (`mem_keys_walkDown_iff`).
-/

namespace TemplateAtlas

open Inquiry

/-! ### Chains of references -/

/-- A number of references that lead from one node to another, each from a file to the node at which
one of the references of the file ends. -/
inductive Chain (refs : Path → List NodeKey) : Nat → NodeKey → NodeKey → Prop where
  /-- No reference at all. -/
  | refl (key : NodeKey) : Chain refs 0 key key
  /-- One more reference in front. -/
  | cons {file : Path} {next key : NodeKey} {n : Nat} :
    next ∈ refs file → Chain refs n next key → Chain refs (n + 1) (.file file) key

/-- The files between lead from a file to a node, each by a reference to the next. -/
def Trail (refs : Path → List NodeKey) (file : Path) : List Path → NodeKey → Prop
  | [], key => key ∈ refs file
  | next :: between, key => .file next ∈ refs file ∧ Trail refs next between key

variable {refs : Path → List NodeKey} {file : Path} {between : List Path} {key : NodeKey}

theorem chain_succ_iff {n : Nat} :
    Chain refs (n + 1) (.file file) key ↔ ∃ between, between.length = n ∧
      Trail refs file between key := by
  induction n generalizing file with
  | zero =>
    constructor
    · rintro (_ | ⟨hnext, h⟩)
      cases h
      exact ⟨[], rfl, hnext⟩
    · rintro ⟨between, hlength, h⟩
      obtain rfl := List.length_eq_zero_iff.1 hlength
      exact .cons h (.refl key)
  | succ n ih =>
    constructor
    · rintro (_ | ⟨hnext, h⟩)
      have hstart := h
      obtain _ | ⟨_, _⟩ := hstart
      obtain ⟨between, hlength, htrail⟩ := ih.1 h
      exact ⟨_ :: between, by rw [List.length_cons, hlength], hnext, htrail⟩
    · rintro ⟨between, hlength, h⟩
      cases between with
      | nil => cases hlength
      | cons next between => exact .cons h.1 (ih.2 ⟨between, Nat.succ.inj hlength, h.2⟩)

/-- The end of a trail is a trail from any file on it. -/
theorem Trail.of_append {front rest : List Path} {next : Path}
    (h : Trail refs file (front ++ next :: rest) key) : Trail refs next rest key := by
  induction front generalizing file with
  | nil => exact h.2
  | cons first front ih => exact ih h.2

/-- A trail can be followed from any file with the same references. -/
theorem Trail.congr {file' : Path} (h : Trail refs file between key)
    (hrefs : refs file = refs file') : Trail refs file' between key := by
  cases between with
  | nil =>
    rw [Trail, ← hrefs]
    exact h
  | cons next between =>
    rw [Trail, ← hrefs]
    exact h

/-- The references of a file lead to files in normal form. -/
def LeadsToNormal (refs : Path → List NodeKey) : Prop :=
  ∀ file next, NodeKey.file next ∈ refs file → next.IsNormal

/-- No spelling of the file in normal form has other references, if there are any. -/
def SpelledAlike (refs : Path → List NodeKey) (file : Path) : Prop :=
  ∀ other : Path, other.IsNormal → (other == file) = true → refs file ≠ [] → refs other = refs file

theorem spelledAlike_of_isNormal (refs : Path → List NodeKey) (h : file.IsNormal) :
    SpelledAlike refs file :=
  fun other hother heq _ => by rw [hother.eq h (Path.beq_iff.1 heq)]

theorem Trail.ne_nil (h : Trail refs file between key) : refs file ≠ [] := by
  cases between with
  | nil => exact List.ne_nil_of_mem h
  | cons next between => exact List.ne_nil_of_mem h.1

/-- A chain from a file takes the references of that file and of files in normal form alone. -/
theorem Chain.congr {refs' : Path → List NodeKey} {n : Nat} (hnormal : LeadsToNormal refs)
    (hrefs : ∀ other : Path, other.IsNormal → refs other = refs' other)
    (hfile : refs file = refs' file) (h : Chain refs n (.file file) key) :
    Chain refs' n (.file file) key := by
  induction n generalizing file with
  | zero =>
    cases h
    exact .refl _
  | succ n ih =>
    obtain _ | ⟨hnext, h⟩ := h
    have hstart := h
    obtain _ | ⟨_, _⟩ := hstart
    · exact .cons (hfile ▸ hnext) (.refl _)
    next other _ _ _ _ =>
      exact .cons (hfile ▸ hnext) (ih (hrefs other (hnormal file other hnext)) h)

theorem Trail.isNormal (hnormal : LeadsToNormal refs) (h : Trail refs file between key) :
    ∀ next ∈ between, next.IsNormal := by
  induction between generalizing file with
  | nil => simp
  | cons next between ih =>
    intro other hmem
    rcases List.mem_cons.1 hmem with rfl | hmem
    · exact hnormal file _ h.1
    · exact ih h.2 other hmem

/-- A trail that comes back to a file can be cut short, so some trail that is no longer passes no
file twice. -/
theorem Trail.exists_distinct (hnormal : LeadsToNormal refs) (hfile : SpelledAlike refs file)
    (h : Trail refs file between key) :
    ∃ between', between'.length ≤ between.length ∧ Trail refs file between' key ∧
      (file :: between').Pairwise fun a b => (a == b) = false := by
  induction between generalizing file with
  | nil => exact ⟨[], le_rfl, h, List.pairwise_singleton _ _⟩
  | cons next between ih =>
    obtain ⟨between', hlength, htrail, hdistinct⟩ :=
      ih (spelledAlike_of_isNormal refs (hnormal file next h.1)) h.2
    have hall : Trail refs file (next :: between') key := ⟨h.1, htrail⟩
    by_cases hback : ∃ other ∈ next :: between', (file == other) = true
    · obtain ⟨other, hmem, heq⟩ := hback
      obtain ⟨front, rest, hsplit⟩ := List.append_of_mem hmem
      have hother := hall.isNormal hnormal other hmem
      rw [hsplit] at hall hdistinct
      have hrest := (List.pairwise_append.1 hdistinct).2.1
      refine ⟨rest, ?_, hall.of_append.congr (hfile other hother (BEq.symm heq) hall.ne_nil), ?_⟩
      · have := congrArg List.length hsplit
        simp only [List.length_append, List.length_cons] at this ⊢
        omega
      · rw [List.pairwise_cons] at hrest ⊢
        exact ⟨fun a ha => by rw [BEq.congr_left heq]; exact hrest.1 a ha, hrest.2⟩
    · refine ⟨next :: between', Nat.succ_le_succ hlength, hall,
        List.pairwise_cons.2 ⟨fun a ha => ?_, hdistinct⟩⟩
      exact Bool.eq_false_iff.2 fun heq => hback ⟨a, ha, heq⟩

/-! ### What a bounded walk shows -/

/-- What a walk along references shows within its depth: its start, the nodes at which the
references of the start end, and what the walk shows from there on, unless it has come back to a
file on the way. -/
inductive Shown (refs : Path → List NodeKey) : List Path → Nat → Path → NodeKey → Prop where
  /-- The start. -/
  | start {above : List Path} {depth : Nat} {file : Path} : Shown refs above depth file (.file file)
  /-- The end of a reference of the start. -/
  | next {above : List Path} {depth : Nat} {file : Path} {key : NodeKey} :
    key ∈ refs file → Shown refs above (depth + 1) file key
  /-- What the walk shows from a file to which the start refers. -/
  | beyond {above : List Path} {depth : Nat} {file next : Path} {key : NodeKey} :
    .file next ∈ refs file → (file :: above).contains next = false →
      Shown refs (file :: above) depth next key →
      Shown refs above (depth + 1) file key

variable {above : List Path} {depth : Nat}

/-- Every node that a walk shows is reached within its depth. -/
theorem Shown.exists_chain (h : Shown refs above depth file key) :
    ∃ n ≤ depth, Chain refs n (.file file) key := by
  induction h with
  | start => exact ⟨0, Nat.zero_le _, .refl _⟩
  | next hnext => exact ⟨1, by omega, .cons hnext (.refl _)⟩
  | beyond hnext _ _ ih =>
    obtain ⟨n, hn, hchain⟩ := ih
    exact ⟨n + 1, by omega, .cons hnext hchain⟩

/-- A trail that passes no file twice and none that is on the way is shown in full. -/
theorem Trail.shown (htrail : Trail refs file between key)
    (hdistinct : (file :: between).Pairwise fun a b => (a == b) = false)
    (habove : ∀ next ∈ between, above.contains next = false) (hdepth : between.length < depth) :
    Shown refs above depth file key := by
  induction between generalizing above depth file with
  | nil =>
    obtain ⟨depth, rfl⟩ := Nat.exists_eq_succ_of_ne_zero (Nat.ne_of_gt hdepth)
    exact .next htrail
  | cons next between ih =>
    obtain ⟨depth, rfl⟩ := Nat.exists_eq_succ_of_ne_zero (Nat.ne_of_gt (Nat.zero_lt_of_lt hdepth))
    obtain ⟨hfile, hdistinct⟩ := List.pairwise_cons.1 hdistinct
    have hfresh : ∀ other ∈ next :: between, (file :: above).contains other = false := by
      intro other hother
      rw [List.contains_cons, habove other hother, BEq.comm, hfile other hother]
      rfl
    exact .beyond htrail.1 (hfresh next (by simp)) (ih htrail.2 hdistinct
      (fun other hother => hfresh other (by simp [hother])) (Nat.lt_of_succ_lt_succ hdepth))

/-- A walk that begins with nothing on the way shows exactly the nodes that at most so many
references reach. -/
theorem shown_iff (hnormal : LeadsToNormal refs) (hfile : SpelledAlike refs file) :
    Shown refs [] depth file key ↔ ∃ n ≤ depth, Chain refs n (.file file) key := by
  constructor
  · exact Shown.exists_chain
  · rintro ⟨n, hn, hchain⟩
    cases n with
    | zero =>
      cases hchain
      exact .start
    | succ n =>
      obtain ⟨between, hlength, htrail⟩ := chain_succ_iff.1 hchain
      obtain ⟨between', hshorter, htrail', hdistinct⟩ := htrail.exists_distinct hnormal hfile
      exact htrail'.shown hdistinct (fun _ _ => rfl) (by omega)

/-! ### Nodes of trees -/

/-- What the nodes of a tree stand for. -/
def Tree.keys (t : Tree) : List NodeKey :=
  t.preorder.map (·.key)

theorem Tree.preorderAll_eq_flatMap (ts : List Tree) : preorderAll ts = ts.flatMap preorder := by
  induction ts with
  | nil => rfl
  | cons t ts ih => rw [preorderAll, ih, List.flatMap_cons]

theorem Tree.mem_keys_node_iff {info : TreeInfo} {children : List Tree} :
    key ∈ (Tree.node info children).keys ↔ key = info.key ∨ ∃ t ∈ children, key ∈ t.keys := by
  rw [keys, preorder, preorderAll_eq_flatMap, List.map_cons, List.mem_cons, List.map_flatMap,
    List.mem_flatMap]
  rfl

@[simp] theorem Tree.mem_keys_leaf_iff {info : TreeInfo} :
    key ∈ (Tree.leaf info).keys ↔ key = info.key := by
  rw [Tree.leaf, Tree.mem_keys_node_iff]
  simp

/-! ### Walks down -/

/-- The nodes at which the references of a file end. -/
def referredNodes (view : View) (file : Path) : List NodeKey :=
  ((outgoing file).answer view).map Outgoing.key

theorem target_eq_of_key {o : Outgoing} (h : o.key = .file file) :
    o.target = .file file o.target.repository? := by
  unfold Outgoing.key at h
  unfold Target.repository?
  cases htarget : o.target with
  | file path repository? =>
    rw [htarget] at h
    cases h
    rfl
  | missing path repository? =>
    rw [htarget] at h
    cases h
  | unknownAlias name =>
    rw [htarget] at h
    cases h

theorem isNormal_of_mem_keys {found : List Outgoing}
    (h : ∀ o ∈ found, ∀ path, o.target.path? = some path → path.IsNormal) {next : Path}
    (hmem : .file next ∈ found.map Outgoing.key) : next.IsNormal := by
  obtain ⟨o, ho, hkey⟩ := List.mem_map.1 hmem
  refine h o ho next ?_
  rw [target_eq_of_key hkey]
  rfl

theorem leadsToNormal_referredNodes (view : View) : LeadsToNormal (referredNodes view) :=
  fun file _ hmem => isNormal_of_mem_keys ((yields_outgoing file).answer view) hmem

/-- Where all spellings of a file have one root, its spelling in normal form refers to what any
other does. -/
theorem spelledAlike_viewWith (tree : FileTree) (memo : RootMemo) (file : Path) :
    SpelledAlike (referredNodes (tree.viewWith memo Path.normalize)) file := by
  intro other hother heq hrefs
  have hspelled : file.components = other.components := (Path.beq_iff.1 heq).symm
  have htext : (tree.viewWith memo Path.normalize).text file =
      (tree.viewWith memo Path.normalize).text other := by
    cases hfile : tree.fileAt? file with
    | none =>
      have hnone : (tree.viewWith memo Path.normalize).text file = none := by
        simp [FileTree.viewWith, hfile]
      rw [referredNodes, answer_outgoing, hnone] at hrefs
      exact absurd rfl hrefs
    | some v => simp [FileTree.viewWith, hfile, FileTree.fileAt?_of_isNormal hother hspelled hfile]
  rw [referredNodes, referredNodes,
    outgoing_congr hspelled htext (FileTree.root_viewWith_congr hspelled)]

/-- What a walk down makes of a reference. -/
def walkReference (above : List Path) (depth : Nat) (o : Outgoing) : Inquiry Tree :=
  match o.target with
  | .file path _ =>
    if above.contains path then Tree.leaf <$> cycleInfo path o.reference.line o.alias?
    else walkDown above depth path (some o.reference.line) o.alias?
  | .missing .. => pure (.leaf (.new o.key .missing (some o.reference.line) o.alias?))
  | .unknownAlias name =>
    pure (.leaf (.new o.key .unknownAlias (some o.reference.line) (some name)))

theorem walkDown_succ (above : List Path) (depth : Nat) (file : Path) (line? : Option Nat)
    (alias? : Option String) :
    walkDown above (depth + 1) file line? alias? = do
      let info ← fileInfo file line? alias?
      let found ← outgoing file
      let children ← each (walkReference (file :: above) depth) found
      return .node info children :=
  rfl

variable {view : View} {line? : Option Nat} {alias? : Option String}

theorem key_answer_fileInfo (view : View) (file : Path) (line? : Option Nat)
    (alias? : Option String) : ((fileInfo file line? alias?).answer view).key = .file file := by
  rw [fileInfo, answer_bind, answer_pure]
  rfl

theorem key_answer_cycleInfo (view : View) (file : Path) (line : Nat) (alias? : Option String) :
    ((cycleInfo file line alias?).answer view).key = .file file := by
  unfold cycleInfo
  split
  · rfl
  · rw [answer_bind, answer_pure]
    rfl

/-- The nodes of a walk down are its start and the nodes that its references show. -/
theorem mem_keys_walkDown_succ_iff :
    key ∈ ((walkDown above (depth + 1) file line? alias?).answer view).keys ↔
      key = .file file ∨ ∃ o ∈ (outgoing file).answer view,
        key ∈ ((walkReference (file :: above) depth o).answer view).keys := by
  rw [walkDown_succ]
  simp only [answer_bind, answer_pure, answer_each, Tree.mem_keys_node_iff, key_answer_fileInfo,
    List.mem_map, exists_exists_and_eq_and]

theorem mem_keys_walkDown_self (view : View) (above : List Path) (depth : Nat) (file : Path)
    (line? : Option Nat) (alias? : Option String) :
    .file file ∈ ((walkDown above depth file line? alias?).answer view).keys := by
  cases depth with
  | zero =>
    rw [walkDown, answer_bind, answer_pure, Tree.mem_keys_leaf_iff, key_answer_fileInfo]
  | succ depth => exact mem_keys_walkDown_succ_iff.2 (.inl rfl)

/-- A reference shows the node at which it ends and, if it leads to a file that is not on the way,
what a walk from there shows. -/
theorem mem_keys_walkReference_iff {o : Outgoing} :
    key ∈ ((walkReference above depth o).answer view).keys ↔ key = o.key ∨
      ∃ path repository?, o.target = .file path repository? ∧ above.contains path = false ∧
        key ∈ ((walkDown above depth path (some o.reference.line) o.alias?).answer view).keys := by
  unfold walkReference Outgoing.key
  cases o.target with
  | missing path repository? => simp [TreeInfo.new]
  | unknownAlias name => simp [TreeInfo.new]
  | file path repository? =>
    dsimp only
    split
    next habove =>
      rw [answer_map, Tree.mem_keys_leaf_iff, key_answer_cycleInfo]
      simp [habove]
    next habove =>
      have habove := Bool.eq_false_iff.2 habove
      constructor
      · intro hmem
        exact .inr ⟨path, repository?, rfl, habove, hmem⟩
      · rintro (rfl | ⟨path', repository', heq, -, hmem⟩)
        · exact mem_keys_walkDown_self ..
        · cases heq
          exact hmem

/-- The nodes of a walk down are those that a walk along the references shows. -/
theorem mem_keys_walkDown_iff_shown :
    key ∈ ((walkDown above depth file line? alias?).answer view).keys ↔
      Shown (referredNodes view) above depth file key := by
  induction depth generalizing above file line? alias? with
  | zero =>
    rw [walkDown, answer_bind, answer_pure, Tree.mem_keys_leaf_iff, key_answer_fileInfo]
    constructor
    · rintro rfl
      exact .start
    · rintro ⟨⟩
      rfl
  | succ depth ih =>
    rw [mem_keys_walkDown_succ_iff]
    simp only [mem_keys_walkReference_iff, ih]
    constructor
    · rintro (rfl | ⟨o, ho, rfl | ⟨path, repository?, htarget, hfresh, hshown⟩⟩)
      · exact .start
      · exact .next (List.mem_map_of_mem ho)
      · have hkey : o.key = .file path := by rw [Outgoing.key, htarget]
        exact .beyond (hkey ▸ List.mem_map_of_mem ho) hfresh hshown
    · rintro (_ | hnext | ⟨hnext, hfresh, hshown⟩)
      · exact .inl rfl
      · obtain ⟨o, ho, rfl⟩ := List.mem_map.1 hnext
        exact .inr ⟨o, ho, .inl rfl⟩
      · obtain ⟨o, ho, hkey⟩ := List.mem_map.1 hnext
        exact .inr ⟨o, ho, .inr ⟨_, o.target.repository?, target_eq_of_key hkey, hfresh, hshown⟩⟩

/-- A walk down from a file shows exactly the nodes that at most so many references reach. -/
theorem mem_keys_walkDown_iff (hfile : SpelledAlike (referredNodes view) file) :
    key ∈ ((walkDown [] depth file line? alias?).answer view).keys ↔
      ∃ n ≤ depth, Chain (referredNodes view) n (.file file) key := by
  rw [mem_keys_walkDown_iff_shown, shown_iff (leadsToNormal_referredNodes view) hfile]

/-! ### What a walk asks -/

section Asks

variable {texts roots : Path → Prop}

theorem asks_fileInfo {file : Path} (h : texts file) (line? : Option Nat) (alias? : Option String) :
    (fileInfo file line? alias?).Asks texts roots :=
  Asks.bind (asks_text_iff.2 h) fun _ => asks_pure _

theorem asks_cycleInfo {file : Path} (h : texts file) (line : Nat) (alias? : Option String) :
    (cycleInfo file line alias?).Asks texts roots := by
  unfold cycleInfo
  split
  · exact asks_pure _
  · exact (Asks.bind (asks_text_iff.2 h) fun _ => asks_pure _).bind fun _ => asks_pure _

/-- A walk down from a file in normal form asks for roots of such files alone. -/
theorem asks_walkDown (hfile : file.IsNormal) (depth : Nat) (above : List Path) (line? : Option Nat)
    (alias? : Option String) :
    (walkDown above depth file line? alias?).Asks (fun _ => True) Path.IsNormal := by
  induction depth generalizing above file line? alias? with
  | zero => exact (asks_fileInfo trivial line? alias?).bind fun _ => asks_pure _
  | succ depth ih =>
    rw [walkDown_succ]
    refine (asks_fileInfo trivial line? alias?).bind fun info => ?_
    refine (asks_outgoing trivial hfile).bind_yields (yields_outgoing file) fun found hfound => ?_
    refine (Asks.each fun o ho => ?_).bind fun _ => asks_pure _
    unfold walkReference
    cases htarget : o.target with
    | missing path repository? => exact asks_pure _
    | unknownAlias name => exact asks_pure _
    | file path repository? =>
      dsimp only
      split
      · exact (asks_cycleInfo trivial o.reference.line o.alias?).map _
      · exact ih (hfound o ho path (by rw [htarget]; rfl)) _ _ _

/-- A walk down that goes further than its start asks for the references of the start, and remembers
the roots that are then found. -/
theorem exists_run_outgoing {tree : FileTree} {memory : Memory} (h : memory.cache.Agrees texts tree)
    (above : List Path) (depth : Nat) (file : Path) (line? : Option Nat) (alias? : Option String) :
    ∃ first : Memory, first.cache.Agrees texts tree ∧
      ∀ directory found, ((outgoing file).run tree first).2.roots.find? directory = some found →
        ((walkDown above (depth + 1) file line? alias?).run tree memory).2.roots.find? directory =
          some found := by
  refine ⟨_, cache_run_agrees h (fileInfo file line? alias?), fun directory found hfind => ?_⟩
  rw [walkDown_succ, run_bind, run_bind]
  exact find?_roots_run_of_eq_some hfind _

theorem asks_templateTree (hfile : file.IsNormal) (depth : Nat) :
    (templateTree file depth).Asks (fun _ => True) Path.IsNormal :=
  asks_walkDown hfile _ _ _ _

end Asks

end TemplateAtlas
