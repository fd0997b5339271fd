import TemplateAtlas.Proofs.Corpus.Change
import TemplateAtlas.Proofs.Files.Roots

/-!
# Resolvers: the roots that are remembered do not show

A resolver is asked where references lead and where the repositories of files begin, and remembers
the roots that it finds by directory. In between the files may change, but the same directories hold
the marker of a repository (`Moment.Continues`). Then what is remembered stays true: a call keeps
the agreement with the files (`agrees_reply`), and so does a change of the files
(`FileTree.roots_agree`). So every reply is that of a resolver which remembers nothing, whatever was
asked before, and it is given from the nearest directory above the file in which a repository
begins, or from the directory of the file if there is none (`replies_are_fresh`).
-/

namespace TemplateAtlas

open Inquiry TemplateAtlas.Template

namespace Resolver

/-- What a resolver is asked. -/
inductive Call where
  /-- Where does a reference in a file lead? -/
  | reference (raw : String) (file : Path) (aliases : AliasTable)
  /-- What is the root of the repository of a file? -/
  | root (file : Path)
  /-- Nothing: the roots that were found are dropped. -/
  | clear

/-- What a resolver replies. -/
inductive Reply where
  /-- Where the reference leads. -/
  | reference (resolved? : Option Resolved)
  /-- The root of the repository. -/
  | root (directory : Path)
  /-- The roots are dropped. -/
  | cleared

namespace Call

/-- The file that a call is about. -/
def file? : Call → Option Path
  | reference _ file _ => some file
  | root file => some file
  | clear => none

/-- The reply to a call, and the roots that are remembered after it. -/
def reply (memo : RootMemo) (tree : FileTree) : Call → Reply × RootMemo
  | reference raw file aliases =>
    let (resolved?, memory) := (resolve raw file aliases).run tree { roots := memo }
    (.reference resolved?, memory.roots)
  | root file =>
    let (directory, memo) := memo.root tree file
    (.root directory, memo)
  | clear => (.cleared, .empty)

/-- The reply of someone who knows the root of the repository of the file, and nothing else. -/
def replyFrom (directory : Path) : Call → Reply
  | reference raw file aliases =>
    .reference ((resolve raw file aliases).answer ⟨fun _ => none, fun _ => false,
      fun _ => directory⟩)
  | root _ => .root directory
  | clear => .cleared

end Call

/-- A call, and the files as they stand when it is made. -/
structure Moment where
  /-- The files. -/
  tree : FileTree
  /-- The call. -/
  call : Call

/-- The reply of a resolver that remembers nothing. -/
def Moment.fresh (m : Moment) : Reply :=
  (m.call.reply .empty m.tree).1

/-- The files hold the repositories of a tree, and the call is about an absolute path in normal
form. -/
structure Moment.Continues (tree : FileTree) (m : Moment) : Prop where
  /-- The files are well-formed. -/
  wellFormed : m.tree.WellFormed
  /-- The same directories hold the marker of a repository. -/
  sameRepositories : tree.SameRepositories m.tree
  /-- The file of the call has an address. -/
  isAddress : ∀ file ∈ m.call.file?, file.IsAddress

/-- The replies to calls that are made one after the other. -/
def replies (memo : RootMemo) : List Moment → List Reply
  | [] => []
  | m :: moments => (m.call.reply memo m.tree).1 :: replies (m.call.reply memo m.tree).2 moments

/-! ### One call -/

section Call

variable {memo : RootMemo} {tree : FileTree} {call : Call} {file : Path}

theorem memory_agrees (h : memo.Agrees Path.IsAddress tree) :
    Memory.Agrees Path.IsAddress Path.IsAddress tree { roots := memo } :=
  ⟨Cache.agrees_empty _ _, h⟩

/-- After a call what is remembered still agrees with the files. -/
theorem agrees_reply (h : memo.Agrees Path.IsAddress tree)
    (hfile : ∀ file ∈ call.file?, file.IsAddress) :
    (call.reply memo tree).2.Agrees Path.IsAddress tree := by
  have hnormal : ∀ p : Path, p.IsAddress → p.IsNormal := fun _ hp => hp.isNormal
  cases call with
  | reference raw file aliases =>
    exact ((memory_agrees h).run_snd hnormal
      (asks_resolve (hfile file rfl).isNormal raw aliases)).roots
  | root file => exact h.root_snd hnormal (hfile file rfl).isNormal
  | clear => exact RootMemo.agrees_empty _ _

/-- The reply to a call is given from the root that the files show, if what is remembered agrees
with them. -/
theorem reply_eq_replyFrom (h : memo.Agrees Path.IsAddress tree) (hcall : call.file? = some file)
    (hfile : file.IsAddress) : (call.reply memo tree).1 = call.replyFrom (tree.view.root file) := by
  cases call with
  | reference raw file' aliases =>
    obtain rfl : file' = file := Option.some.inj hcall
    let view : View := ⟨fun _ => none, fun _ => false, fun _ => tree.view.root file'⟩
    have hrun := (memory_agrees h).run_fst (fun _ hp => hp.isNormal)
      (asks_resolve hfile raw aliases)
    have hroot : tree.view.root file' = view.root file' := rfl
    exact congrArg Reply.reference (hrun.trans (resolve_congr rfl hroot raw aliases))
  | root file' =>
    obtain rfl : file' = file := Option.some.inj hcall
    exact congrArg Reply.root (h.root_fst hfile)
  | clear => cases hcall

/-- A resolver replies as one that remembers nothing, if what it remembers agrees with the files. -/
theorem reply_eq_fresh {m : Moment} (h : memo.Agrees Path.IsAddress m.tree)
    (hfile : ∀ file ∈ m.call.file?, file.IsAddress) : (m.call.reply memo m.tree).1 = m.fresh := by
  obtain ⟨tree, call⟩ := m
  cases hcall : call.file? with
  | some file =>
    have haddress := hfile file hcall
    rw [Moment.fresh, reply_eq_replyFrom h hcall haddress,
      reply_eq_replyFrom (RootMemo.agrees_empty _ tree) hcall haddress]
  | none =>
    cases call with
    | clear => rfl
    | reference => cases hcall
    | root => cases hcall

/-- A resolver that remembers nothing replies from the root of the repository of the file. -/
theorem fresh_eq_replyFrom {m : Moment} (hcall : m.call.file? = some file)
    (hfile : file.IsAddress) :
    ∃ root, m.tree.RootOf file.directory.place root ∧
      m.fresh = m.call.replyFrom (.address root) := by
  obtain ⟨place, hplace, hdirectory⟩ := hfile.directory
  obtain ⟨root, hroot, habove⟩ := m.tree.exists_rootOf hplace
  refine ⟨root, ?_, ?_⟩
  · rwa [hdirectory, Path.place_address hplace]
  · rw [Moment.fresh, reply_eq_replyFrom (RootMemo.agrees_empty _ _) hcall hfile,
      FileTree.view_root, hdirectory, habove]

end Call

/-! ### Calls one after the other -/

section Run

variable {memo : RootMemo} {tree : FileTree}

/-- What is remembered at one moment is true at the next. -/
theorem agrees_of_continues {m : Moment} (h : tree.WellFormed)
    (hmemo : memo.Agrees Path.IsAddress tree) (hm : m.Continues tree) :
    (m.call.reply memo m.tree).2.Agrees Path.IsAddress tree := by
  -- the agreement is carried over to the files of the moment, and after the call back again
  have hbefore := FileTree.roots_agree h hm.wellFormed hm.sameRepositories hmemo
  have hsame : m.tree.SameRepositories tree := fun place => (hm.sameRepositories place).symm
  exact FileTree.roots_agree hm.wellFormed h hsame (agrees_reply hbefore hm.isAddress)

/-- As long as the files hold the same repositories, a resolver replies as if each call were its
first. -/
theorem replies_eq_map_fresh (h : tree.WellFormed) (hmemo : memo.Agrees Path.IsAddress tree)
    {moments : List Moment} (hmoments : ∀ m ∈ moments, m.Continues tree) :
    replies memo moments = moments.map Moment.fresh := by
  -- what is remembered differs from call to call, but it agrees with one and the same tree
  -- throughout
  induction moments generalizing memo with
  | nil => rfl
  | cons m moments ih =>
    obtain ⟨hm, hrest⟩ := List.forall_mem_cons.1 hmoments
    have hagrees := FileTree.roots_agree h hm.wellFormed hm.sameRepositories hmemo
    rw [replies, List.map_cons, reply_eq_fresh hagrees hm.isAddress,
      ih (agrees_of_continues h hmemo hm) hrest]

end Run

/-- Once the roots are dropped, nothing of what was asked before shows, whatever has become of the
repositories. -/
theorem replies_append_clear (memo : RootMemo) (earlier : List Moment) (tree : FileTree)
    (later : List Moment) :
    replies memo (earlier ++ ⟨tree, .clear⟩ :: later) = replies memo earlier ++ .cleared ::
      replies .empty later := by
  induction earlier generalizing memo with
  | nil => rfl
  | cons m earlier ih => rw [List.cons_append, replies, ih, replies, List.cons_append]

/-- A repository that begins above a directory is not noticed there until the roots are dropped. -/
example :
    let file := Path.address ["app", "ci.yml"]
    let marked := ({} : FileTree).makeDirectories [".git"]
    replies .empty [⟨{}, .root file⟩, ⟨marked, .root file⟩, ⟨marked, .clear⟩,
      ⟨marked, .root file⟩] =
      [.root ⟨"/app"⟩, .root ⟨"/app"⟩, .cleared, .root ⟨"/"⟩] := by
  rfl

/-- Let a resolver begin with nothing remembered and be called while the files change but hold the
same repositories. Each of its replies is that of a resolver which remembers nothing. This one is
given from the root of the repository of the file: the nearest directory above the file that holds
the marker, or the directory of the file if there is none. -/
theorem replies_are_fresh {tree : FileTree} (h : tree.WellFormed) {moments : List Moment}
    (hmoments : ∀ m ∈ moments, m.Continues tree) :
    replies .empty moments = moments.map Moment.fresh ∧
      ∀ m ∈ moments, ∀ file ∈ m.call.file?, ∃ root, m.tree.RootOf file.directory.place root ∧
        m.fresh = m.call.replyFrom (.address root) :=
  ⟨replies_eq_map_fresh h (RootMemo.agrees_empty _ _) hmoments,
    fun m hm file hfile => fresh_eq_replyFrom hfile ((hmoments m hm).isAddress file hfile)⟩

/-- A repository inside another. -/
def nestedProject : FileTree :=
  (({} : FileTree).makeDirectories ["app", ".git"]).makeDirectories ["app", "lib", ".git"]

/-- The inner repository gets a template. -/
def grownProject : FileTree :=
  nestedProject.put ["app", "lib", "x.yml"] "steps: []".toUTF8 none

/-- Calls about files of both repositories and outside of them. -/
def mixedCalls : List Moment :=
  let inner := Path.address ["app", "lib", "jobs", "ci.yml"]
  let outer := Path.address ["app", "ci.yml"]
  let loose := Path.address ["x", "y", "ci.yml"]
  [⟨nestedProject, .root inner⟩, ⟨nestedProject, .reference "/a.yml" outer .empty⟩,
    ⟨grownProject, .reference "b.yml@other" inner (.ofList [("other", "shared")])⟩,
    ⟨grownProject, .root loose⟩,
    ⟨grownProject, .clear⟩, ⟨grownProject, .reference "/a.yml" loose .empty⟩]

/-- The root of the inner repository is found once and used again after a file is written in it. -/
theorem replies_of_mixedCalls :
    (nestedProject.WellFormed ∧ ∀ m ∈ mixedCalls, m.Continues nestedProject) ∧
      replies .empty mixedCalls =
        [.root ⟨"/app/lib"⟩, .reference (some (.path ⟨"/app/a.yml"⟩ none)),
          .reference (some (.path ⟨"/app/shared/b.yml"⟩ (some "shared"))), .root ⟨"/x/y"⟩, .cleared,
          .reference (some (.path ⟨"/x/y/a.yml"⟩ none))] := by
  have h : nestedProject.WellFormed := by decide +kernel
  have h' : grownProject.WellFormed := by decide +kernel
  have hsame : nestedProject.SameRepositories nestedProject := fun _ => rfl
  have hsame' : nestedProject.SameRepositories grownProject := fun place => by
    rw [grownProject, FileTree.node?_put_of_ne _ _ fun heq => by
      simpa [repositoryMarker] using congrArg List.getLast? heq]
  have haddress : ∀ {place : Location}, IsPlace place →
      ∀ file ∈ some (Path.address place), file.IsAddress :=
    fun hplace _ hfile => Option.some.inj hfile ▸ Path.isAddress_address hplace
  have hclear : ∀ file ∈ (none : Option Path), file.IsAddress :=
    fun _ hfile => absurd hfile (Option.not_mem_none _)
  have hmoments : ∀ m ∈ mixedCalls, m.Continues nestedProject := by
    simp only [mixedCalls, List.forall_mem_cons]
    exact ⟨⟨h, hsame, haddress (by decide)⟩, ⟨h, hsame, haddress (by decide)⟩,
      ⟨h', hsame', haddress (by decide)⟩,
      ⟨h', hsame', haddress (by decide)⟩, ⟨h', hsame', hclear⟩, ⟨h', hsame', haddress (by decide)⟩,
      List.forall_mem_nil _⟩
  refine ⟨⟨h, hmoments⟩, ?_⟩
  rw [(replies_are_fresh h hmoments).1]
  rfl

end Resolver

end TemplateAtlas
