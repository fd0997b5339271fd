import TemplateAtlas.Proofs.Workspace

/-!
# Builds inside builds

Between its beginning and its end a build lists the files of the corpus, and while it does so other
calls may be made of the index, builds among them: builds run inside builds to any depth (`Call`).
At every moment of such a run (`Chronicle.reach`) the numbers that the index takes tell which build
is the latest, so a build is published exactly if no other build and no clearing came after its
beginning, a build that is not published leaves no trace, and when no build is under way nothing
waits for one (`builds_publish_the_latest`).
-/

namespace TemplateAtlas

open Inquiry

/-- A call that is made of the index of a workspace. Whatever it reads, it reads from the files as
they stand then. -/
inductive Call where
  /-- A build begins, calls are made while it lists its files, and then it reads these and ends. -/
  | build (during : List Call) (files : List Path) (tree : FileTree)
  /-- A change arrives. It need not be true. -/
  | change (change : FileChange) (tree : FileTree)
  /-- The index is cleared. -/
  | clear

/-- Does the call take a number? -/
def Call.registers : Call → Bool
  | .build .. => true
  | .change .. => false
  | .clear => true

/-- What has come of a call. -/
inductive CallResult where
  /-- A build has been published. -/
  | published
  /-- A build has been discarded. -/
  | discarded
  /-- A change has been noted. -/
  | noted
  /-- The index has been cleared. -/
  | cleared
  deriving DecidableEq, Repr

/-- A workspace, and what has come of the calls that have returned, the latest first. -/
structure Chronicle where
  /-- The workspace. -/
  workspace : Workspace
  /-- What has come of the calls. -/
  results : List CallResult := []

namespace Index

/-- No build is under way, and nothing waits for one. -/
structure Settled (index : Index) : Prop where
  /-- The latest number is that of the latest build or clearing that is complete. -/
  complete : index.started = index.completed
  /-- The queue is empty. -/
  pending : index.pending = []

theorem inFlight_eq_false_iff (index : Index) :
    index.inFlight = false ↔ index.started = index.completed := by
  rw [inFlight, bne_eq_false_iff_eq]

theorem settled_clear (index : Index) : index.clear.Settled :=
  ⟨rfl, rfl⟩

theorem Settled.queued {index : Index} (h : index.Settled) (change : FileChange) :
    index.queued change = [] := by
  rw [Index.queued, (inFlight_eq_false_iff index).2 h.complete, if_neg (by decide), h.pending]

end Index

namespace Workspace

variable {ws : Workspace}

/-! ### What an operation does to the index -/

/-- A build whose number is the latest is published with some snapshot and empties the queue. Any
other leaves the index as it is. -/
theorem endBuild_cases (ws : Workspace) (tree : FileTree) (number : Nat) (files : List Path) :
    (ws.index.started = number ∧ (ws.endBuild tree number files).1 = true ∧ ∃ snapshot,
      (ws.endBuild tree number files).2.index =
        { ws.index with snapshot := snapshot, ready := true, completed := number, pending := [] }) ∨
    (ws.index.started ≠ number ∧ (ws.endBuild tree number files).1 = false ∧
      (ws.endBuild tree number files).2.index = ws.index) := by
  have hyields : (ws.index.finish number files).Yields fun result =>
      (ws.index.started = number ∧ result.1 = true ∧ ∃ snapshot, result.2 =
        { ws.index with snapshot := snapshot, ready := true, completed := number, pending := [] }) ∨
      (ws.index.started ≠ number ∧ result.1 = false ∧ result.2 = ws.index) := by
    refine (yields_true _).bind fun built _ => ?_
    unfold Index.endBuild
    by_cases hnumber : ws.index.started = number
    · rw [if_neg (by simp [hnumber])]
      exact (yields_true _).bind fun snapshot _ => .inl ⟨hnumber, rfl, snapshot, rfl⟩
    · rw [if_pos (by simp [hnumber])]
      exact .inr ⟨hnumber, rfl, rfl⟩
  exact hyields.run_fst tree ws.memory

/-- A change that arrives when the index is not ready and no build is under way drops what was read
of its path, and nothing else happens. -/
theorem indexChange_of_idle (hready : ws.index.ready = false) (hflight : ws.index.inFlight = false)
    (tree : FileTree) (change : FileChange) :
    ws.indexChange tree change = ws.forget change.path := by
  have happly : ws.index.apply change = pure ws.index := by
    simp [Index.apply, hready, hflight]
  rw [indexChange, happly]
  rfl

end Workspace

namespace Chronicle

/-! ### Runs -/

/-- A build begins and gets its number. -/
def beginBuild (c : Chronicle) : Chronicle × Nat :=
  let (workspace, number) := c.workspace.beginBuild
  ({ c with workspace := workspace }, number)

/-- A build ends, and the answer tells whether it is published. -/
def endBuild (c : Chronicle) (number : Nat) (files : List Path) (tree : FileTree) :
    Bool × Chronicle :=
  let (published, workspace) := c.workspace.endBuild tree number files
  (published, ⟨workspace, (if published then .published else .discarded) :: c.results⟩)

mutual

/-- What stands after a call. -/
def after (c : Chronicle) : Call → Chronicle
  | .build during files tree =>
    ((c.beginBuild.1.afterAll during).endBuild c.beginBuild.2 files tree).2
  | .change change tree => ⟨c.workspace.indexChange tree change, .noted :: c.results⟩
  | .clear => ⟨c.workspace.clearIndex, .cleared :: c.results⟩

/-- What stands after several calls. -/
def afterAll (c : Chronicle) : List Call → Chronicle
  | [] => c
  | call :: calls => (c.after call).afterAll calls

end

/-- A moment of a run. At each level some calls have returned, from the outermost level to the
innermost. Between two levels a build has begun, which has not ended. -/
def reach (c : Chronicle) : List (List Call) → List Call → Chronicle
  | [], now => c.afterAll now
  | returned :: inner, now => ((c.afterAll returned).beginBuild.1).reach inner now

/-- Has a build been published since the index was cleared? -/
def Serves (c : Chronicle) : Prop :=
  .published ∈ c.results.takeWhile (· ≠ .cleared)

variable (c : Chronicle)

/-! ### The numbers -/

/-- A change takes no number and completes none, and leaves an index settled that is settled. -/
theorem after_of_not_registers {call : Call} (h : call.registers = false) :
    (c.after call).workspace.index.started = c.workspace.index.started ∧
      (c.workspace.index.Settled → (c.after call).workspace.index.Settled) := by
  cases call with
  | build during files tree => cases h
  | clear => cases h
  | change change tree =>
    obtain ⟨snapshot, hindex⟩ := c.workspace.index_indexChange tree change
    rw [after, hindex]
    exact ⟨rfl, fun hsettled => ⟨hsettled.complete, hsettled.queued change⟩⟩

theorem afterAll_of_not_registers {calls : List Call} (h : ∀ call ∈ calls, call.registers = false) :
    (c.afterAll calls).workspace.index.started = c.workspace.index.started ∧
      (c.workspace.index.Settled → (c.afterAll calls).workspace.index.Settled) := by
  induction calls generalizing c with
  | nil => exact ⟨rfl, id⟩
  | cons call calls ih =>
    obtain ⟨hstarted, hsettled⟩ := c.after_of_not_registers (h call (by simp))
    obtain ⟨hstarted', hsettled'⟩ := ih (c.after call) fun call' hmem => h call' (by simp [hmem])
    exact ⟨hstarted'.trans hstarted, hsettled' ∘ hsettled⟩

mutual

/-- Whatever came before, a build or a clearing takes a number, and when it has returned no other is
under way. -/
theorem after_of_registers (c : Chronicle) : (call : Call) → call.registers = true →
    c.workspace.index.started < (c.after call).workspace.index.started ∧
      (c.after call).workspace.index.Settled
  | .build during files tree, _ => by
    have hbegun : c.beginBuild.1.workspace.index.started = c.beginBuild.2 := rfl
    have hlt : c.workspace.index.started < c.beginBuild.2 := Nat.lt_succ_self _
    rw [after]
    rcases (c.beginBuild.1.afterAll during).workspace.endBuild_cases tree c.beginBuild.2 files with
      ⟨hnumber, -, snapshot, hindex⟩ | ⟨hnumber, -, hindex⟩
    · rw [endBuild, hindex]
      exact ⟨hnumber ▸ hlt, ⟨hnumber, rfl⟩⟩
    · -- The number is no longer the latest, so a build or a clearing was among the calls made
      -- meanwhile.
      have hduring : ∃ call ∈ during, call.registers = true := by
        by_contra hnone
        have hchanges : ∀ call ∈ during, call.registers = false := by simpa using hnone
        exact hnumber ((c.beginBuild.1.afterAll_of_not_registers hchanges).1.trans hbegun)
      obtain ⟨hstarted, hsettled⟩ := afterAll_of_registers c.beginBuild.1 during hduring
      rw [endBuild, hindex]
      exact ⟨hlt.trans (hbegun ▸ hstarted), hsettled⟩
  | .clear, _ => ⟨Nat.lt_succ_self _, Index.settled_clear _⟩

theorem afterAll_of_registers (c : Chronicle) :
    (calls : List Call) → (∃ call ∈ calls, call.registers = true) →
    c.workspace.index.started < (c.afterAll calls).workspace.index.started ∧
      (c.afterAll calls).workspace.index.Settled
  | call :: calls, h => by
    rw [afterAll]
    cases hcall : call.registers with
    | false =>
      obtain ⟨hstarted, -⟩ := c.after_of_not_registers hcall
      rw [← hstarted]
      exact afterAll_of_registers (c.after call) calls (by simpa [hcall] using h)
    | true =>
      obtain ⟨hstarted, hsettled⟩ := after_of_registers c call hcall
      by_cases hrest : ∃ call ∈ calls, call.registers = true
      · obtain ⟨hstarted', hsettled'⟩ := afterAll_of_registers (c.after call) calls hrest
        exact ⟨hstarted.trans hstarted', hsettled'⟩
      · have hchanges : ∀ call ∈ calls, call.registers = false := by simpa using hrest
        obtain ⟨hstarted', hsettled'⟩ := (c.after call).afterAll_of_not_registers hchanges
        exact ⟨hstarted' ▸ hstarted, hsettled' hsettled⟩

end

/-- Whatever is called while no build is under way, none is under way afterwards. -/
theorem settled_afterAll (h : c.workspace.index.Settled) (calls : List Call) :
    (c.afterAll calls).workspace.index.Settled := by
  by_cases hcalls : ∃ call ∈ calls, call.registers = true
  · exact (c.afterAll_of_registers calls hcalls).2
  · have hchanges : ∀ call ∈ calls, call.registers = false := by simpa using hcalls
    exact (c.afterAll_of_not_registers hchanges).2 h

/-! ### The end of a build -/

/-- The number of a build is the latest when it ends, exactly if no call made meanwhile has taken
another. -/
theorem started_afterAll_eq_iff (during : List Call) :
    (c.beginBuild.1.afterAll during).workspace.index.started = c.beginBuild.2 ↔
      ∀ call ∈ during, call.registers = false := by
  have hbegun : c.beginBuild.1.workspace.index.started = c.beginBuild.2 := rfl
  constructor
  · intro hlatest
    by_contra hsome
    have hregisters : ∃ call ∈ during, call.registers = true := by simpa using hsome
    have hlt := (c.beginBuild.1.afterAll_of_registers during hregisters).1
    omega
  · intro hchanges
    exact (c.beginBuild.1.afterAll_of_not_registers hchanges).1.trans hbegun

/-! ### Readiness -/

/-- What is served agrees with what is on record. -/
def Faithful (c : Chronicle) : Prop :=
  c.workspace.index.ready = true ↔ c.Serves

theorem Faithful.endBuild {c : Chronicle} (h : c.Faithful) (number : Nat) (files : List Path)
    (tree : FileTree) : (c.endBuild number files tree).2.Faithful := by
  unfold Faithful Serves at h ⊢
  unfold Chronicle.endBuild
  rcases c.workspace.endBuild_cases tree number files with ⟨-, hpublished, snapshot, hindex⟩
      | ⟨-, hpublished, hindex⟩
  · simp [hpublished, hindex]
  · simpa [hpublished, hindex] using h

mutual

theorem Faithful.after {c : Chronicle} (h : c.Faithful) : (call : Call) → (c.after call).Faithful
  | .build during files tree => by
    have hbegun : c.beginBuild.1.Faithful := h
    exact (hbegun.afterAll during).endBuild c.beginBuild.2 files tree
  | .change change tree => by
    obtain ⟨snapshot, hindex⟩ := c.workspace.index_indexChange tree change
    unfold Faithful Serves at h ⊢
    unfold Chronicle.after
    simpa [hindex] using h
  | .clear => by
    unfold Faithful Serves Chronicle.after
    simp [Workspace.clearIndex, Index.clear]

theorem Faithful.afterAll {c : Chronicle} (h : c.Faithful) :
    (calls : List Call) → (c.afterAll calls).Faithful
  | [] => h
  | call :: calls => (h.after call).afterAll calls

end

theorem Faithful.reach {c : Chronicle} (h : c.Faithful) (levels : List (List Call))
    (now : List Call) : (c.reach levels now).Faithful := by
  induction levels generalizing c with
  | nil => exact h.afterAll now
  | cons returned inner ih => exact ih (h.afterAll returned)

/-! ### The protocol -/

/-- At every moment of every nesting of builds, clearings and changes, from a workspace whose index
is new on:
- a build that begins now and lists its files while any calls are made is published exactly if no
  build and no clearing is among these, and if it is not published it leaves the index as these
  calls have left it;
- the index is ready exactly if a build has been published since the last clearing;
- if no build is under way, the latest number is complete and the queue is empty, also after a
  further change;
- a change that arrives when the index is not ready and no build is under way drops the kept text of
  its path, and nothing else happens. -/
theorem builds_publish_the_latest (ws : Workspace) (levels : List (List Call)) (now : List Call) :
    let c := (Chronicle.mk { ws with index := {} } []).reach levels now
    (∀ during files tree,
      let listed := c.beginBuild.1.afterAll during
      let ended := listed.endBuild c.beginBuild.2 files tree
      (ended.1 = true ↔ ∀ call ∈ during, call.registers = false) ∧
        (ended.1 = false → ended.2.workspace.index = listed.workspace.index)) ∧
    (c.workspace.index.ready = true ↔ .published ∈ c.results.takeWhile (· ≠ .cleared)) ∧
    (levels = [] → c.workspace.index.started = c.workspace.index.completed ∧
      c.workspace.index.pending = [] ∧
      ∀ tree change, (c.workspace.indexChange tree change).index.pending = []) ∧
    (c.workspace.index.ready = false → c.workspace.index.inFlight = false → ∀ tree change,
      c.workspace.indexChange tree change = c.workspace.forget change.path ∧
      ∀ p, (p == change.path) = false →
        (c.workspace.indexChange tree change).memory.cache.kept.find? p =
          c.workspace.memory.cache.kept.find? p) := by
  intro c
  have hfaithful : c.Faithful := by
    have hnew : (Chronicle.mk { ws with index := {} } []).Faithful := by simp [Faithful, Serves]
    exact hnew.reach levels now
  refine ⟨fun during files tree => ?_, hfaithful, fun hlevels => ?_,
    fun hready hflight tree change => ?_⟩
  · have hlatest := c.started_afterAll_eq_iff during
    intro listed ended
    rcases listed.workspace.endBuild_cases tree c.beginBuild.2 files with
      ⟨hnumber, hpublished, -⟩ | ⟨hnumber, hpublished, hindex⟩
    · refine ⟨iff_of_true hpublished (hlatest.1 hnumber), fun hdiscarded => ?_⟩
      simp [ended, endBuild, hpublished] at hdiscarded
    · refine ⟨iff_of_false ?_ (mt hlatest.2 hnumber), fun _ => hindex⟩
      simp [ended, endBuild, hpublished]
  · subst hlevels
    have hsettled : c.workspace.index.Settled := settled_afterAll _ ⟨rfl, rfl⟩ now
    refine ⟨hsettled.complete, hsettled.pending, fun tree change => ?_⟩
    obtain ⟨snapshot, hindex⟩ := c.workspace.index_indexChange tree change
    rw [hindex]
    exact hsettled.queued change
  · have hidle := Workspace.indexChange_of_idle hready hflight tree change
    refine ⟨hidle, fun p hp => ?_⟩
    rw [hidle, Workspace.forget, Cache.invalidate, SortedMap.find?_erase, if_neg]
    rw [Path.compare_eq_iff, ← Path.beq_iff, hp]
    decide

end Chronicle

end TemplateAtlas
