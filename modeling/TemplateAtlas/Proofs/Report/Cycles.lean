import Mathlib.Data.List.Chain
import Mathlib.Logic.Relation
import TemplateAtlas.Proofs.Report.Digraph

/-!
# Cycles of references

A search in depth keeps the files that it has come to and the way to the current one. A file that it
has come to and that is not on the way is finished. The references that close the cycles found so
far are the closing ones; any other reference of a finished file leads to a finished file, and by
such references no finished file leads back to itself (`Searched`). This is kept when a file is
entered (`Searched.enter`), when a reference closes a cycle (`Follows.close`), and when all
references of the last file on the way have been followed (`Follows.leave`). So the lists that are
found are cycles, and each cycle of the files has a closing reference
(`Snapshot.findsCycles_cycles`).
-/

namespace TemplateAtlas

open Relation

/-! ### Cycles of a relation -/

section Cycles

variable {refers : Path → Path → Prop} {cycles more : List (List Path)} {a b : Path}

/-- Is the list a cycle: different files, each of which refers to the next, and the last to the
first? -/
structure IsCycle (refers : Path → Path → Prop) (cycle : List Path) : Prop where
  /-- There is a first and a last file, and the last refers to the first. -/
  closes : ∃ first last, cycle.head? = some first ∧ cycle.getLast? = some last ∧ refers last first
  /-- Each file refers to the next. -/
  chain : cycle.IsChain refers
  /-- No two files are the same. -/
  distinct : cycle.Pairwise fun p q => (p == q) = false

/-- Does the reference from the first file to the second close one of the cycles? -/
def Closes (cycles : List (List Path)) (last first : Path) : Prop :=
  ∃ cycle ∈ cycles, cycle.head? = some first ∧ cycle.getLast? = some last

/-- Is it a reference that closes none of the cycles? -/
def Remains (refers : Path → Path → Prop) (cycles : List (List Path)) (a b : Path) : Prop :=
  refers a b ∧ ¬Closes cycles a b

/-- Are the lists cycles, no two closed by the same reference, and does nothing remain of any cycle
without the references that close them? -/
structure FindsCycles (refers : Path → Path → Prop) (cycles : List (List Path)) : Prop where
  /-- The lists are cycles. -/
  sound : ∀ cycle ∈ cycles, IsCycle refers cycle
  /-- No two of them have the same first and the same last file. -/
  apart : cycles.Pairwise fun c d => ¬(c.head? = d.head? ∧ c.getLast? = d.getLast?)
  /-- No file leads back to itself by references that close none of them. -/
  complete : ∀ p, ¬TransGen (Remains refers cycles) p p
  /-- None is found if and only if no file leads back to itself. -/
  eq_nil_iff : cycles = [] ↔ ∀ p, ¬TransGen refers p p

/-- The first file of a chain leads to the last. -/
theorem reflTransGen_of_isChain {l : List Path} (h : l.IsChain refers) (ha : l.head? = some a)
    (hb : l.getLast? = some b) : ReflTransGen refers a b := by
  refine h.induction (ReflTransGen refers a) l (fun _ _ hxy hax => hax.tail hxy) (fun hne => ?_) b
    (List.mem_of_getLast? hb)
  rw [List.head?_eq_some_head hne] at ha
  rw [Option.some.inj ha]

/-- The first file of a cycle leads back to itself. -/
theorem IsCycle.exists_transGen {cycle : List Path} (h : IsCycle refers cycle) :
    ∃ p, TransGen refers p p := by
  obtain ⟨first, last, hfirst, hlast, hcloses⟩ := h.closes
  exact ⟨first, TransGen.tail' (reflTransGen_of_isChain h.chain hfirst hlast) hcloses⟩

theorem FindsCycles.of_complete (hsound : ∀ cycle ∈ cycles, IsCycle refers cycle)
    (hapart : cycles.Pairwise fun c d => ¬(c.head? = d.head? ∧ c.getLast? = d.getLast?))
    (hcomplete : ∀ p, ¬TransGen (Remains refers cycles) p p) : FindsCycles refers cycles where
  sound := hsound
  apart := hapart
  complete := hcomplete
  eq_nil_iff := by
    constructor
    · rintro rfl p hback
      exact hcomplete p
        (TransGen.mono (fun _ _ hab => ⟨hab, fun ⟨_, hc, _⟩ => by cases hc⟩) p p hback)
    · intro hnone
      refine List.eq_nil_iff_forall_not_mem.2 fun cycle hcycle => ?_
      obtain ⟨p, hback⟩ := (hsound cycle hcycle).exists_transGen
      exact hnone p hback

theorem Closes.append_left (h : Closes cycles a b) : Closes (cycles ++ more) a b := by
  obtain ⟨cycle, hcycle, hends⟩ := h
  exact ⟨cycle, List.mem_append_left more hcycle, hends⟩

/-- The more cycles are found, the less remains. -/
theorem Remains.of_append (h : Remains refers (cycles ++ more) a b) : Remains refers cycles a b :=
  ⟨h.1, fun hcloses => h.2 hcloses.append_left⟩

/-- What is left by no step is left by no number of steps. -/
theorem of_transGen {good : Path → Prop} (hgood : ∀ a b, good a → refers a b → good b)
    (h : TransGen refers a b) (ha : good a) : good b := by
  induction h with
  | single hab => exact hgood _ _ ha hab
  | tail _ hbc ih => exact hgood _ _ ih hbc

end Cycles

namespace Snapshot

variable {s : Snapshot} {way above done : List Path} {u next a b : Path}
  {old search search' : CycleSearch} {n : Nat}

/-! ### The way back -/

/-- The way back to a file on a way is the part of the way from that file on. -/
theorem exists_wayFrom_eq (hway : way ⊆ s.files.toList) (hnext : next ∈ way) :
    ∃ after before, way = after ++ next :: before ∧ wayFrom next way = next :: after.reverse := by
  obtain ⟨after, before, rfl, hafter⟩ := List.eq_append_cons_of_mem hnext
  have hne : ∀ p ∈ after, (p == next) = false := fun p hp => Bool.eq_false_iff.2 fun heq =>
    hafter (eq_of_beq (hway (by simp [hp])) (hway (by simp)) heq ▸ hp)
  have htake : (after ++ next :: before).takeWhile (· != next) = after := by
    rw [List.takeWhile_append_of_pos (fun p hp => by simp [bne, hne p hp]),
      List.takeWhile_cons_of_neg (by rw [bne, BEq.rfl]; decide), List.append_nil]
  have hfind : (after ++ next :: before).find? (· == next) = some next := by
    rw [List.find?_append, List.find?_eq_none.2 fun p hp => by simp [hne p hp], Option.none_or,
      List.find?_cons, BEq.rfl]
  refine ⟨after, before, rfl, ?_⟩
  rw [wayFrom, htake, hfind, Option.toList_some, List.reverse_append, List.reverse_singleton,
    List.singleton_append]

/-- The way back from the last file to a file on the way to which it refers is a cycle that this
reference closes. -/
theorem isCycle_wayFrom (hfiles : u :: above ⊆ s.files.toList) (hdistinct : (u :: above).Nodup)
    (hchain : (u :: above).IsChain fun b a => s.Refers a b) (hnext : next ∈ u :: above)
    (hrefers : s.Refers u next) :
    IsCycle s.Refers (wayFrom next (u :: above)) ∧ (wayFrom next (u :: above)).head? = some next ∧
      (wayFrom next (u :: above)).getLast? = some u := by
  obtain ⟨after, before, hway, hback⟩ := exists_wayFrom_eq hfiles hnext
  have hreverse : wayFrom next (u :: above) = (after ++ [next]).reverse := by
    rw [hback, List.reverse_append, List.reverse_singleton, List.singleton_append]
  have hfront : after ++ [next] <+: u :: above :=
    ⟨before, by rw [hway, List.append_assoc, List.singleton_append]⟩
  have hhead : (wayFrom next (u :: above)).head? = some next := by rw [hback, List.head?_cons]
  have hlast : (wayFrom next (u :: above)).getLast? = some u := by
    rw [hreverse, List.getLast?_reverse, ← List.head?_cons (a := u) (l := above), hway]
    cases after <;> rfl
  refine ⟨⟨⟨next, u, hhead, hlast, hrefers⟩, ?_, ?_⟩, hhead, hlast⟩
  · rw [hreverse, List.isChain_reverse]
    exact hchain.prefix hfront
  · rw [hreverse]
    exact pairwise_beq_of_nodup (fun p hp => hfiles (hfront.subset (List.mem_reverse.1 hp)))
      (List.nodup_reverse.2 (hdistinct.sublist hfront.sublist))

/-! ### The state of a search -/

/-- Has the search come to the file and left it? -/
def Finished (way : List Path) (search : CycleSearch) (p : Path) : Prop :=
  p ∈ search.visited ∧ p ∉ way

/-- What holds of a search at the end of a way, given with its last file first. -/
structure Searched (s : Snapshot) (way : List Path) (search : CycleSearch) : Prop where
  /-- The search has come to files. -/
  files : search.visited ⊆ s.files.toList
  /-- The search has come to the files on the way. -/
  visited : way ⊆ search.visited
  /-- The files on the way are different. -/
  nodup : way.Nodup
  /-- Each file on the way refers to the next. -/
  chain : way.IsChain fun b a => s.Refers a b
  /-- What remains of the references of finished files leads to finished files. -/
  closed : ∀ a b, Finished way search a → Remains s.Refers search.found a b → Finished way search b
  /-- By what remains, no finished file leads back to itself. -/
  acyclic : ∀ a, Finished way search a → ¬TransGen (Remains s.Refers search.found) a a
  /-- The lists that are found are cycles. -/
  sound : ∀ cycle ∈ search.found, IsCycle s.Refers cycle
  /-- The search has come to the files that close them. -/
  last : ∀ cycle ∈ search.found, ∀ a, cycle.getLast? = some a → a ∈ search.visited
  /-- No two of them are closed by the same reference. -/
  apart : search.found.Pairwise fun c d => ¬(c.head? = d.head? ∧ c.getLast? = d.getLast?)

/-- Has the search gone on, and found only cycles that are closed by files to which it had not
come? -/
structure Continues (old search : CycleSearch) : Prop where
  /-- What was seen remains seen. -/
  visited : old.visited ⊆ search.visited
  /-- What was found remains found. -/
  found : ∃ more, search.found = old.found ++ more ∧
    ∀ cycle ∈ more, ∀ a, cycle.getLast? = some a → a ∉ old.visited

theorem Continues.refl (search : CycleSearch) : Continues search search :=
  ⟨fun _ h => h, [], (List.append_nil _).symm, fun _ h => by cases h⟩

theorem Continues.trans (h : Continues old search) (h' : Continues search search') :
    Continues old search' := by
  obtain ⟨more, hfound, hmore⟩ := h.found
  obtain ⟨more', hfound', hmore'⟩ := h'.found
  refine ⟨fun p hp => h'.visited (h.visited hp),
    more ++ more', by rw [hfound', hfound, List.append_assoc], ?_⟩
  intro cycle hcycle a ha
  rcases List.mem_append.1 hcycle with hmem | hmem
  · exact hmore cycle hmem a ha
  · exact fun hold => hmore' cycle hmem a ha (h.visited hold)

/-- The search has come to a file at the end of a way, and has followed some references of that file
since. -/
structure Follows (s : Snapshot) (above : List Path) (u : Path) (old : CycleSearch)
    (done : List Path) (search : CycleSearch) : Prop where
  /-- The state at the end of the way with the file. -/
  searched : Searched s (u :: above) search
  /-- The file was new. -/
  entered : u ∉ old.visited
  /-- The search has gone on since. -/
  continues : Continues old search
  /-- Each reference that was followed closes a cycle or leads to a finished file. -/
  followed : ∀ b ∈ done, Closes search.found u b ∨ Finished (u :: above) search b
  /-- The cycles that the file closes are those of the references that were followed. -/
  closing : ∀ cycle ∈ search.found, cycle.getLast? = some u → ∃ b ∈ done, cycle.head? = some b

/-- The search comes to a new file. -/
theorem Searched.enter (h : Searched s above search) (hu : u ∈ s.files.toList)
    (hnew : u ∉ search.visited) (hlink : ∀ p ∈ above.head?, s.Refers p u) :
    Follows s above u search [] { search with visited := u :: search.visited } := by
  have hfinished : ∀ p, Finished (u :: above) { search with visited := u :: search.visited } p ↔
      Finished above search p := by
    intro p
    simp only [Finished, List.mem_cons, not_or]
    constructor
    · rintro ⟨rfl | hp, hne, habove⟩
      · exact absurd rfl hne
      · exact ⟨hp, habove⟩
    · rintro ⟨hp, habove⟩
      exact ⟨.inr hp, fun heq => hnew (heq ▸ hp), habove⟩
  refine ⟨?_, hnew, ⟨fun p hp => List.mem_cons_of_mem u hp, [], (List.append_nil _).symm,
    fun _ hc => by cases hc⟩,
    fun _ hb => (by cases hb), fun cycle hcycle hlast => absurd (h.last cycle hcycle u hlast) hnew⟩
  exact {
    files := List.cons_subset.2 ⟨hu, h.files⟩
    visited := List.cons_subset_cons u h.visited
    nodup := List.nodup_cons.2 ⟨fun hmem => hnew (h.visited hmem), h.nodup⟩
    chain := List.isChain_cons.2 ⟨hlink, h.chain⟩
    closed := fun a b ha hab => (hfinished b).2 (h.closed a b ((hfinished a).1 ha) hab)
    acyclic := fun a ha => h.acyclic a ((hfinished a).1 ha)
    sound := h.sound
    last := fun cycle hcycle a ha => List.mem_cons_of_mem u (h.last cycle hcycle a ha)
    apart := h.apart }

/-- A reference leads to a finished file. -/
theorem Follows.skip (h : Follows s above u old done search)
    (hnext : Finished (u :: above) search next) :
    Follows s above u old (done ++ [next]) search where
  searched := h.searched
  entered := h.entered
  continues := h.continues
  followed := List.forall_mem_append.2 ⟨h.followed, List.forall_mem_singleton.2 (.inr hnext)⟩
  closing cycle hcycle hlast := by
    obtain ⟨b, hb, hhead⟩ := h.closing cycle hcycle hlast
    exact ⟨b, List.mem_append_left _ hb, hhead⟩

/-- A reference closes a cycle. -/
theorem Follows.close (h : Follows s above u old done search) (hrefers : s.Refers u next)
    (hnext : next ∈ u :: above) (hnew : next ∉ done) :
    Follows s above u old (done ++ [next])
      { search with found := search.found ++ [wayFrom next (u :: above)] } := by
  have hs := h.searched
  obtain ⟨hcycle, hhead, hlast⟩ :=
    isCycle_wayFrom (fun p hp => hs.files (hs.visited hp)) hs.nodup hs.chain hnext hrefers
  refine ⟨?_, h.entered, ?_, ?_, ?_⟩
  · exact {
      files := hs.files
      visited := hs.visited
      nodup := hs.nodup
      chain := hs.chain
      closed := fun a b ha hab => hs.closed a b ha hab.of_append
      acyclic := fun a ha hback =>
        hs.acyclic a ha (TransGen.mono (fun _ _ => Remains.of_append) a a hback)
      sound := List.forall_mem_append.2 ⟨hs.sound, List.forall_mem_singleton.2 hcycle⟩
      last := List.forall_mem_append.2 ⟨hs.last, List.forall_mem_singleton.2 fun a ha => by
        cases hlast.symm.trans ha
        exact hs.visited List.mem_cons_self⟩
      apart := List.pairwise_append.2 ⟨hs.apart, List.pairwise_singleton _ _,
        fun c hc d hd ⟨hfirst, hend⟩ => by
        cases List.mem_singleton.1 hd
        obtain ⟨b, hb, hbhead⟩ := h.closing c hc (hend.trans hlast)
        cases (hbhead.symm.trans hfirst).trans hhead
        exact hnew hb⟩ }
  · refine ⟨h.continues.visited, ?_⟩
    obtain ⟨more, hfound, hmore⟩ := h.continues.found
    refine ⟨more ++ [wayFrom next (u :: above)], by rw [hfound, List.append_assoc], ?_⟩
    refine List.forall_mem_append.2 ⟨hmore, List.forall_mem_singleton.2 fun a ha => ?_⟩
    cases hlast.symm.trans ha
    exact h.entered
  · refine List.forall_mem_append.2
      ⟨fun b hb => (h.followed b hb).imp Closes.append_left fun hf => hf,
      List.forall_mem_singleton.2 (.inl ⟨_, by simp, hhead, hlast⟩)⟩
  · refine List.forall_mem_append.2 ⟨fun c hc hend => ?_, List.forall_mem_singleton.2 fun _ =>
      ⟨next, by simp, hhead⟩⟩
    obtain ⟨b, hb, hbhead⟩ := h.closing c hc hend
    exact ⟨b, List.mem_append_left _ hb, hbhead⟩

/-- A reference leads to a new file, and the search has gone on from there and come back. -/
theorem Follows.descend (h : Follows s above u old done search) (hnew : next ∉ search.visited)
    (hsearched : Searched s (u :: above) search') (hcontinues : Continues search search')
    (hnext : next ∈ search'.visited) : Follows s above u old (done ++ [next]) search' := by
  obtain ⟨more, hfound, hmore⟩ := hcontinues.found
  refine ⟨hsearched, h.entered, h.continues.trans hcontinues, ?_, fun cycle hcycle hlast => ?_⟩
  · refine List.forall_mem_append.2
      ⟨fun b hb => (h.followed b hb).imp (fun hclose => ?_) fun hfinished => ?_,
      List.forall_mem_singleton.2 (.inr ⟨hnext, fun hway => hnew (h.searched.visited hway)⟩)⟩
    · rw [hfound]
      exact hclose.append_left
    · exact ⟨hcontinues.visited hfinished.1, hfinished.2⟩
  · rw [hfound] at hcycle
    rcases List.mem_append.1 hcycle with hmem | hmem
    · obtain ⟨b, hb, hhead⟩ := h.closing cycle hmem hlast
      exact ⟨b, List.mem_append_left _ hb, hhead⟩
    · exact absurd (h.searched.visited List.mem_cons_self) (hmore cycle hmem u hlast)

/-- All references of the last file on the way have been followed, and the search goes back. -/
theorem Follows.leave (h : Follows s above u old (s.successors u) search) :
    Searched s above search := by
  have hs := h.searched
  have hfinished : ∀ p, Finished above search p → p = u ∨ Finished (u :: above) search p := by
    rintro p ⟨hp, habove⟩
    by_cases heq : p = u
    · exact .inl heq
    · exact .inr ⟨hp, by simp [heq, habove]⟩
  have hkept : ∀ p, Finished (u :: above) search p → Finished above search p := fun p hp =>
    ⟨hp.1, fun hmem => hp.2 (List.mem_cons_of_mem u hmem)⟩
  have hown : ∀ b, Remains s.Refers search.found u b → Finished (u :: above) search b := fun b hb =>
    (h.followed b hb.1.2).resolve_left hb.2
  exact {
    files := hs.files
    visited := fun p hp => hs.visited (List.mem_cons_of_mem u hp)
    nodup := (List.nodup_cons.1 hs.nodup).2
    chain := hs.chain.tail
    closed := fun a b ha hab => by
      rcases hfinished a ha with rfl | ha
      · exact hkept b (hown b hab)
      · exact hkept b (hs.closed a b ha hab)
    acyclic := fun a ha hback => by
      rcases hfinished a ha with rfl | ha
      · -- the first step leads to a finished file, and from there no step leads back to the way
        obtain ⟨b, hab, hba⟩ := TransGen.head'_iff.1 hback
        rcases ReflTransGen.cases_head hba with rfl | ⟨c, hbc, hca⟩
        · exact (hown _ hab).2 List.mem_cons_self
        · exact (of_transGen hs.closed (TransGen.head' hbc hca) (hown b hab)).2 List.mem_cons_self
      · exact hs.acyclic a ha hback
    sound := hs.sound
    last := hs.last
    apart := hs.apart }

/-! ### The search -/

/-- What a search makes of a reference of the last file on the way. -/
def follow (s : Snapshot) (n : Nat) (way : List Path) (search : CycleSearch) (next : Path) :
    CycleSearch :=
  if !search.visited.contains next then searchFrom s n way next search
  else if way.contains next then { search with found := search.found ++ [wayFrom next way] }
  else search

theorem searchFrom_succ (s : Snapshot) (n : Nat) (above : List Path) (u : Path)
    (search : CycleSearch) :
    searchFrom s (n + 1) above u search =
      (s.successors u).foldl (follow s n (u :: above))
        { search with visited := u :: search.visited } :=
  rfl

/-- There is fuel for a search from a new file as long as it can go on. -/
theorem length_lt_of_new (h : Searched s above search) (hu : u ∈ s.files.toList)
    (hnew : u ∉ search.visited) : above.length < s.files.toList.length := by
  have hnodup : (u :: above).Nodup := List.nodup_cons.2 ⟨fun hmem => hnew (h.visited hmem), h.nodup⟩
  exact (List.subperm_of_subset hnodup
    (List.cons_subset.2 ⟨hu, fun p hp => h.files (h.visited hp)⟩)).length_le

/-- What a search from a new file gives. -/
def Returns (s : Snapshot) (above : List Path) (u : Path) (search after : CycleSearch) : Prop :=
  Searched s above after ∧ Continues search after ∧ u ∈ after.visited

/-- One more reference is followed. -/
theorem Follows.step (h : Follows s above u old done search) (hnext : s.Refers u next)
    (hfresh : next ∉ done)
    (hdeeper : next ∉ search.visited →
      Returns s (u :: above) next search (searchFrom s n (u :: above) next search)) :
    Follows s above u old (done ++ [next]) (follow s n (u :: above) search next) := by
  have hs := h.searched
  have hseen := contains_iff_mem hs.files hnext.right_mem
  have hway := contains_iff_mem (fun p hp => hs.files (hs.visited hp)) hnext.right_mem
  unfold follow
  by_cases hmem : next ∈ search.visited
  · rw [hseen.2 hmem, if_neg (by decide)]
    split
    next hback => exact h.close hnext (hway.1 hback) hfresh
    next hback => exact h.skip ⟨hmem, fun hon => hback (hway.2 hon)⟩
  · obtain ⟨hsearched, hcontinues, hafter⟩ := hdeeper hmem
    rw [Bool.eq_false_iff.2 fun hcontains => hmem (hseen.1 hcontains), if_pos (by decide)]
    exact h.descend hmem hsearched hcontinues hafter

/-- The rest of the references is followed. -/
theorem Follows.foldl {rest : List Path} (hall : done ++ rest = s.successors u)
    (hu : u ∈ s.files.toList) (h : Follows s above u old done search)
    (hdeeper : ∀ next search, s.Refers u next → Searched s (u :: above) search →
      next ∉ search.visited →
      Returns s (u :: above) next search (searchFrom s n (u :: above) next search)) :
    Follows s above u old (s.successors u) (rest.foldl (follow s n (u :: above)) search) := by
  induction rest generalizing done search with
  | nil =>
    rw [List.append_nil] at hall
    exact hall ▸ h
  | cons next rest ih =>
    have hnext : s.Refers u next := ⟨hu, hall ▸ by simp⟩
    have hnodup := s.nodup_successors u
    rw [← hall] at hnodup
    have hfresh : next ∉ done := fun hmem =>
      (List.nodup_append.1 hnodup).2.2 next hmem next (by simp) rfl
    have hall' : (done ++ [next]) ++ rest = s.successors u := by
      rw [← hall, List.append_assoc, List.singleton_append]
    exact ih hall' (h.step hnext hfresh (hdeeper next search hnext h.searched))

/-- A search from a new file comes back in the same state, and has seen the file. -/
theorem returns_searchFrom (h : Searched s above search) (hu : u ∈ s.files.toList)
    (hnew : u ∉ search.visited) (hlink : ∀ p ∈ above.head?, s.Refers p u)
    (hfuel : s.files.toList.length ≤ n + above.length) :
    Returns s above u search (searchFrom s n above u search) := by
  induction n generalizing above u search with
  | zero =>
    have hlength := length_lt_of_new h hu hnew
    omega
  | succ n ih =>
    have hdeeper : ∀ next search, s.Refers u next → Searched s (u :: above) search →
        next ∉ search.visited →
        Returns s (u :: above) next search (searchFrom s n (u :: above) next search) :=
          fun next search hnext hs hunseen =>
      ih hs hnext.right_mem hunseen (fun p hp => by cases hp; exact hnext)
        (by rw [List.length_cons]; omega)
    have hdone := (h.enter hu hnew hlink).foldl (List.nil_append _) hu hdeeper
    rw [← searchFrom_succ] at hdone
    exact ⟨hdone.leave, hdone.continues, hdone.searched.visited List.mem_cons_self⟩

/-- What the search through all files makes of a file: it starts there, unless it has come to the
file already. -/
def restart (s : Snapshot) (search : CycleSearch) (file : Path) : CycleSearch :=
  if search.visited.contains file then search else searchFrom s s.files.toList.length [] file search

theorem cycles_eq (s : Snapshot) : s.cycles = (s.files.toList.foldl (restart s) {}).found :=
  rfl

/-- A search that starts at several files comes to all of them. -/
theorem searched_foldl_restart {l : List Path} (hl : l ⊆ s.files.toList)
    (h : Searched s [] search) : let after := l.foldl (restart s) search
    Searched s [] after ∧ search.visited ⊆ after.visited ∧ l ⊆ after.visited := by
  induction l generalizing search with
  | nil => exact ⟨h, fun _ hp => hp, List.nil_subset _⟩
  | cons file l ih =>
    obtain ⟨hfile, hl⟩ := List.cons_subset.1 hl
    have hone : Returns s [] file search (restart s search file) := by
      unfold restart
      have hseen := contains_iff_mem h.files hfile
      split
      next hcontains => exact ⟨h, .refl search, hseen.1 hcontains⟩
      next hcontains =>
        exact returns_searchFrom h hfile (fun hmem => hcontains (hseen.2 hmem))
          (fun p hp => by cases hp) (Nat.le_add_right _ _)
    obtain ⟨hsearched, hcontinues, hmem⟩ := hone
    obtain ⟨hafter, hvisited, hrest⟩ := ih hl hsearched
    exact ⟨hafter, fun p hp => hvisited (hcontinues.visited hp),
      List.cons_subset.2 ⟨hvisited hmem, hrest⟩⟩

theorem searched_start (s : Snapshot) : Searched s [] {} where
  files := List.nil_subset _
  visited := List.nil_subset _
  nodup := .nil
  chain := .nil
  closed _ _ ha := by cases ha.1
  acyclic _ ha := by cases ha.1
  sound _ hcycle := by cases hcycle
  last _ hcycle := by cases hcycle
  apart := .nil

/-- The search finds the cycles among the files of a snapshot. -/
theorem findsCycles_cycles (s : Snapshot) : FindsCycles s.Refers s.cycles := by
  obtain ⟨hsearched, -, hall⟩ := searched_foldl_restart (List.Subset.refl _) (searched_start s)
  rw [cycles_eq]
  refine .of_complete hsearched.sound hsearched.apart fun p hback => ?_
  obtain ⟨b, hpb, -⟩ := TransGen.head'_iff.1 hback
  exact hsearched.acyclic p ⟨hall hpb.1.left_mem, by simp⟩ hback

end Snapshot

namespace Workspace

variable {tree : FileTree}

/-- For all files, roots and options, the lists that a fresh workspace finds are cycles of
references among the files of the corpus, and no cycle is left without the references that close
them. Whatever the index of a workspace holds, it gives the cycles of what it holds. -/
theorem cycles_of_corpus (h : tree.WellFormed) (reader : IgnoreReader) (root : Path)
    (options : CorpusOptions) : let ws := new reader tree root options
    FindsCycles (ws.CorpusRefers tree) (ws.ensureIndex tree).index.snapshot.cycles ∧
      ∀ s : Snapshot, FindsCycles s.Refers s.cycles := by
  intro ws
  obtain ⟨-, hrefers⟩ := snapshot_ensureIndex h (show ws = new reader tree root options from rfl)
  rw [← hrefers]
  exact ⟨Snapshot.findsCycles_cycles _, Snapshot.findsCycles_cycles⟩

/-- Two files that refer to each other make a cycle. -/
theorem cycles_of_two_files :
    let tree : FileTree := .put (.put {} ["a.yml"] "- template: b.yml".toUTF8 none)
      ["b.yml"] "- template: a.yml".toUTF8 none
    let ws := new .ofRules tree ⟨"/"⟩ { respectIgnore := false }
    tree.WellFormed ∧ (ws.ensureIndex tree).index.snapshot.cycles ≠ [] := by
  intro tree ws
  have h : tree.WellFormed := by decide +kernel
  have htop : IsPlace [] := by decide
  have ha : Path.address ["a.yml"] ∈ ws.corpus tree :=
    (CorpusOptions.mem_files_iff h htop rfl).2 ⟨by decide, ["a.yml"], _, rfl,
      rfl, by decide +kernel⟩
  have hb : Path.address ["b.yml"] ∈ ws.corpus tree :=
    (CorpusOptions.mem_files_iff h htop rfl).2 ⟨by decide, ["b.yml"], _, rfl,
      rfl, by decide +kernel⟩
  have hab : ((outgoing (.address ["a.yml"])).answer tree.view).map (·.target.path?) =
      [some (.address ["b.yml"])] := by
    rfl
  have hba : ((outgoing (.address ["b.yml"])).answer tree.view).map (·.target.path?) =
      [some (.address ["a.yml"])] := by
    rfl
  have hback : TransGen (ws.CorpusRefers tree) (.address ["a.yml"]) (.address ["a.yml"]) :=
    .tail (.single ⟨ha, hb, List.mem_map.1 (by rw [hab]; exact List.mem_singleton_self _)⟩)
      ⟨hb, ha, List.mem_map.1 (by rw [hba]; exact List.mem_singleton_self _)⟩
  refine ⟨h, fun hnil => ?_⟩
  exact (cycles_of_corpus h .ofRules ⟨"/"⟩ { respectIgnore := false }).1.eq_nil_iff.1 hnil _ hback

end Workspace

end TemplateAtlas
