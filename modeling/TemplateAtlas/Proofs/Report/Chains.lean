import Mathlib.Data.List.Chain
import TemplateAtlas.Proofs.Report.Digraph

/-!
# Shortest chains of references

From each file that a search in breadth has seen, the files from which it saw them lead back to the
source (`Retraces`), so a way belongs to each file in the queue (`ChainSearch.Keeps`). The files at
which these ways end are new to each other and to the files that the search is done with, whose
references all lead to files that it has seen (`Waits`). So a chain to the goal leaves the files
that are done at a file where some way ends, and that way is no longer than the chain up to there
(`Waits.exists_way`). Since the ways wait in the order of their lengths, the first that ends at the
goal is a shortest chain, and when none waits there is no chain
(`Snapshot.findsChain_shortestChain`).
-/

namespace TemplateAtlas

open Std

/-! ### Chains of a relation -/

/-- Does the chain lead from the first file to the second, each file on it referring to the next? -/
structure Leads (refers : Path → Path → Prop) (a b : Path) (chain : List Path) : Prop where
  /-- The chain begins at the first file. -/
  head : chain.head? = some a
  /-- It ends at the second. -/
  last : chain.getLast? = some b
  /-- Each file on it refers to the next. -/
  isChain : chain.IsChain refers

/-- Does the chain lead through the corpus from the first path to the second, however these are
spelled? -/
def LeadsThrough (corpus : List Path) (refers : Path → Path → Prop) (a b : Path)
    (chain : List Path) : Prop :=
  chain ⊆ corpus ∧ ∃ first last, (first == a) = true ∧ (last == b) = true ∧
    Leads refers first last chain

/-- Is the chain a shortest one through the corpus from the first path to the second, and empty if
there is none? -/
structure FindsChain (corpus : List Path) (refers : Path → Path → Prop) (a b : Path)
    (chain : List Path) : Prop where
  /-- It is empty if and only if one of the paths is no file of the corpus or no chain leads from
  one to the other. -/
  eq_nil_iff : chain = [] ↔ corpus.contains a = false ∨ corpus.contains b = false ∨
    ∀ other, ¬LeadsThrough corpus refers a b other
  /-- Otherwise it leads from one to the other. -/
  leads : chain ≠ [] → LeadsThrough corpus refers a b chain
  /-- No chain that does has fewer files. -/
  shortest : ∀ other, LeadsThrough corpus refers a b other → chain.length ≤ other.length
  /-- From a file of the corpus to itself it is the file alone. -/
  self : ∀ p ∈ corpus, (p == a) = true → (p == b) = true → chain = [p]

section Leads

variable {corpus : List Path} {refers : Path → Path → Prop} {a b c : Path}
  {chain front rest : List Path}

theorem leads_singleton (refers : Path → Path → Prop) (a : Path) : Leads refers a a [a] :=
  ⟨rfl, rfl, .singleton a⟩

theorem Leads.ne_nil (h : Leads refers a b chain) : chain ≠ [] := by
  rintro rfl
  cases h.head

/-- A chain with one more file at its end. -/
theorem Leads.concat (h : Leads refers a b chain) (hbc : refers b c) :
    Leads refers a c (chain ++ [c]) where
  head := by rw [List.head?_append, h.head, Option.some_or]
  last := List.getLast?_concat
  isChain := h.isChain.append (.singleton c) fun x hx y hy => by
    cases hx.symm.trans h.last
    cases hy
    exact hbc

/-- A chain up to any file on it. -/
theorem Leads.left_of_append (h : Leads refers a b (front ++ c :: rest)) :
    Leads refers a c (front ++ [c]) where
  head := by
    have hhead := h.head
    cases front <;> simpa using hhead
  last := List.getLast?_concat
  isChain := by
    have hchain := h.isChain
    rw [← List.singleton_append, ← List.append_assoc] at hchain
    exact hchain.left_of_append

/-- The last file of a chain is its first, or the one before refers to it. -/
theorem Leads.eq_or_refers (h : Leads refers a b (front ++ [b])) :
    b = a ∨ ∃ c ∈ front, refers c b := by
  rcases List.eq_nil_or_concat' front with rfl | ⟨before, c, rfl⟩
  · exact .inl (Option.some.inj h.head)
  · have hchain := h.isChain
    rw [List.append_assoc, List.singleton_append, List.isChain_append_cons_cons] at hchain
    exact .inr ⟨c, by simp, hchain.2.1⟩

theorem leadsThrough_singleton {p : Path} (hp : p ∈ corpus) (ha : (p == a) = true)
    (hb : (p == b) = true) : LeadsThrough corpus refers a b [p] :=
  ⟨fun _ hq => List.mem_singleton.1 hq ▸ hp, p, p, ha, hb, leads_singleton refers p⟩

theorem FindsChain.of_not_leads (h : ∀ chain, ¬LeadsThrough corpus refers a b chain) :
    FindsChain corpus refers a b [] where
  eq_nil_iff := iff_of_true rfl (.inr (.inr h))
  leads hne := absurd rfl hne
  shortest _ _ := Nat.zero_le _
  self p hp ha hb := absurd (leadsThrough_singleton hp ha hb) (h [p])

theorem FindsChain.of_leads (hcorpus : corpus.Pairwise fun p q => (p == q) = false)
    (hchain : LeadsThrough corpus refers a b chain)
    (hshortest : ∀ other, LeadsThrough corpus refers a b other → chain.length ≤ other.length) :
    FindsChain corpus refers a b chain := by
  have ⟨hfiles, first, last, hfirst, hlast, hleads⟩ := hchain
  have ha : corpus.contains a = true :=
    List.contains_iff_exists_mem_beq.2 ⟨first, hfiles (List.mem_of_head? hleads.head),
      BEq.symm hfirst⟩
  have hb : corpus.contains b = true :=
    List.contains_iff_exists_mem_beq.2 ⟨last, hfiles (List.mem_of_getLast? hleads.last),
      BEq.symm hlast⟩
  refine ⟨iff_of_false hleads.ne_nil ?_, fun _ => hchain, hshortest, fun p hp hpa hpb => ?_⟩
  · simp only [ha, hb, Bool.true_eq_false, false_or]
    exact fun hnone => hnone chain hchain
  · obtain ⟨q, hq⟩ :=
      List.length_eq_one_iff.1 (Nat.le_antisymm (hshortest [p] (leadsThrough_singleton hp hpa hpb))
      (List.length_pos_iff.2 hleads.ne_nil))
    have hhead := hleads.head
    rw [hq, List.head?_cons] at hhead
    rw [hq, Option.some.inj hhead,
      eq_of_beq_of_mem hcorpus (hfiles (List.mem_of_head? hleads.head)) hp
      (BEq.trans hfirst (BEq.symm hpa))]

/-- A list with a member outside has a first one. -/
theorem exists_first_not {good : Path → Prop} {l : List Path} (hb : b ∈ l) (hgood : ¬good b) :
    ∃ front c rest, l = front ++ c :: rest ∧ (∀ p ∈ front, good p) ∧ ¬good c := by
  induction l with
  | nil => cases hb
  | cons p l ih =>
    by_cases hp : good p
    · obtain ⟨front, c, rest, rfl, hfront, hc⟩ :=
        ih ((List.mem_cons.1 hb).resolve_left fun heq => hgood (heq ▸ hp))
      exact ⟨p :: front, c, rest, rfl, List.forall_mem_cons.2 ⟨hp, hfront⟩, hc⟩
    · exact ⟨[], p, l, rfl, by simp, hp⟩

end Leads

namespace Snapshot

variable {s : Snapshot} {source goal last : Path} {done seen above chain : List Path}
  {waiting : List (List Path)} {n : Nat}

/-! ### The state of a search -/

/-- The files at which ways end, each given with its last file first. -/
def endsOf (ways : List (List Path)) : List Path :=
  ways.filterMap List.head?

/-- What holds of a search for a goal that is done with some files and has seen some, while ways
wait. -/
structure Waits (s : Snapshot) (source goal : Path) (done seen : List Path)
    (waiting : List (List Path)) : Prop where
  /-- Each way leads from the source to its end. -/
  leads : ∀ way ∈ waiting, ∃ last, way.head? = some last ∧ Leads s.Refers source last way.reverse
  /-- What it has seen is what it is done with and the ends of the ways. -/
  perm : seen.Perm (done ++ endsOf waiting)
  /-- It sees no file twice. -/
  nodup : seen.Nodup
  /-- It has seen files. -/
  files : seen ⊆ s.files.toList
  /-- It has seen the source. -/
  start : source ∈ seen
  /-- It has seen what the files refer to that it is done with. -/
  closed : ∀ a ∈ done, ∀ b, s.Refers a b → b ∈ seen
  /-- It is not done with the goal. -/
  ahead : goal ∉ done
  /-- A way passes files that it is done with before it ends. -/
  short : ∀ way ∈ waiting, way.length ≤ done.length + 1
  /-- The ways wait in the order of their lengths, and these differ by one at most. -/
  sorted : waiting.Pairwise fun v w => v.length ≤ w.length ∧ w.length ≤ v.length + 1
  /-- No chain through files that it is done with is shorter than a way to the same end. -/
  shortest : ∀ front last, Leads s.Refers source last (front ++ [last]) → front ⊆ done →
    ∀ way ∈ waiting, way.head? = some last → way.length ≤ front.length + 1

/-- A chain to the goal passes the end of a way that is no longer. -/
theorem Waits.exists_way (h : Waits s source goal done seen waiting)
    (hchain : Leads s.Refers source goal chain) : ∃ way ∈ waiting, way.length ≤ chain.length := by
  obtain ⟨front, c, rest, rfl, hfront, hc⟩ :=
    exists_first_not (List.mem_of_getLast? hchain.last) h.ahead
  have hleads : Leads s.Refers source c (front ++ [c]) := hchain.left_of_append
  have hseen : c ∈ seen := by
    rcases hleads.eq_or_refers with rfl | ⟨b, hb, hbc⟩
    · exact h.start
    · exact h.closed b (hfront b hb) c hbc
  obtain ⟨way, hway, hend⟩ :=
    List.mem_filterMap.1 ((List.mem_append.1 (h.perm.mem_iff.1 hseen)).resolve_left hc)
  have hlength := h.shortest front c hleads hfront way hway hend
  refine ⟨way, hway, ?_⟩
  rw [List.length_append, List.length_cons]
  omega

/-- The files that a search sees from a file that it takes up. -/
def fresh (s : Snapshot) (seen : List Path) (last : Path) : List Path :=
  (s.successors last).filter (!seen.contains ·)

theorem mem_fresh_iff (hseen : seen ⊆ s.files.toList) {p : Path} :
    p ∈ s.fresh seen last ↔ p ∈ s.successors last ∧ p ∉ seen := by
  rw [fresh, List.mem_filter]
  refine and_congr_right fun hp => ?_
  rw [Bool.not_eq_true', ← contains_iff_mem hseen (s.successors_subset last hp), Bool.not_eq_true]

theorem endsOf_append (v w : List (List Path)) : endsOf (v ++ w) = endsOf v ++ endsOf w :=
  List.filterMap_append

theorem endsOf_map_cons (l way : List Path) : endsOf (l.map (· :: way)) = l := by
  rw [endsOf, List.filterMap_map]
  exact List.filterMap_some

/-- The search takes up the first way, which does not end at the goal. -/
theorem Waits.next (h : Waits s source goal done seen ((last :: above) :: waiting))
    (hlast : last ≠ goal) :
    Waits s source goal (done ++ [last]) (seen ++ s.fresh seen last)
      (waiting ++ (s.fresh seen last).map (· :: last :: above)) := by
  have hends : endsOf ((last :: above) :: waiting) = last :: endsOf waiting := rfl
  have hseen : last ∈ seen := h.perm.mem_iff.2 (by simp [hends])
  have hrefers : ∀ p ∈ s.fresh seen last, s.Refers last p := fun p hp =>
    ⟨h.files hseen, ((mem_fresh_iff h.files).1 hp).1⟩
  obtain ⟨hfirst, hsorted⟩ := List.pairwise_cons.1 h.sorted
  have hleads : Leads s.Refers source last (last :: above).reverse := by
    obtain ⟨last', hhead, hleads⟩ := h.leads _ List.mem_cons_self
    cases hhead
    exact hleads
  refine {
    leads := ?_
    perm := ?_
    nodup := ?_
    files := ?_
    start := List.mem_append_left _ h.start
    closed := ?_
    ahead := ?_
    short := ?_
    sorted := ?_
    shortest := ?_ }
  · refine List.forall_mem_append.2 ⟨fun way hway => h.leads way (List.mem_cons_of_mem _ hway),
      fun way hway => ?_⟩
    obtain ⟨p, hp, rfl⟩ := List.mem_map.1 hway
    refine ⟨p, rfl, ?_⟩
    rw [List.reverse_cons]
    exact hleads.concat (hrefers p hp)
  · have hperm := h.perm.append_right (s.fresh seen last)
    rw [endsOf_append, endsOf_map_cons]
    rw [hends] at hperm
    simpa using hperm
  · refine List.nodup_append.2 ⟨h.nodup, (s.nodup_successors last).filter _,
      fun p hp q hq heq => ?_⟩
    exact ((mem_fresh_iff h.files).1 hq).2 (heq ▸ hp)
  · exact List.append_subset.2 ⟨h.files, fun p hp => (hrefers p hp).right_mem⟩
  · refine List.forall_mem_append.2 ⟨fun a ha b hab => List.mem_append_left _ (h.closed a ha b hab),
      List.forall_mem_singleton.2 fun b hb => ?_⟩
    by_cases hmem : b ∈ seen
    · exact List.mem_append_left _ hmem
    · exact List.mem_append_right _ ((mem_fresh_iff h.files).2 ⟨hb.2, hmem⟩)
  · simp [h.ahead, Ne.symm hlast]
  · have hshort := List.forall_mem_cons.1 h.short
    rw [List.length_append, List.length_singleton]
    refine List.forall_mem_append.2 ⟨fun way hway => (hshort.2 way hway).trans (Nat.le_succ _),
      fun way hway => ?_⟩
    obtain ⟨p, -, rfl⟩ := List.mem_map.1 hway
    exact Nat.succ_le_succ hshort.1
  · refine List.pairwise_append.2 ⟨hsorted, ?_, fun v hv w hw => ?_⟩
    · exact List.pairwise_map.2 (List.pairwise_of_forall fun p q => ⟨le_rfl, Nat.le_succ _⟩)
    · obtain ⟨p, -, rfl⟩ := List.mem_map.1 hw
      have hlength := hfirst v hv
      simp only [List.length_cons] at hlength ⊢
      omega
  · intro front p hchain hfront way hway hend
    by_cases hmem : last ∈ front
    · -- the chain passes the file that is taken up, and no way is longer by more than one than the
      -- way to there
      obtain ⟨before, rest, rfl, hnot⟩ := List.eq_append_cons_of_mem hmem
      have hbefore : before ⊆ done := fun q hq =>
        (List.mem_append.1 (hfront (List.mem_append_left _ hq))).resolve_right fun heq =>
          hnot (List.mem_singleton.1 heq ▸ hq)
      rw [List.append_assoc, List.cons_append] at hchain
      have hlength := h.shortest before last hchain.left_of_append hbefore _ List.mem_cons_self rfl
      have hway : way.length ≤ (last :: above).length + 1 := by
        rcases List.mem_append.1 hway with hold | hnew
        · exact (hfirst way hold).2
        · obtain ⟨q, -, rfl⟩ := List.mem_map.1 hnew
          exact le_rfl
      simp only [List.length_append, List.length_cons] at hlength hway ⊢
      omega
    · have hdone : front ⊆ done := fun q hq =>
        (List.mem_append.1 (hfront hq)).resolve_right fun heq =>
          hmem (List.mem_singleton.1 heq ▸ hq)
      rcases List.mem_append.1 hway with hold | hnew
      · exact h.shortest front p hchain hdone way (List.mem_cons_of_mem _ hold) hend
      · -- a chain through files that were done before ends at a file that was seen before
        obtain ⟨q, hq, rfl⟩ := List.mem_map.1 hnew
        cases hend
        refine absurd ?_ ((mem_fresh_iff h.files).1 hq).2
        rcases hchain.eq_or_refers with rfl | ⟨b, hb, hbp⟩
        · exact h.start
        · exact h.closed b (hdone hb) _ hbp

/-! ### The way back -/

section Way

variable {previous previous' : SortedMap Path Path} {file : Path} {way : List Path}

/-- A way, given with its last file first, is the one that the files before lead back, and ends
where none is before. -/
def Retraces (previous : SortedMap Path Path) : List Path → Prop
  | [] => False
  | [file] => previous.find? file = none
  | file :: before :: way => previous.find? file = some before ∧ Retraces previous (before :: way)

theorem Retraces.wayBack_eq (h : Retraces previous (file :: way)) (hlength : way.length ≤ n) :
    wayBack previous n file = file :: way := by
  induction way generalizing file n with
  | nil =>
    have hnone : previous.find? file = none := h
    cases n with
    | zero => rfl
    | succ n => rw [wayBack, hnone]
  | cons before way ih =>
    obtain ⟨hfind, hrest⟩ := h
    cases n with
    | zero => cases hlength
    | succ n =>
      rw [wayBack, hfind]
      exact congrArg (file :: ·) (ih hrest (Nat.le_of_succ_le_succ hlength))

/-- What is before the files on a way says that it is one. -/
theorem Retraces.congr (h : Retraces previous way)
    (hsame : ∀ p ∈ way, previous'.find? p = previous.find? p) : Retraces previous' way := by
  induction way with
  | nil => exact h
  | cons file way ih =>
    have hfile := hsame file List.mem_cons_self
    cases way with
    | nil => exact hfile.trans h
    | cons before way =>
      exact ⟨hfile.trans h.1, ih h.2 fun p hp => hsame p (List.mem_cons_of_mem _ hp)⟩

end Way

/-! ### The search -/

/-- The files before, after some have been seen from one. -/
theorem find?_foldl_insert (file : Path) (l : List Path) (previous : SortedMap Path Path)
    (p : Path) :
    (l.foldl (fun previous next => previous.insert next file) previous).find? p =
      if l.contains p then some file else previous.find? p := by
  induction l generalizing previous with
  | nil => rfl
  | cons next l ih =>
    rw [List.foldl_cons, ih, SortedMap.find?_insert, List.contains_cons, ← Path.compare_beq_eq]
    by_cases hl : l.contains p = true
    · rw [if_pos hl, hl, Bool.or_true, if_pos rfl]
    · rw [if_neg hl, Bool.eq_false_iff.2 hl, Bool.or_false]
      simp only [beq_iff_eq]

namespace ChainSearch

variable {search : ChainSearch}

/-- Of the files that one refers to, the search sees those that it has not seen. -/
theorem foldl_see (file : Path) {l : List Path} (hapart : l.Pairwise fun p q => (p == q) = false)
    (search : ChainSearch) :
    l.foldl (see file) search =
      let unseen := l.filter (!search.seen.contains ·)
      { seen := search.seen ++ unseen
        previous := unseen.foldl (fun previous next => previous.insert next file) search.previous
        queue := search.queue ++ unseen } := by
  induction l generalizing search with
  | nil => simp
  | cons p l ih =>
    obtain ⟨hp, hl⟩ := List.pairwise_cons.1 hapart
    rw [List.foldl_cons, ih hl]
    by_cases hseen : search.seen.contains p = true
    · have hsee : search.see file p = search := if_pos hseen
      rw [hsee, List.filter_cons_of_neg
        (by simp only [hseen, Bool.not_true, Bool.false_eq_true, not_false_eq_true])]
    · have hsee : search.see file p =
          ⟨search.seen ++ [p], search.previous.insert p file, search.queue ++ [p]⟩ :=
        if_neg hseen
      have hrest : (l.filter fun q => !(search.seen ++ [p]).contains q) =
          l.filter (!search.seen.contains ·) := by
        refine List.filter_congr fun q hq => ?_
        rw [List.contains_append, List.contains_cons, BEq.comm, hp q hq, List.contains_nil,
          Bool.or_false, Bool.or_false]
      rw [hsee, hrest, List.filter_cons_of_pos (by simp only [hseen, Bool.not_false])]
      simp only [List.append_assoc, List.singleton_append, List.foldl_cons]

/-- Ways lead back from the files in the queue. -/
structure Keeps (search : ChainSearch) (waiting : List (List Path)) : Prop where
  /-- The ways end at the files in the queue. -/
  queue : search.queue = endsOf waiting
  /-- They are the ways back. -/
  retraced : ∀ way ∈ waiting, Retraces search.previous way
  /-- The search has seen the files on them. -/
  seen : ∀ way ∈ waiting, way ⊆ search.seen

/-- The search looks into the first file of its queue, and a way leads back from each file that it
sees. -/
theorem Keeps.next (hkeeps : search.Keeps ((last :: above) :: waiting))
    (hfiles : search.seen ⊆ s.files.toList) :
    let search' := (s.successors last).foldl (see last) { search with queue := endsOf waiting }
    search'.seen = search.seen ++ s.fresh search.seen last ∧
      search'.Keeps (waiting ++ (s.fresh search.seen last).map (· :: last :: above)) := by
  intro search'
  have hsearch : search' = ⟨search.seen ++ s.fresh search.seen last,
      (s.fresh search.seen last).foldl (fun previous next => previous.insert next last)
        search.previous,
      endsOf waiting ++ s.fresh search.seen last⟩ :=
    foldl_see last (pairwise_beq_of_nodup (s.successors_subset last) (s.nodup_successors last)) _
  have hfresh : s.fresh search.seen last ⊆ s.files.toList := fun p hp =>
    s.successors_subset last ((mem_fresh_iff hfiles).1 hp).1
  have hfind : ∀ p, search'.previous.find? p =
      if (s.fresh search.seen last).contains p then some last else search.previous.find? p := by
    rw [hsearch]
    exact find?_foldl_insert last _ search.previous
  -- a way of before passes only files that had been seen, and nothing changes for these
  have hold : ∀ way ∈ (last :: above) :: waiting, Retraces search'.previous way := by
    refine fun way hway => (hkeeps.retraced way hway).congr fun p hp => ?_
    have hseen := hkeeps.seen way hway hp
    rw [hfind, if_neg fun hcontains => ?_]
    exact ((mem_fresh_iff hfiles).1 ((contains_iff_mem hfresh (hfiles hseen)).1 hcontains)).2 hseen
  refine ⟨by rw [hsearch], ?_, ?_, ?_⟩
  · rw [hsearch, endsOf_append, endsOf_map_cons]
  · refine List.forall_mem_append.2 ⟨(List.forall_mem_cons.1 hold).2, fun way hway => ?_⟩
    obtain ⟨p, hp, rfl⟩ := List.mem_map.1 hway
    exact ⟨by rw [hfind, if_pos ((contains_iff_mem hfresh (hfresh hp)).2 hp)],
      hold _ List.mem_cons_self⟩
  · rw [hsearch]
    obtain ⟨hfirst, hwaiting⟩ := List.forall_mem_cons.1 hkeeps.seen
    refine List.forall_mem_append.2
      ⟨fun way hway => List.subset_append_of_subset_left _ (hwaiting way hway),
      fun way hway => ?_⟩
    obtain ⟨p, hp, rfl⟩ := List.mem_map.1 hway
    exact List.cons_subset.2 ⟨List.mem_append_right _ hp,
      List.subset_append_of_subset_left _ hfirst⟩

end ChainSearch

/-- When no way waits, no chain leads to the goal. -/
theorem Waits.not_leads (h : Waits s source goal done seen []) (chain : List Path) :
    ¬Leads s.Refers source goal chain := by
  intro hchain
  obtain ⟨way, hway, -⟩ := h.exists_way hchain
  cases hway

/-- The search is done with fewer files than there are, as long as a way waits. -/
theorem Waits.length_lt (h : Waits s source goal done seen waiting) (hne : waiting ≠ []) :
    done.length < s.files.toList.length := by
  obtain ⟨way, waiting, rfl⟩ := List.exists_cons_of_ne_nil hne
  obtain ⟨last, hhead, -⟩ := h.leads way List.mem_cons_self
  have hends : endsOf (way :: waiting) = last :: endsOf waiting := List.filterMap_cons_some hhead
  have hseen := (List.subperm_of_subset h.nodup h.files).length_le
  rw [h.perm.length_eq, hends, List.length_append, List.length_cons] at hseen
  omega

/-- The search sees the goal and leads back from it along a shortest chain, or there is none. -/
theorem searchChain_spec {search : ChainSearch} (h : Waits s source goal done search.seen waiting)
    (hkeeps : search.Keeps waiting) (hgoal : goal ∈ s.files.toList)
    (hfuel : s.files.toList.length ≤ n + done.length) :
    let found := searchChain s goal n search
    let chain := (wayBack found.previous s.files.toList.length goal).reverse
    (found.seen.contains goal = false ∧ ∀ other, ¬Leads s.Refers source goal other) ∨
      (found.seen.contains goal = true ∧ Leads s.Refers source goal chain ∧
        ∀ other, Leads s.Refers source goal other → chain.length ≤ other.length) := by
  have hnone : ∀ {done : List Path} {search : ChainSearch},
      Waits s source goal done search.seen [] →
      search.seen.contains goal = false ∧ ∀ other, ¬Leads s.Refers source goal other := by
    intro done search h
    refine ⟨Bool.eq_false_iff.2 fun hcontains => ?_, h.not_leads⟩
    exact h.ahead
      (by simpa [endsOf] using h.perm.mem_iff.1 ((contains_iff_mem h.files hgoal).1 hcontains))
  induction n generalizing done search waiting with
  | zero =>
    obtain rfl : waiting = [] := by
      by_contra hne
      have hlength := h.length_lt hne
      omega
    exact .inl (hnone h)
  | succ n ih =>
    cases waiting with
    | nil =>
      have hqueue : search.queue = [] := hkeeps.queue
      rw [searchChain, hqueue]
      exact .inl (hnone h)
    | cons way waiting =>
      obtain ⟨last, hhead, hleads⟩ := h.leads way List.mem_cons_self
      obtain ⟨above, rfl⟩ := List.head?_eq_some_iff.1 hhead
      have hqueue : search.queue = last :: endsOf waiting := hkeeps.queue
      rw [searchChain, hqueue]
      dsimp only
      split
      next heq =>
        have hseen : last ∈ search.seen := hkeeps.seen _ List.mem_cons_self List.mem_cons_self
        obtain rfl := eq_of_beq (h.files hseen) hgoal heq
        have habove : above.length ≤ s.files.toList.length := by
          have hshort := h.short _ List.mem_cons_self
          have hlength := h.length_lt (List.cons_ne_nil _ _)
          rw [List.length_cons] at hshort
          omega
        have hway : wayBack search.previous s.files.toList.length last = last :: above :=
          (hkeeps.retraced _ List.mem_cons_self).wayBack_eq habove
        refine .inr ⟨(contains_iff_mem h.files hgoal).2 hseen, hway ▸ hleads,
          fun other hother => ?_⟩
        obtain ⟨way, hway', hlength⟩ := h.exists_way hother
        rw [hway, List.length_reverse]
        rcases List.mem_cons.1 hway' with rfl | hlater
        · exact hlength
        · exact ((List.pairwise_cons.1 h.sorted).1 way hlater).1.trans hlength
      next hne =>
        obtain ⟨hseen, hkeeps'⟩ := hkeeps.next h.files
        have hwaits := h.next fun heq => hne (heq ▸ BEq.rfl)
        rw [← hseen] at hwaits
        exact ih hwaits hkeeps' (by rw [List.length_append, List.length_singleton]; omega)

/-- The search begins with the source alone. -/
theorem waits_start (hsource : source ∈ s.files.toList) (goal : Path) :
    Waits s source goal [] [source] [[source]] where
  leads := List.forall_mem_singleton.2 ⟨source, rfl, leads_singleton s.Refers source⟩
  perm := .refl _
  nodup := List.nodup_singleton source
  files := fun p hp => List.mem_singleton.1 hp ▸ hsource
  start := List.mem_singleton_self source
  closed _ ha := by cases ha
  ahead := List.not_mem_nil
  short way hway := by
    rw [List.mem_singleton.1 hway, List.length_singleton]; exact Nat.le_add_left 1 _
  sorted := List.pairwise_singleton _ _
  shortest _ _ _ _ way hway _ := by
    rw [List.mem_singleton.1 hway, List.length_singleton]
    omega

theorem keeps_start (source : Path) :
    ChainSearch.Keeps { seen := [source], queue := [source] } [[source]] where
  queue := rfl
  retraced := List.forall_mem_singleton.2 rfl
  seen := List.forall_mem_singleton.2 (List.Subset.refl _)

/-! ### Chains between any paths -/

/-- A chain through the files between any paths is one between the files that these are. -/
theorem leadsThrough_iff {a b : Path} (hsource : source ∈ s.files.toList)
    (hgoal : goal ∈ s.files.toList) (ha : (source == a) = true) (hb : (goal == b) = true) :
    LeadsThrough s.files.toList s.Refers a b chain ↔ Leads s.Refers source goal chain := by
  constructor
  · rintro ⟨hfiles, first, last, hfirst, hlast, hleads⟩
    have hfirst' : first = source :=
      eq_of_beq (hfiles (List.mem_of_head? hleads.head)) hsource (BEq.trans hfirst (BEq.symm ha))
    have hlast' : last = goal :=
      eq_of_beq (hfiles (List.mem_of_getLast? hleads.last)) hgoal (BEq.trans hlast (BEq.symm hb))
    exact hfirst' ▸ hlast' ▸ hleads
  · intro hleads
    refine ⟨?_, source, goal, ha, hb, hleads⟩
    exact hleads.isChain.induction (· ∈ s.files.toList) chain
      (fun _ _ hpq _ => hpq.right_mem) fun hne => by
      have hhead := hleads.head
      rw [List.head?_eq_some_head hne] at hhead
      exact Option.some.inj hhead ▸ hsource

/-- The chain that is found is a shortest one. -/
theorem findsChain_shortestChain (s : Snapshot) (a b : Path) :
    FindsChain s.files.toList s.Refers a b (s.shortestChain a b) := by
  rw [shortestChain]
  cases hsource : s.files.toList.find? (· == a) with
  | none =>
    refine .of_not_leads fun chain ⟨hfiles, first, _, hfirst, _, hleads⟩ => ?_
    exact List.find?_eq_none.1 hsource first (hfiles (List.mem_of_head? hleads.head)) hfirst
  | some source =>
    cases hgoal : s.files.toList.find? (· == b) with
    | none =>
      refine .of_not_leads fun chain ⟨hfiles, _, last, _, hlast, hleads⟩ => ?_
      exact List.find?_eq_none.1 hgoal last (hfiles (List.mem_of_getLast? hleads.last)) hlast
    | some goal =>
      have hs := List.mem_of_find?_eq_some hsource
      have hg := List.mem_of_find?_eq_some hgoal
      have hiff : ∀ chain, LeadsThrough s.files.toList s.Refers a b chain ↔
          Leads s.Refers source goal chain :=
        fun chain => leadsThrough_iff hs hg (List.find?_some (p := fun p : Path => p == a) hsource)
          (List.find?_some (p := fun p : Path => p == b) hgoal)
      rcases searchChain_spec (waits_start hs goal) (keeps_start source) hg (Nat.le_refl _) with
        ⟨hunseen, hnone⟩ | ⟨hseen, hleads, hshortest⟩
      · dsimp only
        rw [if_neg (Bool.eq_false_iff.1 hunseen)]
        exact .of_not_leads fun chain hchain => hnone chain ((hiff chain).1 hchain)
      · dsimp only
        rw [if_pos hseen]
        exact .of_leads s.pairwise_files ((hiff _).2 hleads) fun chain hchain =>
          hshortest chain ((hiff chain).1 hchain)

end Snapshot

namespace Workspace

variable {tree : FileTree}

/-- For all files, roots and options, the chain that a fresh workspace finds between two paths is a
shortest chain of references through the files of the corpus. Whatever the index of a workspace
holds, it gives the shortest chains of what it holds. -/
theorem chains_of_corpus (h : tree.WellFormed) (reader : IgnoreReader) (root : Path)
    (options : CorpusOptions) (a b : Path) : let ws := new reader tree root options
    FindsChain (ws.corpus tree) (ws.CorpusRefers tree) a b
      ((ws.ensureIndex tree).index.snapshot.shortestChain a b) ∧
      ∀ s : Snapshot, FindsChain s.files.toList s.Refers a b (s.shortestChain a b) := by
  intro ws
  obtain ⟨hfiles, hrefers⟩ :=
    snapshot_ensureIndex h (show ws = new reader tree root options from rfl)
  rw [← hrefers, ← hfiles]
  exact ⟨Snapshot.findsChain_shortestChain _ a b, fun s => s.findsChain_shortestChain a b⟩

/-- A file refers to another, and to a third that refers to the other too: the chain does not go by
the third. -/
theorem chain_of_three_files :
    let tree : FileTree :=
      .put (.put (.put {} ["a.yml"] "- template: c.yml\n- template: b.yml".toUTF8 none)
      ["b.yml"] "".toUTF8 none) ["c.yml"] "- template: b.yml".toUTF8 none
    let ws := new .ofRules tree ⟨"/"⟩ { respectIgnore := false }
    let chain := (ws.ensureIndex tree).index.snapshot.shortestChain (.address ["a.yml"])
      (.address ["b.yml"])
    tree.WellFormed ∧ chain ≠ [] ∧ chain.length ≤ 2 := by
  intro tree ws chain
  have h : tree.WellFormed := by decide +kernel
  have htop : IsPlace [] := by decide
  have ha : Path.address ["a.yml"] ∈ ws.corpus tree :=
    (CorpusOptions.mem_files_iff h htop rfl).2 ⟨by decide, ["a.yml"], _, rfl,
      rfl, by decide +kernel⟩
  have hb : Path.address ["b.yml"] ∈ ws.corpus tree :=
    (CorpusOptions.mem_files_iff h htop rfl).2 ⟨by decide, ["b.yml"], _, rfl,
      rfl, by decide +kernel⟩
  have hrefs : ((outgoing (.address ["a.yml"])).answer tree.view).map (·.target.path?) =
      [some (.address ["c.yml"]), some (.address ["b.yml"])] := by
    rfl
  have hab : ws.CorpusRefers tree (.address ["a.yml"]) (.address ["b.yml"]) :=
    ⟨ha, hb, List.mem_map.1 (by rw [hrefs]; simp)⟩
  have hleads : LeadsThrough (ws.corpus tree) (ws.CorpusRefers tree) (.address ["a.yml"])
      (.address ["b.yml"]) [.address ["a.yml"], .address ["b.yml"]] :=
    ⟨by simp [ha, hb], _, _, BEq.rfl, BEq.rfl, rfl, rfl, .cons_cons hab (.singleton _)⟩
  have hfinds :=
    (chains_of_corpus h .ofRules ⟨"/"⟩ { respectIgnore := false } (.address ["a.yml"])
      (.address ["b.yml"])).1
  refine ⟨h, fun hnil => ?_, hfinds.shortest _ hleads⟩
  rcases hfinds.eq_nil_iff.1 hnil with hno | hno | hno
  · exact Bool.false_ne_true (hno.symm.trans (List.contains_iff_exists_mem_beq.2 ⟨_, ha, BEq.rfl⟩))
  · exact Bool.false_ne_true (hno.symm.trans (List.contains_iff_exists_mem_beq.2 ⟨_, hb, BEq.rfl⟩))
  · exact hno _ hleads

end Workspace

end TemplateAtlas
