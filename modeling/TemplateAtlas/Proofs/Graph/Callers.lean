import TemplateAtlas.Proofs.Graph.Reachability
import TemplateAtlas.Proofs.Index.Build
import TemplateAtlas.Proofs.Index.Consistency

/-!
# Callers by index and by scan

A walk up to the callers of a file is determined by the call sites that it is given, whether they
are known or found on the way (`walkUp_congr`). The call sites that reading the corpus finds are
those of the snapshot that is built from it (`Snapshot.Reports.callersWithSites_eq`). So an indexed
workspace and one that reads its corpus show the same tree.
-/

namespace TemplateAtlas

open Std Inquiry

variable {view : View}

/-! ### Walks -/

theorem answer_eachWith_cons {α β σ : Type} (f : α → σ → Inquiry (β × σ)) (a : α) (as : List α)
    (s : σ) :
    (eachWith f (a :: as) s).answer view =
      (((f a s).answer view).1 :: ((eachWith f as ((f a s).answer view).2).answer view).1,
        ((eachWith f as ((f a s).answer view).2).answer view).2) := by
  rw [eachWith, answer_bind]
  generalize (f a s).answer view = r
  dsimp only
  rw [answer_bind]
  rfl

/-- Each result of the steps of a list stands to its element as the step makes it, whatever was
found before. -/
theorem forall₂_answer_eachWith {α β σ : Type} {f : α → σ → Inquiry (β × σ)} {R : α → β → Prop}
    {as : List α} (h : ∀ a ∈ as, ∀ s, R a ((f a s).answer view).1) (s : σ) :
    List.Forall₂ R as ((eachWith f as s).answer view).1 := by
  induction as generalizing s with
  | nil => exact .nil
  | cons a as ih =>
    rw [answer_eachWith_cons]
    exact .cons (h a (by simp) s) (ih (fun a' ha' => h a' (by simp [ha'])) _)

/-- Steps with equal results from memories that are sound give equal results. -/
theorem eachWith_congr {α β σ : Type} {f g : α → σ → Inquiry (β × σ)} {Sound : σ → Prop}
    {as : List α}
    (h : ∀ a ∈ as, ∀ s s', Sound s → ((f a s).answer view).1 = ((g a s').answer view).1 ∧
      Sound ((f a s).answer view).2)
    (s s' : σ) (hs : Sound s) :
    ((eachWith f as s).answer view).1 = ((eachWith g as s').answer view).1 ∧
      Sound ((eachWith f as s).answer view).2 := by
  induction as generalizing s s' with
  | nil => exact ⟨rfl, hs⟩
  | cons a as ih =>
    obtain ⟨hfirst, hsound⟩ := h a (by simp) s s' hs
    obtain ⟨hrest, hsound'⟩ :=
      ih (fun a' ha' => h a' (by simp [ha'])) _ ((g a s').answer view).2 hsound
    rw [answer_eachWith_cons, answer_eachWith_cons]
    exact ⟨by rw [hfirst, hrest], hsound'⟩

/-- What a walk up makes of a call site: the mark of a cycle, or the walk from the caller. -/
def walkSite (callers : Path → CallSiteMemo → Inquiry (List CallSite × CallSiteMemo))
    (above : List Path) (depth : Nat) (site : CallSite) (memo : CallSiteMemo) :
    Inquiry (Tree × CallSiteMemo) :=
  if above.contains site.caller then do
    let leaf ← cycleInfo site.caller site.line none
    return (Tree.leaf { leaf with alias? := site.alias? }, memo)
  else walkUp callers above depth site.caller (some site.line) site.alias? memo

theorem answer_walkUp_succ (callers : Path → CallSiteMemo → Inquiry (List CallSite × CallSiteMemo))
    (above : List Path) (depth : Nat) (file : Path) (line? : Option Nat) (alias? : Option String)
    (memo : CallSiteMemo) :
    (walkUp callers above (depth + 1) file line? alias? memo).answer view =
      let found := (callers file memo).answer view
      let children :=
        (eachWith (walkSite callers (file :: above) depth) found.1 found.2).answer view
      (.node { (fileInfo file line? none).answer view with alias? := alias? } children.1,
        children.2) := by
  rw [walkUp, answer_bind, answer_bind]
  generalize (callers file memo).answer view = found
  dsimp only
  rw [answer_bind]
  rfl

/-- The call sites that are known. -/
def knownCallers (sites : Path → List CallSite) (target : Path) (memo : CallSiteMemo) :
    Inquiry (List CallSite × CallSiteMemo) :=
  pure (sites target, memo)

/-- A walk that finds its call sites on the way shows the tree of the walk that knows them. -/
theorem walkUp_congr {callers : Path → CallSiteMemo → Inquiry (List CallSite × CallSiteMemo)}
    {sites : Path → List CallSite} {Sound : CallSiteMemo → Prop}
    (h : ∀ target memo, Sound memo → ((callers target memo).answer view).1 = sites target ∧
      Sound ((callers target memo).answer view).2)
    (depth : Nat) (above : List Path) (file : Path) (line? : Option Nat) (alias? : Option String)
    (memo memo' : CallSiteMemo) (hmemo : Sound memo) :
    ((walkUp callers above depth file line? alias? memo).answer view).1 =
      ((walkUp (knownCallers sites) above depth file line? alias? memo').answer view).1 ∧
    Sound ((walkUp callers above depth file line? alias? memo).answer view).2 := by
  induction depth generalizing above file line? alias? memo memo' with
  | zero => exact ⟨rfl, hmemo⟩
  | succ depth ih =>
    obtain ⟨hsites, hsound⟩ := h file memo hmemo
    have hsite : ∀ site ∈ sites file, ∀ memo memo', Sound memo →
        ((walkSite callers (file :: above) depth site memo).answer view).1 =
          ((walkSite (knownCallers sites) (file :: above) depth site memo').answer view).1 ∧
        Sound ((walkSite callers (file :: above) depth site memo).answer view).2 := by
      intro site _ memo memo' hmemo
      unfold walkSite
      split
      · exact ⟨rfl, hmemo⟩
      · exact ih _ _ _ _ _ _ hmemo
    obtain ⟨hchildren, hsound'⟩ := eachWith_congr hsite _ memo' hsound
    rw [answer_walkUp_succ, answer_walkUp_succ]
    simp only [knownCallers, answer_pure, hsites]
    exact ⟨by rw [hchildren], hsound'⟩

/-! ### What a walk asks -/

section Asks

variable {texts roots : Path → Prop}

theorem asks_eachWith {α β σ : Type} {f : α → σ → Inquiry (β × σ)} {as : List α} {s : σ}
    (h : ∀ a s, (f a s).Asks texts roots) : (eachWith f as s).Asks texts roots := by
  induction as generalizing s with
  | nil => exact asks_pure _
  | cons a as ih => exact (h a s).bind fun _ => ih.bind fun _ => asks_pure _

theorem asks_walkUp {callers : Path → CallSiteMemo → Inquiry (List CallSite × CallSiteMemo)}
    (h : ∀ target memo, (callers target memo).Asks (fun _ => True) roots) (depth : Nat)
    (above : List Path) (file : Path) (line? : Option Nat) (alias? : Option String)
    (memo : CallSiteMemo) :
    (walkUp callers above depth file line? alias? memo).Asks (fun _ => True) roots := by
  induction depth generalizing above file line? alias? memo with
  | zero => exact (asks_fileInfo trivial line? none).bind fun _ => asks_pure _
  | succ depth ih =>
    refine (asks_fileInfo trivial line? none).bind fun info => (h file memo).bind fun found => ?_
    refine (asks_eachWith fun site memo => ?_).bind fun _ => asks_pure _
    split
    · exact (asks_cycleInfo trivial site.line none).bind fun _ => asks_pure _
    · exact ih _ _ _ _ _

theorem asks_callerTreeBy (callers : Path → List CallSite) (file : Path) (depth : Nat) :
    (callerTreeBy callers file depth).Asks (fun _ => True) roots :=
  (asks_walkUp (fun _ _ => asks_pure _) _ _ _ _ _ _).bind fun _ => asks_pure _

theorem asks_callersByScanOnce {corpus : List Path} (h : ∀ p ∈ corpus, roots p) (target : Path)
    (memo : CallSiteMemo) : (callersByScanOnce corpus target memo).Asks (fun _ => True) roots := by
  have hsite : ∀ caller ∈ corpus, (callSiteIn? target caller).Asks (fun _ => True) roots :=
    fun caller hmem =>
    (asks_outgoing trivial (h caller hmem)).bind fun _ => asks_pure _
  unfold callersByScanOnce
  split
  · exact asks_pure _
  · exact ((Asks.each hsite).bind fun _ => asks_pure _).bind fun _ => asks_pure _

theorem asks_callerTreeByScan {corpus : List Path} (h : ∀ p ∈ corpus, roots p) (file : Path)
    (depth : Nat) : (callerTreeByScan corpus file depth).Asks (fun _ => True) roots :=
  (asks_walkUp (asks_callersByScanOnce h) _ _ _ _ _ _).bind fun _ => asks_pure _

end Asks

/-! ### Scans -/

theorem answer_callSiteIn? (view : View) (target caller : Path) :
    (callSiteIn? target caller).answer view =
      (((outgoing caller).answer view).find? fun o => o.target.path? == some target).map fun o =>
        ⟨caller, o.reference.line, o.alias?⟩ := by
  rw [callSiteIn?, answer_bind, answer_pure]

theorem answer_callersByScan (view : View) (corpus : List Path) (target : Path) :
    (callersByScan corpus target).answer view =
      sortCallSites (corpus.filterMap fun caller => (callSiteIn? target caller).answer view) := by
  simp [callersByScan, List.filterMap_map]

/-- The call sites that reading a sorted corpus finds are in the order of the corpus. -/
theorem callersByScan_of_pairwise {corpus : List Path}
    (h : corpus.Pairwise fun p q => compare p q = .lt) (view : View) (target : Path) :
    (callersByScan corpus target).answer view = corpus.filterMap fun caller =>
      (callSiteIn? target caller).answer view := by
  have hsorted : (corpus.filterMap fun caller => (callSiteIn? target caller).answer view).Pairwise
      fun a b =>
      (compare a.caller b.caller).isLE = true := by
    refine h.filterMap _ fun a b hlt a' ha b' hb => ?_
    rw [answer_callSiteIn?, Option.map_eq_some_iff] at ha hb
    obtain ⟨_, -, rfl⟩ := ha
    obtain ⟨_, -, rfl⟩ := hb
    rw [hlt]
    rfl
  rw [answer_callersByScan, sortCallSites, List.mergeSort_of_pairwise hsorted]

/-- Two spellings of a target have the same call sites. -/
theorem callersByScan_congr {t t' : Path} (h : (t == t') = true) (corpus : List Path) :
    (callersByScan corpus t).answer view = (callersByScan corpus t').answer view := by
  have hpath : ∀ path? : Option Path, (path? == some t) = (path? == some t') := by
    intro path?
    cases path? with
    | none => rfl
    | some p => exact BEq.congr_right h
  simp only [answer_callersByScan, answer_callSiteIn?, hpath]

/-- What was found before is what reading the corpus finds. -/
def SoundMemo (view : View) (corpus : List Path) (memo : CallSiteMemo) : Prop :=
  ∀ target sites, memo.find? target = some sites → (callersByScan corpus target).answer view = sites

theorem callersByScanOnce_sound (corpus : List Path) (target : Path) (memo : CallSiteMemo)
    (h : SoundMemo view corpus memo) :
    ((callersByScanOnce corpus target memo).answer view).1 =
      (callersByScan corpus target).answer view ∧
      SoundMemo view corpus ((callersByScanOnce corpus target memo).answer view).2 := by
  unfold callersByScanOnce
  cases hfind : memo.find? target with
  | some sites => exact ⟨(h target sites hfind).symm, h⟩
  | none =>
    rw [answer_bind, answer_pure]
    refine ⟨rfl, fun t sites ht => ?_⟩
    rw [SortedMap.find?_insert] at ht
    split at ht
    next heq =>
      cases ht
      exact callersByScan_congr (LawfulBEqOrd.compare_eq_iff_beq.1 heq) corpus
    next => exact h t sites ht

/-- Reading the corpus on the way up shows the tree of a walk that knows what the corpus says. -/
theorem answer_callerTreeByScan (view : View) (corpus : List Path) (file : Path) (depth : Nat) :
    (callerTreeByScan corpus file depth).answer view =
      (callerTreeBy (fun target => (callersByScan corpus target).answer view) file depth).answer
        view := by
  have hsound : SoundMemo view corpus .empty := fun _ _ h => by cases h
  rw [callerTreeByScan, callerTreeBy, answer_bind, answer_bind]
  exact (walkUp_congr (callersByScanOnce_sound corpus) (clampDepth depth)
    [] file none none .empty .empty hsound).1

/-! ### Snapshots -/

namespace Snapshot

variable {s : Snapshot} {corpus : List Path}

/-- The callers in a snapshot that reports a corpus are the files of the corpus with a reference to
the target. -/
theorem Reports.directCallers_eq (h : s.Reports view (· ∈ corpus))
    (hnormal : ∀ p ∈ corpus, p.IsNormal) (hsorted : corpus.Pairwise fun p q => compare p q = .lt)
    (target : Path) : s.directCallers target = corpus.filter (s.refersTo · target) := by
  refine eq_of_pairwise_lt (s.pairwise_directCallers target) (hsorted.filter _) fun caller => ?_
  rw [List.mem_filter]
  constructor
  · intro hmem
    have hrefers := h.derived.refersTo_of_mem_directCallers hmem
    obtain ⟨refs, -, hrefs, -⟩ := exists_site hrefers
    exact ⟨((h.forward caller (h.canonical.isNormal_of_mem_directCallers hmem) refs).1 hrefs).1,
      hrefers⟩
  · rintro ⟨hmem, hrefers⟩
    rw [← h.derived.callers, callersOf] at hrefers
    cases hfind : s.inverse.find? target with
    | none =>
      rw [hfind] at hrefers
      cases hrefers
    | some callers =>
      rw [hfind] at hrefers
      obtain ⟨k, hk, hcompare⟩ := SortedMap.contains_eq_true_iff.1 hrefers
      have hnormalk := h.canonical.inverse.callers target callers hfind k hk
      rw [directCallers, hfind, (hnormal caller hmem).eq hnormalk (Path.compare_eq_iff.1 hcompare)]
      exact hk

/-- Among the references as the index keeps them, the first that leads to a target is the first
among all. -/
theorem find?_filterMap_indexed? (found : List Outgoing) (target : Path) :
    (found.filterMap Outgoing.indexed?).find? (·.target == target) =
      (found.find? fun o => o.target.path? == some target).bind Outgoing.indexed? := by
  rw [List.find?_filterMap]
  congr 2
  funext o
  unfold Outgoing.indexed?
  cases o.target.path? <;> rfl

theorem site_filterMap_indexed? (caller target : Path) (found : List Outgoing) :
    (if leadsTo (found.filterMap Outgoing.indexed?) target then
      ((found.filterMap Outgoing.indexed?).find? (·.target == target)).map fun r =>
        CallSite.mk caller r.line r.alias?
      else none) =
    (found.find? fun o => o.target.path? == some target).map fun o =>
      ⟨caller, o.reference.line, o.alias?⟩ := by
  rw [leadsTo, ← List.isSome_find?, find?_filterMap_indexed?]
  cases hfind : found.find? fun o => o.target.path? == some target with
  | none => rfl
  | some o =>
    have ho := List.find?_some hfind
    unfold Outgoing.indexed?
    cases hpath : o.target.path? with
    | none =>
      rw [hpath] at ho
      cases ho
    | some p => simp [hpath]

/-- The call sites of a snapshot that reports a corpus are those that reading the corpus finds. -/
theorem Reports.callersWithSites_eq (h : s.Reports view (· ∈ corpus))
    (hnormal : ∀ p ∈ corpus, p.IsNormal) (hsorted : corpus.Pairwise fun p q => compare p q = .lt)
    (target : Path) : s.callersWithSites target = (callersByScan corpus target).answer view := by
  have hsite : ∀ caller ∈ corpus,
      (if s.refersTo caller target then s.site? target caller else none) =
      (callSiteIn? target caller).answer view := by
    intro caller hmem
    have hrefs := (h.forward caller (hnormal caller hmem) _).2 ⟨hmem, rfl⟩
    rw [answer_callSiteIn?, refersTo, site?, hrefs, answer_indexReferences, Option.bind_some,
      Option.getD_some]
    exact site_filterMap_indexed? caller target _
  rw [callersWithSites_eq_filterMap, h.directCallers_eq hnormal hsorted, List.filterMap_filter,
    List.filterMap_congr hsite, callersByScan_of_pairwise hsorted]

end Snapshot

end TemplateAtlas
