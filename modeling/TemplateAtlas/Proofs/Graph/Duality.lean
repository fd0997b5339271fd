import TemplateAtlas.Proofs.Graph.Callers

/-!
# Callers and references

A walk up to the callers of a file shows what a walk along the edges from targets to callers shows
(`mem_keys_walkUp_iff_shown`), and these are the references of the files of the corpus turned round
(`mem_callerNodes_iff`). So a chain of callers from a path up to a file is a chain of references
from the file down to the path, whether or not something is there (`exists_chain_of_callers`), and
back, if the files that the file reaches belong to the corpus (`chain_callers_of_chain`).
-/

namespace TemplateAtlas

open Inquiry

variable {view : View} {corpus : List Path} {key : NodeKey} {a b c : Path} {n : Nat}

/-! ### Chains from end to end -/

theorem Chain.append {refs : Path → List NodeKey} {x y z : NodeKey} {m : Nat} (h : Chain refs m x y)
    (h' : Chain refs n y z) : Chain refs (m + n) x z := by
  induction h with
  | refl => rwa [Nat.zero_add]
  | cons hnext _ ih =>
    rw [Nat.add_right_comm]
    exact .cons hnext (ih h')

theorem Chain.concat {refs : Path → List NodeKey} {x : NodeKey} (h : Chain refs n x (.file c))
    (hkey : key ∈ refs c) : Chain refs (n + 1) x key :=
  h.append (.cons hkey (.refl key))

/-! ### Walks up -/

/-- Some result of the steps of a list is good if and only if some element makes its step good,
where the elements decide, whatever was found before. -/
theorem exists_mem_eachWith_iff {α β σ : Type} {f : α → σ → Inquiry (β × σ)} {as : List α}
    {good : β → Prop} {makes : α → Prop} (h : ∀ a ∈ as, ∀ s, good ((f a s).answer view).1 ↔ makes a)
    (s : σ) : (∃ r ∈ ((eachWith f as s).answer view).1, good r) ↔ ∃ a ∈ as, makes a := by
  have hall : List.Forall₂ (fun a r => good r ↔ makes a) as ((eachWith f as s).answer view).1 :=
    forall₂_answer_eachWith h s
  generalize ((eachWith f as s).answer view).1 = results at hall ⊢
  clear h
  induction hall with
  | nil => exact ⟨fun ⟨_, hmem, _⟩ => (by cases hmem), fun ⟨_, hmem, _⟩ => (by cases hmem)⟩
  | cons hfirst _ hrest => simp only [List.exists_mem_cons_iff, hfirst, hrest]

/-- The nodes of the callers of a target. -/
def nodesOf (sites : Path → List CallSite) (target : Path) : List NodeKey :=
  (sites target).map (.file ·.caller)

/-- The nodes of a walk up are those that a walk along the callers shows. -/
theorem mem_keys_walkUp_iff_shown {sites : Path → List CallSite} {above : List Path} {depth : Nat}
    {file : Path} {line? : Option Nat} {alias? : Option String} {memo : CallSiteMemo} :
    key ∈ ((walkUp (knownCallers sites) above depth file line? alias? memo).answer view).1.keys ↔
      Shown (nodesOf sites) above depth file key := by
  induction depth generalizing above file line? alias? memo with
  | zero =>
    rw [walkUp, answer_bind, answer_pure, Tree.mem_keys_leaf_iff, key_answer_fileInfo]
    constructor
    · rintro rfl
      exact .start
    · rintro ⟨⟩
      rfl
  | succ depth ih =>
    -- a call site shows its caller, and what the walk goes on to show unless it has come back
    have hsite : ∀ site ∈ sites file, ∀ memo,
        key ∈ ((walkSite (knownCallers sites) (file :: above) depth site memo).answer view).1.keys ↔
          key = .file site.caller ∨
            (file :: above).contains site.caller = false ∧
              Shown (nodesOf sites) (file :: above) depth site.caller key := by
      intro site _ memo
      unfold walkSite
      split
      next habove =>
        rw [answer_bind, answer_pure, Tree.mem_keys_leaf_iff, key_answer_cycleInfo]
        simp [habove]
      next habove =>
        rw [ih]
        constructor
        · exact fun hshown => .inr ⟨Bool.eq_false_iff.2 habove, hshown⟩
        · rintro (rfl | ⟨-, hshown⟩)
          · exact .start
          · exact hshown
    have hchildren :
        (∃ t ∈ ((eachWith (walkSite (knownCallers sites) (file :: above) depth) (sites file)
        memo).answer view).1, key ∈ t.keys) ↔ ∃ site ∈ sites file, key = .file site.caller ∨
          (file :: above).contains site.caller = false ∧
            Shown (nodesOf sites) (file :: above) depth site.caller key :=
      exists_mem_eachWith_iff hsite memo
    rw [answer_walkUp_succ]
    dsimp only [knownCallers, answer_pure]
    rw [Tree.mem_keys_node_iff, hchildren, key_answer_fileInfo]
    constructor
    · rintro (rfl | ⟨site, hmem, rfl | ⟨hfresh, hshown⟩⟩)
      · exact .start
      · exact .next (List.mem_map_of_mem hmem)
      · exact .beyond (List.mem_map_of_mem hmem) hfresh hshown
    · rintro (_ | hnext | ⟨hnext, hfresh, hshown⟩)
      · exact .inl rfl
      · obtain ⟨site, hmem, rfl⟩ := List.mem_map.1 hnext
        exact .inr ⟨site, hmem, .inl rfl⟩
      · obtain ⟨site, hmem, hcaller⟩ := List.mem_map.1 hnext
        cases hcaller
        exact .inr ⟨site, hmem, .inr ⟨hfresh, hshown⟩⟩

/-! ### References turned round -/

/-- The nodes of the files of a corpus that refer to a target. -/
def callerNodes (view : View) (corpus : List Path) : Path → List NodeKey :=
  nodesOf fun target => (callersByScan corpus target).answer view

/-- The callers of a target are the files of the corpus with a reference to its path. -/
theorem mem_callerNodes_iff :
    key ∈ callerNodes view corpus a ↔ ∃ caller ∈ corpus, key = .file caller ∧
      ∃ reached ∈ referredNodes view caller, (reached.path? == some a) = true := by
  have hsite : ∀ caller site, (callSiteIn? a caller).answer view = some site →
      site.caller = caller := by
    intro caller site h
    rw [answer_callSiteIn?] at h
    obtain ⟨o, -, rfl⟩ := Option.map_eq_some_iff.1 h
    rfl
  have hrefers : ∀ caller, (∃ site, (callSiteIn? a caller).answer view = some site) ↔
      ∃ reached ∈ referredNodes view caller, (reached.path? == some a) = true := by
    intro caller
    rw [← Option.isSome_iff_exists, answer_callSiteIn?, Option.isSome_map, List.find?_isSome]
    simp [referredNodes]
  simp only [callerNodes, nodesOf, answer_callersByScan, List.mem_map, sortCallSites,
    List.mem_mergeSort, List.mem_filterMap, ← hrefers]
  constructor
  · rintro ⟨site, ⟨caller, hmem, h⟩, rfl⟩
    exact ⟨caller, hmem, by rw [hsite caller site h], site, h⟩
  · rintro ⟨caller, hmem, rfl, site, h⟩
    exact ⟨site, ⟨caller, hmem, h⟩, by rw [hsite caller site h]⟩

theorem callerNodes_congr (h : (a == b) = true) :
    callerNodes view corpus a = callerNodes view corpus b := by
  rw [callerNodes, nodesOf, nodesOf, callersByScan_congr h]

/-- The files that refer to a file are those with its node among the ends of their references. -/
theorem file_mem_referredNodes_iff (hc : c.IsNormal) (hfile : view.isFile c = true) :
    (∃ reached ∈ referredNodes view b, (reached.path? == some c) = true) ↔
      .file c ∈ referredNodes view b := by
  constructor
  · rintro ⟨reached, hmem, hpath⟩
    obtain ⟨o, ho, rfl⟩ := List.mem_map.1 hmem
    rw [Outgoing.path?_key] at hpath
    cases hsome : o.target.path? with
    | none =>
      rw [hsome] at hpath
      cases hpath
    | some found =>
      rw [hsome] at hpath
      have hfound : found = c := (isNormal_of_mem_outgoing ho hsome).eq hc (Path.beq_iff.1 hpath)
      rw [← key_of_mem_outgoing ho (hsome.trans (congrArg some hfound)) hfile]
      exact hmem
  · intro hmem
    exact ⟨_, hmem, beq_self_eq_true _⟩

/-- A chain of callers from a file is a chain of references back to it. -/
theorem chain_of_callers (hreadable : ∀ p, (view.text p).isSome → view.isFile p = true)
    (hcorpus : ∀ p ∈ corpus, p.IsNormal) (hc : c.IsNormal) (hfile : view.isFile c = true)
    (h : Chain (callerNodes view corpus) n (.file c) (.file b)) :
    Chain (referredNodes view) n (.file b) (.file c) := by
  induction n generalizing c with
  | zero =>
    cases h
    exact .refl _
  | succ n ih =>
    obtain _ | ⟨hnext, h⟩ := h
    obtain ⟨caller, hmem, rfl, hrefers⟩ := mem_callerNodes_iff.1 hnext
    have hto := (file_mem_referredNodes_iff hc hfile).1 hrefers
    obtain ⟨o, ho, -⟩ := List.mem_map.1 hto
    exact (ih (hcorpus caller hmem) (hreadable caller (isSome_text_of_mem_outgoing ho)) h).concat
      hto

/-- A chain of callers from a path is a chain of references to a node with that path, be it a file
or missing. -/
theorem exists_chain_of_callers (hreadable : ∀ p, (view.text p).isSome → view.isFile p = true)
    (hcorpus : ∀ p ∈ corpus, p.IsNormal)
    (h : Chain (callerNodes view corpus) n (.file a) (.file b)) :
    ∃ key, (key.path? == some a) = true ∧ Chain (referredNodes view) n (.file b) key := by
  cases n with
  | zero =>
    cases h
    exact ⟨_, beq_self_eq_true _, .refl _⟩
  | succ n =>
    obtain _ | ⟨hnext, h⟩ := h
    obtain ⟨caller, hmem, rfl, reached, hreached, hpath⟩ := mem_callerNodes_iff.1 hnext
    obtain ⟨o, ho, -⟩ := List.mem_map.1 hreached
    have hcaller := hreadable caller (isSome_text_of_mem_outgoing ho)
    exact ⟨reached, hpath,
      (chain_of_callers hreadable hcorpus (hcorpus caller hmem) hcaller h).concat hreached⟩

/-- A chain of references from a file to a path is a chain of callers from that path, if the files
that the first file reaches belong to the corpus. -/
theorem chain_callers_of_chain
    (hreach : ∀ m c, Chain (referredNodes view) m (.file b) (.file c) → c ∈ corpus)
    (hpath : (key.path? == some a) = true) (h : Chain (referredNodes view) (n + 1) (.file b) key) :
    Chain (callerNodes view corpus) (n + 1) (.file a) (.file b) := by
  induction n generalizing b with
  | zero =>
    obtain _ | ⟨hnext, h⟩ := h
    cases h
    exact .cons (mem_callerNodes_iff.2 ⟨b, hreach 0 b (.refl _), rfl, key, hnext, hpath⟩) (.refl _)
  | succ n ih =>
    obtain _ | ⟨hnext, h⟩ := h
    have hstart := h
    obtain _ | ⟨_, _⟩ := hstart
    next c _ _ _ =>
      have hfurther := ih (fun m d hd => hreach (m + 1) d (.cons hnext hd)) h
      refine hfurther.concat (mem_callerNodes_iff.2 ⟨b, hreach 0 b (.refl _), rfl, _, hnext, ?_⟩)
      exact beq_self_eq_true _

/-! ### Trees -/

theorem Tree.containsPath_iff {t : Tree} :
    t.containsPath a = true ↔ ∃ key ∈ t.keys, (key.path? == some a) = true := by
  simp [containsPath, keys, List.any_eq_true]

/-- A chain of callers ends at a file of the corpus, if it does not end where it starts. -/
theorem exists_of_chain_callers {x : NodeKey} (h : Chain (callerNodes view corpus) (n + 1) x key) :
    ∃ caller ∈ corpus, key = .file caller := by
  induction n generalizing x with
  | zero =>
    obtain _ | ⟨hnext, h⟩ := h
    cases h
    obtain ⟨caller, hmem, rfl, -⟩ := mem_callerNodes_iff.1 hnext
    exact ⟨caller, hmem, rfl⟩
  | succ n ih =>
    obtain _ | ⟨-, h⟩ := h
    exact ih h

/-- The tree of callers that reading the corpus finds shows exactly the nodes that at most so many
callers reach. -/
theorem mem_keys_callerTreeByScan_iff (hcorpus : ∀ p ∈ corpus, p.IsNormal) (a : Path)
    (depth : Nat) :
    key ∈ ((callerTreeByScan corpus a depth).answer view).keys ↔
      ∃ n ≤ clampDepth depth, Chain (callerNodes view corpus) n (.file a) key := by
  have hnormal : LeadsToNormal (callerNodes view corpus) := by
    intro target next hmem
    obtain ⟨caller, hcaller, heq, -⟩ := mem_callerNodes_iff.1 hmem
    cases heq
    exact hcorpus next hcaller
  have halike : SpelledAlike (callerNodes view corpus) a := fun _ _ heq _ => callerNodes_congr heq
  rw [answer_callerTreeByScan, callerTreeBy, answer_bind, answer_pure]
  exact mem_keys_walkUp_iff_shown.trans (shown_iff hnormal halike)

/-- The tree of callers of a path and the tree of what a file of the corpus refers to show each
other's start. -/
theorem containsPath_dual (hreadable : ∀ p, (view.text p).isSome → view.isFile p = true)
    (hcorpus : ∀ p ∈ corpus, p.IsNormal) (hb : b ∈ corpus) (a : Path) (depth : Nat) :
    let up := (callerTreeByScan corpus a depth).answer view
    let down := (templateTree b depth).answer view
    (up.containsPath b = true → down.containsPath a = true) ∧
      ((∀ n c, Chain (referredNodes view) n (.file b) (.file c) → c ∈ corpus) →
        down.containsPath a = true → up.containsPath b = true) := by
  have hdown : ∀ {key}, key ∈ ((templateTree b depth).answer view).keys ↔
      ∃ n ≤ clampDepth depth, Chain (referredNodes view) n (.file b) key :=
    mem_keys_walkDown_iff (spelledAlike_of_isNormal _ (hcorpus b hb))
  dsimp only
  rw [Tree.containsPath_iff, Tree.containsPath_iff]
  simp only [mem_keys_callerTreeByScan_iff hcorpus, hdown]
  constructor
  · rintro ⟨key, ⟨n, hn, hchain⟩, hpath⟩
    cases n with
    | zero =>
      cases hchain
      exact ⟨.file b, ⟨0, hn, .refl _⟩, BEq.symm hpath⟩
    | succ n =>
      obtain ⟨caller, hmem, rfl⟩ := exists_of_chain_callers hchain
      obtain rfl : caller = b := (hcorpus caller hmem).eq (hcorpus b hb) (Path.beq_iff.1 hpath)
      obtain ⟨key, hkey, hback⟩ := exists_chain_of_callers hreadable hcorpus hchain
      exact ⟨key, ⟨n + 1, hn, hback⟩, hkey⟩
  · rintro hreach ⟨key, ⟨n, hn, hchain⟩, hpath⟩
    cases n with
    | zero =>
      cases hchain
      exact ⟨.file a, ⟨0, hn, .refl _⟩, BEq.symm hpath⟩
    | succ n =>
      exact ⟨.file b, ⟨n + 1, hn, chain_callers_of_chain hreach hpath hchain⟩, beq_self_eq_true _⟩

end TemplateAtlas
