import TemplateAtlas.Path.Normal
import TemplateAtlas.Proofs.Path.RawText

/-!
# Normal forms of paths are normal

The steps of a normal form are an optional root or some double dots, followed by names. Such steps
can be read back from the text that they make (`components_ofSteps`), so a normal form is its own
normal form, and two paths in normal form with the same components are the same text
(`IsNormal.eq`).
-/

namespace TemplateAtlas

open TemplateAtlas.Text
open RawText (slash dot)

/-- A text that names something in a directory. -/
def IsName (text : RawText) : Prop :=
  text.bytes ≠ [] ∧ slash ∉ text.bytes ∧ text.bytes ≠ [dot] ∧ text.bytes ≠ [dot, dot]

instance (text : RawText) : Decidable (IsName text) := inferInstanceAs (Decidable (_ ∧ _))

/-- A step that may stand inside a path. -/
def Component.IsInner : Component → Prop
  | .parent => True
  | .name text => IsName text
  | _ => False

namespace Path

/-! ### Segments and steps -/

/-- A segment that states a step inside a path is the text of that step. -/
theorem innerStep?_eq_some {segment : List UInt8} {c : Component} (hslash : slash ∉ segment)
    (h : innerStep? segment = some c) : c.IsInner ∧ c.text.bytes = segment := by
  unfold innerStep? isTrivial at h
  split at h
  · cases h
  next htrivial =>
    simp only [Bool.or_eq_true, List.isEmpty_iff, decide_eq_true_eq, not_or] at htrivial
    split at h
    next hparent =>
      cases h
      exact ⟨trivial, hparent.symm⟩
    next hparent =>
      cases h
      have hname : IsName ⟨segment⟩ := ⟨htrivial.1, hslash, htrivial.2, hparent⟩
      exact ⟨hname, rfl⟩

theorem innerStep?_text {c : Component} (h : c.IsInner) : innerStep? c.text.bytes = some c := by
  cases c with
  | root => exact h.elim
  | current => exact h.elim
  | parent => rfl
  | name text =>
    obtain ⟨hne, -, hdot, hdots⟩ := h
    simp [innerStep?, isTrivial, Component.text, hne, hdot, hdots]

/-- The text of a step inside a path says something, holds no slash and is no dot. -/
theorem text_of_isInner {c : Component} (h : c.IsInner) :
    slash ∉ c.text.bytes ∧ isTrivial c.text.bytes = false := by
  cases c with
  | root => exact h.elim
  | current => exact h.elim
  | parent => decide
  | name text =>
    obtain ⟨hne, hslash, hdot, -⟩ := h
    simp [Component.text, isTrivial, hne, hslash, hdot]

theorem filterMap_innerStep?_text {steps : List Component} (h : ∀ c ∈ steps, c.IsInner) :
    (steps.map fun c => c.text.bytes).filterMap innerStep? = steps := by
  induction steps with
  | nil => rfl
  | cons c steps ih =>
    rw [List.map_cons, List.filterMap_cons, innerStep?_text (h c (by simp)),
      ih fun d hd => h d (by simp [hd])]

/-- A segment that says nothing states no step. -/
theorem innerStep?_eq_none_iff {segment : List UInt8} :
    innerStep? segment = none ↔ isTrivial segment = true := by
  unfold innerStep?
  split
  next htrivial => simp [htrivial]
  next htrivial => split <;> simp [htrivial]

/-- The step that the first segment states. -/
def openingOf (first : List UInt8) (body : List (List UInt8)) : Option Component :=
  if first.isEmpty then (if body.isEmpty then none else some .root)
  else if first = [dot] then some .current
  else innerStep? first

theorem stepsOf_cons (first : List UInt8) (body : List (List UInt8)) :
    stepsOf (first :: body) = (openingOf first body).toList ++ body.filterMap innerStep? := rfl

theorem exists_segments (p : Path) : ∃ first body, p.segments = first :: body :=
  List.exists_cons_of_ne_nil (splitOn_ne_nil slash p.text.bytes)

theorem slash_notMem_segments {p : Path} {segment : List UInt8} (h : segment ∈ p.segments) :
    slash ∉ segment :=
  sep_notMem_of_mem_splitOn h

/-- The segments of a text in UTF-8 are those of its characters. -/
theorem segments_ofString (text : String) :
    segments ⟨text⟩ = (splitOn '/' text.toList).map RawText.encode :=
  RawText.splitOn_encode text.toList

/-- A text in UTF-8 is an absolute path, if its characters open with a slash. -/
theorem isAbsolute_ofString {text : String} :
    (⟨text⟩ : Path).isAbsolute = true ↔ text.toList.head? = some '/' := by
  rw [isAbsolute, decide_eq_true_iff, RawText.bytes_ofString, RawText.head?_encode_iff]

/-- The steps of a path are the root for an absolute path, a dot for some others, and the steps
inside. -/
theorem components_eq_append (p : Path) :
    ∃ opening : Option Component, p.components = opening.toList ++ p.segments.filterMap innerStep? ∧
      (p.isAbsolute = true ↔ opening = some .root) ∧ ∀ c ∈ opening, c = .root ∨ c = .current := by
  obtain ⟨first, body, hsegments⟩ := p.exists_segments
  have habsolute : p.isAbsolute = true ↔ first = [] ∧ body ≠ [] := by
    rw [isAbsolute, decide_eq_true_iff, head?_eq_sep_iff hsegments]
  rw [components, hsegments, stepsOf_cons, habsolute]
  by_cases hfirst : first = []
  · refine ⟨openingOf first body, ?_, ?_, ?_⟩
    · simp [hfirst, innerStep?, isTrivial]
    · cases body <;> simp [openingOf, hfirst]
    · cases body <;> simp [openingOf, hfirst]
  · by_cases hdot : first = [dot]
    · exact ⟨some .current, by simp [openingOf, hdot, innerStep?,
        isTrivial], by simp [hfirst], by simp⟩
    · refine ⟨none, ?_, by simp [hfirst], by simp⟩
      have hopening : openingOf first body = innerStep? first := by simp [openingOf, hfirst, hdot]
      rw [hopening, List.filterMap_cons]
      cases innerStep? first <;> simp

/-- The steps inside a path may stand inside. -/
theorem isInner_of_mem {p : Path} {c : Component} (h : c ∈ p.segments.filterMap innerStep?) :
    c.IsInner := by
  obtain ⟨segment, hmem, hstep⟩ := List.mem_filterMap.1 h
  exact (innerStep?_eq_some (slash_notMem_segments hmem) hstep).1

/-! ### Steps of normal forms -/

/-- The steps of a normal form, the last one first: names above the root, or above double dots. -/
inductive NormalStack : List Component → Prop where
  /-- No steps at all. -/
  | nil : NormalStack []
  /-- The root alone. -/
  | root : NormalStack [.root]
  /-- Double dots above double dots. -/
  | parent {stack : List Component} : (∀ c ∈ stack, c = .parent) → NormalStack (.parent :: stack)
  /-- A name above anything. -/
  | name {text : RawText} {stack : List Component} :
    IsName text → NormalStack stack → NormalStack (.name text :: stack)

theorem NormalStack.pushStep {stack : List Component} {c : Component} (h : NormalStack stack)
    (hc : c = .current ∨ c.IsInner) : NormalStack (Path.pushStep stack c) := by
  cases c with
  | root => simp [Component.IsInner] at hc
  | current => exact h
  | name text => exact .name (by simpa [Component.IsInner] using hc) h
  | parent =>
    cases h with
    | nil => exact .parent (by simp)
    | root => exact .root
    | parent hall => exact .parent (by simpa using hall)
    | name _ h => exact h

theorem NormalStack.foldl {steps stack : List Component} (h : NormalStack stack)
    (hsteps : ∀ c ∈ steps, c = .current ∨ c.IsInner) :
    NormalStack (steps.foldl Path.pushStep stack) := by
  induction steps generalizing stack with
  | nil => exact h
  | cons c steps ih =>
    exact ih (h.pushStep (hsteps c (by simp))) fun d hd => hsteps d (by simp [hd])

/-- Resolving the dots of any path gives the steps of a normal form. -/
theorem normalStack_components (p : Path) : NormalStack (p.components.foldl pushStep []) := by
  obtain ⟨opening, hp, -, hopening⟩ := p.components_eq_append
  rw [hp, List.foldl_append]
  refine NormalStack.foldl ?_ fun c hc => .inr (isInner_of_mem hc)
  cases opening with
  | none => exact .nil
  | some c =>
    rcases hopening c rfl with rfl | rfl
    · exact .root
    · exact .nil

/-- Resolving dots leaves the steps of a normal form alone. -/
theorem foldl_pushStep_reverse {stack : List Component} (h : NormalStack stack) :
    stack.reverse.foldl pushStep [] = stack := by
  induction h with
  | nil => rfl
  | root => rfl
  | @parent stack hall =>
    rw [List.eq_replicate_of_mem hall]
    generalize stack.length = n
    induction n with
    | zero => rfl
    | succ n ih =>
      rw [List.replicate_succ, List.reverse_cons, List.foldl_append, ih]
      rfl
  | name _ _ ih =>
    rw [List.reverse_cons, List.foldl_append, ih]
    rfl

/-- Above the opening of a normal form stand steps that may stand inside a path. -/
theorem NormalStack.cases_reverse {stack : List Component} (h : NormalStack stack) :
    (∃ inner, stack.reverse = .root :: inner ∧ ∀ c ∈ inner, c.IsInner) ∨
      ∀ c ∈ stack.reverse, c.IsInner := by
  induction h with
  | nil => exact .inr (by simp)
  | root => exact .inl ⟨[], rfl, by simp⟩
  | parent hall =>
    refine .inr fun c hc => ?_
    rcases List.mem_cons.1 (List.mem_reverse.1 hc) with rfl | hc
    · exact trivial
    · rw [hall c hc]
      exact trivial
  | name hname _ ih =>
    rcases ih with ⟨inner, heq, hinner⟩ | hinner
    · refine .inl ⟨inner ++ [.name _], by rw [List.reverse_cons, heq]; rfl, fun c hc => ?_⟩
      rcases List.mem_append.1 hc with hc | hc
      · exact hinner c hc
      · rw [List.mem_singleton.1 hc]
        exact hname
    · refine .inr fun c hc => ?_
      rcases List.mem_cons.1 (List.mem_reverse.1 hc) with rfl | hc
      · exact hname
      · exact hinner c (List.mem_reverse.2 hc)

/-! ### Reading steps back -/

theorem bytes_ofSteps_root (inner : List Component) :
    (ofSteps (.root :: inner)).text.bytes =
      slash :: [slash].intercalate (inner.map fun c => c.text.bytes) := rfl

theorem bytes_ofSteps_of_isInner {steps : List Component} (h : ∀ c ∈ steps, c.IsInner) :
    (ofSteps steps).text.bytes = [slash].intercalate (steps.map fun c => c.text.bytes) := by
  unfold ofSteps
  split
  · exact (h .root (by simp)).elim
  · rfl

/-- The segments of a path with these steps after the root. -/
theorem segments_ofSteps_root {inner : List Component} (h : ∀ c ∈ inner, c.IsInner) :
    (ofSteps (.root :: inner)).segments =
      [] :: if inner.isEmpty then [[]] else inner.map fun c => c.text.bytes := by
  rw [segments, bytes_ofSteps_root, ← List.nil_append (slash :: _), splitOn_append_cons (by simp)]
  cases inner with
  | nil => rfl
  | cons c inner =>
    rw [splitOn_intercalate (by simp)]
    · simp
    · intro segment hmem
      obtain ⟨d, hd, rfl⟩ := List.mem_map.1 hmem
      exact (text_of_isInner (h d hd)).1

/-- The segments of a path with these steps and no root. -/
theorem segments_ofSteps_of_isInner {steps : List Component} (h : ∀ c ∈ steps, c.IsInner) :
    (ofSteps steps).segments = if steps.isEmpty then [[]] else steps.map fun c => c.text.bytes := by
  rw [segments, bytes_ofSteps_of_isInner h]
  cases steps with
  | nil => rfl
  | cons c steps =>
    rw [splitOn_intercalate (by simp)]
    · simp
    · intro segment hmem
      obtain ⟨d, hd, rfl⟩ := List.mem_map.1 hmem
      exact (text_of_isInner (h d hd)).1

theorem components_ofSteps_root {inner : List Component} (h : ∀ c ∈ inner, c.IsInner) :
    (ofSteps (.root :: inner)).components = .root :: inner := by
  rw [components, segments_ofSteps_root h]
  cases inner with
  | nil => rfl
  | cons c inner =>
    have := filterMap_innerStep?_text h
    simp only [List.isEmpty_cons, Bool.false_eq_true, if_false, stepsOf, List.isEmpty_nil, if_true,
      List.map_cons] at this ⊢
    rw [this]
    rfl

theorem components_ofSteps_of_isInner {steps : List Component} (h : ∀ c ∈ steps, c.IsInner) :
    (ofSteps steps).components = steps := by
  rw [components, segments_ofSteps_of_isInner h]
  cases steps with
  | nil => rfl
  | cons c steps =>
    have hc := text_of_isInner (h c (by simp))
    simp only [isTrivial, Bool.or_eq_false_iff, decide_eq_false_iff_not] at hc
    simp only [List.isEmpty_cons, Bool.false_eq_true, if_false, List.map_cons, stepsOf, hc.2.1,
      hc.2.2, innerStep?_text (h c (by simp)), filterMap_innerStep?_text fun d hd =>
      h d (List.mem_cons_of_mem c hd)]
    rfl

/-- The steps of a normal form can be read back from its text. -/
theorem components_ofSteps {stack : List Component} (h : NormalStack stack) :
    (ofSteps stack.reverse).components = stack.reverse := by
  rcases h.cases_reverse with ⟨inner, heq, hinner⟩ | hinner
  · rw [heq, components_ofSteps_root hinner]
  · rw [components_ofSteps_of_isInner hinner]

@[simp] theorem components_normalize (p : Path) :
    p.normalize.components = normalSteps p.components :=
  components_ofSteps (normalStack_components p)

@[simp] theorem normalize_normalize (p : Path) : p.normalize.normalize = p.normalize := by
  rw [normalize, components_normalize, normalSteps, normalSteps,
    foldl_pushStep_reverse (normalStack_components p)]
  rfl

/-! ### Paths in normal form -/

/-- A path that is its own normal form. -/
def IsNormal (p : Path) : Prop :=
  p.normalize = p

theorem isNormal_normalize (p : Path) : p.normalize.IsNormal :=
  normalize_normalize p

/-- Paths in normal form with the same components are the same text. -/
theorem IsNormal.eq {p q : Path} (hp : p.IsNormal) (hq : q.IsNormal)
    (h : p.components = q.components) : p = q := by
  rw [← hp, ← hq, normalize, normalize, h]

/-- A path in normal form is the text of the steps of a normal form. -/
theorem IsNormal.exists_stack {p : Path} (h : p.IsNormal) :
    ∃ stack, NormalStack stack ∧ p = ofSteps stack.reverse :=
  ⟨_, normalStack_components p, h.symm⟩

theorem isNormal_ofSteps {stack : List Component} (h : NormalStack stack) :
    (ofSteps stack.reverse).IsNormal := by
  rw [IsNormal, normalize, components_ofSteps h, normalSteps, foldl_pushStep_reverse h]

end Path

end TemplateAtlas
